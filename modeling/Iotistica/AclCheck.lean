import Iotistica.AclPatterns
import Mathlib.Data.List.Perm.Basic

/-!
# The check of access rules

A rule with a wildcard carries a compiled pattern, any other one its topic
only. The check goes through the rules until one matches and has the bits
that are asked for. One filter that does not compile makes every request of
its user fail.
-/

set_option autoImplicit false

namespace Iotistica.Acl
open Iotistica.JsSort Iotistica.JsText Iotistica.JsNumerals Iotistica.AnchoredPatterns
open Iotistica.TopicRouting (levelsMatch)

structure MqttAclRow where
  topic : String
  access : BitVec 32

structure CachedAclRule where
  access : BitVec 32
  matcher : Option Test
  topic : String

def getOrCreateAclMatcher (engine : Engine) (topic : String) : Option (Option Test) :=
  if !hasWildcard topic then some none else (compile engine (patternSource topic)).map some

def buildCachedAclRule (engine : Engine) (row : MqttAclRow) : Option CachedAclRule :=
  (getOrCreateAclMatcher engine row.topic).map fun matcher => ⟨row.access,matcher,row.topic⟩

def topicMatches (topic : String) (rule : CachedAclRule) : Bool :=
  if topic = rule.topic then true
  else
    match rule.matcher with
    | some test => test (utf16 topic)
    | none => false

def hasAccess (access : BitVec 32) (resolvedAcc : Option ℤ) : Bool :=
  match resolvedAcc with
  | some acc => (access &&& BitVec.ofInt 32 acc).toInt = acc
  | none => false

inductive Reply where
  | allow
  | deny (status : ℕ) (error : String)
  deriving DecidableEq

def checkRules (topic : String) (resolvedAcc : Option ℤ) : List CachedAclRule → Reply
  | [] => .deny 403 "Access denied"
  | rule :: rules =>
    if !topicMatches topic rule then checkRules topic resolvedAcc rules
    else if hasAccess rule.access resolvedAcc then .allow
    else checkRules topic resolvedAcc rules

def aclReply (engine : Engine) (isSuperuser : Bool) (rows : List MqttAclRow) (topic : String)
    (resolvedAcc : Option ℤ) : Reply :=
  if isSuperuser then .allow
  else
    match rows.mapM (buildCachedAclRule engine) with
    | none => .deny 500 "Internal server error"
    | some [] => .deny 403 "No ACL rules found"
    | some rules => checkRules topic resolvedAcc rules

structure AclRequest where
  username : Option String
  topic : Option String
  acc : Option (String ⊕ ℤ)
  action : Option String

def resolvedAcc (req : AclRequest) : Option ℤ :=
  match req.acc with
  | some (.inl text) => parseInt text
  | some (.inr n) => some n
  | none => some (if req.action = some "publish" then 2 else 1)

structure Database where
  isSuperuser : String → Bool
  acls : String → List MqttAclRow

def acl (engine : Engine) (db : Database) (req : AclRequest) : Reply :=
  match req.username,req.topic with
  | some username,some topic =>
    if req.acc.isNone && req.action.isNone then .deny 403 "Missing parameters"
    else aclReply engine (db.isSuperuser username) (db.acls username) topic (resolvedAcc req)
  | _,_ => .deny 403 "Missing parameters"

def filterMatches (filter topic : String) : Bool :=
  levelsMatch (split filter '/') (split topic '/')

def misses (filter topic : String) : Bool := missed (split filter '/') (split topic '/')

def ValidFilter (filter : String) : Prop := validLevels (split filter '/') = true

instance (filter : String) : Decidable (ValidFilter filter) :=
  inferInstanceAs (Decidable (_ = true))

def Clear (filter topic : String) : Prop :=
  filter = topic ∨
    plainFilter filter = true ∧ filterMatches filter topic = true ∧ misses filter topic = false

def Accidental (engine : Engine) (filter topic : String) : Prop :=
  hasWildcard filter = true ∧ plainFilter filter = false ∧
    if dottedFilter filter then Reads filter.toList (utf16 topic)
    else ∃ test, compile engine (patternSource filter) = some test ∧ test (utf16 topic) = true

def Malformed (engine : Engine) (filter : String) : Prop :=
  hasWildcard filter = true ∧ dottedFilter filter = false ∧
    compile engine (patternSource filter) = none

theorem levelsMatch_self (ps : List String) : levelsMatch ps ps = true := by
  induction ps with
  | nil => rfl
  | cons p ps ih =>
    unfold levelsMatch
    split
    · rfl
    · simp [ih]

theorem literal_levels {ps ts : List String} (hw : ∀ p ∈ ps, hasWildcard p = false) :
    levelsMatch ps ts = true ↔ ps = ts := by
  induction ps generalizing ts with
  | nil =>
    cases ts with
    | nil => simp [levelsMatch]
    | cons t ts => simp [levelsMatch]
  | cons p ps ih =>
    have hp := hw p List.mem_cons_self
    have hhash : p ≠ "#" := not_hash (Or.inr hp)
    have hplus : p ≠ "+" := by
      rintro rfl
      exact absurd hp (by decide)
    have htail : ∀ q ∈ ps, hasWildcard q = false := fun q hq => hw q (List.mem_cons_of_mem _ hq)
    cases ts with
    | nil => simp [levelsMatch, hhash]
    | cons t ts =>
      have ih : levelsMatch ps ts = true ↔ ps = ts := ih htail
      simp [levelsMatch, hhash, hplus, ih]

theorem mem_of_mem_splitChars {c d : Char} {cs p : List Char} (hp : p ∈ splitChars c cs)
    (hd : d ∈ p) : d ∈ cs := by
  induction cs generalizing p with
  | nil =>
    rw [splitChars, List.mem_singleton] at hp
    rwa [hp] at hd
  | cons x cs ih =>
    unfold splitChars at hp
    split at hp
    · rcases List.mem_cons.mp hp with rfl | hp
      · cases hd
      · exact List.mem_cons_of_mem _ (ih hp hd)
    · cases hs : splitChars c cs with
      | nil => exact absurd hs (splitChars_ne_nil c cs)
      | cons q qs =>
        rw [hs] at hp ih
        rcases List.mem_cons.mp hp with rfl | hp
        · rcases List.mem_cons.mp hd with rfl | hd
          · exact List.mem_cons_self
          · exact List.mem_cons_of_mem _ (ih List.mem_cons_self hd)
        · exact List.mem_cons_of_mem _ (ih (List.mem_cons_of_mem _ hp) hd)

theorem mem_of_mem_split {s p : String} {c d : Char} (hp : p ∈ split s c) (hd : d ∈ p.toList) :
    d ∈ s.toList := by
  obtain ⟨q,hq,rfl⟩ := List.mem_map.mp hp
  rw [String.toList_ofList] at hd
  exact mem_of_mem_splitChars hq hd

theorem hasWildcard_level {filter p : String} (hw : hasWildcard filter = false)
    (hp : p ∈ split filter '/') : hasWildcard p = false := by
  simp only [hasWildcard, Bool.or_eq_false_iff, List.contains_eq_mem,
    decide_eq_false_iff_not] at hw ⊢
  exact ⟨fun h => hw.1 (mem_of_mem_split hp h),fun h => hw.2 (mem_of_mem_split hp h)⟩

theorem filterMatches_literal {filter topic : String} (hw : hasWildcard filter = false) :
    filterMatches filter topic = true ↔ filter = topic := by
  rw [filterMatches, literal_levels (fun p hp => hasWildcard_level hw hp)]
  constructor
  · intro h
    rw [← join_split filter '/', h, join_split]
  · exact fun h => by rw [h]

theorem Clear.matches {filter topic : String} (h : Clear filter topic) :
    filterMatches filter topic = true := by
  rcases h with rfl | h
  · exact levelsMatch_self _
  · exact h.2.1

section
variable {engine : Engine} {row : MqttAclRow}

theorem build_none_iff : buildCachedAclRule engine row = none ↔ Malformed engine row.topic := by
  unfold buildCachedAclRule getOrCreateAclMatcher Malformed
  cases hw : hasWildcard row.topic with
  | false => simp
  | true =>
    cases hd : dottedFilter row.topic with
    | false => simp
    | true => simp [compile_dotted engine hd]

theorem topicMatches_iff (topic : String) (rule : CachedAclRule) :
    topicMatches topic rule = true ↔ rule.topic = topic ∨
      ∃ test, rule.matcher = some test ∧ test (utf16 topic) = true := by
  unfold topicMatches
  split
  · rename_i he
    simp [he]
  · rename_i hne
    have hne' : rule.topic ≠ topic := fun h => hne h.symm
    cases rule.matcher with
    | none => simp [hne']
    | some test => simp [hne']

theorem rule_matches {rule : CachedAclRule} {topic : String} (hv : ValidFilter row.topic)
    (h : buildCachedAclRule engine row = some rule) :
    topicMatches topic rule = true ↔
      Clear row.topic topic ∨ Accidental engine row.topic topic := by
  unfold buildCachedAclRule getOrCreateAclMatcher at h
  rw [topicMatches_iff]
  unfold Accidental
  cases hw : hasWildcard row.topic with
  | false =>
    simp only [hw, Bool.not_false, if_true, Option.map_some, Option.some.injEq] at h
    have hclear : Clear row.topic topic ↔ row.topic = topic := by
      refine ⟨fun hc => ?_,Or.inl⟩
      exact (filterMatches_literal hw).mp hc.matches
    rw [← h, hclear]
    simp
  | true =>
    simp only [hw, Bool.not_true, Bool.false_eq_true, if_false, Option.map_map,
      Option.map_eq_some_iff] at h
    obtain ⟨test,htest,rfl⟩ := h
    cases hp : plainFilter row.topic with
    | true =>
      rw [compile_plain engine hp] at htest
      obtain rfl := Option.some.inj htest
      have hread : matchPieces (row.topic.toList.map pieceOf) (utf16 topic) =
          (levelsMatch (split row.topic '/') (split topic '/') &&
            !missed (split row.topic '/') (split topic '/')) := match_plain hv
      simp [Clear, filterMatches, misses, hp, hread]
    | false =>
      cases hd : dottedFilter row.topic with
      | true =>
        rw [compile_dotted engine hd] at htest
        obtain rfl := Option.some.inj htest
        simp [Clear, hp, match_dotted]
      | false => simp [Clear, hp, htest]

theorem checkRules_allow (topic : String) (acc : Option ℤ) (rules : List CachedAclRule) :
    checkRules topic acc rules = .allow ↔
      ∃ rule ∈ rules, topicMatches topic rule = true ∧ hasAccess rule.access acc = true := by
  induction rules with
  | nil => simp [checkRules]
  | cons rule rules ih =>
    cases hm : topicMatches topic rule with
    | false => simp [checkRules, hm, ih]
    | true =>
      cases ha : hasAccess rule.access acc with
      | false => simp [checkRules, hm, ha, ih]
      | true => simp [checkRules, hm, ha]

theorem builds_some {rows : List MqttAclRow} {rules : List CachedAclRule}
    (h : rows.mapM (buildCachedAclRule engine) = some rules) :
    (∀ r ∈ rows, ∃ rule ∈ rules, buildCachedAclRule engine r = some rule) ∧
      ∀ rule ∈ rules, ∃ r ∈ rows, buildCachedAclRule engine r = some rule := by
  induction rows generalizing rules with
  | nil =>
    obtain rfl : [] = rules := Option.some.inj h
    exact ⟨fun r hr => absurd hr List.not_mem_nil,fun r hr => absurd hr List.not_mem_nil⟩
  | cons r rows ih =>
    rw [List.mapM_cons] at h
    obtain ⟨rule,hrule,h⟩ := Option.bind_eq_some_iff.mp h
    obtain ⟨rest,hrest,h⟩ := Option.bind_eq_some_iff.mp h
    obtain rfl := Option.some.inj h
    obtain ⟨hto,hfrom⟩ := ih hrest
    constructor
    · intro q hq
      rcases List.mem_cons.mp hq with rfl | hq
      · exact ⟨rule,List.mem_cons_self,hrule⟩
      · obtain ⟨u,hu,hbuild⟩ := hto q hq
        exact ⟨u,List.mem_cons_of_mem _ hu,hbuild⟩
    · intro u hu
      rcases List.mem_cons.mp hu with rfl | hu
      · exact ⟨r,List.mem_cons_self,hrule⟩
      · obtain ⟨q,hq,hbuild⟩ := hfrom u hu
        exact ⟨q,List.mem_cons_of_mem _ hq,hbuild⟩

theorem builds_none {rows : List MqttAclRow} :
    rows.mapM (buildCachedAclRule engine) = none ↔ ∃ r ∈ rows, Malformed engine r.topic := by
  induction rows with
  | nil => simp
  | cons r rows ih =>
    rw [List.mapM_cons]
    cases hr : buildCachedAclRule engine r with
    | none => simp [build_none_iff.mp hr]
    | some rule =>
      have hgood : ¬Malformed engine r.topic := fun hm => by
        rw [build_none_iff.mpr hm] at hr
        cases hr
      cases hrows : rows.mapM (buildCachedAclRule engine) with
      | none => simp [ih.mp hrows]
      | some rules =>
        have hrest : ¬∃ q ∈ rows, Malformed engine q.topic := fun hq => by
          rw [ih.mpr hq] at hrows
          cases hrows
        simp [hgood, hrest]

theorem build_access {rule : CachedAclRule} (h : buildCachedAclRule engine row = some rule) :
    rule.access = row.access := by
  obtain ⟨m,-,rfl⟩ := Option.map_eq_some_iff.mp h
  rfl

theorem aclReply_allow {rows : List MqttAclRow} (hv : ∀ r ∈ rows, ValidFilter r.topic)
    (topic : String) (acc : Option ℤ) :
    aclReply engine false rows topic acc = .allow ↔
      (∀ r ∈ rows, ¬Malformed engine r.topic) ∧
        ∃ r ∈ rows, hasAccess r.access acc = true ∧
          (Clear r.topic topic ∨ Accidental engine r.topic topic) := by
  cases hrows : rows.mapM (buildCachedAclRule engine) with
  | none =>
    obtain ⟨r,hr,hm⟩ := builds_none.mp hrows
    have hreply : aclReply engine false rows topic acc = .deny 500 "Internal server error" := by
      simp [aclReply, hrows]
    rw [hreply]
    exact iff_of_false (fun h => by cases h) (fun h => h.1 r hr hm)
  | some rules =>
    have hgood : ∀ r ∈ rows, ¬Malformed engine r.topic := fun r hr hm => by
      rw [builds_none.mpr ⟨r,hr,hm⟩] at hrows
      cases hrows
    have hreply : aclReply engine false rows topic acc = .allow ↔
        checkRules topic acc rules = .allow := by
      cases rules with
      | nil => simp [aclReply, hrows, checkRules]
      | cons rule rules => simp [aclReply, hrows]
    obtain ⟨hto,hfrom⟩ := builds_some hrows
    rw [hreply, checkRules_allow]
    constructor
    · rintro ⟨rule,hrule,hm,ha⟩
      obtain ⟨r,hr,hbuild⟩ := hfrom rule hrule
      rw [build_access hbuild] at ha
      exact ⟨hgood,r,hr,ha,(rule_matches (hv r hr) hbuild).mp hm⟩
    · rintro ⟨-,r,hr,ha,hm⟩
      obtain ⟨rule,hrule,hbuild⟩ := hto r hr
      refine ⟨rule,hrule,(rule_matches (hv r hr) hbuild).mpr hm,?_⟩
      rw [build_access hbuild]
      exact ha

end

structure AclTable where
  rows : List MqttAclRow
  valid : ∀ r ∈ rows, ValidFilter r.topic

structure TopicName where
  text : String
  concrete : hasWildcard text = false

inductive Access where
  | read
  | write

def Access.value : Access → ℤ
  | .read => 1
  | .write => 2

def Access.bit : Access → ℕ
  | .read => 0
  | .write => 1

theorem hasAccess_iff (mask : BitVec 32) (access : Access) :
    hasAccess mask (some access.value) = true ↔ mask.getLsbD access.bit = true := by
  cases access with
  | read =>
    have hbit : mask &&& BitVec.twoPow 32 0 = if mask.getLsbD 0 then BitVec.twoPow 32 0 else 0#32 :=
      BitVec.and_twoPow mask 0
    have hone : BitVec.ofInt 32 1 = BitVec.twoPow 32 0 := by decide
    simp only [hasAccess, Access.value, Access.bit, hone, hbit, decide_eq_true_eq]
    cases mask.getLsbD 0 with
    | false => decide
    | true => decide
  | write =>
    have hbit : mask &&& BitVec.twoPow 32 1 = if mask.getLsbD 1 then BitVec.twoPow 32 1 else 0#32 :=
      BitVec.and_twoPow mask 1
    have htwo : BitVec.ofInt 32 2 = BitVec.twoPow 32 1 := by decide
    simp only [hasAccess, Access.value, Access.bit, htwo, hbit, decide_eq_true_eq]
    cases mask.getLsbD 1 with
    | false => decide
    | true => decide

def permitted (table : AclTable) (access : Access) : List MqttAclRow :=
  table.rows.filter fun r => r.access.getLsbD access.bit

def Entitled (table : AclTable) (topic : TopicName) (access : Access) : Prop :=
  ∃ r ∈ permitted table access, filterMatches r.topic topic.text = true

instance (table : AclTable) (topic : TopicName) (access : Access) :
    Decidable (Entitled table topic access) :=
  inferInstanceAs (Decidable (∃ r ∈ permitted table access, _))

structure Exact (engine : Engine) (table : AclTable) (topic : TopicName) (access : Access) :
    Prop where
  decides : aclReply engine false table.rows topic.text (some access.value) = .allow ↔
    Entitled table topic access
  unordered : ∀ rows, rows.Perm table.rows →
    (aclReply engine false rows topic.text (some access.value) = .allow ↔
      aclReply engine false table.rows topic.text (some access.value) = .allow)

/-- Who is entitled is heard by a rule that reads the topic, and who is not
meets no expression that matches without its filter. -/
structure Heeded (engine : Engine) (table : AclTable) (topic : TopicName) (access : Access) :
    Prop where
  heard : Entitled table topic access → (∀ r ∈ table.rows, ¬Malformed engine r.topic) ∧
    ∃ r ∈ permitted table access, Clear r.topic topic.text ∨ Accidental engine r.topic topic.text
  apart : ¬Entitled table topic access → (∀ r ∈ table.rows, ¬Malformed engine r.topic) →
    ∀ r ∈ permitted table access, ¬Accidental engine r.topic topic.text

theorem allow_permitted (engine : Engine) (table : AclTable) (topic : String) (access : Access) :
    aclReply engine false table.rows topic (some access.value) = .allow ↔
      (∀ r ∈ table.rows, ¬Malformed engine r.topic) ∧
        ∃ r ∈ permitted table access, Clear r.topic topic ∨ Accidental engine r.topic topic := by
  rw [aclReply_allow table.valid]
  simp only [hasAccess_iff, permitted, List.mem_filter, and_assoc]

theorem exact_iff (engine : Engine) (table : AclTable) (topic : TopicName) (access : Access) :
    Exact engine table topic access ↔ Heeded engine table topic access := by
  have hallow := allow_permitted engine table topic.text access
  constructor
  · intro h
    refine ⟨fun he => hallow.mp (h.decides.mpr he),fun hn hgood r hr hacc => ?_⟩
    exact hn (h.decides.mp (hallow.mpr ⟨hgood,r,hr,Or.inr hacc⟩))
  · intro h
    refine ⟨⟨fun ha => ?_,fun he => hallow.mpr (h.heard he)⟩,fun rows hp => ?_⟩
    · obtain ⟨hgood,r,hr,hclear | hacc⟩ := hallow.mp ha
      · exact ⟨r,hr,hclear.matches⟩
      · by_contra hn
        exact h.apart hn hgood r hr hacc
    · have hv : ∀ r ∈ rows, ValidFilter r.topic := fun r hr => table.valid r (hp.mem_iff.mp hr)
      rw [aclReply_allow hv, aclReply_allow table.valid]
      simp only [hp.mem_iff]

def versionTable : AclTable := ⟨[⟨"v1.0/+",2⟩],by decide +kernel⟩

theorem dot_grants_letter :
    aclReply (fun _ => none) false versionTable.rows "v1x0/door" (some Access.write.value) =
      .allow ∧
    ¬Exact (fun _ => none) versionTable ⟨"v1x0/door",by decide⟩ .write := by
  have hgranted : aclReply (fun _ => none) false versionTable.rows "v1x0/door"
      (some Access.write.value) = .allow := by decide +kernel
  have hnot : ¬Entitled versionTable ⟨"v1x0/door",by decide⟩ .write := by decide +kernel
  exact ⟨hgranted,fun h => hnot (h.decides.mp hgranted)⟩

end Iotistica.Acl
