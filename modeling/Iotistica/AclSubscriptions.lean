import Iotistica.AclCheck
import Mathlib.Algebra.Order.BigOperators.Group.List

/-!
# Granted subscriptions

A requested filter is checked as if it were a topic, so a plus of a rule may
stand on its final hash. That is the one way in which a plain rule grants
more than it matches. Whether the rules cover a filter is decided by finitely
many topics, with a level of their own in the place of each plus and of the
levels under a hash.
-/

set_option autoImplicit false

namespace Iotistica.Acl
open Iotistica.JsText Iotistica.AnchoredPatterns
open Iotistica.TopicRouting (levelsMatch)

structure TopicFilter where
  text : String
  valid : ValidFilter text

def granting (table : AclTable) (acc : ℤ) : List MqttAclRow :=
  table.rows.filter fun r => hasAccess r.access (some acc)

def Covered (table : AclTable) (filter : TopicFilter) (acc : ℤ) : Prop :=
  ∀ topic : TopicName, filterMatches filter.text topic.text = true →
    ∃ r ∈ granting table acc, filterMatches r.topic topic.text = true

def plusOnHash : List String → List String → Bool
  | [p],[g] => p = "+" && g = "#"
  | _ :: ps,_ :: gs => plusOnHash ps gs
  | _,_ => false

def Widens (rule filter : String) : Prop :=
  rule ≠ filter ∧ plusOnHash (split rule '/') (split filter '/') = true

instance (rule filter : String) : Decidable (Widens rule filter) :=
  inferInstanceAs (Decidable (_ ∧ _))

theorem levelsMatch_cons {p : String} {ps : List String} (h : ¬(p = "#" ∧ ps = []))
    (ts : List String) : levelsMatch (p :: ps) ts = true ↔
      ∃ t us, ts = t :: us ∧ (p = "+" ∨ p = t) ∧ levelsMatch ps us = true := by
  cases ts with
  | nil => simp [levelsMatch, h]
  | cons t ts => simp [levelsMatch, h]

theorem missed_cons {p : String} {ps : List String} (h : ¬(p = "#" ∧ ps = [])) (t : String)
    (ts : List String) : missed (p :: ps) (t :: ts) = ((p = "+" && t = "") || missed ps ts) := by
  simp [missed, h]

/-- A rule that reads the request and does not widen it matches what the
request matches. -/
theorem contained {ps gs : List String} (hp : validLevels ps = true) (hg : validLevels gs = true)
    (hm : levelsMatch ps gs = true) (hmissed : missed ps gs = false)
    (hw : plusOnHash ps gs = false) {ts : List String} (ht : levelsMatch gs ts = true) :
    levelsMatch ps ts = true := by
  induction ps generalizing gs ts with
  | nil =>
    cases gs with
    | nil => exact ht
    | cons g gs => cases hm
  | cons p ps ih =>
    by_cases hhash : p = "#" ∧ ps = []
    · simp [levelsMatch, hhash]
    obtain ⟨g,gs,rfl,heq,hrest⟩ := (levelsMatch_cons hhash _).mp hm
    rw [missed_cons hhash, Bool.or_eq_false_iff] at hmissed
    have hpw : p = "+" ∨ hasWildcard p = false := by
      rcases validLevels_head hp with h | h
      · exact absurd h hhash
      · exact h
    by_cases hlast : g = "#" ∧ gs = []
    · -- the rule ends here too, or it would miss
      obtain ⟨rfl,rfl⟩ := hlast
      exfalso
      have hplus : p = "+" := by
        rcases heq with h | h
        · exact h
        · exact absurd h (not_hash hpw)
      cases ps with
      | nil => simp [plusOnHash, hplus] at hw
      | cons q qs =>
        by_cases hq : q = "#" ∧ qs = []
        · simp [missed, hq] at hmissed
        · obtain ⟨_,_,hnil,-⟩ := (levelsMatch_cons hq _).mp hrest
          cases hnil
    · obtain ⟨t,us,rfl,hgt,hus⟩ := (levelsMatch_cons hlast _).mp ht
      refine (levelsMatch_cons hhash _).mpr ⟨t,us,rfl,?_,?_⟩
      · rcases heq with h | rfl
        · exact Or.inl h
        · exact hgt
      · have hw' : plusOnHash ps gs = false := by
          cases ps with
          | nil =>
            cases gs with
            | nil => rfl
            | cons _ _ => rfl
          | cons q qs => simpa [plusOnHash] using hw
        exact ih (validLevels_tail hp) (validLevels_tail hg) hrest hmissed.2 hw' hus

theorem Clear.contains {rule : String} {filter : TopicFilter} (hv : ValidFilter rule)
    (hc : Clear rule filter.text) (hw : ¬Widens rule filter.text) {topic : String}
    (ht : filterMatches filter.text topic = true) : filterMatches rule topic = true := by
  by_cases heq : rule = filter.text
  · rw [heq]
    exact ht
  · rcases hc with h | ⟨-,hm,hmissed⟩
    · exact absurd h heq
    · have hplus : plusOnHash (split rule '/') (split filter.text '/') = false := by
        rw [← Bool.not_eq_true]
        exact fun h => hw ⟨heq,h⟩
      exact contained hv filter.valid hm hmissed hplus ht

/-- The request with a level in the place of each plus, and this many of them
under a hash. -/
def filled (fresh : String) (k : ℕ) : List String → List String
  | [] => []
  | g :: gs =>
    if g = "#" ∧ gs = [] then List.replicate k fresh
    else (if g = "+" then fresh else g) :: filled fresh k gs

theorem filled_cons {g : String} {gs : List String} (h : ¬(g = "#" ∧ gs = [])) (fresh : String)
    (k : ℕ) : filled fresh k (g :: gs) = (if g = "+" then fresh else g) :: filled fresh k gs :=
  if_neg h

section
variable {fresh : String} {ps gs : List String}

theorem matches_of_replicate (hf : ∀ p ∈ ps, p ≠ fresh) {ts : List String}
    (hm : levelsMatch ps (List.replicate ts.length fresh) = true) : levelsMatch ps ts = true := by
  induction ps generalizing ts with
  | nil =>
    cases ts with
    | nil => rfl
    | cons t ts => cases hm
  | cons p ps ih =>
    by_cases hhash : p = "#" ∧ ps = []
    · simp [levelsMatch, hhash]
    cases ts with
    | nil => exact hm
    | cons t ts =>
      obtain ⟨u,us,hl,hp,hrest⟩ := (levelsMatch_cons hhash _).mp hm
      obtain ⟨rfl,rfl⟩ := List.cons.inj hl
      refine (levelsMatch_cons hhash _).mpr ⟨t,ts,rfl,?_,?_⟩
      · rcases hp with h | h
        · exact Or.inl h
        · exact absurd h (hf p List.mem_cons_self)
      · exact ih (fun q hq => hf q (List.mem_cons_of_mem _ hq)) hrest

/-- A rule without the fresh level reads every other level where it reads
that one. -/
theorem matches_of_filled (hf : ∀ p ∈ ps, p ≠ fresh) (k : ℕ) {ts : List String}
    (hlen : ts.length = (filled fresh k gs).length)
    (hm : levelsMatch ps (filled fresh k gs) = true) (ht : levelsMatch gs ts = true) :
    levelsMatch ps ts = true := by
  induction gs generalizing ps ts with
  | nil =>
    obtain rfl := List.eq_nil_of_length_eq_zero hlen
    exact hm
  | cons g gs ih =>
    by_cases hg : g = "#" ∧ gs = []
    · rw [filled, if_pos hg] at hm hlen
      rw [List.length_replicate] at hlen
      rw [← hlen] at hm
      exact matches_of_replicate hf hm
    · rw [filled_cons hg] at hm hlen
      obtain ⟨t,us,rfl,hgt,hus⟩ := (levelsMatch_cons hg _).mp ht
      cases ps with
      | nil => cases hm
      | cons p ps =>
        by_cases hhash : p = "#" ∧ ps = []
        · simp [levelsMatch, hhash]
        obtain ⟨x,xs,hl,hp,hrest⟩ := (levelsMatch_cons hhash _).mp hm
        obtain ⟨rfl,rfl⟩ := List.cons.inj hl
        refine (levelsMatch_cons hhash _).mpr ⟨t,us,rfl,?_,?_⟩
        · rcases hp with h | h
          · exact Or.inl h
          · split at h
            · exact absurd h (hf p List.mem_cons_self)
            · rename_i hplus
              rcases hgt with hgt | hgt
              · exact absurd hgt hplus
              · exact Or.inr (h.trans hgt)
        · exact ih (fun q hq => hf q (List.mem_cons_of_mem _ hq)) (by simpa using hlen) hrest hus

theorem replicate_more {k m : ℕ} (hk : ps.length < k) (hkm : k ≤ m)
    (hm : levelsMatch ps (List.replicate k fresh) = true) :
    levelsMatch ps (List.replicate m fresh) = true := by
  induction ps generalizing k m with
  | nil =>
    cases k with
    | zero => exact absurd hk (Nat.lt_irrefl 0)
    | succ k => cases hm
  | cons p ps ih =>
    by_cases hhash : p = "#" ∧ ps = []
    · simp [levelsMatch, hhash]
    obtain ⟨x,xs,hl,hp,hrest⟩ := (levelsMatch_cons hhash _).mp hm
    cases k with
    | zero => cases hl
    | succ k =>
      cases m with
      | zero => omega
      | succ m =>
        obtain ⟨rfl,rfl⟩ := List.cons.inj hl
        refine (levelsMatch_cons hhash _).mpr ⟨fresh,List.replicate m fresh,rfl,hp,?_⟩
        exact ih (by simpa using hk) (by omega) hrest

theorem filled_more {k m : ℕ} (hk : ps.length < k) (hkm : k ≤ m)
    (hm : levelsMatch ps (filled fresh k gs) = true) :
    levelsMatch ps (filled fresh m gs) = true := by
  induction gs generalizing ps with
  | nil => exact hm
  | cons g gs ih =>
    by_cases hg : g = "#" ∧ gs = []
    · rw [filled, if_pos hg] at hm ⊢
      exact replicate_more hk hkm hm
    · rw [filled_cons hg] at hm ⊢
      cases ps with
      | nil => cases hm
      | cons p ps =>
        by_cases hhash : p = "#" ∧ ps = []
        · simp [levelsMatch, hhash]
        obtain ⟨x,xs,hl,hp,hrest⟩ := (levelsMatch_cons hhash _).mp hm
        obtain ⟨rfl,rfl⟩ := List.cons.inj hl
        refine (levelsMatch_cons hhash _).mpr ⟨_,_,rfl,hp,?_⟩
        rw [List.length_cons] at hk
        exact ih (by omega) hrest

theorem filled_length {ts : List String} (hm : levelsMatch gs ts = true) :
    ∃ k, ts.length = (filled fresh k gs).length := by
  induction gs generalizing ts with
  | nil =>
    cases ts with
    | nil => exact ⟨0,rfl⟩
    | cons t ts => cases hm
  | cons g gs ih =>
    by_cases hg : g = "#" ∧ gs = []
    · refine ⟨ts.length,?_⟩
      rw [filled, if_pos hg, List.length_replicate]
    · obtain ⟨t,us,rfl,-,hus⟩ := (levelsMatch_cons hg _).mp hm
      obtain ⟨k,hk⟩ := ih hus
      refine ⟨k,?_⟩
      rw [filled_cons hg, List.length_cons, List.length_cons, hk]

theorem levelsMatch_filled (k : ℕ) : levelsMatch gs (filled fresh k gs) = true := by
  induction gs with
  | nil => rfl
  | cons g gs ih =>
    by_cases hg : g = "#" ∧ gs = []
    · simp [levelsMatch, hg]
    · rw [filled_cons hg]
      refine (levelsMatch_cons hg _).mpr ⟨_,_,rfl,?_,ih⟩
      split
      · rename_i hplus
        exact Or.inl hplus
      · exact Or.inr rfl

end

def freshLevel (table : AclTable) : String :=
  String.ofList (List.replicate
    (((table.rows.flatMap fun r => split r.topic '/').map String.length).sum+1) 'x')

def depth (table : AclTable) : ℕ :=
  (table.rows.map fun r => (split r.topic '/').length).sum+1

/-- The rules with the bits match the request with fresh levels, of which no
more than the depth stand under its hash. A topic has a level. -/
def CoversFresh (table : AclTable) (filter : TopicFilter) (acc : ℤ) : Prop :=
  ∀ k ≤ depth table, filled (freshLevel table) k (split filter.text '/') ≠ [] →
    ∃ r ∈ granting table acc,
      levelsMatch (split r.topic '/') (filled (freshLevel table) k (split filter.text '/')) = true

instance (table : AclTable) (filter : TopicFilter) (acc : ℤ) :
    Decidable (CoversFresh table filter acc) :=
  inferInstanceAs (Decidable (∀ k ≤ depth table, _ → _))

theorem freshLevel_apart {table : AclTable} {r : MqttAclRow} (hr : r ∈ table.rows) :
    ∀ p ∈ split r.topic '/', p ≠ freshLevel table := by
  rintro p hp rfl
  have hmem : (freshLevel table).length ∈
      (table.rows.flatMap fun r => split r.topic '/').map String.length :=
    List.mem_map_of_mem (List.mem_flatMap.mpr ⟨r,hr,hp⟩)
  have hle := List.le_sum_of_mem hmem
  rw [freshLevel, ← String.length_toList, String.toList_ofList, List.length_replicate] at hle
  omega

theorem length_lt_depth {table : AclTable} {r : MqttAclRow} (hr : r ∈ table.rows) :
    (split r.topic '/').length < depth table := by
  have hmem : (split r.topic '/').length ∈
      table.rows.map fun r => (split r.topic '/').length := List.mem_map_of_mem hr
  exact Nat.lt_succ_of_le (List.le_sum_of_mem hmem)

theorem filled_ne_nil {fresh : String} {k m : ℕ} {gs : List String} (hm : m ≠ 0)
    (h : filled fresh k gs ≠ []) : filled fresh m gs ≠ [] := by
  cases gs with
  | nil => exact h
  | cons g gs =>
    by_cases hg : g = "#" ∧ gs = []
    · rw [filled, if_pos hg]
      simpa using hm
    · rw [filled_cons hg]
      exact List.cons_ne_nil _ _

theorem hasWildcard_fresh (table : AclTable) : hasWildcard (freshLevel table) = false := by
  simp [hasWildcard, freshLevel, List.mem_replicate]

theorem filled_levels {fresh : String} (hfresh : hasWildcard fresh = false)
    (hslash : '/' ∉ fresh.toList) (k : ℕ) {gs : List String} (hv : validLevels gs = true)
    (hs : ∀ g ∈ gs, '/' ∉ g.toList) :
    ∀ l ∈ filled fresh k gs, hasWildcard l = false ∧ '/' ∉ l.toList := by
  induction gs with
  | nil => exact fun l hl => absurd hl List.not_mem_nil
  | cons g gs ih =>
    intro l hl
    by_cases hg : g = "#" ∧ gs = []
    · rw [filled, if_pos hg, List.mem_replicate] at hl
      rw [hl.2]
      exact ⟨hfresh,hslash⟩
    · rw [filled_cons hg] at hl
      rcases List.mem_cons.mp hl with rfl | hl
      · split
        · exact ⟨hfresh,hslash⟩
        · rename_i hplus
          refine ⟨?_,hs g List.mem_cons_self⟩
          rcases validLevels_head hv with h | h | h
          · exact absurd h hg
          · exact absurd h hplus
          · exact h
      · exact ih (validLevels_tail hv) (fun q hq => hs q (List.mem_cons_of_mem _ hq)) l hl

theorem hasWildcard_join {levels : List String} (h : ∀ l ∈ levels, hasWildcard l = false) :
    hasWildcard (join levels '/') = false := by
  have hnone : ∀ c, (∀ l ∈ levels, c ∉ l.toList) → c ≠ '/' → c ∉ (join levels '/').toList := by
    intro c hc hne
    induction levels with
    | nil => simp [join]
    | cons l levels ih =>
      have ih := ih (fun q hq => h q (List.mem_cons_of_mem _ hq))
        (fun q hq => hc q (List.mem_cons_of_mem _ hq))
      cases levels with
      | nil =>
        rw [join_single]
        exact hc l List.mem_cons_self
      | cons m levels =>
        have hl := hc l List.mem_cons_self
        rw [join_cons]
        simp [hl, hne, ih]
  simp only [hasWildcard, Bool.or_eq_false_iff, List.contains_eq_mem,
    decide_eq_false_iff_not] at h ⊢
  exact ⟨hnone '+' (fun l hl => (h l hl).1) (by decide),
    hnone '#' (fun l hl => (h l hl).2) (by decide)⟩

theorem covered_iff (table : AclTable) (filter : TopicFilter) (acc : ℤ) :
    Covered table filter acc ↔ CoversFresh table filter acc := by
  have hslash : '/' ∉ (freshLevel table).toList := by simp [freshLevel, List.mem_replicate]
  constructor
  · intro h k _ hne
    have hlevels := filled_levels (hasWildcard_fresh table) hslash k filter.valid
      (fun g hg => not_mem_of_mem_split hg)
    have hsplit := split_join hne (fun l hl => (hlevels l hl).2)
    have hcovered := h ⟨join _ '/',hasWildcard_join (fun l hl => (hlevels l hl).1)⟩
    simp only [filterMatches, hsplit] at hcovered
    exact hcovered (levelsMatch_filled k)
  · intro h topic ht
    obtain ⟨k,hk⟩ : ∃ k, (split topic.text '/').length =
        (filled (freshLevel table) k (split filter.text '/')).length := filled_length ht
    have hts : split topic.text '/' ≠ [] := by simp [split, splitChars_ne_nil]
    have hne : filled (freshLevel table) k (split filter.text '/') ≠ [] := by
      intro hnil
      rw [hnil] at hk
      exact hts (List.eq_nil_of_length_eq_zero hk)
    by_cases hdepth : k ≤ depth table
    · obtain ⟨r,hr,hm⟩ := h k hdepth hne
      exact ⟨r,hr,matches_of_filled (freshLevel_apart (List.mem_filter.mp hr).1) k hk hm ht⟩
    · have hpos : depth table ≠ 0 := Nat.succ_ne_zero _
      obtain ⟨r,hr,hm⟩ := h (depth table) (Nat.le_refl _) (filled_ne_nil hpos hne)
      have hr' := (List.mem_filter.mp hr).1
      have hmore := filled_more (length_lt_depth hr') (by omega : depth table ≤ k) hm
      exact ⟨r,hr,matches_of_filled (freshLevel_apart hr') k hk hmore ht⟩

/-- A request that is granted is covered. -/
def Within (engine : Engine) (table : AclTable) (filter : TopicFilter) (acc : ℤ) : Prop :=
  aclReply engine false table.rows filter.text (some acc) = .allow → Covered table filter acc

/-- All rules compile, and those that grant the request widen it or have an
expression that happens to match. -/
structure OnlyWide (engine : Engine) (table : AclTable) (filter : TopicFilter) (acc : ℤ) :
    Prop where
  compiles : ∀ r ∈ table.rows, ¬Malformed engine r.topic
  granted : ∃ r ∈ granting table acc,
    Clear r.topic filter.text ∨ Accidental engine r.topic filter.text
  wide : ∀ r ∈ granting table acc, Clear r.topic filter.text → Widens r.topic filter.text

theorem within_iff (engine : Engine) (table : AclTable) (filter : TopicFilter) (acc : ℤ) :
    Within engine table filter acc ↔
      (OnlyWide engine table filter acc → CoversFresh table filter acc) := by
  have hallow : aclReply engine false table.rows filter.text (some acc) = .allow ↔
      (∀ r ∈ table.rows, ¬Malformed engine r.topic) ∧
        ∃ r ∈ table.rows, hasAccess r.access (some acc) = true ∧
          (Clear r.topic filter.text ∨ Accidental engine r.topic filter.text) :=
    aclReply_allow table.valid filter.text (some acc)
  have hrules : (∃ r ∈ table.rows, hasAccess r.access (some acc) = true ∧
      (Clear r.topic filter.text ∨ Accidental engine r.topic filter.text)) ↔
      ∃ r ∈ granting table acc, Clear r.topic filter.text ∨ Accidental engine r.topic filter.text := by
    simp only [granting, List.mem_filter, and_assoc]
  rw [hrules] at hallow
  rw [← covered_iff]
  constructor
  · exact fun h hwide => h (hallow.mpr ⟨hwide.compiles,hwide.granted⟩)
  · intro h hgranted
    obtain ⟨hgood,hsome⟩ := hallow.mp hgranted
    by_cases hwide : ∀ r ∈ granting table acc,
        Clear r.topic filter.text → Widens r.topic filter.text
    · exact h ⟨hgood,hsome,hwide⟩
    · push Not at hwide
      obtain ⟨r,hr,hclear,hnot⟩ := hwide
      intro topic ht
      exact ⟨r,hr,hclear.contains (table.valid r (List.mem_filter.mp hr).1) hnot ht⟩

def singleTable : AclTable := ⟨[⟨"plant/+",1⟩],by decide +kernel⟩

def everything : TopicFilter := ⟨"plant/#",by decide +kernel⟩

theorem plus_grants_hash :
    aclReply (fun _ => none) false singleTable.rows everything.text (some 1) = .allow ∧
      ¬Within (fun _ => none) singleTable everything 1 := by
  have hgranted : aclReply (fun _ => none) false singleTable.rows everything.text (some 1) =
      .allow := by decide +kernel
  refine ⟨hgranted,fun h => ?_⟩
  obtain ⟨r,hr,hm⟩ := h hgranted ⟨"plant/line/valve",by decide⟩ (by decide +kernel)
  revert r
  decide +kernel

end Iotistica.Acl
