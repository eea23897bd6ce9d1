import Iotistica.AclCheck

/-!
# Routing of inbound messages

`topicMatches` walks the levels of a filter by index and looks up the level
of the topic at the same index, which may lie past its end. The broker's
rule is `levelsMatch`. For a valid filter the two differ on the filters
whose levels past the end of the topic are pluses before a hash.
-/

set_option autoImplicit false

namespace Iotistica.MqttRouting
open Iotistica.JsText
open Iotistica.Acl (hasWildcard validLevels validLevels_head validLevels_tail not_hash
  mem_of_mem_split filterMatches)
open Iotistica.TopicRouting (levelsMatch)

def walk (topicParts : List String) : ℕ → List String → Option Bool
  | _, [] => none
  | i, part::patternParts =>
    if part = "#" then some true
    else if part = "+" then walk topicParts (i+1) patternParts
    else if some part ≠ topicParts[i]? then some false
    else walk topicParts (i+1) patternParts

def topicMatches (pattern topic : String) : Bool :=
  let patternParts := split pattern '/'
  let topicParts := split topic '/'
  if patternParts.length ≠ topicParts.length ∧ ¬ pattern.toList.contains '#' then false
  else
    match walk topicParts 0 patternParts with
    | some answer => answer
    | none => patternParts.length = topicParts.length

structure SubscriptionHandler (H : Type*) where
  pattern : String
  handler : H

/-- The registrations called so far, and what went to `onHandlerError`. -/
structure Routed (H E : Type*) where
  calls : List (SubscriptionHandler H)
  errors : List (String × E)

/-- The turns of the loop. A handler answers an error when it throws, and
what it does may depend on the calls before it. -/
def route {H E : Type*} (answer : List (SubscriptionHandler H) → H → String → Option E)
    (handlers : List (SubscriptionHandler H)) (topic : String) : Routed H E :=
  handlers.foldl (fun r subscription =>
    if topicMatches subscription.pattern topic then
      match answer r.calls subscription.handler topic with
      | none => { r with calls := r.calls++[subscription] }
      | some error =>
        ⟨r.calls++[subscription],r.errors++[(subscription.pattern,error)]⟩
    else r) ⟨[],[]⟩

def plusesHash : List String → Bool
  | [] => false
  | p::ps => p = "+" && (ps = ["#"] || plusesHash ps)

/-- The topic matches level by level and ends before pluses and a hash. -/
def skips : List String → List String → Bool
  | ps, [] => plusesHash ps
  | p::ps, t::ts => p ≠ "#" && (p = "+" || p = t) && skips ps ts
  | [], _::_ => false

theorem walk_shift (u : String) (ts : List String) (i : ℕ) (ps : List String) :
    walk (u::ts) (i+1) ps=walk ts i ps := by
  induction ps generalizing i with
  | nil => rfl
  | cons p ps ih => simp [walk, ih]

theorem walk_empty (i : ℕ) (ps : List String) : walk [] (i+1) ps=walk [] i ps := by
  induction ps generalizing i with
  | nil => rfl
  | cons p ps ih => simp [walk, ih]

theorem walk_cons {p t : String} {ps ts : List String} (hp : p ≠ "#") :
    walk (t::ts) 0 (p::ps)=if p = "+" ∨ p = t then walk ts 0 ps else some false := by
  by_cases hplus : p = "+"
  · simp [walk, hplus, walk_shift]
  · by_cases ht : p = t
    · subst ht
      simp [walk, hp, hplus, walk_shift]
    · simp [walk, hp, hplus, ht]

theorem hash_cases {p : String} {ps : List String} (hv : validLevels (p::ps) = true)
    (h : "#" ∈ p::ps) : (p = "#" ∧ ps = []) ∨ (p ≠ "#" ∧ "#" ∈ ps) := by
  rcases validLevels_head hv with hlast | hp
  · exact .inl hlast
  · have hne := not_hash hp
    exact .inr ⟨hne,(List.mem_cons.mp h).resolve_left (Ne.symm hne)⟩

theorem walk_past {ps : List String} (hv : validLevels ps = true) (h : "#" ∈ ps) :
    walk [] 0 ps=some (ps = ["#"] || plusesHash ps) := by
  induction ps with
  | nil => cases h
  | cons p ps ih =>
    rcases hash_cases hv h with ⟨rfl,rfl⟩ | ⟨hp,hps⟩
    · simp [walk]
    · by_cases hplus : p = "+"
      · have ih := ih (validLevels_tail hv) hps
        simp [walk, plusesHash, hplus, walk_empty, ih]
      · simp [walk, plusesHash, hp, hplus]

theorem walk_hash {ps : List String} (ts : List String) (hv : validLevels ps = true)
    (h : "#" ∈ ps) : walk ts 0 ps=some (levelsMatch ps ts || skips ps ts) := by
  induction ps generalizing ts with
  | nil => cases h
  | cons p ps ih =>
    rcases hash_cases hv h with ⟨rfl,rfl⟩ | ⟨hp,hps⟩
    · simp [walk, levelsMatch]
    · cases ts with
      | nil => simp [walk_past hv h, levelsMatch, skips, hp]
      | cons t ts =>
        rw [walk_cons hp, ih ts (validLevels_tail hv) hps]
        by_cases hone : p = "+" ∨ p = t
        · rcases hone with rfl | rfl <;> simp [levelsMatch, skips, hp]
        · obtain ⟨hplus,ht⟩ := not_or.mp hone
          simp [levelsMatch, skips, hp, hplus, ht]

theorem walk_plain {ps ts : List String} (h : "#" ∉ ps) (hlen : ps.length = ts.length) :
    levelsMatch ps ts=(walk ts 0 ps).getD true := by
  induction ps generalizing ts with
  | nil =>
    cases ts with
    | nil => rfl
    | cons t ts => cases hlen
  | cons p ps ih =>
    cases ts with
    | nil => cases hlen
    | cons t ts =>
      obtain ⟨hp,hps⟩ := not_or.mp (mt List.mem_cons.mpr h)
      have ih := ih hps (Nat.succ.inj hlen)
      rw [walk_cons (Ne.symm hp)]
      by_cases hone : p = "+" ∨ p = t
      · rcases hone with rfl | rfl <;> simp [levelsMatch, Ne.symm hp, ih]
      · obtain ⟨hplus,ht⟩ := not_or.mp hone
        simp [levelsMatch, Ne.symm hp, hplus, ht]

theorem levelsMatch_length {ps ts : List String} (h : "#" ∉ ps) (hm : levelsMatch ps ts = true) :
    ps.length = ts.length := by
  induction ps generalizing ts with
  | nil =>
    cases ts with
    | nil => rfl
    | cons t ts => cases hm
  | cons p ps ih =>
    obtain ⟨hp,hps⟩ := not_or.mp (mt List.mem_cons.mpr h)
    cases ts with
    | nil => simp [levelsMatch, Ne.symm hp] at hm
    | cons t ts =>
      simp only [levelsMatch, Ne.symm hp, false_and, if_false, Bool.and_eq_true] at hm
      simp [ih hps hm.2]

theorem plusesHash_hash {ps : List String} (h : plusesHash ps = true) : "#" ∈ ps := by
  induction ps with
  | nil => cases h
  | cons p ps ih =>
    simp only [plusesHash, Bool.and_eq_true, Bool.or_eq_true, decide_eq_true_eq] at h
    rcases h.2 with rfl | hps
    · simp
    · exact List.mem_cons_of_mem _ (ih hps)

theorem skips_hash {ps ts : List String} (h : skips ps ts = true) : "#" ∈ ps := by
  induction ps generalizing ts with
  | nil => cases ts <;> cases h
  | cons p ps ih =>
    cases ts with
    | nil => exact plusesHash_hash h
    | cons t ts =>
      rw [skips, Bool.and_eq_true] at h
      exact List.mem_cons_of_mem _ (ih h.2)

theorem skips_levels {ps ts : List String} (h : skips ps ts = true) : levelsMatch ps ts = false := by
  induction ps generalizing ts with
  | nil => cases ts <;> cases h
  | cons p ps ih =>
    cases ts with
    | nil =>
      simp only [skips, plusesHash, Bool.and_eq_true, decide_eq_true_eq] at h
      simp [levelsMatch, h.1]
    | cons t ts =>
      simp only [skips, Bool.and_eq_true, decide_eq_true_eq] at h
      simp [levelsMatch, h.1.1, ih h.2]

theorem exists_mem_splitChars {c d : Char} {cs : List Char} (hd : d ∈ cs) (hne : d ≠ c) :
    ∃ p ∈ splitChars c cs, d ∈ p := by
  induction cs with
  | nil => cases hd
  | cons x cs ih =>
    unfold splitChars
    split
    · next hx =>
      have hcs : d ∈ cs := (List.mem_cons.mp hd).resolve_left (fun h => hne (h.trans hx))
      obtain ⟨p,hp,hdp⟩ := ih hcs
      exact ⟨p,List.mem_cons_of_mem _ hp,hdp⟩
    · cases hs : splitChars c cs with
      | nil => exact absurd hs (splitChars_ne_nil c cs)
      | cons q qs =>
        rw [hs] at ih
        rcases List.mem_cons.mp hd with rfl | hcs
        · exact ⟨d::q,List.mem_cons_self,List.mem_cons_self⟩
        · obtain ⟨p,hp,hdp⟩ := ih hcs
          rcases List.mem_cons.mp hp with rfl | hp
          · exact ⟨x::p,List.mem_cons_self,List.mem_cons_of_mem _ hdp⟩
          · exact ⟨p,List.mem_cons_of_mem _ hp,hdp⟩

theorem hash_level {ps : List String} (hv : validLevels ps = true) {p : String} (hp : p ∈ ps)
    (hc : '#' ∈ p.toList) : p = "#" := by
  induction ps with
  | nil => cases hp
  | cons q ps ih =>
    rcases List.mem_cons.mp hp with rfl | hps
    · rcases validLevels_head hv with h | rfl | h
      · exact h.1
      · exact absurd hc (by decide)
      · simp [hasWildcard, hc] at h
    · exact ih (validLevels_tail hv) hps

theorem contains_hash {pattern : String} (hv : validLevels (split pattern '/') = true) :
    pattern.toList.contains '#' = true ↔ "#" ∈ split pattern '/' := by
  rw [List.contains_iff_mem]
  constructor
  · intro h
    obtain ⟨p,hp,hc⟩ := exists_mem_splitChars h (by decide : '#' ≠ '/')
    have hmem : String.ofList p ∈ split pattern '/' := List.mem_map_of_mem hp
    have := hash_level hv hmem (by rwa [String.toList_ofList])
    rwa [this] at hmem
  · intro h
    exact mem_of_mem_split h (by decide)

theorem topicMatches_eq {pattern : String} (topic : String)
    (hv : validLevels (split pattern '/') = true) :
    topicMatches pattern topic=
      (filterMatches pattern topic || skips (split pattern '/') (split topic '/')) := by
  unfold topicMatches filterMatches
  by_cases h : "#" ∈ split pattern '/'
  · simp only [(contains_hash hv).mpr h, not_true, and_false, if_false]
    rw [walk_hash _ hv h]
  · have hskip : skips (split pattern '/') (split topic '/') = false := by
      by_contra hs
      exact h (skips_hash (Bool.not_eq_false _ ▸ hs))
    have hc := mt (contains_hash hv).mp h
    rw [hskip, Bool.or_false]
    by_cases hlen : (split pattern '/').length = (split topic '/').length
    · simp only [hlen, ne_eq, not_true, false_and, if_false]
      rw [walk_plain h hlen]
      cases walk (split topic '/') 0 (split pattern '/') <;> simp
    · have hno : levelsMatch (split pattern '/') (split topic '/') = false := by
        by_contra hm
        exact hlen (levelsMatch_length h (Bool.not_eq_false _ ▸ hm))
      rw [if_pos ⟨hlen,hc⟩, hno]

theorem topicMatches_iff {pattern : String} (topic : String)
    (hv : validLevels (split pattern '/') = true) :
    topicMatches pattern topic=filterMatches pattern topic ↔
      skips (split pattern '/') (split topic '/') = false := by
  rw [topicMatches_eq topic hv]
  cases hs : skips (split pattern '/') (split topic '/') with
  | false => simp
  | true =>
    have : filterMatches pattern topic = false := skips_levels hs
    simp [this]

variable {H E : Type*}

theorem route_calls (answer : List (SubscriptionHandler H) → H → String → Option E)
    (handlers : List (SubscriptionHandler H)) (topic : String) :
    (route answer handlers topic).calls=handlers.filter (fun s => topicMatches s.pattern topic) := by
  induction handlers using List.reverseRecOn with
  | nil => rfl
  | append_singleton handlers s ih =>
    unfold route at ih ⊢
    rw [List.foldl_append, List.filter_append, ← ih]
    simp only [List.foldl_cons, List.foldl_nil]
    cases hm : topicMatches s.pattern topic with
    | false => simp [hm]
    | true =>
      simp only [if_true, List.filter_singleton, hm]
      split <;> rfl

/-- One filter agrees with the broker's rule exactly when it does not skip,
and the registrations called are the matching ones, once each and in order,
exactly when none of them skips. -/
theorem route_exact_iff (answer : List (SubscriptionHandler H) → H → String → Option E)
    (handlers : List (SubscriptionHandler H)) (topic : String)
    (hv : ∀ s ∈ handlers, validLevels (split s.pattern '/') = true) :
    (∀ pattern, validLevels (split pattern '/') = true →
      (topicMatches pattern topic=filterMatches pattern topic ↔
        skips (split pattern '/') (split topic '/') = false)) ∧
    ((route answer handlers topic).calls=
        handlers.filter (fun s => filterMatches s.pattern topic) ↔
      ∀ s ∈ handlers, skips (split s.pattern '/') (split topic '/') = false) := by
  refine ⟨fun pattern hp => topicMatches_iff topic hp,?_⟩
  rw [route_calls]
  constructor
  · intro h s hs
    rw [← topicMatches_iff topic (hv s hs), Bool.eq_iff_iff]
    have hmem : s ∈ handlers.filter (fun s => topicMatches s.pattern topic) ↔
        s ∈ handlers.filter (fun s => filterMatches s.pattern topic) := by rw [h]
    simpa [List.mem_filter, hs] using hmem
  · intro h
    exact List.filter_congr (fun s hs => (topicMatches_iff topic (hv s hs)).mpr (h s hs))

theorem route_exact_plain :
    (route (fun _ (_ : Nat) _ => some "error") [⟨"a/+",0⟩,⟨"a/#",1⟩,⟨"b",2⟩,⟨"a/+",3⟩] "a/b").calls=
      [⟨"a/+",0⟩,⟨"a/#",1⟩,⟨"a/+",3⟩] :=
  ((route_exact_iff _ _ _ (by decide)).2.mpr (by decide)).trans rfl

/-- A plus takes a level that the topic does not have. -/
theorem plus_past_end :
    ¬ ∀ pattern topic : String, validLevels (split pattern '/') = true →
      topicMatches pattern topic=filterMatches pattern topic := by
  intro h
  exact absurd (h "a/+/#" "a" (by decide)) (by decide)

end Iotistica.MqttRouting
