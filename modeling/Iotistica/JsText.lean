import Mathlib.Data.List.Infix

/-!
# Text operations of the runtime

Prefix tests, splitting and joining, `||` on optional text and the SQL
`LIKE` operator, all over the characters of a string. `LIKE` folds the case
of ASCII letters only and knows the two wildcards `%` and `_`.
-/

set_option autoImplicit false

namespace Iotistica.JsText

def startsWith (s pre : String) : Bool := pre.toList.isPrefixOf s.toList

theorem startsWith_iff (s pre : String) :
    startsWith s pre = true ↔ pre.toList <+: s.toList := by
  simp [startsWith]

def includes (s sub : String) : Bool :=
  s.toList.tails.any (fun rest => sub.toList.isPrefixOf rest)

def endsWith (s suf : String) : Bool := suf.toList.isSuffixOf s.toList

def splitChars (c : Char) : List Char → List (List Char)
  | [] => [[]]
  | x::xs =>
    if x = c then []::splitChars c xs
    else
      match splitChars c xs with
      | [] => [[x]]
      | p::ps => (x::p)::ps

def split (s : String) (c : Char) : List String := (splitChars c s.toList).map String.ofList

/-- `join`, the inverse of `split`. -/
def join (parts : List String) (c : Char) : String :=
  String.ofList (((parts.map String.toList).intersperse [c]).flatten)

/-- `replace` with the empty text: the first occurrence goes. -/
def removeFirstChars (pat : List Char) : List Char → List Char
  | [] => []
  | c::cs =>
    if pat.isPrefixOf (c::cs) then (c::cs).drop pat.length else c::removeFirstChars pat cs

def removeFirst (s pat : String) : String :=
  String.ofList (removeFirstChars pat.toList s.toList)

/-- `a || b` on optional text, where the empty text is falsy too. -/
def orElse (a : Option String) (b : String) : String :=
  match a with
  | some s => if s = "" then b else s
  | none => b

/-- ASCII letters only; no other character is lowered to an ASCII letter
except the Kelvin sign. -/
def toLowerCase (s : String) : String := String.ofList (s.toList.map Char.toLower)

def likeChars : List Char → List Char → Bool
  | [], cs => cs.isEmpty
  | '%'::ps, cs => cs.tails.any (likeChars ps)
  | _::_, [] => false
  | p::ps, c::cs => (p == '_' || p.toLower == c.toLower) && likeChars ps cs

def like (s pattern : String) : Bool := likeChars pattern.toList s.toList

theorem includes_eq_false_iff (s sub : String) :
    includes s sub = false ↔ ¬sub.toList <:+: s.toList := by
  rw [← Bool.not_eq_true, not_iff_not]
  simp [includes, List.infix_iff_prefix_suffix, and_comm]

theorem append_sep_inj {α : Type*} {c : α} {xs ys as bs : List α} (hx : c ∉ xs) (ha : c ∉ as)
    (h : xs++c::ys = as++c::bs) : xs = as ∧ ys = bs := by
  induction xs generalizing as with
  | nil =>
    cases as with
    | nil => exact ⟨rfl,by simpa using h⟩
    | cons a as =>
      simp only [List.nil_append, List.cons_append, List.cons.injEq] at h
      exact absurd (h.1 ▸ List.mem_cons_self) ha
  | cons x xs ih =>
    cases as with
    | nil =>
      simp only [List.nil_append, List.cons_append, List.cons.injEq] at h
      exact absurd (h.1 ▸ List.mem_cons_self) hx
    | cons a as =>
      simp only [List.cons_append, List.cons.injEq] at h
      have hrest := ih (fun hm => hx (List.mem_cons_of_mem _ hm))
        (fun hm => ha (List.mem_cons_of_mem _ hm)) h.2
      exact ⟨by rw [h.1, hrest.1],hrest.2⟩

theorem append_sep_inj_right {α : Type*} {c : α} {xs ys as bs : List α} (hy : c ∉ ys) (hb : c ∉ bs)
    (h : xs++c::ys = as++c::bs) : xs = as ∧ ys = bs := by
  have hr := congrArg List.reverse h
  simp only [List.reverse_append, List.reverse_cons, List.append_assoc, List.singleton_append] at hr
  have hinj := append_sep_inj (by simpa using hy) (by simpa using hb) hr
  exact ⟨List.reverse_injective hinj.2,List.reverse_injective hinj.1⟩

theorem prefix_before_sep {c : Char} {sub xs ys : List Char} (hc : c ∉ sub)
    (h : sub <+: xs++c::ys) : sub <+: xs := by
  induction xs generalizing sub with
  | nil =>
    cases sub with
    | nil => exact List.nil_prefix
    | cons s sub =>
      have hs := (List.cons_prefix_cons.mp h).1
      exact absurd (by simp [hs]) hc
  | cons x xs ih =>
    cases sub with
    | nil => exact List.nil_prefix
    | cons s sub =>
      have hs := List.cons_prefix_cons.mp h
      exact List.cons_prefix_cons.mpr ⟨hs.1,ih (fun hm => hc (List.mem_cons_of_mem _ hm)) hs.2⟩

theorem not_infix_sep {c : Char} {sub xs ys : List Char} (hc : c ∉ sub)
    (hx : ¬sub <:+: xs) (hy : ¬sub <:+: ys) : ¬sub <:+: xs++c::ys := by
  induction xs with
  | nil =>
    intro h
    rcases List.infix_cons_iff.mp h with hp | hi
    · exact hx ((prefix_before_sep hc hp : sub <+: []).isInfix)
    · exact hy hi
  | cons x xs ih =>
    intro h
    rcases List.infix_cons_iff.mp h with hp | hi
    · exact hx ((prefix_before_sep hc hp : sub <+: x::xs).isInfix)
    · exact ih (fun hi => hx (hi.trans (List.suffix_cons x xs).isInfix)) hi

theorem splitChars_ne_nil (c : Char) (cs : List Char) : splitChars c cs ≠ [] := by
  cases cs with
  | nil => simp [splitChars]
  | cons x cs =>
    unfold splitChars
    split
    · simp
    · split <;> simp

theorem splitChars_of_not_mem {c : Char} {cs : List Char} (h : c ∉ cs) :
    splitChars c cs = [cs] := by
  induction cs with
  | nil => rfl
  | cons x cs ih =>
    have hx : x ≠ c := fun he => h (by simp [he])
    have hcs : c ∉ cs := fun hm => h (List.mem_cons_of_mem _ hm)
    simp [splitChars, hx, ih hcs]

theorem splitChars_append {c : Char} {cs : List Char} (h : c ∉ cs) (ds : List Char) :
    splitChars c (cs++c::ds) = cs::splitChars c ds := by
  induction cs with
  | nil => simp [splitChars]
  | cons x cs ih =>
    have hx : x ≠ c := fun he => h (by simp [he])
    have hcs : c ∉ cs := fun hm => h (List.mem_cons_of_mem _ hm)
    simp [splitChars, hx, ih hcs]

theorem not_mem_of_mem_splitChars {c : Char} {cs p : List Char} (h : p ∈ splitChars c cs) :
    c ∉ p := by
  induction cs generalizing p with
  | nil => simp [splitChars] at h; simp [h]
  | cons x cs ih =>
    unfold splitChars at h
    split at h
    · rcases List.mem_cons.mp h with rfl | h
      · simp
      · exact ih h
    · rename_i hx
      cases hs : splitChars c cs with
      | nil => exact absurd hs (splitChars_ne_nil c cs)
      | cons q qs =>
        rw [hs] at h ih
        rcases List.mem_cons.mp h with rfl | h
        · have hq := ih (p := q) (by simp)
          intro hm
          rcases List.mem_cons.mp hm with he | he
          · exact hx he.symm
          · exact hq he
        · exact ih (List.mem_cons_of_mem _ h)

theorem flatten_splitChars (c : Char) (cs : List Char) :
    ((splitChars c cs).intersperse [c]).flatten = cs := by
  induction cs with
  | nil => rfl
  | cons x cs ih =>
    unfold splitChars
    cases hs : splitChars c cs with
    | nil => exact absurd hs (splitChars_ne_nil c cs)
    | cons q qs =>
      rw [hs] at ih
      by_cases hx : x = c
      · simp [hx, ih]
      · cases qs with
        | nil => simpa [hx, List.intersperse] using ih
        | cons r rs => simpa [hx, List.intersperse] using ih

theorem split_of_not_mem {s : String} {c : Char} (h : c ∉ s.toList) : split s c = [s] := by
  simp [split, splitChars_of_not_mem h]

theorem split_append {s : String} {c : Char} (h : c ∉ s.toList) (t : String) :
    split (s++String.singleton c++t) c = s::split t c := by
  have ht : (s++String.singleton c++t).toList = s.toList++c::t.toList := by simp
  unfold split
  rw [ht, splitChars_append h]
  simp

theorem not_mem_of_mem_split {s p : String} {c : Char} (h : p ∈ split s c) : c ∉ p.toList := by
  obtain ⟨q,hq,rfl⟩ := List.mem_map.mp h
  rw [String.toList_ofList]
  exact not_mem_of_mem_splitChars hq

theorem join_split (s : String) (c : Char) : join (split s c) c = s := by
  have h : (split s c).map String.toList = splitChars c s.toList := by
    simp [split, Function.comp_def]
  unfold join
  rw [h, flatten_splitChars]
  simp

theorem splitChars_intersperse {c : Char} {parts : List (List Char)} (hne : parts ≠ [])
    (h : ∀ p ∈ parts, c ∉ p) : splitChars c (parts.intersperse [c]).flatten = parts := by
  induction parts with
  | nil => exact absurd rfl hne
  | cons p parts ih =>
    have hp := h p List.mem_cons_self
    cases parts with
    | nil => simpa [List.intersperse] using splitChars_of_not_mem hp
    | cons q parts =>
      have ih := ih (List.cons_ne_nil _ _) (fun r hr => h r (List.mem_cons_of_mem _ hr))
      have hflat : ((p :: q :: parts).intersperse [c]).flatten =
          p++c :: ((q :: parts).intersperse [c]).flatten := by
        simp [List.intersperse]
      rw [hflat, splitChars_append hp, ih]

theorem split_join {c : Char} {parts : List String} (hne : parts ≠ [])
    (h : ∀ p ∈ parts, c ∉ p.toList) : split (join parts c) c = parts := by
  have hparts : ∀ p ∈ parts.map String.toList, c ∉ p := by
    intro p hp
    obtain ⟨s,hs,rfl⟩ := List.mem_map.mp hp
    exact h s hs
  unfold split join
  rw [String.toList_ofList, splitChars_intersperse (by simpa using hne) hparts]
  simp

theorem join_cons (p q : String) (parts : List String) (c : Char) :
    join (p :: q :: parts) c = p++String.singleton c++join (q :: parts) c := by
  rw [← String.toList_inj]
  simp [join]

theorem toLower_of_not {c : Char} (h : ¬(c.val ≥ 'A'.val ∧ c.val ≤ 'Z'.val)) : c.toLower = c :=
  dif_neg h

theorem toLower_toLower (c : Char) : c.toLower.toLower = c.toLower := by
  by_cases h : c.val ≥ 'A'.val ∧ c.val ≤ 'Z'.val
  · have hval : c.toLower.val = c.val+('a'.val- 'A'.val) := by
      unfold Char.toLower
      rw [dif_pos h]
    refine toLower_of_not ?_
    -- the lowered code lies above that of every capital
    have hA : 'A'.val.toNat = 65 := rfl
    have hZ : 'Z'.val.toNat = 90 := rfl
    have hd : ('a'.val- 'A'.val).toNat = 32 := rfl
    rw [hval]
    simp only [ge_iff_le, UInt32.le_iff_toNat_le, UInt32.toNat_add, hA, hZ, hd] at h ⊢
    omega
  · rw [toLower_of_not h, toLower_of_not h]

theorem toLowerCase_toLowerCase (s : String) : toLowerCase (toLowerCase s) = toLowerCase s := by
  have hcomp : Char.toLower ∘ Char.toLower = Char.toLower := funext toLower_toLower
  unfold toLowerCase
  rw [String.toList_ofList, List.map_map, hcomp]

theorem length_toLowerCase (s : String) : (toLowerCase s).length = s.length := by
  rw [toLowerCase, ← String.length_toList, String.toList_ofList, List.length_map,
    String.length_toList]

theorem removeFirst_append (pat s : String) : removeFirst (pat++s) pat = s := by
  have hl : (pat++s).toList = pat.toList++s.toList := by simp
  unfold removeFirst
  rw [hl]
  cases hp : pat.toList++s.toList with
  | nil =>
    have hs := (List.append_eq_nil_iff.mp hp).2
    rw [← String.ofList_toList (s := s), hs]
    rfl
  | cons c cs =>
    have hpre : pat.toList.isPrefixOf (c::cs) = true := by
      rw [← hp]
      simp
    rw [removeFirstChars, if_pos hpre, ← hp]
    simp

theorem likeChars_percent (cs : List Char) : likeChars ['%'] cs = true := by
  simp only [likeChars, List.any_eq_true, List.mem_tails]
  exact ⟨[],List.nil_suffix,rfl⟩

/-- A pattern without wildcards before its closing `%` matches exactly the
texts that begin with it up to ASCII case. -/
theorem likeChars_iff (pre cs : List Char) (hp : ∀ c ∈ pre, c ≠ '%' ∧ c ≠ '_') :
    likeChars (pre++['%']) cs = true ↔ pre.map Char.toLower <+: cs.map Char.toLower := by
  induction pre generalizing cs with
  | nil => simp [likeChars_percent]
  | cons p pre ih =>
    obtain ⟨hne,hu⟩ := hp p (by simp)
    have ht : ∀ c ∈ pre, c ≠ '%' ∧ c ≠ '_' := fun c hc => hp c (by simp [hc])
    cases cs with
    | nil => simp [likeChars]
    | cons c cs => simp [likeChars, hu, ih cs ht]

theorem like_iff (s pre : String) (hp : ∀ c ∈ pre.toList, c ≠ '%' ∧ c ≠ '_') :
    like s (pre++"%") = true ↔ pre.toList.map Char.toLower <+: s.toList.map Char.toLower := by
  have h : (pre++"%").toList = pre.toList++['%'] := by simp
  rw [like, h, likeChars_iff _ _ hp]

end Iotistica.JsText
