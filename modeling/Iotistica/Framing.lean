import Mathlib.Data.List.Basic

/-!
# Cutting a text at separators

A separator is a set of words of one length. The text is cut at its first
word, and then again behind it. As all words have one length, a word that is
found stays the first one whatever follows, so that a text may come in any
chunks.
-/

set_option autoImplicit false

namespace Iotistica.Framing

/-- `groups` is what a word leaves between the pieces it separates. -/
structure Separator (α : Type*) where
  width : ℕ
  pos : 0 < width
  isWord : List α → Bool
  groups : List α → List (List α)

section
variable {α : Type*} (d : Separator α)

def Separator.starts (xs : List α) : Bool :=
  decide (d.width ≤ xs.length) && d.isWord (xs.take d.width)

def splitFirst : List α → Option (List α × List α × List α)
  | [] => none
  | x::xs =>
    if d.starts (x::xs) then some ([],(x::xs).take d.width,(x::xs).drop d.width)
    else (splitFirst xs).map (fun found => (x::found.1,found.2))

/-- The complete pieces and the tail; every word has an element, so a step
for each element is enough. -/
def pieces : ℕ → List α → List (List α) × List α
  | 0, xs => ([],xs)
  | fuel+1, xs =>
    match splitFirst d xs with
    | none => ([],xs)
    | some (piece,word,rest) =>
      let more := pieces fuel rest
      (piece::d.groups word++more.1,more.2)

def cut (xs : List α) : List (List α) × List α := pieces d xs.length xs

variable {d} {xs piece word rest : List α}

theorem starts_iff : d.starts xs = true ↔ d.width ≤ xs.length ∧ d.isWord (xs.take d.width) = true := by
  simp [Separator.starts]

theorem starts_append (h : d.width ≤ xs.length) (ys : List α) :
    d.starts (xs++ys) = d.starts xs := by
  unfold Separator.starts
  rw [List.take_append_of_le_length h, List.length_append]
  congr 1
  simp only [decide_eq_decide]
  omega

theorem splitFirst_cons (x : α) (xs : List α) : splitFirst d (x::xs) =
    if d.starts (x::xs) then some ([],(x::xs).take d.width,(x::xs).drop d.width)
    else (splitFirst d xs).map (fun found => (x::found.1,found.2)) := rfl

theorem splitFirst_eq (h : splitFirst d xs = some (piece,word,rest)) :
    xs = piece++word++rest ∧ word.length = d.width ∧ d.isWord word = true := by
  induction xs generalizing piece with
  | nil => cases h
  | cons x xs ih =>
    rw [splitFirst_cons] at h
    split at h
    · next hs =>
      obtain ⟨hlen,hword⟩ := starts_iff.mp hs
      cases h
      exact ⟨(List.take_append_drop _ _).symm,List.length_take_of_le hlen,hword⟩
    · obtain ⟨⟨_,_,_⟩,hf,heq⟩ := Option.map_eq_some_iff.mp h
      cases heq
      obtain ⟨hxs,hrest⟩ := ih hf
      exact ⟨by rw [hxs]; rfl,hrest⟩

theorem splitFirst_append (h : splitFirst d xs = some (piece,word,rest)) (ys : List α) :
    splitFirst d (xs++ys) = some (piece,word,rest++ys) := by
  induction xs generalizing piece with
  | nil => cases h
  | cons x xs ih =>
    have hlen : d.width ≤ (x::xs).length := by
      obtain ⟨hxs,hword,-⟩ := splitFirst_eq h
      rw [hxs, List.length_append, List.length_append]
      omega
    have hstarts : d.starts (x::(xs++ys)) = d.starts (x::xs) := starts_append hlen ys
    rw [splitFirst_cons] at h
    rw [List.cons_append, splitFirst_cons, hstarts]
    split at h
    · next hs =>
      cases h
      rw [if_pos hs, ← List.cons_append, List.take_append_of_le_length hlen,
        List.drop_append_of_le_length hlen]
    · next hs =>
      obtain ⟨⟨_,_,_⟩,hf,heq⟩ := Option.map_eq_some_iff.mp h
      cases heq
      rw [if_neg hs, ih hf]
      rfl

theorem length_rest (h : splitFirst d xs = some (piece,word,rest)) : rest.length < xs.length := by
  obtain ⟨hxs,hword,-⟩ := splitFirst_eq h
  have hpos := d.pos
  rw [hxs, List.length_append, List.length_append]
  omega

theorem pieces_fuel {m n : ℕ} (hm : xs.length ≤ m) (hn : xs.length ≤ n) :
    pieces d m xs = pieces d n xs := by
  induction m generalizing n xs with
  | zero =>
    obtain rfl := List.length_eq_zero_iff.mp (Nat.le_zero.mp hm)
    cases n <;> rfl
  | succ m ih =>
    cases n with
    | zero =>
      obtain rfl := List.length_eq_zero_iff.mp (Nat.le_zero.mp hn)
      rfl
    | succ n =>
      simp only [pieces]
      cases hs : splitFirst d xs with
      | none => rfl
      | some found =>
        obtain ⟨piece,word,rest⟩ := found
        have hless := length_rest hs
        have hrest : pieces d m rest = pieces d n rest := ih (by omega) (by omega)
        dsimp only
        rw [hrest]

theorem cut_none (h : splitFirst d xs = none) : cut d xs = ([],xs) := by
  unfold cut
  cases xs with
  | nil => rfl
  | cons x xs => simp only [List.length_cons, pieces, h]

theorem cut_some (h : splitFirst d xs = some (piece,word,rest)) :
    cut d xs = (piece::d.groups word++(cut d rest).1,(cut d rest).2) := by
  have hless := length_rest h
  unfold cut
  cases xs with
  | nil => cases h
  | cons x xs =>
    simp only [List.length_cons, pieces, h]
    rw [pieces_fuel (n := rest.length) (Nat.le_of_lt_succ hless) (Nat.le_refl _)]

theorem cut_append (xs ys : List α) : cut d (xs++ys) =
    ((cut d xs).1++(cut d ((cut d xs).2++ys)).1,(cut d ((cut d xs).2++ys)).2) := by
  induction hn : xs.length using Nat.strongRecOn generalizing xs with
  | _ n ih =>
    cases hs : splitFirst d xs with
    | none =>
      rw [cut_none hs]
      rfl
    | some found =>
      obtain ⟨piece,word,rest⟩ := found
      have hless := length_rest hs
      rw [cut_some hs, cut_some (splitFirst_append hs ys), ih rest.length (hn ▸ hless) rest rfl]
      simp only [List.append_assoc, List.cons_append]

theorem splitFirst_tail (xs : List α) : splitFirst d (cut d xs).2 = none := by
  induction hn : xs.length using Nat.strongRecOn generalizing xs with
  | _ n ih =>
    cases hs : splitFirst d xs with
    | none =>
      rw [cut_none hs]
      exact hs
    | some found =>
      obtain ⟨piece,word,rest⟩ := found
      rw [cut_some hs]
      exact ih rest.length (hn ▸ length_rest hs) rest rfl

theorem tail_suffix (xs : List α) : (cut d xs).2 <:+ xs := by
  induction hn : xs.length using Nat.strongRecOn generalizing xs with
  | _ n ih =>
    cases hs : splitFirst d xs with
    | none =>
      exact ⟨[],by rw [cut_none hs, List.nil_append]⟩
    | some found =>
      obtain ⟨piece,word,rest⟩ := found
      obtain ⟨hxs,-⟩ := splitFirst_eq hs
      rw [cut_some hs]
      exact (ih rest.length (hn ▸ length_rest hs) rest rfl).trans ⟨piece++word,hxs.symm⟩

theorem tail_eq (h : (cut d xs).1 = []) : (cut d xs).2 = xs := by
  cases hs : splitFirst d xs with
  | none => rw [cut_none hs]
  | some found =>
    obtain ⟨piece,word,rest⟩ := found
    rw [cut_some hs] at h
    exact absurd h (List.cons_ne_nil _ _)

def feed (d : Separator α) : List α → List (List α) → List (List α) × List α
  | tail, [] => ([],tail)
  | tail, chunk::chunks =>
    let out := cut d (tail++chunk)
    let rest := feed d out.2 chunks
    (out.1++rest.1,rest.2)

theorem feed_eq {tail : List α} (h : splitFirst d tail = none) (chunks : List (List α)) :
    feed d tail chunks = cut d (tail++chunks.flatten) := by
  induction chunks generalizing tail with
  | nil =>
    rw [List.flatten_nil, List.append_nil, cut_none h]
    rfl
  | cons chunk chunks ih =>
    rw [feed, ih (splitFirst_tail _), List.flatten_cons, ← List.append_assoc, cut_append (tail++chunk)]

theorem countP_cut {p : α → Bool} (hword : ∀ w, d.isWord w = true → w.countP p = 0)
    (hgroups : ∀ w, d.isWord w = true → (d.groups w).flatten.countP p = 0) (xs : List α) :
    (cut d xs).1.flatten.countP p+(cut d xs).2.countP p = xs.countP p := by
  induction hn : xs.length using Nat.strongRecOn generalizing xs with
  | _ n ih =>
    cases hs : splitFirst d xs with
    | none =>
      rw [cut_none hs]
      exact Nat.zero_add _
    | some found =>
      obtain ⟨piece,word,rest⟩ := found
      obtain ⟨hxs,-,hw⟩ := splitFirst_eq hs
      have hrest := ih rest.length (hn ▸ length_rest hs) rest rfl
      have hnone := hword word hw
      have hgroup := hgroups word hw
      rw [cut_some hs]
      simp only [hxs, List.cons_append, List.flatten_cons, List.flatten_append, List.countP_append]
      omega

end

section
variable {α β : Type*} {d : Separator α} {e : Separator β} {f : α → List β}

/-- `e` separates the codes of a text where `d` separates the text: a code
begins with a word when the text does, and no word begins inside a code. -/
structure Encodes (d : Separator α) (e : Separator β) (f : α → List β) : Prop where
  nonempty : ∀ c, f c ≠ []
  starts : ∀ cs, e.starts (cs.flatMap f) = d.starts cs
  inside : ∀ c x y zs, f c = x++y → x ≠ [] → y ≠ [] → e.starts (y++zs) = false
  width : ∀ cs, d.starts cs = true → ((cs.take d.width).flatMap f).length = e.width
  groups : ∀ w, d.isWord w = true → e.groups (w.flatMap f) = (d.groups w).map (List.flatMap f)

theorem splitFirst_skip {x ys : List β} (h : ∀ y z, x = y++z → z ≠ [] → e.starts (z++ys) = false) :
    splitFirst e (x++ys) = (splitFirst e ys).map (fun found => (x++found.1,found.2)) := by
  induction x with
  | nil => simp
  | cons b x ih =>
    have hb : e.starts (b::(x++ys)) = false := h [] (b::x) rfl (List.cons_ne_nil b x)
    rw [List.cons_append, splitFirst_cons, hb, if_neg Bool.false_ne_true,
      ih (fun y z heq => h (b::y) z (by rw [heq]; rfl)), Option.map_map]
    rfl

theorem splitFirst_encoded (h : Encodes d e f) (cs : List α) : splitFirst e (cs.flatMap f) =
    (splitFirst d cs).map (fun found =>
      (found.1.flatMap f,found.2.1.flatMap f,found.2.2.flatMap f)) := by
  induction cs with
  | nil => rfl
  | cons c cs ih =>
    obtain ⟨b,x,hx⟩ := List.exists_cons_of_ne_nil (h.nonempty c)
    have hstarts := h.starts (c::cs)
    rw [List.flatMap_cons, hx, List.cons_append] at hstarts
    rw [splitFirst_cons, List.flatMap_cons, hx, List.cons_append, splitFirst_cons, hstarts]
    split
    · next hs =>
      have hwidth := h.width (c::cs) hs
      have hsplit : b::(x++cs.flatMap f) =
          ((c::cs).take d.width).flatMap f++((c::cs).drop d.width).flatMap f := by
        rw [← List.flatMap_append, List.take_append_drop, List.flatMap_cons, hx]
        rfl
      rw [hsplit, ← hwidth, List.take_left, List.drop_left]
      rfl
    · rw [splitFirst_skip, ih]
      · cases splitFirst d cs with
        | none => rfl
        | some found => simp [hx]
      · intro y z heq hz
        exact h.inside c (b::y) z _ (by rw [hx, heq]; rfl) (List.cons_ne_nil b y) hz

theorem cut_encoded (h : Encodes d e f) (cs : List α) : cut e (cs.flatMap f) =
    ((cut d cs).1.map (List.flatMap f),(cut d cs).2.flatMap f) := by
  induction hn : cs.length using Nat.strongRecOn generalizing cs with
  | _ n ih =>
    have hfirst := splitFirst_encoded h cs
    cases hs : splitFirst d cs with
    | none =>
      rw [hs] at hfirst
      rw [cut_none hs, cut_none hfirst]
      rfl
    | some found =>
      obtain ⟨piece,word,rest⟩ := found
      rw [hs] at hfirst
      rw [cut_some hs, cut_some hfirst, ih rest.length (hn ▸ length_rest hs) rest rfl,
        h.groups word (splitFirst_eq hs).2.2]
      simp only [List.map_cons, List.map_append, List.cons_append]

end
end Iotistica.Framing
