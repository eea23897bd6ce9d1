import Mathlib.Data.List.Sort
import Mathlib.Data.List.Lex

/-!
# Default sort of strings

The runtime orders strings by their UTF-16 code units, which is not the
order of code points above the surrogates. The encoding is injective, so
the order is antisymmetric and two lists have the same sorted form exactly
when one is a rearrangement of the other.
-/

set_option autoImplicit false

namespace Iotistica.JsSort

def codeUnits (c : Char) : List ℕ :=
  if c.toNat < 0x10000 then [c.toNat]
  else [0xD800+(c.toNat-0x10000)/0x400,0xDC00+(c.toNat-0x10000)%0x400]

def utf16 (s : String) : List ℕ := s.toList.flatMap codeUnits

theorem toNat_range (c : Char) : c.toNat < 0xD800 ∨ (0xDFFF < c.toNat ∧ c.toNat < 0x110000) :=
  c.valid

/-- The first unit tells whether a second one follows, so a character and
the rest of the text can be read off the units. -/
theorem codeUnits_append (c d : Char) (xs ys : List ℕ)
    (h : codeUnits c++xs = codeUnits d++ys) : c = d ∧ xs = ys := by
  have hc := toNat_range c
  have hd := toNat_range d
  unfold codeUnits at h
  by_cases hc' : c.toNat < 0x10000
  · by_cases hd' : d.toNat < 0x10000
    · simp only [hc', hd', if_true, List.cons_append, List.nil_append, List.cons.injEq] at h
      exact ⟨Char.toNat_inj.mp h.1,h.2⟩
    · simp only [hc', hd', if_true, if_false, List.cons_append, List.nil_append,
        List.cons.injEq] at h
      omega
  · by_cases hd' : d.toNat < 0x10000
    · simp only [hc', hd', if_true, if_false, List.cons_append, List.nil_append,
        List.cons.injEq] at h
      omega
    · simp only [hc', hd', if_false, List.cons_append, List.nil_append, List.cons.injEq] at h
      have heq : c.toNat = d.toNat := by omega
      exact ⟨Char.toNat_inj.mp heq,h.2.2⟩

theorem codeUnits_ne_nil (c : Char) : codeUnits c ≠ [] := by
  unfold codeUnits
  split <;> simp

theorem flatMap_codeUnits_injective (cs ds : List Char)
    (h : cs.flatMap codeUnits = ds.flatMap codeUnits) : cs = ds := by
  induction cs generalizing ds with
  | nil =>
    cases ds with
    | nil => rfl
    | cons d ds => simp [codeUnits_ne_nil] at h
  | cons c cs ih =>
    cases ds with
    | nil => simp [codeUnits_ne_nil] at h
    | cons d ds =>
      rw [List.flatMap_cons, List.flatMap_cons] at h
      have hsplit := codeUnits_append c d _ _ h
      rw [hsplit.1, ih ds hsplit.2]

theorem utf16_injective {s t : String} (h : utf16 s = utf16 t) : s = t :=
  String.toList_injective (flatMap_codeUnits_injective _ _ h)

def unitsLe (s t : String) : Prop := utf16 s ≤ utf16 t

instance : DecidableRel unitsLe := fun s t => inferInstanceAs (Decidable (utf16 s ≤ utf16 t))

instance : Std.Total unitsLe := ⟨fun s t => le_total (utf16 s) (utf16 t)⟩

instance : IsTrans String unitsLe := ⟨fun _ _ _ h h' => le_trans h h'⟩

instance : Std.Antisymm unitsLe := ⟨fun _ _ h h' => utf16_injective (le_antisymm h h')⟩

def sort (xs : List String) : List String := xs.insertionSort unitsLe

theorem sort_eq_iff (xs ys : List String) : sort xs = sort ys ↔ xs.Perm ys := by
  constructor
  · intro h
    calc
      xs.Perm (sort xs) := (List.perm_insertionSort unitsLe xs).symm
      _ = sort ys := h
      (sort ys).Perm ys := List.perm_insertionSort unitsLe ys
  · intro h
    apply List.Perm.eq_of_pairwise' (List.pairwise_insertionSort unitsLe xs)
      (List.pairwise_insertionSort unitsLe ys)
    exact (List.perm_insertionSort unitsLe xs).trans
      (h.trans (List.perm_insertionSort unitsLe ys).symm)

end Iotistica.JsSort
