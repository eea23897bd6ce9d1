import Iotistica.JsText
import Mathlib.Data.List.TakeWhile

/-!
# Numbers as text

`parseInt` without a radix skips blanks, takes a sign and a `0x` prefix and
reads digits as far as they go. Numbers are exact: ids and ports stay below
the first integer a double cannot represent.
-/

set_option autoImplicit false

namespace Iotistica.JsNumerals
open Iotistica.JsText

def isBlank (c : Char) : Bool :=
  c.toNat ∈ [0x9,0xA,0xB,0xC,0xD,0x20,0xA0,0x1680,0x2028,0x2029,0x202F,0x205F,0x3000,0xFEFF] ||
    (decide (0x2000 ≤ c.toNat) && decide (c.toNat ≤ 0x200A))

def hexDigit (c : Char) : Bool :=
  c.isDigit || ('a' ≤ c && c ≤ 'f') || ('A' ≤ c && c ≤ 'F')

def hexValue (c : Char) : ℕ :=
  if c.isDigit then c.toNat-0x30 else c.toLower.toNat-0x57

def readDecimal (cs : List Char) : Option ℕ :=
  let digits := cs.takeWhile Char.isDigit
  if digits.isEmpty then none else some (Nat.ofDigitChars 10 digits 0)

def readHex (cs : List Char) : Option ℕ :=
  let digits := cs.takeWhile hexDigit
  if digits.isEmpty then none else some (digits.foldl (fun n c => 16*n+hexValue c) 0)

def readMagnitude : List Char → Option ℕ
  | '0' :: 'x' :: cs => readHex cs
  | '0' :: 'X' :: cs => readHex cs
  | cs => readDecimal cs

def parseInt (s : String) : Option ℤ :=
  match s.toList.dropWhile isBlank with
  | '-'::cs => (readMagnitude cs).map (fun n => -(n : ℤ))
  | '+'::cs => (readMagnitude cs).map (fun n => (n : ℤ))
  | cs => (readMagnitude cs).map (fun n => (n : ℤ))

theorem isDigit_of_mem_repr {n : ℕ} {c : Char} (h : c ∈ n.repr.toList) : c.isDigit = true := by
  rw [Nat.toList_repr] at h
  exact Nat.isDigit_of_mem_toDigits (by decide) (by decide) h

theorem not_mem_repr {n : ℕ} {c : Char} (hc : c.isDigit = false) : c ∉ n.repr.toList := by
  intro h
  rw [isDigit_of_mem_repr h] at hc
  cases hc

theorem isBlank_of_isDigit {c : Char} (h : c.isDigit = true) : isBlank c = false := by
  have hr : 48 ≤ c.toNat ∧ c.toNat ≤ 57 := by
    simpa [Char.isDigit, UInt32.le_iff_toNat_le] using h
  unfold isBlank
  simp only [List.mem_cons, List.not_mem_nil, or_false, Bool.or_eq_false_iff,
    decide_eq_false_iff_not, Bool.and_eq_false_iff]
  omega

theorem readDecimal_digits {cs : List Char} (hne : cs ≠ []) (h : ∀ c ∈ cs, c.isDigit = true) :
    readDecimal cs = some (Nat.ofDigitChars 10 cs 0) := by
  have htake : cs.takeWhile Char.isDigit = cs := by
    rw [List.takeWhile_eq_self_iff]
    exact h
  unfold readDecimal
  simp only [htake]
  simp [hne]

theorem readMagnitude_digits {cs : List Char} (hne : cs ≠ []) (h : ∀ c ∈ cs, c.isDigit = true) :
    readMagnitude cs = some (Nat.ofDigitChars 10 cs 0) := by
  unfold readMagnitude
  split
  · have hx := h 'x' (by simp)
    exact absurd hx (by decide)
  · have hx := h 'X' (by simp)
    exact absurd hx (by decide)
  · exact readDecimal_digits hne h

theorem readMagnitude_repr (n : ℕ) : readMagnitude n.repr.toList = some n := by
  have hne : n.repr.toList ≠ [] := by
    rw [Nat.toList_repr]
    exact Nat.toDigits_ne_nil
  rw [readMagnitude_digits hne (fun c hc => isDigit_of_mem_repr hc), Nat.toList_repr]
  congr 1
  exact Nat.ofDigitChars_ten_toDigits

theorem parseInt_neg_repr (n : ℕ) : parseInt ("-"++n.repr) = some (-(n : ℤ)) := by
  have hlist : ("-"++n.repr).toList = '-'::n.repr.toList := by simp
  unfold parseInt
  rw [hlist, List.dropWhile_cons_of_neg (by decide)]
  show (readMagnitude n.repr.toList).map (fun n => -(n : ℤ)) = _
  rw [readMagnitude_repr]
  rfl

theorem dropBlanks_repr (n : ℕ) : n.repr.toList.dropWhile isBlank = n.repr.toList := by
  cases hl : n.repr.toList with
  | nil => rfl
  | cons c cs =>
    have hc := isBlank_of_isDigit (isDigit_of_mem_repr (n := n) (c := c) (by simp [hl]))
    simp [hc]

theorem repr_ne_sign {n : ℕ} {c : Char} (hc : c.isDigit = false) (cs : List Char) :
    n.repr.toList ≠ c::cs := by
  intro hl
  exact not_mem_repr (n := n) hc (by rw [hl]; exact List.mem_cons_self)

theorem parseInt_repr (n : ℕ) : parseInt n.repr = some (n : ℤ) := by
  unfold parseInt
  rw [dropBlanks_repr]
  have hmag := readMagnitude_repr n
  split
  · rename_i cs hl
    exact absurd hl (repr_ne_sign (by rfl) cs)
  · rename_i cs hl
    exact absurd hl (repr_ne_sign (by rfl) cs)
  · rw [hmag]
    rfl

theorem repr_injective {m n : ℕ} (h : m.repr = n.repr) : m = n := by
  have hm := parseInt_repr m
  rw [h, parseInt_repr n] at hm
  exact (Int.ofNat_inj.mp (Option.some.inj hm)).symm

def intText (t : ℤ) : String := if 0 ≤ t then t.toNat.repr else "-"++(-t).toNat.repr

theorem parseInt_intText (t : ℤ) : parseInt (intText t) = some t := by
  unfold intText
  split
  · rw [parseInt_repr]
    congr 1
    omega
  · rw [parseInt_neg_repr]
    congr 1
    omega

theorem intText_injective {s t : ℤ} (h : intText s = intText t) : s = t := by
  have hs := parseInt_intText s
  rw [h, parseInt_intText t] at hs
  exact (Option.some.inj hs).symm

theorem not_mem_intText (t : ℤ) {c : Char} (hc : c.isDigit = false) (hm : c ≠ '-') :
    c ∉ (intText t).toList := by
  unfold intText
  split
  · exact not_mem_repr hc
  · simp only [String.toList_append, List.mem_append, not_or]
    exact ⟨by simpa using hm,not_mem_repr hc⟩

end Iotistica.JsNumerals
