import Mathlib.Algebra.Order.Ring.Nat
import Mathlib.Data.List.TakeWhile
import Mathlib.Tactic.Ring

/-!
# Numbers as JSON text

A number is a decimal whose mantissa does not end in zero. It prints the way
the runtime prints a number with these digits: plainly up to 21 digits, with
zeros behind the point down to the sixth place, and with an exponent outside.
Reading takes any number of the JSON grammar. The rounding of a text with more
digits than a double has is left out.
-/

set_option autoImplicit false

namespace Iotistica.JsonText

structure Decimal where
  negative : Bool
  mantissa : ℕ
  exponent : ℤ
  reduced : mantissa%10 ≠ 0 ∨ mantissa = 0 ∧ negative = false ∧ exponent = 0
  deriving DecidableEq

def Decimal.ofNat (n : ℕ) (h : n%10 ≠ 0) : Decimal := ⟨false,n,0,Or.inl h⟩

def Decimal.zero : Decimal := ⟨false,0,0,Or.inr ⟨rfl,rfl,rfl⟩⟩

def dropZeros : ℕ → ℕ → ℤ → ℕ × ℤ
  | 0, m, e => (m,e)
  | n+1, m, e => if m%10 = 0 then dropZeros n (m/10) (e+1) else (m,e)

theorem dropZeros_reduced (n m : ℕ) (e : ℤ) (hm : m ≠ 0) (hn : m ≤ n) :
    (dropZeros n m e).1%10 ≠ 0 := by
  induction n generalizing m e with
  | zero => omega
  | succ n ih =>
    unfold dropZeros
    split
    · exact ih _ _ (by omega) (by omega)
    · assumption

theorem dropZeros_mul (m : ℕ) (hm : m%10 ≠ 0) (j n : ℕ) (e : ℤ) (hn : j ≤ n) :
    dropZeros n (m*10^j) e = (m,e+j) := by
  induction j generalizing n e with
  | zero =>
    cases n with
    | zero => simp [dropZeros]
    | succ n => simp [dropZeros, hm]
  | succ j ih =>
    obtain ⟨n,rfl⟩ := Nat.exists_eq_succ_of_ne_zero (show n ≠ 0 by omega)
    have hmul : m*10^(j+1) = m*10^j*10 := by ring
    have hdiv : m*10^j*10/10 = m*10^j := Nat.mul_div_cancel _ (by decide)
    have hmod : m*10^j*10%10 = 0 := Nat.mul_mod_left _ _
    rw [hmul]
    unfold dropZeros
    rw [if_pos hmod, hdiv, ih n (e+1) (by omega)]
    congr 1
    push_cast
    ring

def reduce (negative : Bool) (m : ℕ) (e : ℤ) : Decimal :=
  if h : m = 0 then .zero
  else ⟨negative,(dropZeros m m e).1,(dropZeros m m e).2,
    Or.inl (dropZeros_reduced m m e h (Nat.le_refl m))⟩

theorem reduce_mul (d : Decimal) (j : ℕ) :
    reduce d.negative (d.mantissa*10^j) (d.exponent-j) = d := by
  obtain ⟨negative,m,e,hd⟩ := d
  by_cases h : m = 0
  · obtain ⟨hn,he⟩ : negative = false ∧ e = 0 := by
      rcases hd with hd | hd
      · omega
      · exact hd.2
    subst h hn he
    simp [reduce, Decimal.zero]
  · have hm : m%10 ≠ 0 := by
      rcases hd with hd | hd
      · exact hd
      · exact absurd hd.1 h
    have hpos : m*10^j ≠ 0 := Nat.mul_ne_zero h (Nat.pow_pos (by decide)).ne'
    have hj : j ≤ m*10^j :=
      (Nat.lt_pow_self (by decide)).le.trans (Nat.le_mul_of_pos_left _ (Nat.pos_of_ne_zero h))
    have hs := dropZeros_mul m hm j (m*10^j) (e-j) hj
    unfold reduce
    rw [dif_neg hpos]
    simp only [hs, Decimal.mk.injEq, true_and]
    ring

def zeros (n : ℕ) : List Char := List.replicate n '0'

def exponentText (e : ℤ) : List Char :=
  'e' :: (if 0 ≤ e then '+' else '-') :: Nat.toDigits 10 e.natAbs

/-- The digits of the mantissa, with the point after the first `point` places. -/
def magnitudeText (m : ℕ) (e : ℤ) : List Char :=
  let digits := Nat.toDigits 10 m
  let point : ℤ := digits.length+e
  if 0 ≤ e ∧ point ≤ 21 then digits++zeros e.toNat
  else if 0 < point ∧ point ≤ 21 then
    digits.take point.toNat++ '.' :: digits.drop point.toNat
  else if -6 < point ∧ point ≤ 0 then '0' :: '.' :: (zeros (-point).toNat++digits)
  else
    digits.take 1++(if digits.length = 1 then [] else '.' :: digits.drop 1)++
      exponentText (point-1)

def numberText (d : Decimal) : List Char :=
  (if d.negative then ['-'] else [])++magnitudeText d.mantissa d.exponent

def spanDigits (cs : List Char) : List Char × List Char :=
  (cs.takeWhile Char.isDigit,cs.dropWhile Char.isDigit)

def readFraction (cs : List Char) : Option (List Char × List Char) :=
  match cs with
  | '.' :: r => if (spanDigits r).1.isEmpty then none else some (spanDigits r)
  | _ => some ([],cs)

def readExponentDigits (sign : ℤ) (cs : List Char) : Option (ℤ × List Char) :=
  if (spanDigits cs).1.isEmpty then none
  else some (sign*Nat.ofDigitChars 10 (spanDigits cs).1 0,(spanDigits cs).2)

def readExponent (cs : List Char) : Option (ℤ × List Char) :=
  match cs with
  | c :: r =>
    if c = 'e' ∨ c = 'E' then
      match r with
      | '+' :: r' => readExponentDigits 1 r'
      | '-' :: r' => readExponentDigits (-1) r'
      | _ => readExponentDigits 1 r
    else some (0,cs)
  | [] => some (0,[])

def readMagnitude (negative : Bool) (cs : List Char) : Option (Decimal × List Char) :=
  let whole := (spanDigits cs).1
  if whole.isEmpty || (whole.head? = some '0' && whole.length ≠ 1) then none
  else
    (readFraction (spanDigits cs).2).bind fun f =>
      (readExponent f.2).map fun x =>
        (reduce negative (Nat.ofDigitChars 10 (whole++f.1) 0) (x.1-f.1.length),x.2)

def readNumber (cs : List Char) : Option (Decimal × List Char) :=
  match cs with
  | '-' :: r => readMagnitude true r
  | _ => readMagnitude false cs

theorem head_toDigits (m : ℕ) (hm : m ≠ 0) : (Nat.toDigits 10 m).head? ≠ some '0' := by
  induction m using Nat.strong_induction_on with
  | _ m ih =>
    rcases Nat.lt_or_ge m 10 with h | h
    · rw [Nat.toDigits_of_lt_base h]
      have hall : ∀ k, k < 10 → k ≠ 0 → k.digitChar ≠ '0' := by decide
      simpa using hall m h hm
    · have hdiv := ih (m/10) (by omega) (by omega)
      rw [Nat.toDigits_of_base_le (by decide) h]
      cases hd : Nat.toDigits 10 (m/10) with
      | nil => exact absurd hd Nat.toDigits_ne_nil
      | cons c cs =>
        rw [hd] at hdiv
        exact hdiv

theorem isDigit_toDigits {m : ℕ} {c : Char} (h : c ∈ Nat.toDigits 10 m) : c.isDigit = true :=
  Nat.isDigit_of_mem_toDigits (by decide) (by decide) h

def Stops (r : List Char) : Prop :=
  ∀ c ∈ r.head?, c.isDigit = false ∧ c ≠ '.' ∧ c ≠ 'e' ∧ c ≠ 'E'

theorem spanDigits_append {ds r : List Char} (hd : ∀ c ∈ ds, c.isDigit = true)
    (hr : ∀ c ∈ r.head?, c.isDigit = false) : spanDigits (ds++r) = (ds,r) := by
  have hstop : r.takeWhile Char.isDigit = [] ∧ r.dropWhile Char.isDigit = r := by
    cases r with
    | nil => exact ⟨rfl,rfl⟩
    | cons c r =>
      have hc := hr c rfl
      exact ⟨List.takeWhile_cons_of_neg (by simp [hc]),List.dropWhile_cons_of_neg (by simp [hc])⟩
  unfold spanDigits
  rw [List.takeWhile_append_of_pos hd, List.dropWhile_append_of_pos hd, hstop.1, hstop.2,
    List.append_nil]

def layout (whole fraction : List Char) (x : Option ℤ) : List Char :=
  whole++((if fraction.isEmpty then [] else '.' :: fraction)++x.elim [] exponentText)

theorem readExponentDigits_toDigits (sign : ℤ) (n : ℕ) {rest : List Char} (hr : Stops rest) :
    readExponentDigits sign (Nat.toDigits 10 n++rest) = some (sign*n,rest) := by
  have hspan : spanDigits (Nat.toDigits 10 n++rest) = (Nat.toDigits 10 n,rest) :=
    spanDigits_append (fun c hc => isDigit_toDigits hc) (fun c hc => (hr c hc).1)
  unfold readExponentDigits
  simp only [hspan]
  rw [if_neg (by simp [Nat.toDigits_ne_nil]), Nat.ofDigitChars_ten_toDigits]

theorem readExponent_text (x : Option ℤ) {rest : List Char} (hr : Stops rest) :
    readExponent (x.elim [] exponentText++rest) = some (x.getD 0,rest) := by
  cases x with
  | none =>
    cases rest with
    | nil => rfl
    | cons c r =>
      have hc := hr c rfl
      simp [readExponent, hc.2.2]
  | some e =>
    by_cases he : 0 ≤ e
    · have h := readExponentDigits_toDigits 1 e.natAbs hr
      have hv : (1 : ℤ)*e.natAbs = e := by omega
      rw [hv] at h
      simpa [readExponent, exponentText, he] using h
    · have h := readExponentDigits_toDigits (-1) e.natAbs hr
      have hv : (-1 : ℤ)*e.natAbs = e := by omega
      rw [hv] at h
      simpa [readExponent, exponentText, he] using h

theorem head_exponent (x : Option ℤ) {rest : List Char} (hr : Stops rest) :
    ∀ c ∈ (x.elim [] exponentText++rest).head?, c.isDigit = false ∧ c ≠ '.' := by
  intro c hc
  cases x with
  | none => exact ⟨(hr c hc).1,(hr c hc).2.1⟩
  | some e =>
    obtain rfl : 'e' = c := by simpa [exponentText] using hc
    decide

theorem readFraction_layout {fraction r : List Char} (hf : ∀ c ∈ fraction, c.isDigit = true)
    (hr : ∀ c ∈ r.head?, c.isDigit = false ∧ c ≠ '.') :
    readFraction ((if fraction.isEmpty then [] else '.' :: fraction)++r) = some (fraction,r) := by
  by_cases he : fraction = []
  · subst he
    cases r with
    | nil => rfl
    | cons c r =>
      have hc := (hr c rfl).2
      show readFraction (c :: r) = some ([],c :: r)
      unfold readFraction
      split
      · rename_i heq
        exact absurd (List.cons.inj heq).1 hc
      · rfl
  · have hspan := spanDigits_append hf (fun c hc => (hr c hc).1)
    have hemp : fraction.isEmpty = false := by simpa using he
    rw [hemp]
    show readFraction ('.' :: (fraction++r)) = _
    unfold readFraction
    simp [hspan, he]

theorem readMagnitude_layout (negative : Bool) {whole fraction rest : List Char} (x : Option ℤ)
    (hw : ∀ c ∈ whole, c.isDigit = true) (hne : whole ≠ [])
    (hlead : whole.head? = some '0' → whole.length = 1)
    (hf : ∀ c ∈ fraction, c.isDigit = true) (hr : Stops rest) :
    readMagnitude negative (layout whole fraction x++rest) =
      some (reduce negative (Nat.ofDigitChars 10 (whole++fraction) 0)
        (x.getD 0-fraction.length),rest) := by
  have hx := readExponent_text x hr
  have hfr := readFraction_layout hf (head_exponent x hr)
  have hspan : spanDigits (layout whole fraction x++rest) =
      (whole,(if fraction.isEmpty then [] else '.' :: fraction)++(x.elim [] exponentText++rest)) := by
    unfold layout
    rw [List.append_assoc, List.append_assoc]
    apply spanDigits_append hw
    intro c hc
    by_cases he : fraction = []
    · subst he
      exact (head_exponent x hr c hc).1
    · have hemp : fraction.isEmpty = false := by simpa using he
      rw [hemp] at hc
      obtain rfl : '.' = c := by simpa using hc
      decide
  have hguard : (whole.isEmpty || (whole.head? = some '0' && whole.length ≠ 1)) = false := by
    simp only [Bool.or_eq_false_iff, List.isEmpty_eq_false_iff, Bool.and_eq_false_iff,
      decide_eq_false_iff_not]
    refine ⟨hne,?_⟩
    by_cases h : whole.head? = some '0'
    · exact Or.inr (by simp [hlead h])
    · exact Or.inl h
  unfold readMagnitude
  simp only [hspan, hguard, hfr, Bool.false_eq_true, if_false, Option.bind_some, hx, Option.map_some]

theorem lead_zero {d : Decimal} {n : ℕ} (hn : 0 < n)
    (h : ((Nat.toDigits 10 d.mantissa).take n).head? = some '0') :
    d.mantissa = 0 ∧ d.exponent = 0 := by
  have hm : d.mantissa = 0 := by
    by_contra hm
    apply head_toDigits d.mantissa hm
    rwa [List.head?_take, if_neg (by omega)] at h
  rcases d.reduced with hd | hd
  · omega
  · exact ⟨hm,hd.2.2⟩

theorem readMagnitude_digits (d : Decimal) {whole fraction rest : List Char} (x : Option ℤ) (j : ℕ)
    (hw : ∀ c ∈ whole, c.isDigit = true) (hne : whole ≠ [])
    (hlead : whole.head? = some '0' → whole.length = 1)
    (hf : ∀ c ∈ fraction, c.isDigit = true)
    (hv : Nat.ofDigitChars 10 (whole++fraction) 0 = d.mantissa*10^j)
    (he : x.getD 0-fraction.length = d.exponent-j) (hr : Stops rest) :
    readMagnitude d.negative (layout whole fraction x++rest) = some (d,rest) := by
  rw [readMagnitude_layout d.negative x hw hne hlead hf hr, hv, he, reduce_mul]

theorem readMagnitude_cut (d : Decimal) {n : ℕ} (hn : 0 < n) (x : Option ℤ)
    (he : x.getD 0-((Nat.toDigits 10 d.mantissa).drop n).length = d.exponent) {rest : List Char}
    (hr : Stops rest) :
    readMagnitude d.negative (layout ((Nat.toDigits 10 d.mantissa).take n)
      ((Nat.toDigits 10 d.mantissa).drop n) x++rest) = some (d,rest) := by
  apply readMagnitude_digits d x 0 _ _ _ _ _ _ hr
  · exact fun c hc => isDigit_toDigits (List.mem_of_mem_take hc)
  · intro h
    rw [List.take_eq_nil_iff] at h
    rcases h with h | h
    · omega
    · exact Nat.toDigits_ne_nil h
  · intro h
    rw [(lead_zero hn h).1]
    simp
    omega
  · exact fun c hc => isDigit_toDigits (List.mem_of_mem_drop hc)
  · rw [List.take_append_drop, Nat.ofDigitChars_ten_toDigits, Nat.pow_zero, Nat.mul_one]
  · simpa using he

theorem isDigit_zeros {n : ℕ} {c : Char} (h : c ∈ zeros n) : c.isDigit = true := by
  rw [List.eq_of_mem_replicate h]
  rfl

theorem readMagnitude_padded (d : Decimal) (hd : 0 ≤ d.exponent) {rest : List Char}
    (hr : Stops rest) :
    readMagnitude d.negative (layout (Nat.toDigits 10 d.mantissa++zeros d.exponent.toNat) [] none++
      rest) = some (d,rest) := by
  have hlen : 0 < (Nat.toDigits 10 d.mantissa).length := Nat.length_toDigits_pos
  apply readMagnitude_digits d none d.exponent.toNat _ _ _ _ _ _ hr
  · intro c hc
    rcases List.mem_append.mp hc with hc | hc
    · exact isDigit_toDigits hc
    · exact isDigit_zeros hc
  · exact List.append_ne_nil_of_left_ne_nil Nat.toDigits_ne_nil _
  · intro hz
    have hh : ((Nat.toDigits 10 d.mantissa).take (Nat.toDigits 10 d.mantissa).length).head? =
        some '0' := by
      rw [List.take_length]
      cases hm : Nat.toDigits 10 d.mantissa with
      | nil => exact absurd hm Nat.toDigits_ne_nil
      | cons c cs => simpa [hm] using hz
    obtain ⟨hm,he⟩ := lead_zero hlen hh
    rw [hm, he]
    rfl
  · intro c hc
    cases hc
  · rw [List.append_nil, Nat.ofDigitChars_append, Nat.ofDigitChars_ten_toDigits, zeros,
      Nat.ofDigitChars_replicate_zero, Nat.mul_comm]
  · simp
    omega

theorem readMagnitude_small (d : Decimal) {n : ℕ}
    (hn : ((Nat.toDigits 10 d.mantissa).length : ℤ)+d.exponent = -n) {rest : List Char}
    (hr : Stops rest) :
    readMagnitude d.negative (layout ['0'] (zeros n++Nat.toDigits 10 d.mantissa) none++rest) =
      some (d,rest) := by
  apply readMagnitude_digits d none 0 _ _ _ _ _ _ hr
  · intro c hc
    rw [List.mem_singleton.mp hc]
    rfl
  · exact List.cons_ne_nil _ _
  · exact fun _ => rfl
  · intro c hc
    rcases List.mem_append.mp hc with hc | hc
    · exact isDigit_zeros hc
    · exact isDigit_toDigits hc
  · have hz : ['0']++(zeros n++Nat.toDigits 10 d.mantissa) =
        List.replicate (n+1) '0'++Nat.toDigits 10 d.mantissa := rfl
    rw [hz, Nat.ofDigitChars_append, Nat.ofDigitChars_replicate_zero, Nat.mul_zero,
      Nat.ofDigitChars_ten_toDigits, Nat.pow_zero, Nat.mul_one]
  · simp [zeros]
    omega

theorem readMagnitude_text (d : Decimal) {rest : List Char} (hr : Stops rest) :
    readMagnitude d.negative (magnitudeText d.mantissa d.exponent++rest) = some (d,rest) := by
  have hlen : 0 < (Nat.toDigits 10 d.mantissa).length := Nat.length_toDigits_pos
  unfold magnitudeText
  simp only
  split
  · rename_i h
    simpa [layout] using readMagnitude_padded d h.1 hr
  · split
    · rename_i h0 h
      have hlt : (((Nat.toDigits 10 d.mantissa).length : ℤ)+d.exponent).toNat <
          (Nat.toDigits 10 d.mantissa).length := by omega
      have hread := readMagnitude_cut d (n := (((Nat.toDigits 10 d.mantissa).length : ℤ)+
        d.exponent).toNat) (by omega) none (by simp; omega) hr
      have hne : ((Nat.toDigits 10 d.mantissa).drop (((Nat.toDigits 10 d.mantissa).length : ℤ)+
          d.exponent).toNat).isEmpty = false := by simpa using hlt
      simpa [layout, hne] using hread
    · split
      · rename_i h
        have hread := readMagnitude_small d (n := (-(((Nat.toDigits 10 d.mantissa).length : ℤ)+
          d.exponent)).toNat) (by omega) hr
        simpa [layout, Nat.toDigits_ne_nil] using hread
      · have hread := readMagnitude_cut d (n := 1) (by decide)
          (some ((Nat.toDigits 10 d.mantissa).length+d.exponent-1)) (by simp; omega) hr
        have hone : ((Nat.toDigits 10 d.mantissa).tail = []) =
            ((Nat.toDigits 10 d.mantissa).length = 1) := by
          rw [eq_iff_iff, ← List.length_eq_zero_iff, List.length_tail]
          omega
        simpa [layout, hone] using hread

theorem readNumber_numberText (d : Decimal) {rest : List Char} (hr : Stops rest) :
    readNumber (numberText d++rest) = some (d,rest) := by
  have hread := readMagnitude_text d hr
  unfold numberText
  cases hd : d.negative with
  | true =>
    rw [hd] at hread
    exact hread
  | false =>
    rw [hd] at hread
    simp only [Bool.false_eq_true, if_false, List.nil_append]
    unfold readNumber
    split
    · rename_i r heq
      rw [heq] at hread
      simp [readMagnitude, spanDigits] at hread
    · exact hread

end Iotistica.JsonText
