import Iotistica.DoubleRounding
import Iotistica.EditDistance
import Mathlib.Data.List.Basic

/-!
# Similarity of field names

`levenshteinDistance` fills a flat table of 16-bit numbers row by row. A
cell holds the distance of two prefixes, which the recursion on heads
computes on the reversed prefixes. `stringSimilarity` divides the distance
by the greater length, in doubles.
-/

set_option autoImplicit false

namespace Iotistica.FieldSimilarity
open EditDistance DoubleRounding

/-- What an `Int16Array` stores of a number. -/
def int16 (n : ℤ) : ℤ := Int.bmod n 65536

def write (dp : Array ℤ) (k : ℕ) (v : ℤ) : Array ℤ := dp.setIfInBounds k (int16 v)

def read (dp : Array ℤ) (k : ℕ) : ℤ := dp.getD k 0

def firstColumn (rows cols : ℕ) (dp : Array ℤ) : Array ℤ :=
  (List.range rows).foldl (fun dp (i : ℕ) => write dp (i*cols) i) dp

def firstRow (cols : ℕ) (dp : Array ℤ) : Array ℤ :=
  (List.range cols).foldl (fun dp (j : ℕ) => write dp j j) dp

variable {α : Type*} [DecidableEq α]

/-- The value for the cell `i`, `j`; both are positive. -/
def cell (a b : List α) (dp : Array ℤ) (i j : ℕ) : ℤ :=
  let cols := b.length+1
  let cost : ℤ := if a[i-1]? = b[j-1]? then 0 else 1
  min (read dp ((i-1)*cols+j)+1) (min (read dp (i*cols+(j-1))+1) (read dp ((i-1)*cols+(j-1))+cost))

def fillRow (a b : List α) (i m : ℕ) (dp : Array ℤ) : Array ℤ :=
  (List.range' 1 m).foldl (fun dp j => write dp (i*(b.length+1)+j) (cell a b dp i j)) dp

def fill (a b : List α) (n : ℕ) (dp : Array ℤ) : Array ℤ :=
  (List.range' 1 n).foldl (fun dp i => fillRow a b i b.length dp) dp

def levenshteinDistance (a b : List α) (maxFieldLength : ℚ) : Option ℤ :=
  if ⌈maxFieldLength*(1/2)⌉ < |(a.length : ℤ)-b.length| then none
  else if a = b then some 0
  else if a.length = 0 then some b.length
  else if b.length = 0 then some a.length
  else
    let rows := a.length+1
    let cols := b.length+1
    let dp := fill a b a.length
      (firstRow cols (firstColumn rows cols (Array.replicate (rows*cols) 0)))
    some (read dp ((rows-1)*cols+(cols-1)))

/-- The quotient and the difference are rounded to doubles. -/
def stringSimilarity (a b : List α) (maxFieldLength : ℚ) : Option ℚ :=
  let maxLen := max a.length b.length
  if maxLen = 0 then some 1
  else
    match levenshteinDistance a b maxFieldLength with
    | none => none
    | some dist => some (nearest (1-nearest (dist/maxLen)))

theorem int16_of_lt {n : ℕ} (h : n < 32768) : int16 n=n := by
  rw [int16, Int.bmod_def]
  split <;> omega

theorem size_write (dp : Array ℤ) (k : ℕ) (v : ℤ) : (write dp k v).size=dp.size := by
  simp [write]

theorem read_write {dp : Array ℤ} {k : ℕ} (hk : k < dp.size) (v : ℤ) (j : ℕ) :
    read (write dp k v) j=if j = k then int16 v else read dp j := by
  unfold read write
  by_cases hj : j=k
  · subst hj
    simp [Array.getD, hk]
  · simp only [Array.getD, Array.size_setIfInBounds, if_neg hj]
    split
    · exact Array.getElem_setIfInBounds_ne _ (Ne.symm hj)
    · rfl

theorem place_inj {cols r c r' c' : ℕ} (hc : c < cols) (hc' : c' < cols) :
    r*cols+c=r'*cols+c' ↔ r=r' ∧ c=c' := by
  constructor
  · intro h
    rcases Nat.lt_trichotomy r r' with hlt | rfl | hlt
    · have := Nat.mul_le_mul_right cols (Nat.succ_le_of_lt hlt)
      rw [Nat.succ_mul] at this
      omega
    · exact ⟨rfl,by omega⟩
    · have := Nat.mul_le_mul_right cols (Nat.succ_le_of_lt hlt)
      rw [Nat.succ_mul] at this
      omega
  · rintro ⟨rfl,rfl⟩
    rfl

theorem place_lt {rows cols r c : ℕ} (hr : r < rows) (hc : c < cols) : r*cols+c < rows*cols := by
  calc r*cols+c < r*cols+cols := Nat.add_lt_add_left hc _
    _ = (r+1)*cols := by rw [Nat.add_mul, Nat.one_mul]
    _ ≤ rows*cols := Nat.mul_le_mul_right _ hr

def prefixDistance (a b : List α) (r c : ℕ) : ℕ := distance (a.take r).reverse (b.take c).reverse

theorem prefixDistance_row (a b : List α) {c : ℕ} (hc : c ≤ b.length) :
    prefixDistance a b 0 c=c := by
  simp [prefixDistance, hc]

theorem prefixDistance_column (a b : List α) {r : ℕ} (hr : r ≤ a.length) :
    prefixDistance a b r 0=r := by
  simp [prefixDistance, hr]

theorem prefixDistance_step (a b : List α) {r c : ℕ} (hr : r < a.length) (hc : c < b.length) :
    prefixDistance a b (r+1) (c+1)=min (prefixDistance a b r (c+1)+1)
      (min (prefixDistance a b (r+1) c+1)
        (prefixDistance a b r c+if a[r]? = b[c]? then 0 else 1)) := by
  have ha : (a.take (r+1)).reverse=a[r]::(a.take r).reverse := by
    rw [List.take_add_one, List.getElem?_eq_getElem hr]
    simp
  have hb : (b.take (c+1)).reverse=b[c]::(b.take c).reverse := by
    rw [List.take_add_one, List.getElem?_eq_getElem hc]
    simp
  unfold prefixDistance
  rw [ha, hb, distance_cons, ← ha, ← hb, List.getElem?_eq_getElem hr, List.getElem?_eq_getElem hc]
  simp

theorem prefixDistance_full (a b : List α) :
    prefixDistance a b a.length b.length=distance a b := by
  simp [prefixDistance, distance_reverse]

theorem prefixDistance_lt {a b : List α} (ha : a.length < 32768) (hb : b.length < 32768) (r c : ℕ) :
    prefixDistance a b r c < 32768 := by
  refine lt_of_le_of_lt (distance_le_max _ _) ?_
  simp only [List.length_reverse, List.length_take]
  omega

/-- The cells filled so far: the first row and column, the rows above `i`
and in row `i` the columns up to `j`. -/
structure Filled (a b : List α) (dp : Array ℤ) (i j : ℕ) : Prop where
  size : dp.size=(a.length+1)*(b.length+1)
  cells : ∀ r c, r ≤ a.length → c ≤ b.length → (r=0 ∨ c=0 ∨ r < i ∨ (r=i ∧ c ≤ j)) →
    read dp (r*(b.length+1)+c)=prefixDistance a b r c

theorem cell_eq {a b : List α} {dp : Array ℤ} {i j : ℕ} (h : Filled a b dp (i+1) j)
    (hi : i < a.length) (hj : j < b.length) :
    cell a b dp (i+1) (j+1)=prefixDistance a b (i+1) (j+1) := by
  have h1 := h.cells i (j+1) (by omega) (by omega) (by omega)
  have h2 := h.cells (i+1) j (by omega) (by omega) (by omega)
  have h3 := h.cells i j (by omega) (by omega) (by omega)
  simp only [cell, Nat.add_sub_cancel]
  rw [h1, h2, h3, prefixDistance_step a b hi hj]
  push_cast
  rfl

theorem filled_write {a b : List α} {dp : Array ℤ} {i j : ℕ} (ha : a.length < 32768)
    (hb : b.length < 32768) (h : Filled a b dp (i+1) j) (hi : i < a.length) (hj : j < b.length) :
    Filled a b (write dp ((i+1)*(b.length+1)+(j+1)) (cell a b dp (i+1) (j+1))) (i+1) (j+1) := by
  have hlt : (i+1)*(b.length+1)+(j+1) < dp.size := by
    rw [h.size]
    exact place_lt (by omega) (by omega)
  refine ⟨by rw [size_write, h.size],fun r c hr hc hmem => ?_⟩
  rw [read_write hlt]
  by_cases hsame : r=i+1 ∧ c=j+1
  · obtain ⟨rfl,rfl⟩ := hsame
    rw [if_pos rfl, cell_eq h hi hj]
    exact int16_of_lt (prefixDistance_lt ha hb _ _)
  · have hne : ¬ r*(b.length+1)+c=(i+1)*(b.length+1)+(j+1) :=
      mt (place_inj (by omega) (by omega)).mp hsame
    rw [if_neg hne]
    exact h.cells r c hr hc (by omega)

theorem filled_row {a b : List α} {dp : Array ℤ} {i : ℕ} (ha : a.length < 32768)
    (hb : b.length < 32768) (hi : i < a.length) (h : Filled a b dp (i+1) 0) (m : ℕ)
    (hm : m ≤ b.length) : Filled a b (fillRow a b (i+1) m dp) (i+1) m := by
  induction m with
  | zero => exact h
  | succ m ih =>
    unfold fillRow at ih ⊢
    rw [List.range'_concat, List.foldl_append, Nat.one_mul, Nat.add_comm 1 m]
    exact filled_write ha hb (ih (by omega)) hi hm

theorem filled_rows {a b : List α} {dp : Array ℤ} (ha : a.length < 32768) (hb : b.length < 32768)
    (h : Filled a b dp 1 0) (n : ℕ) (hn : n ≤ a.length) : Filled a b (fill a b n dp) (n+1) 0 := by
  induction n with
  | zero => exact h
  | succ n ih =>
    unfold fill at ih ⊢
    rw [List.range'_concat, List.foldl_append, Nat.one_mul, Nat.add_comm 1 n]
    have hrow := filled_row ha hb hn (ih (by omega)) b.length (Nat.le_refl _)
    refine ⟨hrow.size,fun r c hr hc hmem => hrow.cells r c hr hc ?_⟩
    omega

theorem read_firstColumn {rows cols : ℕ} (hcols : 0 < cols) {dp : Array ℤ}
    (hsize : dp.size=rows*cols) (hrows : rows ≤ 32768) (m : ℕ) (hm : m ≤ rows) :
    (firstColumn m cols dp).size=rows*cols ∧
      ∀ r, r < m → read (firstColumn m cols dp) (r*cols)=r := by
  induction m with
  | zero => exact ⟨hsize,nofun⟩
  | succ m ih =>
    obtain ⟨hs,hcells⟩ := ih (by omega)
    have hstep : firstColumn (m+1) cols dp=write (firstColumn m cols dp) (m*cols) m := by
      simp [firstColumn, List.range_succ]
    have hlt : m*cols < (firstColumn m cols dp).size := by
      rw [hs]
      exact place_lt (c := 0) (by omega) hcols
    rw [hstep]
    refine ⟨by rw [size_write, hs],fun r hr => ?_⟩
    rw [read_write hlt]
    by_cases hrm : r=m
    · subst hrm
      rw [if_pos rfl]
      exact int16_of_lt (by omega)
    · have hne : ¬ r*cols=m*cols := fun h => hrm (Nat.eq_of_mul_eq_mul_right hcols h)
      rw [if_neg hne]
      exact hcells r (by omega)

theorem read_firstRow {rows cols : ℕ} (hrows : 0 < rows) {dp : Array ℤ}
    (hsize : dp.size=rows*cols) (hlen : cols ≤ 32768)
    (hcol : ∀ r, r < rows → read dp (r*cols)=r) (m : ℕ) (hm : m ≤ cols) :
    (firstRow m dp).size=rows*cols ∧ (∀ c, c < m → read (firstRow m dp) c=c) ∧
      ∀ r, r < rows → read (firstRow m dp) (r*cols)=r := by
  induction m with
  | zero => exact ⟨hsize,nofun,hcol⟩
  | succ m ih =>
    obtain ⟨hs,hrow,hcells⟩ := ih (by omega)
    have hstep : firstRow (m+1) dp=write (firstRow m dp) m m := by
      simp [firstRow, List.range_succ]
    have hlt : m < (firstRow m dp).size := by
      rw [hs]
      simpa using place_lt (r := 0) hrows (show m < cols by omega)
    have hval : int16 m=m := int16_of_lt (by omega)
    rw [hstep]
    refine ⟨by rw [size_write, hs],fun c hc => ?_,fun r hr => ?_⟩
    · rw [read_write hlt]
      by_cases hcm : c=m
      · rw [if_pos hcm, hval, hcm]
      · rw [if_neg hcm]
        exact hrow c (by omega)
    · rw [read_write hlt]
      by_cases hrm : r*cols=m
      · -- only the first cell of the row lies in the column
        have hzero : r=0 ∧ 0=m := by
          apply (place_inj (by omega) (show m < cols by omega)).mp
          simpa using hrm
        rw [if_pos hrm, hval, ← hzero.2, hzero.1]
      · rw [if_neg hrm]
        exact hcells r hr

theorem filled_start {a b : List α} (ha : a.length < 32768) (hb : b.length < 32768) :
    Filled a b (firstRow (b.length+1) (firstColumn (a.length+1) (b.length+1)
      (Array.replicate ((a.length+1)*(b.length+1)) 0))) 1 0 := by
  obtain ⟨hs,hcol⟩ := read_firstColumn (show 0 < b.length+1 by omega)
    (Array.size_replicate (n := (a.length+1)*(b.length+1)) (v := (0:ℤ))) (by omega)
    (a.length+1) (Nat.le_refl _)
  obtain ⟨hs,hrow,hcol⟩ := read_firstRow (by omega) hs (by omega) hcol (b.length+1) (Nat.le_refl _)
  refine ⟨hs,fun r c hr hc hmem => ?_⟩
  rcases show r=0 ∨ c=0 by omega with rfl | rfl
  · rw [prefixDistance_row a b hc]
    simpa using hrow c (by omega)
  · rw [prefixDistance_column a b hr]
    simpa using hcol r (by omega)

theorem levenshteinDistance_eq {a b : List α} (ha : a.length < 32768) (hb : b.length < 32768)
    (maxFieldLength : ℚ) : levenshteinDistance a b maxFieldLength=
      if ⌈maxFieldLength*(1/2)⌉ < |(a.length : ℤ)-b.length| then none
      else some (distance a b : ℤ) := by
  unfold levenshteinDistance
  split
  · rfl
  split
  · next h => rw [h, distance_self]; rfl
  split
  · next h => rw [List.length_eq_zero_iff.mp h, distance_nil]
  split
  · next h => rw [List.length_eq_zero_iff.mp h, distance_nil_right]
  · have h := filled_rows ha hb (filled_start ha hb) a.length (Nat.le_refl _)
    have hread := h.cells a.length b.length (Nat.le_refl _) (Nat.le_refl _) (by omega)
    simp only [Nat.add_sub_cancel]
    rw [hread, prefixDistance_full]

def similarity (dist maxLen : ℕ) : ℚ := nearest (1-nearest ((dist : ℚ)/maxLen))

section
variable {dist maxLen : ℕ}

theorem quotient_bounds (hpos : 0 < maxLen) (hle : dist ≤ maxLen) :
    0 ≤ nearest ((dist : ℚ)/maxLen) ∧ nearest ((dist : ℚ)/maxLen) ≤ 1 := by
  have hm : (0:ℚ) < maxLen := by exact_mod_cast hpos
  have h0 : (0:ℚ) ≤ (dist : ℚ)/maxLen := by positivity
  have h1 : (dist : ℚ)/maxLen ≤ 1 := by
    rw [div_le_one hm]
    exact_mod_cast hle
  have habs : |(dist : ℚ)/maxLen| < 2^53 := by
    rw [abs_of_nonneg h0]
    linarith
  exact ⟨by exact_mod_cast le_nearest (n := 0) habs (by simpa using h0),
    by exact_mod_cast nearest_le (n := 1) habs (by simpa using h1)⟩

theorem similarity_bounds (hpos : 0 < maxLen) (hle : dist ≤ maxLen) :
    0 ≤ similarity dist maxLen ∧ similarity dist maxLen ≤ 1 := by
  obtain ⟨h0,h1⟩ := quotient_bounds hpos hle
  have habs : |1-nearest ((dist : ℚ)/maxLen)| < 2^53 := by
    rw [abs_of_nonneg (by linarith)]
    linarith
  refine ⟨?_,?_⟩
  · exact_mod_cast le_nearest (n := 0) habs (by push_cast; linarith)
  · exact_mod_cast nearest_le (n := 1) habs (by push_cast; linarith)

theorem similarity_zero (maxLen : ℕ) : similarity 0 maxLen=1 := by
  have hzero : nearest 0=0 := by simp [nearest, roundEven]
  have hone : |(1:ℚ)| < 2^53 := by norm_num
  unfold similarity
  rw [Nat.cast_zero, zero_div, hzero, sub_zero]
  apply le_antisymm
  · exact_mod_cast nearest_le (n := 1) hone (by norm_num)
  · exact_mod_cast le_nearest (n := 1) hone (by norm_num)

/-- The quotient is at least `2^(-15)`, and the difference to one is not
rounded away. -/
theorem similarity_lt (hdist : 0 < dist) (hle : dist ≤ maxLen) (hlen : maxLen < 32768) :
    similarity dist maxLen < 1 := by
  have hpos : 0 < maxLen := Nat.lt_of_lt_of_le hdist hle
  have hm : (0:ℚ) < maxLen := by exact_mod_cast hpos
  have hd : (1:ℚ) ≤ dist := by exact_mod_cast hdist
  have hm' : (maxLen : ℚ) ≤ 2^15 := by exact_mod_cast hlen.le
  obtain ⟨h0,h1⟩ := quotient_bounds hpos hle
  have hquot : ((1:ℤ):ℚ)/2^15 ≤ (dist : ℚ)/maxLen := by
    rw [div_le_div_iff₀ (by norm_num) hm]
    push_cast
    nlinarith
  have hone : (dist : ℚ)/maxLen ≤ 1 := by
    rw [div_le_one hm]
    exact_mod_cast hle
  have habs : |(dist : ℚ)/maxLen| < 2^(53-15) := by
    rw [abs_of_nonneg (by positivity)]
    linarith
  have hq := le_nearest_dyadic (by norm_num) habs hquot
  have habs' : |1-nearest ((dist : ℚ)/maxLen)| < 2^(53-15) := by
    rw [abs_of_nonneg (by linarith)]
    linarith
  have hr := nearest_le_dyadic (n := 32767) (j := 15) (by norm_num) habs' (by
    push_cast at hq ⊢
    linarith)
  have hsmall : ((32767:ℤ):ℚ)/2^15 < 1 := by norm_num
  exact lt_of_le_of_lt hr hsmall

end

theorem stringSimilarity_eq {a b : List α} (ha : a.length < 32768) (hb : b.length < 32768)
    (maxFieldLength : ℚ) : stringSimilarity a b maxFieldLength=
      if max a.length b.length = 0 then some 1
      else if ⌈maxFieldLength*(1/2)⌉ < |(a.length : ℤ)-b.length| then none
      else some (similarity (distance a b) (max a.length b.length)) := by
  unfold stringSimilarity
  rw [levenshteinDistance_eq ha hb]
  dsimp only
  split
  · rfl
  · by_cases hlen : ⌈maxFieldLength*(1/2)⌉ < |(a.length : ℤ)-b.length|
    · rw [if_pos hlen, if_pos hlen]
    · rw [if_neg hlen, if_neg hlen]
      simp only [similarity, Int.cast_natCast]

theorem similarity_one_iff {a b : List α} {maxFieldLength : ℚ}
    (ha : (a.length : ℚ) ≤ maxFieldLength) (hb : (b.length : ℚ) ≤ maxFieldLength)
    (hfit : maxFieldLength < 32768) : stringSimilarity a b maxFieldLength = some 1 ↔ a=b := by
  have ha' : a.length < 32768 := by exact_mod_cast lt_of_le_of_lt ha hfit
  have hb' : b.length < 32768 := by exact_mod_cast lt_of_le_of_lt hb hfit
  have hmax : max a.length b.length < 32768 := max_lt ha' hb'
  have hle := distance_le_max a b
  rw [stringSimilarity_eq ha' hb']
  constructor
  · intro hs
    split at hs
    · next hzero =>
      have h1 : a=[] := List.length_eq_zero_iff.mp (by omega)
      have h2 : b=[] := List.length_eq_zero_iff.mp (by omega)
      rw [h1, h2]
    · split at hs
      · cases hs
      · by_contra hne
        have hdist : 0 < distance a b := Nat.pos_of_ne_zero (mt distance_eq_zero.mp hne)
        exact absurd (Option.some.inj hs) (ne_of_lt (similarity_lt hdist hle hmax))
  · rintro rfl
    split
    · rfl
    · next hne =>
      have hceil : 0 ≤ ⌈maxFieldLength*(1/2)⌉ := by
        have : (0:ℚ) ≤ a.length := by positivity
        exact Int.ceil_nonneg (by linarith)
      rw [if_neg (by simpa using hceil), distance_self, similarity_zero]

/-- The distance is the least number of edits, undefined exactly for lengths
too far apart, and the similarity is symmetric, between 0 and 1, and 1
exactly for equal texts. -/
theorem distance_similarity (a b : List α) (maxFieldLength : ℚ)
    (ha : (a.length : ℚ) ≤ maxFieldLength) (hb : (b.length : ℚ) ≤ maxFieldLength)
    (hfit : maxFieldLength < 32768) :
    (levenshteinDistance a b maxFieldLength = none ↔
        ⌈maxFieldLength*(1/2)⌉ < |(a.length : ℤ)-b.length|) ∧
      (∀ d, levenshteinDistance a b maxFieldLength = some d →
        ∃ n : ℕ, d=n ∧ IsLeast {n | Edits n a b} n) ∧
      stringSimilarity a b maxFieldLength=stringSimilarity b a maxFieldLength ∧
      (∀ s, stringSimilarity a b maxFieldLength = some s → 0 ≤ s ∧ s ≤ 1) ∧
      (stringSimilarity a b maxFieldLength = some 1 ↔ a=b) := by
  have ha' : a.length < 32768 := by exact_mod_cast lt_of_le_of_lt ha hfit
  have hb' : b.length < 32768 := by exact_mod_cast lt_of_le_of_lt hb hfit
  have hle := distance_le_max a b
  rw [levenshteinDistance_eq ha' hb', stringSimilarity_eq ha' hb', stringSimilarity_eq hb' ha']
  refine ⟨by simp,?_,?_,?_,?_⟩
  · intro d hd
    split at hd
    · cases hd
    · exact ⟨distance a b,(Option.some.inj hd).symm,isLeast_distance a b⟩
  · rw [max_comm b.length, distance_symm b a, abs_sub_comm (b.length : ℤ)]
  · intro s hs
    split at hs
    · obtain rfl := Option.some.inj hs
      norm_num
    · split at hs
      · cases hs
      · obtain rfl := Option.some.inj hs
        exact similarity_bounds (Nat.pos_of_ne_zero ‹_›) hle
  · rw [← stringSimilarity_eq ha' hb']
    exact similarity_one_iff ha hb hfit

theorem distance_similarity_names :
    levenshteinDistance ['t','e','m','p'] ['t','m','p','s'] 64 = some 2 ∧
      stringSimilarity ['t','e','m','p'] ['t','m','p','s'] 64=
        stringSimilarity ['t','m','p','s'] ['t','e','m','p'] 64 := by
  refine ⟨by decide +kernel,?_⟩
  exact (distance_similarity _ _ 64 (by norm_num) (by norm_num) (by norm_num)).2.2.1

end Iotistica.FieldSimilarity
