import Iotistica.JsonText

/-!
# Lines of a text file

A file of lines ends every line with a line feed. Readers split it at the
line feeds and leave out what is blank, so a file that is extended by whole
lines keeps the lines it had. JSON text has no control characters and fits
on a line.
-/

set_option autoImplicit false

namespace Iotistica.TextLines
open Iotistica Iotistica.JsText
open Iotistica.JsNumerals (isBlank)
open Iotistica.ByteText (hexChar)
open Iotistica.JsonText (Value Members print printItems printMembers quote escapeChar Decimal
  numberText magnitudeText exponentText zeros)

/-- `trim` leaves something of it. -/
def filled (line : List Char) : Bool := line.any (fun c => !isBlank c)

def textLines (text : List Char) : List (List Char) := (splitChars '\n' text).filter filled

def joinLines (lines : List (List Char)) : List Char := (lines.intersperse ['\n']).flatten

def closeLines (lines : List (List Char)) : List Char := lines.flatMap (fun l => l++['\n'])

/-- `Buffer.byteLength` of UTF-8. -/
def byteLength (text : List Char) : ℕ := (text.map Char.utf8Size).sum

structure PlainLine (line : List Char) : Prop where
  single : '\n' ∉ line
  filled : filled line = true

def Terminated (text : List Char) : Prop :=
  ∃ lines, (∀ l ∈ lines, '\n' ∉ l) ∧ text = closeLines lines

@[simp] theorem byteLength_nil : byteLength [] = 0 := rfl

@[simp] theorem byteLength_append (a b : List Char) :
    byteLength (a++b) = byteLength a+byteLength b := by
  simp [byteLength]

theorem joinLines_close {lines : List (List Char)} (h : lines ≠ []) :
    joinLines lines++['\n'] = closeLines lines := by
  induction lines with
  | nil => exact absurd rfl h
  | cons l ls ih =>
    cases ls with
    | nil => simp [joinLines, closeLines]
    | cons l' ls =>
      have hrest := ih (by simp)
      unfold joinLines closeLines at hrest ⊢
      rw [List.intersperse_cons_cons, List.flatten_cons, List.flatten_cons, List.flatMap_cons,
        List.append_assoc, List.append_assoc, hrest, List.append_assoc]

theorem splitChars_closeLines {lines : List (List Char)} (h : ∀ l ∈ lines, '\n' ∉ l)
    (text : List Char) : splitChars '\n' (closeLines lines++text) = lines++splitChars '\n' text := by
  induction lines with
  | nil => rfl
  | cons l ls ih =>
    have hl := h l List.mem_cons_self
    have hls := ih (fun l' hl' => h l' (List.mem_cons_of_mem _ hl'))
    unfold closeLines at hls ⊢
    rw [List.flatMap_cons, List.append_assoc, List.append_assoc, List.singleton_append,
      splitChars_append hl, hls, List.cons_append]

theorem textLines_nil : textLines [] = [] := rfl

theorem textLines_append {a : List Char} (h : Terminated a) (b : List Char) :
    textLines (a++b) = textLines a++textLines b := by
  obtain ⟨lines,hlines,rfl⟩ := h
  have hself := splitChars_closeLines hlines []
  rw [List.append_nil] at hself
  unfold textLines
  rw [splitChars_closeLines hlines, hself, List.filter_append, List.filter_append]
  simp [splitChars, filled]

theorem textLines_flatten {chunks : List (List Char)} (h : ∀ chunk ∈ chunks, Terminated chunk) :
    textLines chunks.flatten = chunks.flatMap textLines := by
  induction chunks with
  | nil => rfl
  | cons chunk chunks ih =>
    rw [List.flatten_cons, textLines_append (h chunk List.mem_cons_self),
      ih (fun c hc => h c (List.mem_cons_of_mem _ hc)), List.flatMap_cons]

theorem plainLine_of_mem {text line : List Char} (h : line ∈ textLines text) : PlainLine line :=
  ⟨not_mem_of_mem_splitChars (List.mem_filter.mp h).1,(List.mem_filter.mp h).2⟩

theorem textLines_closeLines {lines : List (List Char)} (h : ∀ l ∈ lines, PlainLine l) :
    textLines (closeLines lines) = lines := by
  have hsplit := splitChars_closeLines (fun l hl => (h l hl).single) []
  rw [List.append_nil] at hsplit
  have hkeep : lines.filter filled = lines := List.filter_eq_self.mpr (fun l hl => (h l hl).filled)
  unfold textLines
  rw [hsplit, List.filter_append, hkeep]
  simp [splitChars, filled]

theorem terminated_closeLines {lines : List (List Char)} (h : ∀ l ∈ lines, '\n' ∉ l) :
    Terminated (closeLines lines) := ⟨lines,h,rfl⟩

theorem terminated_nil : Terminated [] := ⟨[],by simp,rfl⟩

theorem Terminated.append {a b : List Char} (ha : Terminated a) (hb : Terminated b) :
    Terminated (a++b) := by
  obtain ⟨as,has,rfl⟩ := ha
  obtain ⟨bs,hbs,rfl⟩ := hb
  refine ⟨as++bs,?_,by simp [closeLines]⟩
  intro l hl
  rcases List.mem_append.mp hl with hl | hl
  · exact has l hl
  · exact hbs l hl

theorem terminated_flatten {chunks : List (List Char)} (h : ∀ chunk ∈ chunks, Terminated chunk) :
    Terminated chunks.flatten := by
  induction chunks with
  | nil => exact terminated_nil
  | cons chunk chunks ih =>
    exact (h chunk List.mem_cons_self).append (ih (fun c hc => h c (List.mem_cons_of_mem _ hc)))

theorem byteLength_textLines {text : List Char} (h : Terminated text) :
    byteLength (closeLines (textLines text)) ≤ byteLength text := by
  obtain ⟨lines,hlines,rfl⟩ := h
  have hsplit := splitChars_closeLines hlines []
  rw [List.append_nil] at hsplit
  have hkept : textLines (closeLines lines) = lines.filter filled := by
    unfold textLines
    rw [hsplit, List.filter_append]
    simp [splitChars, filled]
  rw [hkept]
  clear hsplit hkept hlines
  induction lines with
  | nil => exact le_rfl
  | cons l ls ih =>
    unfold closeLines at ih ⊢
    rw [List.flatMap_cons, byteLength_append, List.filter_cons]
    split
    · rw [List.flatMap_cons, byteLength_append]
      exact Nat.add_le_add_left ih _
    · exact Nat.le_add_left_of_le ih

def Visible (cs : List Char) : Prop := ∀ c ∈ cs, 32 ≤ c.toNat

theorem visible_nil : Visible [] := by simp [Visible]

theorem visible_of_all {cs : List Char} (h : (cs.all fun c => decide (32 ≤ c.toNat)) = true) :
    Visible cs := fun c hc => of_decide_eq_true (List.all_eq_true.mp h c hc)

theorem Visible.append {as bs : List Char} (ha : Visible as) (hb : Visible bs) :
    Visible (as++bs) := by
  intro c hc
  exact (List.mem_append.mp hc).elim (ha c) (hb c)

theorem Visible.cons {c : Char} {cs : List Char} (hc : 32 ≤ c.toNat) (hcs : Visible cs) :
    Visible (c::cs) := by
  intro d hd
  rcases List.mem_cons.mp hd with rfl | hd
  · exact hc
  · exact hcs d hd

theorem visible_escapeChar (c : Char) : Visible (escapeChar c) := by
  unfold escapeChar
  split_ifs with h1 h2 h3 h4 h5 h6 h7 h8
  iterate 7 · exact visible_of_all (by decide)
  · have hall : ∀ n < 32, (['\\', 'u', '0', '0', hexChar (n/16), hexChar (n%16)].all
        fun c => decide (32 ≤ c.toNat)) = true := by decide
    exact visible_of_all (hall c.toNat h8)
  · intro d hd
    rw [List.mem_singleton.mp hd]
    omega

theorem visible_quote (s : String) : Visible (quote s) := by
  refine .cons (by decide) (.append ?_ (.cons (by decide) visible_nil))
  intro c hc
  obtain ⟨d,-,hd⟩ := List.mem_flatMap.mp hc
  exact visible_escapeChar d c hd

theorem visible_digits (n : ℕ) : Visible (Nat.toDigits 10 n) := by
  intro c hc
  have hdigit : c.isDigit = true := Nat.isDigit_of_mem_toDigits (by decide) (by decide) hc
  have hr : 48 ≤ c.toNat ∧ c.toNat ≤ 57 := by
    simpa [Char.isDigit, UInt32.le_iff_toNat_le] using hdigit
  omega

theorem visible_zeros (n : ℕ) : Visible (zeros n) := by
  intro c hc
  rw [List.eq_of_mem_replicate hc]
  decide

theorem Visible.take {cs : List Char} (h : Visible cs) (n : ℕ) : Visible (cs.take n) :=
  fun c hc => h c (List.mem_of_mem_take hc)

theorem Visible.drop {cs : List Char} (h : Visible cs) (n : ℕ) : Visible (cs.drop n) :=
  fun c hc => h c (List.mem_of_mem_drop hc)

theorem visible_numberText (d : Decimal) : Visible (numberText d) := by
  have hdigits := visible_digits d.mantissa
  unfold numberText
  refine .append ?_ ?_
  · split
    · exact .cons (by decide) visible_nil
    · exact visible_nil
  · unfold magnitudeText
    dsimp only
    split_ifs
    · exact hdigits.append (visible_zeros _)
    · exact (hdigits.take _).append (.cons (by decide) (hdigits.drop _))
    · exact .cons (by decide) (.cons (by decide) ((visible_zeros _).append hdigits))
    all_goals
      refine .append (.append (hdigits.take 1) ?_) (.cons (by decide) (.cons ?_ (visible_digits _)))
      · first
        | exact visible_nil
        | exact .cons (by decide) (hdigits.drop 1)
      · split <;> decide

mutual
theorem visible_print : ∀ v : Value, Visible (print v)
  | .null => visible_of_all rfl
  | .bool true => visible_of_all rfl
  | .bool false => visible_of_all rfl
  | .num d => visible_numberText d
  | .str s => visible_quote s
  | .arr [] => visible_of_all rfl
  | .arr (v :: vs) => by
    unfold print
    exact .cons (by decide) ((visible_print v).append (visible_printItems vs))
  | .obj [] => visible_of_all rfl
  | .obj ((k,v) :: ms) => by
    unfold print
    exact .cons (by decide) ((visible_quote k).append
      (.cons (by decide) ((visible_print v).append (visible_printMembers ms))))

theorem visible_printItems : ∀ vs : List Value, Visible (printItems vs)
  | [] => visible_of_all rfl
  | v :: vs => by
    unfold printItems
    exact .cons (by decide) ((visible_print v).append (visible_printItems vs))

theorem visible_printMembers : ∀ ms : Members, Visible (printMembers ms)
  | [] => visible_of_all rfl
  | (k,v) :: ms => by
    unfold printMembers
    exact .cons (by decide) ((visible_quote k).append
      (.cons (by decide) ((visible_print v).append (visible_printMembers ms))))
end

theorem plainLine_print (members : Members) : PlainLine (print (.obj members)) := by
  constructor
  · intro hnl
    have hvisible := visible_print (.obj members) '\n' hnl
    exact absurd hvisible (by decide)
  · cases members with
    | nil => rfl
    | cons m ms =>
      obtain ⟨k,v⟩ := m
      unfold print filled
      rw [List.any_cons]
      rfl

end Iotistica.TextLines
