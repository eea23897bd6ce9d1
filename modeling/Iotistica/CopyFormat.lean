import Iotistica.CopyText
import Iotistica.JsNumerals

/-!
# Reading COPY text as the database does

A row ends at a newline and a field at a tab, unless a backslash stands before
it. A backslash also starts an octal or hexadecimal byte. Alone on its row with
a point it ends the data. Bytes beyond ASCII, which such an escape could put
together to a character, are refused, as are the null character and a bare
carriage return.
-/

set_option autoImplicit false

namespace Iotistica.CopyFormat
open Iotistica.CopyText

def nul : Char := Char.ofNat 0

def readRows (row : List Char) (escaped : Bool) : List Char → Option (List (List Char))
  | [] => some (if row = [] then [] else [row.reverse])
  | c::cs =>
    if c = nul then none
    else if escaped then
      if c = '.' then (if row = ['\\'] ∧ (cs = [] ∨ cs.head? = some '\n') then some [] else none)
      else readRows (c::row) false cs
    else if c = '\\' then readRows (c::row) true cs
    else if c = '\n' then (readRows [] false cs).map (fun rows => row.reverse::rows)
    else if c = '\r' then none
    else readRows (c::row) false cs

def splitFields (field : List Char) (escaped : Bool) : List Char → List (List Char)
  | [] => [field.reverse]
  | c::cs =>
    if escaped then splitFields (c::field) false cs
    else if c = '\\' then splitFields (c::field) true cs
    else if c = '\t' then field.reverse::splitFields [] false cs
    else splitFields (c::field) false cs

inductive Scan where
  | plain
  | slash
  | octal (value digits : ℕ)
  | hex (value digits : ℕ)

def octalDigit (c : Char) : Bool := decide ('0' ≤ c) && decide (c ≤ '7')

def byteChar (value : ℕ) : Option Char :=
  let b := value%256
  if 0 < b ∧ b < 128 then some (Char.ofNat b) else none

def emit (c : Option Char) (rest : Option (List Char)) : Option (List Char) :=
  c.bind (fun x => rest.map (fun cs => x::cs))

/-- A backslash at the end is dropped, an `x` without digits is an `x`. -/
def readText : Scan → List Char → Option (List Char)
  | .plain, [] => some []
  | .slash, [] => some []
  | .octal value _, [] => emit (byteChar value) (some [])
  | .hex value digits, [] => emit (if digits = 0 then some 'x' else byteChar value) (some [])
  | .plain, c::cs => if c = '\\' then readText .slash cs else emit c (readText .plain cs)
  | .slash, c::cs =>
    if octalDigit c then readText (.octal (c.toNat-0x30) 1) cs
    else if c = 'x' then readText (.hex 0 0) cs
    else emit (escapedChar c) (readText .plain cs)
  | .octal value digits, c::cs =>
    if digits < 3 ∧ octalDigit c then readText (.octal (8*value+(c.toNat-0x30)) (digits+1)) cs
    else emit (byteChar value)
      (if c = '\\' then readText .slash cs else emit c (readText .plain cs))
  | .hex value digits, c::cs =>
    if digits < 2 ∧ JsNumerals.hexDigit c then
      readText (.hex (16*value+JsNumerals.hexValue c) (digits+1)) cs
    else emit (if digits = 0 then some 'x' else byteChar value)
      (if c = '\\' then readText .slash cs else emit c (readText .plain cs))

def readField (cs : List Char) : Option (Option String) :=
  if cs = ['\\', 'N'] then some none
  else (readText .plain cs).map (fun text => some (String.ofList text))

def readRow (row : List Char) : Option (List (Option String)) :=
  (splitFields [] false row).mapM readField

def readCopy (cs : List Char) : Option (List (List (Option String))) :=
  (readRows [] false cs).bind (fun rows => rows.mapM readRow)

example : readCopy "a\\101\\x42\t\\N\n\\.\n".toList = some [[some "aAB",none]] := by decide

def NulFree (field : Option String) : Prop := ∀ s, field = some s → nul ∉ s.toList

instance (field : Option String) : Decidable (NulFree field) :=
  match field with
  | none => isTrue nofun
  | some s => decidable_of_iff (nul ∉ s.toList)
      ⟨fun h _ ht => Option.some.inj ht ▸ h,fun h => h s rfl⟩

theorem readRows_escapeChar {c : Char} (hc : c ≠ nul) (row rest : List Char) :
    readRows row false (escapeChar c++rest) = readRows ((escapeChar c).reverse++row) false rest := by
  unfold escapeChar
  split_ifs with hs ht hn hr
  · simp [readRows, nul]
  · simp [readRows, nul]
  · simp [readRows, nul]
  · simp [readRows, nul]
  · simp [readRows, hc, hs, hn, hr]

theorem splitFields_escapeChar (c : Char) (field rest : List Char) :
    splitFields field false (escapeChar c++rest) =
      splitFields ((escapeChar c).reverse++field) false rest := by
  unfold escapeChar
  split_ifs with hs ht hn hr
  · simp [splitFields]
  · simp [splitFields]
  · simp [splitFields]
  · simp [splitFields]
  · simp [splitFields, hs, ht]

theorem readText_escapeChar (c : Char) (cs : List Char) :
    readText .plain (escapeChar c++cs) = (readText .plain cs).map (fun text => c::text) := by
  unfold escapeChar
  split_ifs with hs ht hn hr
  · subst hs
    simp [readText, emit, escapedChar, octalDigit]
  · subst ht
    simp [readText, emit, escapedChar, octalDigit]
  · subst hn
    simp [readText, emit, escapedChar, octalDigit]
  · subst hr
    simp [readText, emit, escapedChar, octalDigit]
  · simp [readText, emit, hs]

theorem readText_escapeCopyText (cs : List Char) : readText .plain (escapeCopyText cs) = some cs := by
  induction cs with
  | nil => rfl
  | cons c cs ih => rw [escapeCopyText_cons, readText_escapeChar, ih, Option.map_some]

theorem readField_copyValue (field : Option String) :
    CopyFormat.readField (copyValue field) = some field := by
  cases field with
  | none => rfl
  | some s =>
    unfold CopyFormat.readField copyValue
    rw [if_neg (escapeCopyText_ne_marker _), readText_escapeCopyText, Option.map_some,
      String.ofList_toList]

theorem readRows_copyValue {field : Option String} (h : NulFree field) (row rest : List Char) :
    readRows row false (copyValue field++rest) =
      readRows ((copyValue field).reverse++row) false rest := by
  cases field with
  | none => simp [copyValue, readRows, nul]
  | some s =>
    have hs := h s rfl
    show readRows row false (escapeCopyText s.toList++rest) =
      readRows ((escapeCopyText s.toList).reverse++row) false rest
    generalize s.toList = cs at hs
    induction cs generalizing row with
    | nil => rfl
    | cons c cs ih =>
      obtain ⟨hc,hcs⟩ := List.ne_and_not_mem_of_not_mem_cons hs
      rw [escapeCopyText_cons, List.append_assoc, readRows_escapeChar (Ne.symm hc), ih _ hcs,
        List.reverse_append, List.append_assoc]

theorem splitFields_copyValue (field : Option String) (acc rest : List Char) :
    splitFields acc false (copyValue field++rest) =
      splitFields ((copyValue field).reverse++acc) false rest := by
  cases field with
  | none => simp [copyValue, splitFields]
  | some s =>
    show splitFields acc false (escapeCopyText s.toList++rest) =
      splitFields ((escapeCopyText s.toList).reverse++acc) false rest
    generalize s.toList = cs
    induction cs generalizing acc with
    | nil => rfl
    | cons c cs ih =>
      rw [escapeCopyText_cons, List.append_assoc, splitFields_escapeChar, ih, List.reverse_append,
        List.append_assoc]

theorem joinTabs_cons (f g : List Char) (fs : List (List Char)) :
    joinTabs (f::g::fs) = f++ '\t'::joinTabs (g::fs) := by
  simp [joinTabs, List.intersperse]

theorem readRows_tab (row rest : List Char) :
    readRows row false ('\t'::rest) = readRows ('\t'::row) false rest := by
  simp [readRows, nul]

theorem readRows_newline (row rest : List Char) : readRows row false ('\n'::rest) =
    (readRows [] false rest).map (fun rows => row.reverse::rows) := by
  simp [readRows, nul]

theorem readRows_joinTabs {fields : List (Option String)} (h : ∀ f ∈ fields, NulFree f)
    (row rest : List Char) :
    readRows row false (joinTabs (fields.map copyValue)++rest) =
      readRows ((joinTabs (fields.map copyValue)).reverse++row) false rest := by
  induction fields generalizing row with
  | nil => rfl
  | cons f fields ih =>
    have hf := h f List.mem_cons_self
    have ih' := ih (fun x hx => h x (List.mem_cons_of_mem _ hx))
    cases fields with
    | nil => simpa [joinTabs] using readRows_copyValue hf row rest
    | cons g gs =>
      simp only [List.map_cons] at ih' ⊢
      rw [joinTabs_cons, List.append_assoc, readRows_copyValue hf, List.cons_append, readRows_tab,
        ih']
      simp

theorem splitFields_joinTabs {fields : List (Option String)} (hne : fields ≠ []) :
    splitFields [] false (joinTabs (fields.map copyValue)) = fields.map copyValue := by
  induction fields with
  | nil => exact absurd rfl hne
  | cons f fields ih =>
    cases fields with
    | nil =>
      have := splitFields_copyValue f [] []
      simpa [joinTabs, splitFields] using this
    | cons g gs =>
      have ih' := ih (by simp)
      simp only [List.map_cons] at ih' ⊢
      rw [joinTabs_cons, splitFields_copyValue]
      simp [splitFields, ih']

theorem readRow_joinTabs {fields : List (Option String)} (hne : fields ≠ []) :
    readRow (joinTabs (fields.map copyValue)) = some fields := by
  unfold readRow
  rw [splitFields_joinTabs hne]
  clear hne
  induction fields with
  | nil => rfl
  | cons f fields ih => simp [readField_copyValue, ih]

theorem readRows_copyLines {rows : List (List (Option String))}
    (h : ∀ row ∈ rows, ∀ f ∈ row, NulFree f) :
    readRows [] false (rows.flatMap copyLine) =
      some (rows.map (fun row => joinTabs (row.map copyValue))) := by
  induction rows with
  | nil => rfl
  | cons row rows ih =>
    rw [List.flatMap_cons, copyLine, List.append_assoc,
      readRows_joinTabs (h row List.mem_cons_self), List.singleton_append, readRows_newline,
      ih (fun r hr => h r (List.mem_cons_of_mem _ hr))]
    simp

theorem readCopy_copyLines {rows : List (List (Option String))} (hne : ∀ row ∈ rows, row ≠ [])
    (h : ∀ row ∈ rows, ∀ f ∈ row, NulFree f) : readCopy (rows.flatMap copyLine) = some rows := by
  unfold readCopy
  rw [readRows_copyLines h, Option.bind_some]
  clear h
  induction rows with
  | nil => rfl
  | cons row rows ih =>
    have ih' := ih (fun r hr => hne r (List.mem_cons_of_mem _ hr))
    simp only [List.map_cons, List.mapM_cons, readRow_joinTabs (hne row List.mem_cons_self), ih']
    rfl

/-- A null character ends the reading, wherever in the lines it stands. -/
theorem readRows_nul {field : Option String} (h : ¬NulFree field) (row rest : List Char) :
    readRows row false (copyValue field++rest) = none := by
  cases field with
  | none => exact absurd nofun h
  | some s =>
    have hs : nul ∈ s.toList := by
      by_contra hs
      exact h (fun t ht => Option.some.inj ht ▸ hs)
    show readRows row false (escapeCopyText s.toList++rest) = none
    generalize s.toList = cs at hs
    induction cs generalizing row with
    | nil => cases hs
    | cons c cs ih =>
      rw [escapeCopyText_cons, List.append_assoc]
      by_cases hc : c = nul
      · subst hc
        simp [escapeChar, nul, readRows]
      · rw [readRows_escapeChar hc]
        exact ih _ ((List.mem_cons.mp hs).resolve_left (Ne.symm hc))

theorem readRows_joinTabs_nul {fields : List (Option String)} (h : ∃ f ∈ fields, ¬NulFree f)
    (row rest : List Char) :
    readRows row false (joinTabs (fields.map copyValue)++rest) = none := by
  induction fields generalizing row with
  | nil => simp at h
  | cons f fields ih =>
    cases fields with
    | nil =>
      obtain ⟨g,hg,hnul⟩ := h
      rw [List.mem_singleton.mp hg] at hnul
      simpa [joinTabs] using readRows_nul hnul row rest
    | cons g gs =>
      simp only [List.map_cons] at ih ⊢
      rw [joinTabs_cons, List.append_assoc]
      by_cases hf : NulFree f
      · have htail : ∃ x ∈ g::gs, ¬NulFree x := by
          obtain ⟨x,hx,hnul⟩ := h
          rcases List.mem_cons.mp hx with rfl | hx
          · exact absurd hf hnul
          · exact ⟨x,hx,hnul⟩
        rw [readRows_copyValue hf, List.cons_append, readRows_tab]
        exact ih htail _
      · exact readRows_nul hf row _

theorem readCopy_nul {rows : List (List (Option String))}
    (h : ∃ row ∈ rows, ∃ f ∈ row, ¬NulFree f) : readCopy (rows.flatMap copyLine) = none := by
  have hnone : readRows [] false (rows.flatMap copyLine) = none := by
    induction rows with
    | nil => simp at h
    | cons row rows ih =>
      rw [List.flatMap_cons, copyLine, List.append_assoc]
      by_cases hrow : ∀ f ∈ row, NulFree f
      · have htail : ∃ r ∈ rows, ∃ f ∈ r, ¬NulFree f := by
          obtain ⟨r,hr,f,hf,hnul⟩ := h
          rcases List.mem_cons.mp hr with rfl | hr
          · exact absurd (hrow f hf) hnul
          · exact ⟨r,hr,f,hf,hnul⟩
        rw [readRows_joinTabs hrow, List.singleton_append, readRows_newline, ih htail]
        rfl
      · simp only [not_forall, exists_prop] at hrow
        exact readRows_joinTabs_nul hrow [] _
  rw [readCopy, hnone, Option.bind_none]

end Iotistica.CopyFormat
