import Iotistica.JsSort
import Iotistica.JsText

/-!
# Anchored patterns

A regular expression without flags reads text by its UTF-16 units. The
patterns below stand between the two anchors and are made of plain
characters, escaped slashes, dots, runs of anything but a slash and runs of
anything but a line end. What the engine makes of any other source is a
parameter, so nothing is assumed about it.
-/

set_option autoImplicit false

namespace Iotistica.AnchoredPatterns
open Iotistica.JsSort

/-- What a test does to the units of a text. -/
abbrev Test := List ℕ → Bool

inductive Piece where
  | text (c : Char)
  | dot
  /-- One unit or more, none of them a slash. -/
  | level
  /-- Any number of units, none of them a line end. -/
  | rest
  deriving DecidableEq

def lineEnd (u : ℕ) : Bool := u = 10 || u = 13 || u = 0x2028 || u = 0x2029

def ordinary (c : Char) : Bool :=
  !List.contains ['^', '$', '\\', '.', '*', '+', '?', '(', ')', '[', ']', '\x7b', '\x7d', '|', '/'] c

def readPieces : List Char → Option (List Piece)
  | '\\' :: '/' :: r => (readPieces r).map (.text '/' :: ·)
  | '[' :: '^' :: '\\' :: '/' :: ']' :: '+' :: r => (readPieces r).map (.level :: ·)
  | '.' :: '*' :: r => (readPieces r).map (.rest :: ·)
  | '.' :: r => (readPieces r).map (.dot :: ·)
  | c :: r => if ordinary c then (readPieces r).map (.text c :: ·) else none
  | [] => some []

def cuts (us : List ℕ) : List (List ℕ × List ℕ) :=
  (List.range (us.length+1)).map fun n => (us.take n,us.drop n)

def matchPieces : List Piece → Test
  | [],us => us.isEmpty
  | .text c :: ps,us =>
    (codeUnits c).isPrefixOf us && matchPieces ps (us.drop (codeUnits c).length)
  | .dot :: ps,us =>
    match us with
    | u :: us => !lineEnd u && matchPieces ps us
    | [] => false
  | .level :: ps,us =>
    (cuts us).any fun s => !s.1.isEmpty && s.1.all (fun u => u ≠ 47) && matchPieces ps s.2
  | .rest :: ps,us => (cuts us).any fun s => s.1.all (fun u => !lineEnd u) && matchPieces ps s.2

/-- What an engine makes of a source: a test, or a syntax error. -/
abbrev Engine := List Char → Option Test

def readAnchored (source : List Char) : Option (List Piece) :=
  match source with
  | '^' :: body => if body.getLast? = some '$' then readPieces body.dropLast else none
  | _ => none

/-- `new RegExp`, without flags. -/
def compile (engine : Engine) (source : List Char) : Option Test :=
  match readAnchored source with
  | some ps => some (matchPieces ps)
  | none => engine source

theorem mem_cuts {us : List ℕ} {s : List ℕ × List ℕ} : s ∈ cuts us ↔ s.1++s.2 = us := by
  constructor
  · intro h
    obtain ⟨n,-,rfl⟩ := List.mem_map.mp h
    exact List.take_append_drop n us
  · rintro rfl
    refine List.mem_map.mpr ⟨s.1.length,?_,?_⟩
    · rw [List.mem_range, List.length_append]
      omega
    · simp

theorem match_text (c : Char) (ps : List Piece) (us : List ℕ) :
    matchPieces (.text c :: ps) us = true ↔ ∃ r, us = codeUnits c++r ∧ matchPieces ps r = true := by
  simp only [matchPieces, Bool.and_eq_true, List.isPrefixOf_iff_prefix]
  constructor
  · rintro ⟨⟨r,rfl⟩,hr⟩
    exact ⟨r,rfl,by simpa using hr⟩
  · rintro ⟨r,rfl,hr⟩
    exact ⟨List.prefix_append _ _,by simpa using hr⟩

theorem match_level (ps : List Piece) (us : List ℕ) :
    matchPieces (.level :: ps) us = true ↔
      ∃ a r, us = a++r ∧ a ≠ [] ∧ 47 ∉ a ∧ matchPieces ps r = true := by
  simp only [matchPieces, List.any_eq_true, Bool.and_eq_true, mem_cuts]
  constructor
  · rintro ⟨⟨a,r⟩,rfl,⟨hne,hall⟩,hr⟩
    refine ⟨a,r,rfl,by simpa using hne,?_,hr⟩
    intro hm
    have hslash := List.all_eq_true.mp hall 47 hm
    simp at hslash
  · rintro ⟨a,r,rfl,hne,hall,hr⟩
    refine ⟨(a,r),rfl,⟨by simpa using hne,?_⟩,hr⟩
    rw [List.all_eq_true]
    intro u hu
    simpa using fun h : u = 47 => hall (h ▸ hu)

theorem match_rest (ps : List Piece) (us : List ℕ) :
    matchPieces (.rest :: ps) us = true ↔
      ∃ a r, us = a++r ∧ (∀ u ∈ a, lineEnd u = false) ∧ matchPieces ps r = true := by
  simp only [matchPieces, List.any_eq_true, Bool.and_eq_true, mem_cuts, List.all_eq_true,
    Bool.not_eq_true']
  constructor
  · rintro ⟨⟨a,r⟩,rfl,hall,hr⟩
    exact ⟨a,r,rfl,hall,hr⟩
  · rintro ⟨a,r,rfl,hall,hr⟩
    exact ⟨(a,r),rfl,hall,hr⟩

theorem match_dot (ps : List Piece) (us : List ℕ) :
    matchPieces (.dot :: ps) us = true ↔
      ∃ u r, us = u :: r ∧ lineEnd u = false ∧ matchPieces ps r = true := by
  cases us with
  | nil => simp [matchPieces]
  | cons u us => simp [matchPieces]

theorem match_rest_last (us : List ℕ) :
    matchPieces [.rest] us = true ↔ ∀ u ∈ us, lineEnd u = false := by
  rw [match_rest]
  constructor
  · rintro ⟨a,r,rfl,hall,hr⟩
    obtain rfl := List.isEmpty_iff.mp hr
    simpa using hall
  · exact fun hall => ⟨us,[],by simp,hall,rfl⟩

theorem match_texts (cs : List Char) (ps : List Piece) (us : List ℕ) :
    matchPieces (cs.map .text++ps) us = true ↔
      ∃ r, us = cs.flatMap codeUnits++r ∧ matchPieces ps r = true := by
  induction cs generalizing us with
  | nil => simp
  | cons c cs ih =>
    rw [List.map_cons, List.cons_append, match_text]
    constructor
    · rintro ⟨r,rfl,hr⟩
      obtain ⟨q,rfl,hq⟩ := (ih r).mp hr
      exact ⟨q,by simp,hq⟩
    · rintro ⟨r,rfl,hr⟩
      exact ⟨cs.flatMap codeUnits++r,by simp,(ih _).mpr ⟨r,rfl,hr⟩⟩

end Iotistica.AnchoredPatterns
