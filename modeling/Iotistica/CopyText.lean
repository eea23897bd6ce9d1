import Iotistica.JsText

/-!
# The text format of COPY

A row is a line of fields between tabs. Backslashes, tabs and line ends in a
field are escaped and an absent field is written as a backslash with `N`.
-/

set_option autoImplicit false

namespace Iotistica.CopyText
open Iotistica.JsText

/-- `replace` of a character, everywhere. -/
def replaceAll (c : Char) (text : List Char) (cs : List Char) : List Char :=
  cs.flatMap (fun x => if x = c then text else [x])

def escapeCopyText (cs : List Char) : List Char :=
  replaceAll '\r' ['\\', 'r'] (replaceAll '\n' ['\\', 'n']
    (replaceAll '\t' ['\\', 't'] (replaceAll '\\' ['\\', '\\'] cs)))

def copyValue : Option String → List Char
  | none => ['\\', 'N']
  | some s => escapeCopyText s.toList

def joinTabs (fields : List (List Char)) : List Char := (fields.intersperse ['\t']).flatten

def copyLine (fields : List (Option String)) : List Char := joinTabs (fields.map copyValue)++['\n']

def escapedChar (c : Char) : Char :=
  if c = 'b' then Char.ofNat 8
  else if c = 't' then '\t'
  else if c = 'n' then '\n'
  else if c = 'v' then Char.ofNat 11
  else if c = 'f' then Char.ofNat 12
  else if c = 'r' then '\r'
  else c

def escapeChar (c : Char) : List Char :=
  if c = '\\' then ['\\', '\\']
  else if c = '\t' then ['\\', 't']
  else if c = '\n' then ['\\', 'n']
  else if c = '\r' then ['\\', 'r']
  else [c]

theorem escapeCopyText_cons (c : Char) (cs : List Char) :
    escapeCopyText (c::cs) = escapeChar c++escapeCopyText cs := by
  simp only [escapeCopyText, replaceAll, List.flatMap_cons, List.flatMap_append, escapeChar]
  by_cases h : c = '\\'
  · subst h
    simp
  by_cases ht : c = '\t'
  · subst ht
    simp
  by_cases hn : c = '\n'
  · subst hn
    simp
  by_cases hr : c = '\r'
  · subst hr
    simp
  simp [h, ht, hn, hr]

theorem escapeCopyText_ne_marker (cs : List Char) : escapeCopyText cs ≠ ['\\', 'N'] := by
  cases cs with
  | nil => simp [escapeCopyText, replaceAll]
  | cons c cs =>
    rw [escapeCopyText_cons]
    unfold escapeChar
    split_ifs with h
    · simp
    · simp
    · simp
    · simp
    · intro hc
      simp only [List.cons_append, List.cons.injEq] at hc
      exact h hc.1

end Iotistica.CopyText
