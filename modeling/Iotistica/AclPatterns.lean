import Iotistica.AnchoredPatterns
import Iotistica.TopicRouting

/-!
# Patterns of topic filters

A filter with a wildcard becomes a regular expression by three textual
replacements. If no other character of the filter belongs to the syntax of
regular expressions, the expression reads a topic level by level as the
filter does, except that a plus needs a character, that a hash needs a level
and that no line end may stand under a hash. A dot of the filter reads any
unit but a line end.
-/

set_option autoImplicit false

namespace Iotistica.Acl
open Iotistica.JsSort Iotistica.JsText Iotistica.AnchoredPatterns
open Iotistica.TopicRouting (levelsMatch)

def replaceAll (c : Char) (new cs : List Char) : List Char :=
  cs.flatMap fun d => if d = c then new else [d]

def replaced (cs : List Char) : List Char :=
  replaceAll '/' ['\\', '/'] (replaceAll '#' ['.', '*']
    (replaceAll '+' ['[', '^', '/', ']', '+'] cs))

def patternSource (topic : String) : List Char := '^' :: (replaced topic.toList++['$'])

def hasWildcard (topic : String) : Bool := topic.toList.contains '+' || topic.toList.contains '#'

def plainChar (c : Char) : Bool := ordinary c || c = '/' || c = '+' || c = '#'

def plainFilter (topic : String) : Bool := topic.toList.all plainChar

def pieceOf (c : Char) : Piece :=
  if c = '/' then .text '/' else if c = '+' then .level else if c = '#' then .rest else .text c

def dottedChar (c : Char) : Bool := plainChar c || c = '.'

def dottedFilter (topic : String) : Bool := topic.toList.all dottedChar

/-- What the expression of a filter reads whose only characters of regular
expressions are dots. -/
def Reads : List Char → List ℕ → Prop
  | [],us => us = []
  | c :: cs,us =>
    if c = '.' then ∃ u r, us = u :: r ∧ lineEnd u = false ∧ Reads cs r
    else if c = '+' then ∃ a r, us = a++r ∧ a ≠ [] ∧ 47 ∉ a ∧ Reads cs r
    else if c = '#' then ∃ a r, us = a++r ∧ (∀ u ∈ a, lineEnd u = false) ∧ Reads cs r
    else ∃ r, us = codeUnits c++r ∧ Reads cs r

def dottedPiece (c : Char) : Piece := if c = '.' then .dot else pieceOf c

theorem replaceAll_append (c : Char) (new xs ys : List Char) :
    replaceAll c new (xs++ys) = replaceAll c new xs++replaceAll c new ys := List.flatMap_append

theorem replaced_cons (c : Char) (cs : List Char) :
    replaced (c :: cs) = replaced [c]++replaced cs := by
  have hsplit : c :: cs = [c]++cs := rfl
  rw [hsplit, replaced, replaceAll_append, replaceAll_append, replaceAll_append]
  rfl

theorem ordinary_ne {c d : Char} (h : ordinary c = true) (hd : ordinary d = false) : c ≠ d := by
  rintro rfl
  rw [h] at hd
  cases hd

theorem readPieces_ordinary {c : Char} (h : ordinary c = true) (r : List Char) :
    readPieces (c :: r) = (readPieces r).map (.text c :: ·) := by
  have hback : c ≠ '\\' := ordinary_ne h (by decide)
  have hopen : c ≠ '[' := ordinary_ne h (by decide)
  have hdot : c ≠ '.' := ordinary_ne h (by decide)
  rw [readPieces.eq_5 c r (fun _ hc => absurd hc hback) (fun _ hc => absurd hc hopen)
    (fun _ hc => absurd hc hdot) (fun hc => absurd hc hdot), if_pos h]

theorem readPieces_replaced (c : Char) (h : plainChar c = true) (r : List Char) :
    readPieces (replaced [c]++r) = (readPieces r).map (pieceOf c :: ·) := by
  by_cases hslash : c = '/'
  · subst hslash
    rfl
  by_cases hplus : c = '+'
  · subst hplus
    rfl
  by_cases hhash : c = '#'
  · subst hhash
    rfl
  have hord : ordinary c = true := by simpa [plainChar, hslash, hplus, hhash] using h
  have hself : replaced [c] = [c] := by simp [replaced, replaceAll, hslash, hplus, hhash]
  have hpiece : pieceOf c = .text c := by simp [pieceOf, hslash, hplus, hhash]
  rw [hself, hpiece]
  exact readPieces_ordinary hord r

theorem replaced_head {cs : List Char} (h : cs.all dottedChar = true) (r : List Char) :
    replaced cs ≠ '*' :: r := by
  cases cs with
  | nil => nofun
  | cons c cs =>
    intro he
    rw [List.all_cons, Bool.and_eq_true] at h
    rw [replaced_cons] at he
    by_cases hslash : c = '/'
    · subst hslash
      cases he
    by_cases hplus : c = '+'
    · subst hplus
      cases he
    by_cases hhash : c = '#'
    · subst hhash
      cases he
    have hself : replaced [c] = [c] := by simp [replaced, replaceAll, hslash, hplus, hhash]
    rw [hself] at he
    obtain rfl := (List.cons.inj he).1
    exact absurd h.1 (by decide)

theorem readPieces_dotted (cs : List Char) (h : cs.all dottedChar = true) :
    readPieces (replaced cs) = some (cs.map dottedPiece) := by
  induction cs with
  | nil => rfl
  | cons c cs ih =>
    rw [List.all_cons, Bool.and_eq_true] at h
    rw [replaced_cons, List.map_cons, dottedPiece]
    by_cases hdot : c = '.'
    · subst hdot
      show readPieces ('.' :: replaced cs) = _
      rw [readPieces.eq_4 _ (fun r => replaced_head h.2 r), ih h.2]
      rfl
    · rw [readPieces_replaced c (by simpa [dottedChar, hdot] using h.1), ih h.2, if_neg hdot]
      rfl

theorem compile_dotted (engine : Engine) {topic : String} (h : dottedFilter topic = true) :
    compile engine (patternSource topic) = some (matchPieces (topic.toList.map dottedPiece)) := by
  have hread : readAnchored (patternSource topic) = some (topic.toList.map dottedPiece) := by
    simp [readAnchored, patternSource, readPieces_dotted topic.toList h]
  simp only [compile, hread]

theorem match_dotted (cs : List Char) (us : List ℕ) :
    matchPieces (cs.map dottedPiece) us = true ↔ Reads cs us := by
  induction cs generalizing us with
  | nil => exact List.isEmpty_iff
  | cons c cs ih =>
    rw [List.map_cons, Reads, dottedPiece, pieceOf]
    by_cases hdot : c = '.'
    · simp only [hdot, if_true, match_dot, ih]
    by_cases hslash : c = '/'
    · subst hslash
      simp [match_text, ih]
    by_cases hplus : c = '+'
    · subst hplus
      simp [match_level, ih]
    by_cases hhash : c = '#'
    · subst hhash
      simp [match_rest, ih]
    simp only [hdot, hslash, hplus, hhash, if_false, match_text, ih]

theorem compile_plain (engine : Engine) {topic : String} (h : plainFilter topic = true) :
    compile engine (patternSource topic) = some (matchPieces (topic.toList.map pieceOf)) := by
  have hchars := List.all_eq_true.mp h
  have hpieces : topic.toList.map pieceOf = topic.toList.map dottedPiece := by
    refine List.map_congr_left fun c hc => (if_neg ?_).symm
    rintro rfl
    exact absurd (hchars '.' hc) (by decide)
  rw [hpieces]
  exact compile_dotted engine (List.all_eq_true.mpr fun c hc => by simp [dottedChar, hchars c hc])

def hasLineEnd (level : String) : Bool := (utf16 level).any lineEnd

/-- A plus that stands for the empty level, or a hash that stands for no
level or for one with a line end. -/
def missed : List String → List String → Bool
  | [],_ => false
  | p :: ps,ts =>
    if p = "#" ∧ ps = [] then ts.isEmpty || ts.any hasLineEnd
    else
      match ts with
      | t :: ts => (p = "+" && t = "") || missed ps ts
      | [] => false

def validLevels : List String → Bool
  | [] => true
  | p :: ps =>
    (p = "+" || (p = "#" && ps.isEmpty) || !hasWildcard p) && validLevels ps

theorem codeUnits_slash (c : Char) : 47 ∈ codeUnits c ↔ c = '/' := by
  constructor
  · intro h
    unfold codeUnits at h
    split at h
    · exact Char.toNat_inj.mp (List.mem_singleton.mp h).symm
    · simp only [List.mem_cons, List.not_mem_nil, or_false] at h
      omega
  · rintro rfl
    decide

theorem slash_mem_utf16 (t : String) : 47 ∈ utf16 t ↔ '/' ∈ t.toList := by
  simp [utf16, codeUnits_slash]

theorem utf16_append (s t : String) : utf16 (s++t) = utf16 s++utf16 t := by simp [utf16]

def Edge {α : Type} (slash : α) (xs : List α) : Prop := xs = [] ∨ ∃ ys, xs = slash :: ys

theorem match_edge {ps : List Piece} {us vs : List ℕ} {a : List ℕ} {t : String}
    (hps : Edge (.text '/') ps) (hvs : Edge 47 vs) (ht : '/' ∉ t.toList) (ha : 47 ∉ a)
    (hcut : utf16 t++vs = a++us) (hm : matchPieces ps us = true) : a = utf16 t ∧ us = vs := by
  have ht' : 47 ∉ utf16 t := fun h => ht ((slash_mem_utf16 t).mp h)
  have hus : us = [] ∨ ∃ r, us = 47 :: r := by
    rcases hps with rfl | ⟨qs,rfl⟩
    · exact Or.inl (List.isEmpty_iff.mp hm)
    · obtain ⟨r,rfl,-⟩ := (match_text _ _ _).mp hm
      exact Or.inr ⟨r,rfl⟩
  rcases hus with rfl | ⟨r,rfl⟩
  · rcases hvs with rfl | ⟨w,rfl⟩
    · simpa using hcut.symm
    · rw [List.append_nil] at hcut
      exact absurd (hcut ▸ List.mem_append_right _ List.mem_cons_self) ha
  · rcases hvs with rfl | ⟨w,rfl⟩
    · rw [List.append_nil] at hcut
      exact absurd (hcut ▸ List.mem_append_right _ List.mem_cons_self) ht'
    · obtain ⟨h1,h2⟩ := append_sep_inj ht' ha hcut
      exact ⟨h1.symm,by rw [h2]⟩

theorem pieces_literal {level : String} (hs : '/' ∉ level.toList)
    (hw : hasWildcard level = false) : level.toList.map pieceOf = level.toList.map .text := by
  simp only [hasWildcard, Bool.or_eq_false_iff, List.contains_eq_mem, decide_eq_false_iff_not] at hw
  refine List.map_congr_left fun c hc => ?_
  have hslash : c ≠ '/' := fun h => hs (h ▸ hc)
  have hplus : c ≠ '+' := fun h => hw.1 (h ▸ hc)
  have hhash : c ≠ '#' := fun h => hw.2 (h ▸ hc)
  simp [pieceOf, hslash, hplus, hhash]

theorem utf16_ne_nil {t : String} (h : t ≠ "") : utf16 t ≠ [] := by
  intro hnil
  exact h (utf16_injective (by rw [hnil]; rfl))

section
variable {p t : String} {ps : List Piece} {vs : List ℕ}

theorem match_plus (ht : '/' ∉ t.toList) (hps : Edge (.text '/') ps) (hvs : Edge 47 vs) :
    matchPieces (.level :: ps) (utf16 t++vs) = true ↔ t ≠ "" ∧ matchPieces ps vs = true := by
  rw [match_level]
  constructor
  · rintro ⟨a,r,hcut,hne,ha,hm⟩
    obtain ⟨rfl,rfl⟩ := match_edge hps hvs ht ha hcut hm
    refine ⟨?_,hm⟩
    rintro rfl
    exact hne rfl
  · rintro ⟨hne,hm⟩
    exact ⟨utf16 t,vs,rfl,utf16_ne_nil hne,fun h => ht ((slash_mem_utf16 t).mp h),hm⟩

theorem match_literal (hs : '/' ∉ p.toList) (ht : '/' ∉ t.toList)
    (hps : Edge (.text '/') ps) (hvs : Edge 47 vs) :
    matchPieces (p.toList.map .text++ps) (utf16 t++vs) = true ↔
      p = t ∧ matchPieces ps vs = true := by
  rw [match_texts]
  constructor
  · rintro ⟨r,hcut,hm⟩
    have hp : 47 ∉ utf16 p := fun h => hs ((slash_mem_utf16 p).mp h)
    obtain ⟨hunits,rfl⟩ := match_edge hps hvs ht hp hcut hm
    exact ⟨utf16_injective hunits,hm⟩
  · rintro ⟨rfl,hm⟩
    exact ⟨vs,rfl,hm⟩

theorem match_one (hp : p = "+" ∨ hasWildcard p = false) (hs : '/' ∉ p.toList)
    (ht : '/' ∉ t.toList) (hps : Edge (.text '/') ps) (hvs : Edge 47 vs) :
    matchPieces (p.toList.map pieceOf++ps) (utf16 t++vs) = true ↔
      ((p = "+" ∨ p = t) ∧ ¬(p = "+" ∧ t = "")) ∧ matchPieces ps vs = true := by
  rcases hp with rfl | hw
  · have hpieces : "+".toList.map pieceOf++ps = .level :: ps := rfl
    rw [hpieces, match_plus ht hps hvs]
    simp
  · have hplus : p ≠ "+" := by
      rintro rfl
      exact absurd hw (by decide)
    rw [pieces_literal hs hw, match_literal hs ht hps hvs]
    simp [hplus]

end

theorem pieces_join (p q : String) (ps : List String) :
    (join (p :: q :: ps) '/').toList.map pieceOf =
      p.toList.map pieceOf++.text '/' :: (join (q :: ps) '/').toList.map pieceOf := by
  rw [join_cons]
  simp [pieceOf]

theorem utf16_join (t u : String) (ts : List String) :
    utf16 (join (t :: u :: ts) '/') = utf16 t++47 :: utf16 (join (u :: ts) '/') := by
  have hslash : utf16 (String.singleton '/') = [47] := rfl
  rw [join_cons, utf16_append, utf16_append, hslash]
  simp

theorem join_single (t : String) : join [t] '/' = t := by simp [join]

theorem lineEnd_join (t : String) (ts : List String) :
    (utf16 (join (t :: ts) '/')).any lineEnd = (t :: ts).any hasLineEnd := by
  induction ts generalizing t with
  | nil => simp [join_single, hasLineEnd]
  | cons u ts ih =>
    have hslash : lineEnd 47 = false := rfl
    rw [utf16_join, List.any_append, List.any_cons, ih, hslash]
    rfl

theorem not_hash {p : String} (hp : p = "+" ∨ hasWildcard p = false) : p ≠ "#" := by
  rintro rfl
  rcases hp with hp | hp
  · exact absurd hp (by decide)
  · exact absurd hp (by decide)

theorem match_step {p t : String} {ps ts : List String} {qs : List Piece} {vs : List ℕ}
    (hp : p = "+" ∨ hasWildcard p = false) (hs : '/' ∉ p.toList) (ht : '/' ∉ t.toList)
    (hqs : Edge (.text '/') qs) (hvs : Edge 47 vs)
    (hrest : matchPieces qs vs = (levelsMatch ps ts && !missed ps ts)) :
    matchPieces (p.toList.map pieceOf++qs) (utf16 t++vs) =
      (levelsMatch (p :: ps) (t :: ts) && !missed (p :: ps) (t :: ts)) := by
  have hhash : ¬(p = "#" ∧ ps = []) := fun h => not_hash hp h.1
  have hlevels : levelsMatch (p :: ps) (t :: ts) =
      ((p = "+" || p = t) && levelsMatch ps ts) := by simp [levelsMatch, hhash]
  have hmissed : missed (p :: ps) (t :: ts) = ((p = "+" && t = "") || missed ps ts) := by
    simp [missed, hhash]
  rw [Bool.eq_iff_iff, match_one hp hs ht hqs hvs, hrest, hlevels, hmissed]
  simp only [Bool.and_eq_true, Bool.or_eq_true, decide_eq_true_eq, Bool.not_eq_true',
    Bool.or_eq_false_iff, Bool.and_eq_false_iff, decide_eq_false_iff_not]
  tauto

theorem validLevels_head {p : String} {ps : List String} (h : validLevels (p :: ps) = true) :
    (p = "#" ∧ ps = []) ∨ p = "+" ∨ hasWildcard p = false := by
  simp only [validLevels, Bool.and_eq_true, Bool.or_eq_true, decide_eq_true_eq,
    List.isEmpty_iff, Bool.not_eq_true'] at h
  tauto

theorem validLevels_tail {p : String} {ps : List String} (h : validLevels (p :: ps) = true) :
    validLevels ps = true := by
  rw [validLevels, Bool.and_eq_true] at h
  exact h.2

/-- A plain filter's expression reads what the filter matches and does not
miss. -/
theorem match_levels (p : String) (ps : List String) (t : String) (ts : List String)
    (hv : validLevels (p :: ps) = true) (hps : ∀ q ∈ p :: ps, '/' ∉ q.toList)
    (hts : ∀ u ∈ t :: ts, '/' ∉ u.toList) :
    matchPieces ((join (p :: ps) '/').toList.map pieceOf) (utf16 (join (t :: ts) '/')) =
      (levelsMatch (p :: ps) (t :: ts) && !missed (p :: ps) (t :: ts)) := by
  have hs := hps p List.mem_cons_self
  have ht := hts t List.mem_cons_self
  have hbare : ∀ {α : Type} (slash : α), Edge slash ([] : List α) := fun _ => Or.inl rfl
  induction ps generalizing p t ts with
  | nil =>
    rcases validLevels_head hv with ⟨rfl,-⟩ | hp
    · have hpieces : "#".toList.map pieceOf = [.rest] := rfl
      rw [join_single, hpieces, Bool.eq_iff_iff, match_rest_last]
      have hany := lineEnd_join t ts
      simp only [levelsMatch, missed, and_self, if_true, Bool.true_and, List.isEmpty_cons,
        Bool.false_or, ← hany, Bool.not_eq_true', List.any_eq_false, Bool.not_eq_true]
    · cases ts with
      | nil =>
        have hend : matchPieces (p.toList.map pieceOf++[]) (utf16 t++[]) =
            (levelsMatch [p] [t] && !missed [p] [t]) :=
          match_step hp hs ht (hbare _) (hbare _) rfl
        simpa [join_single] using hend
      | cons u ts =>
        have hmore : matchPieces (p.toList.map pieceOf++[])
            (utf16 t++47 :: utf16 (join (u :: ts) '/')) =
              (levelsMatch [p] (t :: u :: ts) && !missed [p] (t :: u :: ts)) :=
          match_step hp hs ht (hbare _) (Or.inr ⟨_,rfl⟩) rfl
        rw [join_single, utf16_join]
        simpa using hmore
  | cons q ps ih =>
    have hp : p = "+" ∨ hasWildcard p = false := by
      rcases validLevels_head hv with h | h
      · exact absurd h.2 (List.cons_ne_nil _ _)
      · exact h
    rw [pieces_join]
    cases ts with
    | nil =>
      have hnone : (levelsMatch (q :: ps) [] && !missed (q :: ps) []) = false := by
        by_cases hq : q = "#" ∧ ps = []
        · simp [missed, hq]
        · simp [levelsMatch, hq]
      have hend : matchPieces (p.toList.map pieceOf++
          .text '/' :: (join (q :: ps) '/').toList.map pieceOf) (utf16 t++[]) =
            (levelsMatch (p :: q :: ps) [t] && !missed (p :: q :: ps) [t]) :=
        match_step hp hs ht (Or.inr ⟨_,rfl⟩) (hbare _) hnone.symm
      simpa [join_single] using hend
    | cons u ts =>
      have hrest := ih q u ts (validLevels_tail hv) (fun r hr => hps r (List.mem_cons_of_mem _ hr))
        (fun r hr => hts r (List.mem_cons_of_mem _ hr)) (hps q (by simp)) (hts u (by simp))
      rw [utf16_join]
      refine match_step hp hs ht (Or.inr ⟨_,rfl⟩) (Or.inr ⟨_,rfl⟩) ?_
      rw [← hrest, Bool.eq_iff_iff, match_text]
      have hunit : codeUnits '/' = [47] := rfl
      simp [hunit]

theorem match_plain {filter topic : String} (hv : validLevels (split filter '/') = true) :
    matchPieces (filter.toList.map pieceOf) (utf16 topic) =
      (levelsMatch (split filter '/') (split topic '/') &&
        !missed (split filter '/') (split topic '/')) := by
  have hf := join_split filter '/'
  have ht := join_split topic '/'
  cases hfs : split filter '/' with
  | nil => exact absurd hfs (by simp [split, splitChars_ne_nil])
  | cons p ps =>
    cases hts : split topic '/' with
    | nil => exact absurd hts (by simp [split, splitChars_ne_nil])
    | cons t ts =>
      rw [hfs] at hf hv
      rw [hts] at ht
      have h := match_levels p ps t ts hv
        (fun q hq => not_mem_of_mem_split (hfs ▸ hq)) (fun u hu => not_mem_of_mem_split (hts ▸ hu))
      rwa [hf, ht] at h

end Iotistica.Acl
