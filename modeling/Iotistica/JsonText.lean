import Iotistica.ByteText
import Iotistica.JsonNumber
import Iotistica.JsSort
import Iotistica.OrderedMap

/-!
# JSON text

Values print as the runtime prints them without an indent; objects print
their members in the order they hold them. Reading takes any JSON text, with
white space between the tokens. Of members with the same name the last one
counts, at the place of the first.
-/

set_option autoImplicit false

namespace Iotistica.JsonText
open Iotistica.JsSort Iotistica.ByteText

inductive Value where
  | null
  | bool (b : Bool)
  | num (d : Decimal)
  | str (s : String)
  | arr (items : List Value)
  | obj (members : List (String × Value))

abbrev Members := List (String × Value)

def truthy : Value → Bool
  | .null => false
  | .bool b => b
  | .num d => d.mantissa ≠ 0
  | .str s => s ≠ ""
  | _ => true

def member (v : Value) (key : String) : Option Value :=
  match v with
  | .obj members => members.lookup key
  | _ => none

def escapeChar (c : Char) : List Char :=
  if c = '"' then ['\\', '"']
  else if c = '\\' then ['\\', '\\']
  else if c.toNat = 8 then ['\\', 'b']
  else if c.toNat = 9 then ['\\', 't']
  else if c.toNat = 10 then ['\\', 'n']
  else if c.toNat = 12 then ['\\', 'f']
  else if c.toNat = 13 then ['\\', 'r']
  else if c.toNat < 32 then
    ['\\', 'u', '0', '0', hexChar (c.toNat/16), hexChar (c.toNat%16)]
  else [c]

def quote (s : String) : List Char := '"' :: (s.toList.flatMap escapeChar++['"'])

def readUnit (a b c d : Char) : Option ℕ :=
  (hexNibble a).bind fun a => (hexNibble b).bind fun b => (hexNibble c).bind fun c =>
    (hexNibble d).map fun d => ((a*16+b)*16+c)*16+d

def escapeUnit (c : Char) : Option ℕ :=
  if c = '"' ∨ c = '\\' ∨ c = '/' then some c.toNat
  else if c = 'b' then some 8
  else if c = 't' then some 9
  else if c = 'n' then some 10
  else if c = 'f' then some 12
  else if c = 'r' then some 13
  else none

def readUnits : List Char → Option (List ℕ × List Char)
  | [] => none
  | '"' :: r => some ([],r)
  | '\\' :: 'u' :: a :: b :: c :: d :: r =>
    (readUnit a b c d).bind fun u => (readUnits r).map fun x => (u :: x.1,x.2)
  | '\\' :: e :: r => (escapeUnit e).bind fun u => (readUnits r).map fun x => (u :: x.1,x.2)
  | c :: r =>
    if c.toNat < 32 ∨ c = '\\' then none
    else (readUnits r).map fun x => (codeUnits c++x.1,x.2)

def ofUnits : List ℕ → List Char
  | [] => []
  | [u] => if 0xD800 ≤ u ∧ u < 0xE000 then [Char.ofNat 0xFFFD] else [Char.ofNat u]
  | u :: v :: r =>
    if 0xD800 ≤ u ∧ u < 0xDC00 ∧ 0xDC00 ≤ v ∧ v < 0xE000 then
      Char.ofNat (0x10000+(u-0xD800)*0x400+(v-0xDC00)) :: ofUnits r
    else if 0xD800 ≤ u ∧ u < 0xE000 then Char.ofNat 0xFFFD :: ofUnits (v :: r)
    else Char.ofNat u :: ofUnits (v :: r)

def readString (cs : List Char) : Option (String × List Char) :=
  (readUnits cs).map fun x => (String.ofList (ofUnits x.1),x.2)

mutual
def print : Value → List Char
  | .null => ['n', 'u', 'l', 'l']
  | .bool true => ['t', 'r', 'u', 'e']
  | .bool false => ['f', 'a', 'l', 's', 'e']
  | .num d => numberText d
  | .str s => quote s
  | .arr [] => ['[', ']']
  | .arr (v :: vs) => '[' :: (print v++printItems vs)
  | .obj [] => ['{', '}']
  | .obj ((k,v) :: ms) => '{' :: (quote k++ ':' :: (print v++printMembers ms))

def printItems : List Value → List Char
  | [] => [']']
  | v :: vs => ',' :: (print v++printItems vs)

def printMembers : Members → List Char
  | [] => ['}']
  | (k,v) :: ms => ',' :: (quote k++ ':' :: (print v++printMembers ms))
end

def stringify (v : Value) : String := String.ofList (print v)

def blank (c : Char) : Bool := c = ' ' || c = '\t' || c = '\n' || c = '\r'

def skipBlanks (cs : List Char) : List Char := cs.dropWhile blank

def readKey (cs : List Char) : Option (String × List Char) :=
  match skipBlanks cs with
  | '"' :: r =>
    (readString r).bind fun x =>
      match skipBlanks x.2 with
      | ':' :: r' => some (x.1,r')
      | _ => none
  | _ => none

def collect (members : Members) : Members := (OrderedMap.empty.assignAll members).entries

mutual
def readValue : ℕ → List Char → Option (Value × List Char)
  | 0, _ => none
  | n+1, cs =>
    match skipBlanks cs with
    | 'n' :: 'u' :: 'l' :: 'l' :: r => some (.null,r)
    | 't' :: 'r' :: 'u' :: 'e' :: r => some (.bool true,r)
    | 'f' :: 'a' :: 'l' :: 's' :: 'e' :: r => some (.bool false,r)
    | '"' :: r => (readString r).map fun x => (.str x.1,x.2)
    | '[' :: r =>
      match skipBlanks r with
      | ']' :: r' => some (.arr [],r')
      | _ =>
        (readValue n r).bind fun x => (readItems n x.2).map fun y => (.arr (x.1 :: y.1),y.2)
    | '{' :: r =>
      match skipBlanks r with
      | '}' :: r' => some (.obj [],r')
      | _ =>
        (readKey r).bind fun k => (readValue n k.2).bind fun x =>
          (readMembers n x.2).map fun y => (.obj (collect ((k.1,x.1) :: y.1)),y.2)
    | r => (readNumber r).map fun x => (.num x.1,x.2)

def readItems : ℕ → List Char → Option (List Value × List Char)
  | 0, _ => none
  | n+1, cs =>
    match skipBlanks cs with
    | ']' :: r => some ([],r)
    | ',' :: r => (readValue n r).bind fun x => (readItems n x.2).map fun y => (x.1 :: y.1,y.2)
    | _ => none

def readMembers : ℕ → List Char → Option (Members × List Char)
  | 0, _ => none
  | n+1, cs =>
    match skipBlanks cs with
    | '}' :: r => some ([],r)
    | ',' :: r =>
      (readKey r).bind fun k => (readValue n k.2).bind fun x =>
        (readMembers n x.2).map fun y => ((k.1,x.1) :: y.1,y.2)
    | _ => none
end

def parse (text : String) : Option Value :=
  (readValue (text.toList.length+1) text.toList).bind fun x =>
    if (skipBlanks x.2).isEmpty then some x.1 else none

theorem codeUnits_small {c : Char} (h : c.toNat < 0x10000) : codeUnits c = [c.toNat] := if_pos h

theorem readUnits_escape (e : Char) (cs : List Char) {u : ℕ} (h : escapeUnit e = some u) :
    readUnits ('\\' :: e :: cs) = (readUnits cs).map fun x => (u :: x.1,x.2) := by
  have hu : e ≠ 'u' := by
    rintro rfl
    cases h
  rw [readUnits.eq_def]
  split
  · rename_i heq
    cases heq
  · rename_i heq
    cases heq
  · rename_i heq
    exact absurd (List.cons.inj (List.cons.inj heq).2).1 hu
  · rename_i heq
    obtain ⟨rfl,rfl⟩ := List.cons.inj (List.cons.inj heq).2
    rw [h]
    rfl
  · rename_i hne heq
    obtain ⟨rfl,rfl⟩ := List.cons.inj heq
    exact absurd rfl (hne e cs rfl)

theorem readUnits_plain {c : Char} (hq : c ≠ '"') (hb : c ≠ '\\') (hc : ¬c.toNat < 32)
    (cs : List Char) : readUnits (c :: cs) = (readUnits cs).map fun x => (codeUnits c++x.1,x.2) := by
  rw [readUnits.eq_def]
  split
  · rename_i heq
    cases heq
  · rename_i heq
    exact absurd (List.cons.inj heq).1 hq
  · rename_i heq
    exact absurd (List.cons.inj heq).1 hb
  · rename_i heq
    exact absurd (List.cons.inj heq).1 hb
  · rename_i heq
    obtain ⟨rfl,rfl⟩ := List.cons.inj heq
    rw [if_neg (by simp [hc, hb])]

theorem readUnits_escapeChar (c : Char) (cs : List Char) :
    readUnits (escapeChar c++cs) = (readUnits cs).map fun x => (codeUnits c++x.1,x.2) := by
  unfold escapeChar
  split
  · subst_vars
    exact readUnits_escape '"' cs rfl
  split
  · subst_vars
    exact readUnits_escape '\\' cs rfl
  split
  · rename_i h
    rw [codeUnits_small (by omega), h]
    exact readUnits_escape 'b' cs rfl
  split
  · rename_i h
    rw [codeUnits_small (by omega), h]
    exact readUnits_escape 't' cs rfl
  split
  · rename_i h
    rw [codeUnits_small (by omega), h]
    exact readUnits_escape 'n' cs rfl
  split
  · rename_i h
    rw [codeUnits_small (by omega), h]
    exact readUnits_escape 'f' cs rfl
  split
  · rename_i h
    rw [codeUnits_small (by omega), h]
    exact readUnits_escape 'r' cs rfl
  split
  · rename_i h
    have hunit : readUnit '0' '0' (hexChar (c.toNat/16)) (hexChar (c.toNat%16)) = some c.toNat := by
      have hz : hexNibble '0' = some 0 := rfl
      simp only [readUnit, hz, hexNibble_hexChar (c.toNat/16) (by omega),
        hexNibble_hexChar (c.toNat%16) (by omega), Option.bind_some, Option.map_some]
      congr 1
      omega
    rw [codeUnits_small (by omega)]
    simp only [List.cons_append, List.nil_append, readUnits, hunit, Option.bind_some]
  · rename_i hq hb _ _ _ _ _ hc
    exact readUnits_plain hq hb hc cs

theorem readUnits_quoted (cs r : List Char) :
    readUnits (cs.flatMap escapeChar++ '"' :: r) = some (cs.flatMap codeUnits,r) := by
  induction cs with
  | nil => simp [readUnits]
  | cons c cs ih =>
    rw [List.flatMap_cons, List.append_assoc, readUnits_escapeChar, ih]
    rfl

theorem ofUnits_codeUnits (c : Char) (us : List ℕ) :
    ofUnits (codeUnits c++us) = c :: ofUnits us := by
  have hrange := toNat_range c
  unfold codeUnits
  split
  · have hnot : ¬(0xD800 ≤ c.toNat ∧ c.toNat < 0xE000) := by omega
    cases us with
    | nil => simp [ofUnits, hnot]
    | cons u us =>
      have hpair : ¬(0xD800 ≤ c.toNat ∧ c.toNat < 0xDC00 ∧ 0xDC00 ≤ u ∧ u < 0xE000) := by omega
      simp only [List.cons_append, List.nil_append, ofUnits]
      rw [if_neg hpair, if_neg hnot, Char.ofNat_toNat]
  · have hpair : 0x10000+(0xD800+(c.toNat-0x10000)/0x400-0xD800)*0x400+
        (0xDC00+(c.toNat-0x10000)%0x400-0xDC00) = c.toNat := by omega
    simp only [List.cons_append, List.nil_append, ofUnits]
    rw [if_pos (by omega), hpair, Char.ofNat_toNat]

theorem ofUnits_flatMap (cs : List Char) : ofUnits (cs.flatMap codeUnits) = cs := by
  induction cs with
  | nil => rfl
  | cons c cs ih => rw [List.flatMap_cons, ofUnits_codeUnits, ih]

theorem readString_quoted (s : String) (r : List Char) :
    readString (s.toList.flatMap escapeChar++ '"' :: r) = some (s,r) := by
  unfold readString
  rw [readUnits_quoted, Option.map_some, ofUnits_flatMap, String.ofList_toList]

mutual
def Proper : Value → Prop
  | .arr items => ProperItems items
  | .obj members => (members.map Prod.fst).Nodup ∧ ProperMembers members
  | _ => True

def ProperItems : List Value → Prop
  | [] => True
  | v :: vs => Proper v ∧ ProperItems vs

def ProperMembers : Members → Prop
  | [] => True
  | m :: ms => Proper m.2 ∧ ProperMembers ms
end

theorem skipBlanks_cons {c : Char} (h : blank c = false) (cs : List Char) :
    skipBlanks (c :: cs) = c :: cs := List.dropWhile_cons_of_neg (by simp [h])

theorem collect_eq {members : Members} (h : (members.map Prod.fst).Nodup) :
    collect members = members := by
  unfold collect
  rw [OrderedMap.entries_assignAll _ _ h (fun j _ => by simp)]
  rfl

theorem readKey_quote (k : String) (r : List Char) :
    readKey (quote k++ ':' :: r) = some (k,r) := by
  have hq : quote k++ ':' :: r = '"' :: (k.toList.flatMap escapeChar++ '"' :: ':' :: r) := by
    simp [quote]
  unfold readKey
  rw [hq, skipBlanks_cons (by decide)]
  simp only [readString_quoted, Option.bind_some]
  rw [skipBlanks_cons (by decide)]
  rfl

theorem head_numberText (d : Decimal) :
    ∃ c cs, numberText d = c :: cs ∧ (c = '-' ∨ c.isDigit = true) := by
  unfold numberText
  cases d.negative with
  | true => exact ⟨'-',_,rfl,Or.inl rfl⟩
  | false =>
    have hread := readMagnitude_text d (show Stops [] from fun c hc => by cases hc)
    simp only [Bool.false_eq_true, if_false, List.nil_append]
    cases hm : magnitudeText d.mantissa d.exponent with
    | nil =>
      rw [hm] at hread
      simp [readMagnitude, spanDigits] at hread
    | cons c cs =>
      refine ⟨c,cs,rfl,Or.inr ?_⟩
      by_contra hc
      rw [hm] at hread
      simp [readMagnitude, spanDigits, hc] at hread

theorem head_print (v : Value) : ∃ c cs, print v = c :: cs ∧ blank c = false ∧ c ≠ ']' := by
  cases v with
  | null => exact ⟨'n',_,rfl,rfl,by decide⟩
  | bool b =>
    cases b with
    | true => exact ⟨'t',_,rfl,rfl,by decide⟩
    | false => exact ⟨'f',_,rfl,rfl,by decide⟩
  | num d =>
    obtain ⟨c,cs,hcs,hc⟩ := head_numberText d
    refine ⟨c,cs,hcs,?_,?_⟩
    · rcases hc with rfl | hc
      · rfl
      · unfold blank
        simp only [Bool.or_eq_false_iff, decide_eq_false_iff_not]
        refine ⟨⟨⟨?_,?_⟩,?_⟩,?_⟩ <;> (rintro rfl; revert hc; decide)
    · rintro rfl
      rcases hc with hc | hc
      · exact absurd hc (by decide)
      · exact absurd hc (by decide)
  | str s => exact ⟨'"',_,rfl,rfl,by decide⟩
  | arr items =>
    cases items with
    | nil => exact ⟨'[',_,rfl,rfl,by decide⟩
    | cons v vs => exact ⟨'[',_,rfl,rfl,by decide⟩
  | obj members =>
    cases members with
    | nil => exact ⟨'\x7b',_,rfl,rfl,by decide⟩
    | cons m ms => exact ⟨'\x7b',_,rfl,rfl,by decide⟩

def Closed (r : List Char) : Prop := ∀ c ∈ r.head?, c = ',' ∨ c = ']' ∨ c = '\x7d'

theorem Closed.stops {r : List Char} (h : Closed r) : Stops r := by
  intro c hc
  rcases h c hc with rfl | rfl | rfl <;> decide

theorem closed_printItems (vs : List Value) (r : List Char) : Closed (printItems vs++r) := by
  intro c hc
  cases vs with
  | nil => exact Or.inr (Or.inl (by simpa [printItems] using hc.symm))
  | cons v vs => exact Or.inl (by simpa [printItems] using hc.symm)

theorem closed_printMembers (ms : Members) (r : List Char) : Closed (printMembers ms++r) := by
  intro c hc
  cases ms with
  | nil => exact Or.inr (Or.inr (by simpa [printMembers] using hc.symm))
  | cons m ms => exact Or.inl (by simpa [printMembers] using hc.symm)

theorem readValue_numeral {c : Char} {cs r : List Char} (n : ℕ) (hskip : skipBlanks cs = c :: r)
    (hc : c = '-' ∨ c.isDigit = true) :
    readValue (n+1) cs = (readNumber (c :: r)).map fun x => (.num x.1,x.2) := by
  have hne : ∀ x ∈ ['n', 't', 'f', '"', '[', '\x7b'], c ≠ x := by
    rintro x hx rfl
    rcases hc with rfl | hc
    · simp at hx
    · revert hx
      simp only [List.mem_cons, List.not_mem_nil, or_false]
      rintro (rfl | rfl | rfl | rfl | rfl | rfl) <;> exact absurd hc (by decide)
  unfold readValue
  rw [hskip]
  split
  · rename_i heq
    exact absurd (List.cons.inj heq).1 (hne _ (by simp))
  · rename_i heq
    exact absurd (List.cons.inj heq).1 (hne _ (by simp))
  · rename_i heq
    exact absurd (List.cons.inj heq).1 (hne _ (by simp))
  · rename_i heq
    exact absurd (List.cons.inj heq).1 (hne _ (by simp))
  · rename_i heq
    exact absurd (List.cons.inj heq).1 (hne _ (by simp))
  · rename_i heq
    exact absurd (List.cons.inj heq).1 (hne _ (by simp))
  · rfl

theorem readValue_number (d : Decimal) (n : ℕ) {r : List Char} (hr : Stops r) :
    readValue (n+1) (numberText d++r) = some (.num d,r) := by
  obtain ⟨c,cs,hcs,hc⟩ := head_numberText d
  have hread := readNumber_numberText d hr
  have hblank : blank c = false := by
    obtain ⟨c',cs',hp,hb,_⟩ := head_print (.num d)
    rw [print, hcs] at hp
    rw [(List.cons.inj hp).1]
    exact hb
  rw [hcs] at hread ⊢
  rw [List.cons_append] at hread ⊢
  rw [readValue_numeral n (skipBlanks_cons hblank _) hc, hread]
  rfl

theorem readValue_array (n : ℕ) (r : List Char) (hr : ∀ c ∈ r.head?, blank c = false ∧ c ≠ ']') :
    readValue (n+1) ('[' :: r) =
      (readValue n r).bind fun x => (readItems n x.2).map fun y => (.arr (x.1 :: y.1),y.2) := by
  rw [readValue]
  have hskip : skipBlanks ('[' :: r) = '[' :: r := skipBlanks_cons (by decide) r
  have hr' : skipBlanks r = r := by
    cases r with
    | nil => rfl
    | cons c cs => exact skipBlanks_cons (hr c rfl).1 cs
  simp only [hskip, hr']
  split
  · exact absurd rfl (hr ']' rfl).2
  · rfl

theorem readValue_object (n : ℕ) (k : String) (r : List Char) :
    readValue (n+1) ('\x7b' :: (quote k++ ':' :: r)) =
      (readValue n r).bind fun x =>
        (readMembers n x.2).map fun y => (.obj (collect ((k,x.1) :: y.1)),y.2) := by
  rw [readValue]
  have hskip : skipBlanks ('\x7b' :: (quote k++ ':' :: r)) = '\x7b' :: (quote k++ ':' :: r) :=
    skipBlanks_cons (by decide) _
  have hq : skipBlanks (quote k++ ':' :: r) = quote k++ ':' :: r := skipBlanks_cons (by decide) _
  simp only [hskip, hq]
  split
  · rename_i heq
    exact absurd (List.cons.inj heq).1 (by decide)
  · rw [readKey_quote]
    rfl

mutual
theorem readValue_print : ∀ (v : Value) (n : ℕ) (r : List Char), Proper v →
    (print v).length ≤ n → Closed r → readValue n (print v++r) = some (v,r)
  | .null, n+1, r, _, _, _ => rfl
  | .bool true, n+1, r, _, _, _ => rfl
  | .bool false, n+1, r, _, _, _ => rfl
  | .num d, n+1, r, _, _, hr => readValue_number d n hr.stops
  | .str s, n+1, r, _, _, _ => by
    have hread := readString_quoted s r
    have hq : print (.str s)++r = '"' :: (s.toList.flatMap escapeChar++ '"' :: r) := by
      simp [print, quote]
    rw [hq, readValue, skipBlanks_cons (by decide)]
    simp only [hread, Option.map_some]
  | .arr [], n+1, r, _, _, _ => rfl
  | .arr (v :: vs), n+1, r, hp, hn, _ => by
    simp only [print, List.length_cons, List.length_append] at hn
    have hv := readValue_print v n (printItems vs++r) hp.1 (by omega) (closed_printItems vs r)
    have hvs := readItems_print vs n r hp.2 (by omega)
    have hhead : ∀ c ∈ (print v++(printItems vs++r)).head?, blank c = false ∧ c ≠ ']' := by
      obtain ⟨c,cs,hcs,hc⟩ := head_print v
      intro c' hc'
      rw [hcs] at hc'
      obtain rfl : c = c' := by simpa using hc'
      exact hc
    simp only [print, List.cons_append, List.append_assoc]
    rw [readValue_array n _ hhead, hv, Option.bind_some, hvs]
    rfl
  | .obj [], n+1, r, _, _, _ => rfl
  | .obj ((k,v) :: ms), n+1, r, hp, hn, _ => by
    simp only [print, List.length_cons, List.length_append] at hn
    have hv := readValue_print v n (printMembers ms++r) hp.2.1 (by omega) (closed_printMembers ms r)
    have hms := readMembers_print ms n r hp.2.2 (by omega)
    simp only [print, List.cons_append, List.append_assoc]
    rw [readValue_object, hv, Option.bind_some, hms, Option.map_some, collect_eq hp.1]
  | v, 0, r, _, hn, _ => by
    obtain ⟨c,cs,hcs,_⟩ := head_print v
    rw [hcs] at hn
    exact absurd hn (Nat.not_succ_le_zero _)

theorem readItems_print : ∀ (vs : List Value) (n : ℕ) (r : List Char), ProperItems vs →
    (printItems vs).length ≤ n → readItems n (printItems vs++r) = some (vs,r)
  | [], n+1, r, _, _ => rfl
  | v :: vs, n+1, r, hp, hn => by
    simp only [printItems, List.length_cons, List.length_append] at hn
    have hv := readValue_print v n (printItems vs++r) hp.1 (by omega) (closed_printItems vs r)
    have hvs := readItems_print vs n r hp.2 (by omega)
    simp only [printItems, List.cons_append, List.append_assoc]
    rw [readItems, skipBlanks_cons (by decide)]
    simp only [hv, Option.bind_some, hvs, Option.map_some]
  | [], 0, r, _, hn => absurd hn (Nat.not_succ_le_zero _)
  | v :: vs, 0, r, _, hn => absurd hn (Nat.not_succ_le_zero _)

theorem readMembers_print : ∀ (ms : Members) (n : ℕ) (r : List Char), ProperMembers ms →
    (printMembers ms).length ≤ n → readMembers n (printMembers ms++r) = some (ms,r)
  | [], n+1, r, _, _ => rfl
  | (k,v) :: ms, n+1, r, hp, hn => by
    simp only [printMembers, List.length_cons, List.length_append] at hn
    have hv := readValue_print v n (printMembers ms++r) hp.1 (by omega) (closed_printMembers ms r)
    have hms := readMembers_print ms n r hp.2 (by omega)
    simp only [printMembers, List.cons_append, List.append_assoc]
    rw [readMembers, skipBlanks_cons (by decide)]
    simp only [readKey_quote, Option.bind_some, hv, hms, Option.map_some]
  | [], 0, r, _, hn => absurd hn (Nat.not_succ_le_zero _)
  | (k,v) :: ms, 0, r, _, hn => absurd hn (Nat.not_succ_le_zero _)
end

theorem parse_stringify {v : Value} (h : Proper v) : parse (stringify v) = some v := by
  have hread := readValue_print v ((print v).length+1) [] h (Nat.le_succ _)
    (fun c hc => by cases hc)
  rw [List.append_nil] at hread
  unfold parse stringify
  rw [String.toList_ofList, hread]
  rfl

theorem stringify_ne_empty (v : Value) : stringify v ≠ "" := by
  obtain ⟨c,cs,hcs,_⟩ := head_print v
  unfold stringify
  rw [hcs]
  intro h
  cases String.ofList_injective h

end Iotistica.JsonText
