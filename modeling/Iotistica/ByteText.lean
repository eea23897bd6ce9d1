import Iotistica.JsNumerals
import Mathlib.Data.List.DropRight
import Mathlib.Data.List.TakeWhile

/-!
# Bytes as text

Hex and base64 as the runtime writes and reads them. Reading hex stops at the
first pair that is none; reading base64 takes the letters of both alphabets
and passes over everything else.
-/

set_option autoImplicit false

namespace Iotistica.ByteText
open Iotistica.JsNumerals

def hexChar (n : ℕ) : Char := if n < 10 then Char.ofNat (48+n) else Char.ofNat (87+n)

def hexNibble (c : Char) : Option ℕ :=
  if c.isDigit then some (c.toNat-48)
  else if 'a' ≤ c ∧ c ≤ 'f' then some (c.toNat-87)
  else if 'A' ≤ c ∧ c ≤ 'F' then some (c.toNat-55)
  else none

theorem hexNibble_hexChar : ∀ n, n < 16 → hexNibble (hexChar n) = some n := by decide

def hexText (bytes : List UInt8) : List Char :=
  bytes.flatMap fun b => [hexChar (b.toNat/16),hexChar (b.toNat%16)]

def readHexBytes : List Char → List UInt8
  | a :: b :: r =>
    match hexNibble a, hexNibble b with
    | some x, some y => UInt8.ofNat (16*x+y) :: readHexBytes r
    | _, _ => []
  | _ => []

theorem readHexBytes_hexText (bytes : List UInt8) : readHexBytes (hexText bytes) = bytes := by
  induction bytes with
  | nil => rfl
  | cons b bs ih =>
    have hb := b.toNat_lt
    have hhigh := hexNibble_hexChar (b.toNat/16) (by omega)
    have hlow := hexNibble_hexChar (b.toNat%16) (by omega)
    have hval : 16*(b.toNat/16)+b.toNat%16 = b.toNat := by omega
    show readHexBytes (hexChar (b.toNat/16) :: hexChar (b.toNat%16) :: hexText bs) = _
    simp only [readHexBytes, hhigh, hlow, hval, ih, UInt8.ofNat_toNat]

theorem hexNibble_of_hexDigit {c : Char} (h : hexDigit c = true) :
    ∃ n, hexNibble c = some n ∧ n < 16 ∧ hexChar n = c.toLower := by
  have hall : ∀ k, k < 128 → hexDigit (Char.ofNat k) = true →
      ∃ n < 16, hexNibble (Char.ofNat k) = some n ∧ hexChar n = (Char.ofNat k).toLower := by
    decide +kernel
  have hlt : c.toNat < 128 := by
    simp only [hexDigit, Char.isDigit, Bool.or_eq_true, Bool.and_eq_true, decide_eq_true_eq,
      Char.le_def, UInt32.le_iff_toNat_le] at h
    rcases h with (h | h) | h
    · exact Nat.lt_of_le_of_lt h.2 (by decide)
    · exact Nat.lt_of_le_of_lt h.2 (by decide)
    · exact Nat.lt_of_le_of_lt h.2 (by decide)
  have hc := hall c.toNat hlt
  rw [Char.ofNat_toNat] at hc
  obtain ⟨n,hn,he,hl⟩ := hc h
  exact ⟨n,he,hn,hl⟩

theorem hexText_readHexBytes (k : ℕ) (cs : List Char) (hlen : cs.length = 2*k)
    (h : ∀ c ∈ cs, hexDigit c = true) :
    hexText (readHexBytes cs) = cs.map Char.toLower ∧ (readHexBytes cs).length = k := by
  induction k generalizing cs with
  | zero =>
    obtain rfl := List.length_eq_zero_iff.mp hlen
    exact ⟨rfl,rfl⟩
  | succ k ih =>
    match cs, hlen, h with
    | a :: b :: r, hlen, h =>
      obtain ⟨x,hx,hx16,hxl⟩ := hexNibble_of_hexDigit (h a (by simp))
      obtain ⟨y,hy,hy16,hyl⟩ := hexNibble_of_hexDigit (h b (by simp))
      obtain ⟨htext,hcount⟩ := ih r (by simp only [List.length_cons] at hlen; omega)
        (fun c hc => h c (by simp [hc]))
      have hval : (UInt8.ofNat (16*x+y)).toNat = 16*x+y := by
        simp
        omega
      have hhigh : (16*x+y)/16 = x := by omega
      have hlow : (16*x+y)%16 = y := by omega
      simp only [readHexBytes, hx, hy]
      refine ⟨?_,by simp [hcount]⟩
      show hexChar ((UInt8.ofNat (16*x+y)).toNat/16) :: hexChar ((UInt8.ofNat (16*x+y)).toNat%16) ::
        hexText (readHexBytes r) = _
      rw [hval, hhigh, hlow, hxl, hyl, htext]
      rfl

def sextetChar (n : ℕ) : Char :=
  if n < 26 then Char.ofNat (65+n)
  else if n < 52 then Char.ofNat (71+n)
  else if n < 62 then Char.ofNat (n-4)
  else if n = 62 then '+'
  else '/'

def sextet (c : Char) : Option ℕ :=
  if c.isUpper then some (c.toNat-65)
  else if c.isLower then some (c.toNat-71)
  else if c.isDigit then some (c.toNat+4)
  else if c = '+' ∨ c = '-' then some 62
  else if c = '/' ∨ c = '_' then some 63
  else none

theorem sextet_sextetChar : ∀ n, n < 64 → sextet (sextetChar n) = some n := by decide

def sextets : List UInt8 → List ℕ
  | a :: b :: c :: r =>
    a.toNat/4 :: (a.toNat%4*16+b.toNat/16) :: (b.toNat%16*4+c.toNat/64) :: c.toNat%64 :: sextets r
  | [a,b] => [a.toNat/4,a.toNat%4*16+b.toNat/16,b.toNat%16*4]
  | [a] => [a.toNat/4,a.toNat%4*16]
  | [] => []

def ofSextets : List ℕ → List UInt8
  | w :: x :: y :: z :: r =>
    UInt8.ofNat (w*4+x/16) :: UInt8.ofNat (x%16*16+y/4) :: UInt8.ofNat (y%4*64+z) :: ofSextets r
  | [w,x,y] => [UInt8.ofNat (w*4+x/16),UInt8.ofNat (x%16*16+y/4)]
  | [w,x] => [UInt8.ofNat (w*4+x/16)]
  | _ => []

def pad (cs : List Char) : List Char := cs++List.replicate ((4-cs.length%4)%4) '='

def base64Text (bytes : List UInt8) : List Char := pad ((sextets bytes).map sextetChar)

def readBase64 (cs : List Char) : List UInt8 := ofSextets (cs.filterMap sextet)

theorem sextets_lt (bytes : List UInt8) : ∀ n ∈ sextets bytes, n < 64 := by
  fun_induction sextets bytes with
  | case1 a b c r ih =>
    have ha := a.toNat_lt
    have hb := b.toNat_lt
    have hc := c.toNat_lt
    intro n hn
    simp only [List.mem_cons] at hn
    rcases hn with rfl | rfl | rfl | rfl | hn
    · omega
    · omega
    · omega
    · omega
    · exact ih n hn
  | case2 a b =>
    have ha := a.toNat_lt
    have hb := b.toNat_lt
    intro n hn
    simp only [List.mem_cons, List.not_mem_nil, or_false] at hn
    omega
  | case3 a =>
    have ha := a.toNat_lt
    intro n hn
    simp only [List.mem_cons, List.not_mem_nil, or_false] at hn
    omega
  | case4 => simp

theorem ofNat_eq {n : ℕ} {a : UInt8} (h : n = a.toNat) : UInt8.ofNat n = a := by
  rw [h, UInt8.ofNat_toNat]

theorem ofSextets_sextets (bytes : List UInt8) : ofSextets (sextets bytes) = bytes := by
  fun_induction sextets bytes with
  | case1 a b c r ih =>
    have hb := b.toNat_lt
    have hc := c.toNat_lt
    rw [ofSextets, ofNat_eq (a := a) (by omega), ofNat_eq (a := b) (by omega),
      ofNat_eq (a := c) (by omega), ih]
  | case2 a b =>
    have hb := b.toNat_lt
    rw [ofSextets, ofNat_eq (a := a) (by omega), ofNat_eq (a := b) (by omega)]
  | case3 a => rw [ofSextets, ofNat_eq (a := a) (by omega)]
  | case4 => rfl

theorem filterMap_sextet {ns : List ℕ} (h : ∀ n ∈ ns, n < 64) :
    (ns.map sextetChar).filterMap sextet = ns := by
  induction ns with
  | nil => rfl
  | cons n ns ih =>
    have hn := sextet_sextetChar n (h n List.mem_cons_self)
    rw [List.map_cons, List.filterMap_cons, hn, ih (fun m hm => h m (List.mem_cons_of_mem _ hm))]

theorem filterMap_pad (cs : List Char) : (pad cs).filterMap sextet = cs.filterMap sextet := by
  have hpad : ∀ n, (List.replicate n '=').filterMap sextet = [] := by
    intro n
    rw [List.filterMap_replicate_of_none rfl]
  rw [pad, List.filterMap_append, hpad, List.append_nil]

theorem readBase64_base64Text (bytes : List UInt8) : readBase64 (base64Text bytes) = bytes := by
  rw [readBase64, base64Text, filterMap_pad, filterMap_sextet (sextets_lt bytes),
    ofSextets_sextets]

/-- `+` and slash become `-` and `_`, the padding goes. -/
def urlChar (c : Char) : Char := if c = '+' then '-' else if c = '/' then '_' else c

def ofUrlChar (c : Char) : Char := if c = '-' then '+' else if c = '_' then '/' else c

def urlSafe (cs : List Char) : List Char := (cs.map urlChar).rdropWhile (fun c => c = '=')

def isUrlChar (c : Char) : Bool := c.isAlphanum || c = '_' || c = '-'

theorem url_sextetChar : ∀ n, n < 64 → ofUrlChar (urlChar (sextetChar n)) = sextetChar n ∧
    urlChar (sextetChar n) ≠ '=' ∧ isUrlChar (urlChar (sextetChar n)) = true := by
  decide +kernel

theorem rdropWhile_padding {cs : List Char} (h : ∀ c ∈ cs, c ≠ '=') (k : ℕ) :
    (cs++List.replicate k '=').rdropWhile (fun c => c = '=') = cs := by
  have hpad : ∀ c ∈ List.replicate k '=', decide (c = '=') = true := by
    intro c hc
    simp [List.eq_of_mem_replicate hc]
  have hrev : cs.reverse.dropWhile (fun c => decide (c = '=')) = cs.reverse := by
    cases hcs : cs.reverse with
    | nil => rfl
    | cons c r =>
      have hc : c ∈ cs := by
        rw [← List.mem_reverse, hcs]
        exact List.mem_cons_self
      exact List.dropWhile_cons_of_neg (by simp [h c hc])
  rw [List.rdropWhile, List.reverse_append, List.reverse_replicate,
    List.dropWhile_append_of_pos hpad, hrev, List.reverse_reverse]

theorem urlSafe_base64Text (bytes : List UInt8) :
    urlSafe (base64Text bytes) = (sextets bytes).map (fun n => urlChar (sextetChar n)) := by
  have hne : ∀ c ∈ (sextets bytes).map (fun n => urlChar (sextetChar n)), c ≠ '=' := by
    intro c hc
    obtain ⟨n,hn,rfl⟩ := List.mem_map.mp hc
    exact (url_sextetChar n (sextets_lt bytes n hn)).2.1
  have hmap : (base64Text bytes).map urlChar =
      (sextets bytes).map (fun n => urlChar (sextetChar n))++
        List.replicate ((4-((sextets bytes).map sextetChar).length%4)%4) '=' := by
    simp [base64Text, pad, Function.comp_def, urlChar]
  rw [urlSafe, hmap, rdropWhile_padding hne]

theorem isUrlChar_urlSafe {bytes : List UInt8} {c : Char} (h : c ∈ urlSafe (base64Text bytes)) :
    isUrlChar c = true := by
  rw [urlSafe_base64Text] at h
  obtain ⟨n,hn,rfl⟩ := List.mem_map.mp h
  exact (url_sextetChar n (sextets_lt bytes n hn)).2.2

theorem map_ofUrlChar_urlSafe (bytes : List UInt8) :
    (urlSafe (base64Text bytes)).map ofUrlChar = (sextets bytes).map sextetChar := by
  rw [urlSafe_base64Text, List.map_map]
  apply List.map_congr_left
  intro n hn
  exact (url_sextetChar n (sextets_lt bytes n hn)).1

theorem readBase64_urlSafe (bytes : List UInt8) :
    readBase64 ((urlSafe (base64Text bytes)).map ofUrlChar) = bytes := by
  rw [map_ofUrlChar_urlSafe, readBase64, filterMap_sextet (sextets_lt bytes), ofSextets_sextets]

theorem readBase64_pad (cs : List Char) : readBase64 (pad cs) = readBase64 cs := by
  rw [readBase64, filterMap_pad, readBase64]

theorem lt_of_isUrlChar {c : Char} (h : isUrlChar c = true) : c.toNat < 128 := by
  have halpha : c.isAlpha = (c.isUpper || c.isLower) := rfl
  have hupper : c.isUpper = decide (c.val ≥ 'A'.val ∧ c.val ≤ 'Z'.val) := rfl
  have hlower : c.isLower = (decide (c.val ≥ 'a'.val) && decide (c.val ≤ 'z'.val)) := rfl
  have hdigit : c.isDigit = (decide (c.val ≥ '0'.val) && decide (c.val ≤ '9'.val)) := rfl
  have halnum : c.isAlphanum = (c.isAlpha || c.isDigit) := rfl
  rw [isUrlChar, halnum, halpha, hupper, hlower, hdigit] at h
  simp only [Bool.or_eq_true, Bool.and_eq_true, decide_eq_true_eq, ge_iff_le,
    UInt32.le_iff_toNat_le] at h
  rcases h with ((((h | h) | h) | rfl) | rfl)
  · exact Nat.lt_of_le_of_lt h.2 (by decide)
  · exact Nat.lt_of_le_of_lt h.2 (by decide)
  · exact Nat.lt_of_le_of_lt h.2 (by decide)
  · decide
  · decide

theorem length_ofSextets : ∀ ns : List ℕ, (ofSextets ns).length = ns.length*3/4
  | _ :: _ :: _ :: _ :: r => by
    have ih := length_ofSextets r
    simp only [ofSextets, List.length_cons, ih]
    omega
  | [_,_,_] => by simp [ofSextets]
  | [_,_] => by simp [ofSextets]
  | [_] => by simp [ofSextets]
  | [] => rfl

theorem length_filterMap_url {cs : List Char} (h : ∀ c ∈ cs, isUrlChar c = true) :
    ((cs.map ofUrlChar).filterMap sextet).length = cs.length := by
  have hall : ∀ k, k < 128 → isUrlChar (Char.ofNat k) = true →
      (sextet (ofUrlChar (Char.ofNat k))).isSome = true := by
    decide +kernel
  have hsome : ∀ c, isUrlChar c = true → (sextet (ofUrlChar c)).isSome = true := by
    intro c hc
    have hk := hall c.toNat (lt_of_isUrlChar hc)
    rw [Char.ofNat_toNat] at hk
    exact hk hc
  induction cs with
  | nil => rfl
  | cons c cs ih =>
    obtain ⟨n,hn⟩ := Option.isSome_iff_exists.mp (hsome c (h c List.mem_cons_self))
    have ih := ih (fun d hd => h d (List.mem_cons_of_mem _ hd))
    rw [List.map_cons, List.filterMap_cons, hn, List.length_cons, ih, List.length_cons]

end Iotistica.ByteText
