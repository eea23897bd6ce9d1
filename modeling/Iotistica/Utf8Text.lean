import Mathlib.Data.List.Basic
import Mathlib.Tactic.Ring

/-!
# UTF-8 text

The encoder is the core library's. The decoder takes one byte at a time and
never fails: what is no character becomes a replacement character, one for
each maximal part of a character and one for any other byte. Decoding two
pieces apart is decoding them together unless the cut goes through a
character, and then it gives more characters outside ASCII.
-/

set_option autoImplicit false

namespace Iotistica.Utf8Text

def encode (cs : List Char) : List UInt8 := cs.flatMap String.utf8EncodeChar

def replacement : Char := '\uFFFD'

/-- A character of which bytes are still owed: how many after the next one,
the bounds of the next one, and the bits so far. Whatever they will be, the
character is a scalar value outside ASCII. -/
structure Owed where
  more : ℕ
  low : ℕ
  high : ℕ
  bits : ℕ
  tail : 0x80 ≤ low ∧ high ≤ 0xBF
  sound : (0x80 ≤ (bits*64+(low-0x80))*64^more ∧ (bits*64+(high-0x80)+1)*64^more ≤ 0xD800) ∨
    (0xE000 ≤ (bits*64+(low-0x80))*64^more ∧ (bits*64+(high-0x80)+1)*64^more ≤ 0x110000)

def first (b : UInt8) : List Char × Option Owed :=
  if b.toNat < 0x80 then ([Char.ofNat b.toNat],none)
  else if h : 0xC2 ≤ b.toNat ∧ b.toNat ≤ 0xDF then
    ([],some ⟨0,0x80,0xBF,b.toNat-0xC0,by omega,by omega⟩)
  else if b.toNat = 0xE0 then ([],some ⟨1,0xA0,0xBF,0,by omega,by omega⟩)
  else if b.toNat = 0xED then ([],some ⟨1,0x80,0x9F,13,by omega,by omega⟩)
  else if h : 0xE1 ≤ b.toNat ∧ b.toNat ≤ 0xEC then
    ([],some ⟨1,0x80,0xBF,b.toNat-0xE0,by omega,by omega⟩)
  else if h : 0xEE ≤ b.toNat ∧ b.toNat ≤ 0xEF then
    ([],some ⟨1,0x80,0xBF,b.toNat-0xE0,by omega,by omega⟩)
  else if b.toNat = 0xF0 then ([],some ⟨2,0x90,0xBF,0,by omega,by omega⟩)
  else if h : 0xF1 ≤ b.toNat ∧ b.toNat ≤ 0xF3 then
    ([],some ⟨2,0x80,0xBF,b.toNat-0xF0,by omega,by omega⟩)
  else if b.toNat = 0xF4 then ([],some ⟨2,0x80,0x8F,4,by omega,by omega⟩)
  else ([replacement],none)

def takes (o : Owed) (b : UInt8) : Bool := decide (o.low ≤ b.toNat) && decide (b.toNat ≤ o.high)

theorem takes_iff (o : Owed) (b : UInt8) :
    takes o b = true ↔ o.low ≤ b.toNat ∧ b.toNat ≤ o.high := by
  simp [takes]

theorem sound_next {more low high bits n : ℕ} (htail : 0x80 ≤ low ∧ high ≤ 0xBF)
    (hsound : (0x80 ≤ (bits*64+(low-0x80))*64^(more+1) ∧
        (bits*64+(high-0x80)+1)*64^(more+1) ≤ 0xD800) ∨
      (0xE000 ≤ (bits*64+(low-0x80))*64^(more+1) ∧
        (bits*64+(high-0x80)+1)*64^(more+1) ≤ 0x110000))
    (hn : low ≤ n ∧ n ≤ high) :
    (0x80 ≤ ((bits*64+(n-0x80))*64+(0x80-0x80))*64^more ∧
        ((bits*64+(n-0x80))*64+(0xBF-0x80)+1)*64^more ≤ 0xD800) ∨
      (0xE000 ≤ ((bits*64+(n-0x80))*64+(0x80-0x80))*64^more ∧
        ((bits*64+(n-0x80))*64+(0xBF-0x80)+1)*64^more ≤ 0x110000) := by
  have hlow : (bits*64+(low-0x80))*64^(more+1) ≤ (bits*64+(n-0x80))*64^(more+1) :=
    Nat.mul_le_mul_right _ (by omega)
  have hhigh : (bits*64+(n-0x80)+1)*64^(more+1) ≤ (bits*64+(high-0x80)+1)*64^(more+1) :=
    Nat.mul_le_mul_right _ (by omega)
  have hleft : ((bits*64+(n-0x80))*64+(0x80-0x80))*64^more = (bits*64+(n-0x80))*64^(more+1) := by
    ring
  have hright : ((bits*64+(n-0x80))*64+(0xBF-0x80)+1)*64^more =
      (bits*64+(n-0x80)+1)*64^(more+1) := by
    ring
  rw [hleft, hright]
  omega

def next : (o : Owed) → (b : UInt8) → takes o b = true → List Char × Option Owed
  | ⟨0,_,_,bits,_,_⟩, b, _ => ([Char.ofNat (bits*64+(b.toNat-0x80))],none)
  | ⟨more+1,_,_,bits,tail,sound⟩, b, h =>
    ([],some ⟨more,0x80,0xBF,bits*64+(b.toNat-0x80),by omega,
      sound_next tail sound ((takes_iff _ b).mp h)⟩)

def step : Option Owed → UInt8 → List Char × Option Owed
  | none, b => first b
  | some o, b =>
    if h : takes o b = true then next o b h
    else (replacement :: (first b).1,(first b).2)

def decodeFrom : Option Owed → List UInt8 → List Char
  | none, [] => []
  | some _, [] => [replacement]
  | o, b::bs => (step o b).1++decodeFrom (step o b).2 bs

def decode (bs : List UInt8) : List Char := decodeFrom none bs

def owedAfter : Option Owed → List UInt8 → Option Owed
  | o, [] => o
  | o, b::bs => owedAfter (step o b).2 bs

/-- The cut between `a` and `b` goes through a character. -/
def cuts (a b : List UInt8) : Bool :=
  match owedAfter none a, b with
  | some o, x::_ => takes o x
  | _, _ => false

example : decode [0xC3,0xA9,0x3B] = ['é',';'] := by decide

example : decode [0xC3]++decode [0xA9] = [replacement,replacement] := by decide

theorem toNat_valid {n : ℕ} (h : n.isValidChar) : (Char.ofNat n).toNat = n := by
  rw [Char.ofNat, dif_pos h]
  rfl

theorem ofNat_foreign {n : ℕ} (h : (0x80 ≤ n ∧ n < 0xD800) ∨ (0xE000 ≤ n ∧ n < 0x110000)) :
    (Char.ofNat n).toNat = n := by
  refine toNat_valid ?_
  rcases h with ⟨_,hn⟩ | ⟨hl,hn⟩
  · exact Or.inl hn
  · exact Or.inr ⟨by omega,hn⟩

def foreign (cs : List Char) : ℕ := cs.countP (fun c => 0x80 ≤ c.toNat)

@[simp] theorem foreign_nil : foreign [] = 0 := rfl

@[simp] theorem foreign_append (cs ds : List Char) :
    foreign (cs++ds) = foreign cs+foreign ds := List.countP_append

theorem foreign_cons {c : Char} (h : 0x80 ≤ c.toNat) (cs : List Char) :
    foreign (c::cs) = foreign cs+1 := by
  rw [foreign, List.countP_cons_of_pos (by simpa using h)]
  rfl

theorem replacement_foreign : 0x80 ≤ replacement.toNat := by decide

theorem first_tail {b : UInt8} (h : 0x80 ≤ b.toNat ∧ b.toNat ≤ 0xBF) :
    first b = ([replacement],none) := by
  unfold first
  simp only [show ¬b.toNat < 0x80 by omega, show ¬(0xC2 ≤ b.toNat ∧ b.toNat ≤ 0xDF) by omega,
    show ¬b.toNat = 0xE0 by omega, show ¬b.toNat = 0xED by omega,
    show ¬(0xE1 ≤ b.toNat ∧ b.toNat ≤ 0xEC) by omega,
    show ¬(0xEE ≤ b.toNat ∧ b.toNat ≤ 0xEF) by omega, show ¬b.toNat = 0xF0 by omega,
    show ¬(0xF1 ≤ b.toNat ∧ b.toNat ≤ 0xF3) by omega, show ¬b.toNat = 0xF4 by omega, if_false,
    dif_neg, not_false_eq_true]

theorem next_cases : ∀ (o : Owed) (b : UInt8) (h : takes o b = true),
    (∃ c : Char, 0x80 ≤ c.toNat ∧ next o b h = ([c],none)) ∨ ∃ o', next o b h = ([],some o')
  | ⟨0,low,high,bits,tail,sound⟩, b, h => by
    have hb := (takes_iff _ b).mp h
    simp only [pow_zero, mul_one] at sound hb
    have hof := ofNat_foreign (n := bits*64+(b.toNat-0x80)) (by omega)
    exact Or.inl ⟨_,by omega,rfl⟩
  | ⟨_+1,_,_,_,_,_⟩, _, _ => Or.inr ⟨_,rfl⟩

theorem decodeFrom_cons (o : Option Owed) (b : UInt8) (bs : List UInt8) :
    decodeFrom o (b::bs) = (step o b).1++decodeFrom (step o b).2 bs := by
  cases o <;> rfl

theorem decode_tail {b : UInt8} (h : 0x80 ≤ b.toNat ∧ b.toNat ≤ 0xBF) (bs : List UInt8) :
    decode (b::bs) = replacement :: decode bs := by
  rw [decode, decodeFrom_cons, step, first_tail h]
  rfl

theorem step_taken {o : Owed} {b : UInt8} (h : takes o b = true) :
    step (some o) b = next o b h := dif_pos h

theorem step_refused {o : Owed} {b : UInt8} (h : takes o b = false) :
    step (some o) b = (replacement :: (first b).1,(first b).2) := dif_neg (by simp [h])

theorem decodeFrom_refused {o : Owed} {b : UInt8} (h : takes o b = false) (bs : List UInt8) :
    decodeFrom (some o) (b::bs) = replacement :: decode (b::bs) := by
  rw [decode, decodeFrom_cons, decodeFrom_cons, step_refused h]
  rfl

/-- Forgetting what is owed loses no character outside ASCII, and gains one
if the next byte was owed. -/
theorem foreign_owed (o : Owed) (bs : List UInt8) :
    foreign (decodeFrom (some o) bs) ≤ foreign (decode bs)+1 ∧
      ∀ b rest, bs = b::rest → takes o b = true →
        foreign (decodeFrom (some o) bs) < foreign (decode bs)+1 := by
  induction bs generalizing o with
  | nil =>
    refine ⟨Nat.le_of_eq ?_,fun b rest h => absurd h (List.cons_ne_nil b rest).symm⟩
    exact foreign_cons replacement_foreign []
  | cons b bs ih =>
    cases hb : takes o b with
    | false =>
      rw [decodeFrom_refused hb, foreign_cons replacement_foreign]
      refine ⟨Nat.le_refl _,fun x rest h htake => ?_⟩
      obtain ⟨rfl,-⟩ := List.cons.inj h
      rw [hb] at htake
      exact absurd htake Bool.false_ne_true
    | true =>
      have htail := o.tail
      have hbounds := (takes_iff o b).mp hb
      have hless : foreign (decodeFrom (some o) (b::bs)) < foreign (decode (b::bs))+1 := by
        rw [decode_tail (by omega), foreign_cons replacement_foreign, decodeFrom_cons,
          step_taken hb, foreign_append]
        rcases next_cases o b hb with ⟨c,hc,hnext⟩ | ⟨o',hnext⟩
        · rw [hnext, foreign_cons hc, foreign_nil, ← decode]
          omega
        · have hrest := (ih o').1
          rw [hnext, foreign_nil]
          dsimp only
          omega
      exact ⟨Nat.le_of_lt hless,fun _ _ _ _ => hless⟩

def emitted : Option Owed → List UInt8 → List Char
  | _, [] => []
  | o, b::bs => (step o b).1++emitted (step o b).2 bs

theorem decodeFrom_append (o : Option Owed) (a b : List UInt8) :
    decodeFrom o (a++b) = emitted o a++decodeFrom (owedAfter o a) b := by
  induction a generalizing o with
  | nil => rfl
  | cons x a ih =>
    rw [List.cons_append, decodeFrom_cons, ih, emitted, owedAfter, List.append_assoc]

theorem decode_eq_emitted (a : List UInt8) :
    decode a = emitted none a++decodeFrom (owedAfter none a) [] := by
  have h := decodeFrom_append none a []
  rwa [List.append_nil] at h

theorem decode_append {a b : List UInt8} (h : cuts a b = false) :
    decode (a++b) = decode a++decode b := by
  rw [decode_eq_emitted a, decode, decodeFrom_append, List.append_assoc]
  congr 1
  unfold cuts at h
  cases hst : owedAfter none a with
  | none => rfl
  | some o =>
    cases b with
    | nil => rfl
    | cons x b =>
      rw [hst] at h
      exact decodeFrom_refused h b

theorem foreign_cut {a b : List UInt8} (h : cuts a b = true) :
    foreign (decode (a++b)) < foreign (decode a)+foreign (decode b) := by
  rw [decode_eq_emitted a, decode, decodeFrom_append, foreign_append, foreign_append]
  unfold cuts at h
  cases hst : owedAfter none a with
  | none =>
    rw [hst] at h
    exact absurd h Bool.false_ne_true
  | some o =>
    cases b with
    | nil =>
      rw [hst] at h
      exact absurd h Bool.false_ne_true
    | cons x b =>
      rw [hst] at h
      have hless := (foreign_owed o (x::b)).2 x b rfl h
      have hone : foreign (decodeFrom (some o) []) = 1 := foreign_cons replacement_foreign []
      omega

def uncut : List (List UInt8) → Bool
  | [] => true
  | a::rest => !cuts a rest.flatten && uncut rest

theorem uncut_cons (a : List UInt8) (rest : List (List UInt8)) :
    uncut (a::rest) = true ↔ cuts a rest.flatten = false ∧ uncut rest = true := by
  simp [uncut]

theorem decode_pieces {pieces : List (List UInt8)} (h : uncut pieces = true) :
    pieces.flatMap decode = decode pieces.flatten := by
  induction pieces with
  | nil => rfl
  | cons a rest ih =>
    obtain ⟨ha,hrest⟩ := (uncut_cons a rest).mp h
    rw [List.flatMap_cons, List.flatten_cons, decode_append ha, ih hrest]

theorem foreign_pieces (pieces : List (List UInt8)) :
    foreign (decode pieces.flatten) ≤ foreign (pieces.flatMap decode) ∧
      (foreign (decode pieces.flatten) = foreign (pieces.flatMap decode) →
        uncut pieces = true) := by
  induction pieces with
  | nil => exact ⟨Nat.le_refl _,fun _ => rfl⟩
  | cons a rest ih =>
    rw [List.flatMap_cons, List.flatten_cons, foreign_append]
    cases hcut : cuts a rest.flatten with
    | false =>
      rw [decode_append hcut, foreign_append]
      refine ⟨Nat.add_le_add_left ih.1 _,fun h => (uncut_cons a rest).mpr ⟨hcut,ih.2 ?_⟩⟩
      omega
    | true =>
      have hless := foreign_cut hcut
      have hle := ih.1
      exact ⟨by omega,fun h => by omega⟩

theorem uncut_iff (pieces : List (List UInt8)) :
    uncut pieces = true ↔ pieces.flatMap decode = decode pieces.flatten := by
  constructor
  · exact decode_pieces
  · intro h
    exact (foreign_pieces pieces).2 (by rw [h])

theorem step_first {b : UInt8} : step none b = first b := rfl

theorem first_ascii {b : UInt8} (h : b.toNat < 0x80) : first b = ([Char.ofNat b.toNat],none) :=
  if_pos h

theorem decode_ascii {b : UInt8} (h : b.toNat < 0x80) (bs : List UInt8) :
    decode (b::bs) = Char.ofNat b.toNat :: decode bs := by
  rw [decode, decodeFrom_cons, step_first, first_ascii h]
  rfl

theorem first_two {b : UInt8} (h : 0xC2 ≤ b.toNat ∧ b.toNat ≤ 0xDF) :
    ∃ o : Owed, first b = ([],some o) ∧ o.more = 0 ∧ o.bits = b.toNat-0xC0 ∧
      o.low = 0x80 ∧ o.high = 0xBF := by
  refine ⟨⟨0,0x80,0xBF,b.toNat-0xC0,by omega,by omega⟩,?_,rfl,rfl,rfl,rfl⟩
  unfold first
  rw [if_neg (by omega), dif_pos h]

theorem first_three {b : UInt8} (h : 0xE0 ≤ b.toNat ∧ b.toNat ≤ 0xEF) :
    ∃ o : Owed, first b = ([],some o) ∧ o.more = 1 ∧ o.bits = b.toNat-0xE0 ∧
      o.low = (if b.toNat = 0xE0 then 0xA0 else 0x80) ∧
      o.high = if b.toNat = 0xED then 0x9F else 0xBF := by
  unfold first
  rw [if_neg (by omega), dif_neg (by omega)]
  split
  · next he => exact ⟨_,rfl,rfl,by dsimp only; omega,rfl,by rw [if_neg (by omega)]⟩
  · next hne =>
    split
    · next he => exact ⟨_,rfl,rfl,by dsimp only; omega,rfl,rfl⟩
    · next hnd =>
      split
      · exact ⟨_,rfl,rfl,rfl,rfl,rfl⟩
      · rw [dif_pos (by omega)]
        exact ⟨_,rfl,rfl,rfl,rfl,rfl⟩

theorem first_four {b : UInt8} (h : 0xF0 ≤ b.toNat ∧ b.toNat ≤ 0xF4) :
    ∃ o : Owed, first b = ([],some o) ∧ o.more = 2 ∧ o.bits = b.toNat-0xF0 ∧
      o.low = (if b.toNat = 0xF0 then 0x90 else 0x80) ∧
      o.high = if b.toNat = 0xF4 then 0x8F else 0xBF := by
  unfold first
  rw [if_neg (by omega), dif_neg (by omega), if_neg (by omega), if_neg (by omega),
    dif_neg (by omega), dif_neg (by omega)]
  split
  · next he => exact ⟨_,rfl,rfl,by dsimp only; omega,rfl,by rw [if_neg (by omega)]⟩
  · next hne =>
    split
    · next hr => exact ⟨_,rfl,rfl,rfl,rfl,by rw [if_neg (by omega)]⟩
    · next hr =>
      rw [if_pos (show b.toNat = 0xF4 by omega), if_pos (show b.toNat = 0xF4 by omega)]
      exact ⟨_,rfl,rfl,by dsimp only; omega,rfl,rfl⟩

theorem decodeFrom_last : ∀ (o : Owed) (b : UInt8) (bs : List UInt8), o.more = 0 →
    takes o b = true →
    decodeFrom (some o) (b::bs) = Char.ofNat (o.bits*64+(b.toNat-0x80)) :: decode bs
  | ⟨0,_,_,_,_,_⟩, b, bs, _, h => by
    rw [decodeFrom_cons, step_taken h]
    rfl

theorem next_more (o : Owed) (b : UInt8) (k : ℕ) (h : takes o b = true) (hk : o.more = k+1) :
    ∃ o' : Owed, next o b h = ([],some o') ∧ o'.more = k ∧
      o'.bits = o.bits*64+(b.toNat-0x80) ∧ o'.low = 0x80 ∧ o'.high = 0xBF := by
  obtain ⟨more,low,high,bits,tail,sound⟩ := o
  cases more with
  | zero => exact absurd hk (Nat.succ_ne_zero k).symm
  | succ more => exact ⟨_,rfl,Nat.succ.inj hk,rfl,rfl,rfl⟩

theorem decodeFrom_more {o : Owed} {b : UInt8} (bs : List UInt8) {k : ℕ} (hk : o.more = k+1)
    (h : takes o b = true) : ∃ o' : Owed, decodeFrom (some o) (b::bs) = decodeFrom (some o') bs ∧
      o'.more = k ∧ o'.bits = o.bits*64+(b.toNat-0x80) ∧ o'.low = 0x80 ∧ o'.high = 0xBF := by
  obtain ⟨o',hnext,hrest⟩ := next_more o b k h hk
  refine ⟨o',?_,hrest⟩
  rw [decodeFrom_cons, step_taken h, hnext]
  rfl

theorem toNat_ofNat {n : ℕ} (h : n < 256) : (UInt8.ofNat n).toNat = n := by
  simp [Nat.mod_eq_of_lt h]

theorem decode_two {v : ℕ} (h : 0x80 ≤ v ∧ v < 0x800) (bs : List UInt8) :
    decode (UInt8.ofNat (v/64%32+0xC0) :: UInt8.ofNat (v%64+0x80) :: bs) =
      Char.ofNat v :: decode bs := by
  have hb : (UInt8.ofNat (v/64%32+0xC0)).toNat = v/64%32+0xC0 := toNat_ofNat (by omega)
  have hx : (UInt8.ofNat (v%64+0x80)).toNat = v%64+0x80 := toNat_ofNat (by omega)
  obtain ⟨o,hfirst,hmore,hbits,hlow,hhigh⟩ := first_two (b := UInt8.ofNat (v/64%32+0xC0))
    (by omega)
  rw [decode, decodeFrom_cons, step_first, hfirst]
  refine (decodeFrom_last o _ _ hmore ((takes_iff _ _).mpr (by omega))).trans ?_
  rw [hbits, hb, hx, show (v/64%32+0xC0-0xC0)*64+(v%64+0x80-0x80) = v by omega]

theorem decode_three {v : ℕ} (h : 0x800 ≤ v ∧ v < 0x10000) (hv : v < 0xD800 ∨ 0xDFFF < v)
    (bs : List UInt8) :
    decode (UInt8.ofNat (v/4096%16+0xE0) :: UInt8.ofNat (v/64%64+0x80) ::
      UInt8.ofNat (v%64+0x80) :: bs) = Char.ofNat v :: decode bs := by
  have hb : (UInt8.ofNat (v/4096%16+0xE0)).toNat = v/4096%16+0xE0 := toNat_ofNat (by omega)
  have hx : (UInt8.ofNat (v/64%64+0x80)).toNat = v/64%64+0x80 := toNat_ofNat (by omega)
  have hy : (UInt8.ofNat (v%64+0x80)).toNat = v%64+0x80 := toNat_ofNat (by omega)
  obtain ⟨o,hfirst,hmore,hbits,hlow,hhigh⟩ := first_three (b := UInt8.ofNat (v/4096%16+0xE0))
    (by omega)
  rw [hb] at hbits hlow hhigh
  rw [decode, decodeFrom_cons, step_first, hfirst]
  have htake : takes o (UInt8.ofNat (v/64%64+0x80)) = true := by
    rw [takes_iff, hx, hlow, hhigh]
    split <;> split <;> omega
  obtain ⟨o',hfrom,hmore',hbits',hlow',hhigh'⟩ := decodeFrom_more
    (UInt8.ofNat (v%64+0x80)::bs) hmore htake
  refine hfrom.trans ((decodeFrom_last o' _ _ hmore' ((takes_iff _ _).mpr (by omega))).trans ?_)
  rw [hbits', hbits, hx, hy, show ((v/4096%16+0xE0-0xE0)*64+(v/64%64+0x80-0x80))*64+
    (v%64+0x80-0x80) = v by omega]

theorem decode_four {v : ℕ} (h : 0x10000 ≤ v ∧ v < 0x110000) (bs : List UInt8) :
    decode (UInt8.ofNat (v/262144%8+0xF0) :: UInt8.ofNat (v/4096%64+0x80) ::
      UInt8.ofNat (v/64%64+0x80) :: UInt8.ofNat (v%64+0x80) :: bs) =
        Char.ofNat v :: decode bs := by
  have hb : (UInt8.ofNat (v/262144%8+0xF0)).toNat = v/262144%8+0xF0 := toNat_ofNat (by omega)
  have hx : (UInt8.ofNat (v/4096%64+0x80)).toNat = v/4096%64+0x80 := toNat_ofNat (by omega)
  have hy : (UInt8.ofNat (v/64%64+0x80)).toNat = v/64%64+0x80 := toNat_ofNat (by omega)
  have hz : (UInt8.ofNat (v%64+0x80)).toNat = v%64+0x80 := toNat_ofNat (by omega)
  obtain ⟨o,hfirst,hmore,hbits,hlow,hhigh⟩ := first_four (b := UInt8.ofNat (v/262144%8+0xF0))
    (by omega)
  rw [hb] at hbits hlow hhigh
  rw [decode, decodeFrom_cons, step_first, hfirst]
  have htake : takes o (UInt8.ofNat (v/4096%64+0x80)) = true := by
    rw [takes_iff, hx, hlow, hhigh]
    split <;> split <;> omega
  obtain ⟨o',hfrom,hmore',hbits',hlow',hhigh'⟩ := decodeFrom_more
    (UInt8.ofNat (v/64%64+0x80) :: UInt8.ofNat (v%64+0x80) :: bs) hmore htake
  obtain ⟨o'',hfrom',hmore'',hbits'',hlow'',hhigh''⟩ := decodeFrom_more (b := UInt8.ofNat (v/64%64+0x80))
    (UInt8.ofNat (v%64+0x80) :: bs) hmore' ((takes_iff _ _).mpr (by omega))
  refine hfrom.trans (hfrom'.trans
    ((decodeFrom_last o'' _ _ hmore'' ((takes_iff _ _).mpr (by omega))).trans ?_))
  rw [hbits'', hbits', hbits, hx, hy, hz, show (((v/262144%8+0xF0-0xF0)*64+
    (v/4096%64+0x80-0x80))*64+(v/64%64+0x80-0x80))*64+(v%64+0x80-0x80) = v by omega]

theorem decode_encodeChar (c : Char) (bs : List UInt8) :
    decode (String.utf8EncodeChar c++bs) = c :: decode bs := by
  have hvalid : c.val.toNat < 0xD800 ∨ (0xDFFF < c.val.toNat ∧ c.val.toNat < 0x110000) := c.valid
  have hof : Char.ofNat c.val.toNat = c := Char.ofNat_toNat c
  unfold String.utf8EncodeChar
  dsimp only
  split
  · rw [List.singleton_append, decode_ascii (by rw [toNat_ofNat (by omega)]; omega),
      toNat_ofNat (by omega), hof]
  · split
    · exact (decode_two (by omega) bs).trans (by rw [hof])
    · split
      · exact (decode_three (by omega) (by omega) bs).trans (by rw [hof])
      · exact (decode_four (by omega) bs).trans (by rw [hof])

theorem encode_append (cs ds : List Char) : encode (cs++ds) = encode cs++encode ds :=
  List.flatMap_append

theorem decode_encode_append (cs : List Char) (bs : List UInt8) :
    decode (encode cs++bs) = cs++decode bs := by
  induction cs with
  | nil => rfl
  | cons c cs ih =>
    rw [encode, List.flatMap_cons, List.append_assoc, decode_encodeChar, ← encode, ih]
    rfl

theorem decode_encode (cs : List Char) : decode (encode cs) = cs := by
  have h := decode_encode_append cs []
  rw [List.append_nil] at h
  exact h.trans (List.append_nil cs)

def WellFormed (bs : List UInt8) : Prop := encode (decode bs) = bs

instance (bs : List UInt8) : Decidable (WellFormed bs) :=
  inferInstanceAs (Decidable (encode (decode bs) = bs))

theorem wellFormed_encode (cs : List Char) : WellFormed (encode cs) := by
  rw [WellFormed, decode_encode]

theorem encodeChar_ascii {c : Char} (h : c.toNat < 0x80) :
    String.utf8EncodeChar c = [UInt8.ofNat c.toNat] := by
  unfold String.utf8EncodeChar
  exact if_pos (Nat.le_of_lt_succ h)

theorem encodeChar_foreign {c : Char} (h : 0x80 ≤ c.toNat) {b : UInt8}
    (hb : b ∈ String.utf8EncodeChar c) : 0x80 ≤ b.toNat := by
  have hmem : ∀ n : ℕ, n < 0x40 → ∀ k, k+n < 256 → 0x80 ≤ k → 0x80 ≤ (UInt8.ofNat (n+k)).toNat :=
    fun n _ k hlt hk => by
      rw [toNat_ofNat (by omega)]
      omega
  unfold String.utf8EncodeChar at hb
  dsimp only at hb
  rw [if_neg (show ¬c.val.toNat ≤ 0x7f from Nat.not_le.mpr h)] at hb
  split at hb
  · rcases List.mem_pair.mp hb with rfl | rfl <;> exact hmem _ (by omega) _ (by omega) (by omega)
  · split at hb
    · simp only [List.mem_cons, List.not_mem_nil, or_false] at hb
      rcases hb with rfl | rfl | rfl <;> exact hmem _ (by omega) _ (by omega) (by omega)
    · simp only [List.mem_cons, List.not_mem_nil, or_false] at hb
      rcases hb with rfl | rfl | rfl | rfl <;> exact hmem _ (by omega) _ (by omega) (by omega)

theorem cuts_ascii {b : UInt8} (h : b.toNat < 0x80) (a bs : List UInt8) :
    cuts a (b::bs) = false := by
  unfold cuts
  split
  · next o x y ho hx =>
    obtain ⟨rfl,-⟩ := List.cons.inj hx
    have htail := o.tail
    rw [← Bool.not_eq_true, takes_iff]
    omega
  · rfl

theorem decode_append_ascii {b : UInt8} (h : b.toNat < 0x80) (a bs : List UInt8) :
    decode (a++b::bs) = decode a++Char.ofNat b.toNat :: decode bs := by
  rw [decode_append (cuts_ascii h a bs), decode_ascii h]

theorem first_cases (b : UInt8) :
    first b = ([Char.ofNat b.toNat],none) ∧ b.toNat < 0x80 ∨ first b = ([replacement],none) ∨
      ∃ o, first b = ([],some o) := by
  unfold first
  split
  · next h => exact Or.inl ⟨rfl,h⟩
  · refine Or.inr ?_
    split_ifs
    all_goals first | exact Or.inr ⟨_,rfl⟩ | exact Or.inl rfl

theorem ofNat_ascii {n : ℕ} (h : n < 0x80) : (Char.ofNat n).toNat = n :=
  toNat_valid (Or.inl (by omega))

theorem mem_first {b : UInt8} {c : Char} (h : c ∈ (first b).1) (hc : c.toNat < 0x80) :
    c.toNat = b.toNat := by
  rcases first_cases b with ⟨hf,hb⟩ | hf | ⟨o,hf⟩
  · rw [hf, List.mem_singleton] at h
    rw [h, ofNat_ascii hb]
  · rw [hf, List.mem_singleton] at h
    rw [h] at hc
    exact absurd hc (Nat.not_lt.mpr replacement_foreign)
  · rw [hf] at h
    cases h

theorem mem_step {o : Option Owed} {b : UInt8} {c : Char} (h : c ∈ (step o b).1)
    (hc : c.toNat < 0x80) : c.toNat = b.toNat := by
  cases o with
  | none => exact mem_first h hc
  | some o =>
    cases hb : takes o b with
    | false =>
      rw [step_refused hb] at h
      rcases List.mem_cons.mp h with rfl | h
      · exact absurd hc (Nat.not_lt.mpr replacement_foreign)
      · exact mem_first h hc
    | true =>
      rw [step_taken hb] at h
      rcases next_cases o b hb with ⟨d,hd,hnext⟩ | ⟨o',hnext⟩
      · rw [hnext, List.mem_singleton] at h
        rw [h] at hc
        exact absurd hc (Nat.not_lt.mpr hd)
      · rw [hnext] at h
        cases h

theorem mem_decodeFrom {o : Option Owed} {bs : List UInt8} {c : Char}
    (h : c ∈ decodeFrom o bs) (hc : c.toNat < 0x80) : ∃ b ∈ bs, b.toNat = c.toNat := by
  induction bs generalizing o with
  | nil =>
    cases o with
    | none => cases h
    | some o =>
      obtain rfl := List.mem_singleton.mp h
      exact absurd hc (Nat.not_lt.mpr replacement_foreign)
  | cons b bs ih =>
    rw [decodeFrom_cons] at h
    rcases List.mem_append.mp h with h | h
    · exact ⟨b,List.mem_cons_self,(mem_step h hc).symm⟩
    · obtain ⟨x,hx,heq⟩ := ih h
      exact ⟨x,List.mem_cons_of_mem b hx,heq⟩

theorem mem_decodeFrom_of_ascii {o : Option Owed} {bs : List UInt8} {b : UInt8} (h : b ∈ bs)
    (hb : b.toNat < 0x80) : Char.ofNat b.toNat ∈ decodeFrom o bs := by
  induction bs generalizing o with
  | nil => cases h
  | cons x bs ih =>
    rw [decodeFrom_cons]
    rcases List.mem_cons.mp h with rfl | h
    · refine List.mem_append_left _ ?_
      cases o with
      | none => rw [step_first, first_ascii hb]; exact List.mem_singleton_self _
      | some o =>
        have htakes : takes o b = false := by
          have htail := o.tail
          rw [Bool.eq_false_iff, ne_eq, takes_iff]
          omega
        rw [step_refused htakes, first_ascii hb]
        exact List.mem_cons_of_mem _ (List.mem_singleton_self _)
    · exact List.mem_append_right _ (ih h)

theorem decodeFrom_owed_ne_nil (o : Owed) (bs : List UInt8) : decodeFrom (some o) bs ≠ [] := by
  induction bs generalizing o with
  | nil => exact List.cons_ne_nil _ _
  | cons b bs ih =>
    cases hb : takes o b with
    | false =>
      rw [decodeFrom_refused hb]
      exact List.cons_ne_nil _ _
    | true =>
      rw [decodeFrom_cons, step_taken hb]
      rcases next_cases o b hb with ⟨c,_,hnext⟩ | ⟨o',hnext⟩
      · rw [hnext]
        exact List.cons_ne_nil _ _
      · rw [hnext]
        exact ih o'

theorem decode_eq_nil {bs : List UInt8} (h : decode bs = []) : bs = [] := by
  cases bs with
  | nil => rfl
  | cons b bs =>
    rw [decode, decodeFrom_cons, step_first] at h
    obtain ⟨hfirst,hrest⟩ := List.append_eq_nil_iff.mp h
    rcases first_cases b with ⟨hf,-⟩ | hf | ⟨o,hf⟩
    · rw [hf] at hfirst
      exact absurd hfirst (List.cons_ne_nil _ _)
    · rw [hf] at hfirst
      exact absurd hfirst (List.cons_ne_nil _ _)
    · rw [hf] at hrest
      exact absurd hrest (decodeFrom_owed_ne_nil o bs)

theorem cuts_append {a b : List UInt8} (hne : b ≠ []) (bs : List UInt8) :
    cuts a (b++bs) = cuts a b := by
  cases b with
  | nil => exact absurd rfl hne
  | cons x b =>
    unfold cuts
    cases owedAfter none a <;> rfl

theorem wellFormed_of_append {a rest : List UInt8} (hcut : cuts a rest = false)
    (h : encode (decode a++decode rest) = a++rest) : WellFormed a := by
  rw [encode_append] at h
  rcases List.append_eq_append_iff.mp h with ⟨b,ha,_⟩ | ⟨b,ha,hrest⟩
  · have hb : decode b = [] := by
      have hdecode := congrArg decode ha
      rw [decode_encode_append] at hdecode
      exact List.self_eq_append_right.mp hdecode
    rw [decode_eq_nil hb, List.append_nil] at ha
    exact ha.symm
  · by_cases hne : b = []
    · rw [hne, List.append_nil] at ha
      exact ha
    · rw [hrest, cuts_append hne] at hcut
      have hdecode := congrArg decode ha
      rw [decode_encode, decode_append hcut] at hdecode
      exact absurd (decode_eq_nil (List.self_eq_append_right.mp hdecode)) hne

theorem encode_pieces_iff (pieces : List (List UInt8)) :
    encode (pieces.flatMap decode) = pieces.flatten ↔ ∀ p ∈ pieces, WellFormed p := by
  constructor
  · intro h
    have huncut : uncut pieces = true := by
      rw [uncut_iff, ← h, decode_encode]
    induction pieces with
    | nil => exact fun p hp => absurd hp List.not_mem_nil
    | cons a rest ih =>
      obtain ⟨hcut,hrest⟩ := (uncut_cons a rest).mp huncut
      rw [List.flatMap_cons, List.flatten_cons, decode_pieces hrest] at h
      have ha := wellFormed_of_append hcut h
      rw [encode_append, ha, ← decode_pieces hrest] at h
      intro p hp
      rcases List.mem_cons.mp hp with rfl | hp
      · exact ha
      · exact ih (List.append_cancel_left h) hrest p hp
  · intro h
    induction pieces with
    | nil => rfl
    | cons a rest ih =>
      have hrest := ih (fun p hp => h p (List.mem_cons_of_mem a hp))
      rw [List.flatMap_cons, encode_append, h a List.mem_cons_self, hrest, List.flatten_cons]

end Iotistica.Utf8Text
