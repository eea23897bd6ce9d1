import Iotistica.ModbusWrites
import Iotistica.ModbusBatchReads
import Mathlib.Tactic.Linarith
import Mathlib.Tactic.FieldSimp
import Mathlib.Tactic.Ring

/-!
# Reading back what was written

Packing and arranging undo each other in every byte order. A value of 16
bits goes out as one word whatever the count of its register, and is read
in the byte order unless the count is one.
-/

set_option autoImplicit false

namespace Iotistica.ModbusWrites
open Iotistica.Modbus

theorem buffer_arranged (r : Register) (data : List UInt16) :
    buffer r (arranged r data) = applyByteOrder data (bufferOrder r) r.count := by
  unfold buffer arranged applyByteOrder
  rw [List.flatMap_map]

theorem source_lt (order : ByteOrder) {count i : ℕ} (h : i < count) :
    source order count i < count := by
  cases order <;> simp only [source] <;> omega

theorem source_source (order : ByteOrder) {count i : ℕ} (h : i < count) :
    source order count (source order count i) = i := by
  cases order <;> simp only [source] <;> omega

theorem wordBytes_length (order : ByteOrder) (w : ℕ) : (wordBytes order w).length = 2 := by
  cases order <;> rfl

theorem flatMap_wordBytes (order : ByteOrder) (f : ℕ → ℕ) (count i : ℕ) :
    ((List.range count).flatMap (fun k => wordBytes order (f k)))[2*i]? =
      (if i < count then (wordBytes order (f i))[0]? else none) ∧
    ((List.range count).flatMap (fun k => wordBytes order (f k)))[2*i+1]? =
      (if i < count then (wordBytes order (f i))[1]? else none) := by
  have hlen : ∀ n, ((List.range n).flatMap (fun k => wordBytes order (f k))).length = 2*n := by
    intro n
    induction n with
    | zero => rfl
    | succ n ih =>
      rw [List.range_succ, List.flatMap_append, List.length_append, ih, List.flatMap_singleton,
        wordBytes_length]
      rfl
  induction count with
  | zero => simp
  | succ count ih =>
    rw [List.range_succ, List.flatMap_append, List.flatMap_singleton]
    rcases Nat.lt_trichotomy i count with hlt | rfl | hgt
    · rw [List.getElem?_append_left (by rw [hlen]; omega),
        List.getElem?_append_left (by rw [hlen]; omega), if_pos (by omega), if_pos (by omega)]
      rw [if_pos hlt, if_pos hlt] at ih
      exact ih
    · rw [List.getElem?_append_right (by rw [hlen]), List.getElem?_append_right (by rw [hlen]; omega),
        hlen, if_pos (by omega), if_pos (by omega), Nat.sub_self, Nat.add_sub_cancel_left]
      exact ⟨rfl,rfl⟩
    · have hw := wordBytes_length order (f count)
      rw [List.getElem?_append_right (by rw [hlen]; omega),
        List.getElem?_append_right (by rw [hlen]; omega), hlen, if_neg (by omega),
        if_neg (by omega), List.getElem?_eq_none (by omega), List.getElem?_eq_none (by omega)]
      exact ⟨rfl,rfl⟩

theorem bufferWord_of_bytes {order : ByteOrder} {buffer : List ℕ} {i w : ℕ}
    (h : buffer[2*i]? = (wordBytes order w)[0]? ∧ buffer[2*i+1]? = (wordBytes order w)[1]?) :
    bufferWord order buffer i = w := by
  have hw : w/256*256+w%256 = w := by omega
  unfold bufferWord
  rw [h.1, h.2]
  cases order <;> exact hw

theorem bufferWord_applyByteOrder (registers : List UInt16) (order : ByteOrder) {count i : ℕ}
    (h : i < count) : bufferWord order (applyByteOrder registers order count) i =
      word registers (source order count i) := by
  have hbytes := flatMap_wordBytes order (fun k => word registers (source order count k)) count i
  rw [if_pos h, if_pos h] at hbytes
  exact bufferWord_of_bytes hbytes

theorem pack_apply (order : ByteOrder) (registers : List UInt16) :
    packBufferToRegisters (applyByteOrder registers order registers.length) order
      registers.length = registers := by
  apply List.ext_getElem?
  intro i
  unfold packBufferToRegisters
  rw [List.getElem?_map]
  by_cases hi : i < registers.length
  · rw [List.getElem?_range hi, Option.map_some,
      bufferWord_applyByteOrder registers order (source_lt order hi), source_source order hi]
    unfold word
    rw [List.getElem?_eq_getElem hi, Option.getD_some, UInt16.ofNat_toNat]
  · rw [List.getElem?_eq_none (by simpa using hi), List.getElem?_eq_none (by omega)]
    rfl

theorem bufferWord_lt {buffer : List ℕ} (h : ∀ b ∈ buffer, b < 256) (order : ByteOrder) (i : ℕ) :
    bufferWord order buffer i < 65536 := by
  have hbyte : ∀ k : ℕ, buffer[k]?.getD 0 < 256 := by
    intro k
    cases hk : buffer[k]? with
    | none => exact Nat.succ_pos _
    | some b => exact h b (List.mem_of_getElem? hk)
  have hfirst := hbyte (2*i)
  have hsecond := hbyte (2*i+1)
  unfold bufferWord
  cases order <;> simp only <;> omega

theorem word_pack {buffer : List ℕ} (h : ∀ b ∈ buffer, b < 256) (order : ByteOrder)
    {count i : ℕ} (hi : i < count) :
    word (packBufferToRegisters buffer order count) i =
      bufferWord order buffer (source order count i) := by
  unfold word packBufferToRegisters
  rw [List.getElem?_map, List.getElem?_range hi]
  exact UInt16.toNat_ofNat_of_lt' (bufferWord_lt h order _)

theorem bytes_of_word (a : ℕ) {b : ℕ} (h : b < 256) : (a*256+b)/256 = a ∧ (a*256+b)%256 = b := by
  omega

theorem wordBytes_bufferWord {buffer : List ℕ} (h : ∀ b ∈ buffer, b < 256) (order : ByteOrder)
    {i : ℕ} (hi : 2*i+1 < buffer.length) :
    (wordBytes order (bufferWord order buffer i))[0]? = buffer[2*i]? ∧
      (wordBytes order (bufferWord order buffer i))[1]? = buffer[2*i+1]? := by
  obtain ⟨a,ha⟩ : ∃ a, buffer[2*i]? = some a := ⟨_,List.getElem?_eq_getElem (by omega)⟩
  obtain ⟨b,hb⟩ : ∃ b, buffer[2*i+1]? = some b := ⟨_,List.getElem?_eq_getElem hi⟩
  have hfirst := h a (List.mem_of_getElem? ha)
  have hsecond := h b (List.mem_of_getElem? hb)
  obtain ⟨hhigh,hlow⟩ := bytes_of_word a hsecond
  obtain ⟨hhigh',hlow'⟩ := bytes_of_word b hfirst
  unfold bufferWord
  rw [ha, hb]
  cases order <;> simp [wordBytes, hhigh, hlow, hhigh', hlow']

theorem apply_pack (order : ByteOrder) {buffer : List ℕ} {count : ℕ}
    (hlen : buffer.length = 2*count) (h : ∀ b ∈ buffer, b < 256) :
    applyByteOrder (packBufferToRegisters buffer order count) order count = buffer := by
  apply List.ext_getElem?
  intro k
  have hbytes := flatMap_wordBytes order
    (fun i => word (packBufferToRegisters buffer order count) (source order count i)) count (k/2)
  by_cases hk : k/2 < count
  · rw [if_pos hk, if_pos hk, word_pack h order (source_lt order hk), source_source order hk] at hbytes
    have hword := wordBytes_bufferWord h order (i := k/2) (by omega)
    rcases Nat.even_or_odd' k with ⟨m,rfl | rfl⟩
    · have hm : 2*m/2 = m := by omega
      rw [hm] at hbytes hword
      exact hbytes.1.trans hword.1
    · have hm : (2*m+1)/2 = m := by omega
      rw [hm] at hbytes hword
      exact hbytes.2.trans hword.2
  · rw [if_neg hk, if_neg hk] at hbytes
    have hnone : buffer[k]? = none := List.getElem?_eq_none (by omega)
    rw [hnone]
    rcases Nat.even_or_odd' k with ⟨m,rfl | rfl⟩
    · have hm : 2*m/2 = m := by omega
      rw [hm] at hbytes
      exact hbytes.1
    · have hm : (2*m+1)/2 = m := by omega
      rw [hm] at hbytes
      exact hbytes.2

def InRange (dataType : DataType) (n : ℤ) : Prop := minValue dataType ≤ n ∧ n ≤ maxValue dataType

theorem int32Bytes_lt (n : ℤ) : ∀ b ∈ int32Bytes n, b < 256 := by
  have hlt : (n%4294967296).toNat < 4294967296 := by omega
  intro b hb
  simp only [int32Bytes, List.mem_cons, List.not_mem_nil, or_false] at hb
  rcases hb with rfl | rfl | rfl | rfl <;> omega

theorem readUInt_int32Bytes (n : ℤ) : readUInt (int32Bytes n) = (n%4294967296).toNat := by
  unfold readUInt int32Bytes
  simp only [List.foldl_cons, List.foldl_nil]
  omega

theorem readInteger_int32Bytes {dataType : DataType} (hwidth : width dataType = some 4)
    (hinteger : isInteger dataType = true) {n : ℤ} (hrange : InRange dataType n) :
    readInteger dataType (int32Bytes n) = some n := by
  obtain ⟨hmin,hmax⟩ := hrange
  have hpow : (256 : ℤ)^4 = 4294967296 := by norm_num
  have hpow' : 256^4 = 4294967296 := by norm_num
  cases dataType with
  | int32 =>
    simp only [minValue, maxValue] at hmin hmax
    unfold readInteger
    rw [readUInt_int32Bytes]
    unfold toSigned
    rw [hpow, hpow']
    apply congrArg some
    split <;> omega
  | uint32 =>
    simp only [minValue, maxValue] at hmin hmax
    unfold readInteger
    rw [readUInt_int32Bytes]
    apply congrArg some
    omega
  | int16 => cases hwidth
  | uint16 => cases hwidth
  | float32 => cases hinteger
  | boolean => cases hwidth
  | string => cases hwidth

def wordOf (n : ℤ) : ℕ := (n%65536).toNat

theorem readInteger_word {dataType : DataType} (hwidth : width dataType = some 2) {n : ℤ}
    (hrange : InRange dataType n) :
    readInteger dataType [wordOf n/256,wordOf n%256] = some n := by
  obtain ⟨hmin,hmax⟩ := hrange
  have hread : readUInt [wordOf n/256,wordOf n%256] = wordOf n := by
    unfold readUInt
    simp only [List.foldl_cons, List.foldl_nil]
    omega
  unfold wordOf at hread ⊢
  cases dataType with
  | int16 =>
    simp only [minValue, maxValue] at hmin hmax
    unfold readInteger
    rw [hread]
    unfold toSigned
    apply congrArg some
    split <;> omega
  | uint16 =>
    simp only [minValue, maxValue] at hmin hmax
    unfold readInteger
    rw [hread]
    apply congrArg some
    omega
  | int32 => cases hwidth
  | uint32 => cases hwidth
  | float32 => cases hwidth
  | boolean => cases hwidth
  | string => cases hwidth

/-- A value that is accepted is read back as a value of the register's grid
at most half a step away, and unchanged if it is on the grid. -/
def RoundTrips (r : ScaledRegister) : Prop :=
  ∀ value words, writeRawRegister r value = .ok (.registers words) →
    ∃ n v, InRange r.register.dataType n ∧
      parseRegisterData r words = some (n*r.scale+r.offset) ∧ toNumber r.name value = .ok v ∧
      |v-(n*r.scale+r.offset)| ≤ |r.scale|/2 ∧
      ((∃ m : ℤ, v = m*r.scale+r.offset) → n*r.scale+r.offset = v)

theorem mathRound_eq (q : ℚ) : mathRound q = round q := (round_eq q).symm

theorem unscaled_near (r : ScaledRegister) {value : WriteValue} {n : ℤ}
    (h : toUnscaledNumeric r value = .ok n) :
    ∃ v, toNumber r.name value = .ok v ∧ |v-(n*r.scale+r.offset)| ≤ |r.scale|/2 ∧
      ((∃ m : ℤ, v = m*r.scale+r.offset) → n*r.scale+r.offset = v) := by
  obtain ⟨v,hv,rfl⟩ := map_ok h
  have hscale := r.scale_ne
  refine ⟨v,hv,?_,?_⟩
  · have hsplit : v-(mathRound ((v-r.offset)/r.scale)*r.scale+r.offset) =
        ((v-r.offset)/r.scale-round ((v-r.offset)/r.scale))*r.scale := by
      rw [mathRound_eq]
      field_simp
      ring
    rw [hsplit, abs_mul]
    have hround := abs_sub_round ((v-r.offset)/r.scale)
    have hpos := abs_nonneg r.scale
    nlinarith only [hround, hpos]
  · rintro ⟨m,rfl⟩
    have hraw : ((m : ℚ)*r.scale+r.offset-r.offset)/r.scale = m := by
      field_simp
      ring
    rw [hraw, mathRound_eq, round_intCast]

theorem ensureRange_ok {registerName : String} {value min max n : ℤ}
    (h : ensureRange registerName value min max = .ok n) : n = value ∧ min ≤ n ∧ n ≤ max := by
  unfold ensureRange at h
  split at h
  · cases h
  · obtain rfl := Except.ok.inj h
    omega

theorem bind_ok {α β ε : Type} {x : Except ε α} {f : α → Except ε β} {y : β}
    (h : x.bind f = .ok y) : ∃ a, x = .ok a ∧ f a = .ok y := by
  cases x with
  | error e => cases h
  | ok a => exact ⟨a,rfl,h⟩

theorem serializeSingle_ok {r : ScaledRegister} {value : WriteValue} {w : UInt16}
    (h : serializeSingleRegisterValue r value = .ok w) :
    ∃ n, toUnscaledNumeric r value = .ok n ∧ width r.register.dataType = some 2 ∧
      InRange r.register.dataType n ∧ w = UInt16.ofNat (wordOf n) := by
  obtain ⟨n,hn,h⟩ := bind_ok h
  refine ⟨n,hn,?_⟩
  unfold InRange
  split at h
  · next htype =>
    obtain ⟨n',hn',rfl⟩ := map_ok h
    obtain ⟨rfl,hmin,hmax⟩ := ensureRange_ok hn'
    rw [htype]
    exact ⟨rfl,⟨hmin,hmax⟩,rfl⟩
  · next htype =>
    obtain ⟨n',hn',rfl⟩ := map_ok h
    obtain ⟨rfl,hmin,hmax⟩ := ensureRange_ok hn'
    have hword : wordOf n' = n'.toNat := by
      unfold wordOf
      omega
    rw [htype, hword]
    exact ⟨rfl,⟨hmin,hmax⟩,rfl⟩
  · cases h

/-- What a multiple write sends: the bytes of a value of 32 bits in range
and zeros after them, in the order of the register. -/
theorem serializeMulti_ok {r : ScaledRegister} {value : WriteValue} {words : List UInt16}
    (h : serializeMultiRegisterValues r value = .ok words) :
    ∃ n, toUnscaledNumeric r value = .ok n ∧ width r.register.dataType = some 4 ∧
      InRange r.register.dataType n ∧ 2 ≤ r.register.count ∧
      words = packBufferToRegisters (int32Bytes n++List.replicate (r.register.count*2-4) 0)
        (resolveByteOrder r.register) r.register.count := by
  have hcommon : ∀ {min max : ℤ} {typeName : String},
      serializeInt32 r value min max typeName = .ok words →
      ∃ n, toUnscaledNumeric r value = .ok n ∧ (min ≤ n ∧ n ≤ max) ∧ 2 ≤ r.register.count ∧
        words = packBufferToRegisters (int32Bytes n++List.replicate (r.register.count*2-4) 0)
          (resolveByteOrder r.register) r.register.count := by
    intro min max typeName hserialize
    obtain ⟨n,hn,hranged⟩ := bind_ok hserialize
    obtain ⟨n',hn',hpacked⟩ := bind_ok hranged
    obtain ⟨rfl,hmin,hmax⟩ := ensureRange_ok hn'
    rw [span_eq] at hpacked
    split at hpacked
    · cases hpacked
    · exact ⟨n',hn,⟨hmin,hmax⟩,by omega,(Except.ok.inj hpacked).symm⟩
  unfold serializeMultiRegisterValues at h
  unfold InRange
  split at h
  · next htype =>
    obtain ⟨n,hn,hrange,hcount,hwords⟩ := hcommon h
    rw [htype]
    exact ⟨n,hn,rfl,hrange,hcount,hwords⟩
  · next htype =>
    obtain ⟨n,hn,hrange,hcount,hwords⟩ := hcommon h
    rw [htype]
    exact ⟨n,hn,rfl,hrange,hcount,hwords⟩
  · cases h

theorem writeRawRegister_ok {r : ScaledRegister} {value : WriteValue} {words : List UInt16}
    (h : writeRawRegister r value = .ok (.registers words)) :
    (∃ w, resolveWriteFunctionCode r = .ok .writeSingleRegister ∧
      serializeSingleRegisterValue r value = .ok w ∧ words = [w]) ∨
    serializeMultiRegisterValues r value = .ok words := by
  obtain ⟨code,hcode,h⟩ := bind_ok h
  split at h
  · obtain ⟨b,-,hb⟩ := map_ok h
    cases hb
  · obtain ⟨w,hw,hwords⟩ := map_ok h
    cases hwords
    exact Or.inl ⟨w,hcode,hw,rfl⟩
  · cases h
  · obtain ⟨ws,hws,hwords⟩ := map_ok h
    cases hwords
    exact Or.inr hws
  · cases h

theorem parseRegisterData_eq {r : ScaledRegister} {k : ℕ}
    (hwidth : width r.register.dataType = some k) (hk : k ≤ 2*r.register.count)
    (words : List UInt16) :
    parseRegisterData r words = (readInteger r.register.dataType
      ((applyByteOrder words (bufferOrder r.register) r.register.count).take k)).map
        (fun m : ℤ => (m : ℚ)*r.scale+r.offset) := by
  unfold parseRegisterData
  simp only [hwidth]
  rw [if_neg, buffer_arranged]
  rw [length_buffer, length_arranged]
  omega

theorem parse_multi {r : ScaledRegister} (hwidth : width r.register.dataType = some 4) {n : ℤ}
    (hrange : InRange r.register.dataType n) (hcount : 2 ≤ r.register.count) :
    parseRegisterData r (packBufferToRegisters
      (int32Bytes n++List.replicate (r.register.count*2-4) 0) (resolveByteOrder r.register)
      r.register.count) = some (n*r.scale+r.offset) := by
  have horder : bufferOrder r.register = resolveByteOrder r.register := if_neg (by omega)
  have hbytes : ∀ b ∈ int32Bytes n++List.replicate (r.register.count*2-4) 0, b < 256 := by
    intro b hb
    rcases List.mem_append.mp hb with hb | hb
    · exact int32Bytes_lt n b hb
    · rw [List.eq_of_mem_replicate hb]
      exact Nat.succ_pos _
  have hlen : (int32Bytes n++List.replicate (r.register.count*2-4) 0).length =
      2*r.register.count := by
    rw [List.length_append, List.length_replicate]
    show 4+_ = _
    omega
  have htake : (int32Bytes n++List.replicate (r.register.count*2-4) 0).take 4 = int32Bytes n := by
    exact List.take_left' rfl
  rw [parseRegisterData_eq hwidth (by omega), horder, apply_pack _ hlen hbytes, htake,
    readInteger_int32Bytes hwidth r.integer hrange]
  rfl

theorem take_single {r : ScaledRegister} (w : UInt16)
    (h : r.register.count = 1 ∨ resolveByteOrder r.register = .ABCD) :
    (applyByteOrder [w] (bufferOrder r.register) r.register.count).take 2 =
      [w.toNat/256,w.toNat%256] := by
  have horder : bufferOrder r.register = .ABCD := by
    unfold bufferOrder
    split
    · rfl
    · next hne => exact h.resolve_left hne
  obtain ⟨k,hk⟩ : ∃ k, r.register.count = k+1 := ⟨_,(Nat.succ_pred_eq_of_pos r.register.count_pos).symm⟩
  rw [horder, hk]
  unfold applyByteOrder
  rw [List.range_succ_eq_map, List.flatMap_cons]
  exact List.take_left' rfl

theorem parse_single {r : ScaledRegister} (hwidth : width r.register.dataType = some 2) {n : ℤ}
    (hrange : InRange r.register.dataType n)
    (h : r.register.count = 1 ∨ resolveByteOrder r.register = .ABCD) :
    parseRegisterData r [UInt16.ofNat (wordOf n)] = some (n*r.scale+r.offset) := by
  have hcount := r.register.count_pos
  have hword : (UInt16.ofNat (wordOf n)).toNat = wordOf n := by
    apply UInt16.toNat_ofNat_of_lt'
    show (n%65536).toNat < 65536
    omega
  rw [parseRegisterData_eq hwidth (by omega), take_single _ h, hword,
    readInteger_word hwidth hrange]
  rfl

theorem readInteger_small {dataType : DataType} (hwidth : width dataType = some 2) {w : ℕ}
    (hw : w < 32768) : readInteger dataType [w/256,w%256] = some (w : ℤ) := by
  have hword : wordOf w = w := by
    unfold wordOf
    omega
  have hrange : InRange dataType (w : ℤ) := by
    cases dataType <;> cases hwidth <;>
      exact ⟨by simp only [minValue]; omega,by simp only [maxValue]; omega⟩
  have h := readInteger_word hwidth hrange
  rwa [hword] at h

/-- The first word of the buffer has its bytes swapped, or is not the one
that was written. -/
theorem first_word_lost {dataType : DataType} (hwidth : width dataType = some 2)
    {order : ByteOrder} (horder : order ≠ .ABCD) (k : ℕ) :
    ∃ m : ℤ, m ≠ 256 ∧ readInteger dataType
      (wordBytes order (word [UInt16.ofNat (wordOf 256)] (source order (k+2) 0))) = some m := by
  have hfirst : word [UInt16.ofNat (wordOf 256)] 0 = 256 := rfl
  have hmissing : word [UInt16.ofNat (wordOf 256)] (k+2-1-0) = 0 := rfl
  cases order with
  | ABCD => exact absurd rfl horder
  | BADC =>
    refine ⟨1,by decide,?_⟩
    simp only [source, hfirst]
    exact readInteger_small (w := 1) hwidth (by decide)
  | CDAB =>
    refine ⟨0,by decide,?_⟩
    simp only [source, hmissing]
    exact readInteger_small (w := 0) hwidth (by decide)
  | DCBA =>
    refine ⟨0,by decide,?_⟩
    simp only [source, hmissing]
    exact readInteger_small (w := 0) hwidth (by decide)

/-- A value of 16 bits written to a register of several words is not read
back in the other byte orders. -/
theorem parse_single_lost {r : ScaledRegister} (hwidth : width r.register.dataType = some 2)
    (hcount : r.register.count ≠ 1) (horder : resolveByteOrder r.register ≠ .ABCD) :
    ∃ m : ℤ, m ≠ 256 ∧ parseRegisterData r [UInt16.ofNat (wordOf 256)] =
      some (m*r.scale+r.offset) := by
  have hpos := r.register.count_pos
  have horder' : bufferOrder r.register = resolveByteOrder r.register := if_neg hcount
  obtain ⟨k,hk⟩ : ∃ k, r.register.count = k+2 := ⟨r.register.count-2,by omega⟩
  rw [parseRegisterData_eq hwidth (by omega), horder', hk]
  unfold applyByteOrder
  rw [List.range_succ_eq_map, List.flatMap_cons,
    List.take_left' (wordBytes_length (resolveByteOrder r.register) _)]
  obtain ⟨m,hm,hread⟩ := first_word_lost hwidth horder k
  rw [hread]
  exact ⟨m,hm,rfl⟩

/-- A value of 16 bits that goes out as one word has a register of one word
or of the standard order. -/
def SingleWordRead (r : ScaledRegister) : Prop :=
  resolveWriteFunctionCode r = .ok .writeSingleRegister → width r.register.dataType = some 2 →
    r.register.count = 1 ∨ resolveByteOrder r.register = .ABCD

theorem SingleWordRead.roundTrips {r : ScaledRegister} (h : SingleWordRead r) : RoundTrips r := by
  intro value words hw
  rcases writeRawRegister_ok hw with ⟨w,hcode,hsingle,rfl⟩ | hmulti
  · obtain ⟨n,hn,hwidth,hrange,rfl⟩ := serializeSingle_ok hsingle
    obtain ⟨v,hv,hnear,hgrid⟩ := unscaled_near r hn
    exact ⟨n,v,hrange,parse_single hwidth hrange (h hcode hwidth),hv,hnear,hgrid⟩
  · obtain ⟨n,hn,hwidth,hrange,hcount,rfl⟩ := serializeMulti_ok hmulti
    obtain ⟨v,hv,hnear,hgrid⟩ := unscaled_near r hn
    exact ⟨n,v,hrange,parse_multi hwidth hrange hcount,hv,hnear,hgrid⟩

theorem write_grid {r : ScaledRegister}
    (hcode : resolveWriteFunctionCode r = .ok .writeSingleRegister)
    (hwidth : width r.register.dataType = some 2) :
    writeRawRegister r (.number ((256 : ℤ)*r.scale+r.offset)) =
      .ok (.registers [UInt16.ofNat (wordOf 256)]) := by
  have hraw : toUnscaledNumeric r (.number ((256 : ℤ)*r.scale+r.offset)) = .ok 256 := by
    obtain ⟨n,hn⟩ : ∃ n, toUnscaledNumeric r (.number ((256 : ℤ)*r.scale+r.offset)) = .ok n :=
      ⟨_,rfl⟩
    obtain ⟨v,hv,-,hgrid⟩ := unscaled_near r hn
    obtain rfl := Except.ok.inj hv
    have heq := hgrid ⟨256,rfl⟩
    have hmul : (n : ℚ)*r.scale = (256 : ℤ)*r.scale := by linarith only [heq]
    have hcast := mul_right_cancel₀ r.scale_ne hmul
    rw [hn, Int.cast_injective hcast]
  have hserialize : serializeSingleRegisterValue r (.number ((256 : ℤ)*r.scale+r.offset)) =
      .ok (UInt16.ofNat (wordOf 256)) := by
    unfold serializeSingleRegisterValue
    rw [hraw]
    cases ht : r.register.dataType with
    | int16 => rfl
    | uint16 => rfl
    | int32 => rw [ht] at hwidth; cases hwidth
    | uint32 => rw [ht] at hwidth; cases hwidth
    | float32 => rw [ht] at hwidth; cases hwidth
    | boolean => rw [ht] at hwidth; cases hwidth
    | string => rw [ht] at hwidth; cases hwidth
  unfold writeRawRegister
  rw [hcode]
  show (serializeSingleRegisterValue r _).map _ = _
  rw [hserialize]
  rfl

theorem singleWordRead_of_roundTrips {r : ScaledRegister} (h : RoundTrips r) :
    SingleWordRead r := by
  intro hcode hwidth
  by_contra hneither
  obtain ⟨hcount,horder⟩ := not_or.mp hneither
  obtain ⟨m,hm,hread⟩ := parse_single_lost hwidth hcount horder
  obtain ⟨n,v,-,hparse,hv,-,hgrid⟩ := h _ _ (write_grid hcode hwidth)
  obtain rfl := Except.ok.inj hv
  have heq := hgrid ⟨256,rfl⟩
  rw [hread] at hparse
  have hsame := Option.some.inj hparse
  have hmul : (m : ℚ)*r.scale = (256 : ℤ)*r.scale := by linarith only [hsame, heq]
  exact hm (Int.cast_injective (mul_right_cancel₀ r.scale_ne hmul))

/-- Packing and arranging are inverse to each other. What a register accepts
is read back exactly when the word of a value of 16 bits is not taken for
one of several words in another order. -/
theorem written_value_read_back (r : ScaledRegister) :
    (∀ (order : ByteOrder) (registers : List UInt16),
      packBufferToRegisters (applyByteOrder registers order registers.length) order
        registers.length = registers) ∧
    (∀ (order : ByteOrder) (count : ℕ) (buffer : List ℕ), buffer.length = 2*count →
      (∀ b ∈ buffer, b < 256) →
      applyByteOrder (packBufferToRegisters buffer order count) order count = buffer) ∧
    (RoundTrips r ↔ SingleWordRead r) :=
  ⟨pack_apply,fun order _ _ => apply_pack order,
    singleWordRead_of_roundTrips,SingleWordRead.roundTrips⟩

def swapped : ScaledRegister where
  name := "setpoint"
  register :=
    { address := 0, functionCode := .writeSingleRegister, dataType := .int16, count := 2,
      byteOrder := some .CDAB, endianness := none, scale := 1, offset := 0, encoding := none,
      noBatch := false, count_pos := Nat.two_pos }
  scale := 1
  offset := 0
  integer := rfl
  scale_ne := one_ne_zero

theorem swapped_setpoint_lost : ¬ ∀ r : ScaledRegister, RoundTrips r := by
  intro h
  rcases singleWordRead_of_roundTrips (h swapped) rfl rfl with hcount | horder
  · cases hcount
  · cases horder

end Iotistica.ModbusWrites
