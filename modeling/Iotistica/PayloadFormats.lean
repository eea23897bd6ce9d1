import Iotistica.PayloadFidelity
import Iotistica.StableText
import Iotistica.StreamAgreement
import Iotistica.TopicRouting

/-!
# Detecting the format of a payload

A payload carries no name of its format. Both sides look at its first byte:
those of short and of long arrays and of short objects are taken for
MessagePack, everything else is read as JSON. The header of an object with
sixteen members or more is taken for neither.
-/

set_option autoImplicit false

namespace Iotistica.PayloadFormats
open Iotistica Iotistica.JsonText Iotistica.JsonDoubles Iotistica.StreamFormat
open Iotistica.TopicRouting (Services Data isDeflated isPacked)
open Iotistica.PayloadFidelity (payloadText)

variable {D : Type*} (R : Doubles D)

/-- An object or array that JSON can represent. -/
structure Document where
  value : Value
  proper : Proper value
  finite : AllFinite R value
  container : (∃ items, value = .arr items) ∨ ∃ members, value = .obj members

def sizeClass (fixed word long : UInt8) (size : ℕ) : UInt8 :=
  if size < 16 then fixed+UInt8.ofNat size else if size < 65536 then word else long

def header : Value → Option UInt8
  | .arr items => some (sizeClass 0x90 0xdc 0xdd items.length)
  | .obj members => some (sizeClass 0x80 0xde 0xdf members.length)
  | _ => none

/-- The libraries of both sides: the agent's MessagePack, that of the cloud,
the value it decodes to, and zlib. -/
structure Libraries where
  cloud : Services
  encode : Value → Bytes
  decode : Bytes → Option Value
  value : cloud.Packed → Value
  malformed : ∀ bytes, cloud.runtime.malformed bytes = payloadText bytes
  deflated : ∀ bytes, isDeflated (cloud.runtime.compress .deflate bytes) = true
  head_encode : ∀ d : Document R, (encode d.value).head? = header d.value
  decode_encode : ∀ d : Document R, ∃ v, decode (encode d.value) = some v ∧ Same R d.value v
  unpack_encode : ∀ d : Document R, ∃ p, cloud.unpack (encode d.value) = some p ∧
    Same R d.value (value p)

inductive MqttPayload where
  | json (data : Value)
  | msgpack (data : Value)
  | binary (data : Bytes)
  | text (data : String)

section Sides
variable {R} (L : Libraries R)

def serializePayload : MqttPayload → Bytes
  | .json data => PayloadFidelity.serializePayload R data
  | .msgpack data => L.encode data
  | .binary data => data
  | .text data => Utf8Text.encode data.toList

/-- `isPacked` is the test of the first byte that both sides make. -/
def deserializePayload (buffer : Bytes) : MqttPayload :=
  match if isPacked buffer then L.decode buffer else none with
  | some data => .msgpack data
  | none =>
    match parse (payloadText buffer) with
    | some data => .json data
    | none => .binary buffer

def Returned (d : Value) : Data L.cloud.Packed → Prop
  | .json v => Same R d v
  | .packed p => Same R d (L.value p)
  | .buffer _ => False

def CloudReads (d : Value) (bytes : Bytes) : Prop :=
  Returned L d (TopicRouting.deserializePayload L.cloud bytes) ∧
    Returned L d (TopicRouting.deserializePayload L.cloud
      (L.cloud.runtime.compress .deflate bytes))

/-- In both formats the agent gets back the format and the value, and the
cloud the value. -/
structure Detected (d : Document R) : Prop where
  json : ∃ v, deserializePayload L (serializePayload L (.json d.value)) = .json v ∧
    Same R d.value v
  msgpack : ∃ v, deserializePayload L (serializePayload L (.msgpack d.value)) = .msgpack v ∧
    Same R d.value v
  cloudJson : CloudReads L d.value (serializePayload L (.json d.value))
  cloudMsgpack : CloudReads L d.value (serializePayload L (.msgpack d.value))

end Sides

/-- An array, or an object that is small enough for a header of its own. -/
def shortHeader : Value → Bool
  | .obj members => members.length < 16
  | _ => true

theorem utf8_ofList (cs : List Char) : utf8 (String.ofList cs) = Utf8Text.encode cs := by
  simp [utf8, Utf8Text.encode, List.utf8Encode]

theorem payloadText_encode (cs : List Char) :
    payloadText (Utf8Text.encode cs) = String.ofList cs := by
  rw [payloadText, Utf8Text.decode_encode]

theorem toStringUtf8_eq {rt : Runtime} (h : ∀ bytes, rt.malformed bytes = payloadText bytes)
    (bytes : Bytes) : toStringUtf8 rt bytes = payloadText bytes := by
  by_cases hvalid : ByteArray.IsValidUTF8 ⟨bytes.toArray⟩
  · have hbytes : bytes = utf8 ⟨⟨bytes.toArray⟩,hvalid⟩ := rfl
    rw [hbytes, toStringUtf8_utf8, ← String.ofList_toList (s := ⟨⟨bytes.toArray⟩,hvalid⟩),
      utf8_ofList, payloadText_encode]
  · unfold toStringUtf8
    rw [String.fromUTF8?, dif_neg hvalid]
    exact h bytes

theorem head_owed (o : Utf8Text.Owed) (bs : Bytes) :
    ∃ c cs, Utf8Text.decodeFrom (some o) bs = c :: cs ∧ 0x80 ≤ c.toNat := by
  induction bs generalizing o with
  | nil => exact ⟨_,_,rfl,Utf8Text.replacement_foreign⟩
  | cons b bs ih =>
    cases hb : Utf8Text.takes o b with
    | false =>
      rw [Utf8Text.decodeFrom_refused hb]
      exact ⟨_,_,rfl,Utf8Text.replacement_foreign⟩
    | true =>
      rw [Utf8Text.decodeFrom_cons, Utf8Text.step_taken hb]
      rcases Utf8Text.next_cases o b hb with ⟨c,hc,hnext⟩ | ⟨o',hnext⟩
      · rw [hnext]
        exact ⟨c,_,rfl,hc⟩
      · rw [hnext]
        exact ih o'

theorem head_decode {b : UInt8} (h : 0x80 ≤ b.toNat) (bs : Bytes) :
    ∃ c cs, Utf8Text.decode (b :: bs) = c :: cs ∧ 0x80 ≤ c.toNat := by
  rw [Utf8Text.decode, Utf8Text.decodeFrom_cons, Utf8Text.step_first]
  rcases Utf8Text.first_cases b with ⟨-,hascii⟩ | hfirst | ⟨o,hfirst⟩
  · omega
  · rw [hfirst]
    exact ⟨_,_,rfl,Utf8Text.replacement_foreign⟩
  · rw [hfirst]
    exact head_owed o bs

theorem ne_of_foreign {c c' : Char} (h : 0x80 ≤ c.toNat) (h' : c'.toNat < 0x80) : c ≠ c' := by
  rintro rfl
  omega

theorem readNumber_foreign {c : Char} (h : 0x80 ≤ c.toNat) (cs : List Char) :
    readNumber (c :: cs) = none := by
  have hdigit : c.isDigit = false := by
    rw [Bool.eq_false_iff]
    intro hdigit
    have hle : c.toNat ≤ 57 := (Char.isDigit_iff_toNat.mp hdigit).2
    omega
  unfold readNumber
  split
  · rename_i heq
    exact absurd (List.cons.inj heq).1 (ne_of_foreign h (by decide))
  · simp [readMagnitude, spanDigits, hdigit]

theorem parse_foreign {c : Char} (h : 0x80 ≤ c.toNat) (cs : List Char) :
    parse (String.ofList (c :: cs)) = none := by
  have hblank : blank c = false := by
    simp only [blank, Bool.or_eq_false_iff, decide_eq_false_iff_not]
    exact ⟨⟨⟨ne_of_foreign h (by decide),ne_of_foreign h (by decide)⟩,
      ne_of_foreign h (by decide)⟩,ne_of_foreign h (by decide)⟩
  have hread : ∀ n, readValue (n+1) (c :: cs) = none := by
    intro n
    unfold readValue
    rw [skipBlanks_cons hblank]
    split
    all_goals try (
      rename_i heq
      exact absurd (List.cons.inj heq).1 (ne_of_foreign h (by decide)))
    rw [readNumber_foreign h]
    rfl
  unfold parse
  rw [String.toList_ofList, hread]
  rfl

theorem parse_high {b : UInt8} (h : 0x80 ≤ b.toNat) (bs : Bytes) :
    parse (payloadText (b :: bs)) = none := by
  obtain ⟨c,cs,hdecode,hc⟩ := head_decode h bs
  rw [payloadText, hdecode]
  exact parse_foreign hc cs

theorem isPacked_low {b : UInt8} (h : b.toNat < 0x80) (bs : Bytes) :
    isPacked (b :: bs) = false := by
  have hle : ¬(0x80 : UInt8) ≤ b := by
    rw [UInt8.le_iff_toNat_le]
    exact Nat.not_le.mpr h
  have hdc : b ≠ 0xdc := by
    rintro rfl
    exact absurd h (by decide)
  have hdd : b ≠ 0xdd := by
    rintro rfl
    exact absurd h (by decide)
  simp [isPacked, hle, hdc, hdd]

theorem isDeflated_ne {b : UInt8} (h : b ≠ 0x78) (bs : Bytes) : isDeflated (b :: bs) = false := by
  cases bs with
  | nil => rfl
  | cons c cs => simp [isDeflated, h]

theorem sizeClass_short (fixed word long : UInt8) {size : ℕ} (h : size < 16)
    (hfixed : fixed.toNat ≤ 0x90) :
    (sizeClass fixed word long size).toNat = fixed.toNat+size := by
  rw [sizeClass, if_pos h, UInt8.toNat_add, UInt8.toNat_ofNat']
  omega

theorem sizeClass_long (fixed word long : UInt8) {size : ℕ} (h : ¬size < 16) :
    sizeClass fixed word long size = word ∨ sizeClass fixed word long size = long := by
  rw [sizeClass, if_neg h]
  split
  · exact Or.inl rfl
  · exact Or.inr rfl

theorem isPacked_fixed {b : UInt8} (h : 0x80 ≤ b.toNat ∧ b.toNat ≤ 0x9f) (bs : Bytes) :
    isPacked (b :: bs) = true := by
  have hlow : (0x80 : UInt8) ≤ b := UInt8.le_iff_toNat_le.mpr h.1
  have hhigh : b ≤ 0x9f := UInt8.le_iff_toNat_le.mpr h.2
  simp [isPacked, hlow, hhigh]

/-- The first byte of an array is known at every size, that of an object
only if it is short. -/
theorem isPacked_header {v : Value} {b : UInt8} (h : header v = some b) (bs : Bytes) :
    0x80 ≤ b.toNat ∧ isPacked (b :: bs) = shortHeader v := by
  cases v with
  | arr items =>
    obtain rfl := Option.some.inj h
    by_cases hshort : items.length < 16
    · have hbyte := sizeClass_short 0x90 0xdc 0xdd hshort (by decide)
      have hfixed : (0x90 : UInt8).toNat = 0x90 := rfl
      exact ⟨by omega,isPacked_fixed (by omega) bs⟩
    · rcases sizeClass_long 0x90 0xdc 0xdd hshort with hb | hb
      · rw [hb]
        exact ⟨by decide,rfl⟩
      · rw [hb]
        exact ⟨by decide,rfl⟩
  | obj members =>
    obtain rfl := Option.some.inj h
    by_cases hshort : members.length < 16
    · have hbyte := sizeClass_short 0x80 0xde 0xdf hshort (by decide)
      have hfixed : (0x80 : UInt8).toNat = 0x80 := rfl
      rw [isPacked_fixed (by omega), shortHeader, decide_eq_true hshort]
      exact ⟨by omega,rfl⟩
    · rw [shortHeader, decide_eq_false hshort]
      rcases sizeClass_long 0x80 0xde 0xdf hshort with hb | hb
      · rw [hb]
        exact ⟨by decide,rfl⟩
      · rw [hb]
        exact ⟨by decide,rfl⟩
  | _ => cases h

section Received
variable {R} (L : Libraries R)

theorem serializePayload_json (d : Document R) :
    ∃ b bs, serializePayload L (.json d.value) = b :: bs ∧ b.toNat < 0x80 ∧ b ≠ 0x78 := by
  have hprint : ∃ c cs, print (printed R d.value) = c :: cs ∧ (c = '[' ∨ c = '\x7b') := by
    rcases d.container with ⟨items,hitems⟩ | ⟨members,hmembers⟩
    · rw [hitems, printed, StableText.print_arr]
      exact ⟨_,_,rfl,Or.inl rfl⟩
    · rw [hmembers, printed, StableText.print_obj]
      exact ⟨_,_,rfl,Or.inr rfl⟩
  obtain ⟨c,cs,hcs,hc⟩ := hprint
  have hascii : c.toNat < 0x80 := by rcases hc with rfl | rfl <;> decide
  refine ⟨UInt8.ofNat c.toNat,Utf8Text.encode cs,?_,?_⟩
  · show Utf8Text.encode (print (printed R d.value)) = _
    rw [hcs, Utf8Text.encode, List.flatMap_cons, Utf8Text.encodeChar_ascii hascii]
    rfl
  · rcases hc with rfl | rfl <;> decide

theorem parse_json (d : Document R) :
    parse (payloadText (serializePayload L (.json d.value))) = some (printed R d.value) := by
  show parse (payloadText (Utf8Text.encode _)) = _
  rw [payloadText_encode]
  exact parse_stringify (proper_printed R d.proper)

theorem cloud_eq {message buffer : Bytes}
    (h : TopicRouting.inflated L.cloud message = buffer) :
    TopicRouting.deserializePayload L.cloud message =
      match if isPacked buffer then L.cloud.unpack buffer else none with
      | some p => .packed p
      | none =>
        match parse (payloadText buffer) with
        | some v => .json v
        | none => .buffer message := by
  unfold TopicRouting.deserializePayload TopicRouting.readJson
  dsimp only
  rw [h, toStringUtf8_eq L.malformed]
  cases if isPacked buffer then L.cloud.unpack buffer else none with
  | some p => rfl
  | none => cases parse (payloadText buffer) <;> rfl

theorem inflated_plain {bytes : Bytes} (h : isDeflated bytes = false) :
    TopicRouting.inflated L.cloud bytes = bytes := by
  unfold TopicRouting.inflated
  rw [h]
  rfl

theorem inflated_deflated (bytes : Bytes) :
    TopicRouting.inflated L.cloud (L.cloud.runtime.compress .deflate bytes) = bytes := by
  unfold TopicRouting.inflated
  rw [L.deflated, L.cloud.runtime.decompress_compress]
  rfl

theorem cloudReads_iff (v : Value) {bytes : Bytes} (h : isDeflated bytes = false) :
    CloudReads L v bytes ↔ Returned L v (TopicRouting.deserializePayload L.cloud bytes) := by
  unfold CloudReads
  rw [cloud_eq L (inflated_plain L h), cloud_eq L (inflated_deflated L bytes)]
  cases if isPacked bytes then L.cloud.unpack bytes else none with
  | some p => exact and_self_iff
  | none =>
    cases parse (payloadText bytes) with
    | some v => exact and_self_iff
    | none => exact and_self_iff

theorem json_received (d : Document R) :
    (∃ v, deserializePayload L (serializePayload L (.json d.value)) = .json v ∧
      Same R d.value v) ∧ CloudReads L d.value (serializePayload L (.json d.value)) := by
  have hsame := same_printed R d.finite
  have hparse := parse_json L d
  obtain ⟨b,bs,hbytes,hascii,hmagic⟩ := serializePayload_json L d
  rw [hbytes] at hparse ⊢
  rw [cloudReads_iff L _ (isDeflated_ne hmagic bs), cloud_eq L (inflated_plain L
    (isDeflated_ne hmagic bs))]
  unfold deserializePayload
  rw [isPacked_low hascii bs, hparse]
  exact ⟨⟨_,rfl,hsame⟩,hsame⟩

theorem encode_head (d : Document R) :
    ∃ b bs, L.encode d.value = b :: bs ∧ header d.value = some b := by
  have hhead := L.head_encode d
  cases hbytes : L.encode d.value with
  | nil =>
    rw [hbytes] at hhead
    rcases d.container with ⟨items,hitems⟩ | ⟨members,hmembers⟩
    · rw [hitems] at hhead
      cases hhead
    · rw [hmembers] at hhead
      cases hhead
  | cons b bs =>
    rw [hbytes] at hhead
    exact ⟨b,bs,rfl,hhead.symm⟩

theorem msgpack_received (d : Document R) (h : shortHeader d.value = true) :
    (∃ v, deserializePayload L (serializePayload L (.msgpack d.value)) = .msgpack v ∧
      Same R d.value v) ∧ CloudReads L d.value (serializePayload L (.msgpack d.value)) := by
  obtain ⟨v,hv,hsame⟩ := L.decode_encode d
  obtain ⟨p,hp,hsame'⟩ := L.unpack_encode d
  obtain ⟨b,bs,hbytes,hheader⟩ := encode_head L d
  obtain ⟨hhigh,hpacked⟩ := isPacked_header hheader bs
  have hmagic : b ≠ 0x78 := by
    rintro rfl
    exact absurd hhigh (by decide)
  rw [hbytes] at hv hp
  show (∃ v, deserializePayload L (L.encode d.value) = .msgpack v ∧ _) ∧
    CloudReads L d.value (L.encode d.value)
  rw [hbytes, cloudReads_iff L _ (isDeflated_ne hmagic bs), cloud_eq L (inflated_plain L
    (isDeflated_ne hmagic bs))]
  unfold deserializePayload
  rw [hpacked, h, if_pos rfl, if_pos rfl, hv, hp]
  exact ⟨⟨v,rfl,hsame⟩,hsame'⟩

theorem msgpack_lost (d : Document R) (h : shortHeader d.value = false) :
    deserializePayload L (serializePayload L (.msgpack d.value)) =
      .binary (serializePayload L (.msgpack d.value)) := by
  obtain ⟨b,bs,hbytes,hheader⟩ := encode_head L d
  obtain ⟨hhigh,hpacked⟩ := isPacked_header hheader bs
  show deserializePayload L (L.encode d.value) = .binary (L.encode d.value)
  rw [hbytes]
  unfold deserializePayload
  rw [hpacked, h, parse_high hhigh]
  rfl

/-- A value goes through in both formats exactly if it is an array or an
object of less than sixteen members. -/
theorem detected_iff (d : Document R) : Detected L d ↔ shortHeader d.value = true := by
  constructor
  · intro h
    rw [← Bool.not_eq_false]
    intro hlong
    obtain ⟨v,hv,-⟩ := h.msgpack
    rw [msgpack_lost L d hlong] at hv
    cases hv
  · intro h
    exact ⟨(json_received L d).1,(msgpack_received L d h).1,(json_received L d).2,
      (msgpack_received L d h).2⟩

end Received

def letters : List UInt8 :=
  [0x61,0x62,0x63,0x64,0x65,0x66,0x67,0x68,0x69,0x6a,0x6b,0x6c,0x6d,0x6e,0x6f,0x70]

def letterMembers : Members :=
  letters.map (fun b => (String.singleton (Char.ofNat b.toNat),.null))

def wide : Document exactDoubles where
  value := .obj letterMembers
  proper := by
    rw [Proper, properMembers_iff]
    refine ⟨by decide,?_⟩
    intro m hm
    obtain ⟨b,-,rfl⟩ := List.mem_map.mp hm
    trivial
  finite := by
    rw [AllFinite, finiteMembers_iff]
    intro m hm
    obtain ⟨b,-,rfl⟩ := List.mem_map.mp hm
    trivial
  container := Or.inr ⟨_,rfl⟩

def wideBytes : Bytes := [0xde,0x00,0x10]++letters.flatMap (fun b => [0xa1,b,0xc0])

def encodeWide (d : Value) : Bytes :=
  if stringify d = stringify wide.value then wideBytes
  else (header d).toList++Utf8Text.encode (print d)

def decodeWide (bytes : Bytes) : Option Value :=
  if bytes = wideBytes then some wide.value else parse (payloadText bytes.tail)

theorem encodeWide_cases (d : Document exactDoubles) :
    (d.value = wide.value ∧ encodeWide d.value = wideBytes) ∨
      ∃ b c cs, header d.value = some b ∧ print d.value = c :: cs ∧ (c = '[' ∨ c = '\x7b') ∧
        encodeWide d.value = b :: Utf8Text.encode (c :: cs) := by
  unfold encodeWide
  by_cases hwide : stringify d.value = stringify wide.value
  · rw [if_pos hwide]
    have hparse := parse_stringify d.proper
    rw [hwide, parse_stringify wide.proper] at hparse
    exact Or.inl ⟨(Option.some.inj hparse).symm,rfl⟩
  · rw [if_neg hwide]
    right
    rcases d.container with ⟨items,hitems⟩ | ⟨members,hmembers⟩
    · rw [hitems, StableText.print_arr]
      exact ⟨_,_,_,rfl,rfl,Or.inl rfl,rfl⟩
    · rw [hmembers, StableText.print_obj]
      exact ⟨_,_,_,rfl,rfl,Or.inr rfl,rfl⟩

theorem decodeWide_encodeWide (d : Document exactDoubles) :
    ∃ v, decodeWide (encodeWide d.value) = some v ∧ Same exactDoubles d.value v := by
  have hrefl : Same exactDoubles d.value d.value := StableText.same_of_canonical rfl
  refine ⟨d.value,?_,hrefl⟩
  rcases encodeWide_cases d with ⟨hvalue,hbytes⟩ | ⟨b,c,cs,-,hprint,hc,hbytes⟩
  · rw [hbytes, decodeWide, if_pos rfl, hvalue]
  · have hne : b :: Utf8Text.encode (c :: cs) ≠ wideBytes := by
      intro h
      have hsecond := congrArg List.head? (List.cons.inj h).2
      rcases hc with rfl | rfl
      · exact absurd (show some (0x5b : UInt8) = some 0x00 from hsecond) (by decide)
      · exact absurd (show some (0x7b : UInt8) = some 0x00 from hsecond) (by decide)
    rw [hbytes, decodeWide, if_neg hne]
    show parse (payloadText (Utf8Text.encode (c :: cs))) = some d.value
    rw [payloadText_encode, ← hprint]
    exact parse_stringify d.proper

attribute [irreducible] encodeWide decodeWide

def wideRuntime : Runtime where
  compress _ bytes := 0x78 :: 0x9c :: bytes
  decompress _ bytes := .ok (bytes.drop 2)
  decompress_compress _ _ := rfl
  malformed := payloadText
  syntaxError _ := "Unexpected end of JSON input"
  typeError := "Cannot read properties of null"

def wideLibraries : Libraries exactDoubles where
  cloud :=
    { runtime := wideRuntime
      Packed := Value
      unpack := decodeWide
      packedMsgId := fun v => (member v "msgId").filter truthy
      packedText := stringify
      isDuplicateMessage := fun _ => false }
  encode := encodeWide
  decode := decodeWide
  value v := v
  malformed _ := rfl
  deflated _ := rfl
  head_encode d := by
    rcases encodeWide_cases d with ⟨hvalue,hbytes⟩ | ⟨b,c,cs,hheader,-,-,hbytes⟩
    · rw [hbytes, hvalue]
      simp [header, wide, letterMembers, letters, sizeClass, wideBytes]
    · rw [hbytes, hheader]
      rfl
  decode_encode := decodeWide_encodeWide
  unpack_encode := decodeWide_encodeWide

/-- Its own bytes are binary data to the agent that packed it. -/
theorem wide_object_lost :
    deserializePayload wideLibraries (serializePayload wideLibraries (.msgpack wide.value)) =
      .binary wideBytes ∧ ¬Detected wideLibraries wide := by
  have hlost := msgpack_lost wideLibraries wide (by decide)
  constructor
  · rw [hlost]
    show MqttPayload.binary (encodeWide wide.value) = _
    rw [encodeWide, if_pos rfl]
  · intro h
    obtain ⟨v,hv,-⟩ := h.msgpack
    rw [hlost] at hv
    cases hv

end Iotistica.PayloadFormats
