import Iotistica.ByteText
import Iotistica.OrderedMap

/-!
# Ids in topics

A uuid travels as the base64 of its sixteen bytes, a tenant id of twelve hex
digits as that of its six. Encoded and decoded ids are kept in two caches of
limited size; a cache holds only what the codec itself would answer, so it
never shows.
-/

set_option autoImplicit false

namespace Iotistica.Topics
open Iotistica.JsText Iotistica.JsNumerals Iotistica.ByteText

def hexGroup (n : ℕ) (s : String) : Bool := decide (s.length = n) && s.toList.all hexDigit

def isUuid (value : String) : Bool :=
  match split value '-' with
  | [a,b,c,d,e] => hexGroup 8 a && hexGroup 4 b && hexGroup 4 c && hexGroup 4 d && hexGroup 12 e
  | _ => false

def isHexId (value : String) : Bool := hexGroup 12 value

def isEncodedUuid (value : String) : Bool :=
  decide (value.length = 22) && value.toList.all isUrlChar

def isEncodedHexId (value : String) : Bool :=
  decide (value.length = 8) && value.toList.all isUrlChar

def encodeBytes (bytes : List UInt8) : String := String.ofList (urlSafe (base64Text bytes))

def uuidBytes (uuid : String) : List UInt8 := readHexBytes (uuid.toList.filter (fun c => c ≠ '-'))

def uuidOfHex (hex : List Char) : String :=
  join [String.ofList (hex.take 8),String.ofList ((hex.drop 8).take 4),
    String.ofList ((hex.drop 12).take 4),String.ofList ((hex.drop 16).take 4),
    String.ofList (hex.drop 20)] '-'

def decodedUuid (encoded : String) : Option String :=
  let bytes := readBase64 (pad (encoded.toList.map ofUrlChar))
  if bytes.length = 16 then some (uuidOfHex (hexText bytes)) else none

def decodedHexId (encoded : String) : Option String :=
  let bytes := readBase64 (encoded.toList.map ofUrlChar)
  if bytes.length = 6 then some (String.ofList (hexText bytes)) else none

def topicEncoding (value : String) : Option String :=
  if isUuid value then some (encodeBytes (uuidBytes value))
  else if isHexId value then some (encodeBytes (readHexBytes value.toList))
  else none

def topicDecoding (encoded : String) : Option String :=
  if isEncodedUuid encoded then decodedUuid encoded
  else if isEncodedHexId encoded then decodedHexId encoded
  else none

theorem hexGroup_iff (n : ℕ) (s : String) :
    hexGroup n s = true ↔ s.toList.length = n ∧ ∀ c ∈ s.toList, hexDigit c = true := by
  simp only [hexGroup, Bool.and_eq_true, decide_eq_true_eq, List.all_eq_true, String.length_toList]

def dashed (a b c d e : List Char) : List Char := a++ '-' :: (b++ '-' :: (c++ '-' :: (d++ '-' :: e)))

theorem toList_join_groups (a b c d e : String) :
    (join [a,b,c,d,e] '-').toList = dashed a.toList b.toList c.toList d.toList e.toList := by
  simp [join, dashed, List.intersperse]

structure Groups (a b c d e : List Char) : Prop where
  len_a : a.length = 8
  len_b : b.length = 4
  len_c : c.length = 4
  len_d : d.length = 4
  len_e : e.length = 12
  hex : ∀ x ∈ a++(b++(c++(d++e))), hexDigit x = true

theorem uuid_groups {uuid : String} (h : isUuid uuid = true) :
    ∃ a b c d e, uuid.toList = dashed a b c d e ∧ Groups a b c d e := by
  unfold isUuid at h
  split at h
  · rename_i a b c d e hs
    simp only [Bool.and_eq_true, hexGroup_iff] at h
    obtain ⟨⟨⟨⟨ha,hb⟩,hc⟩,hd⟩,he⟩ := h
    refine ⟨a.toList,b.toList,c.toList,d.toList,e.toList,?_,ha.1,hb.1,hc.1,hd.1,he.1,?_⟩
    · rw [← toList_join_groups, ← hs, join_split]
    · intro x hx
      simp only [List.mem_append] at hx
      rcases hx with hx | hx | hx | hx | hx
      · exact ha.2 x hx
      · exact hb.2 x hx
      · exact hc.2 x hx
      · exact hd.2 x hx
      · exact he.2 x hx
  · cases h

theorem hexDigit_ne_dash {c : Char} (h : hexDigit c = true) : c ≠ '-' := by
  rintro rfl
  exact absurd h (by decide)

theorem filter_dashed {a b c d e : List Char} (h : Groups a b c d e) :
    (dashed a b c d e).filter (fun c => c ≠ '-') = a++(b++(c++(d++e))) := by
  have hkeep : ∀ l : List Char, (∀ x ∈ l, x ∈ a++(b++(c++(d++e)))) →
      l.filter (fun c => c ≠ '-') = l := by
    intro l hl
    rw [List.filter_eq_self]
    intro x hx
    simpa using hexDigit_ne_dash (h.hex x (hl x hx))
  simp only [dashed, List.filter_append, List.filter_cons]
  rw [hkeep a (fun x hx => by simp [hx]), hkeep b (fun x hx => by simp [hx]),
    hkeep c (fun x hx => by simp [hx]), hkeep d (fun x hx => by simp [hx]),
    hkeep e (fun x hx => by simp [hx])]
  simp

theorem uuidOfHex_groups {a b c d e : List Char} (h : Groups a b c d e) (f : Char → Char)
    (hf : f '-' = '-') :
    (uuidOfHex ((a++(b++(c++(d++e)))).map f)).toList = (dashed a b c d e).map f := by
  have ha := h.len_a
  have hb := h.len_b
  have hc := h.len_c
  have hd := h.len_d
  have hover : ∀ (l : List Char) (n : ℕ), l.length ≤ n → (l.map f).drop n = [] :=
    fun l n hl => List.drop_eq_nil_of_le (by simpa using hl)
  rw [uuidOfHex, toList_join_groups]
  simp [dashed, List.drop_append, ha, hb, hc, hd, hf, hover a 12 (by omega),
    hover a 16 (by omega), hover a 20 (by omega), hover b 8 (by omega), hover b 12 (by omega),
    hover c 8 (by omega)]

theorem length_sextets : ∀ bytes : List UInt8, (sextets bytes).length = (bytes.length*4+2)/3
  | _ :: _ :: _ :: r => by
    have ih := length_sextets r
    simp only [sextets, List.length_cons, ih]
    omega
  | [_,_] => by simp [sextets]
  | [_] => by simp [sextets]
  | [] => rfl

theorem length_encodeBytes (bytes : List UInt8) :
    (encodeBytes bytes).toList.length = (bytes.length*4+2)/3 := by
  rw [encodeBytes, String.toList_ofList, urlSafe_base64Text, List.length_map, length_sextets]

theorem all_url_encodeBytes (bytes : List UInt8) :
    (encodeBytes bytes).toList.all isUrlChar = true := by
  rw [encodeBytes, String.toList_ofList, List.all_eq_true]
  exact fun c hc => isUrlChar_urlSafe hc

theorem uuidBytes_spec {uuid : String} (h : isUuid uuid = true) :
    (uuidBytes uuid).length = 16 ∧
      (uuidOfHex (hexText (uuidBytes uuid))) = toLowerCase uuid := by
  obtain ⟨a,b,c,d,e,htext,hg⟩ := uuid_groups h
  have hlen : (a++(b++(c++(d++e)))).length = 2*16 := by
    simp [hg.len_a, hg.len_b, hg.len_c, hg.len_d, hg.len_e]
  obtain ⟨hhex,hcount⟩ := hexText_readHexBytes 16 _ hlen hg.hex
  have hbytes : uuidBytes uuid = readHexBytes (a++(b++(c++(d++e)))) := by
    rw [uuidBytes, htext, filter_dashed hg]
  rw [hbytes]
  refine ⟨hcount,?_⟩
  have hlist := uuidOfHex_groups hg Char.toLower (by decide)
  rw [hhex, toLowerCase, htext, ← hlist, String.ofList_toList]

theorem length_encodedUuid {uuid : String} (h : isUuid uuid = true) :
    (encodeBytes (uuidBytes uuid)).length = 22 := by
  rw [← String.length_toList, length_encodeBytes, (uuidBytes_spec h).1]

theorem isEncodedUuid_encode {uuid : String} (h : isUuid uuid = true) :
    isEncodedUuid (encodeBytes (uuidBytes uuid)) = true := by
  simp only [isEncodedUuid, length_encodedUuid h, all_url_encodeBytes]
  rfl

theorem topicDecoding_uuid {uuid : String} (h : isUuid uuid = true) :
    topicDecoding (encodeBytes (uuidBytes uuid)) = some (toLowerCase uuid) := by
  obtain ⟨hcount,hhex⟩ := uuidBytes_spec h
  have hbytes : readBase64 (pad ((encodeBytes (uuidBytes uuid)).toList.map ofUrlChar)) =
      uuidBytes uuid := by
    rw [readBase64_pad, encodeBytes, String.toList_ofList, readBase64_urlSafe]
  rw [topicDecoding, if_pos (isEncodedUuid_encode h), decodedUuid]
  simp only [hbytes, hcount, if_true, hhex]

theorem readHexBytes_hexId {hex : String} (h : isHexId hex = true) :
    hexText (readHexBytes hex.toList) = hex.toList.map Char.toLower ∧
      (readHexBytes hex.toList).length = 6 := by
  obtain ⟨hlen,hdig⟩ := (hexGroup_iff 12 hex).mp h
  exact hexText_readHexBytes 6 _ hlen hdig

theorem length_encodedHexId {hex : String} (h : isHexId hex = true) :
    (encodeBytes (readHexBytes hex.toList)).length = 8 := by
  rw [← String.length_toList, length_encodeBytes, (readHexBytes_hexId h).2]

theorem isEncodedHexId_encode {hex : String} (h : isHexId hex = true) :
    isEncodedHexId (encodeBytes (readHexBytes hex.toList)) = true := by
  simp only [isEncodedHexId, length_encodedHexId h, all_url_encodeBytes]
  rfl

theorem topicDecoding_hexId {hex : String} (h : isHexId hex = true) :
    topicDecoding (encodeBytes (readHexBytes hex.toList)) = some (toLowerCase hex) := by
  obtain ⟨hhex,hcount⟩ := readHexBytes_hexId h
  have hnot : isEncodedUuid (encodeBytes (readHexBytes hex.toList)) = false := by
    simp only [isEncodedUuid, length_encodedHexId h]
    rfl
  have hbytes : readBase64 ((encodeBytes (readHexBytes hex.toList)).toList.map ofUrlChar) =
      readHexBytes hex.toList := by
    rw [encodeBytes, String.toList_ofList, readBase64_urlSafe]
  rw [topicDecoding, hnot, if_neg (by simp), if_pos (isEncodedHexId_encode h), decodedHexId]
  simp only [hbytes, hcount, if_true, hhex]
  rfl

theorem topicDecoding_encoding {value encoded : String} (h : topicEncoding value = some encoded) :
    topicDecoding encoded = some (toLowerCase value) := by
  unfold topicEncoding at h
  split at h
  · rename_i hu
    obtain rfl := Option.some.inj h
    exact topicDecoding_uuid hu
  · split at h
    · rename_i hx
      obtain rfl := Option.some.inj h
      exact topicDecoding_hexId hx
    · cases h

abbrev Cache := OrderedMap String String

def maxCacheSize : ℕ := 1024

def evictOldest (cache : Cache) : Cache :=
  if maxCacheSize ≤ cache.size then
    match cache.keys.head? with
    | some firstKey => cache.delete firstKey
    | none => cache
  else cache

structure Caches where
  encodeCache : Cache
  decodeCache : Cache
  encode_sound : ∀ k v, encodeCache.get? k = some v → topicEncoding k = some v
  decode_sound : ∀ k v, decodeCache.get? k = some v → topicDecoding k = some v

def emptyCaches : Caches :=
  ⟨.empty,.empty,(fun _ _ h => by cases h),(fun _ _ h => by cases h)⟩

theorem get?_evictOldest {cache : Cache} {k v : String}
    (h : (evictOldest cache).get? k = some v) : cache.get? k = some v := by
  unfold evictOldest at h
  split at h
  · split at h
    · rw [OrderedMap.get?_delete] at h
      split at h
      · cases h
      · exact h
    · exact h
  · exact h

theorem sound_set {cache : Cache} {f : String → Option String}
    (hs : ∀ k v, cache.get? k = some v → f k = some v) {key value : String}
    (h : f key = some value) :
    ∀ k v, ((evictOldest cache).set key value).get? k = some v → f k = some v := by
  intro k v hget
  rw [OrderedMap.get?_set] at hget
  split at hget
  · rename_i hk
    rw [hk, h]
    exact hget
  · exact hs k v (get?_evictOldest hget)

def Caches.setEncoded (c : Caches) (value encoded : String)
    (h : topicEncoding value = some encoded) : Caches where
  encodeCache := (evictOldest c.encodeCache).set value encoded
  decodeCache := (evictOldest c.decodeCache).set encoded (toLowerCase value)
  encode_sound := sound_set c.encode_sound h
  decode_sound := sound_set c.decode_sound (topicDecoding_encoding h)

def Caches.setDecoded (c : Caches) (encoded value : String)
    (h : topicDecoding encoded = some value) : Caches where
  encodeCache := c.encodeCache
  decodeCache := (evictOldest c.decodeCache).set encoded value
  encode_sound := c.encode_sound
  decode_sound := sound_set c.decode_sound h

/-- An empty text counts as not cached. -/
def hit (cache : Cache) (key : String) : Option String := (cache.get? key).filter (fun v => v ≠ "")

/-- The look-up and the keeping that the two encoders share; none where they
throw. -/
def encodeWith (valid : String → Bool) (c : Caches) (value : String) : Option String × Caches :=
  match hit c.encodeCache value with
  | some encoded => (some encoded,c)
  | none =>
    if valid value then
      match h : topicEncoding value with
      | some encoded => (some encoded,c.setEncoded value encoded h)
      | none => (none,c)
    else (none,c)

def decodeWith (valid : String → Bool) (c : Caches) (encoded : String) : Option String × Caches :=
  match hit c.decodeCache encoded with
  | some value => (some value,c)
  | none =>
    if valid encoded then
      match h : topicDecoding encoded with
      | some value => (some value,c.setDecoded encoded value h)
      | none => (none,c)
    else (none,c)

def encodeUuid : Caches → String → Option String × Caches := encodeWith isUuid

def encodeHexId : Caches → String → Option String × Caches := encodeWith isHexId

def decodeUuid : Caches → String → Option String × Caches := decodeWith isEncodedUuid

def decodeHexId : Caches → String → Option String × Caches := decodeWith isEncodedHexId

def encodeIfUuid (c : Caches) (value : String) : String × Caches :=
  if value = "+" ∨ value = "#" ∨ value = "*" then (value,c)
  else if isUuid value then (((encodeUuid c value).1).getD value,(encodeUuid c value).2)
  else if isHexId value then (((encodeHexId c value).1).getD value,(encodeHexId c value).2)
  else (value,c)

theorem hit_sound {cache : Cache} {f : String → Option String}
    (hs : ∀ k v, cache.get? k = some v → f k = some v) {key value : String}
    (h : hit cache key = some value) : f key = some value :=
  hs key value (Option.filter_eq_some_iff.mp h).1

theorem encodeWith_eq {valid : String → Bool} (c : Caches) {value : String}
    (hv : valid value = true) : (encodeWith valid c value).1 = topicEncoding value := by
  unfold encodeWith
  split
  · rename_i encoded hhit
    exact (hit_sound c.encode_sound hhit).symm
  · rw [if_pos hv]
    split
    · rename_i h
      exact h.symm
    · rename_i h
      exact h.symm

theorem decodeWith_eq {valid : String → Bool} (c : Caches) {encoded : String}
    (hv : valid encoded = true) : (decodeWith valid c encoded).1 = topicDecoding encoded := by
  unfold decodeWith
  split
  · rename_i value hhit
    exact (hit_sound c.decode_sound hhit).symm
  · rw [if_pos hv]
    split
    · rename_i h
      exact h.symm
    · rename_i h
      exact h.symm

theorem encodeIfUuid_eq (c : Caches) (value : String) :
    (encodeIfUuid c value).1 = (topicEncoding value).getD value := by
  unfold encodeIfUuid
  split
  · rename_i hw
    have hnone : topicEncoding value = none := by
      rcases hw with rfl | rfl | rfl <;> decide
    rw [hnone]
    rfl
  · split
    · rename_i hu
      simp only [encodeUuid, encodeWith_eq c hu]
    · split
      · rename_i hx
        simp only [encodeHexId, encodeWith_eq c hx]
      · rename_i hu hx
        simp only [topicEncoding, hu, hx]
        rfl

theorem not_mem_of_isUrlChar {cs : List Char} {c : Char} (h : cs.all isUrlChar = true)
    (hc : isUrlChar c = false) : c ∉ cs := by
  intro hm
  rw [List.all_eq_true.mp h c hm] at hc
  cases hc

theorem plain_encodeIfUuid (c : Caches) {value : String} (h : '/' ∉ value.toList) :
    '/' ∉ (encodeIfUuid c value).1.toList := by
  rw [encodeIfUuid_eq]
  unfold topicEncoding
  split
  · exact not_mem_of_isUrlChar (all_url_encodeBytes _) (by decide)
  · split
    · exact not_mem_of_isUrlChar (all_url_encodeBytes _) (by decide)
    · exact h

theorem length_of_isUuid {uuid : String} (h : isUuid uuid = true) : uuid.length = 36 := by
  obtain ⟨a,b,c,d,e,htext,hg⟩ := uuid_groups h
  rw [← String.length_toList, htext]
  simp [dashed, hg.len_a, hg.len_b, hg.len_c, hg.len_d, hg.len_e]

theorem length_of_isHexId {hex : String} (h : isHexId hex = true) : hex.length = 12 := by
  rw [← String.length_toList]
  exact ((hexGroup_iff 12 hex).mp h).1

theorem length_of_isEncodedHexId {s : String} (h : isEncodedHexId s = true) : s.length = 8 := by
  simp only [isEncodedHexId, Bool.and_eq_true, decide_eq_true_eq] at h
  exact h.1

theorem length_hexText (bytes : List UInt8) : (hexText bytes).length = 2*bytes.length := by
  induction bytes with
  | nil => rfl
  | cons b bytes ih =>
    simp only [hexText, List.flatMap_cons, List.length_append, List.length_cons] at ih ⊢
    rw [ih]
    simp only [List.length_nil]
    omega

theorem topicDecoding_eight {s : String} (h : isEncodedHexId s = true) :
    ∃ hex, topicDecoding s = some hex ∧ hex.length = 12 := by
  have hlen := length_of_isEncodedHexId h
  have hall : ∀ c ∈ s.toList, isUrlChar c = true := by
    simp only [isEncodedHexId, Bool.and_eq_true, List.all_eq_true] at h
    exact h.2
  have hnot : isEncodedUuid s = false := by
    simp only [isEncodedUuid, hlen]
    rfl
  have hsix : (readBase64 (s.toList.map ofUrlChar)).length = 6 := by
    have hcount := length_filterMap_url hall
    rw [String.length_toList, hlen] at hcount
    rw [readBase64, length_ofSextets, hcount]
  refine ⟨String.ofList (hexText (readBase64 (s.toList.map ofUrlChar))),?_,?_⟩
  · rw [topicDecoding, hnot, if_neg (by simp), if_pos h, decodedHexId]
    simp only [hsix, if_true]
  · rw [← String.length_toList, String.toList_ofList, length_hexText, hsix]

end Iotistica.Topics
