import Iotistica.GuardedRun
import Iotistica.TopicRouting

/-!
# The agent's codec of ids in topics

The agent and the cloud service each have a copy of the codec, with caches of
their own. The agent's copy puts a uuid together in a template where the
other one joins its groups. A call is answered from the cache before its
argument is looked at.
-/

set_option autoImplicit false

namespace Iotistica.AgentTopics
open Iotistica.JsText Iotistica.ByteText Iotistica.GuardedRun
open Iotistica.Topics (Cache Caches evictOldest hit isUuid isHexId isEncodedUuid isEncodedHexId
  encodeBytes uuidBytes topicEncoding topicDecoding)

structure Kept where
  encodeCache : Cache
  decodeCache : Cache

def Kept.empty : Kept := ⟨.empty,.empty⟩

def Kept.setEncoded (c : Kept) (id encoded : String) : Kept where
  encodeCache := (evictOldest c.encodeCache).set id encoded
  decodeCache := (evictOldest c.decodeCache).set encoded (toLowerCase id)

def Kept.setDecoded (c : Kept) (encoded id : String) : Kept where
  encodeCache := c.encodeCache
  decodeCache := (evictOldest c.decodeCache).set encoded id

/-- What a call returns or throws. -/
abbrev Answer := Except String String

def encodeWith (valid : String → Bool) (bytes : String → List UInt8) (invalid : String) (c : Kept)
    (id : String) : Answer × Kept :=
  match hit c.encodeCache id with
  | some cached => (.ok cached,c)
  | none =>
    if valid id then
      let encoded := encodeBytes (bytes id)
      (.ok encoded,c.setEncoded id encoded)
    else (.error (invalid++id),c)

def decodeWith (valid : String → Bool) (decoded : String → Answer) (invalid : String) (c : Kept)
    (encoded : String) : Answer × Kept :=
  match hit c.decodeCache encoded with
  | some cached => (.ok cached,c)
  | none =>
    if valid encoded then
      match decoded encoded with
      | .ok id => (.ok id,c.setDecoded encoded id)
      | .error e => (.error e,c)
    else (.error (invalid++encoded),c)

def uuidOfHex (h : List Char) : String :=
  String.ofList (h.take 8)++"-"++String.ofList ((h.drop 8).take 4)++"-"++
    String.ofList ((h.drop 12).take 4)++"-"++String.ofList ((h.drop 16).take 4)++"-"++
      String.ofList (h.drop 20)

def decodedUuid (encoded : String) : Answer :=
  let bytes := readBase64 (pad (encoded.toList.map ofUrlChar))
  if bytes.length = 16 then .ok (uuidOfHex (hexText bytes))
  else .error ("Invalid encoded UUID: decoded to "++toString bytes.length++" bytes, expected 16")

def decodedHexId (encoded : String) : Answer :=
  let bytes := readBase64 (encoded.toList.map ofUrlChar)
  if bytes.length = 6 then .ok (String.ofList (hexText bytes))
  else .error ("Invalid encoded hex ID: decoded to "++toString bytes.length++" bytes, expected 6")

def encodeUuid : Kept → String → Answer × Kept := encodeWith isUuid uuidBytes "Invalid UUID: "

def encodeHexId : Kept → String → Answer × Kept :=
  encodeWith isHexId (fun hex => readHexBytes hex.toList) "Invalid hex ID: "

def decodeUuid : Kept → String → Answer × Kept :=
  decodeWith isEncodedUuid decodedUuid "Invalid encoded UUID: "

def decodeHexId : Kept → String → Answer × Kept :=
  decodeWith isEncodedHexId decodedHexId "Invalid encoded hex ID: "

def encodeIfUuid (c : Kept) (value : String) : Answer × Kept :=
  if value = "+" ∨ value = "#" ∨ value = "*" then (.ok value,c)
  else if isUuid value then encodeUuid c value
  else if isHexId value then encodeHexId c value
  else (.ok value,c)

def agentTopic (c : Kept) (tenantId agentUuid : String) (segments : List String) : Answer × Kept :=
  match encodeIfUuid c tenantId with
  | (.error e,c') => (.error e,c')
  | (.ok tenant,c') =>
    match encodeIfUuid c' agentUuid with
    | (.error e,c'') => (.error e,c'')
    | (.ok agent,c'') => (.ok (join ("i" :: tenant :: "a" :: agent :: segments) '/'),c'')

inductive Call where
  | encodeUuid (uuid : String)
  | decodeUuid (encoded : String)
  | encodeHexId (hex : String)
  | decodeHexId (encoded : String)
  deriving DecidableEq

def ask (c : Kept) : Call → Answer × Kept
  | .encodeUuid uuid => encodeUuid c uuid
  | .decodeUuid encoded => decodeUuid c encoded
  | .encodeHexId hex => encodeHexId c hex
  | .decodeHexId encoded => decodeHexId c encoded

def step (c : Kept) (call : Call) : Kept := (ask c call).2

def reached (history : List Call) : Kept := run step history .empty

def cloudAsk (c : Caches) : Call → Option String × Caches
  | .encodeUuid uuid => Topics.encodeUuid c uuid
  | .decodeUuid encoded => Topics.decodeUuid c encoded
  | .encodeHexId hex => Topics.encodeHexId c hex
  | .decodeHexId encoded => Topics.decodeHexId c encoded

def cloudStep (c : Caches) (call : Call) : Caches := (cloudAsk c call).2

def cloudReached (history : List Call) : Caches := run cloudStep history Topics.emptyCaches

structure Alike (a : Kept) (c : Caches) : Prop where
  encodeCache : a.encodeCache = c.encodeCache
  decodeCache : a.decodeCache = c.decodeCache

structure InStep (x : Answer × Kept) (y : Option String × Caches) : Prop where
  answer : x.1.toOption = y.1
  alike : Alike x.2 y.2

theorem uuidOfHex_eq (h : List Char) : uuidOfHex h = Topics.uuidOfHex h := by
  apply String.toList_injective
  rw [Topics.uuidOfHex, Topics.toList_join_groups]
  simp [uuidOfHex, Topics.dashed]

theorem topicEncoding_uuid {uuid : String} (h : isUuid uuid = true) :
    topicEncoding uuid = some (encodeBytes (uuidBytes uuid)) := by
  rw [topicEncoding, if_pos h]

theorem not_isUuid_of_isHexId {hex : String} (h : isHexId hex = true) : isUuid hex = false := by
  by_contra hu
  have hlong := Topics.length_of_isUuid (Bool.not_eq_false _ ▸ hu)
  have hshort := Topics.length_of_isHexId h
  omega

theorem topicEncoding_hexId {hex : String} (h : isHexId hex = true) :
    topicEncoding hex = some (encodeBytes (readHexBytes hex.toList)) := by
  rw [topicEncoding, not_isUuid_of_isHexId h, if_neg Bool.false_ne_true, if_pos h]

theorem length_of_isEncodedUuid {s : String} (h : isEncodedUuid s = true) : s.length = 22 := by
  simp only [isEncodedUuid, Bool.and_eq_true, decide_eq_true_eq] at h
  exact h.1

theorem topicDecoding_of_isEncodedUuid {s : String} (h : isEncodedUuid s = true) :
    topicDecoding s = (decodedUuid s).toOption := by
  rw [topicDecoding, if_pos h, Topics.decodedUuid, decodedUuid]
  split
  · rw [uuidOfHex_eq]
    rfl
  · rfl

theorem topicDecoding_of_isEncodedHexId {s : String} (h : isEncodedHexId s = true) :
    topicDecoding s = (decodedHexId s).toOption := by
  have hnot : isEncodedUuid s = false := by
    by_contra hu
    have hlong := length_of_isEncodedUuid (Bool.not_eq_false _ ▸ hu)
    have hshort := Topics.length_of_isEncodedHexId h
    omega
  rw [topicDecoding, hnot, if_neg Bool.false_ne_true, if_pos h, Topics.decodedHexId, decodedHexId]
  split
  · rfl
  · rfl

theorem encodeWith_hit (valid : String → Bool) {c : Caches} {value encoded : String}
    (h : hit c.encodeCache value = some encoded) :
    Topics.encodeWith valid c value = (some encoded,c) := by
  unfold Topics.encodeWith
  rw [h]

theorem encodeWith_invalid {valid : String → Bool} {c : Caches} {value : String}
    (h : hit c.encodeCache value = none) (hv : valid value = false) :
    Topics.encodeWith valid c value = (none,c) := by
  unfold Topics.encodeWith
  rw [h, hv]
  rfl

theorem encodeWith_valid {valid : String → Bool} {c : Caches} {value encoded : String}
    (h : hit c.encodeCache value = none) (hv : valid value = true)
    (he : topicEncoding value = some encoded) :
    Topics.encodeWith valid c value = (some encoded,c.setEncoded value encoded he) := by
  unfold Topics.encodeWith
  rw [h, hv]
  dsimp only
  rw [if_pos rfl]
  split
  · rename_i encoded' he'
    obtain rfl := Option.some.inj (he.symm.trans he')
    rfl
  · rename_i he'
    cases he.symm.trans he'

theorem decodeWith_hit (valid : String → Bool) {c : Caches} {encoded value : String}
    (h : hit c.decodeCache encoded = some value) :
    Topics.decodeWith valid c encoded = (some value,c) := by
  unfold Topics.decodeWith
  rw [h]

theorem decodeWith_none {valid : String → Bool} {c : Caches} {encoded : String}
    (h : hit c.decodeCache encoded = none)
    (hv : valid encoded = true → topicDecoding encoded = none) :
    Topics.decodeWith valid c encoded = (none,c) := by
  unfold Topics.decodeWith
  rw [h]
  dsimp only
  split
  · rename_i hval
    split
    · rename_i value hd
      cases (hv hval).symm.trans hd
    · rfl
  · rfl

theorem decodeWith_valid {valid : String → Bool} {c : Caches} {encoded value : String}
    (h : hit c.decodeCache encoded = none) (hv : valid encoded = true)
    (hd : topicDecoding encoded = some value) :
    Topics.decodeWith valid c encoded = (some value,c.setDecoded encoded value hd) := by
  unfold Topics.decodeWith
  rw [h, hv]
  dsimp only
  rw [if_pos rfl]
  split
  · rename_i value' hd'
    obtain rfl := Option.some.inj (hd.symm.trans hd')
    rfl
  · rename_i hd'
    cases hd.symm.trans hd'

theorem encode_inStep {valid : String → Bool} {bytes : String → List UInt8} (invalid : String)
    (henc : ∀ id, valid id = true → topicEncoding id = some (encodeBytes (bytes id)))
    {a : Kept} {c : Caches} (h : Alike a c) (id : String) :
    InStep (encodeWith valid bytes invalid a id) (Topics.encodeWith valid c id) := by
  unfold encodeWith
  rw [h.encodeCache]
  cases hhit : hit c.encodeCache id with
  | some cached =>
    rw [encodeWith_hit valid hhit]
    exact ⟨rfl,h⟩
  | none =>
    cases hv : valid id with
    | false =>
      rw [encodeWith_invalid hhit hv]
      exact ⟨rfl,h⟩
    | true =>
      rw [encodeWith_valid hhit hv (henc id hv)]
      refine ⟨rfl,?_,?_⟩
      · simp only [if_true, Kept.setEncoded, Caches.setEncoded, h.encodeCache]
      · simp only [if_true, Kept.setEncoded, Caches.setEncoded, h.decodeCache]

theorem decode_inStep {valid : String → Bool} {decoded : String → Answer} (invalid : String)
    (hdec : ∀ s, valid s = true → topicDecoding s = (decoded s).toOption)
    {a : Kept} {c : Caches} (h : Alike a c) (encoded : String) :
    InStep (decodeWith valid decoded invalid a encoded) (Topics.decodeWith valid c encoded) := by
  unfold decodeWith
  rw [h.decodeCache]
  cases hhit : hit c.decodeCache encoded with
  | some cached =>
    rw [decodeWith_hit valid hhit]
    exact ⟨rfl,h⟩
  | none =>
    cases hv : valid encoded with
    | false =>
      rw [decodeWith_none hhit (fun ht => by cases hv.symm.trans ht)]
      exact ⟨rfl,h⟩
    | true =>
      have hd := hdec encoded hv
      cases hdecoded : decoded encoded with
      | error e =>
        rw [hdecoded] at hd
        rw [decodeWith_none hhit (fun _ => hd)]
        exact ⟨rfl,h⟩
      | ok id =>
        rw [hdecoded] at hd
        rw [decodeWith_valid hhit hv hd]
        refine ⟨rfl,h.encodeCache,?_⟩
        simp only [if_true, Kept.setDecoded, Caches.setDecoded, h.decodeCache]

theorem ask_inStep {a : Kept} {c : Caches} (h : Alike a c) (call : Call) :
    InStep (ask a call) (cloudAsk c call) := by
  cases call with
  | encodeUuid uuid => exact encode_inStep _ (fun _ => topicEncoding_uuid) h uuid
  | decodeUuid encoded => exact decode_inStep _ (fun _ => topicDecoding_of_isEncodedUuid) h encoded
  | encodeHexId hex => exact encode_inStep _ (fun _ => topicEncoding_hexId) h hex
  | decodeHexId encoded =>
    exact decode_inStep _ (fun _ => topicDecoding_of_isEncodedHexId) h encoded

theorem run_alike (history : List Call) {a : Kept} {c : Caches} (h : Alike a c) :
    Alike (run step history a) (run cloudStep history c) := by
  induction history generalizing a c with
  | nil => exact h
  | cons call history ih => exact ih (ask_inStep h call).alike

theorem reached_alike (history : List Call) : Alike (reached history) (cloudReached history) :=
  run_alike history ⟨rfl,rfl⟩

end Iotistica.AgentTopics
