import Iotistica.AgentTopicCodec

/-!
# Ids on both sides

Whatever is cached on either side, an id is encoded alike by the agent and by
the cloud service, and each decodes what the other one has encoded. The two
kinds of ids share both caches, and a cached answer is given before the
argument is looked at: an id that one function has encoded is accepted by the
function of the other kind for as long as it is cached.
-/

set_option autoImplicit false

namespace Iotistica.AgentTopics
open Iotistica.JsText Iotistica.JsNumerals Iotistica.ByteText Iotistica.TopicRouting
open Iotistica.Topics (Cache Caches hit isUuid isHexId isEncodedUuid isEncodedHexId encodeBytes
  uuidBytes topicEncoding topicDecoding)
open Iotistica.GuardedRun

inductive Side where
  | agent (history : List Call)
  | cloud (caches : Caches)

/-- None where the call throws. -/
def Side.answer (side : Side) (call : Call) : Option String :=
  match side with
  | .agent history => (ask (reached history) call).1.toOption
  | .cloud caches => (cloudAsk caches call).1

def Side.topic (side : Side) (tenantId agentUuid : String) (segments : List String) :
    Option String :=
  match side with
  | .agent history => (agentTopic (reached history) tenantId agentUuid segments).1.toOption
  | .cloud caches => some (topicOf caches tenantId agentUuid segments).1

/-- Ids go from one side to the other. -/
structure Carried (a b : Side) : Prop where
  uuid : ∀ uuid, isUuid uuid = true → ∃ encoded, a.answer (.encodeUuid uuid) = some encoded ∧
    b.answer (.encodeUuid uuid) = some encoded ∧ encoded.length = 22 ∧
      encoded.toList.all isUrlChar = true ∧
        b.answer (.decodeUuid encoded) = some (toLowerCase uuid)
  hexId : ∀ hex, isHexId hex = true → ∃ encoded, a.answer (.encodeHexId hex) = some encoded ∧
    b.answer (.encodeHexId hex) = some encoded ∧ encoded.length = 8 ∧
      encoded.toList.all isUrlChar = true ∧
        b.answer (.decodeHexId encoded) = some (toLowerCase hex)
  uuid_injective : ∀ u v, isUuid u = true → isUuid v = true →
    (a.answer (.encodeUuid u) = b.answer (.encodeUuid v) ↔ toLowerCase u = toLowerCase v)
  hexId_injective : ∀ g h, isHexId g = true → isHexId h = true →
    (a.answer (.encodeHexId g) = b.answer (.encodeHexId h) ↔ toLowerCase g = toLowerCase h)
  topic : ∀ tenantId agentUuid segment segments, isHexId tenantId = true →
    isUuid agentUuid = true → ∃ text,
      a.topic tenantId agentUuid (segment :: segments) = some text ∧
      b.topic tenantId agentUuid (segment :: segments) = some text ∧
      ∀ c : Caches, ∃ parsed, (parseMqttTopic c text).1 = some parsed ∧
        parsed.tenantId = toLowerCase tenantId ∧ parsed.agentUuid = toLowerCase agentUuid

theorem answer_encodeUuid (side : Side) {uuid : String} (h : isUuid uuid = true) :
    side.answer (.encodeUuid uuid) = some (encodeBytes (uuidBytes uuid)) := by
  have hcloud : ∀ c : Caches, (cloudAsk c (.encodeUuid uuid)).1 =
      some (encodeBytes (uuidBytes uuid)) := by
    intro c
    exact (Topics.encodeWith_eq c h).trans (topicEncoding_uuid h)
  cases side with
  | agent history => exact (ask_inStep (reached_alike history) _).answer.trans (hcloud _)
  | cloud c => exact hcloud c

theorem answer_encodeHexId (side : Side) {hex : String} (h : isHexId hex = true) :
    side.answer (.encodeHexId hex) = some (encodeBytes (readHexBytes hex.toList)) := by
  have hcloud : ∀ c : Caches, (cloudAsk c (.encodeHexId hex)).1 =
      some (encodeBytes (readHexBytes hex.toList)) := by
    intro c
    exact (Topics.encodeWith_eq c h).trans (topicEncoding_hexId h)
  cases side with
  | agent history => exact (ask_inStep (reached_alike history) _).answer.trans (hcloud _)
  | cloud c => exact hcloud c

theorem answer_decodeUuid (side : Side) {encoded : String} (h : isEncodedUuid encoded = true) :
    side.answer (.decodeUuid encoded) = topicDecoding encoded := by
  cases side with
  | agent history =>
    exact (ask_inStep (reached_alike history) _).answer.trans (Topics.decodeWith_eq _ h)
  | cloud c => exact Topics.decodeWith_eq c h

theorem answer_decodeHexId (side : Side) {encoded : String} (h : isEncodedHexId encoded = true) :
    side.answer (.decodeHexId encoded) = topicDecoding encoded := by
  cases side with
  | agent history =>
    exact (ask_inStep (reached_alike history) _).answer.trans (Topics.decodeWith_eq _ h)
  | cloud c => exact Topics.decodeWith_eq c h

theorem encodeBytes_injective {xs ys : List UInt8} (h : encodeBytes xs = encodeBytes ys) :
    xs = ys := by
  have hurl : urlSafe (base64Text xs) = urlSafe (base64Text ys) := String.ofList_injective h
  rw [← readBase64_urlSafe xs, hurl, readBase64_urlSafe]

theorem hexChar_ne_dash : ∀ n, n < 16 → hexChar n ≠ '-' := by decide

theorem hexText_ne_dash (bytes : List UInt8) : ∀ c ∈ hexText bytes, c ≠ '-' := by
  intro c hc
  obtain ⟨b,-,hb⟩ := List.mem_flatMap.mp hc
  have hlt := b.toNat_lt
  rcases List.mem_cons.mp hb with rfl | hb
  · exact hexChar_ne_dash _ (by omega)
  · obtain rfl := List.mem_singleton.mp hb
    exact hexChar_ne_dash _ (by omega)

theorem filter_uuidOfHex {h : List Char} (hd : ∀ c ∈ h, c ≠ '-') :
    (Topics.uuidOfHex h).toList.filter (fun c => c ≠ '-') = h := by
  have hkeep : ∀ l : List Char, l ⊆ h → l.filter (fun c => c ≠ '-') = l := by
    intro l hl
    rw [List.filter_eq_self]
    intro c hc
    simpa using hd c (hl hc)
  have hlast : (h.drop 16).take 4++h.drop 20 = h.drop 16 := by
    rw [show h.drop 20 = (h.drop 16).drop 4 by rw [List.drop_drop], List.take_append_drop]
  have hthird : (h.drop 12).take 4++h.drop 16 = h.drop 12 := by
    rw [show h.drop 16 = (h.drop 12).drop 4 by rw [List.drop_drop], List.take_append_drop]
  have hsecond : (h.drop 8).take 4++h.drop 12 = h.drop 8 := by
    rw [show h.drop 12 = (h.drop 8).drop 4 by rw [List.drop_drop], List.take_append_drop]
  have htake : ∀ n, (h.drop n).take 4 ⊆ h := fun n =>
    List.Subset.trans (List.take_subset _ _) (List.drop_subset _ _)
  rw [Topics.uuidOfHex, Topics.toList_join_groups]
  simp only [Topics.dashed, String.toList_ofList, List.filter_append, List.filter_cons, ne_eq,
    not_true_eq_false, decide_false, Bool.false_eq_true, if_false]
  rw [hkeep _ (List.take_subset _ _), hkeep _ (htake 8), hkeep _ (htake 12), hkeep _ (htake 16),
    hkeep _ (List.drop_subset _ _), hlast, hthird, hsecond, List.take_append_drop]

theorem hexText_uuidBytes {uuid : String} (h : isUuid uuid = true) :
    hexText (uuidBytes uuid) = (toLowerCase uuid).toList.filter (fun c => c ≠ '-') := by
  rw [← (Topics.uuidBytes_spec h).2, filter_uuidOfHex (hexText_ne_dash _)]

theorem uuidBytes_eq_iff {u v : String} (hu : isUuid u = true) (hv : isUuid v = true) :
    uuidBytes u = uuidBytes v ↔ toLowerCase u = toLowerCase v := by
  constructor
  · intro h
    rw [← (Topics.uuidBytes_spec hu).2, ← (Topics.uuidBytes_spec hv).2, h]
  · intro h
    rw [← readHexBytes_hexText (uuidBytes u), hexText_uuidBytes hu, h, ← hexText_uuidBytes hv,
      readHexBytes_hexText]

theorem hexBytes_eq_iff {g h : String} (hg : isHexId g = true) (hh : isHexId h = true) :
    readHexBytes g.toList = readHexBytes h.toList ↔ toLowerCase g = toLowerCase h := by
  have hgt := (Topics.readHexBytes_hexId hg).1
  have hht := (Topics.readHexBytes_hexId hh).1
  constructor
  · intro heq
    rw [toLowerCase, toLowerCase, ← hgt, ← hht, heq]
  · intro heq
    have hchars : g.toList.map Char.toLower = h.toList.map Char.toLower :=
      String.ofList_injective heq
    rw [← readHexBytes_hexText (readHexBytes g.toList), hgt, hchars, ← hht, readHexBytes_hexText]

def idTopic (tenantId agentUuid : String) (segments : List String) : String :=
  join ("i" :: encodeBytes (readHexBytes tenantId.toList) :: "a" ::
    encodeBytes (uuidBytes agentUuid) :: segments) '/'

theorem not_wildcard {value : String} (h : 1 < value.length) :
    ¬(value = "+" ∨ value = "#" ∨ value = "*") := by
  rintro (rfl | rfl | rfl) <;> exact absurd h (by decide)

theorem encodeIfUuid_hexId (k : Kept) {tenantId : String} (h : isHexId tenantId = true) :
    encodeIfUuid k tenantId = encodeHexId k tenantId := by
  have hwild : ¬(tenantId = "+" ∨ tenantId = "#" ∨ tenantId = "*") :=
    not_wildcard (by rw [Topics.length_of_isHexId h]; decide)
  rw [encodeIfUuid, if_neg hwild, if_neg (by simp [not_isUuid_of_isHexId h]), if_pos h]

theorem encodeIfUuid_uuid (k : Kept) {agentUuid : String} (h : isUuid agentUuid = true) :
    encodeIfUuid k agentUuid = encodeUuid k agentUuid := by
  have hwild : ¬(agentUuid = "+" ∨ agentUuid = "#" ∨ agentUuid = "*") :=
    not_wildcard (by rw [Topics.length_of_isUuid h]; decide)
  rw [encodeIfUuid, if_neg hwild, if_pos h]

theorem agentTopic_eq (history : List Call) {tenantId agentUuid : String}
    (ht : isHexId tenantId = true) (ha : isUuid agentUuid = true) (segments : List String) :
    (agentTopic (reached history) tenantId agentUuid segments).1.toOption =
      some (idTopic tenantId agentUuid segments) := by
  have htenant := answer_encodeHexId (.agent history) ht
  have hagent := answer_encodeUuid (.agent (history++[.encodeHexId tenantId])) ha
  have hreached : reached (history++[.encodeHexId tenantId]) =
      (encodeHexId (reached history) tenantId).2 := GuardedRun.run_append _ _ _ _
  simp only [Side.answer, ask, hreached] at htenant hagent
  unfold agentTopic
  rw [encodeIfUuid_hexId _ ht]
  cases henc : encodeHexId (reached history) tenantId with
  | mk answer c =>
    rw [henc] at htenant hagent
    cases answer with
    | error e => cases htenant
    | ok tenant =>
      obtain rfl := Option.some.inj htenant
      dsimp only
      rw [encodeIfUuid_uuid _ ha]
      cases henc' : encodeUuid c agentUuid with
      | mk answer' c' =>
        rw [henc'] at hagent
        cases answer' with
        | error e => cases hagent
        | ok agent =>
          obtain rfl := Option.some.inj hagent
          rfl

theorem topic_eq (side : Side) {tenantId agentUuid : String} (ht : isHexId tenantId = true)
    (ha : isUuid agentUuid = true) (segments : List String) :
    side.topic tenantId agentUuid segments = some (idTopic tenantId agentUuid segments) := by
  cases side with
  | agent history => exact agentTopic_eq history ht ha segments
  | cloud c =>
    show some (topicOf c tenantId agentUuid segments).1 = _
    rw [topicOf]
    simp only [Topics.encodeIfUuid_eq, topicEncoding_hexId ht, topicEncoding_uuid ha,
      Option.getD_some]
    rfl

theorem parse_of_split {c : Caches} {topic tenantId agentUuid type : String} {rest : List String}
    (h : split topic '/' = "i" :: tenantId :: "a" :: agentUuid :: type :: rest) :
    ∃ parsed, (parseMqttTopic c topic).1 = some parsed ∧
      parsed.tenantId = (decodeId isEncodedHexId Topics.decodeHexId c tenantId).1 ∧
        parsed.agentUuid = (decodeId isEncodedUuid Topics.decodeUuid
          (decodeId isEncodedHexId Topics.decodeHexId c tenantId).2 agentUuid).1 := by
  unfold parseMqttTopic
  rw [h]
  simp only [ne_eq, not_true_eq_false, or_self, if_false]
  exact ⟨_,rfl,rfl,rfl⟩

theorem split_idTopic (tenantId agentUuid segment : String) (segments : List String) :
    ∃ type rest, split (idTopic tenantId agentUuid (segment :: segments)) '/' =
      "i" :: encodeBytes (readHexBytes tenantId.toList) :: "a" ::
        encodeBytes (uuidBytes agentUuid) :: type :: rest := by
  have hplain : ∀ bytes : List UInt8, '/' ∉ (encodeBytes bytes).toList := fun bytes =>
    Topics.not_mem_of_isUrlChar (Topics.all_url_encodeBytes bytes) (by decide)
  have hi : '/' ∉ "i".toList := by decide
  have ha : '/' ∉ "a".toList := by decide
  have hne : split (join (segment :: segments) '/') '/' ≠ [] := by
    unfold split
    rw [ne_eq, List.map_eq_nil_iff]
    exact splitChars_ne_nil _ _
  obtain ⟨type,rest,hrest⟩ := List.exists_cons_of_ne_nil hne
  refine ⟨type,rest,?_⟩
  rw [idTopic, join_cons, split_append hi, join_cons, split_append (hplain _), join_cons,
    split_append ha, join_cons, split_append (hplain _), hrest]

theorem decodeId_tenant (c : Caches) {tenantId : String} (h : isHexId tenantId = true) :
    (decodeId isEncodedHexId Topics.decodeHexId c
      (encodeBytes (readHexBytes tenantId.toList))).1 = toLowerCase tenantId := by
  have henc := Topics.isEncodedHexId_encode h
  unfold decodeId
  rw [if_pos henc]
  show ((Topics.decodeHexId c _).1).getD _ = _
  rw [Topics.decodeHexId, Topics.decodeWith_eq c henc, Topics.topicDecoding_hexId h,
    Option.getD_some]

theorem decodeId_agent (c : Caches) {agentUuid : String} (h : isUuid agentUuid = true) :
    (decodeId isEncodedUuid Topics.decodeUuid c (encodeBytes (uuidBytes agentUuid))).1 =
      toLowerCase agentUuid := by
  have henc := Topics.isEncodedUuid_encode h
  unfold decodeId
  rw [if_pos henc]
  show ((Topics.decodeUuid c _).1).getD _ = _
  rw [Topics.decodeUuid, Topics.decodeWith_eq c henc, Topics.topicDecoding_uuid h,
    Option.getD_some]

theorem parse_idTopic (c : Caches) {tenantId agentUuid : String} (ht : isHexId tenantId = true)
    (ha : isUuid agentUuid = true) (segment : String) (segments : List String) :
    ∃ parsed, (parseMqttTopic c (idTopic tenantId agentUuid (segment :: segments))).1 =
      some parsed ∧ parsed.tenantId = toLowerCase tenantId ∧
        parsed.agentUuid = toLowerCase agentUuid := by
  obtain ⟨type,rest,hsplit⟩ := split_idTopic tenantId agentUuid segment segments
  obtain ⟨parsed,hparsed,htenant,hagent⟩ := parse_of_split (c := c) hsplit
  exact ⟨parsed,hparsed,htenant.trans (decodeId_tenant c ht),hagent.trans (decodeId_agent _ ha)⟩

theorem ids_carried (a b : Side) : Carried a b where
  uuid uuid h := by
    refine ⟨_,answer_encodeUuid a h,answer_encodeUuid b h,Topics.length_encodedUuid h,
      Topics.all_url_encodeBytes _,?_⟩
    rw [answer_decodeUuid b (Topics.isEncodedUuid_encode h), Topics.topicDecoding_uuid h]
  hexId hex h := by
    refine ⟨_,answer_encodeHexId a h,answer_encodeHexId b h,Topics.length_encodedHexId h,
      Topics.all_url_encodeBytes _,?_⟩
    rw [answer_decodeHexId b (Topics.isEncodedHexId_encode h), Topics.topicDecoding_hexId h]
  uuid_injective u v hu hv := by
    rw [answer_encodeUuid a hu, answer_encodeUuid b hv, Option.some_inj, ← uuidBytes_eq_iff hu hv]
    exact ⟨encodeBytes_injective,congrArg encodeBytes⟩
  hexId_injective g h hg hh := by
    rw [answer_encodeHexId a hg, answer_encodeHexId b hh, Option.some_inj,
      ← hexBytes_eq_iff hg hh]
    exact ⟨encodeBytes_injective,congrArg encodeBytes⟩
  topic tenantId agentUuid segment segments ht ha :=
    ⟨_,topic_eq a ht ha _,topic_eq b ht ha _,fun c => parse_idTopic c ht ha segment segments⟩

/-- An argument that is not of the call's form stands in the cache that the
call looks at. -/
def Foreign (encodeCache decodeCache : Cache) : Call → Prop
  | .encodeUuid uuid => isUuid uuid = false ∧ encodeCache.has uuid = true
  | .decodeUuid encoded => isEncodedUuid encoded = false ∧ decodeCache.has encoded = true
  | .encodeHexId hex => isHexId hex = false ∧ encodeCache.has hex = true
  | .decodeHexId encoded => isEncodedHexId encoded = false ∧ decodeCache.has encoded = true

instance (encodeCache decodeCache : Cache) :
    (call : Call) → Decidable (Foreign encodeCache decodeCache call)
  | .encodeUuid _ => inferInstanceAs (Decidable (_ ∧ _))
  | .decodeUuid _ => inferInstanceAs (Decidable (_ ∧ _))
  | .encodeHexId _ => inferInstanceAs (Decidable (_ ∧ _))
  | .decodeHexId _ => inferInstanceAs (Decidable (_ ∧ _))

/-- Every call of the history answers as it would over empty caches. -/
def Transparent (history : List Call) : Prop :=
  Meets step (fun c call => (ask c call).1 = (ask .empty call).1) history .empty

def CloudTransparent (history : List Call) : Prop :=
  Meets cloudStep (fun c call => (cloudAsk c call).1 = (cloudAsk Topics.emptyCaches call).1)
    history Topics.emptyCaches

theorem topicEncoding_ne_empty (id : String) : topicEncoding id ≠ some "" := by
  intro h
  unfold topicEncoding at h
  split at h
  · rename_i hu
    have hlen := Topics.length_encodedUuid hu
    rw [Option.some.inj h] at hlen
    cases hlen
  · split at h
    · rename_i hx
      have hlen := Topics.length_encodedHexId hx
      rw [Option.some.inj h] at hlen
      cases hlen
    · cases h

theorem topicDecoding_ne_empty (encoded : String) : topicDecoding encoded ≠ some "" := by
  intro h
  unfold topicDecoding at h
  split at h
  · unfold Topics.decodedUuid at h
    dsimp only at h
    split at h
    · have htext := congrArg String.toList (Option.some.inj h)
      rw [Topics.uuidOfHex, Topics.toList_join_groups, Topics.dashed] at htext
      exact absurd htext (by simp)
    · cases h
  · split at h
    · rename_i hx
      obtain ⟨hex,hdec,hlen⟩ := Topics.topicDecoding_eight hx
      have hnot : ¬isEncodedUuid encoded = true := ‹_›
      rw [topicDecoding, if_neg hnot, if_pos hx, h] at hdec
      rw [← Option.some.inj hdec] at hlen
      cases hlen
    · cases h

theorem has_of_hit {cache : Cache} {key value : String} (h : hit cache key = some value) :
    cache.has key = true := by
  have hget := (Option.filter_eq_some_iff.mp h).1
  rw [OrderedMap.has_iff]
  exact List.mem_map_of_mem ((OrderedMap.get?_eq_some_iff cache key value).mp hget)

theorem not_has_of_hit {cache : Cache} {f : String → Option String}
    (hsound : ∀ k v, cache.get? k = some v → f k = some v) (hne : ∀ k, f k ≠ some "") {key : String}
    (h : hit cache key = none) : cache.has key = false := by
  cases hget : cache.get? key with
  | none =>
    rw [← Bool.not_eq_true, OrderedMap.has_iff]
    exact OrderedMap.not_mem_keys_of_get? hget
  | some value =>
    have hvalue : value ≠ "" := by
      rintro rfl
      exact hne key (hsound key "" hget)
    rw [hit, hget, Option.filter_some, if_pos (by simpa using hvalue)] at h
    cases h

/-- A call that is answered as over empty caches, and one that is answered
although it would throw. -/
def ShowsOnly (foreign : Prop) (cached fresh : Answer) : Prop :=
  (¬foreign → cached = fresh) ∧ (foreign → cached.toOption ≠ fresh.toOption)

theorem encode_showsOnly {valid : String → Bool} {bytes : String → List UInt8} (invalid : String)
    (henc : ∀ id, valid id = true → topicEncoding id = some (encodeBytes (bytes id)))
    {a : Kept} {c : Caches} (h : Alike a c) (id : String) :
    ShowsOnly (valid id = false ∧ a.encodeCache.has id = true)
      (encodeWith valid bytes invalid a id).1 (encodeWith valid bytes invalid .empty id).1 := by
  have hfresh : (encodeWith valid bytes invalid .empty id).1 =
      if valid id then .ok (encodeBytes (bytes id)) else .error (invalid++id) := by
    show (if valid id then _ else _ : Answer × Kept).1 = _
    split <;> rfl
  rw [hfresh]
  cases hhit : hit c.encodeCache id with
  | some cached =>
    have hsound := Topics.hit_sound c.encode_sound hhit
    have hcached : (encodeWith valid bytes invalid a id).1 = .ok cached := by
      unfold encodeWith
      rw [h.encodeCache, hhit]
    rw [hcached, h.encodeCache]
    refine ⟨fun hnot => ?_,fun hforeign => ?_⟩
    · have hv : valid id = true := by
        by_contra hv
        exact hnot ⟨Bool.not_eq_true _ ▸ hv,has_of_hit hhit⟩
      rw [henc id hv] at hsound
      rw [if_pos hv, Option.some.inj hsound]
    · rw [hforeign.1]
      exact Option.some_ne_none cached
  | none =>
    rw [← h.encodeCache] at hhit
    refine ⟨fun _ => ?_,fun hforeign => ?_⟩
    · unfold encodeWith
      rw [hhit]
      dsimp only
      split <;> rfl
    · have hnot := not_has_of_hit (h.encodeCache ▸ c.encode_sound) topicEncoding_ne_empty hhit
      cases hnot.symm.trans hforeign.2

theorem decodeWith_missed {valid : String → Bool} {decoded : String → Answer} {invalid : String}
    {k : Kept} {encoded : String} (h : hit k.decodeCache encoded = none) :
    (decodeWith valid decoded invalid k encoded).1 =
      if valid encoded then decoded encoded else .error (invalid++encoded) := by
  unfold decodeWith
  rw [h]
  dsimp only
  split
  · split
    · rename_i id hid
      exact hid.symm
    · rename_i e he
      exact he.symm
  · rfl

theorem decode_showsOnly {valid : String → Bool} {decoded : String → Answer} (invalid : String)
    (hdec : ∀ s, valid s = true → topicDecoding s = (decoded s).toOption)
    {a : Kept} {c : Caches} (h : Alike a c) (encoded : String) :
    ShowsOnly (valid encoded = false ∧ a.decodeCache.has encoded = true)
      (decodeWith valid decoded invalid a encoded).1
      (decodeWith valid decoded invalid .empty encoded).1 := by
  rw [decodeWith_missed (k := .empty) rfl]
  cases hhit : hit c.decodeCache encoded with
  | some cached =>
    have hsound := Topics.hit_sound c.decode_sound hhit
    have hcached : (decodeWith valid decoded invalid a encoded).1 = .ok cached := by
      unfold decodeWith
      rw [h.decodeCache, hhit]
    rw [hcached, h.decodeCache]
    refine ⟨fun hnot => ?_,fun hforeign => ?_⟩
    · have hv : valid encoded = true := by
        by_contra hv
        exact hnot ⟨Bool.not_eq_true _ ▸ hv,has_of_hit hhit⟩
      rw [hdec encoded hv] at hsound
      rw [if_pos hv]
      cases hd : decoded encoded with
      | ok id =>
        rw [hd] at hsound
        exact congrArg Except.ok (Option.some.inj hsound).symm
      | error e =>
        rw [hd] at hsound
        cases hsound
    · rw [hforeign.1]
      exact Option.some_ne_none cached
  | none =>
    rw [← h.decodeCache] at hhit
    refine ⟨fun _ => decodeWith_missed hhit,fun hforeign => ?_⟩
    have hnot := not_has_of_hit (h.decodeCache ▸ c.decode_sound) topicDecoding_ne_empty hhit
    cases hnot.symm.trans hforeign.2

theorem ask_showsOnly {a : Kept} {c : Caches} (h : Alike a c) (call : Call) :
    ShowsOnly (Foreign a.encodeCache a.decodeCache call) (ask a call).1 (ask .empty call).1 := by
  cases call with
  | encodeUuid uuid => exact encode_showsOnly _ (fun _ => topicEncoding_uuid) h uuid
  | decodeUuid encoded =>
    exact decode_showsOnly _ (fun _ => topicDecoding_of_isEncodedUuid) h encoded
  | encodeHexId hex => exact encode_showsOnly _ (fun _ => topicEncoding_hexId) h hex
  | decodeHexId encoded =>
    exact decode_showsOnly _ (fun _ => topicDecoding_of_isEncodedHexId) h encoded

theorem empty_alike : Alike .empty Topics.emptyCaches := ⟨rfl,rfl⟩

theorem ask_eq_iff {a : Kept} {c : Caches} (h : Alike a c) (call : Call) :
    (ask a call).1 = (ask .empty call).1 ↔ ¬Foreign a.encodeCache a.decodeCache call :=
  ⟨fun heq hforeign => (ask_showsOnly h call).2 hforeign (congrArg Except.toOption heq),
    (ask_showsOnly h call).1⟩

theorem cloudAsk_eq_iff {a : Kept} {c : Caches} (h : Alike a c) (call : Call) :
    (cloudAsk c call).1 = (cloudAsk Topics.emptyCaches call).1 ↔
      ¬Foreign c.encodeCache c.decodeCache call := by
  rw [← (ask_inStep h call).answer, ← (ask_inStep empty_alike call).answer, ← h.encodeCache,
    ← h.decodeCache]
  exact ⟨fun heq hforeign => (ask_showsOnly h call).2 hforeign heq,
    fun hnot => congrArg Except.toOption ((ask_showsOnly h call).1 hnot)⟩

/-- The caches show exactly where a call's argument is cached but not of the
call's form. -/
theorem caches_transparent_iff (history : List Call) :
    (Transparent history ↔
      Meets step (fun c call => ¬Foreign c.encodeCache c.decodeCache call) history .empty) ∧
    (CloudTransparent history ↔
      Meets cloudStep (fun c call => ¬Foreign c.encodeCache c.decodeCache call) history
        Topics.emptyCaches) := by
  constructor
  · have halike : Meets step (fun a _ => ∃ c, Alike a c) history .empty :=
      meets_of_split history _ (fun pre _ _ _ => ⟨_,reached_alike pre⟩)
    refine meets_congr ?_ history _ halike
    rintro a call ⟨c,h⟩
    exact ask_eq_iff h call
  · have halike : Meets cloudStep (fun c _ => ∃ a, Alike a c) history Topics.emptyCaches :=
      meets_of_split history _ (fun pre _ _ _ => ⟨_,reached_alike pre⟩)
    refine meets_congr ?_ history _ halike
    rintro c call ⟨a,h⟩
    exact cloudAsk_eq_iff h call

/-- A uuid, and then the same uuid as if it were a tenant id. -/
def crossedKinds : List Call :=
  [.encodeUuid "123e4567-e89b-12d3-a456-426614174000",
    .encodeHexId "123e4567-e89b-12d3-a456-426614174000"]

theorem uuid_taken_for_hexId : ¬Transparent crossedKinds ∧ ¬CloudTransparent crossedKinds := by
  constructor
  · rintro ⟨-,h,-⟩
    exact absurd (congrArg Except.toOption h) (by decide +kernel)
  · rintro ⟨-,h,-⟩
    exact absurd h (by decide +kernel)

end Iotistica.AgentTopics
