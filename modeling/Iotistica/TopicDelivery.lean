import Iotistica.StreamAgreement
import Iotistica.TopicRouting

/-!
# Which messages reach their handler

A topic comes apart into the levels it was made of, so both ids are those of
the encoder. The agent's uuid always comes back; a tenant does unless it is a
uuid, which is encoded and not decoded, or has the eight letters of an
encoded id, which is decoded and was not encoded. The topic that the job
handler is given has the word agent where it looks for the device, and the
rest of a dictionary topic repeats the sub-topic where the delta is looked
for.
-/

set_option autoImplicit false

namespace Iotistica.TopicRouting
open Iotistica.JsText Iotistica.JsNumerals Iotistica.JsonText Iotistica.ByteText Iotistica.Topics
open Iotistica.StreamFormat (Bytes nonEmpty)

def sameLetters (a b : String) : Prop := toLowerCase a = toLowerCase b

theorem sameLetters.length_eq {a b : String} (h : sameLetters a b) : a.length = b.length := by
  rw [← length_toLowerCase a, h, length_toLowerCase]

theorem sameLetters_toLowerCase (s : String) : sameLetters (toLowerCase s) s :=
  toLowerCase_toLowerCase s

theorem split_topicOf (c : Caches) (tenantId agentUuid : String) (segments : List String)
    (ht : '/' ∉ tenantId.toList) (ha : '/' ∉ agentUuid.toList)
    (hs : ∀ s ∈ segments, '/' ∉ s.toList) :
    split (topicOf c tenantId agentUuid segments).1 '/' =
      "i" :: (topicEncoding tenantId).getD tenantId :: "a" ::
        (topicEncoding agentUuid).getD agentUuid :: segments := by
  have htenant := plain_encodeIfUuid c ht
  have hagent := plain_encodeIfUuid (encodeIfUuid c tenantId).2 ha
  rw [← encodeIfUuid_eq c tenantId, ← encodeIfUuid_eq (encodeIfUuid c tenantId).2 agentUuid]
  refine split_join (List.cons_ne_nil _ _) ?_
  intro p hp
  simp only [List.mem_cons] at hp
  rcases hp with rfl | rfl | rfl | rfl | hp
  · decide
  · exact htenant
  · decide
  · exact hagent
  · exact hs p hp

theorem plain_of_isUuid {uuid : String} (h : isUuid uuid = true) : '/' ∉ uuid.toList := by
  obtain ⟨a,b,c,d,e,htext,hg⟩ := uuid_groups h
  intro hm
  rw [htext] at hm
  have hhex : ∀ x ∈ dashed a b c d e, x = '-' ∨ hexDigit x = true := by
    intro x hx
    simp only [dashed, List.mem_append, List.mem_cons] at hx
    have hall := hg.hex x
    simp only [List.mem_append] at hall
    grind
  rcases hhex '/' hm with h | h
  · exact absurd h (by decide)
  · exact absurd h (by decide)

theorem topicEncoding_agent (agent : AgentUuid) :
    topicEncoding agent.text = some (encodeBytes (uuidBytes agent.text)) := if_pos agent.valid

theorem decodeId_eq {valid : String → Bool} (c : Caches) (id : String) :
    (decodeId valid (decodeWith valid) c id).1 =
      if valid id then (topicDecoding id).getD id else id := by
  unfold decodeId
  split
  · rename_i hv
    simp only [decodeWith_eq c hv]
  · rfl

theorem decode_agent (c : Caches) (agent : AgentUuid) :
    (decodeId isEncodedUuid decodeUuid c (encodeBytes (uuidBytes agent.text))).1 =
      toLowerCase agent.text := by
  rw [decodeUuid, decodeId_eq, if_pos (isEncodedUuid_encode agent.valid),
    topicDecoding_uuid agent.valid]
  rfl

def readTenant (tenantId : String) : String :=
  let encoded := (topicEncoding tenantId).getD tenantId
  if isEncodedHexId encoded then (topicDecoding encoded).getD encoded else encoded

theorem readTenant_uuid {tenantId : String} (h : isUuid tenantId = true) :
    ¬sameLetters (readTenant tenantId) tenantId := by
  intro hsame
  have henc : topicEncoding tenantId = some (encodeBytes (uuidBytes tenantId)) := if_pos h
  have hlen := length_encodedUuid h
  have hnot : isEncodedHexId (encodeBytes (uuidBytes tenantId)) = false := by
    simp only [isEncodedHexId, hlen]
    rfl
  have hread : readTenant tenantId = encodeBytes (uuidBytes tenantId) := by
    simp [readTenant, henc, hnot]
  have := hsame.length_eq
  rw [hread, hlen, length_of_isUuid h] at this
  omega

theorem topicEncoding_of_length {s : String} (h36 : s.length ≠ 36) (h12 : s.length ≠ 12) :
    topicEncoding s = none := by
  unfold topicEncoding
  rw [if_neg (fun h => h36 (length_of_isUuid h)), if_neg (fun h => h12 (length_of_isHexId h))]

theorem readTenant_eight {tenantId : String} (h : isEncodedHexId tenantId = true) :
    ¬sameLetters (readTenant tenantId) tenantId := by
  intro hsame
  have hlen := length_of_isEncodedHexId h
  have henc : topicEncoding tenantId = none := topicEncoding_of_length (by omega) (by omega)
  obtain ⟨hex,hdec,hhex⟩ := topicDecoding_eight h
  have hread : readTenant tenantId = hex := by
    simp [readTenant, henc, h, hdec]
  have := hsame.length_eq
  rw [hread, hlen, hhex] at this
  omega

theorem readTenant_hexId {tenantId : String} (h : isHexId tenantId = true) :
    sameLetters (readTenant tenantId) tenantId := by
  have hlen := length_of_isHexId h
  have hu : isUuid tenantId ≠ true := by
    intro hu
    have := length_of_isUuid hu
    omega
  have henc : topicEncoding tenantId = some (encodeBytes (readHexBytes tenantId.toList)) := by
    rw [topicEncoding, if_neg hu, if_pos h]
  have hread : readTenant tenantId = toLowerCase tenantId := by
    simp [readTenant, henc, isEncodedHexId_encode h, topicDecoding_hexId h]
  rw [hread]
  exact sameLetters_toLowerCase tenantId

theorem readTenant_iff (tenantId : String) :
    sameLetters (readTenant tenantId) tenantId ↔
      isUuid tenantId = false ∧ isEncodedHexId tenantId = false := by
  constructor
  · intro hsame
    refine ⟨?_,?_⟩
    · rw [← Bool.not_eq_true]
      exact fun h => readTenant_uuid h hsame
    · rw [← Bool.not_eq_true]
      exact fun h => readTenant_eight h hsame
  · rintro ⟨hu,h8⟩
    by_cases hx : isHexId tenantId = true
    · exact readTenant_hexId hx
    · have henc : topicEncoding tenantId = none := by simp [topicEncoding, hu, hx]
      have hread : readTenant tenantId = tenantId := by simp [readTenant, henc, h8]
      rw [hread]
      rfl

/-- A topic of an agent has a type and may have more levels. -/
def published (ca : Caches) (cfg : Config) (agent : AgentUuid) (type : Level)
    (more : List Level) : String :=
  (agentTopic ca cfg.tenantId.text agent.text (type.text :: more.map Level.text)).1

theorem plain_levels (levels : List Level) : ∀ s ∈ levels.map Level.text, '/' ∉ s.toList := by
  intro s hs
  obtain ⟨l,-,rfl⟩ := List.mem_map.mp hs
  exact l.plain

theorem split_published (ca : Caches) (cfg : Config) (agent : AgentUuid) (type : Level)
    (more : List Level) :
    split (published ca cfg agent type more) '/' =
      "i" :: (topicEncoding cfg.tenantId.text).getD cfg.tenantId.text :: "a" ::
        encodeBytes (uuidBytes agent.text) :: type.text :: more.map Level.text := by
  have h := split_topicOf ca cfg.tenantId.text agent.text (type.text :: more.map Level.text)
    cfg.tenantId.plain (plain_of_isUuid agent.valid) (plain_levels (type :: more))
  rw [topicEncoding_agent] at h
  exact h

def readTopic (cfg : Config) (agent : AgentUuid) (type : Level) (more : List Level) :
    ParsedMqttTopic :=
  ⟨readTenant cfg.tenantId.text,toLowerCase agent.text,toLowerCase type.text,
    (more.map Level.text).head?,more.map Level.text⟩

theorem parse_published (ca c : Caches) (cfg : Config) (agent : AgentUuid) (type : Level)
    (more : List Level) :
    (parseMqttTopic c (published ca cfg agent type more)).1 =
      some (readTopic cfg agent type more) := by
  unfold parseMqttTopic
  rw [split_published]
  simp only [ne_eq, not_true_eq_false, or_self, if_false, decode_agent, readTopic, readTenant]
  rw [decodeHexId, decodeId_eq]

theorem handle_published (ca c : Caches) (cfg : Config) (sv : Services) (agent : AgentUuid)
    (type : Level) (more : List Level) (payload : Bytes) :
    (handleMessage cfg sv c (published ca cfg agent type more) payload).1 =
      if toLowerCase type.text ≠ "endpoints" ∧ seenBefore sv (deserializePayload sv payload) then []
      else dispatch cfg sv (readTopic cfg agent type more) (deserializePayload sv payload) := by
  have hparse := parse_published ca c cfg agent type more
  unfold handleMessage
  split
  · rename_i hnone
    rw [hnone] at hparse
    cases hparse
  · rename_i p c' hsome
    rw [hsome] at hparse
    obtain rfl := Option.some.inj hparse
    exact apply_ite Prod.fst _ _ _

theorem jobsTopic_parts (tenantId : Level) (deviceUuid : String) (subTopic : Option String)
    (rest : List String) :
    ∃ parts, split (jobsTopic tenantId.text deviceUuid subTopic rest) '/' =
      "iot" :: tenantId.text :: "agent" :: parts := by
  refine ⟨split (join (deviceUuid :: "jobs" :: ((nonEmpty subTopic).toList++rest)) '/') '/',?_⟩
  have hiot : '/' ∉ "iot".toList := by decide
  have hagent : '/' ∉ "agent".toList := by decide
  have hlist : ["iot",tenantId.text,"agent",deviceUuid,"jobs"]++(nonEmpty subTopic).toList++rest =
      "iot" :: tenantId.text :: "agent" :: deviceUuid :: "jobs" ::
        ((nonEmpty subTopic).toList++rest) := by simp
  rw [jobsTopic, hlist, join_cons, split_append hiot, join_cons, split_append tenantId.plain,
    join_cons, split_append hagent]

inductive ForAgentWord {P : Type} : Call P → Prop where
  | update (u : JobUpdatePayload) (h : u.deviceUuid = some "agent") :
      ForAgentWord (.handleJobUpdate u)
  | next : ForAgentWord (.startNext (some "agent"))

theorem handleJobsMessage_calls (cfg : Config) (sv : Services) (deviceUuid : String)
    (subTopic : Option String) (data : Data sv.Packed) (rest : List String) :
    ∀ call ∈ handleJobsMessage cfg sv deviceUuid subTopic data rest, ForAgentWord call := by
  obtain ⟨parts,hparts⟩ := jobsTopic_parts cfg.tenantId deviceUuid subTopic rest
  intro call hcall
  unfold handleJobsMessage handleJobMessage at hcall
  split at hcall
  · cases hcall
  · split at hcall
    · unfold handleJobUpdateMessage at hcall
      split at hcall
      · cases hcall
      · rw [hparts, List.mem_singleton] at hcall
        rw [hcall]
        exact .update _ rfl
    · split at hcall
      · rw [handleStartNextRequest, hparts, List.mem_singleton] at hcall
        rw [hcall]
        exact .next
      · cases hcall

theorem handleMetaMessage_head {P : Type} (cfg : Config) (deviceUuid : String) (data : Data P)
    (rest : List String) :
    handleMetaMessage cfg deviceUuid rest.head? data rest =
      if cfg.useKeyCompaction ∧ rest.head? = some "dictionary" then
        [.storeDictionary deviceUuid data]
      else [] := by
  have hdelta : ¬(rest.head? = some "dictionary" ∧ rest[0]? = some "delta") := by
    rintro ⟨hd,hr⟩
    rw [← List.head?_eq_getElem?, hd] at hr
    exact absurd hr (by decide)
  unfold handleMetaMessage
  cases hk : cfg.useKeyCompaction with
  | false => simp
  | true => simp [hdelta]

theorem mem_subscriptions_meta {cfg : Config} (c : Caches) (hs : cfg.subscribeToAll = true)
    (hk : cfg.useKeyCompaction = true) :
    (mqttDevicePattern c cfg.tenantId.text "+" ["meta","+"]).1 ∈ subscriptions cfg c := by
  rw [subscriptions, if_pos hs]
  refine List.mem_map.mpr ⟨["meta","+"],List.mem_flatMap.mpr ⟨"meta",?_,?_⟩,rfl⟩
  · rw [topics, if_pos hk]
    decide
  · decide

theorem delivered_meta (ca c : Caches) {cfg : Config} (agent : AgentUuid) {type : Level}
    (level : Level) (ht : type.text = "meta") (hs : cfg.subscribeToAll = true)
    (hk : cfg.useKeyCompaction = true) :
    delivered cfg c (published ca cfg agent type [level]) = true := by
  have hplus : topicEncoding "+" = none := by decide
  have hpattern := split_topicOf c cfg.tenantId.text "+" ["meta","+"] cfg.tenantId.plain
    (by decide) (by decide)
  rw [delivered, List.any_eq_true]
  refine ⟨_,mem_subscriptions_meta c hs hk,?_⟩
  rw [mqttDevicePattern, hpattern, split_published, ht, hplus]
  simp [levelsMatch]

def segments (type : Level) (more : List Level) : List String := type.text :: more.map Level.text

/-- Both ids come back, and a message about jobs or dictionaries reaches its
handler with them. -/
structure Routed (ca c : Caches) (cfg : Config) (sv : Services) (agent : AgentUuid)
    (type : Level) (more : List Level) (payload : Bytes) : Prop where
  ids : ∃ p, (parseMqttTopic c (published ca cfg agent type more)).1 = some p ∧
    sameLetters p.tenantId cfg.tenantId.text ∧ sameLetters p.agentUuid agent.text
  job_update : ∀ jobId : Level, segments type more = ["jobs",jobId.text,"update"] →
    ∃ u device, receive cfg sv c (published ca cfg agent type more) payload =
      [.handleJobUpdate u] ∧ u.deviceUuid = some device ∧ sameLetters device agent.text ∧
      u.jobId = some jobId.text
  start_next : segments type more = ["jobs","start-next"] →
    ∃ device, receive cfg sv c (published ca cfg agent type more) payload =
      [.startNext (some device)] ∧ sameLetters device agent.text
  delta : segments type more = ["meta","dictionary","delta"] →
    ∃ device, receive cfg sv c (published ca cfg agent type more) payload =
      [.applyDelta device (deserializePayload sv payload)] ∧ sameLetters device agent.text
  dictionary : segments type more = ["meta","dictionary"] →
    ∃ device, receive cfg sv c (published ca cfg agent type more) payload =
      [.storeDictionary device (deserializePayload sv payload)] ∧ sameLetters device agent.text

/-- No job message and no delta, a tenant that is read as it was written, and
for a dictionary a service that takes it. -/
structure Spared (cfg : Config) (sv : Services) (type : Level) (more : List Level)
    (payload : Bytes) : Prop where
  no_uuid : isUuid cfg.tenantId.text = false
  no_eight : isEncodedHexId cfg.tenantId.text = false
  no_update : ∀ jobId : Level, segments type more ≠ ["jobs",jobId.text,"update"]
  no_start : segments type more ≠ ["jobs","start-next"]
  no_delta : segments type more ≠ ["meta","dictionary","delta"]
  taken : segments type more = ["meta","dictionary"] → cfg.subscribeToAll = true ∧
    cfg.useKeyCompaction = true ∧ seenBefore sv (deserializePayload sv payload) = false

section
variable (ca c : Caches) (cfg : Config) (sv : Services) (agent : AgentUuid) {type : Level}
  (more : List Level) (payload : Bytes)

theorem agent_word_apart : ¬sameLetters "agent" agent.text := by
  intro hsame
  have h5 : "agent".length = 5 := by decide
  have := hsame.length_eq
  rw [h5, length_of_isUuid agent.valid] at this
  omega

theorem receive_jobs (ht : type.text = "jobs") :
    ∀ call ∈ receive cfg sv c (published ca cfg agent type more) payload, ForAgentWord call := by
  intro call hcall
  unfold receive at hcall
  split at hcall
  · rw [handle_published] at hcall
    split at hcall
    · cases hcall
    · have hlower : toLowerCase "jobs" = "jobs" := by decide
      simp only [dispatch, readTopic, ht, hlower] at hcall
      exact handleJobsMessage_calls _ _ _ _ _ _ call hcall
  · cases hcall

theorem receive_meta (ht : type.text = "meta") :
    receive cfg sv c (published ca cfg agent type more) payload =
      if delivered cfg c (published ca cfg agent type more) = true ∧
          seenBefore sv (deserializePayload sv payload) = false ∧
          cfg.useKeyCompaction = true ∧ (more.map Level.text).head? = some "dictionary" then
        [.storeDictionary (toLowerCase agent.text) (deserializePayload sv payload)]
      else [] := by
  have hlower : toLowerCase "meta" = "meta" := by decide
  have hother : "meta" ≠ "endpoints" := by decide
  unfold receive
  rw [handle_published]
  simp only [dispatch, readTopic, ht, hlower, handleMetaMessage_head]
  cases hd : delivered cfg c (published ca cfg agent type more) with
  | false => simp
  | true =>
    cases hseen : seenBefore sv (deserializePayload sv payload) with
    | false => simp
    | true => simp

theorem not_subscribed {topic : String} (hs : cfg.subscribeToAll = false) :
    delivered cfg c topic = false := by
  simp [delivered, subscriptions, hs]

theorem head_of_segments {l r : String} {rs : List String}
    (h : segments type more = l :: r :: rs) :
    type.text = l ∧ (more.map Level.text).head? = some r := by
  simp only [segments, List.cons.injEq] at h
  exact ⟨h.1,by rw [h.2, List.head?_cons]⟩

theorem ids_iff :
    (∃ p, (parseMqttTopic c (published ca cfg agent type more)).1 = some p ∧
      sameLetters p.tenantId cfg.tenantId.text ∧ sameLetters p.agentUuid agent.text) ↔
      isUuid cfg.tenantId.text = false ∧ isEncodedHexId cfg.tenantId.text = false := by
  rw [← readTenant_iff, parse_published]
  constructor
  · rintro ⟨p,hp,htenant,-⟩
    obtain rfl := Option.some.inj hp
    exact htenant
  · exact fun h => ⟨_,rfl,h,sameLetters_toLowerCase agent.text⟩

variable {more}

theorem no_job_update {jobId : String} (h : segments type more = ["jobs",jobId,"update"]) :
    ¬∃ u device, receive cfg sv c (published ca cfg agent type more) payload =
      [.handleJobUpdate u] ∧ u.deviceUuid = some device ∧ sameLetters device agent.text ∧
      u.jobId = some jobId := by
  rintro ⟨u,device,hcalls,hdevice,hsame,-⟩
  have hword := receive_jobs ca c cfg sv agent more payload (head_of_segments more h).1
    (.handleJobUpdate u) (by rw [hcalls]; exact List.mem_cons_self)
  cases hword with
  | update _ hu =>
    obtain rfl := Option.some.inj (hu.symm.trans hdevice)
    exact agent_word_apart agent hsame

theorem no_start_next (h : segments type more = ["jobs","start-next"]) :
    ¬∃ device, receive cfg sv c (published ca cfg agent type more) payload =
      [.startNext (some device)] ∧ sameLetters device agent.text := by
  rintro ⟨device,hcalls,hsame⟩
  have hword := receive_jobs ca c cfg sv agent more payload (head_of_segments more h).1
    (.startNext (some device)) (by rw [hcalls]; exact List.mem_cons_self)
  cases hword with
  | next => exact agent_word_apart agent hsame

theorem no_delta {rest : List String} (h : segments type more = "meta" :: "dictionary" :: rest) :
    ¬∃ device, receive cfg sv c (published ca cfg agent type more) payload =
      [.applyDelta device (deserializePayload sv payload)] ∧ sameLetters device agent.text := by
  rintro ⟨device,hcalls,-⟩
  rw [receive_meta ca c cfg sv agent more payload (head_of_segments more h).1] at hcalls
  split at hcalls
  · cases hcalls
  · cases hcalls

theorem dictionary_iff (h : segments type more = ["meta","dictionary"]) :
    (∃ device, receive cfg sv c (published ca cfg agent type more) payload =
      [.storeDictionary device (deserializePayload sv payload)] ∧
        sameLetters device agent.text) ↔
      cfg.subscribeToAll = true ∧ cfg.useKeyCompaction = true ∧
        seenBefore sv (deserializePayload sv payload) = false := by
  obtain ⟨ht,hr⟩ := head_of_segments more h
  rw [receive_meta ca c cfg sv agent more payload ht]
  constructor
  · rintro ⟨device,hcalls,-⟩
    split at hcalls
    · rename_i hcond
      refine ⟨?_,hcond.2.2.1,hcond.2.1⟩
      rw [← Bool.not_eq_false]
      intro hs
      rw [not_subscribed c cfg hs] at hcond
      exact absurd hcond.1 (by decide)
    · cases hcalls
  · rintro ⟨hs,hk,hseen⟩
    -- the topic has one level below its type
    obtain ⟨level,rfl⟩ : ∃ level, more = [level] := by
      obtain ⟨level,hlevel,-⟩ := List.map_eq_singleton_iff.mp (List.cons.inj h).2
      exact ⟨level,hlevel⟩
    have hd := delivered_meta ca c agent level ht hs hk
    rw [if_pos ⟨hd,hseen,hk,hr⟩]
    exact ⟨_,rfl,sameLetters_toLowerCase agent.text⟩

end

/-- Every message is spared or lost, whatever the caches hold. -/
theorem routed_iff (ca c : Caches) (cfg : Config) (sv : Services) (agent : AgentUuid)
    (type : Level) (more : List Level) (payload : Bytes) :
    Routed ca c cfg sv agent type more payload ↔ Spared cfg sv type more payload := by
  constructor
  · intro h
    obtain ⟨hu,h8⟩ := (ids_iff ca c cfg agent more).mp h.ids
    refine ⟨hu,h8,?_,?_,?_,?_⟩
    · exact fun jobId hs => no_job_update ca c cfg sv agent payload hs (h.job_update jobId hs)
    · exact fun hs => no_start_next ca c cfg sv agent payload hs (h.start_next hs)
    · exact fun hs => no_delta ca c cfg sv agent payload hs (h.delta hs)
    · exact fun hs => (dictionary_iff ca c cfg sv agent payload hs).mp (h.dictionary hs)
  · intro h
    refine ⟨(ids_iff ca c cfg agent more).mpr ⟨h.no_uuid,h.no_eight⟩,?_,?_,?_,?_⟩
    · exact fun jobId hs => absurd hs (h.no_update jobId)
    · exact fun hs => absurd hs h.no_start
    · exact fun hs => absurd hs h.no_delta
    · exact fun hs => (dictionary_iff ca c cfg sv agent payload hs).mpr (h.taken hs)

def pressTenant : Level := ⟨"95c7aabbccdd",by decide⟩

def pressConfig : Config := ⟨pressTenant,true,true⟩

def pressAgent : AgentUuid := ⟨"3f2504e0-4f89-41d3-9a0c-0305e82c3301",by decide +kernel⟩

def plainServices : Services where
  runtime := StreamFormat.storedRuntime
  Packed := Empty
  unpack := fun _ => none
  packedMsgId := fun p => some p
  packedText := fun _ => ""
  isDuplicateMessage := fun _ => false

def succeeded : Bytes := StreamFormat.utf8 "\x7b\"status\":\"SUCCEEDED\"\x7d"

/-- The row of the job status table that a call is about. -/
def statusRow {P : Type} : Call P → Option (Option String × Option String)
  | .handleJobUpdate u => some (u.deviceUuid,u.jobId)
  | _ => none

theorem job_update_misrouted :
    (receive pressConfig plainServices emptyCaches
      (published emptyCaches pressConfig pressAgent ⟨"jobs",by decide⟩
        [⟨"j-1",by decide⟩,⟨"update",by decide⟩]) succeeded).map statusRow =
      [some (some "agent",some "jobs")] ∧
    ¬Routed emptyCaches emptyCaches pressConfig plainServices pressAgent ⟨"jobs",by decide⟩
      [⟨"j-1",by decide⟩,⟨"update",by decide⟩] succeeded := by
  refine ⟨by decide +kernel,fun h => ?_⟩
  exact no_job_update _ _ _ _ _ _ rfl (h.job_update ⟨"j-1",by decide⟩ rfl)

end Iotistica.TopicRouting
