import Iotistica.BufferContents
import Iotistica.JsonDoubles
import Iotistica.JsonExtent
import Iotistica.Utf8Text

/-!
# What store and forward does to a payload

A payload is stored as text and published as it is if the text is no JSON.
JSON is read, given a message id and printed again. The database hands a text
out up to its first null character. The bytes come back if they are text
without one, and the value if it is an object without infinite numbers; other
values only where no message ids are generated.
-/

set_option autoImplicit false

namespace Iotistica.PayloadFidelity
open Iotistica.GuardedRun Iotistica.Utf8Text Iotistica.JsSort Iotistica.JsonText
open Iotistica.JsonDoubles Iotistica.BufferStore Iotistica.BufferSync Iotistica.BufferRetries

variable {D : Type*} (R : Doubles D)

def payloadText (payload : List UInt8) : String := String.ofList (decode payload)

def ownMsgId (json : Value) : Option String :=
  match member json "msgId" with
  | some (.str id) => if id = "" then none else some id
  | _ => none

def extractMsgId (payload : String) : Option String := (parse payload).bind ownMsgId

/-- A call of `handlePublish`, with the state of the client. -/
structure Call where
  topic : String
  payload : List UInt8
  qos : Option ℕ
  connected : Bool
  mode : PublishMode
  now : ℤ

def Call.publish (c : Call) : Publish where
  topic := c.topic
  payloadText := payloadText c.payload
  payloadBytes := c.payload.length
  msgId := extractMsgId (payloadText c.payload)
  qos := c.qos
  connected := c.connected
  mode := c.mode
  now := c.now

def isTruthy : Value → Bool
  | .num d =>
    match R.shown (R.nearest d) with
    | none => true
    | some e => truthy (.num e)
  | v => truthy v

/-- What an object spread copies: an array has a member for each place, a
string one for each unit. -/
def ownMembers : Value → Members
  | .obj members => members
  | .arr items => items.zipIdx.map (fun x => (Nat.repr x.2,x.1))
  | .str s => (utf16 s).zipIdx.map (fun x => (Nat.repr x.2,.str (String.ofList (ofUnits [x.1]))))
  | _ => []

def withMsgId (data : Value) (id : String) : Value :=
  .obj (collect (ownMembers data++[("msgId",.str id)]))

/-- `none` where the runtime throws; the generator is given by the id it draws. -/
def createJsonPayload (data : Value) (generator : Option String) : Option Value :=
  match data with
  | .null => none
  | data =>
    if (member data "msgId").any (isTruthy R) then some data
    else
      match generator with
      | none => some data
      | some id => some (withMsgId data id)

def serializePayload (data : Value) : List UInt8 := encode (print (printed R data))

def mqttPayload (generator msgId : Option String) (json : Value) : Option Value :=
  match msgId.filter (fun id => id ≠ "") with
  | some id => createJsonPayload R (withMsgId json id) none
  | none =>
    if (ownMsgId json).isSome then createJsonPayload R json none
    else createJsonPayload R json generator

/-- The text is sent as it is where it is no JSON or the runtime throws. -/
def sentAs (text : String) : Option Value → List UInt8
  | none => encode text.toList
  | some data => serializePayload R data

def nul : Char := Char.ofNat 0

def columnText (text : String) : String := String.ofList (text.toList.takeWhile (· ≠ nul))

example : columnText (payloadText [0x61,0,0x62]) = "a" := by decide

/-- The bytes that a flush publishes for a record. -/
def flushed (generator : Option String) (record : MessageBufferRecord) : List UInt8 :=
  let payload := columnText record.payload
  sentAs R payload
    ((parse payload).bind (mqttPayload R generator (record.msgId.map columnText)))

def jsonValue (payload : List UInt8) : Option Value :=
  if WellFormed payload then parse (payloadText payload) else none

def withoutMsgId (members : Members) : Members := members.filter (fun m => m.1 ≠ "msgId")

def Preserved : Value → Value → Prop
  | .obj members, w => ∃ members', w = .obj members' ∧
      Same R (.obj (withoutMsgId members)) (.obj (withoutMsgId members')) ∧
      ∀ id, id ≠ "" → members.lookup "msgId" = some (.str id) →
        members'.lookup "msgId" = some (.str id)
  | v, w => Same R v w

def Faithful (payload sent : List UInt8) : Prop :=
  match jsonValue payload with
  | none => sent = payload
  | some v => ∃ w, jsonValue sent = some w ∧ Preserved R v w

def KeptId (members : Members) : Prop := ∀ id, members.lookup "msgId" = some (.str id) →
  columnText id = id ∨ columnText id = ""

def Survives (generator : Option String) : Value → Prop
  | .null => True
  | .obj members => AllFinite R (.obj (withoutMsgId members)) ∧ KeptId members
  | v => generator = none ∧ AllFinite R v

theorem jsonValue_encode (cs : List Char) : jsonValue (encode cs) = parse (String.ofList cs) := by
  rw [jsonValue, if_pos (wellFormed_encode cs), payloadText, decode_encode]

theorem jsonValue_serialize {data : Value} (h : Proper data) :
    jsonValue (serializePayload R data) = some (printed R data) := by
  rw [serializePayload, jsonValue_encode]
  exact parse_stringify (proper_printed R h)

theorem wellFormed_flushed (generator : Option String) (record : MessageBufferRecord) :
    WellFormed (flushed R generator record) := by
  simp only [flushed, sentAs]
  split
  · exact wellFormed_encode _
  · exact wellFormed_encode _

theorem withoutMsgId_assign (value : Value) (members : Members) :
    withoutMsgId (OrderedMap.assign "msgId" value members) = withoutMsgId members := by
  induction members with
  | nil => rfl
  | cons m ms ih =>
    unfold withoutMsgId OrderedMap.assign at ih ⊢
    rw [List.map_cons, List.filter_cons, List.filter_cons, ih]
    by_cases hm : m.1 = "msgId"
    · simp [hm]
    · simp [hm]

theorem collect_concat {members : Members} (h : (members.map Prod.fst).Nodup) (id : String) :
    collect (members++[("msgId",.str id)]) =
      ((OrderedMap.mk members h).set "msgId" (.str id)).entries := by
  have hmembers : OrderedMap.empty.assignAll members = OrderedMap.mk members h := by
    have hentries := collect_eq h
    unfold collect at hentries
    cases hmap : OrderedMap.empty.assignAll members
    rw [hmap] at hentries
    subst hentries
    rfl
  unfold collect
  unfold OrderedMap.assignAll at hmembers ⊢
  rw [List.foldl_append, hmembers]
  rfl

theorem columnText_eq {text : String} (h : nul ∉ text.toList) : columnText text = text := by
  have hwhole : text.toList.takeWhile (· ≠ nul) = text.toList :=
    List.takeWhile_eq_self_iff.mpr fun c hc => decide_eq_true (ne_of_mem_of_not_mem hc h)
  rw [columnText, hwhole, String.ofList_toList]

theorem nul_not_mem_columnText (text : String) : nul ∉ (columnText text).toList := by
  rw [columnText, String.toList_ofList]
  intro h
  have hne := List.mem_takeWhile_imp h
  simp at hne

structure Enriched (members members' : Members) : Prop where
  proper : Proper (.obj members')
  others : withoutMsgId members' = withoutMsgId members
  own : ∀ id, id ≠ "" → members.lookup "msgId" = some (.str id) →
    ∃ sent, members'.lookup "msgId" = some (.str sent) ∧
      (sent = id ↔ columnText id = id ∨ columnText id = "")

theorem withMsgId_obj {members : Members} (h : Proper (.obj members)) (id : String) :
    ∃ members', withMsgId (.obj members) id = .obj members' ∧ Proper (.obj members') ∧
      withoutMsgId members' = withoutMsgId members ∧
      members'.lookup "msgId" = some (.str id) := by
  have hnodup := h
  rw [Proper] at hnodup
  have hcollect := collect_concat hnodup.1 id
  refine ⟨_,rfl,?_,?_,?_⟩
  · refine proper_collect ((properMembers_iff _).mpr fun m hm => ?_)
    rcases List.mem_append.mp hm with hm | hm
    · exact (properMembers_iff members).mp hnodup.2 m hm
    · obtain rfl := List.mem_singleton.mp hm
      trivial
  · change withoutMsgId (collect (members++[("msgId",.str id)])) = _
    rw [hcollect]
    unfold OrderedMap.set
    simp only
    split
    · exact withoutMsgId_assign _ members
    · simp [withoutMsgId]
  · change (collect (members++[("msgId",.str id)])).lookup "msgId" = _
    rw [hcollect]
    exact (OrderedMap.get?_set _ "msgId" "msgId" (Value.str id)).trans (if_pos rfl)

theorem ownMsgId_obj {members : Members} {id : String} (h : ownMsgId (.obj members) = some id) :
    members.lookup "msgId" = some (.str id) ∧ id ≠ "" := by
  unfold ownMsgId member at h
  simp only at h
  split at h
  · rename_i id' hid
    split at h
    · cases h
    · rename_i hne
      obtain rfl := Option.some.inj h
      exact ⟨hid,hne⟩
  · cases h

theorem no_msgId_of_own {members : Members} (h : ownMsgId (.obj members) = none) {id : String}
    (hne : id ≠ "") : members.lookup "msgId" ≠ some (.str id) := by
  intro hid
  unfold ownMsgId member at h
  simp [hid, hne] at h

theorem isTruthy_str {id : String} (h : id ≠ "") : isTruthy R (.str id) = true := by
  simp [isTruthy, truthy, h]

theorem mqttPayload_obj (generator : Option String) {members : Members}
    (h : Proper (.obj members)) :
    ∃ members', mqttPayload R generator ((ownMsgId (.obj members)).map columnText)
      (.obj members) = some (.obj members') ∧ Enriched members members' := by
  unfold mqttPayload
  cases hown : ownMsgId (.obj members) with
  | some id =>
    obtain ⟨hid,hne⟩ := ownMsgId_obj hown
    have hsame : ∀ id', members.lookup "msgId" = some (.str id') → id' = id :=
      fun id' hid' => by rw [hid] at hid'; exact (Value.str.inj (Option.some.inj hid')).symm
    by_cases hcut : columnText id = ""
    · refine ⟨members,?_,h,rfl,fun id' _ hid' => ⟨id',hid',?_⟩⟩
      · simp only [Option.map_some, hcut, ne_eq, not_true_eq_false, decide_false,
          Option.filter_some, Bool.false_eq_true, if_false, Option.isSome_some, if_true,
          createJsonPayload, member, hid, Option.any_some, isTruthy_str R hne]
      · rw [hsame id' hid']
        exact iff_of_true rfl (Or.inr hcut)
    · obtain ⟨members',hwith,hproper,hothers,hlookup⟩ := withMsgId_obj h (columnText id)
      refine ⟨members',?_,hproper,hothers,fun id' _ hid' => ⟨columnText id,hlookup,?_⟩⟩
      · simp only [Option.map_some, ne_eq, hcut, not_false_eq_true, decide_true,
          Option.filter_some, if_true, hwith, createJsonPayload, member, hlookup,
          Option.any_some, isTruthy_str R hcut]
      · rw [hsame id' hid']
        exact (or_iff_left hcut).symm
  | none =>
    have hforeign : ∀ members', Proper (.obj members') →
        withoutMsgId members' = withoutMsgId members → Enriched members members' :=
      fun _ hproper hothers =>
        ⟨hproper,hothers,fun _ hne hid => absurd hid (no_msgId_of_own hown hne)⟩
    simp only [Option.map_none, Option.filter_none, Option.isSome_none, Bool.false_eq_true,
      if_false, createJsonPayload]
    split
    · exact ⟨members,rfl,hforeign members h rfl⟩
    · cases generator with
      | none => exact ⟨members,rfl,hforeign members h rfl⟩
      | some id =>
        obtain ⟨members',hwith,hproper,hothers,-⟩ := withMsgId_obj h id
        exact ⟨members',congrArg some hwith,hforeign members' hproper hothers⟩

theorem lookup_printed {members : Members} (h : Proper (.obj members)) {k : String} {v : Value}
    (hk : members.lookup k = some v) :
    (arrange (printedMembers R members)).lookup k = some (printed R v) := by
  have hnodup := proper_printed R h
  rw [printed, Proper] at hnodup
  have hmem := mem_printedMembers R (OrderedMap.mem_of_lookup members hk)
  exact OrderedMap.lookup_of_mem _ hnodup.1 ((arrange_perm _).mem_iff.mpr hmem)

theorem preserved_obj_iff {members members' : Members} (h : Enriched members members') :
    Preserved R (.obj members) (printed R (.obj members')) ↔
      AllFinite R (.obj (withoutMsgId members)) ∧ KeptId members := by
  have hperm := arrange_perm (printedMembers R members')
  have hstr : ∀ id, printed R (.str id) = .str id := fun id => by simp [printed]
  rw [printed, Preserved]
  constructor
  · rintro ⟨held,heq,hsame,hkept⟩
    obtain rfl := Value.obj.inj heq
    refine ⟨finite_of_same R hsame ?_,fun id hid => ?_⟩
    · rw [AllFinite, finiteMembers_iff]
      intro m hm
      have hfinite := (finiteMembers_iff R _).mp (finite_printedMembers R members')
      exact hfinite m (hperm.mem_iff.mp (List.mem_of_mem_filter hm))
    · by_cases hne : id = ""
      · subst hne
        exact Or.inr rfl
      · obtain ⟨sent,hsent,hiff⟩ := h.own id hne hid
        have hheld := lookup_printed R h.proper hsent
        rw [hstr, hkept id hne hid] at hheld
        exact hiff.mp (Value.str.inj (Option.some.inj hheld)).symm
  · rintro ⟨hfinite,hkept⟩
    rw [AllFinite] at hfinite
    refine ⟨_,rfl,?_,fun id hne hid => ?_⟩
    · rw [Same]
      refine ⟨_,_,rfl,?_,same_printedMembers R hfinite⟩
      have hothers := filter_printedMembers R (fun name => name ≠ "msgId") members'
      rw [show (members'.filter fun m => decide (m.1 ≠ "msgId")) = withoutMsgId members from
        h.others] at hothers
      rw [← hothers]
      exact hperm.symm.filter _
    · obtain ⟨sent,hsent,hiff⟩ := h.own id hne hid
      obtain rfl := hiff.mpr (hkept id hid)
      rw [lookup_printed R h.proper hsent, hstr]

theorem mqttPayload_other (generator : Option String) {v : Value} (hnull : v ≠ .null)
    (hobj : ∀ members, v ≠ .obj members) :
    mqttPayload R generator ((ownMsgId v).map columnText) v =
      match generator with
      | none => some v
      | some id => some (withMsgId v id) := by
  have hmember : member v "msgId" = none := by
    cases v with
    | obj members => exact absurd rfl (hobj members)
    | _ => rfl
  have hown : ownMsgId v = none := by rw [ownMsgId, hmember]
  have hcreate : createJsonPayload R v generator =
      if (member v "msgId").any (isTruthy R) then some v
      else
        match generator with
        | none => some v
        | some id => some (withMsgId v id) := by
    cases v with
    | null => exact absurd rfl hnull
    | _ => rfl
  rw [hmember] at hcreate
  rw [mqttPayload, hown]
  exact hcreate

theorem preserved_other_iff {v : Value} (hobj : ∀ members, v ≠ .obj members) (w : Value) :
    Preserved R v w ↔ Same R v w := by
  cases v with
  | obj members => exact absurd rfl (hobj members)
  | _ => exact Iff.rfl

theorem not_same_withMsgId {v : Value} (hobj : ∀ members, v ≠ .obj members) (id : String) :
    ¬Same R v (printed R (withMsgId v id)) := by
  rw [withMsgId, printed]
  cases v with
  | obj members => exact absurd rfl (hobj members)
  | _ => simp [Same]

theorem survives_other_iff (generator : Option String) {v : Value} (hnull : v ≠ .null)
    (hobj : ∀ members, v ≠ .obj members) :
    Survives R generator v ↔ generator = none ∧ AllFinite R v := by
  cases v with
  | null => exact absurd rfl hnull
  | obj members => exact absurd rfl (hobj members)
  | _ => exact Iff.rfl

theorem proper_withMsgId {v : Value} (h : Proper v) (id : String) : Proper (withMsgId v id) := by
  refine proper_collect ((properMembers_iff _).mpr fun m hm => ?_)
  rcases List.mem_append.mp hm with hm | hm
  · cases v with
    | obj members => exact (properMembers_iff members).mp h.2 m hm
    | arr items =>
      obtain ⟨x,hx,rfl⟩ := List.mem_map.mp hm
      have hitem : x.1 ∈ items := List.fst_mem_of_mem_zipIdx hx
      have hall : ∀ items : List Value, ProperItems items → ∀ v ∈ items, Proper v := by
        intro items
        induction items with
        | nil => exact fun _ _ hv => absurd hv List.not_mem_nil
        | cons a items ih =>
          intro hp v hv
          rcases List.mem_cons.mp hv with rfl | hv
          · exact hp.1
          · exact ih hp.2 v hv
      exact hall items h x.1 hitem
    | str s =>
      obtain ⟨x,hx,rfl⟩ := List.mem_map.mp hm
      trivial
    | null => exact absurd hm List.not_mem_nil
    | bool b => exact absurd hm List.not_mem_nil
    | num d => exact absurd hm List.not_mem_nil
  · obtain rfl := List.mem_singleton.mp hm
    trivial

theorem preserved_iff_survives (generator : Option String) {v : Value} (hproper : Proper v)
    {text : String} (htext : parse text = some v) :
    (∃ w, jsonValue (sentAs R text
        (mqttPayload R generator ((ownMsgId v).map columnText) v)) = some w ∧
      Preserved R v w) ↔ Survives R generator v := by
  by_cases hnull : v = .null
  · subst hnull
    have hthrows : mqttPayload R generator ((ownMsgId .null).map columnText) .null = none := rfl
    rw [hthrows, sentAs, jsonValue_encode, String.ofList_toList]
    exact iff_of_true ⟨_,htext,rfl⟩ trivial
  · by_cases hobj : ∃ members, v = .obj members
    · obtain ⟨members,rfl⟩ := hobj
      obtain ⟨members',hpayload,henriched⟩ := mqttPayload_obj R generator hproper
      rw [hpayload]
      simp only [sentAs, jsonValue_serialize R henriched.proper, Option.some.injEq, exists_eq_left']
      exact preserved_obj_iff R henriched
    · have hother : ∀ members, v ≠ .obj members := fun members h => hobj ⟨members,h⟩
      rw [mqttPayload_other R generator hnull hother, survives_other_iff R generator hnull hother]
      cases generator with
      | none =>
        simp only [sentAs, jsonValue_serialize R hproper, Option.some.injEq, exists_eq_left',
          true_and]
        rw [preserved_other_iff R hother]
        exact same_printed_iff R v
      | some id =>
        simp only [sentAs, jsonValue_serialize R (proper_withMsgId hproper id),
          Option.some.injEq, exists_eq_left', reduceCtorEq, false_and, iff_false]
        rw [preserved_other_iff R hother]
        exact not_same_withMsgId R hother id

theorem proper_mqttPayload {generator msgId : Option String} {json data : Value}
    (hjson : Proper json) (h : mqttPayload R generator msgId json = some data) :
    Proper data := by
  have hcreate : ∀ {generator : Option String} {json data : Value}, Proper json →
      createJsonPayload R json generator = some data → Proper data := by
    intro generator json data hjson h
    unfold createJsonPayload at h
    split at h
    · cases h
    · split at h
      · obtain rfl := Option.some.inj h
        exact hjson
      · split at h
        · obtain rfl := Option.some.inj h
          exact hjson
        · obtain rfl := Option.some.inj h
          exact proper_withMsgId hjson _
  unfold mqttPayload at h
  split at h
  · exact hcreate (proper_withMsgId hjson _) h
  · split at h
    · exact hcreate hjson h
    · exact hcreate hjson h

theorem control_nul : Control nul := ⟨by decide,by decide⟩

theorem nul_not_mem_serialized {data : Value} (h : Proper data) :
    nul ∉ print (printed R data) := by
  have hread := not_mem_of_parse control_nul (parse_stringify (proper_printed R h))
  rwa [stringify, String.toList_ofList] at hread

theorem nul_not_mem_flushed (generator : Option String) (record : MessageBufferRecord) :
    nul ∉ decode (flushed R generator record) := by
  unfold flushed sentAs
  cases hdata : (parse (columnText record.payload)).bind
      (mqttPayload R generator (record.msgId.map columnText)) with
  | none => simpa only [hdata, decode_encode] using nul_not_mem_columnText record.payload
  | some data =>
    obtain ⟨json,hjson,hpayload⟩ := Option.bind_eq_some_iff.mp hdata
    have hproper := proper_mqttPayload R (proper_parse hjson) hpayload
    simpa only [hdata, serializePayload, decode_encode] using nul_not_mem_serialized R hproper

/-- UTF-8, and text without a null character or JSON whose value survives. -/
def Keeps (generator : Option String) (payload : List UInt8) : Prop :=
  WellFormed payload ∧ 0 ∉ payload ∧
    ∀ v, parse (payloadText payload) = some v → Survives R generator v

theorem nul_mem_payloadText (payload : List UInt8) :
    nul ∈ (payloadText payload).toList ↔ 0 ∈ payload := by
  rw [payloadText, String.toList_ofList]
  constructor
  · intro hmem
    obtain ⟨b,hb,heq⟩ := mem_decodeFrom hmem (by decide)
    obtain rfl : b = 0 := UInt8.toNat_inj.mp heq
    exact hb
  · exact fun hmem => mem_decodeFrom_of_ascii hmem (by decide)

theorem flushed_faithful_iff (generator : Option String) (payload : List UInt8)
    (record : MessageBufferRecord) (hpayload : record.payload = payloadText payload)
    (hmsgId : record.msgId = extractMsgId (payloadText payload)) :
    Faithful R payload (flushed R generator record) ↔ Keeps R generator payload := by
  by_cases hutf8 : WellFormed payload
  · have hvalue : jsonValue payload = parse (payloadText payload) := if_pos hutf8
    by_cases hzero : 0 ∈ payload
    · have hnul := (nul_mem_payloadText payload).mpr hzero
      have hnone : parse (payloadText payload) = none :=
        Option.eq_none_iff_forall_ne_some.mpr fun v h => not_mem_of_parse control_nul h hnul
      refine iff_of_false (fun h => ?_) (fun h => h.2.1 hzero)
      rw [Faithful, hvalue, hnone] at h
      refine nul_not_mem_flushed R generator record ?_
      rw [h]
      rwa [payloadText, String.toList_ofList] at hnul
    · have hwhole : columnText (payloadText payload) = payloadText payload :=
        columnText_eq fun h => hzero ((nul_mem_payloadText payload).mp h)
      rw [Faithful, Keeps, hvalue, flushed, hpayload, hmsgId, extractMsgId]
      simp only [hwhole]
      cases hparse : parse (payloadText payload) with
      | none =>
        simp only [Option.bind_none, sentAs, payloadText, String.toList_ofList]
        exact iff_of_true hutf8 ⟨hutf8,hzero,fun _ h => by cases h⟩
      | some v =>
        simp only [Option.bind_some, Option.some.injEq, forall_eq']
        rw [preserved_iff_survives R generator (proper_parse hparse) hparse]
        exact ⟨fun h => ⟨hutf8,hzero,h⟩,fun h => h.2.2⟩
  · have hvalue : jsonValue payload = none := if_neg hutf8
    rw [Faithful, hvalue]
    refine iff_of_false (fun h => hutf8 ?_) (fun h => hutf8 h.1)
    simp only at h
    rw [← h]
    exact wellFormed_flushed R generator record

def offline (payload : List UInt8) : Call := ⟨"devices/pressure",payload,some 1,false,.direct,0⟩

def atOnce : ℕ → Cycle := fun _ => ⟨true,1,"lock",fun _ => none,fun _ => 1⟩

/-- The row of the payload, claimed by the flush. -/
def claimed (payload : List UInt8) : MessageBufferRecord :=
  lockRow "lock" 1 (BufferAdmission.messageRow twoRetries (emptyStore defaultMetadata)
    (offline payload).publish)

def messagePack : List UInt8 := [0x81,0xA1,0x61,0x01]

end Iotistica.PayloadFidelity
