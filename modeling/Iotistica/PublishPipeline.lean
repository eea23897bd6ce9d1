import Iotistica.GuardedRun
import Mathlib.Data.List.Basic
import Mathlib.Data.List.Infix

/-!
# The publish pipeline

`appendData` reassembles frames from raw chunks and adds every frame that
parses to the current batch. Decoding, JSON parsing and splitting at a
regular expression belong to the runtime and are given by `Runtime`. Each
parsed message carries the serial number under which the lifetime counter
recorded it. A publish copies the batch and runs through a chain of await
points; socket data, the buffer timer and a disconnect may come at each of
them and share the batcher, which the publish resets at the end.
-/

set_option autoImplicit false

namespace Iotistica.PublishBatcher

abbrev Bytes := List UInt8

structure Runtime (α : Type*) where
  decode : Bytes → String
  encode : String → Bytes
  parse : String → Option α

inductive Delimiter where
  | literal (bytes : Bytes)
  | pattern (split : String → List String)

structure DeviceConfig where
  delimiter : Delimiter
  bufferCapacity : ℕ
  bufferSize : Option ℤ
  bufferTimeMs : Option ℤ
  maxMessages : ℕ
  maxBytes : ℕ

structure Message (α : Type*) where
  serial : ℕ
  value : α
  deriving DecidableEq, Repr

structure MessageBatcher (α : Type*) where
  readBuffer : Bytes
  messages : List (Message α)
  totalBytes : ℕ
  totalReceived : ℕ
  deriving DecidableEq, Repr

variable {α : Type*}

def MessageBatcher.new : MessageBatcher α := ⟨[],[],0,0⟩

def MessageBatcher.reset (b : MessageBatcher α) : MessageBatcher α :=
  { b with messages := [], totalBytes := 0 }

def splitFirst (delimiter : Bytes) : Bytes → Option (Bytes × Bytes)
  | [] => if delimiter.isEmpty then some ([],[]) else none
  | b::bs =>
    if delimiter.isPrefixOf (b::bs) then some ([],(b::bs).drop delimiter.length)
    else (splitFirst delimiter bs).map (fun found => (b::found.1,found.2))

/-- The complete frames and the tail. A delimiter is not empty, so a step
for each byte is enough. -/
def literalFrames (delimiter : Bytes) : ℕ → Bytes → List Bytes × Bytes
  | 0, bs => ([],bs)
  | fuel+1, bs =>
    match splitFirst delimiter bs with
    | none => ([],bs)
    | some (frame,rest) =>
      let more := literalFrames delimiter fuel rest
      (frame::more.1,more.2)

def parseFrames (rt : Runtime α) (cfg : DeviceConfig) (readBuffer : Bytes) :
    List String × Bytes :=
  match cfg.delimiter with
  | .literal delimiter =>
    let found := literalFrames delimiter readBuffer.length readBuffer
    let raws := (found.1.filter (fun frame => !frame.isEmpty)).map rt.decode
    if found.1.isEmpty then (raws,readBuffer)
    else if cfg.bufferCapacity < found.2.length then (raws,[])
    else (raws,found.2)
  | .pattern split =>
    let str := rt.decode readBuffer
    let parts := split str
    let tail := parts.getLast?.getD str
    let raws := parts.dropLast.filter (fun part => !part.isEmpty)
    if cfg.bufferCapacity < tail.utf8ByteSize then (raws,[]) else (raws,rt.encode tail)

/-- The bytes to scan once a chunk has arrived; nothing for a chunk that is
too large by itself. -/
def receive (cfg : DeviceConfig) (readBuffer data : Bytes) : Option Bytes :=
  if cfg.bufferCapacity < readBuffer.length+data.length then
    if cfg.bufferCapacity < data.length then none else some data
  else some (readBuffer++data)

def flushDue (cfg : DeviceConfig) (b : MessageBatcher α) : Bool :=
  let bufferSize := cfg.bufferSize.getD 0
  let bufferTimeMs := cfg.bufferTimeMs.getD 0
  if cfg.maxMessages ≤ b.messages.length || cfg.maxBytes ≤ b.totalBytes then true
  else if bufferSize ≤ 0 && bufferTimeMs ≤ 0 then true
  else decide (0 < bufferSize) && decide (bufferSize ≤ b.messages.length)

/-- `none` when the frame is discarded, else the batcher and whether it
emits `flush`. -/
def addMessage (rt : Runtime α) (cfg : DeviceConfig) (b : MessageBatcher α) (raw : String) :
    Option (MessageBatcher α × Bool) :=
  let byteLen := raw.utf8ByteSize
  if cfg.bufferCapacity < byteLen then none
  else
    match rt.parse raw with
    | none => none
    | some parsed =>
      let added : MessageBatcher α :=
        { b with
          messages := b.messages++[⟨b.totalReceived,parsed⟩]
          totalBytes := b.totalBytes+byteLen
          totalReceived := b.totalReceived+1 }
      some (added,flushDue cfg added)

/-- An accepted frame becomes the last message of the batch, under the next
serial number. -/
theorem addMessage_some {rt : Runtime α} {cfg : DeviceConfig} {b b' : MessageBatcher α}
    {raw : String} {flush : Bool} (h : addMessage rt cfg b raw = some (b',flush)) :
    (∃ value, b'.messages = b.messages++[⟨b.totalReceived,value⟩]) ∧
      b'.totalReceived = b.totalReceived+1 := by
  simp only [addMessage] at h
  split at h
  · cases h
  · split at h
    · cases h
    · rename_i value _
      cases h
      exact ⟨⟨value,rfl⟩,rfl⟩

theorem splitFirst_eq {delimiter bs frame rest : Bytes}
    (h : splitFirst delimiter bs = some (frame,rest)) : bs = frame++delimiter++rest := by
  induction bs generalizing frame with
  | nil =>
    cases delimiter with
    | nil => simpa [splitFirst] using h
    | cons d ds => simp [splitFirst] at h
  | cons b bs ih =>
    simp only [splitFirst] at h
    split at h
    · rename_i hp
      obtain ⟨tail,ht⟩ := List.isPrefixOf_iff_prefix.mp hp
      simp only [Option.some.injEq, Prod.mk.injEq] at h
      obtain ⟨rfl,rfl⟩ := h
      simp [← ht]
    · cases hs : splitFirst delimiter bs with
      | none => simp [hs] at h
      | some found =>
        simp only [hs, Option.map_some, Option.some.injEq, Prod.mk.injEq] at h
        obtain ⟨rfl,rfl⟩ := h
        simpa using ih hs

/-- Reassembly loses no byte: the frames, each with its delimiter, and the
tail make up the buffer again. -/
theorem literalFrames_flatten (delimiter : Bytes) (fuel : ℕ) (bs : Bytes) :
    (literalFrames delimiter fuel bs).1.flatMap (· ++ delimiter) ++
      (literalFrames delimiter fuel bs).2 = bs := by
  induction fuel generalizing bs with
  | zero => rfl
  | succ fuel ih =>
    simp only [literalFrames]
    cases hs : splitFirst delimiter bs with
    | none => rfl
    | some found =>
      obtain ⟨frame,rest⟩ := found
      simp only [List.flatMap_cons, List.append_assoc, ih]
      rw [splitFirst_eq hs, List.append_assoc]

theorem literalFrames_done (delimiter : Bytes) (hd : delimiter ≠ []) (fuel : ℕ) (bs : Bytes)
    (hf : bs.length ≤ fuel) : splitFirst delimiter (literalFrames delimiter fuel bs).2 = none := by
  induction fuel generalizing bs with
  | zero =>
    obtain rfl := List.length_eq_zero_iff.mp (Nat.le_zero.mp hf)
    cases delimiter with
    | nil => exact absurd rfl hd
    | cons d ds => rfl
  | succ fuel ih =>
    simp only [literalFrames]
    cases hs : splitFirst delimiter bs with
    | none => exact hs
    | some found =>
      obtain ⟨frame,rest⟩ := found
      have hlen := congrArg List.length (splitFirst_eq hs)
      have hpos := List.length_pos_iff.mpr hd
      simp only [List.length_append] at hlen
      exact ih rest (by omega)

theorem splitFirst_frame {delimiter bs frame rest : Bytes} (hd : delimiter ≠ [])
    (h : splitFirst delimiter bs = some (frame,rest)) : ¬delimiter <:+: frame := by
  induction bs generalizing frame with
  | nil =>
    cases delimiter with
    | nil => exact absurd rfl hd
    | cons d ds => cases h
  | cons b bs ih =>
    simp only [splitFirst] at h
    split at h
    · simp only [Option.some.injEq, Prod.mk.injEq] at h
      rw [← h.1, List.infix_nil]
      exact hd
    · rename_i hp
      cases hs : splitFirst delimiter bs with
      | none => simp [hs] at h
      | some found =>
        simp only [hs, Option.map_some, Option.some.injEq, Prod.mk.injEq] at h
        obtain ⟨rfl,rfl⟩ := h
        rw [List.infix_cons_iff, not_or]
        refine ⟨fun hpre => hp (List.isPrefixOf_iff_prefix.mpr ?_),ih hs⟩
        rw [splitFirst_eq hs, List.append_assoc]
        exact hpre.trans (List.prefix_append _ _)

theorem not_infix_of_splitFirst {delimiter bs : Bytes} (hd : delimiter ≠ [])
    (h : splitFirst delimiter bs = none) : ¬delimiter <:+: bs := by
  induction bs with
  | nil => rwa [List.infix_nil]
  | cons b bs ih =>
    simp only [splitFirst] at h
    split at h
    · cases h
    · rename_i hp
      rw [List.infix_cons_iff, ← List.isPrefixOf_iff_prefix, not_or]
      exact ⟨hp,ih (Option.map_eq_none_iff.mp h)⟩

/-- The frames and the tail hold no delimiter, and with one after each frame
they make up the buffer. -/
theorem frames_rejoin (delimiter : Bytes) (hd : delimiter ≠ []) (bs : Bytes) :
    let found := literalFrames delimiter bs.length bs
    found.1.flatMap (· ++ delimiter) ++ found.2 = bs ∧
      (∀ frame ∈ found.1, ¬delimiter <:+: frame) ∧ ¬delimiter <:+: found.2 := by
  have hframes : ∀ (fuel : ℕ) (bs : Bytes), ∀ frame ∈ (literalFrames delimiter fuel bs).1,
      ¬delimiter <:+: frame := by
    intro fuel
    induction fuel with
    | zero => exact fun _ _ h => absurd h List.not_mem_nil
    | succ fuel ih =>
      intro bs frame hmem
      simp only [literalFrames] at hmem
      cases hs : splitFirst delimiter bs with
      | none => simp [hs] at hmem
      | some found =>
        simp only [hs, List.mem_cons] at hmem
        cases hmem with
        | inl hfirst => exact hfirst ▸ splitFirst_frame hd hs
        | inr hlater => exact ih found.2 frame hlater
  exact ⟨literalFrames_flatten _ _ _,hframes _ bs,
    not_infix_of_splitFirst hd (literalFrames_done delimiter hd _ bs (Nat.le_refl _))⟩

theorem frames_rejoin_lines :
    let found := literalFrames [13,10] 6 [65,13,10,66,10,13]
    found.1.flatMap (· ++ [13,10]) ++ found.2 = [65,13,10,66,10,13] ∧
      (∀ frame ∈ found.1, ¬[13,10] <:+: frame) ∧ ¬[13,10] <:+: found.2 :=
  frames_rejoin [13,10] (by decide) [65,13,10,66,10,13]

end Iotistica.PublishBatcher

namespace Iotistica.PublishPipeline
open Iotistica.GuardedRun Iotistica.PublishBatcher

variable {α : Type*}

inductive Phase where
  | intercepting
  | queueing
  | queued
  | claiming
  | claimed
  | compressing
  | routing
  | confirming
  | failing
  deriving DecidableEq, Repr

structure InFlight (α : Type*) where
  phase : Phase
  batch : List (Message α)
  receivedBefore : ℕ
  deriving DecidableEq, Repr

structure Pipeline (α : Type*) where
  batcher : MessageBatcher α
  inFlight : Option (InFlight α)
  stored : List (List (Message α))
  confirmed : List (List (Message α))
  deriving DecidableEq, Repr

def Pipeline.new : Pipeline α := ⟨.new,none,[],[]⟩

/-- What the synchronous part of a publish meets: an interceptor, an error
while the payload is prepared, a connection, a destination of another kind. -/
structure Situation where
  intercepts : Bool
  prepareFails : Bool
  connected : Bool
  hasExternalBindings : Bool
  deriving DecidableEq, Repr

def Pipeline.enter (s : Pipeline α) (fl : InFlight α) (phase : Phase) : Pipeline α :=
  { s with inFlight := some { fl with phase := phase } }

def Pipeline.leave (s : Pipeline α) : Pipeline α := { s with inFlight := none }

def Pipeline.resetAndLeave (s : Pipeline α) : Pipeline α :=
  { s with batcher := s.batcher.reset, inFlight := none }

def prepare (sit : Situation) (s : Pipeline α) (fl : InFlight α) : Pipeline α :=
  if sit.prepareFails then s.leave
  else if !sit.connected && !sit.hasExternalBindings then s.enter fl .queueing
  else s.enter fl .claiming

def publishBatch (sit : Situation) (s : Pipeline α) : Pipeline α :=
  if s.batcher.messages.isEmpty then s
  else if s.inFlight.isSome then s
  else
    let fl : InFlight α := ⟨.intercepting,s.batcher.messages,s.batcher.totalReceived⟩
    if sit.intercepts then s.enter fl .intercepting else prepare sit s fl

def resume (sit : Situation) (ok : Bool) (s : Pipeline α) : Pipeline α :=
  match s.inFlight with
  | none => s
  | some fl =>
    match fl.phase with
    | .intercepting => prepare sit s fl
    | .queueing =>
      if ok then { s with stored := fl.batch::s.stored }.enter fl .queued else s.leave
    | .queued => s.resetAndLeave
    | .claiming =>
      if ok then { s with stored := fl.batch::s.stored }.enter fl .claimed
      else s.enter fl .queueing
    | .claimed => s.enter fl .compressing
    | .compressing => if ok then s.enter fl .routing else s.enter fl .failing
    | .routing =>
      if ok then { s with confirmed := fl.batch::s.confirmed }.enter fl .confirming
      else s.enter fl .failing
    | .confirming => s.resetAndLeave
    | .failing => if ok then s.resetAndLeave else s.leave

def receiveMessage (rt : Runtime α) (cfg : DeviceConfig) (sit : Situation) (s : Pipeline α)
    (raw : String) : Pipeline α :=
  match addMessage rt cfg s.batcher raw with
  | none => s
  | some (b,flush) =>
    if flush then publishBatch sit { s with batcher := b } else { s with batcher := b }

def setReadBuffer (s : Pipeline α) (bs : Bytes) : Pipeline α :=
  { s with batcher := { s.batcher with readBuffer := bs } }

def appendData (rt : Runtime α) (cfg : DeviceConfig) (sit : Situation) (s : Pipeline α)
    (data : Bytes) : Pipeline α :=
  match receive cfg s.batcher.readBuffer data with
  | none => setReadBuffer s []
  | some buffered =>
    let parsed := parseFrames rt cfg buffered
    setReadBuffer (parsed.1.foldl (receiveMessage rt cfg sit) s) parsed.2

inductive Event where
  | data (sit : Situation) (chunk : Bytes)
  | trigger (sit : Situation)
  | resume (sit : Situation) (ok : Bool)
  deriving DecidableEq, Repr

def step (rt : Runtime α) (cfg : DeviceConfig) (s : Pipeline α) : Event → Pipeline α
  | .data sit chunk => appendData rt cfg sit s chunk
  | .trigger sit => publishBatch sit s
  | .resume sit ok => resume sit ok s

def serials (ms : List (Message α)) : List ℕ := ms.map Message.serial

def Below (m : ℕ) (mss : List (List (Message α))) : Prop := ∀ ms ∈ mss, ∀ n ∈ serials ms, n < m

def Recorded (s : Pipeline α) (fl : InFlight α) : Prop :=
  match fl.phase with
  | .intercepting | .queueing | .claiming => True
  | .queued | .claimed | .compressing | .routing | .failing => fl.batch ∈ s.stored
  | .confirming => fl.batch ∈ s.confirmed

structure Grounded (s : Pipeline α) : Prop where
  batcher : ∀ n ∈ serials s.batcher.messages, n < s.batcher.totalReceived
  stored : Below s.batcher.totalReceived s.stored
  confirmed : Below s.batcher.totalReceived s.confirmed

/-- The batcher holds the batch in flight, followed by the messages parsed
since; batches on record are older than those. -/
structure Flying (s : Pipeline α) (fl : InFlight α) : Prop where
  received : fl.receivedBefore ≤ s.batcher.totalReceived
  messages : serials s.batcher.messages = serials fl.batch++
    List.range' fl.receivedBefore (s.batcher.totalReceived-fl.receivedBefore)
  batch : ∀ n ∈ serials fl.batch, n < fl.receivedBefore
  stored : Below fl.receivedBefore s.stored
  confirmed : Below fl.receivedBefore s.confirmed

def Shape (s : Pipeline α) : Prop :=
  Grounded s ∧ ∀ fl ∈ s.inFlight, Flying s fl ∧ Recorded s fl

theorem new_shape : Shape (Pipeline.new : Pipeline α) := by
  refine ⟨?_,by simp [Pipeline.new]⟩
  constructor <;> simp [Pipeline.new, MessageBatcher.new, serials, Below]

theorem Below.mono {m m' : ℕ} {mss : List (List (Message α))} (h : Below m mss) (hm : m ≤ m') :
    Below m' mss :=
  fun ms hms n hn => (h ms hms n hn).trans_le hm

theorem Below.cons {m : ℕ} {ms : List (Message α)} {mss : List (List (Message α))}
    (h : Below m mss) (hn : ∀ n ∈ serials ms, n < m) : Below m (ms::mss) := by
  intro ms' hms'
  rcases List.mem_cons.mp hms' with rfl | hms'
  · exact hn
  · exact h ms' hms'

theorem enter_shape {s : Pipeline α} {fl : InFlight α} (phase : Phase) (hg : Grounded s)
    (hf : Flying s fl) (hr : Recorded s { fl with phase := phase }) :
    Shape (s.enter fl phase) := by
  refine ⟨⟨hg.batcher,hg.stored,hg.confirmed⟩,?_⟩
  rintro _ ⟨⟩
  exact ⟨⟨hf.received,hf.messages,hf.batch,hf.stored,hf.confirmed⟩,hr⟩

theorem leave_shape {s : Pipeline α} (hg : Grounded s) : Shape s.leave :=
  ⟨⟨hg.batcher,hg.stored,hg.confirmed⟩,by simp [Pipeline.leave]⟩

theorem resetAndLeave_shape {s : Pipeline α} (hg : Grounded s) : Shape s.resetAndLeave :=
  ⟨⟨by simp [Pipeline.resetAndLeave, MessageBatcher.reset, serials],hg.stored,hg.confirmed⟩,
    by simp [Pipeline.resetAndLeave]⟩

theorem prepare_shape {s : Pipeline α} {fl : InFlight α} (sit : Situation) (hg : Grounded s)
    (hf : Flying s fl) : Shape (prepare sit s fl) := by
  unfold prepare
  split_ifs
  · exact leave_shape hg
  · exact enter_shape _ hg hf trivial
  · exact enter_shape _ hg hf trivial

theorem publishBatch_shape (sit : Situation) {s : Pipeline α} (h : Shape s) :
    Shape (publishBatch sit s) := by
  have hg := h.1
  have hf : Flying s ⟨.intercepting,s.batcher.messages,s.batcher.totalReceived⟩ :=
    ⟨le_rfl,by simp,hg.batcher,hg.stored,hg.confirmed⟩
  unfold publishBatch
  split_ifs
  · exact h
  · exact h
  · exact enter_shape _ hg hf trivial
  · exact prepare_shape sit hg hf

theorem stored_shape {s : Pipeline α} {fl : InFlight α} (hg : Grounded s) (hf : Flying s fl) :
    Grounded { s with stored := fl.batch::s.stored } ∧
      Flying { s with stored := fl.batch::s.stored } fl :=
  ⟨⟨hg.batcher,hg.stored.cons (fun n hn => (hf.batch n hn).trans_le hf.received),hg.confirmed⟩,
    ⟨hf.received,hf.messages,hf.batch,hf.stored.cons hf.batch,hf.confirmed⟩⟩

theorem confirmed_shape {s : Pipeline α} {fl : InFlight α} (hg : Grounded s) (hf : Flying s fl) :
    Grounded { s with confirmed := fl.batch::s.confirmed } ∧
      Flying { s with confirmed := fl.batch::s.confirmed } fl :=
  ⟨⟨hg.batcher,hg.stored,hg.confirmed.cons (fun n hn => (hf.batch n hn).trans_le hf.received)⟩,
    ⟨hf.received,hf.messages,hf.batch,hf.stored,hf.confirmed.cons hf.batch⟩⟩

theorem resume_shape (sit : Situation) (ok : Bool) {s : Pipeline α} (h : Shape s) :
    Shape (resume sit ok s) := by
  obtain ⟨hg,hin⟩ := h
  unfold resume
  split
  · exact ⟨hg,hin⟩
  · rename_i fl hfl
    obtain ⟨hf,hr⟩ := hin fl hfl
    obtain ⟨hgs,hfs⟩ := stored_shape hg hf
    obtain ⟨hgc,hfc⟩ := confirmed_shape hg hf
    unfold Recorded at hr
    split <;> rename_i hp <;> rw [hp] at hr
    · exact prepare_shape sit hg hf
    · split
      · exact enter_shape _ hgs hfs List.mem_cons_self
      · exact leave_shape hg
    · exact resetAndLeave_shape hg
    · split
      · exact enter_shape _ hgs hfs List.mem_cons_self
      · exact enter_shape _ hg hf trivial
    · exact enter_shape _ hg hf hr
    · split
      · exact enter_shape _ hg hf hr
      · exact enter_shape _ hg hf hr
    · split
      · exact enter_shape _ hgc hfc List.mem_cons_self
      · exact enter_shape _ hg hf hr
    · exact resetAndLeave_shape hg
    · split
      · exact resetAndLeave_shape hg
      · exact leave_shape hg

theorem addMessage_shape {rt : Runtime α} {cfg : DeviceConfig} {s : Pipeline α}
    {b : MessageBatcher α} {raw : String} {flush : Bool}
    (ha : addMessage rt cfg s.batcher raw = some (b,flush)) (h : Shape s) :
    Shape { s with batcher := b } := by
  obtain ⟨⟨value,hm⟩,ht⟩ := addMessage_some ha
  obtain ⟨hg,hin⟩ := h
  refine ⟨⟨?_,hg.stored.mono (by simp [ht]),hg.confirmed.mono (by simp [ht])⟩,?_⟩
  · intro n hn
    simp only [hm, ht, serials, List.map_append, List.map_cons, List.map_nil, List.mem_append,
      List.mem_singleton] at *
    rcases hn with hn | rfl
    · exact (hg.batcher n hn).trans (Nat.lt_succ_self _)
    · exact Nat.lt_succ_self _
  · intro fl hfl
    obtain ⟨hf,hr⟩ := hin fl hfl
    refine ⟨⟨hf.received.trans (by simp [ht]),?_,hf.batch,hf.stored,hf.confirmed⟩,hr⟩
    have hmsgs := hf.messages
    have hle := hf.received
    simp only [serials] at hmsgs
    simp only [serials, hm, ht, List.map_append, hmsgs, List.map_cons, List.map_nil,
      List.append_assoc]
    rw [Nat.succ_sub hle, List.range'_concat]
    simp
    omega

theorem receiveMessage_shape (rt : Runtime α) (cfg : DeviceConfig) (sit : Situation)
    {s : Pipeline α} (raw : String) (h : Shape s) : Shape (receiveMessage rt cfg sit s raw) := by
  unfold receiveMessage
  split
  · exact h
  · rename_i b flush ha
    split
    · exact publishBatch_shape sit (addMessage_shape ha h)
    · exact addMessage_shape ha h

theorem messages_shape (rt : Runtime α) (cfg : DeviceConfig) (sit : Situation) (raws : List String)
    {s : Pipeline α} (h : Shape s) : Shape (raws.foldl (receiveMessage rt cfg sit) s) := by
  induction raws generalizing s with
  | nil => exact h
  | cons raw raws ih => exact ih (receiveMessage_shape rt cfg sit raw h)

theorem setReadBuffer_shape {s : Pipeline α} (bs : Bytes) (h : Shape s) :
    Shape (setReadBuffer s bs) := by
  refine ⟨⟨h.1.batcher,h.1.stored,h.1.confirmed⟩,fun fl hfl => ?_⟩
  obtain ⟨hf,hr⟩ := h.2 fl hfl
  exact ⟨⟨hf.received,hf.messages,hf.batch,hf.stored,hf.confirmed⟩,hr⟩

theorem step_shape (rt : Runtime α) (cfg : DeviceConfig) (s : Pipeline α) (e : Event)
    (h : Shape s) : Shape (step rt cfg s e) := by
  cases e with
  | data sit chunk =>
    simp only [step, appendData]
    split
    · exact setReadBuffer_shape _ h
    · exact setReadBuffer_shape _ (messages_shape rt cfg sit _ h)
  | trigger sit => exact publishBatch_shape sit h
  | resume sit ok => exact resume_shape sit ok h

end Iotistica.PublishPipeline
