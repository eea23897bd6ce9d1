import Iotistica.PublishPipeline

/-!
# No parsed message is lost

Data that arrives only ever adds to the batcher, so a message can be lost
in one place: where a publish that has completed resets the batcher it
shares with the socket. The batch itself is on record by then. What goes
with it are the messages parsed since the batch was copied, and a run loses
none exactly when there are none of these whenever a publish completes.
-/

set_option autoImplicit false

namespace Iotistica.PublishDelivery
open Iotistica.GuardedRun Iotistica.PublishBatcher Iotistica.PublishPipeline

variable {α : Type*}

def Accounted (s : Pipeline α) (n : ℕ) : Prop :=
  n ∈ serials s.batcher.messages ∨ (∃ fl ∈ s.inFlight, n ∈ serials fl.batch) ∨
    (∃ ms ∈ s.confirmed, n ∈ serials ms) ∨ ∃ ms ∈ s.stored, n ∈ serials ms

def NoLoss (s : Pipeline α) : Prop := ∀ n < s.batcher.totalReceived, Accounted s n

/-- The await points after which the publish has taken its batch out of the
pipeline: it was queued, confirmed, or put back for a retry. -/
def completes (phase : Phase) (ok : Bool) : Bool :=
  match phase with
  | .queued => true
  | .confirming => true
  | .failing => ok
  | _ => false

/-- A publish that completes finds no message parsed since it copied its batch. -/
def Quiet (s : Pipeline α) : Event → Prop
  | .resume _ ok => ∀ fl ∈ s.inFlight, completes fl.phase ok = true →
      s.batcher.totalReceived = fl.receivedBefore
  | _ => True

theorem leave_noLoss {s : Pipeline α} (h : Shape s) (hn : NoLoss s) : NoLoss s.leave := by
  intro n hlt
  rcases hn n hlt with hb | ⟨fl,hfl,hm⟩ | hrest
  · exact Or.inl hb
  · left
    have hmsgs := (h.2 fl hfl).1.messages
    change n ∈ serials s.batcher.messages
    rw [hmsgs]
    exact List.mem_append_left _ hm
  · exact Or.inr (Or.inr hrest)

theorem enter_noLoss {s s' : Pipeline α} {fl : InFlight α} (phase : Phase) (hn : NoLoss s)
    (hfl : s.inFlight = some fl ∨ s.inFlight = none) (hb : s'.batcher = s.batcher)
    (hs : s.stored ⊆ s'.stored) (hc : s.confirmed ⊆ s'.confirmed) :
    NoLoss (s'.enter fl phase) := by
  intro n hlt
  have hlt' : n < s.batcher.totalReceived := hb ▸ hlt
  rcases hn n hlt' with hm | ⟨fl',hfl',hm⟩ | ⟨ms,hms,hm⟩ | ⟨ms,hms,hm⟩
  · exact Or.inl (hb.symm ▸ hm)
  · rcases hfl with he | he
    · rw [he] at hfl'
      obtain rfl := Option.some.inj hfl'
      exact Or.inr (Or.inl ⟨_,rfl,hm⟩)
    · rw [he] at hfl'
      cases hfl'
  · exact Or.inr (Or.inr (Or.inl ⟨ms,hc hms,hm⟩))
  · exact Or.inr (Or.inr (Or.inr ⟨ms,hs hms,hm⟩))

theorem prepare_noLoss (sit : Situation) {s : Pipeline α} {fl : InFlight α} (h : Shape s)
    (hn : NoLoss s) (hfl : s.inFlight = some fl ∨ s.inFlight = none) :
    NoLoss (prepare sit s fl) := by
  unfold prepare
  split_ifs
  · exact leave_noLoss h hn
  · exact enter_noLoss _ hn hfl rfl (List.Subset.refl _) (List.Subset.refl _)
  · exact enter_noLoss _ hn hfl rfl (List.Subset.refl _) (List.Subset.refl _)

theorem publishBatch_noLoss (sit : Situation) {s : Pipeline α} (h : Shape s) (hn : NoLoss s) :
    NoLoss (publishBatch sit s) := by
  unfold publishBatch
  split_ifs with _ hin
  · exact hn
  · exact hn
  · exact enter_noLoss _ hn (Or.inr (by simpa using hin)) rfl (List.Subset.refl _)
      (List.Subset.refl _)
  · exact prepare_noLoss sit h hn (Or.inr (by simpa using hin))

theorem addMessage_noLoss {rt : Runtime α} {cfg : DeviceConfig} {s : Pipeline α}
    {b : MessageBatcher α} {raw : String} {flush : Bool}
    (ha : addMessage rt cfg s.batcher raw = some (b,flush)) (hn : NoLoss s) :
    NoLoss { s with batcher := b } := by
  obtain ⟨⟨value,hm⟩,ht⟩ := addMessage_some ha
  intro n hlt
  have hlt' : n < s.batcher.totalReceived ∨ n = s.batcher.totalReceived := by
    simp only [ht] at hlt
    omega
  simp only [Accounted, hm, serials, List.map_append, List.mem_append, List.map_cons,
    List.map_nil, List.mem_singleton]
  rcases hlt' with hlt' | rfl
  · rcases hn n hlt' with hb | hrest
    · exact Or.inl (Or.inl hb)
    · exact Or.inr hrest
  · exact Or.inl (Or.inr rfl)

theorem messages_noLoss (rt : Runtime α) (cfg : DeviceConfig) (sit : Situation)
    (raws : List String) {s : Pipeline α} (h : Shape s) (hn : NoLoss s) :
    NoLoss (raws.foldl (receiveMessage rt cfg sit) s) := by
  induction raws generalizing s with
  | nil => exact hn
  | cons raw raws ih =>
    refine ih (receiveMessage_shape rt cfg sit raw h) ?_
    unfold receiveMessage
    split
    · exact hn
    · rename_i b flush ha
      split
      · exact publishBatch_noLoss sit (addMessage_shape ha h) (addMessage_noLoss ha hn)
      · exact addMessage_noLoss ha hn

/-- With the batch on record, the reset is harmless exactly when the
batcher holds nothing else. -/
theorem resetAndLeave_noLoss_iff {s : Pipeline α} {fl : InFlight α} (hf : Flying s fl)
    (hin : s.inFlight = some fl) (hrec : fl.batch ∈ s.stored ∨ fl.batch ∈ s.confirmed)
    (hn : NoLoss s) :
    NoLoss s.resetAndLeave ↔ s.batcher.totalReceived = fl.receivedBefore := by
  have hle := hf.received
  constructor
  · intro h
    by_contra hne
    have hlt : fl.receivedBefore < s.batcher.totalReceived := by omega
    rcases h fl.receivedBefore hlt with hb | ⟨_,hfl,_⟩ | ⟨ms,hms,hm⟩ | ⟨ms,hms,hm⟩
    · simp [Pipeline.resetAndLeave, MessageBatcher.reset, serials] at hb
    · simp [Pipeline.resetAndLeave] at hfl
    · exact lt_irrefl _ (hf.confirmed ms hms _ hm)
    · exact lt_irrefl _ (hf.stored ms hms _ hm)
  · intro he n hlt
    have hbatch : n ∈ serials fl.batch → Accounted s.resetAndLeave n := by
      intro hm
      rcases hrec with hs | hc
      · exact Or.inr (Or.inr (Or.inr ⟨_,hs,hm⟩))
      · exact Or.inr (Or.inr (Or.inl ⟨_,hc,hm⟩))
    have hmsgs := hf.messages
    rw [he, Nat.sub_self, List.range'_zero, List.append_nil] at hmsgs
    rcases hn n hlt with hb | ⟨fl',hfl',hm⟩ | hrest
    · exact hbatch (hmsgs ▸ hb)
    · rw [hin] at hfl'
      obtain rfl := Option.some.inj hfl'
      exact hbatch hm
    · exact Or.inr (Or.inr hrest)

theorem resume_noLoss_iff (sit : Situation) (ok : Bool) {s : Pipeline α} (h : Shape s)
    (hn : NoLoss s) :
    NoLoss (resume sit ok s) ↔ ∀ fl ∈ s.inFlight, completes fl.phase ok = true →
      s.batcher.totalReceived = fl.receivedBefore := by
  unfold resume
  split
  · rename_i hin
    simp [hin, hn]
  · rename_i fl hin
    obtain ⟨hf,hr⟩ := h.2 fl hin
    have hreset := fun hrec => @resetAndLeave_noLoss_iff α s fl hf hin hrec hn
    have henter : ∀ {s' : Pipeline α} (phase : Phase), s'.batcher = s.batcher →
        s.stored ⊆ s'.stored → s.confirmed ⊆ s'.confirmed → NoLoss (s'.enter fl phase) :=
      fun phase => enter_noLoss phase hn (Or.inl hin)
    have hleave := leave_noLoss h hn
    unfold Recorded at hr
    simp only [hin, Option.mem_some_iff, forall_eq']
    cases hp : fl.phase <;> simp only [hp, completes, forall_const, Bool.false_eq_true,
      false_implies, iff_true] at hr ⊢
    case intercepting => exact prepare_noLoss sit h hn (Or.inl hin)
    case queueing =>
      split
      · exact henter _ rfl (List.subset_cons_self _ _) (List.Subset.refl _)
      · exact hleave
    case queued => exact hreset (Or.inl hr)
    case claiming =>
      split
      · exact henter _ rfl (List.subset_cons_self _ _) (List.Subset.refl _)
      · exact henter _ rfl (List.Subset.refl _) (List.Subset.refl _)
    case claimed => exact henter _ rfl (List.Subset.refl _) (List.Subset.refl _)
    case compressing =>
      split <;> exact henter _ rfl (List.Subset.refl _) (List.Subset.refl _)
    case routing =>
      split
      · exact henter _ rfl (List.Subset.refl _) (List.subset_cons_self _ _)
      · exact henter _ rfl (List.Subset.refl _) (List.Subset.refl _)
    case confirming => exact hreset (Or.inr hr)
    case failing =>
      cases ok with
      | true => simpa using hreset (Or.inl hr)
      | false => simpa using hleave

theorem step_noLoss_iff (rt : Runtime α) (cfg : DeviceConfig) (s : Pipeline α) (e : Event)
    (h : Shape s) (hn : NoLoss s) : NoLoss (step rt cfg s e) ↔ Quiet s e := by
  cases e with
  | data sit chunk =>
    simp only [step, appendData, Quiet, iff_true]
    split
    · exact hn
    · exact messages_noLoss rt cfg sit _ h hn
  | trigger sit =>
    simp only [step, Quiet, iff_true]
    exact publishBatch_noLoss sit h hn
  | resume sit ok => exact resume_noLoss_iff sit ok h hn

/-- From a new pipeline, whatever the runtime, the configuration and the
interleaving: every parsed message is accounted for in every state reached
if and only if each publish completes with no message parsed since it
copied its batch. -/
theorem no_message_lost_iff_quiet (rt : Runtime α) (cfg : DeviceConfig) (es : List Event) :
    (∀ pre, pre <+: es → NoLoss (run (step rt cfg) pre Pipeline.new)) ↔
      Meets (step rt cfg) Quiet es Pipeline.new := by
  have hn : NoLoss (Pipeline.new : Pipeline α) := by
    intro n hlt
    simp [Pipeline.new, MessageBatcher.new] at hlt
  exact always_iff_meets (step_shape rt cfg) (step_noLoss_iff rt cfg) es _ new_shape hn

def digits (raw : String) : Option ℕ :=
  if raw.toList.all Char.isDigit then
    some (raw.toList.foldl (fun n c => 10*n+(c.toNat - '0'.toNat)) 0)
  else none

def numbers : Runtime ℕ where
  decode := fun bs => String.ofList (bs.map (fun b => Char.ofNat b.toNat))
  encode := fun str => str.toList.map (fun c => UInt8.ofNat c.toNat)
  parse := digits

def unbuffered : DeviceConfig where
  delimiter := .literal [10]
  bufferCapacity := 1024
  bufferSize := none
  bufferTimeMs := none
  maxMessages := 1000
  maxBytes := 1000000

def online : Situation := ⟨false,false,true,false⟩

def twoLines : List Event :=
  [.data online [49,10,50,10],.resume online true,.resume online true,.resume online true,
    .resume online true,.resume online true]

theorem second_line_lost :
    ¬∀ es pre, pre <+: es → NoLoss (run (step numbers unbuffered) pre Pipeline.new) := by
  intro h
  have hs : run (step numbers unbuffered) twoLines Pipeline.new =
      ⟨⟨[],[],0,2⟩,none,[[⟨0,1⟩]],[[⟨0,1⟩]]⟩ := by decide
  have hlost := h twoLines twoLines (List.prefix_refl _)
  rw [hs] at hlost
  simpa [Accounted, serials] using hlost 1 (by decide)

end Iotistica.PublishDelivery
