import Iotistica.PublishDelivery

/-!
# Stopping a publish manager

A stop raises a flag and then calls for a publish, which the flag turns away;
it goes on with the plugins and resolves. What becomes of the messages in the
batcher depends on the publish in flight alone: the flag ends it wherever it
has not begun to store its batch.
-/

set_option autoImplicit false

namespace Iotistica.PublishShutdown
open Iotistica.GuardedRun Iotistica.PublishBatcher Iotistica.PublishPipeline

variable {α : Type*}

/-- `plugins` counts the different publishers of the bindings: none are left
if there are no bindings. `marking` says that the publish in flight awaits the
buffer model to put its row back, and `awaits` what `stop` still awaits. -/
structure Manager (α : Type*) where
  pipeline : Pipeline α
  plugins : ℕ
  needStop : Bool
  marking : Bool
  awaits : Option ℕ

def Manager.new (plugins : ℕ) : Manager α := ⟨.new,plugins,false,false,none⟩

def publishOrDiscard (plugins : ℕ) (sit : Situation) (s : Pipeline α) : Pipeline α :=
  if s.batcher.messages.isEmpty then s
  else if s.inFlight.isSome then s
  else if plugins = 0 then { s with batcher := s.batcher.reset }
  else PublishPipeline.publishBatch sit s

def publishBatch (sit : Situation) (m : Manager α) : Manager α :=
  if m.needStop then m
  else { m with pipeline := publishOrDiscard m.plugins sit m.pipeline }

def receiveMessage (rt : Runtime α) (cfg : DeviceConfig) (plugins : ℕ) (sit : Situation)
    (s : Pipeline α) (raw : String) : Pipeline α :=
  match addMessage rt cfg s.batcher raw with
  | none => s
  | some (b,flush) =>
    if flush then publishOrDiscard plugins sit { s with batcher := b } else { s with batcher := b }

def appendData (rt : Runtime α) (cfg : DeviceConfig) (plugins : ℕ) (sit : Situation)
    (s : Pipeline α) (data : Bytes) : Pipeline α :=
  match receive cfg s.batcher.readBuffer data with
  | none => setReadBuffer s []
  | some buffered =>
    let parsed := parseFrames rt cfg buffered
    setReadBuffer (parsed.1.foldl (receiveMessage rt cfg plugins sit) s) parsed.2

def Manager.enter (m : Manager α) (fl : InFlight α) (phase : Phase) : Manager α :=
  { m with pipeline := m.pipeline.enter fl phase, marking := false }

def Manager.leave (m : Manager α) : Manager α :=
  { m with pipeline := m.pipeline.leave, marking := false }

def Manager.resetAndLeave (m : Manager α) : Manager α :=
  { m with pipeline := m.pipeline.resetAndLeave, marking := false }

def Manager.store (m : Manager α) (batch : List (Message α)) : Manager α :=
  { m with pipeline := { m.pipeline with stored := batch::m.pipeline.stored } }

def Manager.confirm (m : Manager α) (batch : List (Message α)) : Manager α :=
  { m with pipeline := { m.pipeline with confirmed := batch::m.pipeline.confirmed } }

def resumeStopped (ok : Bool) (m : Manager α) : Manager α :=
  match m.pipeline.inFlight with
  | none => m
  | some fl =>
    if m.marking then (if ok then m.resetAndLeave else m.enter fl .failing)
    else
      match fl.phase with
      | .intercepting => m.leave
      | .queueing => if ok then (m.store fl.batch).enter fl .queued else m.leave
      | .queued => m.resetAndLeave
      | .claiming => if ok then (m.store fl.batch).enter fl .claimed else m.leave
      | .claimed => { m with marking := true }
      | .compressing => if ok then { m with marking := true } else m.enter fl .failing
      | .routing =>
        if ok then (m.confirm fl.batch).enter fl .confirming else m.enter fl .failing
      | .confirming => m.resetAndLeave
      | .failing => if ok then m.resetAndLeave else m.leave

def resume (sit : Situation) (ok : Bool) (m : Manager α) : Manager α :=
  if m.needStop then resumeStopped ok m
  else { m with pipeline := PublishPipeline.resume sit ok m.pipeline }

/-- The synchronous part of a stop. It awaits the publish if there are
messages, and then each plugin. -/
def stop (sit : Situation) (m : Manager α) : Manager α :=
  let stopping := { m with needStop := true }
  if stopping.pipeline.batcher.messages.isEmpty then { stopping with awaits := some m.plugins }
  else { publishBatch sit stopping with awaits := some (m.plugins+1) }

/-- An await of the stop is over; with the last one it resolves. -/
def stopResumes (m : Manager α) : Manager α :=
  match m.awaits with
  | some (k+1) => { m with awaits := some k, plugins := if k = 0 then 0 else m.plugins }
  | _ => m

inductive Event where
  | data (sit : Situation) (chunk : Bytes)
  | trigger (sit : Situation)
  | resume (sit : Situation) (ok : Bool)
  | rebind (plugins : ℕ)
  | stop (sit : Situation)
  | stopResumes

def step (rt : Runtime α) (cfg : DeviceConfig) (m : Manager α) : Event → Manager α
  | .data sit chunk =>
    if m.needStop then m
    else { m with pipeline := appendData rt cfg m.plugins sit m.pipeline chunk }
  | .trigger sit => publishBatch sit m
  | .resume sit ok => resume sit ok m
  | .rebind plugins => if m.needStop then m else { m with plugins := plugins }
  | .stop sit => if m.needStop then m else stop sit m
  | .stopResumes => stopResumes m

/-- A message is stored in the buffer or was published. -/
def Kept (s : Pipeline α) (n : ℕ) : Prop :=
  (∃ ms ∈ s.stored, n ∈ serials ms) ∨ ∃ ms ∈ s.confirmed, n ∈ serials ms

def storing (phase : Phase) : Bool := phase = .queueing || phase = .claiming

/-- The publish in flight gets its batch stored when it next continues. -/
def Storing (s : Pipeline α) (n : ℕ) : Prop :=
  ∃ fl ∈ s.inFlight, storing fl.phase = true ∧ n ∈ serials fl.batch

def isResume : Event → Bool
  | .resume _ _ => true
  | _ => false

def StorageSucceeds (m : Manager α) : Event → Prop
  | .resume _ ok => ok = false → ∀ fl ∈ m.pipeline.inFlight, storing fl.phase = false
  | _ => True

theorem publishOrDiscard_shape (plugins : ℕ) (sit : Situation) {s : Pipeline α} (h : Shape s) :
    Shape (publishOrDiscard plugins sit s) := by
  unfold publishOrDiscard
  split
  · exact h
  · split
    · exact h
    · rename_i hidle
      split
      · have hsame : { s with batcher := s.batcher.reset } = s.resetAndLeave := by
          rw [Option.not_isSome_iff_eq_none] at hidle
          rw [Pipeline.resetAndLeave, hidle]
        rw [hsame]
        exact resetAndLeave_shape h.1
      · exact publishBatch_shape sit h

theorem receiveMessage_shape (rt : Runtime α) (cfg : DeviceConfig) (plugins : ℕ) (sit : Situation)
    {s : Pipeline α} (raw : String) (h : Shape s) :
    Shape (receiveMessage rt cfg plugins sit s raw) := by
  unfold receiveMessage
  split
  · exact h
  · rename_i b flush ha
    split
    · exact publishOrDiscard_shape plugins sit (addMessage_shape ha h)
    · exact addMessage_shape ha h

theorem appendData_shape (rt : Runtime α) (cfg : DeviceConfig) (plugins : ℕ) (sit : Situation)
    {s : Pipeline α} (data : Bytes) (h : Shape s) :
    Shape (appendData rt cfg plugins sit s data) := by
  have hall : ∀ (raws : List String) (s : Pipeline α), Shape s →
      Shape (raws.foldl (receiveMessage rt cfg plugins sit) s) := by
    intro raws
    induction raws with
    | nil => exact fun s hs => hs
    | cons raw raws ih => exact fun s hs => ih _ (receiveMessage_shape rt cfg plugins sit raw hs)
  unfold appendData
  split
  · exact setReadBuffer_shape _ h
  · exact setReadBuffer_shape _ (hall _ s h)

theorem resumeStopped_needStop (ok : Bool) (m : Manager α) :
    (resumeStopped ok m).needStop = m.needStop := by
  unfold resumeStopped
  split
  · rfl
  · split
    · split <;> rfl
    · split
      · rfl
      · split <;> rfl
      · rfl
      · split <;> rfl
      · rfl
      · split <;> rfl
      · split <;> rfl
      · rfl
      · split <;> rfl

theorem stop_eq (sit : Situation) (m : Manager α) :
    (stop sit m).needStop = true ∧ (stop sit m).pipeline = m.pipeline ∧
      (stop sit m).marking = m.marking := by
  have hturned : publishBatch sit { m with needStop := true } = { m with needStop := true } := rfl
  simp only [stop, hturned]
  split
  · exact ⟨rfl,rfl,rfl⟩
  · exact ⟨rfl,rfl,rfl⟩

def Running (m : Manager α) : Prop :=
  m.needStop = false → Shape m.pipeline ∧ m.marking = false

theorem step_running (rt : Runtime α) (cfg : DeviceConfig) (m : Manager α) (e : Event)
    (h : Running m) : Running (step rt cfg m e) := by
  cases hflag : m.needStop with
  | true =>
    intro hstill
    have hflag' : (step rt cfg m e).needStop = true := by
      cases e with
      | data sit chunk => simp [step, hflag]
      | trigger sit => simp [step, publishBatch, hflag]
      | resume sit ok =>
        simp only [step, resume, hflag, if_true, resumeStopped_needStop]
      | rebind plugins => simp [step, hflag]
      | stop sit => simp [step, hflag]
      | stopResumes =>
        simp only [step, stopResumes]
        split
        · exact hflag
        · exact hflag
    rw [hflag'] at hstill
    cases hstill
  | false =>
    obtain ⟨hshape,hmarking⟩ := h hflag
    cases e with
    | data sit chunk =>
      simp only [step, hflag]
      exact fun _ => ⟨appendData_shape rt cfg m.plugins sit chunk hshape,hmarking⟩
    | trigger sit =>
      simp only [step, publishBatch, hflag]
      exact fun _ => ⟨publishOrDiscard_shape m.plugins sit hshape,hmarking⟩
    | resume sit ok =>
      simp only [step, resume, hflag]
      exact fun _ => ⟨resume_shape sit ok hshape,hmarking⟩
    | rebind plugins =>
      simp only [step, hflag]
      exact fun _ => ⟨hshape,hmarking⟩
    | stop sit =>
      intro hstill
      simp only [step, hflag, Bool.false_eq_true, if_false, (stop_eq sit m).1] at hstill
      cases hstill
    | stopResumes =>
      simp only [step, stopResumes]
      split
      · exact fun _ => ⟨hshape,hmarking⟩
      · exact fun _ => ⟨hshape,hmarking⟩

theorem run_running (rt : Runtime α) (cfg : DeviceConfig) (es : List Event) (plugins : ℕ) :
    Running (run (step rt cfg) es (Manager.new plugins)) :=
  run_invariant (fun m e (_ : True) => step_running rt cfg m e) es _ (meets_any _ _ _)
    (fun _ => ⟨new_shape,rfl⟩)

/-- What a stopped manager keeps to: a publish past its storage has its batch on
record, and only such a one puts its row back. -/
structure Stopped (m : Manager α) : Prop where
  needStop : m.needStop = true
  recorded : ∀ fl ∈ m.pipeline.inFlight, Recorded m.pipeline fl
  marking : m.marking = true → ∀ fl ∈ m.pipeline.inFlight,
    fl.phase = .claimed ∨ fl.phase = .compressing

theorem stopped_leave {m : Manager α} (h : m.needStop = true) : Stopped m.leave :=
  ⟨h,fun _ hfl => absurd hfl (by simp [Manager.leave, Pipeline.leave]),nofun⟩

theorem stopped_reset {m : Manager α} (h : m.needStop = true) : Stopped m.resetAndLeave :=
  ⟨h,fun _ hfl => absurd hfl (by simp [Manager.resetAndLeave, Pipeline.resetAndLeave]),nofun⟩

theorem stopped_enter {m : Manager α} {fl : InFlight α} {phase : Phase} (h : m.needStop = true)
    (hr : Recorded m.pipeline { fl with phase := phase }) : Stopped (m.enter fl phase) := by
  refine ⟨h,?_,fun hm => by cases hm⟩
  rintro _ ⟨⟩
  exact hr

structure Continued (m m' : Manager α) : Prop where
  stopped : Stopped m'
  kept : ∀ n, Kept m'.pipeline n ↔ Kept m.pipeline n ∨ Storing m.pipeline n
  settled : ∀ n, ¬Storing m'.pipeline n

theorem not_storing_of_phase {s : Pipeline α} (h : ∀ fl ∈ s.inFlight, storing fl.phase = false)
    (n : ℕ) : ¬Storing s n := by
  rintro ⟨fl,hfl,hstoring,-⟩
  rw [h fl hfl] at hstoring
  cases hstoring

theorem continued_same {m m' : Manager α} (hs : Stopped m')
    (hold : ∀ fl ∈ m.pipeline.inFlight, storing fl.phase = false)
    (hnew : ∀ fl ∈ m'.pipeline.inFlight, storing fl.phase = false)
    (hstored : m'.pipeline.stored = m.pipeline.stored)
    (hconfirmed : m'.pipeline.confirmed = m.pipeline.confirmed) : Continued m m' where
  stopped := hs
  kept := by
    intro n
    rw [Kept, hstored, hconfirmed]
    exact ⟨Or.inl,fun h => h.resolve_right (not_storing_of_phase hold n)⟩
  settled := not_storing_of_phase hnew

theorem continued_store {m : Manager α} {fl : InFlight α} {phase : Phase}
    (hflag : m.needStop = true) (hfl : m.pipeline.inFlight = some fl)
    (hold : storing fl.phase = true) (hnew : storing phase = false)
    (hr : Recorded (m.store fl.batch).pipeline { fl with phase := phase }) :
    Continued m ((m.store fl.batch).enter fl phase) where
  stopped := stopped_enter hflag hr
  kept := by
    intro n
    have hstoring : Storing m.pipeline n ↔ n ∈ serials fl.batch := by
      constructor
      · rintro ⟨fl',hfl',-,hn⟩
        rw [hfl] at hfl'
        obtain rfl := Option.some.inj hfl'
        exact hn
      · exact fun hn => ⟨fl,hfl,hold,hn⟩
    rw [hstoring]
    change ((∃ ms ∈ fl.batch::m.pipeline.stored, n ∈ serials ms) ∨ _) ↔ _
    simp only [List.mem_cons, exists_eq_or_imp]
    exact ⟨fun h => h.elim (fun h => h.elim Or.inr (fun h => Or.inl (Or.inl h)))
      (fun h => Or.inl (Or.inr h)),fun h => h.elim
        (fun h => h.elim (fun h => Or.inl (Or.inr h)) Or.inr) (fun h => Or.inl (Or.inl h))⟩
  settled := by
    refine not_storing_of_phase ?_
    rintro _ ⟨⟩
    exact hnew

theorem continued_confirm {m : Manager α} {fl : InFlight α}
    (hflag : m.needStop = true) (hfl : m.pipeline.inFlight = some fl)
    (hphase : fl.phase = .routing) (hr : fl.batch ∈ m.pipeline.stored) :
    Continued m ((m.confirm fl.batch).enter fl .confirming) where
  stopped := stopped_enter hflag List.mem_cons_self
  kept := by
    intro n
    have hnot : ¬Storing m.pipeline n := by
      refine not_storing_of_phase (fun fl' hfl' => ?_) n
      rw [hfl] at hfl'
      obtain rfl := Option.some.inj hfl'
      rw [hphase]
      rfl
    rw [or_iff_left hnot]
    change (_ ∨ ∃ ms ∈ fl.batch::m.pipeline.confirmed, n ∈ serials ms) ↔ _
    simp only [List.mem_cons, exists_eq_or_imp]
    constructor
    · rintro (h | h | h)
      · exact Or.inl h
      · exact Or.inl ⟨fl.batch,hr,h⟩
      · exact Or.inr h
    · exact fun h => h.imp id Or.inr
  settled := by
    refine not_storing_of_phase ?_
    rintro _ ⟨⟩
    rfl

theorem continued_leave {m : Manager α} (hflag : m.needStop = true)
    (hold : ∀ fl ∈ m.pipeline.inFlight, storing fl.phase = false) : Continued m m.leave :=
  continued_same (stopped_leave hflag) hold
    (fun _ hfl => absurd hfl (by simp [Manager.leave, Pipeline.leave])) rfl rfl

theorem continued_reset {m : Manager α} (hflag : m.needStop = true)
    (hold : ∀ fl ∈ m.pipeline.inFlight, storing fl.phase = false) : Continued m m.resetAndLeave :=
  continued_same (stopped_reset hflag) hold
    (fun _ hfl => absurd hfl (by simp [Manager.resetAndLeave, Pipeline.resetAndLeave])) rfl rfl

theorem continued_enter {m : Manager α} {fl : InFlight α} {phase : Phase}
    (hflag : m.needStop = true) (hold : ∀ fl ∈ m.pipeline.inFlight, storing fl.phase = false)
    (hnew : storing phase = false) (hr : Recorded m.pipeline { fl with phase := phase }) :
    Continued m (m.enter fl phase) := by
  refine continued_same (stopped_enter hflag hr) hold ?_ rfl rfl
  rintro _ ⟨⟩
  exact hnew

theorem continued_mark {m : Manager α} {fl : InFlight α} (h : Stopped m)
    (hfl : m.pipeline.inFlight = some fl)
    (hphase : fl.phase = .claimed ∨ fl.phase = .compressing) :
    Continued m { m with marking := true } := by
  have hold : ∀ fl' ∈ m.pipeline.inFlight, fl'.phase = .claimed ∨ fl'.phase = .compressing := by
    intro fl' hfl'
    rw [hfl] at hfl'
    obtain rfl := Option.some.inj hfl'
    exact hphase
  have hstoring : ∀ fl' ∈ m.pipeline.inFlight, storing fl'.phase = false := by
    intro fl' hfl'
    rcases hold fl' hfl' with hp | hp
    · rw [hp]
      rfl
    · rw [hp]
      rfl
  exact continued_same ⟨h.needStop,h.recorded,fun _ => hold⟩ hstoring hstoring rfl rfl

theorem continued_storage {m : Manager α} {ok : Bool} {fl : InFlight α} {phase : Phase}
    (hflag : m.needStop = true)
    (hok : ok = false → ∀ fl ∈ m.pipeline.inFlight, storing fl.phase = false)
    (hfl : m.pipeline.inFlight = some fl) (hold : storing fl.phase = true)
    (hnew : storing phase = false)
    (hr : Recorded (m.store fl.batch).pipeline { fl with phase := phase }) :
    Continued m (if ok then (m.store fl.batch).enter fl phase else m.leave) := by
  cases ok with
  | true => exact continued_store hflag hfl hold hnew hr
  | false =>
    have hphase := hok rfl fl hfl
    rw [hold] at hphase
    cases hphase

theorem resumeStopped_continued {m : Manager α} {ok : Bool} (h : Stopped m)
    (hok : ok = false → ∀ fl ∈ m.pipeline.inFlight, storing fl.phase = false) :
    Continued m (resumeStopped ok m) := by
  have hflag := h.needStop
  unfold resumeStopped
  split
  · rename_i hnone
    have hidle : ∀ fl ∈ m.pipeline.inFlight, storing fl.phase = false := by
      intro fl hfl
      rw [hnone] at hfl
      cases hfl
    exact continued_same h hidle hidle rfl rfl
  · rename_i fl hfl
    have hr := h.recorded fl hfl
    have hold : storing fl.phase = false →
        ∀ fl' ∈ m.pipeline.inFlight, storing fl'.phase = false := by
      intro hphase fl' hfl'
      rw [hfl] at hfl'
      obtain rfl := Option.some.inj hfl'
      exact hphase
    split
    · rename_i hmarking
      have hphase : storing fl.phase = false ∧ fl.batch ∈ m.pipeline.stored := by
        unfold Recorded at hr
        rcases h.marking hmarking fl hfl with hp | hp
        · rw [hp] at hr ⊢
          exact ⟨rfl,hr⟩
        · rw [hp] at hr ⊢
          exact ⟨rfl,hr⟩
      split
      · exact continued_reset hflag (hold hphase.1)
      · exact continued_enter hflag (hold hphase.1) rfl hphase.2
    · unfold Recorded at hr
      split <;> rename_i hp <;> rw [hp] at hold hr
      · exact continued_leave hflag (hold rfl)
      · exact continued_storage hflag hok hfl (by rw [hp]; rfl) rfl List.mem_cons_self
      · exact continued_reset hflag (hold rfl)
      · exact continued_storage hflag hok hfl (by rw [hp]; rfl) rfl List.mem_cons_self
      · exact continued_mark h hfl (Or.inl hp)
      · split
        · exact continued_mark h hfl (Or.inr hp)
        · exact continued_enter hflag (hold rfl) rfl hr
      · split
        · exact continued_confirm hflag hfl hp hr
        · exact continued_enter hflag (hold rfl) rfl hr
      · exact continued_reset hflag (hold rfl)
      · split
        · exact continued_reset hflag (hold rfl)
        · exact continued_leave hflag (hold rfl)

theorem step_stopped (rt : Runtime α) (cfg : DeviceConfig) {m : Manager α} {e : Event}
    (h : Stopped m) (he : isResume e = false) :
    Stopped (step rt cfg m e) ∧ (step rt cfg m e).pipeline = m.pipeline := by
  have hflag := h.needStop
  cases e with
  | data sit chunk => simp [step, hflag, h]
  | trigger sit => simp [step, publishBatch, hflag, h]
  | resume sit ok => cases he
  | rebind plugins => simp [step, hflag, h]
  | stop sit => simp [step, hflag, h]
  | stopResumes =>
    simp only [step, stopResumes]
    split
    · exact ⟨⟨h.needStop,h.recorded,h.marking⟩,rfl⟩
    · exact ⟨h,rfl⟩

theorem run_stopped (rt : Runtime α) (cfg : DeviceConfig) (es : List Event) {m : Manager α}
    (h : Stopped m) (hs : Meets (step rt cfg) StorageSucceeds es m) (n : ℕ) :
    Kept (run (step rt cfg) es m).pipeline n ↔
      Kept m.pipeline n ∨ (Storing m.pipeline n ∧ es.any isResume = true) := by
  induction es generalizing m with
  | nil => simp
  | cons e es ih =>
    rw [run_cons]
    cases he : isResume e with
    | false =>
      obtain ⟨hstopped,hsame⟩ := step_stopped rt cfg h he
      rw [ih hstopped hs.2, hsame, List.any_cons, he, Bool.false_or]
    | true =>
      cases e with
      | resume sit ok =>
        have hstep : step rt cfg m (.resume sit ok) = resumeStopped ok m := by
          simp only [step, resume, h.needStop, if_true]
        have hcontinued := resumeStopped_continued h hs.1
        have hrest := ih (hstep ▸ hcontinued.stopped) hs.2
        rw [hstep] at hrest ⊢
        rw [hrest, hcontinued.kept, List.any_cons, he, Bool.true_or]
        have hover := hcontinued.settled n
        tauto
      | data sit chunk => cases he
      | trigger sit => cases he
      | rebind plugins => cases he
      | stop sit => cases he
      | stopResumes => cases he

/-- A stop that resolves, with what happens until then: storage succeeds. -/
structure Resolves (rt : Runtime α) (cfg : DeviceConfig) (m : Manager α) (sit : Situation)
    (es : List Event) : Prop where
  running : m.needStop = false
  storage : Meets (step rt cfg) StorageSucceeds es (stop sit m)
  resolved : (run (step rt cfg) es (stop sit m)).awaits = some 0

/-- When a stop has resolved, the messages that were in the batcher are stored
or published exactly if each was so before, or is of a batch that the publish
in flight was about to store and this publish has gone on since. -/
theorem stop_keeps_iff (rt : Runtime α) (cfg : DeviceConfig) (before : List Event) (plugins : ℕ)
    (m : Manager α) (hm : m = run (step rt cfg) before (Manager.new plugins)) (sit : Situation)
    (after : List Event) (h : Resolves rt cfg m sit after) :
    (∀ n ∈ serials m.pipeline.batcher.messages,
        Kept (run (step rt cfg) after (stop sit m)).pipeline n) ↔
      ∀ n ∈ serials m.pipeline.batcher.messages,
        Kept m.pipeline n ∨ (Storing m.pipeline n ∧ after.any isResume = true) := by
  obtain ⟨hflag,hpipeline,hmarking⟩ := stop_eq sit m
  obtain ⟨hshape,hidle⟩ : Shape m.pipeline ∧ m.marking = false :=
    hm ▸ run_running rt cfg before plugins (hm ▸ h.running)
  have hstopped : Stopped (stop sit m) := by
    refine ⟨hflag,fun fl hfl => ?_,fun hmark => ?_⟩
    · rw [hpipeline] at hfl ⊢
      exact (hshape.2 fl hfl).2
    · rw [hmarking, hidle] at hmark
      cases hmark
  refine forall₂_congr fun n _ => ?_
  rw [run_stopped rt cfg after hstopped h.storage, hpipeline]

/-- The publish in flight stores its batch between the two awaits of the stop. -/
theorem batch_being_claimed_kept :
    run (step PublishDelivery.numbers PublishDelivery.unbuffered)
        [.data PublishDelivery.online [49,10]] (Manager.new 1) =
      ⟨⟨⟨[],[⟨0,1⟩],1,1⟩,some ⟨.claiming,[⟨0,1⟩],1⟩,[],[]⟩,1,false,false,none⟩ ∧
    ∀ n ∈ [0], Kept (run (step PublishDelivery.numbers PublishDelivery.unbuffered)
      [.resume PublishDelivery.online true,.stopResumes,.stopResumes]
      (stop PublishDelivery.online ⟨⟨⟨[],[⟨0,1⟩],1,1⟩,some ⟨.claiming,[⟨0,1⟩],1⟩,[],[]⟩,
        1,false,false,none⟩)).pipeline n := by
  have hbefore : run (step PublishDelivery.numbers PublishDelivery.unbuffered)
      [.data PublishDelivery.online [49,10]] (Manager.new 1) =
      ⟨⟨⟨[],[⟨0,1⟩],1,1⟩,some ⟨.claiming,[⟨0,1⟩],1⟩,[],[]⟩,1,false,false,none⟩ := by rfl
  refine ⟨hbefore,(stop_keeps_iff PublishDelivery.numbers PublishDelivery.unbuffered
    [.data PublishDelivery.online [49,10]] 1 _ hbefore.symm PublishDelivery.online
    [.resume PublishDelivery.online true,.stopResumes,.stopResumes]
    ⟨rfl,⟨nofun,trivial,trivial,trivial⟩,rfl⟩).2 ?_⟩
  intro n hn
  obtain rfl : n = 0 := by simpa [serials] using hn
  exact Or.inr ⟨⟨_,rfl,rfl,by simp [serials]⟩,rfl⟩

def tenAtATime : DeviceConfig := { PublishDelivery.unbuffered with bufferSize := some 10 }

/-- With no publish in flight the stop resolves and leaves the batch behind. -/
theorem batch_left_behind :
    ¬∀ (before : List Event) (plugins : ℕ) (m : Manager ℕ),
      m = run (step PublishDelivery.numbers tenAtATime) before (Manager.new plugins) →
      1 ≤ m.plugins → ∀ (sit : Situation) (after : List Event),
      Resolves PublishDelivery.numbers tenAtATime m sit after →
      ∀ n ∈ serials m.pipeline.batcher.messages,
        Kept (run (step PublishDelivery.numbers tenAtATime) after (stop sit m)).pipeline n := by
  intro h
  have hbefore : run (step PublishDelivery.numbers tenAtATime)
      [.data PublishDelivery.online [49,10]] (Manager.new 1) =
      ⟨⟨⟨[],[⟨0,1⟩],1,1⟩,none,[],[]⟩,1,false,false,none⟩ := by rfl
  have hkept := h [.data PublishDelivery.online [49,10]] 1 _ hbefore.symm (le_refl 1)
    PublishDelivery.online [.stopResumes,.stopResumes] ⟨rfl,⟨trivial,trivial,trivial⟩,rfl⟩ 0
    (by simp [serials])
  simp [Kept, stop, publishBatch, step, stopResumes] at hkept

end Iotistica.PublishShutdown
