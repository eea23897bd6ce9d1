import Iotistica.GuardedRun
import Iotistica.IngestionWorker

/-!
# Nothing is acknowledged that was not stored

An entry may be acknowledged when all it decoded to was passed to one
successful insert or spool write, when it decoded to nothing, or when it is a
dead letter. The record these speak of only grows, so what was justified
stays so; each worker carries the entries of its batch with the data that
goes to the store, and the tracker holds justified ids only.
-/

set_option autoImplicit false

namespace Iotistica.Ingestion
open Iotistica.GuardedRun

variable {D : Type}

def Within (s : State D) (allData : List D) (id : String) : Prop :=
  ∃ data, (id,data) ∈ s.decoded ∧ data <:+: allData

def Justified (s : State D) (id : String) : Prop :=
  (∃ data, (id,data) ∈ s.decoded ∧ (data = [] ∨ ∃ allData ∈ s.stored, data <:+: allData)) ∨
    id ∈ s.deadLetters

structure Extends (s s' : State D) : Prop where
  decoded : s.decoded ⊆ s'.decoded
  stored : s.stored ⊆ s'.stored
  deadLetters : s.deadLetters ⊆ s'.deadLetters

theorem Extends.refl (s : State D) : Extends s s :=
  ⟨fun _ h => h,fun _ h => h,fun _ h => h⟩

theorem Within.mono {s s' : State D} (he : Extends s s') {allData : List D} {id : String}
    (h : Within s allData id) : Within s' allData id := by
  obtain ⟨data,hd,hin⟩ := h
  exact ⟨data,he.decoded hd,hin⟩

theorem Within.append {s : State D} {allData : List D} {id : String} (h : Within s allData id)
    (more : List D) : Within s (allData++more) id := by
  obtain ⟨data,hd,hin⟩ := h
  exact ⟨data,hd,hin.trans (List.prefix_append allData more).isInfix⟩

theorem Justified.mono {s s' : State D} (he : Extends s s') {id : String} (h : Justified s id) :
    Justified s' id := by
  rcases h with ⟨data,hd,hdata⟩ | hl
  · refine Or.inl ⟨data,he.decoded hd,hdata.imp_right ?_⟩
    exact fun ⟨allData,hs,hin⟩ => ⟨allData,he.stored hs,hin⟩
  · exact Or.inr (he.deadLetters hl)

theorem Within.justified {s : State D} {allData : List D} {id : String} (h : Within s allData id)
    (hstored : allData = [] ∨ allData ∈ s.stored) : Justified s id := by
  obtain ⟨data,hd,hin⟩ := h
  refine Or.inl ⟨data,hd,?_⟩
  rcases hstored with rfl | hs
  · exact Or.inl (List.infix_nil.mp hin)
  · exact Or.inr ⟨allData,hs,hin⟩

def AfterSound (s : State D) : AfterAck D → Prop
  | .exit => True
  | .empty pendingAck => ∀ id ∈ pendingAck, Justified s id
  | .spooledOpen seen pendingAck =>
    (∀ id ∈ seen, Justified s id) ∧ ∀ id ∈ pendingAck, Justified s id
  | .inserted seen pendingAck allData =>
    (∀ id ∈ seen, Justified s id) ∧ (∀ id ∈ pendingAck, Justified s id) ∧
      ∀ id ∈ pendingAck, Within s allData id
  | .spooledFailed seen pendingAck =>
    (∀ id ∈ seen, Justified s id) ∧ ∀ id ∈ pendingAck, Justified s id
  | .failing _ => True

def PhaseSound (s : State D) : Phase D → Prop
  | .resolving seen chunk _ pendingAck allData =>
    (∀ id ∈ seen, Justified s id) ∧ (∀ id ∈ pendingAck, Within s allData id) ∧
      ∀ id data, (id,Slot.done (some data)) ∈ chunk → (id,data) ∈ s.decoded
  | .storing _ seen pendingAck allData =>
    (∀ id ∈ seen, Justified s id) ∧ ∀ id ∈ pendingAck, Within s allData id
  | .acking ids after => (∀ id ∈ ids, Justified s id) ∧ AfterSound s after
  | _ => True

structure Sound (s : State D) : Prop where
  acked : ∀ id ∈ s.acked, Justified s id
  tracker : ∀ id ∈ s.messageTracker.queue, Justified s id
  workers : ∀ w, PhaseSound s (s.workers w)

theorem AfterSound.mono {s s' : State D} (he : Extends s s') {after : AfterAck D}
    (h : AfterSound s after) : AfterSound s' after := by
  cases after with
  | exit => trivial
  | empty pendingAck => exact fun id hid => (h id hid).mono he
  | spooledOpen seen pendingAck =>
    exact ⟨fun id hid => (h.1 id hid).mono he,fun id hid => (h.2 id hid).mono he⟩
  | inserted seen pendingAck allData =>
    exact ⟨fun id hid => (h.1 id hid).mono he,fun id hid => (h.2.1 id hid).mono he,
      fun id hid => (h.2.2 id hid).mono he⟩
  | spooledFailed seen pendingAck =>
    exact ⟨fun id hid => (h.1 id hid).mono he,fun id hid => (h.2 id hid).mono he⟩
  | failing pendingAck => trivial

theorem PhaseSound.mono {s s' : State D} (he : Extends s s') {phase : Phase D}
    (h : PhaseSound s phase) : PhaseSound s' phase := by
  cases phase with
  | resolving seen chunk rest pendingAck allData =>
    exact ⟨fun id hid => (h.1 id hid).mono he,fun id hid => (h.2.1 id hid).mono he,
      fun id data hd => he.decoded (h.2.2 id data hd)⟩
  | storing place seen pendingAck allData =>
    exact ⟨fun id hid => (h.1 id hid).mono he,fun id hid => (h.2 id hid).mono he⟩
  | acking ids after => exact ⟨fun id hid => (h.1 id hid).mono he,h.2.mono he⟩
  | idle => trivial
  | parsed parseErrors entries => trivial
  | counting entries => trivial
  | deadLettering id entries => trivial

theorem Sound.extend {s s' : State D} (h : Sound s) (he : Extends s s')
    (hworkers : s'.workers = s.workers) (htracker : s'.messageTracker = s.messageTracker)
    (hacked : ∀ id ∈ s'.acked, id ∈ s.acked ∨ Justified s' id) : Sound s' := by
  refine ⟨?_,?_,?_⟩
  · intro id hid
    rcases hacked id hid with hid | hj
    · exact (h.acked id hid).mono he
    · exact hj
  · intro id hid
    rw [htracker] at hid
    exact (h.tracker id hid).mono he
  · intro w
    rw [hworkers]
    exact (h.workers w).mono he

theorem Sound.same {s s' : State D} (h : Sound s) (hworkers : s'.workers = s.workers)
    (htracker : s'.messageTracker = s.messageTracker) (hacked : s'.acked = s.acked)
    (hdecoded : s'.decoded = s.decoded) (hstored : s'.stored = s.stored)
    (hdead : s'.deadLetters = s.deadLetters) : Sound s' := by
  apply h.extend ⟨hdecoded ▸ fun _ h => h,hstored ▸ fun _ h => h,hdead ▸ fun _ h => h⟩ hworkers
    htracker
  intro id hid
  rw [hacked] at hid
  exact Or.inl hid

theorem Sound.goto {s : State D} (h : Sound s) (w : ℕ) {phase : Phase D}
    (hphase : PhaseSound s phase) : Sound (goto s w phase) := by
  have he : Extends s (Ingestion.goto s w phase) := ⟨fun _ h => h,fun _ h => h,fun _ h => h⟩
  refine ⟨fun id hid => (h.acked id hid).mono he,fun id hid => (h.tracker id hid).mono he,?_⟩
  intro v
  show PhaseSound _ (Function.update s.workers w phase v)
  by_cases hv : v = w
  · subst hv
    rw [Function.update_self]
    exact hphase.mono he
  · rw [Function.update_of_ne hv]
    exact (h.workers v).mono he

theorem mem_mark {t : RecentMessageTracker} {id x : String} (h : x ∈ (t.mark id).queue) :
    x ∈ t.queue ∨ x = id := by
  unfold RecentMessageTracker.mark at h
  split at h
  · exact Or.inl h
  · split at h
    · have hx := List.mem_of_mem_tail h
      simpa using hx
    · simpa using h

theorem mem_markAll {ids : List String} {t : RecentMessageTracker} {x : String}
    (h : x ∈ (t.markAll ids).queue) : x ∈ t.queue ∨ x ∈ ids := by
  induction ids generalizing t with
  | nil => exact Or.inl h
  | cons id ids ih =>
    rcases ih h with hm | hm
    · rcases mem_mark hm with hm | rfl
      · exact Or.inl hm
      · exact Or.inr List.mem_cons_self
    · exact Or.inr (List.mem_cons_of_mem _ hm)

theorem Sound.markAll {s : State D} (h : Sound s) {ids : List String}
    (hids : ∀ id ∈ ids, Justified s id) : Sound (markAll s ids) := by
  refine ⟨h.acked,?_,h.workers⟩
  intro id hid
  rcases mem_markAll hid with hm | hm
  · exact h.tracker id hm
  · exact hids id hm

theorem Sound.handleBatchFailures {s : State D} (h : Sound s) (w : ℕ) (entries : List String) :
    Sound (handleBatchFailures s w entries) := by
  apply h.goto
  split <;> trivial

theorem Sound.ackReturned {s : State D} (h : Sound s) (w : ℕ) {after : AfterAck D}
    (ha : AfterSound s after) : Sound (ackReturned s w after) := by
  cases after with
  | exit => exact h.goto w trivial
  | empty pendingAck => exact (h.markAll ha).goto w trivial
  | spooledOpen seen pendingAck => exact (h.markAll ha.2).goto w trivial
  | inserted seen pendingAck allData => exact (h.markAll ha.2.1).goto w trivial
  | spooledFailed seen pendingAck => exact (h.markAll ha.2).goto w trivial
  | failing pendingAck => exact h.handleBatchFailures w pendingAck

theorem Sound.xackBatch {s : State D} (h : Sound s) (w : ℕ) {ids : List String}
    {after : AfterAck D} (hids : ∀ id ∈ ids, Justified s id) (ha : AfterSound s after) :
    Sound (xackBatch s w ids after) := by
  unfold Ingestion.xackBatch
  split
  · exact h.ackReturned w ha
  · exact h.goto w ⟨hids,ha⟩

theorem Sound.insertFailed {cfg : Config} {s : State D} (h : Sound s) (w : ℕ)
    {seen pendingAck : List String} {allData : List D} (hseen : ∀ id ∈ seen, Justified s id)
    (hpending : ∀ id ∈ pendingAck, Within s allData id) :
    Sound (insertFailed cfg s w seen pendingAck allData) := by
  have hb : Sound { s with dbCircuitBreaker := s.dbCircuitBreaker.recordFailure s.now } :=
    h.same rfl rfl rfl rfl rfl rfl
  unfold Ingestion.insertFailed
  simp only
  split
  · exact hb.goto w ⟨hseen,hpending⟩
  · exact hb.xackBatch w hseen trivial

theorem Sound.ackThrew {cfg : Config} {s : State D} (h : Sound s) (w : ℕ) {after : AfterAck D}
    (ha : AfterSound s after) : Sound (ackThrew cfg s w after) := by
  cases after with
  | exit => exact h.goto w trivial
  | empty pendingAck => exact h.goto w trivial
  | spooledOpen seen pendingAck => exact h.xackBatch w ha.1 trivial
  | inserted seen pendingAck allData => exact h.insertFailed w ha.1 ha.2.2
  | spooledFailed seen pendingAck => exact h.xackBatch w ha.1 trivial
  | failing pendingAck => exact h.goto w trivial

theorem Sound.storeReturned {s : State D} (h : Sound s) (w : ℕ) (place : Place)
    {seen pendingAck : List String} {allData : List D} (hseen : ∀ id ∈ seen, Justified s id)
    (hpending : ∀ id ∈ pendingAck, Within s allData id) :
    Sound (storeReturned s w place seen pendingAck allData) := by
  have he : Extends s { s with stored := s.stored++[allData] } :=
    ⟨fun _ h => h,List.subset_append_left _ _,fun _ h => h⟩
  have hs := h.extend he rfl rfl (fun id hid => Or.inl hid)
  have hin : allData ∈ ({ s with stored := s.stored++[allData] } : State D).stored :=
    List.mem_append_right _ List.mem_cons_self
  have hseen' := fun id hid => (hseen id hid).mono he
  have hwithin := fun id hid => (hpending id hid).mono he
  have hstored := fun id hid => (hwithin id hid).justified (Or.inr hin)
  have hall : ∀ id ∈ seen++pendingAck, Justified { s with stored := s.stored++[allData] } id := by
    intro id hid
    exact (List.mem_append.mp hid).elim (hseen' id) (hstored id)
  cases place with
  | spoolOpen => exact hs.xackBatch w hall ⟨hseen',hstored⟩
  | insert =>
    have hb : Sound { s with
        stored := s.stored++[allData]
        dbCircuitBreaker := s.dbCircuitBreaker.recordSuccess } :=
      hs.same rfl rfl rfl rfl rfl rfl
    exact hb.xackBatch w hall ⟨hseen',hstored,hwithin⟩
  | spoolFailed => exact hs.xackBatch w hall ⟨hseen',hstored⟩

theorem Sound.storeThrew {cfg : Config} {s : State D} (h : Sound s) (w : ℕ) (place : Place)
    {seen pendingAck : List String} {allData : List D} (hseen : ∀ id ∈ seen, Justified s id)
    (hpending : ∀ id ∈ pendingAck, Within s allData id) :
    Sound (storeThrew cfg s w place seen pendingAck allData) := by
  cases place with
  | spoolOpen => exact h.xackBatch w hseen trivial
  | insert => exact h.insertFailed w hseen hpending
  | spoolFailed => exact h.xackBatch w hseen trivial

theorem Sound.resolved {cfg : Config} {s : State D} (h : Sound s) (w : ℕ)
    {seen pendingAck : List String} {allData : List D} (hseen : ∀ id ∈ seen, Justified s id)
    (hpending : ∀ id ∈ pendingAck, Within s allData id) :
    Sound (resolved cfg s w seen pendingAck allData) := by
  unfold Ingestion.resolved
  split
  · rename_i hempty
    have hjust := fun id hid => (hpending id hid).justified (Or.inl (List.isEmpty_iff.mp hempty))
    apply h.xackBatch w ?_ (show AfterSound s (.empty pendingAck) from hjust)
    intro id hid
    exact (List.mem_append.mp hid).elim (hseen id) (hjust id)
  · split
    · have hb : Sound { s with
          dbCircuitBreaker := (s.dbCircuitBreaker.shouldAllowRequest s.now).2 } :=
        h.same rfl rfl rfl rfl rfl rfl
      exact hb.goto w ⟨hseen,hpending⟩
    · exact h.goto w ⟨hseen,hpending⟩

theorem Sound.resolveFreshEntries {cfg : Config} {s : State D} (h : Sound s) (w : ℕ)
    {seen pendingAck : List String} (rest : List String) {allData : List D}
    (hseen : ∀ id ∈ seen, Justified s id) (hpending : ∀ id ∈ pendingAck, Within s allData id) :
    Sound (resolveFreshEntries cfg s w seen rest pendingAck allData) := by
  unfold Ingestion.resolveFreshEntries
  split
  · exact h.resolved w hseen hpending
  · apply h.goto w
    refine ⟨hseen,hpending,?_⟩
    intro id data hmem
    obtain ⟨x,_,hx⟩ := List.mem_map.mp hmem
    cases hx

theorem Sound.processBatch {cfg : Config} {s : State D} (h : Sound s) (w : ℕ)
    (entries : List String) : Sound (processBatch cfg s w entries) := by
  have hseen : ∀ id ∈ entries.filter s.messageTracker.has, Justified s id := by
    intro id hid
    exact h.tracker id (of_decide_eq_true (List.mem_filter.mp hid).2)
  unfold Ingestion.processBatch
  simp only
  split
  · exact h.xackBatch w hseen trivial
  · exact h.resolveFreshEntries w _ hseen (fun id hid => absurd hid List.not_mem_nil)

theorem Sound.received {cfg : Config} {s : State D} (h : Sound s) (w : ℕ)
    (parseErrors entries : List String) : Sound (received cfg s w parseErrors entries) := by
  unfold Ingestion.received
  split
  · split
    · exact h.goto w trivial
    · exact h.processBatch w entries
  · exact h.goto w trivial

theorem mem_resolvedEntries {chunk : List (String × Slot D)} {id : String} {data : List D} :
    (id,data) ∈ resolvedEntries chunk ↔ (id,Slot.done (some data)) ∈ chunk := by
  rw [resolvedEntries, List.mem_filterMap]
  constructor
  · rintro ⟨⟨id',slot⟩,hmem,he⟩
    cases slot with
    | pending => cases he
    | failed => cases he
    | done d =>
      cases d with
      | none => cases he
      | some d =>
        cases he
        exact hmem
  · exact fun hmem => ⟨_,hmem,rfl⟩

theorem infix_flatten {xss : List (List D)} {xs : List D} (h : xs ∈ xss) : xs <:+: xss.flatten := by
  obtain ⟨pre,post,rfl⟩ := List.append_of_mem h
  rw [List.flatten_append, List.flatten_cons]
  exact ⟨pre.flatten,post.flatten,by rw [List.append_assoc]⟩

theorem Sound.slotDone {cfg : Config} {s : State D} (h : Sound s) (w : ℕ)
    {seen pendingAck : List String} {chunk : List (String × Slot D)} (rest : List String)
    {allData : List D} (hseen : ∀ id ∈ seen, Justified s id)
    (hpending : ∀ id ∈ pendingAck, Within s allData id)
    (hchunk : ∀ id data, (id,Slot.done (some data)) ∈ chunk → (id,data) ∈ s.decoded) :
    Sound (slotDone cfg s w seen chunk rest pendingAck allData) := by
  unfold Ingestion.slotDone
  split
  · apply h.resolveFreshEntries w rest hseen
    intro id hid
    rcases List.mem_append.mp hid with hid | hid
    · exact (hpending id hid).append _
    · obtain ⟨⟨id',data⟩,hmem,rfl⟩ := List.mem_map.mp hid
      refine ⟨data,hchunk _ _ (mem_resolvedEntries.mp hmem),?_⟩
      have hin := infix_flatten (List.mem_map_of_mem (f := Prod.snd) hmem)
      exact hin.trans (List.suffix_append _ _).isInfix
  · exact h.goto w ⟨hseen,hpending,hchunk⟩

theorem Sound.moveToDLQ {s : State D} (h : Sound s) (id : String) (stored : Bool) :
    Sound (moveToDLQ s id stored) := by
  unfold Ingestion.moveToDLQ
  split
  · have he : Extends s { s with deadLetters := s.deadLetters++[id], acked := s.acked++[id] } :=
      ⟨fun _ h => h,fun _ h => h,List.subset_append_left _ _⟩
    apply h.extend he rfl rfl
    intro x hx
    rcases List.mem_append.mp hx with hx | hx
    · exact Or.inl hx
    · exact Or.inr (Or.inr (List.mem_append_right _ hx))
  · exact h

theorem moveToDLQ_extends (s : State D) (id : String) (stored : Bool) :
    Extends s (moveToDLQ s id stored) := by
  unfold moveToDLQ
  split
  · exact ⟨fun _ h => h,fun _ h => h,List.subset_append_left _ _⟩
  · exact .refl s

theorem done_of_mem_set {chunk : List (String × Slot D)} {i : ℕ} {e : String × Slot D}
    {id : String} {data : List D} (h : (id,Slot.done (some data)) ∈ chunk.set i e) :
    (id,Slot.done (some data)) ∈ chunk ∨ e = (id,.done (some data)) :=
  (List.mem_or_eq_of_mem_set h).imp_right Eq.symm

theorem Sound.decodeDone {cfg : Config} {s : State D} (h : Sound s) (w i : ℕ)
    (data : Option (List D)) : Sound (decodeDone cfg s w i data) := by
  unfold Ingestion.decodeDone
  split
  · rename_i seen chunk rest pendingAck allData hphase
    have hw := h.workers w
    rw [hphase] at hw
    split
    · rename_i id data hslot
      have he : Extends s { s with decoded := s.decoded++[(id,data)] } :=
        ⟨List.subset_append_left _ _,fun _ h => h,fun _ h => h⟩
      apply (h.extend he rfl rfl (fun id hid => Or.inl hid)).slotDone w rest
      · exact fun id hid => (hw.1 id hid).mono he
      · exact fun id hid => (hw.2.1 id hid).mono he
      · intro id' data' hmem
        rcases done_of_mem_set hmem with hmem | he'
        · exact he.decoded (hw.2.2 id' data' hmem)
        · cases he'
          exact List.mem_append_right _ List.mem_cons_self
    · apply h.goto w
      refine ⟨hw.1,hw.2.1,?_⟩
      intro id' data' hmem
      rcases done_of_mem_set hmem with hmem | he'
      · exact hw.2.2 id' data' hmem
      · cases he'
    · exact h
  · exact h

theorem Sound.deadLetterDone {cfg : Config} {s : State D} (h : Sound s) (w i : ℕ) (stored : Bool) :
    Sound (deadLetterDone cfg s w i stored) := by
  unfold Ingestion.deadLetterDone
  split
  · exact (h.moveToDLQ _ stored).received w _ _
  · rename_i seen chunk rest pendingAck allData hphase
    have hw := h.workers w
    rw [hphase] at hw
    split
    · rename_i id hslot
      have he := moveToDLQ_extends s id stored
      apply (h.moveToDLQ id stored).slotDone w rest
      · exact fun id hid => (hw.1 id hid).mono he
      · exact fun id hid => (hw.2.1 id hid).mono he
      · intro id' data' hmem
        rcases done_of_mem_set hmem with hmem | he'
        · exact he.decoded (hw.2.2 id' data' hmem)
        · cases he'
    · exact h
  · exact (h.moveToDLQ _ stored).handleBatchFailures w _
  · exact h

theorem step_sound (cfg : Config) (s : State D) (e : Event D) (h : Sound s) :
    Sound (step cfg s e) := by
  cases e with
  | delivered w parseErrors entries =>
    simp only [step]
    split
    · exact h.received w parseErrors entries
    · exact h
  | claimAborted w =>
    simp only [step]
    split
    · exact h.goto w trivial
    · exact h
  | decoded w i data => exact h.decodeDone w i data
  | deadLettered w i stored => exact h.deadLetterDone w i stored
  | storeDone w ok =>
    simp only [step]
    split
    · rename_i place seen pendingAck allData hphase
      have hw := h.workers w
      rw [hphase] at hw
      split
      · exact h.storeReturned w place hw.1 hw.2
      · exact h.storeThrew w place hw.1 hw.2
    · exact h
  | ackDone w applied thrown =>
    simp only [step]
    split
    · rename_i ids after hphase
      have hw := h.workers w
      rw [hphase] at hw
      have he : Extends s (if applied then { s with acked := s.acked++ids } else s) := by
        split <;> exact ⟨fun _ h => h,fun _ h => h,fun _ h => h⟩
      have hs : Sound (if applied then { s with acked := s.acked++ids } else s) := by
        apply h.extend he
        · split <;> rfl
        · split <;> rfl
        · intro id hid
          split at hid
          · exact (List.mem_append.mp hid).imp_right (fun hin => (hw.1 id hin).mono he)
          · exact Or.inl hid
      have ha := hw.2.mono he
      split
      · exact hs.ackThrew w ha
      · exact hs.ackReturned w ha
    · exact h
  | counted w attempts =>
    simp only [step]
    split
    · split
      · exact h.goto w trivial
      · exact h.handleBatchFailures w _
    · exact h
  | spoolInitialized => exact h.same rfl rfl rfl rfl rfl rfl
  | replayed ok => exact h.same rfl rfl rfl rfl rfl rfl
  | tick ms => exact h.same rfl rfl rfl rfl rfl rfl
  | restart => exact ⟨h.acked,fun _ hid => absurd hid List.not_mem_nil,fun _ => trivial⟩

theorem initial_sound (now : ℤ) : Sound (initial now : State D) :=
  ⟨fun _ hid => absurd hid List.not_mem_nil,fun _ hid => absurd hid List.not_mem_nil,
    fun _ => trivial⟩

/-- In every run an entry that is acknowledged, or would be as one seen before,
was stored whole, had nothing to store, or is a dead letter. -/
theorem acked_only_stored (cfg : Config) (now : ℤ) (es : List (Event D)) :
    (∀ id ∈ (run (step cfg) es (initial now)).acked,
      Justified (run (step cfg) es (initial now)) id) ∧
    ∀ id, (run (step cfg) es (initial now)).messageTracker.has id = true →
      Justified (run (step cfg) es (initial now)) id := by
  have h : Sound (run (step cfg) es (initial now)) :=
    run_invariant (fun s e _ => step_sound cfg s e) es _ (meets_any _ es _) (initial_sound now)
  exact ⟨h.acked,fun id hid => h.tracker id (of_decide_eq_true hid)⟩

end Iotistica.Ingestion
