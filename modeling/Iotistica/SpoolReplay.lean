import Iotistica.DiskSpool
import Iotistica.GuardedRun

/-!
# What a replay can lose

A batch lies in one file at most, so the removal of a file by a tick takes
away just its batches, and until the consumer has accepted them they are
nowhere but in the hands of that tick. Removals are therefore the steps at
which a spooled batch stops being kept.
-/

set_option autoImplicit false

namespace Iotistica.DiskSpool
open Iotistica Iotistica.Ingestion Iotistica.GuardedRun

def InFiles (s : State) (b : Batch) : Prop := ∃ file, b ∈ content s.files file

/-- Every spooled batch is in a file, was accepted or was evicted. -/
def Kept (s : State) : Prop :=
  ∀ b ∈ s.resolved, InFiles s b ∨ b ∈ s.accepted ∨ b ∈ s.evicted

/-- No replay was attempted while the consumer's breaker was open. -/
def Respectful (s : State) : Prop := ∀ state ∈ s.replays, state ≠ .opened

/-- The file that the tick removes holds no spooled batch but such as were
accepted or evicted. -/
def Outlived (s : State) (t : ℕ) : Prop :=
  match s.ticks t with
  | .removing file _ => ∀ b ∈ content s.files file, b ∈ s.resolved → b ∈ s.accepted ∨ b ∈ s.evicted
  | _ => True

/-- The batch of the call that resolves is still there, or accepted or evicted
by now. -/
def Present (s : State) (c : ℕ) : Prop :=
  match s.calls c with
  | .appending size _ true => InFiles s ⟨c,size⟩ ∨ ⟨c,size⟩ ∈ s.accepted ∨ ⟨c,size⟩ ∈ s.evicted
  | _ => True

/-- No tick fires while the consumer's breaker is open. -/
def Careful (s : State) : Event → Prop
  | .tick => s.dbCircuitBreaker.state ≠ .opened
  | .tickRemoved t => Outlived s t
  | .spoolResolved c => Present s c
  | _ => True

theorem content_set (files : OrderedMap ℕ (List Batch)) (file : ℕ) (lines : List Batch) (j : ℕ) :
    content (files.set file lines) j = if j = file then lines else content files j := by
  unfold content
  rw [OrderedMap.get?_set]
  split <;> rfl

theorem content_delete (files : OrderedMap ℕ (List Batch)) (file j : ℕ) :
    content (files.delete file) j = if j = file then [] else content files j := by
  unfold content
  rw [OrderedMap.get?_delete]
  split <;> rfl

theorem content_absent {files : OrderedMap ℕ (List Batch)} {file : ℕ} (h : file ∉ files.keys) :
    content files file = [] := by
  unfold content
  cases hg : files.get? file with
  | none => rfl
  | some lines =>
    have hm := (OrderedMap.get?_eq_some_iff files file lines).mp hg
    exact absurd (List.mem_map_of_mem hm) h

def Call.waiting : Call → Bool
  | .none => false
  | .appending _ _ true => false
  | _ => true

/-- Each batch lies in one file at most, and a call that still waits has no
batch in a file. -/
structure Placed (s : State) : Prop where
  breaker : s.spoolBreaker.state = .closed
  unique : ∀ i j b, b ∈ content s.files i → b ∈ content s.files j → i = j
  known : ∀ i b, b ∈ content s.files i → b.serial < s.issued
  called : ∀ c, (s.calls c).waiting = true → c < s.issued
  ahead : ∀ c, (s.calls c).waiting = true → ∀ i b, b ∈ content s.files i → b.serial ≠ c

theorem Placed.less {s s' : State} (h : Placed s) (hbreaker : s'.spoolBreaker.state = .closed)
    (hfiles : ∀ i b, b ∈ content s'.files i → b ∈ content s.files i) (hissued : s'.issued = s.issued)
    (hcalls : ∀ c, (s'.calls c).waiting = true → (s.calls c).waiting = true) : Placed s' where
  breaker := hbreaker
  unique i j b hi hj := h.unique i j b (hfiles i b hi) (hfiles j b hj)
  known i b hb := hissued ▸ h.known i b (hfiles i b hb)
  called c hc := hissued ▸ h.called c (hcalls c hc)
  ahead c hc i b hb := h.ahead c (hcalls c hc) i b (hfiles i b hb)

theorem waiting_update {calls : ℕ → Call} {c : ℕ} {call : Call} {c' : ℕ}
    (hw : call.waiting = true → (calls c).waiting = true)
    (h : (Function.update calls c call c').waiting = true) : (calls c').waiting = true := by
  by_cases hc : c' = c
  · subst hc
    rw [Function.update_self] at h
    exact hw h
  · rwa [Function.update_of_ne hc] at h

theorem Placed.setCall {s : State} (h : Placed s) {c : ℕ} {call : Call}
    (hw : call.waiting = true → (s.calls c).waiting = true) : Placed (setCall s c call) :=
  h.less h.breaker (fun _ _ hb => hb) rfl (fun _ hc => waiting_update hw hc)

theorem Placed.setTick {s : State} (h : Placed s) (t : ℕ) (tick : Tick) :
    Placed (setTick s t tick) :=
  h.less h.breaker (fun _ _ hb => hb) rfl (fun _ hc => hc)

theorem Placed.startAppend {s : State} (h : Placed s) {c : ℕ} (size : ℕ)
    (hw : (s.calls c).waiting = true) : Placed (startAppend s c size) := by
  have hnew : Placed { s with
      fileIndex := s.fileIndex+1
      currentFile := some (s.fileIndex+1)
      currentSize := 0 } := h.less h.breaker (fun _ _ hb => hb) rfl (fun _ hc => hc)
  unfold DiskSpool.startAppend
  split
  · split
    · exact hnew.setCall (fun _ => hw)
    · exact h.setCall (fun _ => hw)
  · exact hnew.setCall (fun _ => hw)

theorem mem_content_delete {files : OrderedMap ℕ (List Batch)} {file j : ℕ} {b : Batch}
    (h : b ∈ content (files.delete file) j) : j ≠ file ∧ b ∈ content files j := by
  rw [content_delete] at h
  split at h
  · cases h
  · exact ⟨‹_›,h⟩

theorem mem_content_landed {files : OrderedMap ℕ (List Batch)} {file j : ℕ} {b x : Batch}
    (h : x ∈ content (files.set file (content files file++[b])) j) :
    x ∈ content files j ∨ j = file ∧ x = b := by
  rw [content_set] at h
  split at h
  · rename_i hj
    rcases List.mem_append.mp h with h | h
    · exact Or.inl (hj ▸ h)
    · exact Or.inr ⟨hj,List.mem_singleton.mp h⟩
  · exact Or.inl h

theorem Placed.landed {s : State} (h : Placed s) (c : ℕ) : Placed (landed s c) := by
  unfold DiskSpool.landed
  split
  · rename_i size file hcall
    have hwait : (s.calls c).waiting = true := by
      rw [hcall]
      rfl
    have hnot := h.ahead c hwait
    refine ⟨h.breaker,?_,?_,?_,?_⟩
    · intro i j b hi hj
      rcases mem_content_landed hi with hi' | ⟨hif,hib⟩
      · rcases mem_content_landed hj with hj' | ⟨_,hjb⟩
        · exact h.unique i j b hi' hj'
        · exact absurd (by rw [hjb]) (hnot i b hi')
      · rcases mem_content_landed hj with hj' | ⟨hjf,_⟩
        · exact absurd (by rw [hib]) (hnot j b hj')
        · exact hif.trans hjf.symm
    · intro i b hb
      rcases mem_content_landed hb with hb | ⟨_,rfl⟩
      · exact h.known i b hb
      · exact h.called c hwait
    · exact fun c' hc' => h.called c' (waiting_update (fun hw => absurd hw (by simp [Call.waiting])) hc')
    · intro c' hc' i b hb
      have hne : c' ≠ c := by
        rintro rfl
        change (Function.update s.calls c' _ c').waiting = true at hc'
        rw [Function.update_self] at hc'
        cases hc'
      rcases mem_content_landed hb with hb | ⟨_,rfl⟩
      · exact h.ahead c' (waiting_update (fun hw => absurd hw (by simp [Call.waiting])) hc') i b hb
      · exact Ne.symm hne
  · exact h

theorem Placed.issue {s : State} (h : Placed s) (call : Call) :
    Placed (DiskSpool.setCall { s with issued := s.issued+1 } s.issued call) := by
  refine ⟨h.breaker,h.unique,fun i b hb => Nat.lt_succ_of_lt (h.known i b hb),?_,?_⟩
  · intro c hc
    by_cases hcs : c = s.issued
    · subst hcs
      exact Nat.lt_succ_self _
    · change (Function.update s.calls s.issued _ c).waiting = true at hc
      rw [Function.update_of_ne hcs] at hc
      exact Nat.lt_succ_of_lt (h.called c hc)
  · intro c hc i b hb
    by_cases hcs : c = s.issued
    · subst hcs
      exact (h.known i b hb).ne
    · change (Function.update s.calls s.issued _ c).waiting = true at hc
      rw [Function.update_of_ne hcs] at hc
      exact h.ahead c hc i b hb

theorem step_placed (maxSizeMb : ℕ) (s : State) (e : Event) (h : Placed s) :
    Placed (step maxSizeMb s e) := by
  cases e with
  | spoolToDisk size => exact h.issue (.measuring size)
  | measured c total =>
    simp only [step, measured]
    split
    · rename_i size hcall
      have hw : (s.calls c).waiting = true := by rw [hcall]; rfl
      split
      · exact h.setCall (fun _ => hw)
      · exact h.startAppend size hw
    · exact h
  | listedOldest c =>
    simp only [step, listedOldest]
    split
    · rename_i size hcall
      have hw : (s.calls c).waiting = true := by rw [hcall]; rfl
      split
      · exact h.setCall (fun _ => hw)
      · exact h.startAppend size hw
    · exact h
  | removedOldest c =>
    simp only [step, removedOldest]
    split
    · rename_i size file hcall
      have hless : Placed { s with
          files := s.files.delete file
          evicted := s.evicted++content s.files file } :=
        h.less h.breaker (fun _ _ hb => (mem_content_delete hb).2) rfl (fun _ hc => hc)
      exact hless.startAppend size (show (s.calls c).waiting = true by rw [hcall]; rfl)
    · exact h
  | landed c => exact h.landed c
  | spoolResolved c =>
    simp only [step, spoolResolved]
    split
    · have hsame : ∀ (currentSize : ℕ) (resolved : List Batch),
          Placed { s with currentSize := currentSize, resolved := resolved } :=
        fun _ _ => h.less h.breaker (fun _ _ hb => hb) rfl (fun _ hc => hc)
      exact (hsame _ _).setCall (fun hw => absurd hw (by simp [Call.waiting]))
    · exact h
  | spoolFailed c => exact h.setCall (fun hw => absurd hw (by simp [Call.waiting]))
  | tick =>
    simp only [step, tick]
    split <;> exact h.less h.breaker (fun _ _ hb => hb) rfl (fun _ hc => hc)
  | tickListed t =>
    simp only [step, tickListed]
    split
    · split <;> exact h.setTick t _
    · exact h
  | tickRead t =>
    simp only [step, tickRead]
    split
    · split <;> exact h.setTick t _
    · exact h
  | tickRemoved t =>
    simp only [step, tickRemoved]
    split
    · split
      · exact h.less h.breaker (fun _ _ hb => (mem_content_delete hb).2) rfl (fun _ hc => hc)
      · exact h.setTick t _
    · exact h
  | handed t ok =>
    simp only [step, handed]
    split
    · split <;> exact h.less h.breaker (fun _ _ hb => hb) rfl (fun _ hc => hc)
    · exact h
  | recorded ok => exact h.less h.breaker (fun _ _ hb => hb) rfl (fun _ hc => hc)
  | asked => exact h.less h.breaker (fun _ _ hb => hb) rfl (fun _ hc => hc)
  | time ms => exact h.less h.breaker (fun _ _ hb => hb) rfl (fun _ hc => hc)
  | crash => exact h.less rfl (fun _ _ hb => hb) rfl (fun _ hc => absurd hc Bool.false_ne_true)

theorem initial_placed (now : ℤ) : Placed (initial now) :=
  ⟨rfl,fun _ _ _ hb => absurd hb List.not_mem_nil,fun _ _ hb => absurd hb List.not_mem_nil,
    fun _ hc => absurd hc (by simp [initial, Call.waiting]),
    fun _ _ _ _ hb => absurd hb List.not_mem_nil⟩

structure SameRecord (s s' : State) : Prop where
  files : s'.files = s.files
  resolved : s'.resolved = s.resolved
  accepted : s'.accepted = s.accepted
  evicted : s'.evicted = s.evicted
  replays : s'.replays = s.replays

theorem startAppend_same (s : State) (c size : ℕ) : SameRecord s (startAppend s c size) := by
  unfold startAppend
  split
  · split <;> exact ⟨rfl,rfl,rfl,rfl,rfl⟩
  · exact ⟨rfl,rfl,rfl,rfl,rfl⟩

/-- A removal by the size limit, an append, a call that resolves, a tick, a
removal by a tick and a hand-over. -/
def Event.touchesRecord : Event → Bool
  | .removedOldest _ => true
  | .landed _ => true
  | .spoolResolved _ => true
  | .tick => true
  | .tickRemoved _ => true
  | .handed _ _ => true
  | _ => false

theorem step_same (maxSizeMb : ℕ) (s : State) (e : Event) (he : e.touchesRecord = false) :
    SameRecord s (step maxSizeMb s e) := by
  have hrefl : SameRecord s s := ⟨rfl,rfl,rfl,rfl,rfl⟩
  cases e with
  | measured c total =>
    simp only [step, measured]
    split
    · split
      · exact ⟨rfl,rfl,rfl,rfl,rfl⟩
      · exact startAppend_same s c _
    · exact hrefl
  | listedOldest c =>
    simp only [step, listedOldest]
    split
    · split
      · exact ⟨rfl,rfl,rfl,rfl,rfl⟩
      · exact startAppend_same s c _
    · exact hrefl
  | tickListed t =>
    simp only [step, tickListed]
    split
    · split <;> exact ⟨rfl,rfl,rfl,rfl,rfl⟩
    · exact hrefl
  | tickRead t =>
    simp only [step, tickRead]
    split
    · split <;> exact ⟨rfl,rfl,rfl,rfl,rfl⟩
    · exact hrefl
  | spoolToDisk size => exact ⟨rfl,rfl,rfl,rfl,rfl⟩
  | spoolFailed c => exact ⟨rfl,rfl,rfl,rfl,rfl⟩
  | recorded ok => exact ⟨rfl,rfl,rfl,rfl,rfl⟩
  | asked => exact ⟨rfl,rfl,rfl,rfl,rfl⟩
  | time ms => exact ⟨rfl,rfl,rfl,rfl,rfl⟩
  | crash => exact ⟨rfl,rfl,rfl,rfl,rfl⟩
  | removedOldest c => cases he
  | landed c => cases he
  | spoolResolved c => cases he
  | tick => cases he
  | tickRemoved t => cases he
  | handed t ok => cases he

theorem Kept.mono {s s' : State} (h : Kept s) (hresolved : s'.resolved = s.resolved)
    (hfiles : ∀ b ∈ s.resolved, InFiles s b → InFiles s' b ∨ b ∈ s'.accepted ∨ b ∈ s'.evicted)
    (haccepted : s.accepted ⊆ s'.accepted) (hevicted : s.evicted ⊆ s'.evicted) : Kept s' := by
  intro b hb
  rw [hresolved] at hb
  rcases h b hb with hf | ha | he
  · exact hfiles b hb hf
  · exact Or.inr (Or.inl (haccepted ha))
  · exact Or.inr (Or.inr (hevicted he))

theorem SameRecord.kept {s s' : State} (h : SameRecord s s') (hk : Kept s) : Kept s' := by
  refine hk.mono h.resolved ?_ ?_ ?_
  · rintro b _ ⟨file,hf⟩
    exact Or.inl ⟨file,h.files ▸ hf⟩
  · rw [h.accepted]
    exact fun _ hb => hb
  · rw [h.evicted]
    exact fun _ hb => hb

theorem kept_removedOldest {s : State} (h : Kept s) (c : ℕ) : Kept (removedOldest s c) := by
  unfold removedOldest
  split
  · rename_i size file hcall
    apply (startAppend_same _ c size).kept
    refine Kept.mono h rfl ?_ (fun _ hb => hb) (List.subset_append_left _ _)
    rintro b _ ⟨j,hj⟩
    by_cases hjf : j = file
    · exact Or.inr (Or.inr (List.mem_append_right _ (hjf ▸ hj)))
    · refine Or.inl ⟨j,?_⟩
      rwa [content_delete, if_neg hjf]
  · exact h

theorem kept_landed {s : State} (h : Kept s) (c : ℕ) : Kept (landed s c) := by
  unfold landed
  split
  · rename_i size file hcall
    refine Kept.mono h rfl ?_ (fun _ hb => hb) (fun _ hb => hb)
    rintro b _ ⟨j,hj⟩
    refine Or.inl ⟨j,?_⟩
    show b ∈ content (s.files.set file _) j
    rw [content_set]
    split
    · rename_i hjf
      exact List.mem_append_left _ (hjf ▸ hj)
    · exact hj
  · exact h

theorem kept_handed {s : State} (h : Kept s) (t : ℕ) (ok : Bool) : Kept (handed s t ok) := by
  unfold handed
  split
  · split
    · exact h.mono rfl (fun _ _ hf => Or.inl hf) (List.subset_append_left _ _) (fun _ hb => hb)
    · exact h.mono rfl (fun _ _ hf => Or.inl hf) (fun _ hb => hb) (fun _ hb => hb)
  · exact h

theorem kept_spoolResolved_iff {s : State} (h : Kept s) (c : ℕ) :
    Kept (spoolResolved s c) ↔ Present s c := by
  unfold spoolResolved
  split
  · rename_i size file hcall
    rw [Present, hcall]
    constructor
    · intro hk
      exact hk ⟨c,size⟩ (List.mem_append_right _ List.mem_cons_self)
    · intro hc b hb
      rcases List.mem_append.mp hb with hb | hb
      · exact h b hb
      · rw [List.mem_singleton.mp hb]
        exact hc
  · rename_i hother
    unfold Present
    split
    · rename_i hcall
      exact absurd hcall (hother _ _)
    · exact iff_of_true h trivial

theorem kept_tickRemoved_iff {s : State} (hp : Placed s) (h : Kept s) (t : ℕ) :
    Kept (tickRemoved s t) ↔ Outlived s t := by
  unfold tickRemoved
  split
  · rename_i file lines htick
    rw [Outlived, htick]
    split
    · constructor
      · intro hk b hb hr
        rcases hk b hr with ⟨j,hj⟩ | ha | he
        · obtain ⟨hne,hj⟩ := mem_content_delete hj
          exact absurd (hp.unique j file b hj hb) hne
        · exact Or.inl ha
        · exact Or.inr he
      · intro hc
        refine Kept.mono h rfl ?_ (fun _ hb => hb) (fun _ hb => hb)
        rintro b hr ⟨j,hj⟩
        by_cases hjf : j = file
        · exact Or.inr (hc b (hjf ▸ hj) hr)
        · refine Or.inl ⟨j,?_⟩
          show b ∈ content (s.files.delete file) j
          rwa [content_delete, if_neg hjf]
    · rename_i hout
      refine iff_of_true h (fun b hb => ?_)
      rw [content_absent hout] at hb
      cases hb
  · rename_i hother
    unfold Outlived
    split
    · rename_i htick
      exact absurd htick (hother _ _)
    · exact iff_of_true h trivial

theorem respectful_tick_iff {s : State} (hp : Placed s) (h : Respectful s) :
    Respectful (tick s) ↔ s.dbCircuitBreaker.state ≠ .opened := by
  unfold tick
  rw [if_pos hp.breaker]
  constructor
  · intro hr
    exact hr _ (List.mem_append_right _ List.mem_cons_self)
  · intro hc state hm
    rcases List.mem_append.mp hm with hm | hm
    · exact h state hm
    · rw [List.mem_singleton.mp hm]
      exact hc

/-- Of the steps, a tick, a removal by a tick and a call that resolves can
break what is asked, and they do exactly when they are not careful. -/
theorem step_keeps_iff (maxSizeMb : ℕ) (s : State) (e : Event) (hp : Placed s)
    (h : Kept s ∧ Respectful s) :
    Kept (step maxSizeMb s e) ∧ Respectful (step maxSizeMb s e) ↔ Careful s e := by
  obtain ⟨hk,hr⟩ := h
  by_cases he : e.touchesRecord = false
  · have hsame := step_same maxSizeMb s e he
    refine iff_of_true ⟨hsame.kept hk,?_⟩ ?_
    · rw [Respectful, hsame.replays]
      exact hr
    · cases e <;> trivial
  · cases e with
    | removedOldest c =>
      refine iff_of_true ⟨kept_removedOldest hk c,?_⟩ trivial
      simp only [step, removedOldest]
      split
      · rw [Respectful, (startAppend_same _ c _).replays]
        exact hr
      · exact hr
    | landed c =>
      refine iff_of_true ⟨kept_landed hk c,?_⟩ trivial
      simp only [step, landed]
      split <;> exact hr
    | spoolResolved c =>
      have hr' : Respectful (spoolResolved s c) := by
        unfold spoolResolved
        split <;> exact hr
      exact (and_iff_left hr').trans (kept_spoolResolved_iff hk c)
    | tick =>
      have hk' : Kept (tick s) := by
        unfold tick
        split <;> exact Kept.mono hk rfl (fun _ _ hf => Or.inl hf) (fun _ hb => hb) (fun _ hb => hb)
      exact (and_iff_right hk').trans (respectful_tick_iff hp hr)
    | tickRemoved t =>
      have hr' : Respectful (tickRemoved s t) := by
        unfold tickRemoved
        split
        · split <;> exact hr
        · exact hr
      exact (and_iff_left hr').trans (kept_tickRemoved_iff hp hk t)
    | handed t ok =>
      refine iff_of_true ⟨kept_handed hk t ok,?_⟩ trivial
      simp only [step, handed]
      split
      · split <;> exact hr
      · exact hr
    | _ => exact absurd rfl he

/-- In all states of a run every spooled batch is in a file, accepted or
evicted, and no replay was attempted at an open breaker, exactly when each
step is careful. -/
theorem spooled_kept_iff (maxSizeMb : ℕ) (now : ℤ) (es : List Event) :
    (∀ pre, pre <+: es → Kept (run (step maxSizeMb) pre (initial now)) ∧
      Respectful (run (step maxSizeMb) pre (initial now))) ↔
    Meets (step maxSizeMb) Careful es (initial now) :=
  always_iff_meets (P := fun s => Kept s ∧ Respectful s) (step_placed maxSizeMb)
    (step_keeps_iff maxSizeMb) es (initial now) (initial_placed now)
    ⟨fun _ hb => absurd hb List.not_mem_nil,fun _ hb => absurd hb List.not_mem_nil⟩

def failingReplay : List Event :=
  [.spoolToDisk 10,.measured 0 0,.landed 0,.spoolResolved 0,.tick,.tickListed 0,.tickRead 0,
    .tickRemoved 0,.handed 0 false]

def openBreaker : List Event := List.replicate 5 (.recorded false)++[.tick]

theorem spooled_batch_lost :
    (¬∀ (maxSizeMb : ℕ) (now : ℤ) (es : List Event),
      Kept (run (step maxSizeMb) es (initial now))) ∧
    ¬∀ (maxSizeMb : ℕ) (now : ℤ) (es : List Event),
      Respectful (run (step maxSizeMb) es (initial now)) := by
  constructor
  · intro h
    rcases h 1000 0 failingReplay ⟨0,10⟩ (by decide) with ⟨file,hf⟩ | ha | he
    · have hempty : (run (step 1000) failingReplay (initial 0)).files = .empty := by decide
      rw [hempty] at hf
      cases hf
    · exact absurd ha (by decide)
    · exact absurd he (by decide)
  · intro h
    exact h 1000 0 openBreaker .opened (by decide) rfl

end Iotistica.DiskSpool
