import Iotistica.SpoolReplay

/-!
# Batches in the hands of a replay

Between the removal of its file and its acceptance a batch is in the hands of
a tick. What is in hand arrives when the consumer accepts all it is handed,
no batch slips into a file between its reading and its removal, and the
process does not crash with a batch in hand.
-/

set_option autoImplicit false

namespace Iotistica.DiskSpool
open Iotistica Iotistica.Ingestion Iotistica.GuardedRun

def Held (s : State) (b : Batch) : Prop := ∃ t lines, s.ticks t = .handing lines ∧ b ∈ lines

def Safe (s : State) (b : Batch) : Prop :=
  InFiles s b ∨ b ∈ s.accepted ∨ b ∈ s.evicted ∨ Held s b

/-- Batches that are spooled, or in a file while their call has yet to resolve,
are safe. -/
structure Custody (s : State) : Prop where
  resolved : ∀ b ∈ s.resolved, Safe s b
  landed : ∀ c size file, s.calls c = .appending size file true → Safe s ⟨c,size⟩

/-- The consumer accepts what it is handed, nothing was appended to a file
between its reading and its removal, and the process does not crash with a
batch in hand. -/
def Gentle (s : State) : Event → Prop
  | .handed t false => ∀ b lines, s.ticks t ≠ .handing (b::lines)
  | .tickRemoved t => ∀ file lines, s.ticks t = .removing file lines → content s.files file ⊆ lines
  | .crash => ∀ b, ¬Held s b
  | _ => True

def Event.touchesTicks : Event → Bool
  | .tick => true
  | .tickListed _ => true
  | .tickRead _ => true
  | .tickRemoved _ => true
  | .handed _ _ => true
  | .crash => true
  | _ => false

structure SameTicks (s s' : State) : Prop where
  ticks : s'.ticks = s.ticks
  fired : s'.fired = s.fired

theorem startAppend_sameTicks (s : State) (c size : ℕ) : SameTicks s (startAppend s c size) := by
  unfold startAppend
  split
  · split <;> exact ⟨rfl,rfl⟩
  · exact ⟨rfl,rfl⟩

theorem step_sameTicks (maxSizeMb : ℕ) (s : State) (e : Event) (he : e.touchesTicks = false) :
    SameTicks s (step maxSizeMb s e) := by
  cases e with
  | measured c total =>
    simp only [step, measured]
    split
    · split
      · exact ⟨rfl,rfl⟩
      · exact startAppend_sameTicks s c _
    · exact ⟨rfl,rfl⟩
  | listedOldest c =>
    simp only [step, listedOldest]
    split
    · split
      · exact ⟨rfl,rfl⟩
      · exact startAppend_sameTicks s c _
    · exact ⟨rfl,rfl⟩
  | removedOldest c =>
    simp only [step, removedOldest]
    split
    · rename_i size file hcall
      have h := startAppend_sameTicks { s with
        files := s.files.delete file
        evicted := s.evicted++content s.files file } c size
      exact ⟨h.ticks,h.fired⟩
    · exact ⟨rfl,rfl⟩
  | landed c => simp only [step, landed]; split <;> exact ⟨rfl,rfl⟩
  | spoolResolved c => simp only [step, spoolResolved]; split <;> exact ⟨rfl,rfl⟩
  | spoolToDisk size => exact ⟨rfl,rfl⟩
  | spoolFailed c => exact ⟨rfl,rfl⟩
  | recorded ok => exact ⟨rfl,rfl⟩
  | asked => exact ⟨rfl,rfl⟩
  | time ms => exact ⟨rfl,rfl⟩
  | tick => cases he
  | tickListed t => cases he
  | tickRead t => cases he
  | tickRemoved t => cases he
  | handed t ok => cases he
  | crash => cases he

theorem appending_of_update {calls : ℕ → Call} {c c' size file : ℕ} {call : Call}
    (hcall : call ≠ .appending size file true)
    (h : Function.update calls c' call c = .appending size file true) :
    calls c = .appending size file true := by
  by_cases hc : c = c'
  · subst hc
    rw [Function.update_self] at h
    exact absurd h hcall
  · rwa [Function.update_of_ne hc] at h

theorem appending_of_startAppend {s : State} {c c' size size' file : ℕ}
    (h : (startAppend s c' size').calls c = .appending size file true) :
    s.calls c = .appending size file true := by
  unfold startAppend at h
  split at h
  · split at h <;> exact appending_of_update (by simp) h
  · exact appending_of_update (by simp) h

theorem step_calls_of_replay (maxSizeMb : ℕ) (s : State) {e : Event} (he : e.touchesTicks = true)
    (hcrash : e ≠ .crash) : (step maxSizeMb s e).calls = s.calls := by
  cases e with
  | tick => simp only [step, tick]; split <;> rfl
  | tickListed t =>
    simp only [step, tickListed]
    split
    · split <;> rfl
    · rfl
  | tickRead t =>
    simp only [step, tickRead]
    split
    · split <;> rfl
    · rfl
  | tickRemoved t =>
    simp only [step, tickRemoved]
    split
    · split <;> rfl
    · rfl
  | handed t ok =>
    simp only [step, handed]
    split
    · split <;> rfl
    · rfl
  | crash => exact absurd rfl hcrash
  | _ => cases he

theorem landed_step {maxSizeMb : ℕ} {s : State} {e : Event} {c size file : ℕ}
    (h : (step maxSizeMb s e).calls c = .appending size file true) :
    s.calls c = .appending size file true ∨
      e = .landed c ∧ s.calls c = .appending size file false := by
  by_cases he : e.touchesTicks = true
  · by_cases hcrash : e = .crash
    · subst hcrash
      cases h
    · rw [step_calls_of_replay maxSizeMb s he hcrash] at h
      exact Or.inl h
  · cases e with
    | spoolToDisk size' => exact Or.inl (appending_of_update (by simp) h)
    | measured c' total =>
      simp only [step, measured] at h
      split at h
      · split at h
        · exact Or.inl (appending_of_update (by simp) h)
        · exact Or.inl (appending_of_startAppend h)
      · exact Or.inl h
    | listedOldest c' =>
      simp only [step, listedOldest] at h
      split at h
      · split at h
        · exact Or.inl (appending_of_update (by simp) h)
        · exact Or.inl (appending_of_startAppend h)
      · exact Or.inl h
    | removedOldest c' =>
      simp only [step, removedOldest] at h
      split at h
      · have hc := appending_of_startAppend h
        exact Or.inl hc
      · exact Or.inl h
    | landed c' =>
      simp only [step, landed] at h
      split at h
      · rename_i size' file' hcall
        by_cases hc : c = c'
        · subst hc
          change Function.update s.calls c _ c = _ at h
          rw [Function.update_self] at h
          cases h
          exact Or.inr ⟨rfl,hcall⟩
        · change Function.update s.calls c' _ c = _ at h
          rw [Function.update_of_ne hc] at h
          exact Or.inl h
      · exact Or.inl h
    | spoolResolved c' =>
      simp only [step, spoolResolved] at h
      split at h
      · exact Or.inl (appending_of_update (by simp) h)
      · exact Or.inl h
    | spoolFailed c' => exact Or.inl (appending_of_update (by simp) h)
    | recorded ok => exact Or.inl h
    | asked => exact Or.inl h
    | time ms => exact Or.inl h
    | _ => exact absurd rfl he

theorem Held.setTick {s s' : State} {b : Batch} {t : ℕ} {tick : Tick} (h : Held s b)
    (hticks : s'.ticks = Function.update s.ticks t tick)
    (ht : ∀ lines, s.ticks t = .handing lines → b ∈ lines → ∃ rest, tick = .handing rest ∧ b ∈ rest) :
    Held s' b := by
  obtain ⟨t',lines,ht',hb⟩ := h
  by_cases htt : t' = t
  · subst htt
    obtain ⟨rest,hrest,hin⟩ := ht lines ht' hb
    exact ⟨t',rest,by rw [hticks, Function.update_self, hrest],hin⟩
  · exact ⟨t',lines,by rw [hticks, Function.update_of_ne htt, ht'],hb⟩

theorem Held.setTick_of_ne {s s' : State} {b : Batch} {t : ℕ} {tick : Tick} (h : Held s b)
    (hticks : s'.ticks = Function.update s.ticks t tick)
    (ht : ∀ lines, s.ticks t ≠ .handing lines) : Held s' b :=
  h.setTick hticks (fun lines ht' => absurd ht' (ht lines))

theorem held_step (maxSizeMb : ℕ) {s : State} {e : Event} (hfired : s.ticks s.fired = .idle)
    (hg : Gentle s e) {b : Batch} (h : Held s b) :
    Held (step maxSizeMb s e) b ∨ b ∈ (step maxSizeMb s e).accepted := by
  by_cases he : e.touchesTicks = false
  · obtain ⟨t,lines,ht,hb⟩ := h
    exact Or.inl ⟨t,lines,by rw [(step_sameTicks maxSizeMb s e he).ticks, ht],hb⟩
  · cases e with
    | tick =>
      left
      simp only [step, tick]
      split
      · exact h.setTick_of_ne rfl (by simp [hfired])
      · exact h
    | tickListed t =>
      left
      simp only [step, tickListed]
      split
      · rename_i ht
        split <;> exact h.setTick_of_ne rfl (by simp [ht])
      · exact h
    | tickRead t =>
      left
      simp only [step, tickRead]
      split
      · rename_i file ht
        split <;> exact h.setTick_of_ne rfl (by simp [ht])
      · exact h
    | tickRemoved t =>
      left
      simp only [step, tickRemoved]
      split
      · rename_i file lines ht
        split <;> exact h.setTick_of_ne rfl (by simp [ht])
      · exact h
    | handed t ok =>
      simp only [step, handed]
      split
      · rename_i first lines ht
        cases ok with
        | true =>
          by_cases hb : b = first
          · exact Or.inr (List.mem_append_right _ (List.mem_singleton.mpr hb))
          · left
            apply h.setTick rfl
            intro lines' ht' hin
            rw [ht] at ht'
            cases ht'
            exact ⟨lines,rfl,(List.mem_cons.mp hin).resolve_left hb⟩
        | false => exact absurd ht (hg first lines)
      · exact Or.inl h
    | crash => exact absurd h (hg b)
    | _ => exact absurd rfl he

def Unfired (s : State) : Prop := ∀ t, s.fired ≤ t → s.ticks t = .idle

theorem unfired_setTick {s : State} (h : Unfired s) {t : ℕ} (tick : Tick) (ht : s.ticks t ≠ .idle)
    {s' : State} (hfired : s'.fired = s.fired) (hticks : s'.ticks = Function.update s.ticks t tick) :
    Unfired s' := by
  intro t' ht'
  have hne : t' ≠ t := by
    rintro rfl
    exact ht (h t' (hfired ▸ ht'))
  rw [hticks, Function.update_of_ne hne]
  exact h t' (hfired ▸ ht')

theorem step_unfired (maxSizeMb : ℕ) (s : State) (e : Event) (h : Unfired s) :
    Unfired (step maxSizeMb s e) := by
  by_cases he : e.touchesTicks = false
  · have hsame := step_sameTicks maxSizeMb s e he
    rw [Unfired, hsame.ticks, hsame.fired]
    exact h
  · cases e with
    | tick =>
      intro t ht
      simp only [step, tick] at ht ⊢
      split at ht
      · have hne : t ≠ s.fired := Nat.ne_of_gt ht
        rw [if_pos ‹_›]
        show Function.update s.ticks s.fired _ t = _
        rw [Function.update_of_ne hne]
        exact h t (Nat.le_of_succ_le ht)
      · rw [if_neg ‹_›]
        exact h t (Nat.le_of_succ_le ht)
    | tickListed t =>
      simp only [step, tickListed]
      split
      · rename_i ht
        split <;> exact unfired_setTick h _ (by simp [ht]) rfl rfl
      · exact h
    | tickRead t =>
      simp only [step, tickRead]
      split
      · rename_i ht
        split <;> exact unfired_setTick h _ (by simp [ht]) rfl rfl
      · exact h
    | tickRemoved t =>
      simp only [step, tickRemoved]
      split
      · rename_i ht
        split <;> exact unfired_setTick h _ (by simp [ht]) rfl rfl
      · exact h
    | handed t ok =>
      simp only [step, handed]
      split
      · rename_i ht
        split <;> exact unfired_setTick h _ (by simp [ht]) rfl rfl
      · exact h
    | crash => exact fun _ _ => rfl
    | _ => exact absurd rfl he

/-- A batch in a file is still there, is evicted with it, or goes into the
hands of the tick that removes it. -/
theorem inFiles_step (maxSizeMb : ℕ) {s : State} {e : Event} (hg : Gentle s e) {b : Batch}
    (h : InFiles s b) : Safe (step maxSizeMb s e) b := by
  obtain ⟨j,hj⟩ := h
  by_cases he : e.touchesRecord = false
  · exact Or.inl ⟨j,(step_same maxSizeMb s e he).files ▸ hj⟩
  · cases e with
    | removedOldest c =>
      simp only [step, removedOldest]
      split
      · rename_i size file hcall
        have hsame := startAppend_same { s with
          files := s.files.delete file
          evicted := s.evicted++content s.files file } c size
        by_cases hjf : j = file
        · refine Or.inr (Or.inr (Or.inl ?_))
          rw [hsame.evicted]
          exact List.mem_append_right _ (hjf ▸ hj)
        · refine Or.inl ⟨j,?_⟩
          rw [hsame.files]
          show b ∈ content (s.files.delete file) j
          rwa [content_delete, if_neg hjf]
      · exact Or.inl ⟨j,hj⟩
    | landed c =>
      simp only [step, landed]
      split
      · refine Or.inl ⟨j,?_⟩
        show b ∈ content (s.files.set _ _) j
        rw [content_set]
        split
        · rename_i hjf
          exact List.mem_append_left _ (hjf ▸ hj)
        · exact hj
      · exact Or.inl ⟨j,hj⟩
    | spoolResolved c =>
      simp only [step, spoolResolved]
      split <;> exact Or.inl ⟨j,hj⟩
    | tick =>
      simp only [step, tick]
      split <;> exact Or.inl ⟨j,hj⟩
    | tickRemoved t =>
      simp only [step, tickRemoved]
      split
      · rename_i file lines ht
        split
        · by_cases hjf : j = file
          · refine Or.inr (Or.inr (Or.inr ⟨t,lines,Function.update_self _ _ _,?_⟩))
            exact hg file lines ht (hjf ▸ hj)
          · refine Or.inl ⟨j,?_⟩
            show b ∈ content (s.files.delete file) j
            rwa [content_delete, if_neg hjf]
        · exact Or.inl ⟨j,hj⟩
      · exact Or.inl ⟨j,hj⟩
    | handed t ok =>
      simp only [step, handed]
      split
      · split <;> exact Or.inl ⟨j,hj⟩
      · exact Or.inl ⟨j,hj⟩
    | _ => exact absurd rfl he

theorem record_step (maxSizeMb : ℕ) (s : State) (e : Event) :
    s.accepted ⊆ (step maxSizeMb s e).accepted ∧ s.evicted ⊆ (step maxSizeMb s e).evicted := by
  by_cases he : e.touchesRecord = false
  · have hsame := step_same maxSizeMb s e he
    rw [hsame.accepted, hsame.evicted]
    exact ⟨fun _ h => h,fun _ h => h⟩
  · cases e with
    | removedOldest c =>
      simp only [step, removedOldest]
      split
      · rw [(startAppend_same _ c _).accepted, (startAppend_same _ c _).evicted]
        exact ⟨fun _ h => h,List.subset_append_left _ _⟩
      · exact ⟨fun _ h => h,fun _ h => h⟩
    | landed c => simp only [step, landed]; split <;> exact ⟨fun _ h => h,fun _ h => h⟩
    | spoolResolved c =>
      simp only [step, spoolResolved]
      split <;> exact ⟨fun _ h => h,fun _ h => h⟩
    | tick => simp only [step, tick]; split <;> exact ⟨fun _ h => h,fun _ h => h⟩
    | tickRemoved t =>
      simp only [step, tickRemoved]
      split
      · split <;> exact ⟨fun _ h => h,fun _ h => h⟩
      · exact ⟨fun _ h => h,fun _ h => h⟩
    | handed t ok =>
      simp only [step, handed]
      split
      · split
        · exact ⟨List.subset_append_left _ _,fun _ h => h⟩
        · exact ⟨fun _ h => h,fun _ h => h⟩
      · exact ⟨fun _ h => h,fun _ h => h⟩
    | _ => exact absurd rfl he

theorem safe_step (maxSizeMb : ℕ) {s : State} {e : Event} (hu : Unfired s) (hg : Gentle s e)
    {b : Batch} (h : Safe s b) : Safe (step maxSizeMb s e) b := by
  rcases h with hf | ha | he | hh
  · exact inFiles_step maxSizeMb hg hf
  · exact Or.inr (Or.inl ((record_step maxSizeMb s e).1 ha))
  · exact Or.inr (Or.inr (Or.inl ((record_step maxSizeMb s e).2 he)))
  · rcases held_step maxSizeMb (hu s.fired le_rfl) hg hh with hh | ha
    · exact Or.inr (Or.inr (Or.inr hh))
    · exact Or.inr (Or.inl ha)

theorem resolved_step {maxSizeMb : ℕ} {s : State} {e : Event} {b : Batch}
    (h : b ∈ (step maxSizeMb s e).resolved) :
    b ∈ s.resolved ∨ ∃ c size file, s.calls c = .appending size file true ∧ b = ⟨c,size⟩ := by
  by_cases he : e.touchesRecord = false
  · rw [(step_same maxSizeMb s e he).resolved] at h
    exact Or.inl h
  · cases e with
    | removedOldest c =>
      simp only [step, removedOldest] at h
      split at h
      · rw [(startAppend_same _ c _).resolved] at h
        exact Or.inl h
      · exact Or.inl h
    | landed c =>
      simp only [step, landed] at h
      split at h <;> exact Or.inl h
    | spoolResolved c =>
      simp only [step, spoolResolved] at h
      split at h
      · rename_i size file hcall
        rcases List.mem_append.mp h with h | h
        · exact Or.inl h
        · exact Or.inr ⟨c,size,file,hcall,List.mem_singleton.mp h⟩
      · exact Or.inl h
    | tick =>
      simp only [step, tick] at h
      split at h <;> exact Or.inl h
    | tickRemoved t =>
      simp only [step, tickRemoved] at h
      split at h
      · split at h <;> exact Or.inl h
      · exact Or.inl h
    | handed t ok =>
      simp only [step, handed] at h
      split at h
      · split at h <;> exact Or.inl h
      · exact Or.inl h
    | _ => exact absurd rfl he

theorem step_custody (maxSizeMb : ℕ) (s : State) (e : Event) (hg : Gentle s e)
    (h : Unfired s ∧ Custody s) :
    Unfired (step maxSizeMb s e) ∧ Custody (step maxSizeMb s e) := by
  obtain ⟨hu,hc⟩ := h
  refine ⟨step_unfired maxSizeMb s e hu,?_,?_⟩
  · intro b hb
    rcases resolved_step hb with hb | ⟨c,size,file,hcall,rfl⟩
    · exact safe_step maxSizeMb hu hg (hc.resolved b hb)
    · exact safe_step maxSizeMb hu hg (hc.landed c size file hcall)
  · intro c size file hafter
    rcases landed_step hafter with hcall | ⟨rfl,hcall⟩
    · exact safe_step maxSizeMb hu hg (hc.landed c size file hcall)
    · refine Or.inl ⟨file,?_⟩
      simp only [step, landed, hcall]
      show _ ∈ content (s.files.set file _) file
      rw [content_set, if_pos rfl]
      exact List.mem_append_right _ List.mem_cons_self

/-- In a run of gentle steps no spooled batch is lost: it is in a file,
accepted, evicted, or in the hands of a tick. -/
theorem spooled_safe (maxSizeMb : ℕ) (now : ℤ) (es : List Event)
    (hm : Meets (step maxSizeMb) Gentle es (initial now)) :
    ∀ b ∈ (run (step maxSizeMb) es (initial now)).resolved,
      Safe (run (step maxSizeMb) es (initial now)) b := by
  have h := run_invariant (I := fun s => Unfired s ∧ Custody s) (step_custody maxSizeMb) es _ hm
    ⟨fun _ _ => rfl,⟨fun _ hb => absurd hb List.not_mem_nil,fun _ _ _ hcall => by cases hcall⟩⟩
  exact h.2.resolved

/-- A batch on its way from the file to the consumer. -/
theorem spooled_safe_in_hand :
    let es := [.spoolToDisk 10,.measured 0 0,.landed 0,.spoolResolved 0,.tick,.tickListed 0,
      .tickRead 0,.tickRemoved 0]
    ∀ b ∈ (run (step 1000) es (initial 0)).resolved, Safe (run (step 1000) es (initial 0)) b :=
  spooled_safe 1000 0 _ (by
    refine ⟨trivial,trivial,trivial,trivial,trivial,trivial,trivial,?_,trivial⟩
    intro file lines h
    cases h
    decide)

end Iotistica.DiskSpool
