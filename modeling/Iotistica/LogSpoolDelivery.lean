import Iotistica.LogSpoolWriter
import Mathlib.Data.List.Range

/-!
# Buffered lines reach the files

Nothing is stranded while three things do not happen: the timer does not
fire, and `stop` is not called over a filled buffer, while a flush runs, and
no flush fails with no timer set. Then a filled buffer always has its timer,
the lines on disk, in flight and in the buffer are the batches written in
their order, and a `stop` finds everything written before it on disk.
-/

set_option autoImplicit false

namespace Iotistica.LogSpool
open Iotistica Iotistica.GuardedRun

def suspended (s : Writer) : List Caller :=
  (match s.spoolWriteFlushPromise with
    | some f => f.owner::f.waiting
    | none => [])++s.ready.map Prod.fst

def WriteRunning (s : Writer) : Prop := Caller.write ∈ suspended s

instance (s : Writer) : Decidable (WriteRunning s) := inferInstanceAs (Decidable (_ ∈ _))

/-- A flush takes its payload out of the buffer when it starts, so what the
buffer counts is written by a later one, and only the timer starts that. -/
def Unstranded (s : Writer) : Prop :=
  0 < s.spoolWriteBufferBytes → ¬WriteRunning s → s.spoolWriteTimer = true

def Stored (s : Writer) : Prop :=
  ∀ p ∈ s.stopped, ∀ k < p.1, (p.2.map Line.seq).count k = 1

instance (s : Writer) : Decidable (Unstranded s) :=
  inferInstanceAs (Decidable (0 < _ → ¬_ → _ = _))

instance (s : Writer) : Decidable (Stored s) :=
  inferInstanceAs (Decidable (∀ p ∈ s.stopped, ∀ k < p.1, (p.2.map Line.seq).count k = 1))

/-- What must not happen while a flush runs. -/
def Timely (s : Writer) : Event → Prop
  | .write sizes => s.spoolWriteFlushPromise ≠ none → s.spoolWriteTimer = false →
      s.spoolWriteBufferBytes+chunkBytes (numbered s.issued sizes) < SPOOL_WRITE_FLUSH_BYTES
  | .timerFired => s.spoolWriteTimer = true → s.spoolWriteFlushPromise = none
  | .stop => s.spoolWriteFlushPromise ≠ none → s.spoolWriteBufferBytes = 0
  | .renameDone now => now ∉ s.rotated.keys
  | .ioFailed _ => s.spoolWriteTimer = true
  | _ => True

instance (s : Writer) : (e : Event) → Decidable (Timely s e)
  | .write sizes => inferInstanceAs (Decidable (s.spoolWriteFlushPromise ≠ none →
      s.spoolWriteTimer = false →
      s.spoolWriteBufferBytes+chunkBytes (numbered s.issued sizes) < SPOOL_WRITE_FLUSH_BYTES))
  | .timerFired => inferInstanceAs
      (Decidable (s.spoolWriteTimer = true → s.spoolWriteFlushPromise = none))
  | .stop => inferInstanceAs
      (Decidable (s.spoolWriteFlushPromise ≠ none → s.spoolWriteBufferBytes = 0))
  | .renameDone now => inferInstanceAs (Decidable (now ∉ s.rotated.keys))
  | .ioFailed _ => inferInstanceAs (Decidable (s.spoolWriteTimer = true))
  | .flushWriteBuffer => .isTrue trivial
  | .statDone => .isTrue trivial
  | .appendDone => .isTrue trivial
  | .renameFailed => .isTrue trivial
  | .capDone => .isTrue trivial
  | .ownerReturns => .isTrue trivial
  | .waiterReturns => .isTrue trivial

theorem length_le_textBytes (lines : List Line) : lines.length ≤ textBytes lines := by
  induction lines with
  | nil => exact Nat.zero_le _
  | cons line lines ih =>
    rw [List.length_cons, textBytes]
    omega

theorem length_le_chunkBytes (lines : List Line) : lines.length ≤ chunkBytes lines :=
  (length_le_textBytes lines).trans (Nat.le_max_right _ _)

theorem seq_numbered (n : ℕ) (sizes : List ℕ) :
    (numbered n sizes).map Line.seq = List.range' n sizes.length := by
  induction sizes generalizing n with
  | nil => rfl
  | cons size sizes ih =>
    rw [numbered, List.map_cons, ih, List.length_cons, List.range'_succ]

theorem range_add_seq (n : ℕ) (sizes : List ℕ) :
    List.range n++(numbered n sizes).map Line.seq = List.range (n+sizes.length) := by
  rw [seq_numbered, List.range_eq_range', List.range_eq_range', ← List.range'_append_1,
    Nat.zero_add]

def Running.unwritten (f : Running) : List Line :=
  match f.stage with
  | .stat => f.payload
  | .append => f.payload
  | _ => []

def unwritten (s : Writer) : List Line :=
  match s.spoolWriteFlushPromise with
  | some f => f.unwritten
  | none => []

def taken (s : Writer) : List Line := s.files++unwritten s

def Armed (s : Writer) : Prop := 0 < s.spoolWriteBufferBytes → s.spoolWriteTimer = true

structure Ordered (s : Writer) : Prop where
  weight : s.spoolWriteChunks.flatten.length ≤ s.spoolWriteBufferBytes
  payload : ∀ f, s.spoolWriteFlushPromise = some f → f.payload.length ≤ f.payloadBytes
  order : s.torn = false →
    (taken s++s.spoolWriteChunks.flatten).map Line.seq = List.range s.issued
  awaited : s.torn = false → ∀ f, s.spoolWriteFlushPromise = some f → f.stage ≠ .done true →
    ∀ n, Caller.stop n ∈ f.owner::f.waiting → n ≤ (taken s).length
  ready : s.torn = false → ∀ n, (Caller.stop n,false) ∈ s.ready → n ≤ s.files.length
  stored : Stored s

theorem created_ordered : Ordered created := by
  refine ⟨?_,?_,?_,?_,?_,?_⟩ <;> simp [created, taken, unwritten, Writer.files, Stored,
    OrderedMap.empty]

theorem Ordered.issued_le {s : Writer} (h : Ordered s) (ht : s.torn = false)
    (hbytes : s.spoolWriteBufferBytes = 0) : s.issued ≤ (taken s).length := by
  have hw := h.weight
  have hl := congrArg List.length (h.order ht)
  rw [List.length_map, List.length_append, List.length_range] at hl
  omega

theorem Ordered.count {s : Writer} (h : Ordered s) (ht : s.torn = false) {n k : ℕ}
    (hn : n ≤ s.files.length) (hk : k < n) : (s.files.map Line.seq).count k = 1 := by
  have horder := h.order ht
  rw [taken, List.append_assoc, List.map_append] at horder
  have hpre : s.files.map Line.seq <+: List.range s.issued := ⟨_,horder⟩
  have htake := List.prefix_iff_eq_take.mp hpre
  have hlen : s.files.length ≤ s.issued := by
    have hl := hpre.length_le
    simpa using hl
  rw [List.length_map, List.take_range, Nat.min_eq_left hlen] at htake
  rw [htake]
  apply List.count_eq_one_of_mem List.nodup_range
  exact List.mem_range.mpr (by omega)

theorem Ordered.returned {s : Writer} (h : Ordered s) (caller : Caller) (failed : Bool)
    (hstop : ∀ n, caller = .stop n → failed = false → s.torn = false → n ≤ s.files.length) :
    Ordered (returned s caller failed) := by
  cases caller with
  | write => exact h
  | background => exact h
  | stop before =>
    unfold LogSpool.returned
    simp only
    split
    · rename_i hclean
      simp only [Bool.and_eq_true, Bool.not_eq_true'] at hclean
      refine ⟨h.weight,h.payload,h.order,h.awaited,h.ready,?_⟩
      intro p hp k hk
      rcases List.mem_append.mp hp with hp | hp
      · exact h.stored p hp k hk
      · obtain rfl := List.mem_singleton.mp hp
        exact h.count hclean.2 (hstop before rfl hclean.1 hclean.2) hk
    · exact h

theorem returned_buffer (s : Writer) (caller : Caller) (failed : Bool) :
    (returned s caller failed).spoolWriteBufferBytes = s.spoolWriteBufferBytes
      ∧ (returned s caller failed).spoolWriteTimer = s.spoolWriteTimer := by
  cases caller with
  | write => exact ⟨rfl,rfl⟩
  | background => exact ⟨rfl,rfl⟩
  | stop before =>
    unfold returned
    simp only
    split <;> exact ⟨rfl,rfl⟩

theorem Ordered.timer {s : Writer} (h : Ordered s) (b : Bool) :
    Ordered { s with spoolWriteTimer := b } :=
  ⟨h.weight,h.payload,h.order,h.awaited,h.ready,h.stored⟩

theorem taken_joinFlush {s : Writer} {f : Running} (hf : s.spoolWriteFlushPromise = some f)
    (caller : Caller) : taken (joinFlush s f caller) = taken s := by
  simp only [taken, unwritten, hf]
  rfl

theorem taken_startFlush {s : Writer} (hf : s.spoolWriteFlushPromise = none) (caller : Caller) :
    taken (startFlush s caller) = taken s++s.spoolWriteChunks.flatten := by
  have hfiles : (startFlush s caller).files = s.files := rfl
  cases hk : s.spoolActiveSizeKnown <;>
    simp [taken, hfiles] <;> simp [unwritten, hf, startFlush, Running.unwritten, hk]

theorem Ordered.joinFlush {s : Writer} {f : Running} (h : Ordered s)
    (hf : s.spoolWriteFlushPromise = some f) (caller : Caller)
    (hstop : ∀ n, caller = .stop n → n ≤ s.issued ∧ s.spoolWriteBufferBytes = 0) :
    Ordered (joinFlush s f caller) := by
  have htaken := taken_joinFlush hf caller
  refine ⟨h.weight,?_,?_,?_,h.ready,h.stored⟩
  · intro g hg
    obtain rfl := Option.some.inj hg
    exact h.payload f hf
  · intro ht
    rw [htaken]
    exact h.order ht
  · intro ht g hg hstage n hn
    obtain rfl := Option.some.inj hg
    rw [htaken]
    have hn' : Caller.stop n ∈ f.owner::f.waiting ∨ Caller.stop n = caller := by
      simpa [or_assoc] using hn
    rcases hn' with hn' | hn'
    · exact h.awaited ht f hf hstage n hn'
    · have hc := hstop n hn'.symm
      exact hc.1.trans (h.issued_le ht hc.2)

theorem Ordered.startFlush {s : Writer} (h : Ordered s) (hf : s.spoolWriteFlushPromise = none)
    (caller : Caller) (hstop : ∀ n, caller = .stop n → n ≤ s.issued) :
    Ordered (startFlush s caller) := by
  have htaken := taken_startFlush hf caller
  refine ⟨Nat.zero_le _,?_,?_,?_,h.ready,h.stored⟩
  · intro g hg
    obtain rfl := Option.some.inj hg
    exact h.weight
  · intro ht
    rw [htaken]
    show (taken s++s.spoolWriteChunks.flatten++[]).map Line.seq = List.range s.issued
    rw [List.append_nil]
    exact h.order ht
  · intro ht g hg _ n hn
    obtain rfl := Option.some.inj hg
    have hn' : Caller.stop n = caller := by simpa using hn
    have hl := congrArg List.length (h.order ht)
    rw [List.length_map, List.length_range] at hl
    rw [htaken, hl]
    exact hstop n hn'.symm

theorem Ordered.flushWriteBuffer {s : Writer} (h : Ordered s) (caller : Caller)
    (hstop : ∀ n, caller = .stop n →
      n ≤ s.issued ∧ (s.spoolWriteFlushPromise ≠ none → s.spoolWriteBufferBytes = 0)) :
    Ordered (flushWriteBuffer s caller) := by
  unfold LogSpool.flushWriteBuffer
  split
  · rename_i f hf
    apply h.joinFlush hf
    intro n hn
    exact ⟨(hstop n hn).1,(hstop n hn).2 (by rw [hf]; exact Option.some_ne_none f)⟩
  · rename_i hf
    split
    · rename_i hbytes
      apply (h.timer false).returned
      intro n hn _ ht
      have hle := (hstop n hn).1.trans (h.issued_le ht hbytes)
      simpa [taken, unwritten, hf, Writer.files] using hle
    · exact h.startFlush hf caller (fun n hn => (hstop n hn).1)

theorem flushWriteBuffer_armed {s : Writer} (caller : Caller)
    (h : s.spoolWriteFlushPromise ≠ none → Armed s) : Armed (flushWriteBuffer s caller) := by
  unfold flushWriteBuffer
  split
  · rename_i f hf
    exact h (by rw [hf]; exact Option.some_ne_none f)
  · split
    · rename_i hbytes
      intro hpos
      rw [(returned_buffer _ _ _).1] at hpos
      exact absurd hbytes hpos.ne'
    · intro hpos
      exact absurd hpos (Nat.lt_irrefl 0)

theorem Ordered.write {s : Writer} (h : Ordered s) (sizes : List ℕ) : Ordered (write s sizes) := by
  have hpush : Ordered { s with
      issued := s.issued+sizes.length
      spoolWriteChunks := s.spoolWriteChunks++[numbered s.issued sizes]
      spoolWriteBufferBytes := s.spoolWriteBufferBytes+chunkBytes (numbered s.issued sizes) } := by
    refine ⟨?_,h.payload,?_,h.awaited,h.ready,h.stored⟩
    · have hw := h.weight
      have hc := length_le_chunkBytes (numbered s.issued sizes)
      simp only [List.flatten_append, List.flatten_cons, List.flatten_nil, List.append_nil,
        List.length_append]
      omega
    · intro ht
      have ho := h.order ht
      rw [List.map_append] at ho
      have hnext := range_add_seq s.issued sizes
      rw [← ho] at hnext
      simp only [List.flatten_append, List.flatten_cons, List.flatten_nil, List.append_nil,
        List.map_append, ← List.append_assoc]
      exact hnext
  unfold LogSpool.write
  simp only
  split
  · apply hpush.flushWriteBuffer
    intro n hn
    cases hn
  · exact hpush.timer true

theorem write_armed {s : Writer} (sizes : List ℕ) (hok : Timely s (.write sizes)) :
    Armed (write s sizes) := by
  unfold write
  simp only
  split
  · rename_i hlarge
    apply flushWriteBuffer_armed
    intro hrun _
    by_contra htimer
    have hsmall := hok hrun (by simpa using htimer)
    omega
  · exact fun _ => rfl

theorem timerFired_armed {s : Writer} (hok : Timely s .timerFired) (h : Armed s) :
    Armed (timerFired s) := by
  unfold timerFired
  split
  · rename_i ht
    apply flushWriteBuffer_armed
    intro hrun
    exact absurd (hok ht) hrun
  · exact h

theorem stop_armed {s : Writer} (hok : Timely s .stop) : Armed (stop s) := by
  unfold stop
  apply flushWriteBuffer_armed
  intro hrun hpos
  have hbytes := hok hrun
  simp only at hpos
  omega

theorem Ordered.atStage {s s₀ : Writer} {f : Running} (h : Ordered s)
    (hf : s.spoolWriteFlushPromise = some f) (stage : Stage)
    (hchunks : s₀.spoolWriteChunks = s.spoolWriteChunks)
    (hbytes : s₀.spoolWriteBufferBytes = s.spoolWriteBufferBytes)
    (hready : s₀.ready = s.ready) (hissued : s₀.issued = s.issued) (htorn : s₀.torn = s.torn)
    (hstopped : s₀.stopped = s.stopped)
    (htaken : taken (atStage s₀ f stage) = taken s)
    (hfiles : s.files.length ≤ s₀.files.length) (hdone : f.stage ≠ .done true) :
    Ordered (atStage s₀ f stage) := by
  refine ⟨?_,?_,?_,?_,?_,?_⟩
  · show s₀.spoolWriteChunks.flatten.length ≤ s₀.spoolWriteBufferBytes
    rw [hchunks, hbytes]
    exact h.weight
  · intro g hg
    obtain rfl := Option.some.inj hg
    exact h.payload f hf
  · intro ht
    show (taken (LogSpool.atStage s₀ f stage)++s₀.spoolWriteChunks.flatten).map Line.seq
      = List.range s₀.issued
    rw [htaken, hchunks, hissued]
    exact h.order (htorn ▸ ht)
  · intro ht g hg _ n hn
    obtain rfl := Option.some.inj hg
    rw [htaken]
    exact h.awaited (htorn ▸ ht) f hf hdone n hn
  · intro ht n hn
    have hn' : (Caller.stop n,false) ∈ s.ready := hready ▸ hn
    exact (h.ready (htorn ▸ ht) n hn').trans hfiles
  · show ∀ p ∈ s₀.stopped, _
    rw [hstopped]
    exact h.stored

theorem Ordered.nextStage {s : Writer} {f : Running} (h : Ordered s)
    (hf : s.spoolWriteFlushPromise = some f) (stage : Stage) (hdone : f.stage ≠ .done true)
    (hunwritten : { f with stage := stage }.unwritten = f.unwritten) :
    Ordered (LogSpool.atStage s f stage) := by
  apply h.atStage hf stage rfl rfl rfl rfl rfl rfl
  · show s.files++{ f with stage := stage }.unwritten = taken s
    rw [hunwritten]
    simp only [taken, unwritten, hf]
  · exact le_rfl
  · exact hdone

theorem Ordered.ioFailed {s : Writer} {f : Running} (h : Ordered s)
    (hf : s.spoolWriteFlushPromise = some f) (hstage : f.unwritten = f.payload) (written : ℕ) :
    Ordered (ioFailed s f written) := by
  have hp := h.payload f hf
  have hwhole : ∀ ht : (LogSpool.ioFailed s f written).torn = false,
      s.torn = false ∧ f.payload.take written = [] := by
    intro ht
    have ht' : (s.torn || decide (0 < written)) = false := ht
    simp only [Bool.or_eq_false_iff, decide_eq_false_iff_not, Nat.not_lt, Nat.le_zero] at ht'
    rw [ht'.2]
    exact ⟨ht'.1,rfl⟩
  refine ⟨?_,?_,?_,?_,?_,h.stored⟩
  · have hw := h.weight
    show (f.payload::s.spoolWriteChunks).flatten.length ≤ s.spoolWriteBufferBytes+f.payloadBytes
    rw [List.flatten_cons, List.length_append]
    omega
  · intro g hg
    obtain rfl := Option.some.inj hg
    exact hp
  · intro ht
    obtain ⟨ht₀,hnone⟩ := hwhole ht
    have ho := h.order ht₀
    simp only [taken, unwritten, hf, hstage] at ho
    show ((s.rotated.entries.flatMap Prod.snd++(s.active++f.payload.take written)++[])
      ++(f.payload::s.spoolWriteChunks).flatten).map Line.seq = List.range s.issued
    rw [hnone, List.append_nil, List.append_nil, List.flatten_cons, ← List.append_assoc]
    exact ho
  · intro _ g hg hg'
    obtain rfl := Option.some.inj hg
    exact absurd rfl hg'
  · intro ht n hn
    obtain ⟨ht₀,hnone⟩ := hwhole ht
    show n ≤ (s.rotated.entries.flatMap Prod.snd++(s.active++f.payload.take written)).length
    rw [hnone, List.append_nil]
    exact h.ready ht₀ n hn

theorem Ordered.ownerReturns {s : Writer} {f : Running} {failed : Bool} (h : Ordered s)
    (hf : s.spoolWriteFlushPromise = some f) (hstage : f.stage = .done failed) :
    Ordered (LogSpool.returned { s with
      spoolWriteFlushPromise := none
      ready := s.ready++f.waiting.map (fun caller => (caller,failed)) } f.owner failed) := by
  have hu : f.unwritten = [] := by
    unfold Running.unwritten
    rw [hstage]
  have htaken : taken s = s.files := by simp [taken, unwritten, hf, hu]
  have hwait : s.torn = false → failed = false → ∀ n, Caller.stop n ∈ f.owner::f.waiting →
      n ≤ s.files.length := by
    intro ht hfailed n hn
    rw [← htaken]
    apply h.awaited ht f hf ?_ n hn
    rw [hstage, hfailed]
    simp
  have hcleared : Ordered { s with
      spoolWriteFlushPromise := none
      ready := s.ready++f.waiting.map (fun caller => (caller,failed)) } := by
    refine ⟨h.weight,?_,?_,?_,?_,h.stored⟩
    · intro g hg
      cases hg
    · intro ht
      have ho := h.order ht
      rw [htaken] at ho
      simpa [taken, unwritten, Writer.files] using ho
    · intro _ g hg
      cases hg
    · intro ht n hn
      rcases List.mem_append.mp hn with hn | hn
      · exact h.ready ht n hn
      · obtain ⟨caller,hc,he⟩ := List.mem_map.mp hn
        simp only [Prod.mk.injEq] at he
        rw [he.1] at hc
        exact hwait ht he.2 n (List.mem_cons_of_mem _ hc)
  apply hcleared.returned
  intro n hn hfailed ht
  exact hwait ht hfailed n (by rw [← hn]; exact List.mem_cons_self)

theorem Ordered.io {maxSpoolSize : ℕ} {s : Writer} {f : Running} (h : Ordered s)
    (hf : s.spoolWriteFlushPromise = some f) (e : Event) (hok : Timely s e) :
    Ordered (io maxSpoolSize s f e) := by
  cases e with
  | statDone =>
    simp only [LogSpool.io]
    split
    · rename_i hstage
      apply h.atStage hf <;> try rfl
      · simp [taken, unwritten, LogSpool.atStage, Running.unwritten, hf, hstage, Writer.files]
      · simp [hstage]
    · exact h
  | appendDone =>
    simp only [LogSpool.io]
    split
    · rename_i hstage
      unfold appendDone
      simp only
      split <;>
      · apply h.atStage hf <;> try rfl
        · simp [taken, unwritten, LogSpool.atStage, Running.unwritten, hf, hstage, Writer.files]
        · simp [Writer.files]
        · simp [hstage]
    · exact h
  | renameDone now =>
    simp only [LogSpool.io]
    split
    · rename_i hstage
      have hset : (s.rotated.set now s.active).entries = s.rotated.entries++[(now,s.active)] := by
        simp only [OrderedMap.set, if_neg hok]
      apply h.atStage hf <;> try rfl
      · simp [taken, unwritten, LogSpool.atStage, Running.unwritten, hf, hstage, Writer.files, hset]
      · simp [Writer.files, hset]
      · simp [hstage]
    · exact h
  | renameFailed =>
    simp only [LogSpool.io]
    split
    · rename_i hstage
      apply h.nextStage hf
      · simp [hstage]
      · simp [Running.unwritten, hstage]
    · exact h
  | capDone =>
    simp only [LogSpool.io]
    split
    · rename_i hstage
      apply h.nextStage hf
      · simp [hstage]
      · simp [Running.unwritten, hstage]
    · exact h
  | ioFailed written =>
    simp only [LogSpool.io]
    split
    · rename_i hstage
      exact h.ioFailed hf (by simp [Running.unwritten, hstage]) 0
    · split
      · rename_i hstage
        exact h.ioFailed hf (by simp [Running.unwritten, hstage]) written
      · exact h
  | ownerReturns =>
    simp only [LogSpool.io]
    split
    · rename_i failed hstage
      exact h.ownerReturns hf hstage
    · exact h
  | write sizes => exact h
  | timerFired => exact h
  | flushWriteBuffer => exact h
  | stop => exact h
  | waiterReturns => exact h

theorem io_armed {maxSpoolSize : ℕ} {s : Writer} {f : Running} (e : Event) (hok : Timely s e)
    (h : Armed s) : Armed (io maxSpoolSize s f e) := by
  cases e with
  | ioFailed written =>
    simp only [io]
    split
    · exact fun _ => hok
    · split
      · exact fun _ => hok
      · exact h
  | ownerReturns =>
    simp only [io]
    split
    · unfold Armed
      rw [(returned_buffer _ _ _).1, (returned_buffer _ _ _).2]
      exact h
    · exact h
  | statDone => simp only [io]; split <;> exact h
  | appendDone => simp only [io]; split <;> exact h
  | renameDone now => simp only [io]; split <;> exact h
  | renameFailed => simp only [io]; split <;> exact h
  | capDone => simp only [io]; split <;> exact h
  | write sizes => exact h
  | timerFired => exact h
  | flushWriteBuffer => exact h
  | stop => exact h
  | waiterReturns => exact h

structure Sound (s : Writer) : Prop where
  ordered : Ordered s
  armed : Armed s

theorem io_sound {maxSpoolSize : ℕ} {s : Writer} (e : Event) (hok : Timely s e) (h : Sound s) :
    Sound (match s.spoolWriteFlushPromise with
      | none => s
      | some f => io maxSpoolSize s f e) := by
  split
  · exact h
  · rename_i f hf
    exact ⟨h.ordered.io hf e hok,io_armed e hok h.armed⟩

theorem step_sound {maxSpoolSize : ℕ} (s : Writer) (e : Event) (hok : Timely s e) (h : Sound s) :
    Sound (step maxSpoolSize s e) := by
  cases e with
  | write sizes => exact ⟨h.ordered.write sizes,write_armed sizes hok⟩
  | timerFired =>
    refine ⟨?_,timerFired_armed hok h.armed⟩
    simp only [step, timerFired]
    split
    · apply (h.ordered.timer false).flushWriteBuffer
      intro n hn
      cases hn
    · exact h.ordered
  | flushWriteBuffer =>
    refine ⟨h.ordered.flushWriteBuffer _ ?_,flushWriteBuffer_armed _ (fun _ => h.armed)⟩
    intro n hn
    cases hn
  | stop =>
    refine ⟨?_,stop_armed hok⟩
    apply (h.ordered.timer false).flushWriteBuffer
    intro n hn
    rw [← Caller.stop.inj hn]
    exact ⟨le_rfl,hok⟩
  | waiterReturns =>
    simp only [step]
    split
    · exact h
    · rename_i caller failed rest hready
      have hr := h.ordered.ready
      rw [hready] at hr
      constructor
      · apply Ordered.returned
        · exact ⟨h.ordered.weight,h.ordered.payload,h.ordered.order,h.ordered.awaited,
            fun ht n hn => hr ht n (List.mem_cons_of_mem _ hn),h.ordered.stored⟩
        · intro n hn hfailed ht
          exact hr ht n (by rw [hn, hfailed]; exact List.mem_cons_self)
      · unfold Armed
        rw [(returned_buffer _ _ _).1, (returned_buffer _ _ _).2]
        exact h.armed
  | statDone => exact io_sound _ hok h
  | appendDone => exact io_sound _ hok h
  | renameDone now => exact io_sound _ hok h
  | renameFailed => exact io_sound _ hok h
  | capDone => exact io_sound _ hok h
  | ioFailed written => exact io_sound _ hok h
  | ownerReturns => exact io_sound _ hok h

/-- Along a timely run a filled buffer waits for its timer, and every
`stop` that returns without an error finds what was written before it on
disk exactly once. -/
theorem nothing_stranded (maxSpoolSize : ℕ) (es : List Event)
    (h : Meets (step maxSpoolSize) Timely es created) :
    ∀ pre, pre <+: es → Unstranded (run (step maxSpoolSize) pre created) ∧
      Stored (run (step maxSpoolSize) pre created) := by
  rintro pre ⟨post,rfl⟩
  rw [meets_append] at h
  have hstart : Sound created := ⟨created_ordered,fun hpos => absurd hpos (Nat.lt_irrefl 0)⟩
  have hs : Sound (run (step maxSpoolSize) pre created) :=
    run_invariant (fun s e hok hi => step_sound s e hok hi) pre _ h.1 hstart
  exact ⟨fun hpos _ => hs.armed hpos,hs.ordered.stored⟩

def flushed : List Event := [.statDone,.appendDone,.capDone,.ownerReturns,.waiterReturns]

def lateTimer : List Event :=
  [.write [100],.timerFired,.write [100],.timerFired]++flushed

def lateStop : List Event :=
  [.write [100],.timerFired,.write [100],.stop]++flushed

theorem lines_stranded :
    ¬(∀ pre, pre <+: lateTimer → Unstranded (run (step 1000) pre created)) ∧
      ¬∀ pre, pre <+: lateStop → Stored (run (step 1000) pre created) := by
  constructor
  · intro h
    exact absurd (h lateTimer List.prefix_rfl) (by decide +kernel)
  · intro h
    exact absurd (h lateStop List.prefix_rfl) (by decide +kernel)

def orderly : List Event :=
  [.write [100],.timerFired,.write [100],.statDone,.appendDone,.capDone,.ownerReturns,
    .write [70000],.appendDone,.renameDone 5,.capDone,.ownerReturns,.write [40],.stop,
    .appendDone,.capDone,.ownerReturns]

theorem nothing_stranded_orderly :
    Meets (step 1000) Timely orderly created ∧
      Unstranded (run (step 1000) orderly created) ∧ Stored (run (step 1000) orderly created) := by
  have hm : Meets (step 1000) Timely orderly created := by decide +kernel
  exact ⟨hm,nothing_stranded 1000 orderly hm orderly List.prefix_rfl⟩

end Iotistica.LogSpool
