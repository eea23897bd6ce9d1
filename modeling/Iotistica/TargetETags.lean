import Iotistica.StatePoller

/-!
# ETags and the target at hand

A request that carries an ETag is sound when the target is what the response
with that ETag made of some target: the 304 it may bring then leaves the
agent where the server believes it to be. What a response makes of a target
is not changed by receiving it again, so soundness can be read off the
target alone.

It holds in every run in which a poll that has stored an ETag gets as far as
storing the state that came with it.
-/

set_option autoImplicit false

namespace Iotistica.StatePoller
open Iotistica Iotistica.GuardedRun

variable {J : Type}

theorem union_self (m : Members J) : m ∪ m = m := by
  apply Finmap.ext_lookup
  intro key
  by_cases hk : key ∈ m
  · exact Finmap.lookup_union_left hk
  · exact Finmap.lookup_union_right hk

theorem preservedEndpoints_idem (existing cloud : Option (List J)) :
    preservedEndpoints (preservedEndpoints existing cloud) cloud =
      preservedEndpoints existing cloud := by
  by_cases h : cloud.getD [] = [] ∧ existing.getD [] ≠ []
  · have hp : preservedEndpoints existing cloud = some (existing.getD []) := if_pos h
    rw [hp]
    exact if_pos ⟨h.1,h.2⟩
  · have hp : preservedEndpoints existing cloud = cloud := if_neg h
    rw [hp]
    exact if_neg (fun hc => hc.2 hc.1)

theorem mergedFeatures_idem (existing cloud : Option (Members J)) :
    mergedFeatures (mergedFeatures existing cloud) cloud = mergedFeatures existing cloud := by
  cases existing with
  | none =>
    cases cloud with
    | none => rfl
    | some features => exact congrArg some (union_self features)
  | some features =>
    refine congrArg some ?_
    rw [← Finmap.union_assoc, union_self]

theorem newTargetState_idem (t : AgentState J) (d : DeviceState J) :
    newTargetState (newTargetState t d) d = newTargetState t d := by
  have ha : d.config.anomalyDetection.or (d.config.anomalyDetection.or t.config.anomalyDetection) =
      d.config.anomalyDetection.or t.config.anomalyDetection := by
    cases d.config.anomalyDetection <;> rfl
  simp only [newTargetState, preservedEndpoints_idem, mergedFeatures_idem, ha]

theorem received_idem (t : AgentState J) (r : Option (DeviceState J)) :
    received (received t r) r = received t r := by
  cases r with
  | none => rfl
  | some d => exact newTargetState_idem t d

def ResultOf (r : Option (DeviceState J)) (t : AgentState J) : Prop := ∃ t₀, received t₀ r = t

theorem resultOf_iff (r : Option (DeviceState J)) (t : AgentState J) :
    ResultOf r t ↔ received t r = t := by
  constructor
  · rintro ⟨t₀,rfl⟩
    exact received_idem t₀ r
  · exact fun h => ⟨t,h⟩

def SoundAt (t : AgentState J) : Option (Stage J) → Prop
  | some (.requested (some tag)) => ResultOf tag.deviceState t
  | some (.requested none) => True
  | some (.reading _) => True
  | none => True

/-- The request under way carries no ETag but that of a response the target
is the result of. -/
def Sound (s : Agent J) : Prop := SoundAt s.targetState s.poll

def InStep (s : Agent J) : Prop := ∀ tag ∈ s.targetStateETag, ResultOf tag.deviceState s.targetState

def Uncommitted (s : Agent J) : Prop := s.requireFullRefresh = true ∨ s.targetStateETag = none

def NewsAt (t : AgentState J) : Option (Stage J) → Prop
  | some (.reading r) => received t r ≠ t
  | some (.requested _) => False
  | none => False

def BringsNews (s : Agent J) : Prop := NewsAt s.targetState s.poll

def Unconditional (s : Agent J) : Prop :=
  s.requireFullRefresh = true ∧ (s.poll = none ∨ s.poll = some (.requested none))

def Given (etag : Option String) : Prop := ∃ e ∈ etag, e ≠ ""

/-- A 200 carries an ETag, and its news are stored: the body can be read, the
poller still runs and `setTarget` gets to its assignment. `start` finds the
ETag on disk that is in memory, and a 304 to a request without an ETag finds
the target in step with it. -/
def Applied (s : Agent J) : Event J → Prop
  | .start metadataFails => s.isRunning = false → metadataFails = false →
      s.metadata = none ∨ s.metadata = s.targetStateETag ∨ Unconditional s
  | .notModified => s.poll = some (.requested none) → InStep s
  | .okResponse etag _ _ => Given etag ∨ s.targetStateETag = none
  | .bodyFails => BringsNews s → Uncommitted s
  | .bodyRead assigns _ => BringsNews s → (s.isRunning = true ∧ assigns = true) ∨ Uncommitted s
  | _ => True

def TrackedAt (s : Agent J) : Option (Stage J) → Prop
  | some (.requested (some tag)) => s.targetStateETag = some tag ∧ InStep s
  | some (.requested none) => s.requireFullRefresh = false → InStep s
  | some (.reading r) => ∀ tag ∈ s.targetStateETag, tag.deviceState = r
  | none => s.requireFullRefresh = false → InStep s

def Tracked (s : Agent J) : Prop := TrackedAt s s.poll

theorem Tracked.sound {s : Agent J} (h : Tracked s) : Sound s := by
  rw [Tracked] at h
  rw [Sound]
  cases hp : s.poll with
  | none => trivial
  | some stage =>
    rw [hp] at h
    cases stage with
    | reading r => trivial
    | requested sent =>
      cases sent with
      | none => trivial
      | some tag => exact h.2 tag h.1

theorem tracked_of_full {s : Agent J} (h : Unconditional s) : Tracked s := by
  obtain ⟨hf,hp | hp⟩ := h
  · rw [Tracked, hp]
    exact fun hn => absurd (hf.symm.trans hn) Bool.noConfusion
  · rw [Tracked, hp]
    exact fun hn => absurd (hf.symm.trans hn) Bool.noConfusion

theorem tracked_idle {s : Agent J} (hp : s.poll = none)
    (h : s.requireFullRefresh = false → InStep s) : Tracked s := by
  rw [Tracked, hp]
  exact h

theorem Tracked.of_eq {s s' : Agent J} (h : Tracked s) (hp : s'.poll = s.poll)
    (hf : s'.requireFullRefresh = false → s.requireFullRefresh = false)
    (he : s'.targetStateETag = s.targetStateETag) (ht : s'.targetState = s.targetState) :
    Tracked s' := by
  have hin : InStep s → InStep s' := by
    intro h tag htag
    rw [he] at htag
    rw [ht]
    exact h tag htag
  rw [Tracked] at h ⊢
  rw [hp]
  cases hs : s.poll with
  | none =>
    rw [hs] at h
    exact fun hn => hin (h (hf hn))
  | some stage =>
    rw [hs] at h
    cases stage with
    | reading r =>
      intro tag htag
      rw [he] at htag
      exact h tag htag
    | requested sent =>
      cases sent with
      | none => exact fun hn => hin (h (hf hn))
      | some tag => exact ⟨he.trans h.1,hin h.2⟩

theorem inStep_of_none {s : Agent J} (h : s.targetStateETag = none) : InStep s := by
  intro tag htag
  rw [h] at htag
  exact absurd htag (Option.not_mem_none tag)

theorem tracked_booted (noApps : J) (metadata : Option (Tag J)) (snapshot : Option (AgentState J))
    (snapshotFails : Bool) : Tracked (booted noApps metadata snapshot snapshotFails) :=
  tracked_of_full ⟨rfl,.inl rfl⟩

theorem tracked_start (s : Agent J) (metadataFails : Bool) (h : Tracked s)
    (hok : Applied s (.start metadataFails)) : Tracked (start s metadataFails) := by
  rw [start]
  by_cases hr : s.isRunning = true
  · rw [if_pos hr]
    exact h
  rw [if_neg hr]
  cases metadataFails with
  | true => exact h.of_eq rfl id rfl rfl
  | false =>
    rcases hok (Bool.not_eq_true _ ▸ hr) rfl with hm | hm | hm
    · refine h.of_eq rfl id ?_ rfl
      show s.metadata.or s.targetStateETag = _
      rw [hm, Option.none_or]
    · refine h.of_eq rfl id ?_ rfl
      show s.metadata.or s.targetStateETag = _
      rw [hm, Option.or_self]
    · exact tracked_of_full hm

theorem pollTargetState_idle (s : Agent J) (hp : s.poll = none) :
    pollTargetState s = { s with poll := some (.requested (ifNoneMatch s)) } := by
  rw [pollTargetState, hp]

theorem trackedAt_requested (s : Agent J) (sent : Option (Tag J)) (hs : s.targetStateETag = sent)
    (hin : InStep s) :
    TrackedAt { s with poll := some (.requested sent) } (some (.requested sent)) := by
  cases sent with
  | none => exact fun _ => hin
  | some tag => exact ⟨hs,hin⟩

theorem tracked_pollTargetState (s : Agent J) (h : Tracked s) : Tracked (pollTargetState s) := by
  cases hp : s.poll with
  | some stage =>
    rw [pollTargetState, hp]
    exact h
  | none =>
    rw [Tracked, hp] at h
    rw [pollTargetState_idle s hp]
    show TrackedAt _ (some (.requested (ifNoneMatch s)))
    rw [ifNoneMatch]
    by_cases hf : s.requireFullRefresh = true
    · rw [if_pos hf]
      exact fun hn => absurd (hf.symm.trans hn) Bool.noConfusion
    · rw [if_neg hf]
      exact trackedAt_requested s _ rfl (h (Bool.not_eq_true _ ▸ hf))

theorem tracked_pollNow (s : Agent J) (forceFullRefresh circuitOpen : Bool) (h : Tracked s) :
    Tracked (pollNow s forceFullRefresh circuitOpen) := by
  have hs : Tracked { s with requireFullRefresh := forceFullRefresh || s.requireFullRefresh } :=
    h.of_eq rfl (fun hn => (Bool.or_eq_false_iff.mp hn).2) rfl rfl
  rw [pollNow]
  split
  · exact hs
  · exact tracked_pollTargetState _ hs

theorem tracked_notModified (s : Agent J) (sent : Option (Tag J)) (h : Tracked s)
    (hp : s.poll = some (.requested sent)) (hok : Applied s .notModified) :
    Tracked { s with requireFullRefresh := false, poll := none } := by
  refine tracked_idle rfl (fun _ => ?_)
  rw [Tracked, hp] at h
  cases sent with
  | none => exact hok hp
  | some tag => exact h.2

theorem tracked_requestFails (s : Agent J) (sent : Option (Tag J)) (h : Tracked s)
    (hp : s.poll = some (.requested sent)) : Tracked { s with poll := none } := by
  refine tracked_idle rfl (fun hf => ?_)
  rw [Tracked, hp] at h
  cases sent with
  | none => exact h hf
  | some tag => exact h.2

theorem tracked_okResponse (s : Agent J) (etag : Option String) (r : Option (DeviceState J))
    (persistFails : Bool) (hok : Applied s (.okResponse etag r persistFails)) :
    Tracked (okResponse s etag r persistFails) := by
  show ∀ tag ∈ (storeETag s etag r persistFails).targetStateETag, tag.deviceState = r
  intro tag htag
  rcases hok with ⟨e,he,hne⟩ | hn
  · rw [Option.mem_def.mp he, storeETag, if_neg hne] at htag
    cases htag
    rfl
  · cases etag with
    | none =>
      rw [storeETag, hn] at htag
      exact absurd htag (Option.not_mem_none tag)
    | some e =>
      rw [storeETag] at htag
      split at htag
      · rw [hn] at htag
        exact absurd htag (Option.not_mem_none tag)
      · cases htag
        rfl

theorem inStep_of_no_news (s : Agent J) (r : Option (DeviceState J)) (h : Tracked s)
    (hp : s.poll = some (.reading r)) (hn : received s.targetState r = s.targetState) : InStep s := by
  rw [Tracked, hp] at h
  intro tag htag
  rw [h tag htag]
  exact ⟨_,hn⟩

theorem inStep_unless_news (s : Agent J) (r : Option (DeviceState J)) (h : Tracked s)
    (hp : s.poll = some (.reading r)) (hok : BringsNews s → Uncommitted s)
    (hf : s.requireFullRefresh = false) : InStep s := by
  by_cases hn : received s.targetState r = s.targetState
  · exact inStep_of_no_news s r h hp hn
  · have hb : BringsNews s := by
      rw [BringsNews, hp]
      exact hn
    rcases hok hb with h1 | h1
    · rw [hf] at h1
      cases h1
    · exact inStep_of_none h1

variable [DecidableEq J]

theorem targetState_saveTargetStateToDB (s : Agent J) (saveFails : Bool) :
    (saveTargetStateToDB s saveFails).targetState = s.targetState := by
  rw [saveTargetStateToDB]
  split <;> rfl

theorem targetStateETag_saveTargetStateToDB (s : Agent J) (saveFails : Bool) :
    (saveTargetStateToDB s saveFails).targetStateETag = s.targetStateETag := by
  rw [saveTargetStateToDB]
  split <;> rfl

theorem poll_saveTargetStateToDB (s : Agent J) (saveFails : Bool) :
    (saveTargetStateToDB s saveFails).poll = s.poll := by
  rw [saveTargetStateToDB]
  split <;> rfl

theorem tracked_setTarget (s : Agent J) (d : DeviceState J) (saveFails : Bool) (hp : s.poll = none)
    (he : ∀ tag ∈ s.targetStateETag, tag.deviceState = some d) :
    Tracked (setTarget s (newTargetState s.targetState d) saveFails) := by
  refine tracked_idle ?_ (fun _ => ?_)
  · rw [setTarget, poll_saveTargetStateToDB]
    exact hp
  · intro tag htag
    rw [setTarget, targetStateETag_saveTargetStateToDB] at htag
    rw [setTarget, targetState_saveTargetStateToDB, he tag htag]
    exact ⟨s.targetState,rfl⟩

theorem tracked_bodyRead (s : Agent J) (r : Option (DeviceState J)) (assigns saveFails : Bool)
    (h : Tracked s) (hp : s.poll = some (.reading r))
    (hok : Applied s (.bodyRead assigns saveFails)) : Tracked (bodyRead s r assigns saveFails) := by
  cases r with
  | none => exact tracked_idle rfl (fun _ => inStep_of_no_news s none h hp rfl)
  | some d =>
    rw [bodyRead]
    dsimp only
    by_cases hn : newTargetState s.targetState d = s.targetState
    · rw [if_pos hn]
      exact tracked_idle rfl (fun _ => inStep_of_no_news s (some d) h hp hn)
    rw [if_neg hn]
    by_cases ha : (s.isRunning && assigns) = true
    · rw [if_pos ha]
      rw [Tracked, hp] at h
      exact tracked_setTarget { s with poll := none, currentVersion := targetVersion d.version } d
        saveFails rfl h
    · rw [if_neg ha]
      refine tracked_idle rfl (inStep_unless_news s (some d) h hp (fun hb => ?_))
      rcases hok hb with hc | hc
      · exact absurd (Bool.and_eq_true_iff.mpr hc) ha
      · exact hc

theorem tracked_answered (s : Agent J) (stage : Stage J) (e : Event J) (h : Tracked s)
    (hp : s.poll = some stage) (hok : Applied s e) : Tracked (answered s stage e) := by
  cases stage with
  | requested sent =>
    cases e with
    | notModified => exact tracked_notModified s sent h hp hok
    | requestFails => exact tracked_requestFails s sent h hp
    | okResponse etag r persistFails => exact tracked_okResponse s etag r persistFails hok
    | _ => exact h
  | reading r =>
    cases e with
    | bodyFails => exact tracked_idle rfl (inStep_unless_news s r h hp hok)
    | bodyRead assigns saveFails => exact tracked_bodyRead s r assigns saveFails h hp hok
    | _ => exact h

theorem tracked_inPoll (s : Agent J) (e : Event J) (h : Tracked s) (hok : Applied s e) :
    Tracked (inPoll s e) := by
  rw [inPoll]
  cases hp : s.poll with
  | none => exact h
  | some stage => exact tracked_answered s stage e h hp hok

theorem tracked_step (noApps : J) (s : Agent J) (e : Event J) (hok : Applied s e) (h : Tracked s) :
    Tracked (step noApps s e) := by
  cases e with
  | start metadataFails => exact tracked_start s metadataFails h hok
  | stop => exact h.of_eq rfl id rfl rfl
  | loop =>
    rw [step]
    split
    · exact tracked_pollTargetState s h
    · exact h
  | pollNow forceFullRefresh circuitOpen => exact tracked_pollNow s forceFullRefresh circuitOpen h
  | restart snapshotFails => exact tracked_booted noApps _ _ snapshotFails
  | _ => exact tracked_inPoll s _ h hok

/-- Whenever a request carries an ETag, and until it is answered, the target
is the result of having applied the response that carried the ETag. -/
theorem etags_sound (noApps : J) (es : List (Event J))
    (h : Meets (step noApps) Applied es (installed noApps)) :
    ∀ pre, pre <+: es → Sound (run (step noApps) pre (installed noApps)) := by
  rintro pre ⟨post,rfl⟩
  rw [meets_append] at h
  have ht := run_invariant (fun s e hok hi => tracked_step noApps s e hok hi) pre
    (installed noApps) h.1 (tracked_booted noApps none none false)
  exact ht.sound

instance (r : Option (DeviceState J)) (t : AgentState J) : Decidable (ResultOf r t) :=
  decidable_of_iff' _ (resultOf_iff r t)

instance (t : AgentState J) : (poll : Option (Stage J)) → Decidable (SoundAt t poll)
  | some (.requested (some tag)) => inferInstanceAs (Decidable (ResultOf tag.deviceState t))
  | some (.requested none) => .isTrue trivial
  | some (.reading _) => .isTrue trivial
  | none => .isTrue trivial

instance (s : Agent J) : Decidable (Sound s) := inferInstanceAs (Decidable (SoundAt _ _))

instance (s : Agent J) : Decidable (InStep s) :=
  inferInstanceAs (Decidable (∀ tag ∈ s.targetStateETag, ResultOf tag.deviceState s.targetState))

instance (t : AgentState J) : (poll : Option (Stage J)) → Decidable (NewsAt t poll)
  | some (.reading r) => inferInstanceAs (Decidable (received t r ≠ t))
  | some (.requested _) => .isFalse id
  | none => .isFalse id

instance (s : Agent J) : Decidable (BringsNews s) := inferInstanceAs (Decidable (NewsAt _ _))

instance (s : Agent J) : Decidable (Uncommitted s) := inferInstanceAs (Decidable (_ ∨ _))

instance (s : Agent J) : Decidable (Unconditional s) := inferInstanceAs (Decidable (_ ∧ (_ ∨ _)))

instance (etag : Option String) : Decidable (Given etag) :=
  inferInstanceAs (Decidable (∃ e ∈ etag, e ≠ ""))

instance (s : Agent J) : (e : Event J) → Decidable (Applied s e)
  | .start metadataFails => inferInstanceAs (Decidable (s.isRunning = false →
      metadataFails = false → s.metadata = none ∨ s.metadata = s.targetStateETag ∨ Unconditional s))
  | .notModified => inferInstanceAs (Decidable (s.poll = some (.requested none) → InStep s))
  | .okResponse etag _ _ => inferInstanceAs (Decidable (Given etag ∨ s.targetStateETag = none))
  | .bodyFails => inferInstanceAs (Decidable (BringsNews s → Uncommitted s))
  | .bodyRead assigns _ => inferInstanceAs (Decidable
      (BringsNews s → (s.isRunning = true ∧ assigns = true) ∨ Uncommitted s))
  | .stop => .isTrue trivial
  | .loop => .isTrue trivial
  | .pollNow _ _ => .isTrue trivial
  | .requestFails => .isTrue trivial
  | .restart _ => .isTrue trivial

def deployed (apps : ℕ) : DeviceState ℕ where
  version := some 2
  apps := apps
  config := { endpoints := some [7], anomalyDetection := none, features := some ∅, other := ∅ }

/-- A state is polled and confirmed by a 304, a request fails, and a restart
loads the ETag for a full refresh and a request with it. -/
def orderlyRun : List (Event ℕ) :=
  [.start false,.loop,.okResponse (some "v2") (some (deployed 5)) false,.bodyRead true false,
    .loop,.notModified,.loop,.requestFails,.restart false,.start false,.loop,
    .okResponse (some "v2") (some (deployed 5)) true,.bodyRead true false,.loop]

theorem etags_sound_orderlyRun : Meets (step 0) Applied orderlyRun (installed 0) ∧
    Sound (run (step 0) orderlyRun (installed 0)) :=
  have h : Meets (step 0) Applied orderlyRun (installed 0) := by decide +kernel
  ⟨h,etags_sound 0 orderlyRun h orderlyRun List.prefix_rfl⟩

/-- The body of a response is cut off after its ETag has been stored: the
next request carries the ETag of a state that was never applied. -/
theorem etag_without_state : ¬∀ es : List (Event ℕ), ∀ pre, pre <+: es →
    Sound (run (step 0) pre (installed 0)) := by
  intro h
  exact absurd (h [.start false,.loop,.okResponse (some "v2") (some (deployed 5)) false,.bodyFails,
    .loop] _ List.prefix_rfl) (by decide +kernel)

end Iotistica.StatePoller
