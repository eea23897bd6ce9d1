import Iotistica.OrderedMap
import Mathlib.Data.Finset.Insert

/-!
# Deduplication of messages

A message is new when `SET key NX` sets its key. The single check asks for
one message. The batch check asks for all of them in one pipeline and maps
each id to an answer, so that of several answers for one id the last one
stays. The commands and their replies are the same in both. The option
`useBloomFilter`, which no caller sets, is left out.
-/

set_option autoImplicit false

namespace Iotistica.Deduplication

structure DedupConfig where
  keyPrefix : String
  gracefulFallback : Bool

def defaultConfig : DedupConfig := ⟨"mqtt:dedup",true⟩

/-- What becomes of a command: it is answered, refused with an error, or
carried out while its answer is lost. -/
inductive Fate where
  | answered
  | refused
  | lost
deriving DecidableEq

/-- `exec` is false when the pipeline answers null or throws. Then none of
its commands is answered. -/
structure Outage where
  ready : Bool
  exec : Bool
  fate : ℕ → Fate
  whole : exec = false → ∀ i, fate i ≠ .answered

def dedupKey (cfg : DedupConfig) (msgId : String) : String := cfg.keyPrefix++":"++msgId

/-- `SET key NX`: whether it answers `OK`, if it answers. -/
def setNx (stored : Finset String) (key : String) : Fate → Option Bool × Finset String
  | .answered => (some (key ∉ stored),insert key stored)
  | .refused => (none,stored)
  | .lost => (none,insert key stored)

def isDuplicateMessage (cfg : DedupConfig) (p : Outage) (i : ℕ) (stored : Finset String)
    (msgId : String) : Bool × Finset String :=
  if !p.ready then (if cfg.gracefulFallback then false else true,stored)
  else
    match setNx stored (dedupKey cfg msgId) (p.fate i) with
    | (some ok,stored) => (!ok,stored)
    | (none,stored) => (if cfg.gracefulFallback then false else true,stored)

/-- The messages handled when each one is checked in turn. -/
def oneByOne (cfg : DedupConfig) (p : Outage) : ℕ → Finset String → List String → List String
  | _, _, [] => []
  | i, stored, msgId::msgIds =>
    let r := isDuplicateMessage cfg p i stored msgId
    (if r.1 then [] else [msgId])++oneByOne cfg p (i+1) r.2 msgIds

def pipelineResults (cfg : DedupConfig) (p : Outage) :
    ℕ → Finset String → List String → List (Option Bool)
  | _, _, [] => []
  | i, stored, msgId::msgIds =>
    let r := setNx stored (dedupKey cfg msgId) (p.fate i)
    r.1::pipelineResults cfg p (i+1) r.2 msgIds

def replyAnswer (cfg : DedupConfig) : Option Bool → Bool
  | some ok => !ok
  | none => if cfg.gracefulFallback then false else true

def allNew (msgIds : List String) : OrderedMap String Bool :=
  OrderedMap.empty.assignAll (msgIds.map (fun msgId => (msgId,false)))

def checkBatchDuplicates (cfg : DedupConfig) (p : Outage) (stored : Finset String)
    (msgIds : List String) : OrderedMap String Bool :=
  if msgIds.isEmpty then .empty
  else if !p.ready then if cfg.gracefulFallback then allNew msgIds else .empty
  else if !p.exec then if cfg.gracefulFallback then allNew msgIds else .empty
  else
    OrderedMap.empty.assignAll
      (msgIds.zip ((pipelineResults cfg p 0 stored msgIds).map (replyAnswer cfg)))

/-- The messages handled when a batch is checked at once. -/
def batched (cfg : DedupConfig) (p : Outage) (stored : Finset String) (msgIds : List String) :
    List String :=
  msgIds.filter (fun msgId => (checkBatchDuplicates cfg p stored msgIds).get? msgId = some false)

def Outage.met (p : Outage) (i : ℕ) : Fate := if p.ready then p.fate i else .refused

/-- The fates of the commands for one id, in order. -/
def fatesOf (p : Outage) (msgId : String) : ℕ → List String → List Fate
  | _, [] => []
  | i, m::ms => (if m = msgId then [p.met i] else [])++fatesOf p msgId (i+1) ms

def answersOf (graceful : Bool) : Bool → List Fate → List Bool
  | _, [] => []
  | stored, .answered::fs => stored::answersOf graceful true fs
  | stored, .refused::fs => (!graceful)::answersOf graceful stored fs
  | _, .lost::fs => (!graceful)::answersOf graceful true fs

/-- The last command for an id fails, or it is the first one carried out,
unless the id is known and all its commands are answered. Where a failure
means a duplicate, an id that is not known needs its last command answered
and no other one carried out. -/
def Agreeing (graceful stored : Bool) (fs : List Fate) : Prop :=
  if graceful then
    if stored then (∀ f ∈ fs, f = .answered) ∨ fs.getLast? ≠ some .answered
    else (∀ f ∈ fs.dropLast, f = .refused) ∨ fs.getLast? ≠ some .answered
  else stored = true ∨ (fs.getLast? = some .answered ∧ ∀ f ∈ fs.dropLast, f = .refused)

def storedAfter (stored : Bool) (fs : List Fate) : Bool := stored || fs.any (· ≠ .refused)

theorem answersOf_append (graceful stored : Bool) (fs : List Fate) (f : Fate) :
    answersOf graceful stored (fs++[f])=answersOf graceful stored fs++
      [if f = .answered then storedAfter stored fs else !graceful] := by
  induction fs generalizing stored with
  | nil => cases f <;> simp [answersOf, storedAfter]
  | cons g fs ih => cases g <;> simp [answersOf, storedAfter, ih]

theorem answersOf_known (fs : List Fate) :
    false ∈ answersOf true true fs ↔ ∃ f ∈ fs, f ≠ .answered := by
  induction fs with
  | nil => simp [answersOf]
  | cons f fs ih => cases f <;> simp [answersOf, ih]

theorem answersOf_strict (fs : List Fate) : false ∉ answersOf false true fs := by
  induction fs with
  | nil => simp [answersOf]
  | cons f fs ih => cases f <;> simp [answersOf, ih]

theorem storedAfter_false (fs : List Fate) :
    storedAfter false fs = false ↔ ∀ f ∈ fs, f = .refused := by
  simp [storedAfter]

theorem lastAnswer (graceful stored : Bool) (fs : List Fate) (f : Fate) :
    (answersOf graceful stored (fs++[f])).getLast? = some false ↔
      if f = .answered then storedAfter stored fs = false else graceful = true := by
  rw [answersOf_append, List.getLast?_concat]
  by_cases hf : f = .answered <;> simp [hf]

theorem agreeing_iff (graceful stored : Bool) {fs : List Fate} (hne : fs ≠ []) :
    (((answersOf graceful stored fs).getLast? = some false ↔
        false ∈ answersOf graceful stored fs) ∧
      (stored = false → (answersOf graceful stored fs).getLast? = some false)) ↔
    Agreeing graceful stored fs := by
  obtain ⟨init,f,rfl⟩ : ∃ init f, fs=init++[f] :=
    ⟨fs.dropLast,fs.getLast hne,(List.dropLast_append_getLast hne).symm⟩
  have hmem : (answersOf graceful stored (init++[f])).getLast? = some false →
      false ∈ answersOf graceful stored (init++[f]) := List.mem_of_getLast?
  have hlast := lastAnswer graceful stored init f
  unfold Agreeing
  rw [List.getLast?_concat, List.dropLast_concat]
  cases stored with
  | false =>
    -- an unknown id has to be handled, and then the last answer is the one that does it
    rw [storedAfter_false] at hlast
    have hdrop : (((answersOf graceful false (init++[f])).getLast? = some false ↔
          false ∈ answersOf graceful false (init++[f])) ∧
        (false = false → (answersOf graceful false (init++[f])).getLast? = some false)) ↔
      (answersOf graceful false (init++[f])).getLast? = some false :=
      ⟨fun h => h.2 rfl,fun h => ⟨iff_of_true h (hmem h),fun _ => h⟩⟩
    rw [hdrop, hlast]
    cases graceful <;> by_cases hf : f = .answered <;> simp [hf]
  | true =>
    cases graceful with
    | false =>
      have hno := answersOf_strict (init++[f])
      simp [hlast, hno, storedAfter]
    | true =>
      rw [hlast, answersOf_known]
      by_cases hf : f = .answered
      · simp only [hf, if_true, storedAfter, Bool.true_or, Bool.true_eq_false, false_iff]
        simp only [List.mem_append, List.mem_singleton, ne_eq, not_exists, not_and, not_not,
          false_imp_iff, not_true, or_false, and_true]
      · simp [hf]

def answers (cfg : DedupConfig) (p : Outage) :
    ℕ → Finset String → List String → List (String × Bool)
  | _, _, [] => []
  | i, stored, m::ms =>
    let r := isDuplicateMessage cfg p i stored m
    (m,r.1)::answers cfg p (i+1) r.2 ms

theorem mem_oneByOne (cfg : DedupConfig) (p : Outage) (i : ℕ) (stored : Finset String)
    (ms : List String) (x : String) :
    x ∈ oneByOne cfg p i stored ms ↔ (x,false) ∈ answers cfg p i stored ms := by
  induction ms generalizing i stored with
  | nil => simp [oneByOne, answers]
  | cons m ms ih =>
    simp only [oneByOne, answers, List.mem_append, List.mem_cons, Prod.mk.injEq, ih]
    cases (isDuplicateMessage cfg p i stored m).1 <;> simp

theorem dedupKey_inj (cfg : DedupConfig) {x y : String} :
    dedupKey cfg x=dedupKey cfg y ↔ x=y := by
  refine ⟨fun h => ?_,fun h => by rw [h]⟩
  have hchars := congrArg String.toList h
  simp only [dedupKey, String.toList_append, List.append_cancel_left_eq] at hchars
  exact String.toList_inj.mp hchars

theorem isDuplicateMessage_eq (cfg : DedupConfig) (p : Outage) (i : ℕ) (stored : Finset String)
    (m : String) : isDuplicateMessage cfg p i stored m=
      match p.met i with
      | .answered => (decide (dedupKey cfg m ∈ stored),insert (dedupKey cfg m) stored)
      | .refused => (!cfg.gracefulFallback,stored)
      | .lost => (!cfg.gracefulFallback,insert (dedupKey cfg m) stored) := by
  unfold isDuplicateMessage Outage.met
  cases p.ready with
  | false => simp
  | true => cases p.fate i <;> simp [setNx]

theorem answers_of (cfg : DedupConfig) (p : Outage) (x : String) (i : ℕ) (stored : Finset String)
    (ms : List String) :
    ((answers cfg p i stored ms).filter (fun a => a.1 = x)).map Prod.snd=
      answersOf cfg.gracefulFallback (decide (dedupKey cfg x ∈ stored)) (fatesOf p x i ms) := by
  induction ms generalizing i stored with
  | nil => rfl
  | cons m ms ih =>
    simp only [answers, fatesOf, isDuplicateMessage_eq]
    by_cases hm : m=x
    · subst hm
      cases p.met i <;> simp [answersOf, ih]
    · have hkey : dedupKey cfg x ≠ dedupKey cfg m := fun h => hm ((dedupKey_inj cfg).mp h).symm
      cases p.met i <;> simp [hm, hkey, ih]

theorem fatesOf_ne (p : Outage) (x : String) (i : ℕ) (ms : List String) :
    x ∈ ms ↔ fatesOf p x i ms ≠ [] := by
  induction ms generalizing i with
  | nil => simp [fatesOf]
  | cons m ms ih =>
    rw [List.mem_cons, ih (i+1)]
    by_cases hm : m=x
    · simp [fatesOf, hm]
    · simp [fatesOf, hm, Ne.symm hm]

theorem get?_assignAll_last (m : OrderedMap String Bool) (es : List (String × Bool)) (x : String) :
    (m.assignAll es).get? x=
      ((((es.filter (fun e => e.1 = x)).map Prod.snd).getLast?) <|> m.get? x) := by
  induction es using List.reverseRecOn with
  | nil => simp [OrderedMap.assignAll]
  | append_singleton es e ih =>
    have hstep : m.assignAll (es++[e])=(m.assignAll es).set e.1 e.2 := by
      simp [OrderedMap.assignAll]
    rw [hstep, OrderedMap.get?_set, ih, List.filter_append]
    by_cases he : e.1=x
    · simp [he]
    · simp [he, Ne.symm he]

theorem pipeline_answers (cfg : DedupConfig) (p : Outage) (hready : p.ready = true) (i : ℕ)
    (stored : Finset String) (ms : List String) :
    ms.zip ((pipelineResults cfg p i stored ms).map (replyAnswer cfg))=
      answers cfg p i stored ms := by
  induction ms generalizing i stored with
  | nil => rfl
  | cons m ms ih =>
    simp only [pipelineResults, answers, List.map_cons, List.zip_cons_cons, ih]
    unfold isDuplicateMessage
    cases p.fate i <;> simp [setNx, replyAnswer, hready]

theorem fallback_answers (cfg : DedupConfig) (p : Outage) (h : p.ready = false ∨ p.exec = false)
    (i : ℕ) (stored : Finset String) (ms : List String) :
    answers cfg p i stored ms=ms.map (fun m => (m,!cfg.gracefulFallback)) := by
  induction ms generalizing i stored with
  | nil => rfl
  | cons m ms ih =>
    have hmet : p.met i ≠ .answered := by
      unfold Outage.met
      rcases h with h | h
      · simp [h]
      · cases p.ready
        · simp
        · simpa using p.whole h i
    simp only [answers, List.map_cons, ih, isDuplicateMessage_eq]
    cases hf : p.met i with
    | answered => exact absurd hf hmet
    | refused => rfl
    | lost => rfl

theorem fallback_get? (cfg : DedupConfig) (p : Outage) (h : p.ready = false ∨ p.exec = false)
    (stored : Finset String) (ms : List String) (x : String) :
    (if cfg.gracefulFallback then allNew ms else .empty).get? x = some false ↔
      (OrderedMap.empty.assignAll (answers cfg p 0 stored ms)).get? x = some false := by
  rw [fallback_answers cfg p h]
  cases hg : cfg.gracefulFallback with
  | true => rfl
  | false =>
    rw [get?_assignAll_last]
    have hall : ∀ b ∈ ((ms.map (fun m => (m,!false))).filter (fun e => e.1 = x)).map Prod.snd,
        b = true := by simp
    cases hl : (((ms.map (fun m => (m,!false))).filter (fun e => e.1 = x)).map
      Prod.snd).getLast? with
    | none => simp [OrderedMap.get?, OrderedMap.empty]
    | some b => simp [OrderedMap.get?, OrderedMap.empty, hall b (List.mem_of_getLast? hl)]

theorem checkBatch_get? (cfg : DedupConfig) (p : Outage) (stored : Finset String)
    (ms : List String) (x : String) : (checkBatchDuplicates cfg p stored ms).get? x = some false ↔
      (((answers cfg p 0 stored ms).filter (fun a => a.1 = x)).map Prod.snd).getLast? =
        some false := by
  have hmap : (OrderedMap.empty.assignAll (answers cfg p 0 stored ms)).get? x = some false ↔
      (((answers cfg p 0 stored ms).filter (fun a => a.1 = x)).map Prod.snd).getLast? =
        some false := by
    rw [get?_assignAll_last]
    simp [OrderedMap.get?, OrderedMap.empty]
  rw [← hmap]
  unfold checkBatchDuplicates
  by_cases hnil : ms=[]
  · subst hnil
    rfl
  rw [if_neg (by simpa using hnil)]
  cases hready : p.ready with
  | false => exact fallback_get? cfg p (.inl hready) stored ms x
  | true =>
    cases hexec : p.exec with
    | false => exact fallback_get? cfg p (.inr hexec) stored ms x
    | true =>
      simp only [Bool.not_true, Bool.false_eq_true, if_false]
      rw [pipeline_answers cfg p hready]

/-- The batch handles the ids that the single checks handle, and every id
that is not known, exactly when the commands for each id are agreeing. -/
theorem batch_agrees_iff (cfg : DedupConfig) (p : Outage) (stored : Finset String)
    (ms : List String) :
    ((∀ x, x ∈ batched cfg p stored ms ↔ x ∈ oneByOne cfg p 0 stored ms) ∧
      ∀ x ∈ ms, dedupKey cfg x ∉ stored → x ∈ batched cfg p stored ms) ↔
    ∀ x ∈ ms, Agreeing cfg.gracefulFallback (decide (dedupKey cfg x ∈ stored))
      (fatesOf p x 0 ms) := by
  have hbatch : ∀ x, x ∈ batched cfg p stored ms ↔ x ∈ ms ∧
      (answersOf cfg.gracefulFallback (decide (dedupKey cfg x ∈ stored))
        (fatesOf p x 0 ms)).getLast? = some false := by
    intro x
    simp only [batched, List.mem_filter, decide_eq_true_eq, checkBatch_get?, answers_of]
  have hone : ∀ x, x ∈ oneByOne cfg p 0 stored ms ↔
      false ∈ answersOf cfg.gracefulFallback (decide (dedupKey cfg x ∈ stored))
        (fatesOf p x 0 ms) := by
    intro x
    rw [mem_oneByOne, ← answers_of]
    simp
  have hlaw := fun x hx => agreeing_iff cfg.gracefulFallback (decide (dedupKey cfg x ∈ stored))
    ((fatesOf_ne p x 0 ms).mp hx)
  constructor
  · rintro ⟨hsame,hnew⟩ x hx
    refine (hlaw x hx).mp ⟨?_,fun hunknown => ((hbatch x).mp (hnew x hx (by simpa using hunknown))).2⟩
    rw [← hone x, ← hsame x, hbatch x]
    exact ⟨fun h => ⟨hx,h⟩,fun h => h.2⟩
  · intro h
    refine ⟨fun x => ?_,fun x hx hunknown => ?_⟩
    · rw [hbatch x, hone x]
      by_cases hx : x ∈ ms
      · rw [and_iff_right hx]
        exact ((hlaw x hx).mpr (h x hx)).1
      · have hnone : fatesOf p x 0 ms = [] := by
          by_contra hne
          exact hx ((fatesOf_ne p x 0 ms).mpr hne)
        simp [hx, hnone, answersOf]
    · exact (hbatch x).mpr ⟨hx,((hlaw x hx).mpr (h x hx)).2 (by simpa using hunknown)⟩

/-- One new message twice in a batch is not handled at all. -/
theorem repeated_new :
    ¬ ∀ (p : Outage) (stored : Finset String) (ms : List String),
      (∀ x, x ∈ batched defaultConfig p stored ms ↔ x ∈ oneByOne defaultConfig p 0 stored ms) ∧
      ∀ x ∈ ms, dedupKey defaultConfig x ∉ stored → x ∈ batched defaultConfig p stored ms := by
  intro h
  have hnew := (h ⟨true,true,fun _ => .answered,nofun⟩ ∅ ["m","m"]).2 "m" (by simp) (by simp)
  exact absurd hnew (by decide +kernel)

end Iotistica.Deduplication
