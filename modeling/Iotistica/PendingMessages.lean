import Iotistica.GuardedRun
import Iotistica.JsText
import Mathlib.Data.List.Sort

/-!
# Messages that wait for a dictionary

A compacted message without a dictionary is put into the device's set, and
each dictionary that arrives starts a replay: it reads the set, hands every
message it read to the general handler, and deletes the set at the end. The
handler may put a message back. Replays and messages come in any order, each
expansion with its own answers from the dictionary store.
-/

set_option autoImplicit false

namespace Iotistica.PendingMessages
open Iotistica.GuardedRun Iotistica.JsText

variable {Dictionary Body Data : Type}

structure Compacted (Body : Type) where
  v : ℤ
  h : Option String
  body : Body
  deriving DecidableEq

structure Reads (Dictionary : Type) where
  dictionary : Option Dictionary
  hash : Option String
  version : Option ℤ

/-- `expandBody` writes the tuples back under the names of a dictionary. -/
structure Config (Dictionary Body Data : Type) where
  deviceUuid : String
  strictVersioning : Bool
  expandBody : Dictionary → Body → Except String Data

def firstEight (s : String) : String := String.ofList (s.toList.take 8)

def hashMismatch (c : Config Dictionary Body Data) (reads : Reads Dictionary)
    (compacted : Compacted Body) : Option String :=
  match compacted.h, reads.hash with
  | some h, some cachedHash =>
    if h ≠ "" ∧ cachedHash ≠ "" ∧ cachedHash ≠ h then
      some ("Dictionary hash mismatch: content differs despite version match (cached: "++
        firstEight cachedHash++"..., message: "++firstEight h++
        "...). Dictionary content corruption detected - device must resync (send full sync to iot/device/"++
        c.deviceUuid++"/meta/dictionary)")
    else none
  | _, _ => none

def versionMismatch (c : Config Dictionary Body Data) (reads : Reads Dictionary)
    (compacted : Compacted Body) : Option String :=
  match reads.version with
  | some cachedVersion =>
    if cachedVersion ≠ compacted.v ∧ c.strictVersioning = true then
      some ("Dictionary version mismatch: message v"++toString compacted.v++", cached v"++
        toString cachedVersion++
        ". Device should resync dictionary (send full sync to iot/device/"++c.deviceUuid++
        "/meta/dictionary)")
    else none
  | none => none

def expandMessage (c : Config Dictionary Body Data) (reads : Reads Dictionary)
    (compacted : Compacted Body) : Except String Data :=
  match reads.dictionary with
  | none =>
    .error ("Cannot expand message: no dictionary for "++c.deviceUuid++
      " (dictionary may have been lost on Redis restart)")
  | some dictionary =>
    match hashMismatch c reads compacted, versionMismatch c reads compacted with
    | some error, _ => .error error
    | none, some error => .error error
    | none, none => c.expandBody dictionary compacted.body

inductive Outcome (Data : Type) where
  | expanded (data : Data)
  | buffered
  | failed (error : String)

/-- How `handleMessage` goes on with a compacted message. -/
def outcome (c : Config Dictionary Body Data) (reads : Reads Dictionary)
    (compacted : Compacted Body) : Outcome Data :=
  match expandMessage c reads compacted with
  | .ok data => .expanded data
  | .error error => if includes error "no dictionary" then .buffered else .failed error

/-- What is written into the set. Two messages that agree in all of it are
one member. -/
structure Member (Body : Type) where
  topic : String
  payload : Compacted Body
  version : ℤ
  timestamp : ℤ
  deriving DecidableEq

def zadd [DecidableEq Body] (pending : List (Member Body)) (m : Member Body) : List (Member Body) :=
  if m ∈ pending then pending
  else pending.orderedInsert (fun a b => a.timestamp ≤ b.timestamp) m

/-- `running` are the replays not at their end, `inHand` the messages they
have not handled yet. `waiting` holds each message that was put into the set
and has since been neither dispatched nor put there again. -/
structure State (Body Data : Type) where
  pending : List (Member Body)
  running : List ℕ
  inHand : List (ℕ × Member Body)
  nextReplay : ℕ
  dispatched : List (String × Data)
  waiting : List (Member Body)

def started : State Body Data := ⟨[],[],[],0,[],[]⟩

inductive Event (Dictionary Body : Type) where
  /-- A compacted message arrives and is handled. -/
  | message (topic : String) (payload : Compacted Body) (reads : Reads Dictionary) (now : ℤ)
  /-- A replay reads the set. -/
  | read
  /-- A replay has handled one of its messages. -/
  | replayed (replay : ℕ) (m : Member Body) (reads : Reads Dictionary) (now : ℤ)
  /-- A replay that has handled all its messages deletes the set. -/
  | cleared (replay : ℕ)

def bufferPendingMessage [DecidableEq Body] (s : State Body Data) (topic : String) (payload : Compacted Body)
    (version now : ℤ) : State Body Data :=
  { s with
    pending := zadd s.pending ⟨topic,payload,version,now⟩
    waiting := ⟨topic,payload,version,now⟩::s.waiting }

def handleMessage [DecidableEq Body] (c : Config Dictionary Body Data) (s : State Body Data) (topic : String)
    (payload : Compacted Body) (reads : Reads Dictionary) (now : ℤ) : State Body Data :=
  match outcome c reads payload with
  | .expanded data => { s with dispatched := s.dispatched++[(topic,data)] }
  | .buffered => bufferPendingMessage s topic payload payload.v now
  | .failed _ => s

def processPendingMessages (s : State Body Data) : State Body Data :=
  if s.pending = [] then s
  else
    { s with
      running := s.nextReplay::s.running
      inHand := s.inHand++s.pending.map (fun m => (s.nextReplay,m))
      nextReplay := s.nextReplay+1 }

def settle [DecidableEq Body] (c : Config Dictionary Body Data) (s : State Body Data) (m : Member Body)
    (reads : Reads Dictionary) : State Body Data :=
  match outcome c reads m.payload with
  | .failed _ => s
  | _ => { s with waiting := s.waiting.filter (· ≠ m) }

def replay [DecidableEq Body] (c : Config Dictionary Body Data) (s : State Body Data) (i : ℕ) (m : Member Body)
    (reads : Reads Dictionary) (now : ℤ) : State Body Data :=
  if (i,m) ∈ s.inHand then
    handleMessage c (settle c { s with inHand := s.inHand.filter (· ≠ (i,m)) } m reads)
      m.topic m.payload reads now
  else s

def AtEnd (s : State Body Data) (i : ℕ) : Prop := i ∈ s.running ∧ ∀ p ∈ s.inHand, p.1 ≠ i

instance (s : State Body Data) (i : ℕ) : Decidable (AtEnd s i) :=
  inferInstanceAs (Decidable (i ∈ s.running ∧ ∀ p ∈ s.inHand, p.1 ≠ i))

def clear (s : State Body Data) (i : ℕ) : State Body Data :=
  if AtEnd s i then { s with pending := [], running := s.running.filter (· ≠ i) } else s

def step [DecidableEq Body] (c : Config Dictionary Body Data) (s : State Body Data) :
    Event Dictionary Body → State Body Data
  | .message topic payload reads now => handleMessage c s topic payload reads now
  | .read => processPendingMessages s
  | .replayed i m reads now => replay c s i m reads now
  | .cleared i => clear s i

def Replaying (s : State Body Data) (m : Member Body) : Prop := ∃ p ∈ s.inHand, p.2 = m

instance [DecidableEq Body] (s : State Body Data) (m : Member Body) : Decidable (Replaying s m) :=
  inferInstanceAs (Decidable (∃ p ∈ s.inHand, p.2 = m))

/-- Every message that waits is in the set or being replayed. -/
def Kept (s : State Body Data) : Prop := ∀ m ∈ s.waiting, m ∈ s.pending ∨ Replaying s m

instance [DecidableEq Body] (s : State Body Data) : Decidable (Kept s) :=
  inferInstanceAs (Decidable (∀ m ∈ s.waiting, m ∈ s.pending ∨ Replaying s m))

/-- What a replay deletes is dispatched, put back under a later time or in
the hands of another replay, and what fails is still in the set or in other
hands. -/
def Spares (c : Config Dictionary Body Data) (s : State Body Data) :
    Event Dictionary Body → Prop
  | .replayed i m reads _ =>
    (i,m) ∈ s.inHand → (∃ error, outcome c reads m.payload = .failed error) → m ∈ s.waiting →
      m ∈ s.pending ∨ ∃ p ∈ s.inHand, p.1 ≠ i ∧ p.2 = m
  | .cleared i => AtEnd s i → ∀ m ∈ s.pending, m ∈ s.waiting → Replaying s m
  | _ => True

variable {c : Config Dictionary Body Data} {s : State Body Data}

theorem kept_read (h : Kept s) : Kept (processPendingMessages s) := by
  unfold processPendingMessages
  split
  · exact h
  · intro m hm
    refine (h m hm).imp id ?_
    rintro ⟨p,hp,hpm⟩
    exact ⟨p,List.mem_append_left _ hp,hpm⟩

theorem kept_clear (i : ℕ) (h : Kept s) : Kept (clear s i) ↔ Spares c s (.cleared i) := by
  unfold clear
  by_cases hend : AtEnd s i
  · rw [if_pos hend]
    simp only [Spares, hend, true_implies]
    constructor
    · intro hk m _ hw
      exact (hk m hw).resolve_left List.not_mem_nil
    · intro hs m hw
      rcases h m hw with hp | hr
      · exact Or.inr (hs m hp hw)
      · exact Or.inr hr
  · rw [if_neg hend]
    exact iff_of_true h (fun hend' => absurd hend' hend)

variable [DecidableEq Body]

theorem mem_zadd {pending : List (Member Body)} {m x : Member Body} :
    x ∈ zadd pending m ↔ x = m ∨ x ∈ pending := by
  unfold zadd
  split
  · next hm =>
    refine ⟨Or.inr,?_⟩
    rintro (rfl | hx)
    · exact hm
    · exact hx
  · exact List.mem_orderedInsert _

theorem kept_buffer {topic : String} {payload : Compacted Body} {version now : ℤ}
    (h : Kept s) : Kept (bufferPendingMessage s topic payload version now) := by
  intro m hm
  rcases List.mem_cons.mp hm with rfl | hm
  · exact Or.inl (mem_zadd.mpr (Or.inl rfl))
  · rcases h m hm with hp | hr
    · exact Or.inl (mem_zadd.mpr (Or.inr hp))
    · exact Or.inr hr

theorem kept_handle {topic : String} {payload : Compacted Body} {reads : Reads Dictionary}
    {now : ℤ} (h : Kept s) : Kept (handleMessage c s topic payload reads now) := by
  unfold handleMessage
  split
  · exact h
  · exact kept_buffer h
  · exact h

theorem replaying_filter {i : ℕ} {m x : Member Body} :
    Replaying { s with inHand := s.inHand.filter (· ≠ (i,m)) } x ↔
      ∃ p ∈ s.inHand, p ≠ (i,m) ∧ p.2 = x := by
  simp only [Replaying, List.mem_filter, decide_eq_true_eq, and_assoc]

theorem replaying_other {i : ℕ} {m x : Member Body} (hx : x ≠ m) (h : Replaying s x) :
    Replaying { s with inHand := s.inHand.filter (· ≠ (i,m)) } x := by
  obtain ⟨p,hp,rfl⟩ := h
  refine replaying_filter.mpr ⟨p,hp,?_,rfl⟩
  rintro rfl
  exact hx rfl

theorem kept_settled {i : ℕ} {m : Member Body} (h : Kept s) :
    Kept { s with
      inHand := s.inHand.filter (· ≠ (i,m))
      waiting := s.waiting.filter (· ≠ m) } := by
  intro x hx
  obtain ⟨hx,hne⟩ := List.mem_filter.mp hx
  exact (h x hx).imp id (replaying_other (by simpa using hne))

theorem kept_failed {i : ℕ} {m : Member Body} (h : Kept s) :
    Kept { s with inHand := s.inHand.filter (· ≠ (i,m)) } ↔
      (m ∈ s.waiting → m ∈ s.pending ∨ ∃ p ∈ s.inHand, p.1 ≠ i ∧ p.2 = m) := by
  have hother : (∃ p ∈ s.inHand, p ≠ (i,m) ∧ p.2 = m) ↔
      ∃ p ∈ s.inHand, p.1 ≠ i ∧ p.2 = m := by
    refine exists_congr (fun p => and_congr_right (fun _ => ?_))
    constructor
    · rintro ⟨hne,rfl⟩
      exact ⟨fun hi => hne (by rw [← hi]),rfl⟩
    · rintro ⟨hne,rfl⟩
      exact ⟨fun hp => hne (by rw [hp]),rfl⟩
  constructor
  · intro hk hm
    exact (hk m hm).imp id (fun hr => hother.mp (replaying_filter.mp hr))
  · intro hsafe x hx
    by_cases hxm : x = m
    · rw [hxm] at hx ⊢
      exact (hsafe hx).imp id (fun hr => replaying_filter.mpr (hother.mpr hr))
    · exact (h x hx).imp id (replaying_other hxm)

theorem kept_replay (i : ℕ) (m : Member Body) (reads : Reads Dictionary) (now : ℤ)
    (h : Kept s) :
    Kept (replay c s i m reads now) ↔ Spares c s (.replayed i m reads now) := by
  unfold replay
  by_cases hin : (i,m) ∈ s.inHand
  · rw [if_pos hin]
    simp only [Spares, hin, true_implies]
    cases ho : outcome c reads m.payload with
    | failed error =>
      simp only [handleMessage, settle, ho]
      rw [kept_failed h]
      exact ⟨fun hs _ => hs,fun hs => hs ⟨error,rfl⟩⟩
    | expanded data =>
      refine iff_of_true (kept_handle ?_) (fun ⟨_,he⟩ => by cases he)
      rw [settle, ho]
      exact kept_settled h
    | buffered =>
      refine iff_of_true (kept_handle ?_) (fun ⟨_,he⟩ => by cases he)
      rw [settle, ho]
      exact kept_settled h
  · rw [if_neg hin]
    exact iff_of_true h (fun hin' => absurd hin' hin)

theorem kept_step (e : Event Dictionary Body) (h : Kept s) :
    Kept (step c s e) ↔ Spares c s e := by
  cases e with
  | message topic payload reads now => exact iff_of_true (kept_handle h) trivial
  | read => exact iff_of_true (kept_read h) trivial
  | replayed i m reads now => exact kept_replay i m reads now h
  | cleared i => exact kept_clear i h

theorem kept_iff (c : Config Dictionary Body Data) (es : List (Event Dictionary Body)) :
    (∀ pre, pre <+: es → Kept (run (step c) pre started)) ↔
      Meets (step c) (Spares c) es started :=
  always_iff_meets (I := fun _ => True) (fun _ _ _ => trivial) (fun _ e _ hk => kept_step e hk) es
    started trivial (fun _ hm => absurd hm List.not_mem_nil)

def lookUp (names : List String) (tuples : List (ℕ × ℤ)) : Except String (List (String × ℤ)) :=
  .ok (tuples.filterMap (fun t => names[t.1]?.map (fun name => (name,t.2))))

def plainConfig : Config (List String) (List (ℕ × ℤ)) (List (String × ℤ)) := ⟨"d-1",true,lookUp⟩

def absent : Reads (List String) := ⟨none,none,none⟩

def present : Reads (List String) := ⟨some ["temperature"],none,some 1⟩

def reading (value : ℤ) : Compacted (List (ℕ × ℤ)) := ⟨1,none,[(0,value)]⟩

/-- The second message finds no dictionary and is put into the set while the
first one is replayed. -/
def overlapping : List (Event (List String) (List (ℕ × ℤ))) :=
  [.message "endpoints" (reading 20) absent 1000,
   .read,
   .message "endpoints" (reading 21) absent 1001,
   .replayed 0 ⟨"endpoints",reading 20,1,1000⟩ present 1002,
   .cleared 0]

theorem late_message_deleted :
    (run (step plainConfig) overlapping started).dispatched = [("endpoints",[("temperature",20)])] ∧
      ¬Kept (run (step plainConfig) overlapping started) := by
  decide +kernel

end Iotistica.PendingMessages
