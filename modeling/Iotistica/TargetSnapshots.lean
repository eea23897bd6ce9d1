import Iotistica.TargetMerge
import Iotistica.KeyedTable
import Iotistica.GuardedRun

/-!
# Snapshots of the target state

The hash of the target is remembered before its snapshot is written, and a
target whose hash is the remembered one is not written. Rows are stamped in
seconds; the order in which a query lists rows of one second is not promised.
-/

set_option autoImplicit false

namespace Iotistica.TargetSnapshots
open Iotistica Iotistica.JsonText Iotistica.KeyedTable Iotistica.GuardedRun
open Iotistica.TargetMerge (isTruthy)

inductive SnapshotType where
  | target
  | current
  | config
  | appsTarget
  deriving DecidableEq

structure StateSnapshotRecord where
  id : ℕ
  type : SnapshotType
  state : String
  stateHash : Option String
  createdAt : ℤ
  deriving DecidableEq

abbrev Store := Table StateSnapshotRecord StateSnapshotRecord.id

/-- `ORDER BY createdAt DESC`. -/
structure NewestFirst where
  order : List StateSnapshotRecord → List StateSnapshotRecord
  perm : ∀ rows, (order rows).Perm rows
  pairwise : ∀ rows, (order rows).Pairwise (fun a b => b.createdAt ≤ a.createdAt)

def ofType (type : SnapshotType) (row : StateSnapshotRecord) : Bool := row.type == type

def getLatest (newest : NewestFirst) (type : SnapshotType) (table : Store) :
    Option StateSnapshotRecord :=
  (newest.order (table.select (ofType type))).head?

def append (type : SnapshotType) (state : String) (stateHash : Option String) (now : ℤ)
    (table : Store) : Store :=
  table.insert (fun id => ⟨id,type,state,stateHash,now⟩) (fun _ => rfl)

def replace (type : SnapshotType) (state : String) (stateHash : Option String) (now : ℤ)
    (table : Store) : Store :=
  append type state stateHash now (table.delete (ofType type))

def appendAndTrim (newest : NewestFirst) (type : SnapshotType) (state : String)
    (stateHash : Option String) (keepCount : ℕ) (now : ℤ) (table : Store) : Store :=
  let table := append type state stateHash now table
  let oldIds := ((newest.order (table.select (ofType type))).drop keepCount).map
    StateSnapshotRecord.id
  table.delete (fun row => oldIds.contains row.id)

/-- The hash of a state, which is never the empty text, and the orders of
the two queries. -/
structure Runtime where
  getStateHash : Value → String
  hash_ne : ∀ state, getStateHash state ≠ ""
  latest : NewestFirst
  trimmed : NewestFirst

/-- How a call of `saveTargetStateToDB` ended. -/
inductive Outcome where
  | skipped
  | written
  | failed
  deriving DecidableEq

/-- `saved` is the outcome of the last call in this process. -/
structure Agent where
  targetState : Value
  lastSavedStateHash : String
  table : Store
  saved : Option Outcome

def fresh (table : Store) : Agent where
  targetState := .obj [("apps",.obj []),("config",.obj [])]
  lastSavedStateHash := ""
  table := table
  saved := none

def ensureConfig (members : Members) : Value :=
  if isTruthy (members.lookup "config") then .obj members
  else .obj (collect (members++[("config",.obj [])]))

section Manager
variable (R : Runtime)

/-- A parsed text that is no object throws when its `config` is set, after
it has become the target and before its hash is read. -/
def loadTargetStateFromDB (s : Agent) : Agent :=
  match getLatest R.latest .target s.table with
  | none => s
  | some row =>
    let stateHash := match row.stateHash with
      | some stateHash => if stateHash = "" then s.lastSavedStateHash else stateHash
      | none => s.lastSavedStateHash
    match parse row.state with
    | none => s
    | some (.obj members) =>
      { s with targetState := ensureConfig members, lastSavedStateHash := stateHash }
    | some (.arr items) => { s with targetState := .arr items, lastSavedStateHash := stateHash }
    | some state => { s with targetState := state }

def saveTargetStateToDB (writes : Bool) (now : ℤ) (s : Agent) : Agent :=
  let stateHash := R.getStateHash s.targetState
  if stateHash = s.lastSavedStateHash then { s with saved := some .skipped }
  else if writes then
    { s with
      lastSavedStateHash := stateHash
      table := appendAndTrim R.trimmed .target (stringify s.targetState) (some stateHash) 2 now
        s.table
      saved := some .written }
  else { s with lastSavedStateHash := stateHash, saved := some .failed }

def setTarget (state : Members) (writes : Bool) (now : ℤ) (s : Agent) : Agent :=
  saveTargetStateToDB R writes now { s with targetState := ensureConfig state }

/-- As `setTarget`, without its events and its reconciliation. -/
def updateTargetStateQuietly (state : Members) (writes : Bool) (now : ℤ) (s : Agent) : Agent :=
  saveTargetStateToDB R writes now { s with targetState := ensureConfig state }

/-- The calls, each with whether its write succeeds and the second in which
it is made; a new process, that may fail to read the database; and what else
is written to the table. -/
inductive Event where
  | setTarget (state : Members) (writes : Bool) (now : ℤ)
  | updateTargetStateQuietly (state : Members) (writes : Bool) (now : ℤ)
  | restart (reads : Bool)
  | saveCurrentState (state stateHash : String) (now : ℤ)
  | replace (type : SnapshotType) (other : type ≠ .target) (state : String)
      (stateHash : Option String) (now : ℤ)

def step (s : Agent) : Event → Agent
  | .setTarget state writes now => setTarget R state writes now s
  | .updateTargetStateQuietly state writes now => updateTargetStateQuietly R state writes now s
  | .restart reads => if reads then loadTargetStateFromDB R (fresh s.table) else fresh s.table
  | .saveCurrentState state stateHash now =>
    { s with table := appendAndTrim R.trimmed .current state (some stateHash) 2 now s.table }
  | .replace type _ state stateHash now =>
    { s with table := replace type state stateHash now s.table }

def newestHash (s : Agent) : Option String :=
  (getLatest R.latest .target s.table).bind StateSnapshotRecord.stateHash

/-- After a call that skipped or wrote, the newest snapshot is of the target. -/
def Honest (s : Agent) : Prop :=
  s.saved = some .skipped ∨ s.saved = some .written →
    newestHash R s = some (R.getStateHash s.targetState)

def Sound (s : Agent) (state : Members) (writes : Bool) (now : ℤ) : Prop :=
  let stateHash := R.getStateHash (ensureConfig state)
  if stateHash = s.lastSavedStateHash then
    s.saved = some .failed → newestHash R s = some stateHash
  else
    writes = true → ∀ row ∈ s.table.select (ofType .target), now ≤ row.createdAt →
      (∀ other ∈ s.table.select (ofType .target), other.createdAt ≤ row.createdAt) →
        row.stateHash = some stateHash

/-- No target is set again right after its write failed, unless the newest
snapshot is of it, and at a write no latest row has the second of the write
or a later one, unless it is of the same target. -/
def Admitted (s : Agent) : Event → Prop
  | .setTarget state writes now => Sound R s state writes now
  | .updateTargetStateQuietly state writes now => Sound R s state writes now
  | _ => True

end Manager

theorem select_append_other {type type' : SnapshotType} (h : type' ≠ type) (state : String)
    (stateHash : Option String) (now : ℤ) (table : Store) :
    (append type' state stateHash now table).select (ofType type) =
      table.select (ofType type) := by
  simp [append, Table.insert, Table.select, ofType, h]

theorem select_replace_other {type type' : SnapshotType} (h : type' ≠ type) (state : String)
    (stateHash : Option String) (now : ℤ) (table : Store) :
    (replace type' state stateHash now table).select (ofType type) =
      table.select (ofType type) := by
  unfold replace
  rw [select_append_other h]
  simp only [Table.select, Table.delete, List.filter_filter]
  apply List.filter_congr
  intro row _
  by_cases htype : row.type = type
  · simp [ofType, htype, Ne.symm h]
  · simp [ofType, htype]

theorem mem_append {type : SnapshotType} {state : String} {stateHash : Option String} {now : ℤ}
    {table : Store} {row : StateSnapshotRecord} :
    row ∈ (append type state stateHash now table).select (ofType type) ↔
      row ∈ table.select (ofType type) ∨ row = ⟨table.next,type,state,stateHash,now⟩ := by
  simp only [append, Table.mem_select, Table.mem_insert]
  constructor
  · rintro ⟨hrow | hrow,htype⟩
    · exact Or.inl ⟨hrow,htype⟩
    · exact Or.inr hrow
  · rintro (⟨hrow,htype⟩ | rfl)
    · exact ⟨Or.inl hrow,htype⟩
    · exact ⟨Or.inr rfl,by simp [ofType]⟩

theorem select_appendAndTrim_other (newest : NewestFirst) {type type' : SnapshotType}
    (h : type' ≠ type) (state : String) (stateHash : Option String) (keepCount : ℕ) (now : ℤ)
    (table : Store) :
    (appendAndTrim newest type' state stateHash keepCount now table).select (ofType type) =
      table.select (ofType type) := by
  rw [← select_append_other h state stateHash now table]
  unfold appendAndTrim
  set inserted := append type' state stateHash now table
  simp only [Table.select, Table.delete, List.filter_filter]
  apply List.filter_congr
  intro row hrow
  by_cases htype : row.type = type
  · have hkept : row.id ∉ ((newest.order (inserted.rows.filter (ofType type'))).map
        StateSnapshotRecord.id).drop keepCount := by
      rw [← List.map_drop]
      intro hid
      obtain ⟨old,hold,hsame⟩ := List.mem_map.mp hid
      have hmem := (newest.perm _).mem_iff.mp (List.mem_of_mem_drop hold)
      obtain ⟨hin,hofType⟩ := List.mem_filter.mp hmem
      obtain rfl := inserted.key_unique hin hrow hsame
      simp only [ofType, htype, beq_iff_eq] at hofType
      exact h hofType.symm
    simp [htype, ofType, hkept]
  · simp [ofType, htype]

theorem getLatest_mem {newest : NewestFirst} {type : SnapshotType} {table : Store}
    {row : StateSnapshotRecord} (h : getLatest newest type table = some row) :
    row ∈ table.select (ofType type) ∧
      ∀ other ∈ table.select (ofType type), other.createdAt ≤ row.createdAt := by
  unfold getLatest at h
  have hperm := newest.perm (table.select (ofType type))
  have hsorted := newest.pairwise (table.select (ofType type))
  cases horder : newest.order (table.select (ofType type)) with
  | nil =>
    rw [horder] at h
    cases h
  | cons first rest =>
    rw [horder] at h hperm hsorted
    obtain rfl := Option.some.inj h
    refine ⟨hperm.mem_iff.mp List.mem_cons_self,?_⟩
    intro other hother
    rcases List.mem_cons.mp (hperm.mem_iff.mpr hother) with rfl | hrest
    · exact le_rfl
    · exact (List.pairwise_cons.mp hsorted).1 other hrest

theorem getLatest_some (newest : NewestFirst) {type : SnapshotType} {table : Store}
    {row : StateSnapshotRecord} (h : row ∈ table.select (ofType type)) :
    ∃ latest, getLatest newest type table = some latest := by
  unfold getLatest
  have hmem := (newest.perm (table.select (ofType type))).mem_iff.mpr h
  cases horder : newest.order (table.select (ofType type)) with
  | nil =>
    rw [horder] at hmem
    cases hmem
  | cons first rest => exact ⟨first,rfl⟩

theorem latest_kept (newest : NewestFirst) (type : SnapshotType) (state : String)
    (stateHash : Option String) (keepCount : ℕ) (now : ℤ) (table : Store)
    {row : StateSnapshotRecord}
    (h : getLatest newest type (append type state stateHash now table) = some row) :
    row ∈ (appendAndTrim newest type state stateHash (keepCount+1) now table).select
      (ofType type) := by
  obtain ⟨hmem,-⟩ := getLatest_mem h
  unfold appendAndTrim
  unfold getLatest at h
  set inserted := append type state stateHash now table
  obtain ⟨hrow,htype⟩ := (Table.mem_select _ _ _).mp hmem
  rw [Table.mem_select, Table.mem_delete]
  refine ⟨⟨hrow,?_⟩,htype⟩
  have hnodup : ((newest.order (inserted.select (ofType type))).map
      StateSnapshotRecord.id).Nodup := by
    rw [((newest.perm _).map StateSnapshotRecord.id).nodup_iff]
    exact inserted.nodup.sublist (List.filter_sublist.map _)
  cases horder : newest.order (inserted.select (ofType type)) with
  | nil =>
    rw [horder] at h
    cases h
  | cons first rest =>
    rw [horder] at h hnodup
    obtain rfl := Option.some.inj h
    rw [List.map_cons, List.nodup_cons] at hnodup
    rw [List.drop_succ_cons, List.contains_eq_mem, decide_eq_false_iff_not, List.map_drop]
    exact fun hdrop => hnodup.1 (List.mem_of_mem_drop hdrop)

theorem getLatest_appendAndTrim (latest newest : NewestFirst) (type : SnapshotType)
    (state : String) (stateHash : Option String) (keepCount : ℕ) (now : ℤ) (table : Store) :
    ∃ row, getLatest latest type
        (appendAndTrim newest type state stateHash (keepCount+1) now table) = some row ∧
      now ≤ row.createdAt ∧
      (∀ other ∈ table.select (ofType type), other.createdAt ≤ row.createdAt) ∧
      (row ∈ table.select (ofType type) ∨ row.stateHash = stateHash) := by
  have hnew : (⟨table.next,type,state,stateHash,now⟩ : StateSnapshotRecord) ∈
      (append type state stateHash now table).select (ofType type) := mem_append.mpr (Or.inr rfl)
  obtain ⟨first,hfirst⟩ := getLatest_some newest hnew
  obtain ⟨-,hmax⟩ := getLatest_mem hfirst
  have hkept := latest_kept newest type state stateHash keepCount now table hfirst
  obtain ⟨row,hrow⟩ := getLatest_some latest hkept
  obtain ⟨hmem,hall⟩ := getLatest_mem hrow
  have hle := hall first hkept
  refine ⟨row,hrow,(hmax _ hnew).trans hle,?_,?_⟩
  · exact fun other hother => (hmax other (mem_append.mpr (Or.inl hother))).trans hle
  · have hin : row ∈ (append type state stateHash now table).select (ofType type) := by
      unfold appendAndTrim at hmem
      rw [Table.mem_select, Table.mem_delete] at hmem
      rw [Table.mem_select]
      exact ⟨hmem.1.1,hmem.2⟩
    rcases mem_append.mp hin with hold | rfl
    · exact Or.inl hold
    · exact Or.inr rfl

section Runs
variable (R : Runtime)

structure Inv (s : Agent) : Prop where
  newest : s.saved ≠ some .failed →
    s.lastSavedStateHash = "" ∨ newestHash R s = some s.lastSavedStateHash
  remembered : s.saved = some .skipped ∨ s.saved = some .written →
    s.lastSavedStateHash = R.getStateHash s.targetState

theorem inv_honest {s : Agent} (h : Inv R s) : Honest R s := by
  intro hsaved
  have hne : s.saved ≠ some .failed := by
    rintro hfailed
    rw [hfailed] at hsaved
    rcases hsaved with h' | h' <;> cases h'
  rw [← h.remembered hsaved]
  rcases h.newest hne with hempty | hnewest
  · rw [h.remembered hsaved] at hempty
    exact (R.hash_ne _ hempty).elim
  · exact hnewest

theorem inv_started (table : Store) (targetState : Value) {remembered : String}
    (h : remembered = "" ∨
      (getLatest R.latest .target table).bind StateSnapshotRecord.stateHash = some remembered) :
    Inv R ⟨targetState,remembered,table,none⟩ where
  newest _ := h
  remembered hsaved := by rcases hsaved with h | h <;> cases h

theorem inv_fresh (table : Store) : Inv R (fresh table) := inv_started R table _ (Or.inl rfl)

theorem inv_load (table : Store) : Inv R (loadTargetStateFromDB R (fresh table)) := by
  unfold loadTargetStateFromDB
  cases hrow : getLatest R.latest .target (fresh table).table with
  | none => exact inv_fresh R table
  | some row =>
    have hhash : ∀ targetState, Inv R
        ⟨targetState,match row.stateHash with
          | some stateHash => if stateHash = "" then "" else stateHash
          | none => "",table,none⟩ := by
      intro targetState
      apply inv_started
      rw [show getLatest R.latest .target table = some row from hrow, Option.bind_some]
      cases row.stateHash with
      | none => exact Or.inl rfl
      | some stateHash =>
        by_cases hempty : stateHash = ""
        · exact Or.inl (if_pos hempty)
        · exact Or.inr (congrArg some (if_neg hempty).symm)
    dsimp only
    split
    · exact inv_fresh R table
    · exact hhash _
    · exact hhash _
    · exact inv_started R table _ (Or.inl rfl)

theorem inv_saveTargetStateToDB {s : Agent} {state : Members} {writes : Bool} {now : ℤ}
    (h : Inv R s) (hsound : Sound R s state writes now) :
    Inv R (saveTargetStateToDB R writes now { s with targetState := ensureConfig state }) := by
  unfold Sound at hsound
  unfold saveTargetStateToDB
  dsimp only at hsound ⊢
  by_cases hskip : R.getStateHash (ensureConfig state) = s.lastSavedStateHash
  · rw [if_pos hskip] at hsound
    rw [if_pos hskip]
    refine ⟨fun _ => ?_,fun _ => hskip.symm⟩
    by_cases hfailed : s.saved = some .failed
    · right
      exact (hsound hfailed).trans (congrArg some hskip)
    · exact h.newest hfailed
  · rw [if_neg hskip] at hsound
    rw [if_neg hskip]
    cases writes with
    | false =>
      rw [if_neg Bool.false_ne_true]
      refine ⟨fun hne => (hne rfl).elim,?_⟩
      intro hsaved
      rcases hsaved with h' | h' <;> cases h'
    | true =>
      rw [if_pos rfl]
      refine ⟨fun _ => Or.inr ?_,fun _ => rfl⟩
      obtain ⟨row,hrow,hnow,hmax,hhash⟩ := getLatest_appendAndTrim R.latest R.trimmed .target
        (stringify (ensureConfig state)) (some (R.getStateHash (ensureConfig state))) 1 now s.table
      show (getLatest R.latest .target _).bind _ = _
      rw [hrow, Option.bind_some]
      rcases hhash with hold | hnew
      · exact hsound rfl row hold hnow hmax
      · exact hnew

theorem inv_table {s : Agent} (h : Inv R s) {table : Store}
    (hselect : table.select (ofType .target) = s.table.select (ofType .target)) :
    Inv R { s with table := table } := by
  have hnewest : newestHash R { s with table := table } = newestHash R s := by
    unfold newestHash getLatest
    dsimp only
    rw [hselect]
  exact ⟨by rw [hnewest]; exact h.newest,h.remembered⟩

theorem inv_step (s : Agent) (e : Event) (hadmitted : Admitted R s e) (h : Inv R s) :
    Inv R (step R s e) := by
  cases e with
  | setTarget state writes now => exact inv_saveTargetStateToDB R h hadmitted
  | updateTargetStateQuietly state writes now => exact inv_saveTargetStateToDB R h hadmitted
  | restart reads =>
    cases reads with
    | false => exact inv_fresh R s.table
    | true => exact inv_load R s.table
  | saveCurrentState state stateHash now =>
    exact inv_table R h (select_appendAndTrim_other R.trimmed (by decide) _ _ _ _ _)
  | replace type other state stateHash now =>
    exact inv_table R h (select_replace_other other _ _ _ _)

/-- In a run in which no target is set again right after its write failed
and no write meets a row of its second or a later one, a call that skips or
writes leaves the newest snapshot of the target. -/
theorem newest_snapshot_is_target (table : Store) (events : List Event)
    (h : Meets (step R) (Admitted R) events (fresh table)) :
    ∀ before after, events = before++after → Honest R (run (step R) before (fresh table)) := by
  rintro before after rfl
  have hbefore := ((meets_append (step R) (Admitted R) before after _).mp h).1
  exact inv_honest R (run_invariant (inv_step R) before _ hbefore (inv_fresh R table))

end Runs

def byCreatedAt : NewestFirst where
  order := List.insertionSort (fun a b => b.createdAt ≤ a.createdAt)
  perm := List.perm_insertionSort _
  pairwise rows := by
    have : Std.Total (fun a b : StateSnapshotRecord => b.createdAt ≤ a.createdAt) :=
      ⟨fun _ _ => le_total _ _⟩
    have : IsTrans StateSnapshotRecord (fun a b => b.createdAt ≤ a.createdAt) :=
      ⟨fun _ _ _ h h' => le_trans h' h⟩
    exact List.pairwise_insertionSort _ rows

/-- States that have a configuration only are told from all others. -/
def coarse : Runtime where
  getStateHash
    | .obj [_] => "configuration"
    | _ => "all"
  hash_ne state := by
    split <;> decide
  latest := byCreatedAt
  trimmed := byCreatedAt

def bare : Members := [("config",.bool true)]

def full : Members := [("apps",.null),("config",.bool true)]

def laterWrites : List Event :=
  [.setTarget bare false 0,.setTarget full true 0,.restart true,
    .updateTargetStateQuietly full true 0,.setTarget bare true 1]

theorem later_writes_are_newest :
    Honest coarse (run (step coarse) laterWrites (fresh Table.empty)) := by
  refine newest_snapshot_is_target coarse Table.empty laterWrites ⟨?_,?_,trivial,?_,?_,trivial⟩
    laterWrites [] (List.append_nil _).symm
  · intro hwrites
    cases hwrites
  · intro _ row hrow
    cases hrow
  · intro hfailed
    cases hfailed
  · intro _ row hrow hnow
    obtain rfl := List.mem_singleton.mp hrow
    cases hnow

/-- A write that failed is not tried again for the same target, and of two
rows of one second the older is taken for the newest. -/
theorem unsaved_target_hidden :
    ¬Honest coarse (run (step coarse) [.setTarget bare false 0,.setTarget bare true 1]
      (fresh Table.empty)) ∧
    ¬Honest coarse (run (step coarse) [.setTarget bare true 0,.setTarget full true 0]
      (fresh Table.empty)) := by
  constructor
  · intro h
    cases h (Or.inl rfl)
  · intro h
    have hnewest := h (Or.inr rfl)
    revert hnewest
    decide

end Iotistica.TargetSnapshots
