import Iotistica.GuardedRun

/-!
# The reconcile loop of the state manager

`setTarget` stores a target, persists it and then asks for a pass: through
the debounce timer, or through `pendingReconcile` if a loop is running. A
pass hands the apps to the container manager when it starts and the config
when that returns. A target is known here by the number of the `setTarget`
call that brought it.
-/

set_option autoImplicit false

namespace Iotistica.Reconciler
open Iotistica Iotistica.GuardedRun

/-- The await at which `runReconcileOnce` stands. A settled pass has resolved
or rejected and its loop has not gone on yet. -/
inductive Stage where
  | containers
  | config
  | version
  | saving
  | settled (threw : Bool)
  deriving DecidableEq

structure Pass where
  /-- The target whose apps the pass was started with. -/
  apps : ℕ
  stage : Stage
  deriving DecidableEq

structure StateManager where
  targetState : ℕ
  /-- Calls of `setTarget` that await their save. -/
  saves : ℕ
  isReconciling : Bool
  pendingReconcile : Bool
  reconcileTimer : Bool
  pass : Option Pass
  /-- The last target that one pass was given as a whole. -/
  handed : ℕ
  deriving DecidableEq

def created : StateManager where
  targetState := 0
  saves := 0
  isReconciling := false
  pendingReconcile := false
  reconcileTimer := false
  pass := none
  handed := 0

def startPass (s : StateManager) : StateManager :=
  { s with
    isReconciling := true
    pendingReconcile := false
    pass := some { apps := s.targetState, stage := .containers } }

def reconcile (s : StateManager) : StateManager :=
  if s.isReconciling then { s with pendingReconcile := true } else startPass s

def scheduleReconcile (s : StateManager) : StateManager := { s with reconcileTimer := true }

def setTarget (s : StateManager) : StateManager :=
  { s with targetState := s.targetState+1, saves := s.saves+1 }

/-- `setTarget` goes on after its save. -/
def saveDone (s : StateManager) : StateManager :=
  if s.saves = 0 then s
  else
    let s := { s with saves := s.saves-1 }
    if !s.isReconciling then scheduleReconcile s else { s with pendingReconcile := true }

def atStage (s : StateManager) (p : Pass) (stage : Stage) : StateManager :=
  { s with pass := some { p with stage := stage } }

def containersDone (s : StateManager) (p : Pass) : StateManager :=
  atStage { s with handed := if p.apps = s.targetState then s.targetState else s.handed } p .config

def configDone (s : StateManager) (p : Pass) (isApplying : Bool) : StateManager :=
  if isApplying then atStage (scheduleReconcile s) p (.settled false) else atStage s p .version

/-- The loop takes up the outcome of its pass. An exception leaves it through
`finally`. -/
def loopContinues (s : StateManager) (threw : Bool) : StateManager :=
  if !threw && s.pendingReconcile then startPass s
  else { s with isReconciling := false, pass := none }

inductive Event where
  | setTarget
  | saveDone
  | reconcile
  | timerFired
  | containersDone
  | configDone (isApplying : Bool)
  | versionDone
  | checkpointDone
  | passThrows
  | loopContinues
  deriving DecidableEq

def Stage.running : Stage → Bool
  | .settled _ => false
  | _ => true

def advance (s : StateManager) (p : Pass) : Event → StateManager
  | .containersDone => if p.stage = .containers then containersDone s p else s
  | .configDone isApplying => if p.stage = .config then configDone s p isApplying else s
  | .versionDone => if p.stage = .version then atStage s p .saving else s
  | .checkpointDone => if p.stage = .saving then atStage s p (.settled false) else s
  | .passThrows => if p.stage.running then atStage s p (.settled true) else s
  | .loopContinues =>
    match p.stage with
    | .settled threw => loopContinues s threw
    | _ => s
  | _ => s

def inPass (s : StateManager) (e : Event) : StateManager :=
  match s.pass with
  | none => s
  | some p => advance s p e

def timerFired (s : StateManager) : StateManager :=
  if s.reconcileTimer && s.pass.all (fun p => p.stage.running) then
    reconcile { s with reconcileTimer := false }
  else s

def step (s : StateManager) : Event → StateManager
  | .setTarget => setTarget s
  | .saveDone => saveDone s
  | .reconcile => reconcile s
  | .timerFired => timerFired s
  | e => inPass s e

end Iotistica.Reconciler
