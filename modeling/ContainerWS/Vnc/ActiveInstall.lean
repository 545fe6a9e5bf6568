import Mathlib.Data.List.Basic

/-! The active-install record of modules/vncnovnc/install/setup/reconcile.go.
`activeInst` is a pointer: goroutines keep the record they made or read after
another one has replaced it, so records live in a heap and are never removed.
Messages, start times and log lines are for display and left out. -/
namespace ContainerWS.Vnc

inductive SetupStatus where
  | running
  | success
  | error
  | cancelled
  deriving DecidableEq, Repr

inductive Phase where
  | idle
  | waitingQueue
  | installing
  deriving DecidableEq, Repr

structure ActiveInstall where
  jobID : Nat
  status : SetupStatus
  phase : Phase
  auto : Bool
  deriving DecidableEq, Repr

structure Record where
  heap : List ActiveInstall
  activeInst : Option Nat
  deriving DecidableEq, Repr

def Record.running (r : Record) (p : Nat) : Bool :=
  match r.heap[p]? with
  | none => false
  | some a => a.status == .running

/- The test under `activeMu` of StartBackgroundInstall and BindHTTPJob. -/
def Record.activeRunning (r : Record) : Bool :=
  match r.activeInst with
  | none => false
  | some p => r.running p

/- `activeInst = inst` for a record made with status running. -/
def Record.store (r : Record) (jobID : Nat) (auto : Bool) : Record :=
  ⟨r.heap ++ [⟨jobID,.running,.waitingQueue,auto⟩],some r.heap.length⟩

/- BindHTTPJob: declines silently while a record is running. -/
def bindHTTPJob (r : Record) (jobID : Nat) (auto : Bool) : Record :=
  if r.activeRunning then r else r.store jobID auto

def Record.modify (r : Record) (p : Nat) (f : ActiveInstall → ActiveInstall) : Record :=
  {r with heap := r.heap.modify p f}

def ActiveInstall.setPhase (phase : Phase) (a : ActiveInstall) : ActiveInstall := {a with phase := phase}

def ActiveInstall.finish (status : SetupStatus) (a : ActiveInstall) : ActiveInstall :=
  {a with status := status, phase := .idle}

def Record.setPhase (r : Record) (p : Nat) (phase : Phase) : Record := r.modify p (.setPhase phase)

def Record.finish (r : Record) (p : Nat) (status : SetupStatus) : Record := r.modify p (.finish status)

/- The helpers for the HTTP job act on the record they find only when it is theirs. -/
def Record.same (r : Record) (p jobID : Nat) : Bool :=
  match r.heap[p]? with
  | none => false
  | some a => a.jobID == jobID

def setHTTPJobPhase (r : Record) (p jobID : Nat) (phase : Phase) : Record :=
  if r.same p jobID then r.setPhase p phase else r

def finishHTTPJob (r : Record) (p jobID : Nat) (status : SetupStatus) : Record :=
  if r.same p jobID then r.finish p status else r

/- PackageManagerHeld on the record that GetActiveInstall found. -/
def packageManagerHeld (r : Record) : Option Nat → Bool
  | none => false
  | some p =>
    match r.heap[p]? with
    | none => false
    | some a => a.status == .running && a.phase == .installing

@[simp] theorem storeActive (r : Record) (jobID : Nat) (auto : Bool) :
    (r.store jobID auto).activeInst = some r.heap.length := rfl

@[simp] theorem storeAt (r : Record) (jobID : Nat) (auto : Bool) :
    (r.store jobID auto).heap[r.heap.length]? = some ⟨jobID,.running,.waitingQueue,auto⟩ := by
  simp [Record.store]

@[simp] theorem modifyActive (r : Record) (p : Nat) (f : ActiveInstall → ActiveInstall) :
    (r.modify p f).activeInst = r.activeInst := rfl

theorem modifyAt (r : Record) (p q : Nat) (f : ActiveInstall → ActiveInstall) :
    (r.modify p f).heap[q]? = if p = q then (r.heap[q]?).map f else r.heap[q]? := by
  simp only [Record.modify,List.getElem?_modify]
  split
  · rfl
  · simp

end ContainerWS.Vnc
