import Mathlib.Logic.Function.Basic
import ContainerWS.Install.Queue

/-! The job registry of modules/softwares/install/jobs.go and the
software_installed rows of models/softwareinstalled.go. Log lines, subscribers
and the persisted row of a job have models of their own; here a job is its
identity and its status. -/
namespace ContainerWS.Install
open GoStrings

inductive JobStatus where
  | running
  | success
  | error
  | cancelled
  | dismissed
  deriving DecidableEq, Repr

/- The status values that `installJob.finish` is called with. -/
inductive Terminal where
  | success
  | error
  | cancelled
  deriving DecidableEq, Repr

def Terminal.status : Terminal → JobStatus
  | .success => .success
  | .error => .error
  | .cancelled => .cancelled

structure InstallJob where
  id : UUID
  softwareID : String
  softwareName : String
  versionID : String
  version : String
  status : JobStatus
  message : String
  done : Bool
  deriving DecidableEq, Repr

/- Goroutines keep pointers to jobs, so the job objects live in a heap and
`jobs.byID` is the set of identifiers the map still holds. -/
structure Jobs where
  heap : List InstallJob
  byID : List UUID
  bySoftware : String → Option UUID

def registerJob (jobs : Jobs) (job : InstallJob) : Jobs :=
  ⟨jobs.heap ++ [job],jobs.byID ++ [job.id],
    Function.update jobs.bySoftware job.softwareID (some job.id)⟩

def Jobs.at (jobs : Jobs) (id : UUID) : Option InstallJob := jobs.heap.find? (fun j => j.id == id)

def getJob (jobs : Jobs) (id : UUID) : Option InstallJob :=
  if id ∈ jobs.byID then jobs.at id else none

def getLatestJobForSoftware (jobs : Jobs) (softwareID : String) : Option InstallJob :=
  match jobs.bySoftware softwareID with
  | none => none
  | some id => getJob jobs id

/- The status test of activeJobForSoftware, on the pointer it found before. -/
def Jobs.runningAt (jobs : Jobs) (id : UUID) : Bool :=
  match jobs.at id with
  | none => false
  | some j => j.status == .running

def Jobs.modify (jobs : Jobs) (id : UUID) (f : InstallJob → InstallJob) : Jobs :=
  {jobs with heap := jobs.heap.map (fun j => if j.id = id then f j else j)}

def finishRecord (status : Terminal) (message : String) (j : InstallJob) : InstallJob :=
  {j with status := status.status, message := message, done := true}

/- `installJob.finish`. -/
def Jobs.finish (jobs : Jobs) (id : UUID) (status : Terminal) (message : String) : Jobs :=
  jobs.modify id (finishRecord status message)

def dismissRecord (j : InstallJob) : InstallJob :=
  if j.status = .running then j else {j with status := .dismissed, message := "Dismissed"}

def dismissJob (jobs : Jobs) (id : UUID) : Jobs :=
  if id ∈ jobs.byID then jobs.modify id dismissRecord else jobs

def dismissJobs (jobs : Jobs) (ids : List UUID) : Jobs := ids.foldl dismissJob jobs

/- The delayed deletion that finishJob starts: only a job that is done goes. -/
def pruneJob (jobs : Jobs) (id : UUID) : Jobs :=
  match jobs.at id with
  | none => jobs
  | some j => if j.done then {jobs with byID := jobs.byID.filter (· != id)} else jobs

/- A row of listVisibleJobs: a snapshot with status running or error. -/
structure VisibleJob where
  id : UUID
  softwareID : String
  running : Bool
  deriving DecidableEq, Repr

def visibleJob (j : InstallJob) : Option VisibleJob :=
  match j.status with
  | .running => some ⟨j.id,j.softwareID,true⟩
  | .error => some ⟨j.id,j.softwareID,false⟩
  | _ => none

/- snapshotActiveQueue: the queue rows that are pending, running or failed, then
the visible jobs of software that has no such row and no earlier visible job. -/
def activeRows (items : List QueueItem) : List QueueItem :=
  items.filter (fun it => it.live || it.status == .error)

def mergeJobs (seen : List String) : List VisibleJob → List VisibleJob
  | [] => []
  | j::rest =>
    if j.softwareID ∈ seen then mergeJobs seen rest else j :: mergeJobs (j.softwareID::seen) rest

def mergedJobs (items : List QueueItem) (visible : List VisibleJob) : List VisibleJob :=
  mergeJobs ((activeRows items).map (·.softwareID)) visible

def activePending (items : List QueueItem) (visible : List VisibleJob) : Nat :=
  (activeRows items).countP (·.live) + (mergedJobs items visible).countP (·.running)

inductive PackageManager where
  | packageManagerLocal
  | packageManagerBrew
  deriving DecidableEq, Repr

/- A software_installed row; `deleted` is gorm's soft delete. -/
structure SoftwareInstalled where
  versionID : String
  packageManager : PackageManager
  uninstalled : Bool
  deleted : Bool
  deriving DecidableEq, Repr

abbrev Installed := String → Option SoftwareInstalled

def markSoftwareInstalled (rows : Installed) (softwareID versionID : String) : Installed :=
  if softwareID = "" ∨ versionID = "" then rows
  else Function.update rows softwareID (some ⟨versionID,.packageManagerLocal,false,false⟩)

/- Keeps the row, revives it when it was deleted, and does nothing without one. -/
def markSoftwareUninstalled (rows : Installed) (softwareID : String) : Installed :=
  if softwareID = "" then rows
  else match rows softwareID with
    | none => rows
    | some row => Function.update rows softwareID (some {row with uninstalled := true, deleted := false})

def getSoftwareInstalled (rows : Installed) (softwareID : String) : Option SoftwareInstalled :=
  if softwareID = "" then none else (rows softwareID).filter (fun row => !row.deleted)

def isSoftwareUninstalled (rows : Installed) (softwareID : String) : Bool :=
  match getSoftwareInstalled rows softwareID with
  | none => false
  | some row => row.uninstalled

/- The empty string of the source is `none`. -/
def getSoftwarePackageManager (rows : Installed) (softwareID : String) : Option PackageManager :=
  match getSoftwareInstalled rows softwareID with
  | none => none
  | some row => if row.uninstalled then none else some row.packageManager

theorem jobAtMem {jobs : Jobs} {id : UUID} {j : InstallJob} (found : jobs.at id = some j) :
    j ∈ jobs.heap ∧ j.id = id :=
  ⟨List.mem_of_find?_eq_some found,by simpa using List.find?_some found⟩

theorem memModify {jobs : Jobs} {id : UUID} {f : InstallJob → InstallJob} {j : InstallJob}
    (mem : j ∈ (jobs.modify id f).heap) :
    ∃ old ∈ jobs.heap, j = if old.id = id then f old else old := by
  obtain ⟨old,inside,same⟩ := List.mem_map.mp mem
  exact ⟨old,inside,same.symm⟩

theorem modifyAt (jobs : Jobs) (id other : UUID) (f : InstallJob → InstallJob)
    (keeps : ∀ j, (f j).id = j.id) :
    (jobs.modify id f).at other = (jobs.at other).map (fun j => if j.id = id then f j else j) := by
  simp only [Jobs.at,Jobs.modify]
  induction jobs.heap with
  | nil => rfl
  | cons head tail ih =>
    have same : (if head.id = id then f head else head).id = head.id := by split <;> simp [keeps]
    simp only [List.map_cons,List.find?_cons,same]
    split
    · rfl
    · exact ih

theorem registerAt (jobs : Jobs) (job : InstallJob) {id : UUID} {j : InstallJob}
    (found : jobs.at id = some j) : (registerJob jobs job).at id = some j := by
  simp only [Jobs.at,registerJob,List.find?_append] at found ⊢
  simp [found]

@[simp] theorem dismissRecordID (j : InstallJob) : (dismissRecord j).id = j.id := by
  unfold dismissRecord
  split <;> rfl

theorem terminalNotRunning (t : Terminal) : t.status ≠ .running := by
  cases t <;> simp [Terminal.status]

end ContainerWS.Install
