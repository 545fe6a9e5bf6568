import ContainerWS.System

/-! A job that has stopped stays stopped, and a call of runSoftwareScript is
over only after its job has. So the status a row is finished with is never
pending or running. -/
namespace ContainerWS.Install
open Interleaving GoStrings

def Jobs.known (jobs : Jobs) (id : UUID) : Prop := ∃ j, jobs.at id = some j

def Jobs.stopped (jobs : Jobs) (id : UUID) : Prop := ∃ j, jobs.at id = some j ∧ j.status ≠ .running

/- Later registries know what earlier ones knew and restart nothing. -/
def Jobs.le (jobs later : Jobs) : Prop :=
  ∀ id j, jobs.at id = some j → ∃ j', later.at id = some j' ∧ (j.status ≠ .running → j'.status ≠ .running)

theorem jobsLeRefl (jobs : Jobs) : jobs.le jobs := fun _ j found => ⟨j,found,fun stopped => stopped⟩

theorem jobsLeTrans {a b c : Jobs} (first : a.le b) (second : b.le c) : a.le c := by
  intro id j found
  obtain ⟨j',later,keeps⟩ := first id j found
  obtain ⟨j'',last,keeps'⟩ := second id j' later
  exact ⟨j'',last,fun stopped => keeps' (keeps stopped)⟩

theorem jobsLeKnown {jobs later : Jobs} {id : UUID} (le : jobs.le later) (known : jobs.known id) :
    later.known id := by
  obtain ⟨j,found⟩ := known
  obtain ⟨j',later,_⟩ := le id j found
  exact ⟨j',later⟩

theorem jobsLeStopped {jobs later : Jobs} {id : UUID} (le : jobs.le later) (stopped : jobs.stopped id) :
    later.stopped id := by
  obtain ⟨j,found,notRunning⟩ := stopped
  obtain ⟨j',later,keeps⟩ := le id j found
  exact ⟨j',later,keeps notRunning⟩

theorem modifyLe (jobs : Jobs) (id : UUID) {f : InstallJob → InstallJob} (same : ∀ j, (f j).id = j.id)
    (keeps : ∀ j, j.status ≠ .running → (f j).status ≠ .running) : jobs.le (jobs.modify id f) := by
  intro other j found
  refine ⟨if j.id = id then f j else j,?_,?_⟩
  · rw [modifyAt jobs id other f same,found]
    rfl
  · intro stopped
    split
    · exact keeps j stopped
    · exact stopped

theorem dismissKeeps (j : InstallJob) (stopped : j.status ≠ .running) :
    (dismissRecord j).status ≠ .running := by
  simp [dismissRecord,stopped]

theorem dismissJobLe (jobs : Jobs) (id : UUID) : jobs.le (dismissJob jobs id) := by
  unfold dismissJob
  split
  · exact modifyLe jobs id dismissRecordID dismissKeeps
  · exact jobsLeRefl jobs

theorem dismissJobsLe (jobs : Jobs) (ids : List UUID) : jobs.le (dismissJobs jobs ids) := by
  induction ids generalizing jobs with
  | nil => exact jobsLeRefl jobs
  | cons id ids ih => exact jobsLeTrans (dismissJobLe jobs id) (ih (dismissJob jobs id))

theorem finishLe (jobs : Jobs) (id : UUID) (status : Terminal) (message : String) :
    jobs.le (jobs.finish id status message) :=
  modifyLe jobs id (fun _ => rfl) (fun _ _ => terminalNotRunning status)

theorem finishStopped {jobs : Jobs} {id : UUID} (status : Terminal) (message : String)
    (known : jobs.known id) : (jobs.finish id status message).stopped id := by
  obtain ⟨j,found⟩ := known
  refine ⟨finishRecord status message j,?_,terminalNotRunning status⟩
  rw [Jobs.finish,modifyAt jobs id id (finishRecord status message) (fun _ => rfl),found]
  simp [(jobAtMem found).2]

theorem registerLe (jobs : Jobs) (job : InstallJob) : jobs.le (registerJob jobs job) :=
  fun _ j found => ⟨j,registerAt jobs job found,fun stopped => stopped⟩

theorem registerKnown (jobs : Jobs) (job : InstallJob) : (registerJob jobs job).known job.id := by
  cases old : jobs.at job.id with
  | some j => exact ⟨j,registerAt jobs job old⟩
  | none =>
    refine ⟨job,?_⟩
    simp only [Jobs.at,registerJob,List.find?_append] at old ⊢
    simp [old]

theorem pruneAt (jobs : Jobs) (id other : UUID) : (pruneJob jobs id).at other = jobs.at other := by
  unfold pruneJob
  split
  · rfl
  · split <;> rfl

theorem pruneLe (jobs : Jobs) (id : UUID) : jobs.le (pruneJob jobs id) :=
  fun other j found => ⟨j,(pruneAt jobs id other).trans found,fun stopped => stopped⟩

theorem scriptLe {s s' : Shared} {run : ScriptRun} {point : Option ScriptPoint}
    (step : run.Step s s' point) : s.jobs.le s'.jobs := by
  cases step with
  | finish here => exact finishLe s.jobs run.job _ _
  | _ => exact jobsLeRefl s.jobs

theorem stepLe {m : CaseMap} {k : Choice} {s s' : Shared} {t g : Goroutine} {new : List Goroutine}
    (stepped : next m k s t = some (s',g,new)) : s.jobs.le s'.jobs := by
  cases t with
  | request r =>
    cases Request.steps stepped with
    | quiet ids before after => exact dismissJobsLe s.jobs ids
    | dismissRows ids after => exact dismissJobsLe s.jobs ids
    | _ => exact jobsLeRefl s.jobs
  | worker w =>
    cases Worker.steps stepped with
    | register => exact registerLe s.jobs _
    | script inner => exact scriptLe inner
    | scripted inner => exact scriptLe inner
    | _ => exact jobsLeRefl s.jobs
  | stream v =>
    cases Stream.steps stepped with
    | register => exact registerLe s.jobs _
    | _ => exact jobsLeRefl s.jobs
  | install run =>
    cases installSteps stepped with
    | script inner => exact scriptLe inner
    | scripted inner => exact scriptLe inner
  | prune job =>
    cases stepped
    exact pruneLe s.jobs job
  | setup v =>
    obtain ⟨_,jobs,_⟩ := setupFrame stepped
    rw [jobs]
    exact jobsLeRefl s.jobs
  | done => contradiction

/- A run knows its job; at `unlock` the job has stopped. -/
def runSettled (jobs : Jobs) (run : ScriptRun) : Prop :=
  jobs.known run.job ∧ (run.point = .unlock → jobs.stopped run.job)

def goroutineSettled (jobs : Jobs) : Goroutine → Prop
  | .worker (.annotate _ run) => runSettled jobs run
  | .worker (.script _ run) => runSettled jobs run
  | .worker (.report _ job) => jobs.stopped job
  | .worker (.finish _ status _ _) => status.final
  | .install run => runSettled jobs run
  | _ => True

def Settled (c : Process) : Prop := ∀ t ∈ c.pool, goroutineSettled c.shared.jobs t

theorem runSettledLe {jobs later : Jobs} {run : ScriptRun} (le : jobs.le later)
    (settled : runSettled jobs run) : runSettled later run :=
  ⟨jobsLeKnown le settled.1,fun here => jobsLeStopped le (settled.2 here)⟩

theorem settledLe {jobs later : Jobs} {t : Goroutine} (le : jobs.le later)
    (settled : goroutineSettled jobs t) : goroutineSettled later t := by
  cases t with
  | worker w =>
    cases w with
    | annotate it run => exact runSettledLe le settled
    | script it run => exact runSettledLe le settled
    | report it job => exact jobsLeStopped le settled
    | _ => exact settled
  | install run => exact runSettledLe le settled
  | _ => exact settled

theorem scriptSettled {s s' : Shared} {run : ScriptRun} {point : ScriptPoint}
    (step : run.Step s s' (some point)) (settled : runSettled s.jobs run) :
    runSettled s'.jobs (run.at point) := by
  have known : s'.jobs.known run.job := jobsLeKnown (scriptLe step) settled.1
  refine ⟨known,?_⟩
  intro here
  replace here : point = .unlock := here
  subst here
  cases step with
  | move _ onward => contradiction
  | installed rows _ onward => contradiction
  | finish _ => exact finishStopped _ _ settled.1

theorem scriptOver {s s' : Shared} {run : ScriptRun} (step : run.Step s s' none)
    (settled : runSettled s.jobs run) : s'.jobs.stopped run.job := by
  cases step with
  | unlock here => exact settled.2 here

theorem newRunSettled (s : Shared) (softwareID : String) (p : Prepared) (mode : Mode) :
    runSettled (s.register softwareID p).jobs (newRun s.drawn softwareID p mode) :=
  ⟨registerKnown s.jobs (newJob s.drawn softwareID p),by intro here; contradiction⟩

theorem queueStatusFinal {status : JobStatus} (stopped : status ≠ .running) : (queueStatus status).final := by
  cases status <;> simp_all [queueStatus,Status.final]

theorem quietSettled (jobs : Jobs) {g : Goroutine} (silent : g.quiet = true) : goroutineSettled jobs g := by
  cases g with
  | request r => trivial
  | done => trivial
  | _ => contradiction

theorem requestSettled {m : CaseMap} {s s' : Shared} {r : Request} {g : Goroutine} {new : List Goroutine}
    (jobs : Jobs) (step : Request.Step m s r s' g new) :
    goroutineSettled jobs g ∧ ∀ u ∈ new, goroutineSettled jobs u := by
  cases step with
  | quiet ids before after => exact ⟨quietSettled jobs after,by simp⟩
  | retryFind after => exact ⟨quietSettled jobs after,by simp⟩
  | dismissRows ids after => exact ⟨quietSettled jobs after,by simp⟩
  | switchCancel after => exact ⟨quietSettled jobs after,by simp⟩
  | switchComplete after => exact ⟨quietSettled jobs after,by simp⟩
  | spawn => exact ⟨trivial,by simp [goroutineSettled]⟩
  | _ => exact ⟨trivial,by simp⟩

theorem dispatchSettled (jobs : Jobs) (it : QueueItem) : goroutineSettled jobs (.worker (dispatch it)) := by
  unfold dispatch
  split <;> trivial

theorem workerSettled {s s' : Shared} {w : Worker} {g : Goroutine} {new : List Goroutine}
    (step : Worker.Step s w s' g new) (settled : goroutineSettled s.jobs (.worker w)) :
    goroutineSettled s'.jobs g ∧ ∀ u ∈ new, goroutineSettled s'.jobs u := by
  cases step with
  | claim claimed => exact ⟨dispatchSettled s.jobs _,by simp⟩
  | giveUp holds final early => exact ⟨final,by simp⟩
  | register => exact ⟨newRunSettled s _ _ _,by simp⟩
  | annotate => exact ⟨settled,by simp⟩
  | script inner => exact ⟨scriptSettled inner settled,by simp⟩
  | scripted inner => exact ⟨scriptOver inner settled,by simp [goroutineSettled]⟩
  | report found =>
    obtain ⟨j,same,stopped⟩ := settled
    rw [found] at same
    cases Option.some.inj same
    exact ⟨queueStatusFinal stopped,by simp⟩
  | _ => exact ⟨trivial,by simp⟩

theorem stepSettled {m : CaseMap} {k : Choice} {s s' : Shared} {t g : Goroutine} {new : List Goroutine}
    (settled : goroutineSettled s.jobs t) (stepped : next m k s t = some (s',g,new)) :
    goroutineSettled s'.jobs g ∧ ∀ u ∈ new, goroutineSettled s'.jobs u := by
  cases t with
  | request r => exact requestSettled s'.jobs (Request.steps stepped)
  | worker w => exact workerSettled (Worker.steps stepped) settled
  | stream v =>
    cases Stream.steps stepped with
    | register =>
      refine ⟨trivial,?_⟩
      intro u mem
      rw [List.mem_singleton.mp mem]
      exact newRunSettled s _ _ _
    | _ => exact ⟨trivial,by simp⟩
  | install run =>
    cases installSteps stepped with
    | script inner => exact ⟨scriptSettled inner settled,by simp⟩
    | scripted inner => exact ⟨trivial,by simp [goroutineSettled]⟩
  | prune job =>
    cases stepped
    exact ⟨trivial,by simp⟩
  | setup v =>
    obtain ⟨_,_,_,_,_,_,self,others⟩ := setupFrame stepped
    refine ⟨?_,?_⟩
    · rcases self with rfl | ⟨w,rfl⟩ <;> trivial
    · intro u mem
      obtain ⟨w,rfl⟩ := others u mem
      trivial
  | done => contradiction

theorem startedSettled (jobs : Jobs) {m : CaseMap} {g : Goroutine} (started : Started m g) : goroutineSettled jobs g := by
  cases started with
  | quiet silent => exact quietSettled jobs silent
  | _ => trivial

theorem settledPreserved (m : CaseMap) (ok : Process → Goroutine → Prop) :
    Preserved (host m) ok Settled := by
  constructor
  · intro c call settled u mem
    rcases List.mem_append.mp mem with old | fresh
    · exact settled u old
    · rw [List.mem_singleton.mp fresh]
      exact startedSettled c.shared.jobs (startCases m call)
  · intro c i t k s' g new settled found _ stepped
    obtain ⟨self,others⟩ := stepSettled (settled t (List.mem_of_getElem? found)) stepped
    exact everyStep (fun u mem => settledLe (stepLe stepped) (settled u mem)) self others

theorem settledBoot (installed : Installed) : Settled (boot installed) := by
  intro t mem
  simp [boot] at mem

end ContainerWS.Install
