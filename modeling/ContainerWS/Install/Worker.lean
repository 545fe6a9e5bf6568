import ContainerWS.Install.Requests

/-! The queue worker goroutine, the StreamInstallAPI request with the job
goroutine it starts, and runSoftwareScript, which both of them execute. -/
namespace ContainerWS
open Install

def ScriptRun.at (run : ScriptRun) (point : ScriptPoint) : ScriptRun := {run with point := point}

def verb : Mode → String
  | .install => "Install"
  | .uninstall => "Uninstall"

def failureMessage (run : ScriptRun) : String :=
  verb run.mode ++ " failed for " ++ run.softwareName ++ " v" ++ run.version

def successMessage (run : ScriptRun) : String :=
  verb run.mode ++ "ed " ++ run.softwareName ++ " v" ++ run.version

/- Where the first streamBash of a run leads. -/
def afterScript (run : ScriptRun) : Outcome → ScriptPoint
  | .cancelled => .finish .cancelled (verb run.mode ++ " cancelled")
  | .timedOut => .finish .error (verb run.mode ++ " timed out after 30 minutes")
  | .failed => .finish .error (failureMessage run)
  | .success =>
    match run.mode with
    | .install => .markInstalled
    | .uninstall => .markUninstalled

def afterCustom (run : ScriptRun) : Outcome → ScriptPoint
  | .cancelled => .finish .cancelled "Custom setup cancelled after install"
  | .timedOut => .finish .error "Custom setup timed out after install"
  | .failed => .finish .error ("Custom setup failed for " ++ run.softwareName ++ " v" ++
      run.version ++ " (install completed)")
  | .success => .finish .success (successMessage run)

/- One point of runSoftwareScript. Without a next point the function returned;
`installSerial` is held from `lock` to `unlock`. -/
def ScriptRun.next (k : Choice) (s : Shared) (run : ScriptRun) : Option (Shared × Option ScriptPoint) :=
  match run.point with
  | .lock => if s.serial then none else some ({s with serial := true},some .start)
  | .start =>
    if k.fails then some (s,some (.finish .error "Failed to start script")) else some (s,some .running)
  | .running => some (s,some (afterScript run k.outcome))
  | .markUninstalled =>
    if k.fails then some (s,some (.finish .success (successMessage run)))
    else some (s.mark run.softwareID,
      some (.cancelPending (s.history.marks run.softwareID + 1)))
  | .cancelPending mark =>
    some ((s.cancel run.softwareID).complete run.softwareID mark,
      some (.finish .success (successMessage run)))
  | .markInstalled =>
    let rows := if k.fails then s.installed
      else markSoftwareInstalled s.installed run.softwareID run.versionID
    some ({s with installed := rows},
      some (if k.custom then .customStart else .finish .success (successMessage run)))
  | .customStart =>
    if k.fails then some (s,some (.finish .error "Failed to start script"))
    else some (s,some .customRunning)
  | .customRunning => some (s,some (afterCustom run k.outcome))
  | .finish status message => some ({s with jobs := s.jobs.finish run.job status message},some .unlock)
  | .unlock => some ({s with serial := false},none)

def newJob (id : UUID) (softwareID : String) (p : Prepared) : InstallJob :=
  ⟨id,softwareID,p.softwareName,p.versionID,p.version,.running,"",false⟩

def newRun (job : UUID) (softwareID : String) (p : Prepared) (mode : Mode) : ScriptRun :=
  ⟨job,softwareID,p.softwareName,p.versionID,p.version,mode,.lock⟩

/- `registerJob` for a fresh identifier. -/
def Shared.register (s : Shared) (softwareID : String) (p : Prepared) : Shared :=
  {s.draw 1 with jobs := registerJob s.jobs (newJob s.drawn softwareID p)}

def Install.QueueItem.mode (it : QueueItem) : Mode :=
  if it.action = .uninstall then .uninstall else .install

/- runQueueItem: brew rows first, then by action. -/
def dispatch (it : QueueItem) : Worker :=
  if it.sourceBrew ∨ GoStrings.trimSpace it.brewName ≠ "" then .brewStart it else .check it

def skippedMessage : Mode → String
  | .install => "Install already running for this software"
  | .uninstall => "Another job is already running for this software"

def runMessage (run : ScriptRun) : String :=
  verb run.mode ++ "ing " ++ run.softwareName ++ " v" ++ run.version

/- The refusals of prepareUninstallJob that read the installed row. -/
def uninstallRefusal (rows : Installed) (softwareID : String) : Option String :=
  match getSoftwareInstalled rows softwareID with
  | none => some "software is not installed"
  | some row => if row.uninstalled then some "software is already uninstalled" else none

def queueStatus : JobStatus → Status
  | .running => .running
  | .success => .success
  | .error => .error
  | .cancelled => .cancelled
  | .dismissed => .dismissed

def brewVerb : Action → String
  | .install => "install"
  | .update => "upgrade"
  | .uninstall => "uninstall"

def brewMessage (it : QueueItem) : String :=
  "Running brew " ++ brewVerb it.action ++ " " ++ GoStrings.trimSpace it.brewName ++ "…"

def work (s : Shared) (w : Worker) : Stepped := some (s,.worker w,[])

def Shared.claimed (s : Shared) (q : BulkQueue) (id : UUID) : Shared :=
  {s with queue := q, history := {s.history with claimed := s.history.claimed ++ [id]}}

def Shared.finish (s : Shared) (q : BulkQueue) (id : UUID) : Shared :=
  {s with queue := q, history := {s.history with finished := s.history.finished ++ [id]}}

def Worker.next (k : Choice) (s : Shared) : Worker → Stepped
  | .busy => work s (.busyRead s.record.activeInst)
  | .busyRead inst => if Vnc.packageManagerHeld s.record inst then work s .busy else work s .claim
  | .claim =>
    match claimNextQueueItem s.queue with
    | none => work s .exit
    | some (it,q) => work (s.claimed q it.id) (dispatch it)
  | .brewStart it =>
    if k.fails then work s (.finish it .error "brew queue runner is not configured" none)
    else if GoStrings.trimSpace it.brewName = "" then
      work s (.finish it .error "missing brew package name" none)
    else work {s with queue := s.queue.annotateMessage it.id (brewMessage it)} (.brewRun it)
  | .brewRun it =>
    if k.outcome = .success then
      work s (.finish it .success ("brew " ++ brewVerb it.action ++ " completed") none)
    else work s (.finish it .error k.text none)
  | .check it =>
    match getLatestJobForSoftware s.jobs it.softwareID with
    | none => work s (.prepare it)
    | some j => work s (.checkJob it j.id)
  | .checkJob it job =>
    if s.jobs.runningAt job then work s (.finish it .skipped (skippedMessage it.mode) (some job))
    else work s (.prepare it)
  | .prepare it =>
    match it.mode, uninstallRefusal s.installed it.softwareID with
    | .uninstall,some message => work s (.finish it .error message none)
    | _,_ =>
      match k.prepared with
      | .error message => work s (.finish it .error message none)
      | .ok p => work s (.register it p)
  | .register it p => work (s.register it.softwareID p) (.annotate it (newRun s.drawn it.softwareID p it.mode))
  | .annotate it run =>
    work {s with queue := s.queue.annotate it.id run.job run.versionID (runMessage run)} (.script it run)
  | .script it run =>
    match run.next k s with
    | none => none
    | some (s',some point) => work s' (.script it (run.at point))
    | some (s',none) => some (s',.worker (.report it run.job),[.prune run.job])
  | .report it job =>
    match s.jobs.at job with
    | none => none
    | some j => work s (.finish it (queueStatus j.status) j.message (some job))
  | .finish it status message jobID =>
    work (s.finish (finishQueueItem s.queue it.id status message jobID) it.id) .busy
  | .exit =>
    let cleared := {s with queue := {s.queue with running := false}}
    if s.queue.hasPending then go cleared .kick else finished cleared

def stream (s : Shared) (v : Stream) : Stepped := some (s,.stream v,[])

/- A request that finds a running job attaches to it and is over here. -/
def Stream.next (k : Choice) (s : Shared) : Stream → Stepped
  | .check softwareID =>
    match getLatestJobForSoftware s.jobs softwareID with
    | none => stream s (.prepare softwareID)
    | some j => stream s (.checkJob softwareID j.id)
  | .checkJob softwareID job =>
    if s.jobs.runningAt job then finished s else stream s (.prepare softwareID)
  | .prepare softwareID =>
    match k.prepared with
    | .error _ => finished s
    | .ok p => stream s (.register softwareID p)
  | .register softwareID p =>
    some (s.register softwareID p,.done,[.install (newRun s.drawn softwareID p .install)])

/- The job goroutine of StreamInstallAPI. -/
def installNext (k : Choice) (s : Shared) (run : ScriptRun) : Stepped :=
  match run.next k s with
  | none => none
  | some (s',some point) => some (s',.install (run.at point),[])
  | some (s',none) => some (s',.done,[.prune run.job])

def pruneNext (s : Shared) (job : UUID) : Stepped := finished {s with jobs := pruneJob s.jobs job}

/- The scripts of the run are behind it. -/
def ScriptPoint.finished : ScriptPoint → Bool
  | .finish _ _ => true
  | .unlock => true
  | _ => false

/- Points that are not the lock, its release or a cancel pass. -/
def ScriptPoint.plain : ScriptPoint → Bool
  | .lock => false
  | .unlock => false
  | .cancelPending _ => false
  | _ => true

/- What one step of runSoftwareScript can do. -/
inductive ScriptRun.Step (s : Shared) (run : ScriptRun) : Shared → Option ScriptPoint → Prop where
  | lock (here : run.point = .lock) (unlocked : s.serial = false) :
      Step s run {s with serial := true} (some .start)
  | move {point} (inside : run.point.plain = true ∧ run.point.finished = false)
      (onward : point.plain = true) :
      Step s run s (some point)
  | mark (here : run.point = .markUninstalled) :
      Step s run (s.mark run.softwareID) (some (.cancelPending (s.history.marks run.softwareID + 1)))
  | cancel {mark message} (here : run.point = .cancelPending mark) :
      Step s run ((s.cancel run.softwareID).complete run.softwareID mark) (some (.finish .success message))
  | installed {point} (rows : Installed) (here : run.point = .markInstalled)
      (onward : point.plain = true) : Step s run {s with installed := rows} (some point)
  | finish {status message} (here : run.point = .finish status message) :
      Step s run {s with jobs := s.jobs.finish run.job status message} (some .unlock)
  | unlock (here : run.point = .unlock) : Step s run {s with serial := false} none

theorem afterScriptPlain (run : ScriptRun) (o : Outcome) : (afterScript run o).plain = true := by
  cases o with
  | success =>
    simp only [afterScript]
    cases run.mode <;> rfl
  | _ => rfl

theorem afterCustomPlain (run : ScriptRun) (o : Outcome) : (afterCustom run o).plain = true := by
  cases o <;> rfl

theorem ScriptRun.steps {k : Choice} {s s' : Shared} {run : ScriptRun} {point : Option ScriptPoint}
    (stepped : run.next k s = some (s',point)) : ScriptRun.Step s run s' point := by
  cases here : run.point with
  | lock =>
    simp only [ScriptRun.next,here] at stepped
    split at stepped <;> cases stepped
    exact .lock here (by simpa using (by assumption : ¬s.serial = true))
  | start =>
    simp only [ScriptRun.next,here] at stepped
    split at stepped <;> cases stepped <;> exact .move (by simp [here,ScriptPoint.plain,ScriptPoint.finished]) rfl
  | running =>
    simp only [ScriptRun.next,here] at stepped
    cases stepped
    exact .move (by simp [here,ScriptPoint.plain,ScriptPoint.finished]) (afterScriptPlain run k.outcome)
  | markUninstalled =>
    simp only [ScriptRun.next,here] at stepped
    split at stepped <;> cases stepped
    · exact .move (by simp [here,ScriptPoint.plain,ScriptPoint.finished]) rfl
    · exact .mark here
  | cancelPending mark =>
    simp only [ScriptRun.next,here] at stepped
    cases stepped
    exact .cancel here
  | markInstalled =>
    simp only [ScriptRun.next,here] at stepped
    cases stepped
    exact .installed _ here (by split <;> rfl)
  | customStart =>
    simp only [ScriptRun.next,here] at stepped
    split at stepped <;> cases stepped <;> exact .move (by simp [here,ScriptPoint.plain,ScriptPoint.finished]) rfl
  | customRunning =>
    simp only [ScriptRun.next,here] at stepped
    cases stepped
    exact .move (by simp [here,ScriptPoint.plain,ScriptPoint.finished]) (afterCustomPlain run k.outcome)
  | finish status message =>
    simp only [ScriptRun.next,here] at stepped
    cases stepped
    exact .finish here
  | unlock =>
    simp only [ScriptRun.next,here] at stepped
    cases stepped
    exact .unlock here

/- The row the worker has claimed and not yet finished. -/
def Worker.item : Worker → Option QueueItem
  | .brewStart it => some it
  | .brewRun it => some it
  | .check it => some it
  | .checkJob it _ => some it
  | .prepare it => some it
  | .register it _ => some it
  | .annotate it _ => some it
  | .script it _ => some it
  | .report it _ => some it
  | .finish it _ _ _ => some it
  | _ => none

/- Points from which a row may be finished without a job of its own. -/
def Worker.early : Worker → Bool
  | .brewStart _ => true
  | .brewRun _ => true
  | .check _ => true
  | .checkJob _ _ => true
  | .prepare _ => true
  | _ => false

def Install.Status.final (status : Status) : Prop := status ≠ .pending ∧ status ≠ .running

/- What one step of the worker can do. -/
inductive Worker.Step (s : Shared) : Worker → Shared → Goroutine → List Goroutine → Prop where
  | look : Step s .busy s (.worker (.busyRead s.record.activeInst)) []
  | held {inst} : Step s (.busyRead inst) s (.worker .busy) []
  | free {inst} (notHeld : Vnc.packageManagerHeld s.record inst = false) :
      Step s (.busyRead inst) s (.worker .claim) []
  | empty (none : claimNextQueueItem s.queue = none) : Step s .claim s (.worker .exit) []
  | claim {it q} (claimed : claimNextQueueItem s.queue = some (it,q)) :
      Step s .claim (s.claimed q it.id) (.worker (dispatch it)) []
  | giveUp {w it status message jobID} (holds : w.item = some it) (final : status.final)
      (early : w.early = true) :
      Step s w s (.worker (.finish it status message jobID)) []
  | brewRun {it} :
      Step s (.brewStart it) {s with queue := s.queue.annotateMessage it.id (brewMessage it)}
        (.worker (.brewRun it)) []
  | found {it j} (latest : getLatestJobForSoftware s.jobs it.softwareID = some j) :
      Step s (.check it) s (.worker (.checkJob it j.id)) []
  | absent {it} (latest : getLatestJobForSoftware s.jobs it.softwareID = none) :
      Step s (.check it) s (.worker (.prepare it)) []
  | idle {it job} (stopped : s.jobs.runningAt job = false) :
      Step s (.checkJob it job) s (.worker (.prepare it)) []
  | prepared {it p} : Step s (.prepare it) s (.worker (.register it p)) []
  | register {it p} :
      Step s (.register it p) (s.register it.softwareID p)
        (.worker (.annotate it (newRun s.drawn it.softwareID p it.mode))) []
  | annotate {it run} :
      Step s (.annotate it run)
        {s with queue := s.queue.annotate it.id run.job run.versionID (runMessage run)}
        (.worker (.script it run)) []
  | script {it run s' point} (inner : run.Step s s' (some point)) :
      Step s (.script it run) s' (.worker (.script it (run.at point))) []
  | scripted {it run s'} (inner : run.Step s s' none) :
      Step s (.script it run) s' (.worker (.report it run.job)) [.prune run.job]
  | report {it job j} (found : s.jobs.at job = some j) :
      Step s (.report it job) s (.worker (.finish it (queueStatus j.status) j.message (some job))) []
  | finish {it status message jobID} :
      Step s (.finish it status message jobID)
        (s.finish (finishQueueItem s.queue it.id status message jobID) it.id) (.worker .busy) []
  | rekick (more : s.queue.hasPending = true) :
      Step s .exit {s with queue := {s.queue with running := false}} (.request .kick) []
  | quit (none : s.queue.hasPending = false) :
      Step s .exit {s with queue := {s.queue with running := false}} .done []

theorem Worker.steps {k : Choice} {s s' : Shared} {w : Worker} {g : Goroutine} {new : List Goroutine}
    (stepped : w.next k s = some (s',g,new)) : Worker.Step s w s' g new := by
  cases w with
  | busy =>
    cases stepped
    exact .look
  | busyRead inst =>
    simp only [Worker.next] at stepped
    split at stepped <;> cases stepped
    · exact .held
    · exact .free (by simpa using (by assumption : ¬Vnc.packageManagerHeld s.record inst = true))
  | claim =>
    simp only [Worker.next] at stepped
    split at stepped <;> cases stepped
    · exact .empty (by assumption)
    · exact .claim (by assumption)
  | brewStart it =>
    simp only [Worker.next] at stepped
    split at stepped
    · cases stepped
      exact .giveUp rfl (by simp [Status.final]) rfl
    · split at stepped <;> cases stepped
      · exact .giveUp rfl (by simp [Status.final]) rfl
      · exact .brewRun
  | brewRun it =>
    simp only [Worker.next] at stepped
    split at stepped <;> cases stepped <;> exact .giveUp rfl (by simp [Status.final]) rfl
  | check it =>
    simp only [Worker.next] at stepped
    split at stepped <;> cases stepped
    · exact .absent (by assumption)
    · exact .found (by assumption)
  | checkJob it job =>
    simp only [Worker.next] at stepped
    split at stepped <;> cases stepped
    · exact .giveUp rfl (by simp [Status.final]) rfl
    · exact .idle (by simpa using (by assumption : ¬s.jobs.runningAt job = true))
  | prepare it =>
    simp only [Worker.next] at stepped
    split at stepped
    · cases stepped
      exact .giveUp rfl (by simp [Status.final]) rfl
    · split at stepped <;> cases stepped
      · exact .giveUp rfl (by simp [Status.final]) rfl
      · exact .prepared
  | register it p =>
    cases stepped
    exact .register
  | annotate it run =>
    cases stepped
    exact .annotate
  | script it run =>
    simp only [Worker.next] at stepped
    split at stepped <;> cases stepped
    · exact .script (ScriptRun.steps (by assumption))
    · exact .scripted (ScriptRun.steps (by assumption))
  | report it job =>
    simp only [Worker.next] at stepped
    split at stepped <;> cases stepped
    exact .report (by assumption)
  | finish it status message jobID =>
    cases stepped
    exact .finish
  | exit =>
    simp only [Worker.next] at stepped
    split at stepped <;> cases stepped
    · exact .rekick (by assumption)
    · exact .quit (by simpa using (by assumption : ¬s.queue.hasPending = true))

/- What one step of a StreamInstallAPI request can do. -/
inductive Stream.Step (s : Shared) : Stream → Shared → Goroutine → List Goroutine → Prop where
  | leave {v} : Step s v s .done []
  | found {softwareID j} (latest : getLatestJobForSoftware s.jobs softwareID = some j) :
      Step s (.check softwareID) s (.stream (.checkJob softwareID j.id)) []
  | absent {softwareID} (latest : getLatestJobForSoftware s.jobs softwareID = none) :
      Step s (.check softwareID) s (.stream (.prepare softwareID)) []
  | idle {softwareID job} (stopped : s.jobs.runningAt job = false) :
      Step s (.checkJob softwareID job) s (.stream (.prepare softwareID)) []
  | prepared {softwareID p} : Step s (.prepare softwareID) s (.stream (.register softwareID p)) []
  | register {softwareID p} :
      Step s (.register softwareID p) (s.register softwareID p) .done
        [.install (newRun s.drawn softwareID p .install)]

theorem Stream.steps {k : Choice} {s s' : Shared} {v : Stream} {g : Goroutine} {new : List Goroutine}
    (stepped : v.next k s = some (s',g,new)) : Stream.Step s v s' g new := by
  cases v with
  | check softwareID =>
    simp only [Stream.next] at stepped
    split at stepped <;> cases stepped
    · exact .absent (by assumption)
    · exact .found (by assumption)
  | checkJob softwareID job =>
    simp only [Stream.next] at stepped
    split at stepped <;> cases stepped
    · exact .leave
    · exact .idle (by simpa using (by assumption : ¬s.jobs.runningAt job = true))
  | prepare softwareID =>
    simp only [Stream.next] at stepped
    split at stepped <;> cases stepped
    · exact .leave
    · exact .prepared
  | register softwareID p =>
    cases stepped
    exact .register

inductive InstallStep (s : Shared) (run : ScriptRun) : Shared → Goroutine → List Goroutine → Prop where
  | script {s' point} (inner : run.Step s s' (some point)) :
      InstallStep s run s' (.install (run.at point)) []
  | scripted {s'} (inner : run.Step s s' none) : InstallStep s run s' .done [.prune run.job]

theorem installSteps {k : Choice} {s s' : Shared} {run : ScriptRun} {g : Goroutine}
    {new : List Goroutine} (stepped : installNext k s run = some (s',g,new)) :
    InstallStep s run s' g new := by
  simp only [installNext] at stepped
  split at stepped <;> cases stepped
  · exact .script (ScriptRun.steps (by assumption))
  · exact .scripted (ScriptRun.steps (by assumption))

end ContainerWS
