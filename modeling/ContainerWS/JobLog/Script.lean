import ContainerWS.Install.Worker

/-! runSoftwareScript of modules/softwares/install/stream.go as the list of what
it does to its job: lines appended, processes started and awaited, and the call
of `finish`. Scripts, the clock and the catalogue are outside. -/
namespace ContainerWS.JobLog
open Install GoStrings

inductive LogStream where
  | stdout
  | stderr
  | system
  deriving DecidableEq, Repr

structure JobLogLine where
  stream : LogStream
  text : String
  deriving DecidableEq, Repr

inductive EventType where
  | start
  | log
  | system
  | done
  | cancelled
  | error
  deriving DecidableEq, Repr

/- `seq` is the place of the line in `job.lines`. It is not sent and no step
reads it. -/
structure StreamEvent where
  type : EventType
  jobID : String
  line : String := ""
  stream : Option LogStream := none
  message : String := ""
  success : Option Bool := none
  version : String := ""
  name : String := ""
  seq : Option Nat := none
  deriving DecidableEq, Repr

/- The arguments of `finish`. -/
structure Final where
  status : Terminal
  message : String
  failureReason : String
  exitCode : Option Int
  deriving DecidableEq, Repr

/- Without a `final` the job is running. -/
structure Job where
  id : String
  softwareName : String
  version : String
  mode : Mode
  final : Option Final
  lines : List JobLogLine
  deriving DecidableEq, Repr

/- The two scripts of a run. -/
inductive Stage where
  | script
  | custom
  deriving DecidableEq, Repr

/- `tell` is the second loop of `finish`, `close` its last statement. -/
inductive Op where
  | publish (ev : StreamEvent)
  | append (stream : LogStream) (text : String)
  | start (stage : Stage)
  | wait (stage : Stage)
  | markUninstalled
  | markInstalled
  | loadCustomScript
  | finish (final : Final)
  | tell (ev : StreamEvent) (subs : List Nat)
  | close
  deriving DecidableEq, Repr

def Job.startEvent (j : Job) (message : String) : StreamEvent :=
  {type := .start,jobID := j.id,name := j.softwareName,version := j.version,message := message}

def Job.logEvent (j : Job) (seq : Nat) (line : JobLogLine) : StreamEvent :=
  {type := if line.stream = .system then .system else .log,jobID := j.id,stream := some line.stream,
   line := line.text,seq := some seq}

/- The first event that `finish` sends. -/
def Job.finishEvent (j : Job) (f : Final) : StreamEvent :=
  {type := if f.status = .cancelled then .cancelled else .done,jobID := j.id,message := f.message,
   success := some (f.status == .success),version := j.version,name := j.softwareName}

def Job.errorEvent (j : Job) (f : Final) : StreamEvent :=
  {type := .error,jobID := j.id,message := f.failureReason}

def Final.tellsReason (f : Final) : Bool := f.status == .error && f.failureReason != ""

def Job.finishEvents (j : Job) (f : Final) : List StreamEvent :=
  j.finishEvent f :: if f.tellsReason then [j.errorEvent f] else []

/- What attachJobSSE writes itself when the job is over. -/
def Job.lateEvents (j : Job) (f : Final) : List StreamEvent :=
  if f.status = .cancelled then [{type := .cancelled,jobID := j.id,message := f.message}]
  else {type := .done,jobID := j.id,success := some (f.status == .success),message := f.message,
        version := j.version,name := j.softwareName} ::
    if f.tellsReason then [j.errorEvent f] else []

/- Job identifiers are UUIDs in ASCII, so bytes are characters. -/
def shortID (id : String) : String :=
  if 8 ≤ id.toList.length then String.ofList (id.toList.take 8) else id

def lowerVerb : Mode → String
  | .install => "install"
  | .uninstall => "uninstall"

def heredoc (mode : Mode) : Stage → String
  | .script =>
    match mode with
    | .install => "INSTALL"
    | .uninstall => "UNINSTALL"
  | .custom => "CUSTOM"

def Job.label (j : Job) : String := j.softwareName ++ " v" ++ j.version

/- The first event of attachJobSSE. -/
def Job.sessionEvent (j : Job) : StreamEvent :=
  j.startEvent ("Session " ++ shortID j.id ++ " · " ++ j.label)

def splitLines (script : String) : List String := (script.toList.splitOn '\n').map String.ofList

/- The lines of streamBash up to `cmd.Start`. -/
def streamBash (j : Job) (script : String) (stage : Stage) : List Op :=
  .append .system ("$ bash -lc <<'" ++ heredoc j.mode stage ++ "'") ::
    (splitLines script).map (.append .system) ++
    [.append .system (heredoc j.mode stage),.start stage]

def runSoftwareScript (j : Job) (script : String) : List Op :=
  let message := "Starting " ++ lowerVerb j.mode ++ " of " ++ j.label
  .publish (j.startEvent message) :: .append .system message :: streamBash j script .script

def finishes (status : Terminal) (message reason : String) (exitCode : Option Int) : Op :=
  .finish ⟨status,message,reason,exitCode⟩

def startFailed (err : String) : List Op :=
  [.append .stderr err,finishes .error "Failed to start script" err none]

def buildFailureReason (err : String) (exitCode : Option Int) (stderrTail : List String) : String :=
  err ++ (match exitCode with
    | none => ""
    | some code => "\nexit code: " ++ toString code) ++
  if stderrTail = [] then "" else "\n\n--- last stderr output ---\n" ++ "\n".intercalate stderrTail

def Job.successMessage (j : Job) : String := verb j.mode ++ "ed " ++ j.label

/- What follows the first streamBash of a run and what follows the custom one. -/
def afterScript (j : Job) (reason : String) (exitCode : Option Int) : Outcome → List Op
  | .cancelled =>
    let msg := verb j.mode ++ " cancelled"
    [.append .stderr msg,finishes .cancelled msg "" none]
  | .timedOut =>
    let msg := verb j.mode ++ " timed out after 30 minutes"
    [.append .stderr msg,finishes .error msg msg none]
  | .failed =>
    let failMsg := verb j.mode ++ " failed for " ++ j.label
    [.append .stderr failMsg,.append .stderr reason,finishes .error failMsg reason exitCode]
  | .success =>
    match j.mode with
    | .uninstall => [.markUninstalled]
    | .install => [.markInstalled]

def afterCustom (j : Job) (reason : String) (exitCode : Option Int) : Outcome → List Op
  | .cancelled =>
    let msg := "Custom setup cancelled after install"
    [.append .stderr msg,finishes .cancelled msg "" none]
  | .timedOut =>
    let msg := "Custom setup timed out after install"
    [.append .stderr msg,finishes .error msg msg none]
  | .failed =>
    let failMsg := "Custom setup failed for " ++ j.label ++ " (install completed)"
    [.append .stderr failMsg,.append .stderr reason,finishes .error failMsg reason exitCode]
  | .success =>
    [.append .system "Custom setup completed",finishes .success j.successMessage "" none]

def afterBash (j : Job) (reason : String) (exitCode : Option Int) (outcome : Outcome) : Stage → List Op
  | .script => afterScript j reason exitCode outcome
  | .custom => afterCustom j reason exitCode outcome

/- `warning` holds the error text when the mark was not written. -/
def afterUninstallMark (j : Job) (warning : Option String) : List Op :=
  (warning.map (fun err => Op.append .system
    ("warning: uninstall script succeeded but failed to mark uninstalled: " ++ err))).toList ++
    [.append .system j.successMessage,finishes .success j.successMessage "" none]

def afterInstallMark (j : Job) (warning : Option String) : List Op :=
  (warning.map (fun err => Op.append .system
    ("warning: install succeeded but failed to persist installed status: " ++ err))).toList ++
    [.append .system j.successMessage,.loadCustomScript]

def afterLoad (j : Job) (custom : String) : List Op :=
  if custom = "" then [finishes .success j.successMessage "" none]
  else .append .system "Running custom setup script…" :: streamBash j custom .custom

/- The rest of `finish` after its first loop, over the same copy of the
subscribers. -/
def afterFinish (j : Job) (f : Final) (subs : List Nat) : List Op :=
  if f.tellsReason then [.tell (j.errorEvent f) subs,.close] else [.close]

end ContainerWS.JobLog
