import ContainerWS.JobLog.Script

/-! The goroutines around one running job: runSoftwareScript with the readers of
its two pipes, the ticker that persists the job, the goroutine that closes the
channels, and the SSE writers of attachJobSSE. A constructor is a program point
in front of a locked section, a channel operation, a database call or a write. -/
namespace ContainerWS.JobLog
open Install Interleaving GoStrings

/- A subscriber: its channel, and the local variables of its writer. `todo` are
the events the writer has in hand, at first the snapshot; `running` is the
status it read together with the snapshot. -/
inductive Position where
  | following
  | leaving
  | draining
  | gone
  deriving DecidableEq, Repr

structure Client where
  running : Bool
  todo : List StreamEvent
  channel : List StreamEvent
  closed : Bool
  written : List StreamEvent
  connected : Bool
  position : Position
  deriving DecidableEq, Repr

/- The columns of a software_install_jobs row that a run changes. -/
structure Snapshot where
  status : JobStatus
  message : String
  failureReason : String
  exitCode : Option Int
  deriving DecidableEq, Repr

structure Row where
  snap : Snapshot
  log : List JobLogLine
  deriving DecidableEq, Repr

/- `subscribers` holds indices into `clients`; `readers` is the WaitGroup. -/
structure Shared where
  job : Job
  subscribers : List Nat
  clients : List Client
  readers : Nat
  tail : List String
  row : Option Row

inductive Voice where
  | script (ops : List Op)
  | reader (stream : LogStream)
  | tail (text : String)
  deriving DecidableEq, Repr

/- The deferred `persist` of runSoftwareScript and the one of its ticker. -/
inductive Persister where
  | main
  | ticker
  deriving DecidableEq, Repr

/- The answer of `First`. -/
inductive Lookup where
  | found
  | missing
  | failed
  deriving DecidableEq, Repr

inductive Goroutine where
  | voice (v : Voice)
  | sends (ev : StreamEvent) (subs : List Nat) (after : Voice)
  | closer
  | tick
  | tickCheck
  | snapshot (p : Persister)
  | logJSON (p : Persister) (snap : Snapshot)
  | lookup (p : Persister) (row : Row)
  | store (p : Persister) (answer : Lookup) (row : Row)
  | attach
  | sse (client : Nat)
  | done
  deriving DecidableEq, Repr

structure Choice where
  fails : Bool := false
  eof : Bool := false
  ctxDone : Bool := false
  text : String := ""
  exitCode : Option Int := none
  outcome : Outcome := .success
  order : List Nat := []

abbrev Stepped := Option (Shared × Goroutine × List Goroutine)

abbrev Process := Config Shared Goroutine

/- Ranging over the map `subscribers`: any order. -/
def copySubscribers (k : Choice) (s : Shared) : List Nat :=
  if k.order.isPerm s.subscribers then k.order else s.subscribers

def Shared.withLine (s : Shared) (line : JobLogLine) : Shared :=
  {s with job := {s.job with lines := s.job.lines ++ [line]}}

/- The locked section of `appendLine`. -/
def appendLine (k : Choice) (s : Shared) (line : JobLogLine) (after : Voice) : Stepped :=
  some (s.withLine line,.sends (s.job.logEvent s.job.lines.length line) (copySubscribers k s) after,[])

def script (s : Shared) (ops : List Op) : Stepped := some (s,.voice (.script ops),[])

/- `tail[len(tail)-40:]`. -/
def lastForty (tail : List String) : List String := tail.drop (tail.length - 40)

def Choice.error (k : Choice) : Option String := if k.fails then some k.text else none

def Op.next (k : Choice) (s : Shared) (ops : List Op) : Op → Stepped
  | .publish ev => some (s,.sends ev (copySubscribers k s) (.script ops),[])
  | .append stream text => appendLine k s ⟨stream,text⟩ (.script ops)
  | .start stage =>
    if k.fails then script s (startFailed k.text)
    else some ({s with readers := 2,tail := []},.voice (.script [.wait stage]),
      [.voice (.reader .stdout),.voice (.reader .stderr)])
  | .wait stage =>
    if s.readers = 0 then
      script s (afterBash s.job (buildFailureReason k.text k.exitCode s.tail) k.exitCode k.outcome stage)
    else none
  | .markUninstalled => script s (afterUninstallMark s.job k.error)
  | .markInstalled => script s (afterInstallMark s.job k.error)
  | .loadCustomScript => script s (afterLoad s.job (trimSpace k.text))
  | .finish f =>
    some ({s with job := {s.job with final := some f}},.sends (s.job.finishEvent f) (copySubscribers k s)
      (.script (afterFinish s.job f (copySubscribers k s))),[])
  | .tell ev subs => some (s,.sends ev subs (.script ops),[])
  | .close => some (s,.voice (.script ops),[.closer])

/- Without operations left the function returns and its deferred `persist` runs. -/
def Voice.next (k : Choice) (s : Shared) : Voice → Stepped
  | .script [] => some (s,.snapshot .main,[])
  | .script (op :: ops) => op.next k s ops
  | .reader stream =>
    if k.eof then some ({s with readers := s.readers - 1},.done,[])
    else appendLine k s ⟨stream,k.text⟩ (if stream = .stderr then .tail k.text else .reader stream)
  | .tail text => some ({s with tail := lastForty (s.tail ++ [text])},.voice (.reader .stderr),[])

def bufferSize : Nat := 512

/- `select { case ch <- ev: default: }`; a send on a closed channel panics. -/
def offer (s : Shared) (ev : StreamEvent) (i : Nat) : Option Shared :=
  match s.clients[i]? with
  | none => none
  | some cl =>
    if cl.closed then none
    else if cl.channel.length < bufferSize then
      some {s with clients := s.clients.set i {cl with channel := cl.channel ++ [ev]}}
    else some s

def closeAll (s : Shared) : Shared :=
  {s with
    clients := s.clients.mapIdx (fun i cl => if i ∈ s.subscribers then {cl with closed := true} else cl)
    subscribers := []}

/- The events after which the loop of attachJobSSE returns. -/
def StreamEvent.stops (ev : StreamEvent) : Bool :=
  ev.type == .cancelled || (ev.type == .done && ev.success == some true) || ev.type == .error

def Job.snapshotEvents (j : Job) : List StreamEvent := j.lines.mapIdx j.logEvent

/- The locked section of attachJobSSE and the events it goes on to write. -/
def attachJobSSE (j : Job) : Client :=
  ⟨j.final.isNone,j.sessionEvent :: j.snapshotEvents ++ (match j.final with
    | none => []
    | some f => j.lateEvents f),[],false,[],true,.following⟩

/- The writer. A failed write ends it; draining a closed channel never ends. -/
def Client.next (fails : Bool) (cl : Client) : Option Client :=
  match cl.position with
  | .following =>
    match cl.todo with
    | ev :: rest =>
      if fails then some {cl with connected := false,position := .leaving}
      else some {cl with
        written := cl.written ++ [ev],todo := rest,position := if ev.stops then .leaving else .following}
    | [] =>
      if cl.running then
        match cl.channel with
        | ev :: rest => some {cl with channel := rest,todo := [ev]}
        | [] => if cl.closed then some {cl with position := .leaving} else none
      else some {cl with position := .leaving}
  | .leaving => some {cl with position := .draining}
  | .draining =>
    match cl.channel with
    | _ :: rest => some {cl with channel := rest}
    | [] => if cl.closed then some cl else some {cl with position := .gone}
  | .gone => none

/- The writer of one subscriber; leaving removes the channel from the map. -/
def sseNext (k : Choice) (s : Shared) (i : Nat) : Stepped :=
  match s.clients[i]? with
  | none => none
  | some cl =>
    match cl.next k.fails with
    | none => none
    | some cl' =>
      some ({s with
        clients := s.clients.set i cl'
        subscribers := if cl.position = .leaving then s.subscribers.erase i else s.subscribers},.sse i,[])

def Job.snapshot (j : Job) : Snapshot :=
  match j.final with
  | none => ⟨.running,"","",none⟩
  | some f => ⟨f.status.status,f.message,f.failureReason,f.exitCode⟩

def lookup (fails : Bool) (row : Option Row) : Lookup :=
  if fails then .failed else if row.isSome then .found else .missing

/- The write of UpsertSoftwareInstallJob: an update, or a create that fails on
a row with the same identifier. -/
def store (answer : Lookup) (new : Row) (row : Option Row) : Option Row :=
  match answer with
  | .found => some new
  | .missing => if row.isSome then row else some new
  | .failed => row

/- An error of the read or of the write ends the call without a write. -/
def Persister.after : Persister → Goroutine
  | .main => .done
  | .ticker => .tick

def next (k : Choice) (s : Shared) : Goroutine → Stepped
  | .voice v => v.next k s
  | .sends _ [] after => some (s,.voice after,[])
  | .sends ev (i :: rest) after => (offer s ev i).map (fun s' => (s',.sends ev rest after,[]))
  | .closer => some (closeAll s,.done,[])
  | .tick => some (s,if k.ctxDone then .done else .tickCheck,[])
  | .tickCheck => some (s,if s.job.final.isSome then .done else .snapshot .ticker,[])
  | .snapshot p => some (s,.logJSON p s.job.snapshot,[])
  | .logJSON p snap => some (s,.lookup p ⟨snap,s.job.lines⟩,[])
  | .lookup p row => some (s,.store p (lookup k.fails s.row) row,[])
  | .store p answer row => some ({s with row := store answer row s.row},p.after,[])
  | .attach =>
    some ({s with
      clients := s.clients ++ [attachJobSSE s.job]
      subscribers := s.subscribers ++ [s.clients.length]},.sse s.clients.length,[])
  | .sse i => sseNext k s i
  | .done => none

inductive Call where
  | attach
  deriving DecidableEq, Repr

abbrev Events := List (Event Call Choice)

def system : System Shared Goroutine Call Choice := ⟨fun _ => .attach,next⟩

def prepared (id softwareName version : String) (mode : Mode) : Job :=
  ⟨id,softwareName,version,mode,none,[]⟩

/- runSoftwareScript has the lock and its ticker goroutine is started. -/
def launch (j : Job) (body : String) (row : Option Row) : Process :=
  ⟨⟨j,[],[],0,[],row⟩,[.voice (.script (runSoftwareScript j body)),.tick]⟩

end ContainerWS.JobLog
