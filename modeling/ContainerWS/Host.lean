import ContainerWS.Interleaving
import ContainerWS.Install.Jobs
import ContainerWS.Vnc.ActiveInstall

/-! The process as a pool of goroutines. A constructor is a program point: the
goroutine stands before the critical section, channel-free read or outside call
it names, and carries the local variables it still needs. Scripts, catalogue
queries and the client are outside; a `Choice` says how they answer. -/
namespace ContainerWS
open Install

structure MissingInstall where
  softwareID : String
  versionID : String
  deriving DecidableEq, Repr

/- What prepareInstallJob and prepareUninstallJob read from the catalogue. -/
structure Prepared where
  softwareName : String
  versionID : String
  version : String
  deriving DecidableEq, Repr

inductive Outcome where
  | success
  | failed
  | cancelled
  | timedOut
  deriving DecidableEq, Repr

structure Choice where
  fails : Bool := false
  outcome : Outcome := .success
  custom : Bool := false
  prepared : Except String Prepared := .ok ⟨"","",""⟩
  text : String := ""
  pick : Nat := 0

/- Records of what happened, written by the transitions and read by none:
identifiers appended, claimed, finished and cancelled, and for each software
the uninstalls marked and the last one whose cancel pass is over. -/
structure History where
  queued : List UUID
  claimed : List UUID
  finished : List UUID
  cancelled : List UUID
  marks : String → Nat
  completed : String → Nat

structure Shared where
  queue : BulkQueue
  jobs : Jobs
  installed : Installed
  serial : Bool
  record : Vnc.Record
  drawn : Nat
  history : History

/- The map `pendingOrRunning`, the items still to look at and the candidates. -/
structure MissingCall where
  db : Bool
  todo : List MissingInstall
  busy : List String
  candidates : List QueueItem
  deriving DecidableEq, Repr

structure RowRef where
  jobPrefix : Bool
  id : UUID
  deriving DecidableEq, Repr

inductive Request where
  | enqueueAPI (db : Bool) (action : Action) (todo : List String) (added : List QueueItem)
  | enqueueActions (db : Bool) (action : Action) (ids : List String)
  | missingBusy (db : Bool) (items : List MissingInstall)
  | missingItem (call : MissingCall)
  | missingManager (call : MissingCall) (readAt : Nat)
  | missingLatest (call : MissingCall) (readAt : Nat)
  | missingActive (call : MissingCall) (readAt : Nat) (job : UUID)
  | brewBusy (db : Bool) (action : Action) (kind : BrewKind) (names : List String)
  | brewItems (db : Bool) (action : Action) (kind : BrewKind) (names busy : List String)
  | append (db : Bool) (added : List QueueItem)
  | retryFind (db : Bool) (id : UUID) (softwareID : String) (action : Action)
  | retryItem (db : Bool) (found : Option QueueItem) (softwareID : String) (action : Action)
  | retryAppend (db : Bool) (item : QueueItem)
  | kick
  | flagged (db : Bool)
  | dismissItem (itemID : Option RowRef) (softwareID : String)
  | dismissRows (itemID : Option RowRef) (softwareID : String)
  | dismissLatest (softwareID : String)
  | dismissStatus (job : UUID)
  | dismissFailed (job : UUID)
  | switchMark (softwareID : String)
  | switchCancel (softwareID : String) (mark : Option Nat) (action : Action)
  deriving DecidableEq, Repr

inductive Mode where
  | install
  | uninstall
  deriving DecidableEq, Repr

inductive ScriptPoint where
  | lock
  | start
  | running
  | markUninstalled
  | cancelPending (mark : Nat)
  | markInstalled
  | customStart
  | customRunning
  | finish (status : Terminal) (message : String)
  | unlock
  deriving DecidableEq, Repr

/- A call of runSoftwareScript. -/
structure ScriptRun where
  job : UUID
  softwareID : String
  softwareName : String
  versionID : String
  version : String
  mode : Mode
  point : ScriptPoint
  deriving DecidableEq, Repr

inductive Worker where
  | busy
  | busyRead (inst : Option Nat)
  | claim
  | brewStart (it : QueueItem)
  | brewRun (it : QueueItem)
  | check (it : QueueItem)
  | checkJob (it : QueueItem) (job : UUID)
  | prepare (it : QueueItem)
  | register (it : QueueItem) (prepared : Prepared)
  | annotate (it : QueueItem) (run : ScriptRun)
  | script (it : QueueItem) (run : ScriptRun)
  | report (it : QueueItem) (job : UUID)
  | finish (it : QueueItem) (status : Status) (message : String) (jobID : Option UUID)
  | exit
  deriving DecidableEq, Repr

inductive Stream where
  | check (softwareID : String)
  | checkJob (softwareID : String) (job : UUID)
  | prepare (softwareID : String)
  | register (softwareID : String) (prepared : Prepared)
  deriving DecidableEq, Repr

/- StartBackgroundInstall holds its record, StreamSetupAPI looks it up. -/
inductive Owner where
  | background (inst : Nat)
  | http (jobID : Nat)
  deriving DecidableEq, Repr

inductive Setup where
  | check (auto : Bool)
  | store (auto : Bool)
  | bind
  | hello (jobID : Nat)
  | ready (owner : Owner)
  | poll (owner : Owner)
  | pollList (owner : Owner) (items : List QueueItem)
  | pollJob (owner : Owner) (items : List QueueItem) (todo : List UUID) (visible : List VisibleJob)
  | phase (owner : Owner)
  | phaseAt (jobID : Nat) (inst : Nat)
  | start (owner : Owner)
  | script (owner : Owner)
  | finish (owner : Owner) (status : Vnc.SetupStatus)
  | finishAt (jobID : Nat) (inst : Nat) (status : Vnc.SetupStatus)
  deriving DecidableEq, Repr

inductive Goroutine where
  | request (r : Request)
  | worker (w : Worker)
  | stream (s : Stream)
  | install (run : ScriptRun)
  | prune (job : UUID)
  | setup (v : Setup)
  | done
  deriving DecidableEq, Repr

abbrev Process := Interleaving.Config Shared Goroutine

end ContainerWS
