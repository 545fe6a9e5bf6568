import ContainerWS.Install.Followed

/-! SwitchPackageManager of modules/brew/switch.go on its way to brew, beside all that works on the
softwares queue. The switch enqueues the local uninstall and asks the queue every 800 ms how it goes;
it asks by the software, not by the row. -/
namespace ContainerWS.Brew
open Install Interleaving GoStrings

/- What the call knows when it looks at the installed row: the software of the catalogue, the version
that fits the host and whether that has an uninstall script. -/
structure Switch where
  softwareID : String
  versionID : String
  uninstallScript : Bool
  trimmed : trimSpace softwareID = softwareID
  named : softwareID ≠ ""

inductive Failure where
  | noUninstallScript
  | notEnqueued
  | context
  | timedOut
  | queueItem
  | brewInstall
  | mark
  deriving DecidableEq, Repr

/- What the wait for the queue ends with by itself. -/
def Failure.queue : Failure → Bool
  | .timedOut => true
  | .queueItem => true
  | _ => false

inductive Phase where
  | look
  | enqueue (r : Request)
  | poll
  | pollList (items : List QueueItem)
  | pollJob (items : List QueueItem) (todo : List UUID) (visible : List VisibleJob)
  | install
  | mark
  | done
  | failed (f : Failure)
  deriving DecidableEq, Repr

/- How what the switch does not decide turns out: a call of it fails, its ten minutes are over, the
job it meets next. -/
structure Turn where
  fails : Bool := false
  expired : Bool := false
  pick : Nat := 0
  deriving DecidableEq, Repr

/- `item` is the row that the switch has enqueued and `ended` how a worker ended it; no step reads
either. -/
structure State where
  process : Process
  phase : Phase
  item : Option UUID
  ended : Option Status

inductive Verdict where
  | failed
  | busy
  | finished
  deriving DecidableEq, Repr

/- The loop over the view of the queue: an item in error ends it, a live one makes it go on. -/
def verdict (softwareID : String) (items : List QueueItem) (visible : List VisibleJob) : Verdict :=
  let rows := (activeRows items).filter (fun it => it.softwareID == softwareID)
  let jobs := (mergedJobs items visible).filter (fun j => j.softwareID == softwareID)
  if rows.any (fun it => it.status == .error) || jobs.any (fun j => !j.running) then .failed
  else if rows.any (fun it => it.live) || jobs.any (fun j => j.running) then .busy
  else .finished

def markSoftwareInstalledWithManager (rows : Installed) (softwareID versionID : String) (pm : PackageManager) : Installed :=
  if softwareID = "" ∨ versionID = "" then rows
  else Function.update rows softwareID (some ⟨versionID,pm,false,false⟩)

def State.to (s : State) (phase : Phase) : Option State := some {s with phase := phase}

/- Where a request of the queue leads. A row is enqueued, and the worker woken, when it is done. -/
def afterRequest (r : Request) : Goroutine → Phase
  | .request r' => .enqueue r'
  | _ =>
    match r with
    | .switchCancel _ _ _ => .failed .notEnqueued
    | _ => .poll

variable (m : CaseMap) (w : Switch)

/- A query of the installed row that fails reads as none. -/
def Switch.next (k : Turn) (s : State) : Option State :=
  match s.phase with
  | .look =>
    match if k.fails then none else getSoftwareInstalled s.process.shared.installed w.softwareID with
    | some row =>
      if row.uninstalled = false ∧ row.packageManager = .packageManagerLocal then
        if w.uninstallScript then s.to (.enqueue (.switchCancel w.softwareID none .uninstall))
        else s.to (.failed .noUninstallScript)
      else s.to .install
    | none => s.to .install
  | .enqueue r =>
    match r.next m {} s.process.shared with
    | none => none
    | some (shared,g,new) =>
      some {s with
        process := ⟨shared,s.process.pool ++ new⟩,
        phase := afterRequest r g,
        item := match r with
          | .enqueueActions _ _ _ => some s.process.shared.drawn
          | _ => s.item }
  | .poll =>
    if k.fails then s.to (.failed .context)
    else if k.expired then s.to (.failed .timedOut)
    else s.to (.pollList s.process.shared.queue.items)
  | .pollList items => s.to (.pollJob items s.process.shared.jobs.byID [])
  | .pollJob items todo visible =>
    match todo with
    | [] =>
      match verdict w.softwareID items visible with
      | .failed => s.to (.failed .queueItem)
      | .busy => if k.fails then s.to (.failed .context) else s.to .poll
      | .finished => s.to .install
    | id :: rest =>
      match (id :: rest)[k.pick]? with
      | none => none
      | some chosen =>
        s.to (.pollJob items ((id :: rest).erase chosen) (visible ++ readJob s.process.shared.jobs chosen))
  | .install => if k.fails then s.to (.failed .brewInstall) else s.to .mark
  | .mark =>
    if k.fails then s.to (.failed .mark)
    else
      let shared := s.process.shared
      some {s with
        process := ⟨{shared with
          installed := markSoftwareInstalledWithManager shared.installed w.softwareID w.versionID .packageManagerBrew},
          s.process.pool⟩,
        phase := .done }
  | .done => none
  | .failed _ => none

inductive Move where
  | process (e : Interleaving.Event Call Choice)
  | turn (k : Turn)

/- How the row has ended after a move of the process. -/
def State.endedAfter (s : State) : Interleaving.Event Call Choice → Option Status
  | .call _ => s.ended
  | .step i _ =>
    match s.item,s.process.pool[i]? with
    | some n,some t => endedBy n s.ended t
    | _,_ => s.ended

def step (s : State) : Move → Option State
  | .process e =>
    match exec (host m) s.process e with
    | none => none
    | some p => some {s with process := p, ended := s.endedAfter e}
  | .turn k => w.next m k s

/- The process after boot, and a call that begins at some time. -/
def opening (installed : Installed) : State := ⟨boot installed,.look,none,none⟩

end ContainerWS.Brew
