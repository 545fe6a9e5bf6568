import ContainerWS.Install.Worker
import ContainerWS.Vnc.Setup

/-! All goroutines together: the calls that may arrive and the step of any one
of them. -/
namespace ContainerWS
open Install Interleaving GoStrings

inductive Call where
  | enqueueAPI (db : Bool) (action : String) (softwareIDs : List String)
  | enqueueActions (db : Bool) (action : String) (softwareIDs : List String)
  | enqueueMissingInstalls (db : Bool) (items : List MissingInstall)
  | enqueueBrewActions (db : Bool) (action : String) (names : List String) (kind : String)
  | retryQueueAPI (db : Bool) (id : Option UUID) (softwareID action : String)
  | dismissFromQueue (itemID : Option RowRef) (softwareID : String)
  | switchToLocal (softwareID : String)
  | switchToBrew (softwareID : String)
  | streamInstallAPI (softwareID : String)
  | startBackgroundInstall (auto : Bool)
  | streamSetupAPI
  deriving DecidableEq, Repr

abbrev Events := List (Event Call Choice)

def startEnqueueAPI (db : Bool) (action : Option Action) (softwareIDs : List String) : Goroutine :=
  match action with
  | none => .done
  | some action => if softwareIDs = [] then .done else .request (.enqueueAPI db action softwareIDs [])

def startBrew (db : Bool) (action : Option Action) (names : List String) (kind : BrewKind) : Goroutine :=
  match action with
  | none => .done
  | some action => if names = [] then .done else .request (.brewBusy db action kind names)

def startRetry (db : Bool) (id : Option UUID) (softwareID : String) : Option Action → Goroutine
  | none => .done
  | some action =>
    match id with
    | none => .request (.retryItem db none softwareID action)
    | some id => .request (.retryFind db id softwareID action)

/- Decoding and validation of a call, up to its first use of the host. -/
def start (m : CaseMap) : Call → Goroutine
  | .enqueueAPI db action softwareIDs =>
    startEnqueueAPI db (parseAction m action) (uniqueNonEmpty softwareIDs)
  | .enqueueActions db action softwareIDs => startActions db (parseAction m action) softwareIDs
  | .enqueueMissingInstalls db items =>
    if db = false ∨ items = [] then .done else .request (.missingBusy db items)
  | .enqueueBrewActions db action names kind =>
    startBrew db (parseBrewAction m action) (cleanNames m names) (parseBrewKind m kind)
  | .retryQueueAPI db id softwareID action =>
    startRetry db id (trimSpace softwareID) (parseRetryAction m action)
  | .dismissFromQueue itemID softwareID =>
    if itemID = none ∧ trimSpace softwareID = "" then .done
    else .request (.dismissItem itemID (trimSpace softwareID))
  | .switchToLocal softwareID => .request (.switchMark softwareID)
  | .switchToBrew softwareID => .request (.switchCancel softwareID none .uninstall)
  | .streamInstallAPI softwareID => if softwareID = "" then .done else .stream (.check softwareID)
  | .startBackgroundInstall auto => .setup (.check auto)
  | .streamSetupAPI => .setup .bind

def next (m : CaseMap) (k : Choice) (s : Shared) : Goroutine → Stepped
  | .request r => r.next m k s
  | .worker w => w.next k s
  | .stream v => v.next k s
  | .install run => installNext k s run
  | .prune job => pruneNext s job
  | .setup v => v.next k s
  | .done => none

def host (m : CaseMap) : System Shared Goroutine Call Choice := ⟨start m,next m⟩

/- A VNC setup script is executing. -/
def setupScript : Goroutine → Bool
  | .setup (.script _) => true
  | _ => false

/- The process after boot: an empty queue, no job, no active install and
whatever the software_installed table holds. -/
def boot (installed : Installed) : Process :=
  ⟨⟨⟨[],false,false⟩,⟨[],[],fun _ => none⟩,installed,false,⟨[],none⟩,0,
    ⟨[],[],[],[],fun _ => 0,fun _ => 0⟩⟩,[]⟩

theorem cleanFromLower {m : CaseMap} {seen names : List String} {name : String}
    (mem : name ∈ cleanFrom m seen names) : m.toLower name = name ∧ name ≠ "" := by
  induction names generalizing seen with
  | nil => contradiction
  | cons raw rest ih =>
    simp only [cleanFrom] at mem
    split at mem
    · exact ih mem
    · rename_i fresh
      rcases List.mem_cons.mp mem with rfl | inside
      · exact ⟨m.toLowerTwice _,fun empty => fresh (.inl empty)⟩
      · exact ih inside

/- Where a call stands when it enters the pool. -/
inductive Started (m : CaseMap) : Goroutine → Prop where
  | quiet {g} (silent : g.quiet = true) : Started m g
  | enqueueAPI {db action todo} : Started m (.request (.enqueueAPI db action todo []))
  | missing {db items} : Started m (.request (.missingBusy db items))
  | brew {db action kind names} (clean : ∀ name ∈ names, m.toLower name = name ∧ name ≠ "") :
      Started m (.request (.brewBusy db action kind names))
  | stream {softwareID} : Started m (.stream (.check softwareID))
  | background {auto} : Started m (.setup (.check auto))
  | http : Started m (.setup .bind)

theorem startCases (m : CaseMap) (call : Call) : Started m (start m call) := by
  cases call with
  | enqueueAPI db action softwareIDs =>
    simp only [start,startEnqueueAPI]
    split
    · exact .quiet rfl
    · split
      · exact .quiet rfl
      · exact .enqueueAPI
  | enqueueActions db action softwareIDs =>
    simp only [start]
    exact .quiet (quietActions _ _ _)
  | enqueueMissingInstalls db items =>
    simp only [start]
    split
    · exact .quiet rfl
    · exact .missing
  | enqueueBrewActions db action names kind =>
    simp only [start,startBrew]
    split
    · exact .quiet rfl
    · split
      · exact .quiet rfl
      · exact .brew (fun _ mem => cleanFromLower mem)
  | retryQueueAPI db id softwareID action =>
    simp only [start,startRetry]
    split
    · exact .quiet rfl
    · split <;> exact .quiet rfl
  | dismissFromQueue itemID softwareID =>
    simp only [start]
    split <;> exact .quiet rfl
  | switchToLocal softwareID =>
    simp only [start]
    exact .quiet rfl
  | switchToBrew softwareID =>
    simp only [start]
    exact .quiet rfl
  | streamInstallAPI softwareID =>
    simp only [start]
    split
    · exact .quiet rfl
    · exact .stream
  | startBackgroundInstall auto => exact .background
  | streamSetupAPI => exact .http

/- The setup runs share nothing with the queue and the jobs but their reads. -/
theorem setupFrame {k : Choice} {s s' : Shared} {v : Setup} {g : Goroutine} {new : List Goroutine}
    (stepped : v.next k s = some (s',g,new)) :
    s'.queue = s.queue ∧ s'.jobs = s.jobs ∧ s'.installed = s.installed ∧ s'.serial = s.serial ∧
    s'.history = s.history ∧ s.drawn ≤ s'.drawn ∧
    (g = .done ∨ ∃ w, g = .setup w) ∧ ∀ u ∈ new, ∃ w, u = .setup w := by
  cases Setup.steps stepped <;> simp [Shared.draw]

end ContainerWS
