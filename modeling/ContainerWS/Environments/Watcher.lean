import ContainerWS.Interleaving
import ContainerWS.Environments.Sync

/-! One manager of packages/environments beside the writers of its database
(environments.go, watcher.go, notify.go, queue.go). Every query, every Redis call
and every section under `mu` is one step; a `Choice` says which calls fail and
whether the audit interval is over. Hooks are called outside the lock and read by
nothing here. -/
namespace ContainerWS.Environments
open GoStrings SoftDelete Interleaving

structure Hash where
  digest : List Entry → String
  nonempty : ∀ entries, digest entries ≠ ""

/- What is fixed for a process. Redis is optional. -/
structure Setting (m : UpperMap) where
  config : Config m
  hash : Hash
  redis : Bool

structure SyncQueueMessage where
  own : Bool
  eventID : Nat
  revision : Nat
  deriving DecidableEq, Repr

/- The table with its change log and revision, the fields of the manager and its
process. `version` counts the committed row changes and `applied` holds the rows
of the last applySync: they are records, read by no step. -/
structure Managed where
  table : OsEnvironments
  version : Nat
  maxID : Nat
  revision : Nat
  inbox : List SyncQueueMessage
  lastFingerprint : String
  lastWatcherEventID : Nat
  lastRedisRevision : Nat
  lastFullAudit : Bool
  managedKeys : String → Bool
  env : Environ
  applied : Option (List OsEnvironment)

structure Choice where
  fails : Bool := false
  due : Bool := false
  pick : Nat := 0

/- Rows and, as a record, the version they were loaded at. -/
structure Loaded where
  rows : List OsEnvironment
  version : Nat
  deriving DecidableEq, Repr

inductive Task where
  | commit (table : OsEnvironments)
  | bump (own : Bool)
  | event (own : Bool) (revision : Nat)
  | publish (own : Bool) (eventID revision : Nat)
  | receive
  | reload (message : Option SyncQueueMessage)
  | reloadApply (loaded : Loaded) (message : Option SyncQueueMessage)
  | raise (loaded : Loaded) (message : SyncQueueMessage)
  | poll
  | compareRevision (revision : Nat)
  | pollEvents
  | compareEvents (maxID : Nat)
  | pollRead (changed : Bool)
  | pollLoad (full : Bool) (lastFingerprint : String)
  | pollApply (full : Bool) (loaded : Loaded)
  | audited (loaded : Loaded)
  | cursorEvents (loaded : Loaded)
  | cursorRevision (loaded : Loaded)
  | init
  | initApply (loaded : Loaded)
  | initState
  | initStore (loaded : Loaded)
  | initEvents (loaded : Loaded)
  | initRevision (loaded : Loaded)
  | initAudit
  | done

/- A row change commits together with its event and, where pods share one, its
revision; NotifyChange of this process or another; and what reaches the manager. -/
inductive Request where
  | write (table : OsEnvironments)
  | notifyChange (own : Bool)
  | tick
  | message
  | reload

def Task.start : Request → Task
  | .write table => .commit table
  | .notifyChange own => .bump own
  | .tick => .poll
  | .message => .receive
  | .reload => .reload none

variable {m : UpperMap} (p : Setting m)

def Managed.load (s : Managed) : Loaded := ⟨loadFromDB p.config s.table,s.version⟩

def Managed.sync (s : Managed) (rows : List OsEnvironment) : Managed :=
  let synced := applySync p.hash.digest p.config s.managedKeys s.env rows
  {s with
    env := synced.env
    managedKeys := synced.managedKeys
    lastFingerprint := synced.lastFingerprint
    applied := some rows}

def Managed.raise (s : Managed) (message : SyncQueueMessage) : Managed :=
  {s with
    lastWatcherEventID := max s.lastWatcherEventID message.eventID
    lastRedisRevision := max s.lastRedisRevision message.revision}

abbrev Moved := Option (Managed × Task × List Task)

def stay (s : Managed) (t : Task) : Moved := some (s,t,[])

def Task.next (k : Choice) (s : Managed) : Task → Moved
  | .commit table =>
    stay {s with
      table := table
      version := s.version+1
      maxID := s.maxID+1
      revision := if p.redis then s.revision+1 else s.revision} .done
  | .bump own =>
    if p.redis = false ∨ k.fails then stay s (.event own 0)
    else stay {s with revision := s.revision+1} (.event own (s.revision+1))
  | .event own revision =>
    if k.fails then stay s .done else stay {s with maxID := s.maxID+1} (.publish own (s.maxID+1) revision)
  | .publish own eventID revision =>
    if p.redis = false ∨ k.fails then stay s (if own then .reload none else .done)
    else stay {s with inbox := s.inbox ++ [⟨own,eventID,revision⟩]} (if own then .reload none else .done)
  | .receive =>
    match s.inbox[k.pick]? with
    | none => none
    | some message => stay s (if message.own then .done else .reload (some message))
  | .reload message => if k.fails then stay s .done else stay s (.reloadApply (s.load p) message)
  | .reloadApply loaded message =>
    stay (s.sync p loaded.rows) (match message with
      | none => .done
      | some message => .raise loaded message)
  | .raise _ message => stay (s.raise message) .done
  | .poll => if p.redis = false ∨ k.fails then stay s .pollEvents else stay s (.compareRevision s.revision)
  | .compareRevision revision => stay s (.pollRead (revision != s.lastRedisRevision))
  | .pollEvents => if k.fails then stay s .done else stay s (.compareEvents s.maxID)
  | .compareEvents maxID => stay s (.pollRead (decide (s.lastWatcherEventID < maxID)))
  | .pollRead changed =>
    if changed then stay s (.pollLoad false s.lastFingerprint)
    else if s.lastFullAudit = false ∨ k.due then stay s (.pollLoad true s.lastFingerprint)
    else stay s .done
  | .pollLoad full lastFingerprint =>
    if k.fails then stay s .done
    else if fingerprint p.hash.digest (s.load p).rows = lastFingerprint then
      stay s (if full then .audited (s.load p) else .cursorEvents (s.load p))
    else stay s (.pollApply full (s.load p))
  | .pollApply full loaded =>
    stay (s.sync p loaded.rows) (if full then .audited loaded else .cursorEvents loaded)
  | .audited loaded => stay {s with lastFullAudit := true} (.cursorEvents loaded)
  | .cursorEvents loaded =>
    if k.fails then stay s (.cursorRevision loaded)
    else stay {s with lastWatcherEventID := s.maxID} (.cursorRevision loaded)
  | .cursorRevision _ =>
    if p.redis = false ∨ k.fails then stay s .done else stay {s with lastRedisRevision := s.revision} .done
  | .init => if k.fails then stay s .initState else stay s (.initApply (s.load p))
  | .initApply loaded => stay (s.sync p loaded.rows) .initState
  | .initState => if k.fails then stay s .done else stay s (.initStore (s.load p))
  | .initStore loaded =>
    stay {s with lastFingerprint := fingerprint p.hash.digest loaded.rows} (.initEvents loaded)
  | .initEvents loaded =>
    if k.fails then stay s (.initRevision loaded)
    else stay {s with lastWatcherEventID := s.maxID} (.initRevision loaded)
  | .initRevision _ =>
    if p.redis = false ∨ k.fails then stay s .initAudit
    else stay {s with lastRedisRevision := s.revision} .initAudit
  | .initAudit => stay {s with lastFullAudit := true} .done
  | .done => none

def watcher : System Managed Task Request Choice := ⟨Task.start,Task.next p⟩

abbrev Process := Interleaving.Config Managed Task

abbrev Events := List (Event Request Choice)

/- New is about to call Init; the manager has its zero values. -/
def newManager (table : OsEnvironments) (maxID revision : Nat) (env : Environ) : Process :=
  ⟨⟨table,0,maxID,revision,[],"",0,0,false,fun _ => false,env,none⟩,[.init]⟩

/- The rows a task has loaded and not yet done with. -/
def Task.loaded : Task → Option Loaded
  | .reloadApply loaded _ => some loaded
  | .raise loaded _ => some loaded
  | .pollApply _ loaded => some loaded
  | .audited loaded => some loaded
  | .cursorEvents loaded => some loaded
  | .cursorRevision loaded => some loaded
  | .initApply loaded => some loaded
  | .initStore loaded => some loaded
  | .initEvents loaded => some loaded
  | .initRevision loaded => some loaded
  | _ => none

def Task.applies : Task → Bool
  | .reloadApply _ _ => true
  | .pollApply _ _ => true
  | .initApply _ => true
  | _ => false

def Task.readsEvents : Task → Bool
  | .cursorEvents _ => true
  | .initEvents _ => true
  | _ => false

def Task.readsRevision : Task → Bool
  | .cursorRevision _ => true
  | .initRevision _ => true
  | _ => false

/- Points reached only once the fingerprint has been compared or stored. -/
def Task.settled : Task → Bool
  | .audited _ => true
  | .initEvents _ => true
  | .initRevision _ => true
  | .initAudit => true
  | _ => false

/- What a step does to the shared state. -/
inductive Effect (k : Choice) (s : Managed) (t : Task) : Managed → Prop where
  | quiet : Effect k s t s
  | commit {table} (here : t = .commit table) : Effect k s t {s with
      table := table
      version := s.version+1
      maxID := s.maxID+1
      revision := if p.redis then s.revision+1 else s.revision}
  | bump : Effect k s t {s with revision := s.revision+1}
  | event : Effect k s t {s with maxID := s.maxID+1}
  | publish {own eventID revision} (here : t = .publish own eventID revision) :
      Effect k s t {s with inbox := s.inbox ++ [⟨own,eventID,revision⟩]}
  | sync {loaded} (applies : t.applies = true) (carried : t.loaded = some loaded) :
      Effect k s t (s.sync p loaded.rows)
  | raise {loaded message} (here : t = .raise loaded message) : Effect k s t (s.raise message)
  | audit (settled : t.settled = true) : Effect k s t {s with lastFullAudit := true}
  | events (reads : t.readsEvents = true) (answers : k.fails = false) :
      Effect k s t {s with lastWatcherEventID := s.maxID}
  | revision (reads : t.readsRevision = true) (answers : p.redis = true ∧ k.fails = false) :
      Effect k s t {s with lastRedisRevision := s.revision}
  | store {loaded} (here : t = .initStore loaded) :
      Effect k s t {s with lastFingerprint := fingerprint p.hash.digest loaded.rows}

variable {p}

theorem Task.effects {k : Choice} {s s' : Managed} {t t' : Task} {new : List Task}
    (stepped : t.next p k s = some (s',t',new)) : Effect p k s t s' ∧ new = [] := by
  cases t with
  | commit table =>
    cases stepped
    exact ⟨.commit rfl,rfl⟩
  | bump own =>
    simp only [Task.next] at stepped
    split at stepped <;> cases stepped
    · exact ⟨.quiet,rfl⟩
    · exact ⟨.bump,rfl⟩
  | event own revision =>
    simp only [Task.next] at stepped
    split at stepped <;> cases stepped
    · exact ⟨.quiet,rfl⟩
    · exact ⟨.event,rfl⟩
  | publish own eventID revision =>
    simp only [Task.next] at stepped
    split at stepped <;> cases stepped
    · exact ⟨.quiet,rfl⟩
    · exact ⟨.publish rfl,rfl⟩
  | receive =>
    simp only [Task.next] at stepped
    split at stepped <;> cases stepped
    exact ⟨.quiet,rfl⟩
  | reload message =>
    simp only [Task.next] at stepped
    split at stepped <;> cases stepped <;> exact ⟨.quiet,rfl⟩
  | reloadApply loaded message =>
    cases stepped
    exact ⟨.sync rfl rfl,rfl⟩
  | raise loaded message =>
    cases stepped
    exact ⟨.raise rfl,rfl⟩
  | poll =>
    simp only [Task.next] at stepped
    split at stepped <;> cases stepped <;> exact ⟨.quiet,rfl⟩
  | compareRevision revision =>
    cases stepped
    exact ⟨.quiet,rfl⟩
  | pollEvents =>
    simp only [Task.next] at stepped
    split at stepped <;> cases stepped <;> exact ⟨.quiet,rfl⟩
  | compareEvents maxID =>
    cases stepped
    exact ⟨.quiet,rfl⟩
  | pollRead changed =>
    simp only [Task.next] at stepped
    split at stepped
    · cases stepped
      exact ⟨.quiet,rfl⟩
    · split at stepped <;> cases stepped <;> exact ⟨.quiet,rfl⟩
  | pollLoad full lastFingerprint =>
    simp only [Task.next] at stepped
    split at stepped
    · cases stepped
      exact ⟨.quiet,rfl⟩
    · split at stepped <;> cases stepped <;> exact ⟨.quiet,rfl⟩
  | pollApply full loaded =>
    cases stepped
    exact ⟨.sync rfl rfl,rfl⟩
  | audited loaded =>
    cases stepped
    exact ⟨.audit rfl,rfl⟩
  | cursorEvents loaded =>
    simp only [Task.next] at stepped
    split at stepped <;> cases stepped
    · exact ⟨.quiet,rfl⟩
    · exact ⟨.events rfl (by simp_all),rfl⟩
  | cursorRevision loaded =>
    simp only [Task.next] at stepped
    split at stepped <;> cases stepped
    · exact ⟨.quiet,rfl⟩
    · exact ⟨.revision rfl (by simp_all),rfl⟩
  | init =>
    simp only [Task.next] at stepped
    split at stepped <;> cases stepped <;> exact ⟨.quiet,rfl⟩
  | initApply loaded =>
    cases stepped
    exact ⟨.sync rfl rfl,rfl⟩
  | initState =>
    simp only [Task.next] at stepped
    split at stepped <;> cases stepped <;> exact ⟨.quiet,rfl⟩
  | initStore loaded =>
    cases stepped
    exact ⟨.store rfl,rfl⟩
  | initEvents loaded =>
    simp only [Task.next] at stepped
    split at stepped <;> cases stepped
    · exact ⟨.quiet,rfl⟩
    · exact ⟨.events rfl (by simp_all),rfl⟩
  | initRevision loaded =>
    simp only [Task.next] at stepped
    split at stepped <;> cases stepped
    · exact ⟨.quiet,rfl⟩
    · exact ⟨.revision rfl (by simp_all),rfl⟩
  | initAudit =>
    cases stepped
    exact ⟨.audit rfl,rfl⟩
  | done => contradiction

end ContainerWS.Environments
