import ContainerWS.GoStrings

/-! The in-memory bulk queue of modules/softwares/install/queue.go and
brew_bridge.go: its rows and every critical section under `bulkQueue.mu`, each
a pure function. The display columns filled from the catalogue (name, icon,
image, colour, category, version label, href, times) decide nothing and are
left out. -/
namespace ContainerWS.Install
open GoStrings

/- `uuid.New()`: the number of the draw. No identifier is drawn twice. -/
abbrev UUID := Nat

inductive Action where
  | install
  | update
  | uninstall
  deriving DecidableEq, Repr

inductive Status where
  | pending
  | running
  | success
  | error
  | skipped
  | cancelled
  | dismissed
  deriving DecidableEq, Repr

inductive BrewKind where
  | formula
  | cask
  deriving DecidableEq, Repr

/- History of a row, read by no transition: the call that made it, and for
softwaresync how many uninstalls of the software were on record when the call
read the installed row. -/
inductive Origin where
  | request
  | missing (readAt : Nat)
  | brew
  | retry
  deriving DecidableEq, Repr

structure QueueItem where
  id : UUID
  softwareID : String
  action : Action
  status : Status
  jobID : Option UUID
  message : String
  versionID : String
  sourceBrew : Bool
  brewName : String
  brewKind : BrewKind
  origin : Origin
  deriving DecidableEq, Repr

/- `db` says whether the stored handle is non-nil. -/
structure BulkQueue where
  items : List QueueItem
  running : Bool
  db : Bool
  deriving DecidableEq, Repr

def QueueItem.pending (it : QueueItem) : Bool := it.status == .pending

/- The status test of the busy sets, of DismissFromQueue and of the snapshots. -/
def QueueItem.live (it : QueueItem) : Bool := it.status == .pending || it.status == .running

def uniqueFrom (seen : List String) : List String → List String
  | [] => []
  | raw::rest =>
    let id := trimSpace raw
    if id = "" ∨ id ∈ seen then uniqueFrom seen rest
    else id :: uniqueFrom (id::seen) rest

def uniqueNonEmpty (ids : List String) : List String := uniqueFrom [] ids

/- `strings.ToLower(strings.TrimSpace(action))` against the three actions. -/
def parseAction (m : CaseMap) (raw : String) : Option Action :=
  let action := m.toLower (trimSpace raw)
  if action = "install" then some .install
  else if action = "update" then some .update
  else if action = "uninstall" then some .uninstall
  else none

/- RetryQueueAPI takes an empty action for an install. -/
def parseRetryAction (m : CaseMap) (raw : String) : Option Action :=
  if m.toLower (trimSpace raw) = "" then some .install else parseAction m raw

/- EnqueueBrewActions says "upgrade" and stores it as "update". -/
def parseBrewAction (m : CaseMap) (raw : String) : Option Action :=
  let action := m.toLower (trimSpace raw)
  if action = "install" then some .install
  else if action = "upgrade" then some .update
  else if action = "uninstall" then some .uninstall
  else none

def parseBrewKind (m : CaseMap) (raw : String) : BrewKind :=
  if m.toLower (trimSpace raw) = "cask" then .cask else .formula

def cleanFrom (m : CaseMap) (seen : List String) : List String → List String
  | [] => []
  | raw::rest =>
    let name := m.toLower (trimSpace raw)
    if name = "" ∨ name ∈ seen then cleanFrom m seen rest
    else name :: cleanFrom m (name::seen) rest

def cleanNames (m : CaseMap) (names : List String) : List String := cleanFrom m [] names

def historyLimit : Nat := 200

/- "Keep a bounded history so GET /queue stays useful." -/
def bounded (items : List QueueItem) : List QueueItem :=
  if items.length > historyLimit then items.drop (items.length - historyLimit) else items

/- What `bounded` cuts off. -/
def overflow (items : List QueueItem) : List QueueItem :=
  items.take (items.length - historyLimit)

/- The append section of EnqueueAPI, EnqueueActions, EnqueueMissingInstalls and
EnqueueBrewActions. -/
def BulkQueue.append (q : BulkQueue) (db : Bool) (added : List QueueItem) : BulkQueue :=
  {q with db := db, items := bounded (q.items ++ added)}

/- The append section of RetryQueueAPI: the one that does not cut. -/
def BulkQueue.appendRetry (q : BulkQueue) (db : Bool) (item : QueueItem) : BulkQueue :=
  {q with db := db, items := q.items ++ [item]}

def startRow (it : QueueItem) : QueueItem := {it with status := .running, message := "Starting…"}

def claim : List QueueItem → Option (QueueItem × List QueueItem)
  | [] => none
  | it::rest =>
    if it.pending then some (startRow it,startRow it :: rest)
    else match claim rest with
      | none => none
      | some (row,next) => some (row,it :: next)

def claimNextQueueItem (q : BulkQueue) : Option (QueueItem × BulkQueue) :=
  match claim q.items with
  | none => none
  | some (row,items) => some (row,{q with items := items})

def finishRow (status : Status) (message : String) (jobID : Option UUID) (it : QueueItem) : QueueItem :=
  {it with jobID := jobID <|> it.jobID, message := message, status := status}

/- The worker holds a pointer to the row; rows are told apart by identifier. -/
def finishQueueItem (q : BulkQueue) (id : UUID) (status : Status) (message : String)
    (jobID : Option UUID) : BulkQueue :=
  if status = .success ∨ status = .skipped then
    {q with items := q.items.filter (fun it => it.id != id)}
  else
    {q with items := q.items.map (fun it => if it.id = id then finishRow status message jobID it else it)}

/- The section between prepareInstallJob and the script: the row shows its job. -/
def BulkQueue.annotate (q : BulkQueue) (id jobID : UUID) (versionID message : String) : BulkQueue :=
  {q with items := q.items.map (fun it =>
    if it.id = id then {it with jobID := some jobID, versionID := versionID, message := message} else it)}

def BulkQueue.annotateMessage (q : BulkQueue) (id : UUID) (message : String) : BulkQueue :=
  {q with items := q.items.map (fun it => if it.id = id then {it with message := message} else it)}

/- The first section of EnqueueMissingInstalls. -/
def pendingOrRunning (q : BulkQueue) : List String := (q.items.filter (·.live)).map (·.softwareID)

def brewKey (m : CaseMap) (it : QueueItem) : String :=
  if m.toLower it.brewName = "" then m.toLower it.softwareID else m.toLower it.brewName

/- The first section of EnqueueBrewActions. -/
def brewBusy (m : CaseMap) (q : BulkQueue) : List String :=
  ((q.items.filter (·.live)).map (brewKey m)).filter (· != "")

/- The first section of RetryQueueAPI: the row with the given identifier goes,
whatever its status, and a copy of it is kept. -/
def retryDrop (q : BulkQueue) (id : UUID) : BulkQueue × Option QueueItem :=
  match q.items.find? (fun it => it.id == id) with
  | none => (q,none)
  | some found => ({q with items := q.items.filter (fun it => it.id != id)},some found)

def dismissMatch (itemID : Option UUID) (softwareID : String) (it : QueueItem) : Bool :=
  itemID == some it.id || (softwareID != "" && it.softwareID == softwareID && it.status == .error)

/- The row section of DismissFromQueue: pending and running rows stay. -/
def dismissRows (q : BulkQueue) (itemID : Option UUID) (softwareID : String) :
    BulkQueue × List QueueItem :=
  let gone := fun it : QueueItem => dismissMatch itemID softwareID it && !it.live
  ({q with items := q.items.filter (fun it => !gone it)},q.items.filter gone)

def pendingInstall (softwareID : String) (it : QueueItem) : Bool :=
  it.softwareID == softwareID && it.action == .install && it.status == .pending

def cancelPendingInstallsForSoftware (q : BulkQueue) (softwareID : String) : BulkQueue × List QueueItem :=
  if trimSpace softwareID = "" then (q,[])
  else ({q with items := q.items.filter (fun it => !pendingInstall (trimSpace softwareID) it)},
    q.items.filter (pendingInstall (trimSpace softwareID)))

/- The deferred scan of the worker. -/
def BulkQueue.hasPending (q : BulkQueue) : Bool := q.items.any (·.pending)

/-! How the sections move rows, for any count over them. -/

theorem boundedSplit (items : List QueueItem) : items = overflow items ++ bounded items := by
  unfold overflow bounded
  split
  · exact (List.take_append_drop _ items).symm
  · have zero : items.length - historyLimit = 0 := by omega
    simp [zero]

theorem boundedCount (p : QueueItem → Bool) (items : List QueueItem) :
    (overflow items).countP p + (bounded items).countP p = items.countP p := by
  have h := congrArg (List.countP p) (boundedSplit items)
  rw [List.countP_append] at h
  omega

theorem memBounded {items : List QueueItem} {it : QueueItem} (mem : it ∈ bounded items) : it ∈ items := by
  rw [boundedSplit items]
  exact List.mem_append_right _ mem

/- A claim rewrites the first pending row and nothing else. -/
theorem claimSplit {items next : List QueueItem} {row : QueueItem}
    (claimed : claim items = some (row,next)) :
    ∃ before it after, items = before ++ it :: after ∧ it.pending = true ∧
      (∀ x ∈ before, x.pending = false) ∧ row = startRow it ∧ next = before ++ row :: after := by
  induction items generalizing next with
  | nil => simp [claim] at claimed
  | cons head tail ih =>
    simp only [claim] at claimed
    split at claimed
    · rename_i isPending
      cases Option.some.inj claimed
      exact ⟨[],head,tail,rfl,isPending,by simp,rfl,rfl⟩
    · rename_i notPending
      cases h : claim tail with
      | none => simp [h] at claimed
      | some found =>
        obtain ⟨other,rest⟩ := found
        simp only [h] at claimed
        cases Option.some.inj claimed
        obtain ⟨before,it,after,whole,isPending,none,same,parts⟩ := ih h
        refine ⟨head::before,it,after,by rw [whole]; rfl,isPending,?_,same,by rw [parts]; rfl⟩
        intro x mem
        rcases List.mem_cons.mp mem with rfl | inside
        · simpa using notPending
        · exact none x inside

theorem claimCount (p : QueueItem → Bool) {items next : List QueueItem} {row : QueueItem}
    (claimed : claim items = some (row,next)) :
    ∃ it ∈ items, it.pending = true ∧ row = startRow it ∧
      next.countP p + (p it).toNat = items.countP p + (p row).toNat := by
  obtain ⟨before,it,after,rfl,isPending,_,same,rfl⟩ := claimSplit claimed
  refine ⟨it,by simp,isPending,same,?_⟩
  simp only [List.countP_append,List.countP_cons]
  cases p it <;> cases p row <;> simp <;> omega

theorem claimMem {items next : List QueueItem} {row x : QueueItem}
    (claimed : claim items = some (row,next)) (mem : x ∈ next) : x = row ∨ x ∈ items := by
  obtain ⟨before,it,after,rfl,_,_,_,rfl⟩ := claimSplit claimed
  simp only [List.mem_append,List.mem_cons] at mem ⊢
  tauto

theorem hasPendingIff (q : BulkQueue) : q.hasPending = true ↔ ∃ it ∈ q.items, it.pending = true := by
  simp [BulkQueue.hasPending]

theorem filterCountLe (p keep : QueueItem → Bool) (items : List QueueItem) :
    (items.filter keep).countP p ≤ items.countP p := by
  rw [List.countP_filter]
  exact List.countP_mono_left (by intro x _ h; simp only [Bool.and_eq_true] at h; exact h.1)

/- Rows that a predicate selects survive a filter that only removes others. -/
theorem filterCountEq (p keep : QueueItem → Bool) (items : List QueueItem)
    (kept : ∀ it ∈ items, p it = true → keep it = true) :
    (items.filter keep).countP p = items.countP p := by
  rw [List.countP_filter]
  exact List.countP_congr (by
    intro x mem
    simp only [Bool.and_eq_true,and_iff_left_iff_imp]
    exact kept x mem)

theorem mapCountEq (p : QueueItem → Bool) (f : QueueItem → QueueItem) (items : List QueueItem)
    (same : ∀ it ∈ items, p (f it) = p it) : (items.map f).countP p = items.countP p := by
  rw [List.countP_map]
  exact List.countP_congr (by intro x mem; simp [same x mem])

/- A cancel pass is spoken of by what it keeps, never by unfolding the trimmed name. -/
attribute [irreducible] cancelPendingInstallsForSoftware

end ContainerWS.Install
