import ContainerWS.Host

/-! The callers of the bulk queue: EnqueueAPI, EnqueueActions,
EnqueueMissingInstalls, EnqueueBrewActions, RetryQueueAPI, DismissFromQueue,
kickQueueWorker and the package-manager switch of modules/brew/switch.go.
`Request.next` runs one program point. -/
namespace ContainerWS
open Install GoStrings

def newItem (id : UUID) (softwareID : String) (action : Action) : QueueItem :=
  ⟨id,softwareID,action,.pending,none,"","",false,"",.formula,.request⟩

def newItems (drawn : Nat) (action : Action) : List String → List QueueItem
  | [] => []
  | s::rest => newItem drawn s action :: newItems (drawn+1) action rest

def missingInstallItem (id : UUID) (m : MissingInstall) (readAt : Nat) : QueueItem :=
  ⟨id,trimSpace m.softwareID,.install,.pending,none,"Queued — missing on OS",trimSpace m.versionID,
    false,"",.formula,.missing readAt⟩

def brewLabel : Action → String
  | .install => "Install queued (Brew)"
  | .update => "Update queued (Brew)"
  | .uninstall => "Uninstall queued (Brew)"

def brewItem (id : UUID) (name : String) (action : Action) (kind : BrewKind) : QueueItem :=
  ⟨id,"brew:" ++ name,action,.pending,none,brewLabel action,"",true,name,kind,.brew⟩

/- The loop over the clean names: busy ones are passed over, and a name taken
becomes busy. -/
def brewAdded (drawn : Nat) (action : Action) (kind : BrewKind) (busy : List String) :
    List String → List QueueItem
  | [] => []
  | name::rest =>
    if name ∈ busy then brewAdded drawn action kind busy rest
    else brewItem drawn name action kind :: brewAdded (drawn+1) action kind (name::busy) rest

def retryBrewItem (id : UUID) (found : QueueItem) (action : Action) : QueueItem :=
  ⟨id,found.softwareID,action,.pending,none,"Retry queued","",true,found.brewName,found.brewKind,.retry⟩

def retrySoftwareItem (id : UUID) (softwareID : String) (action : Action) : QueueItem :=
  ⟨id,softwareID,action,.pending,none,"Retry queued","",false,"",.formula,.retry⟩

/- The row of a retry, or the answer "id or software_id required". -/
def retryRow (id : UUID) (found : Option QueueItem) (softwareID : String) (action : Action) :
    Option QueueItem :=
  match found with
  | some it =>
    if it.brewName ≠ "" then some (retryBrewItem id it action)
    else if softwareID = "" then none else some (retrySoftwareItem id softwareID action)
  | none => if softwareID = "" then none else some (retrySoftwareItem id softwareID action)

/- EnqueueActions up to its first use of the host. -/
def startActions (db : Bool) (action : Option Action) (softwareIDs : List String) : Goroutine :=
  match action with
  | none => .done
  | some action =>
    if db = false ∨ uniqueNonEmpty softwareIDs = [] then .done
    else .request (.enqueueActions db action (uniqueNonEmpty softwareIDs))

/- A candidate is appended and its software counts as busy from here on. -/
def MissingCall.candidate (call : MissingCall) (id : UUID) (m : MissingInstall)
    (rest : List MissingInstall) (readAt : Nat) : MissingCall :=
  {call with
    todo := rest
    busy := trimSpace m.softwareID :: call.busy
    candidates := call.candidates ++ [missingInstallItem id m readAt]}

def MissingCall.skip (call : MissingCall) (rest : List MissingInstall) : MissingCall :=
  {call with todo := rest}

abbrev Stepped := Option (Shared × Goroutine × List Goroutine)

def go (s : Shared) (r : Request) : Stepped := some (s,.request r,[])

def finished (s : Shared) : Stepped := some (s,.done,[])

def Shared.draw (s : Shared) (n : Nat) : Shared := {s with drawn := s.drawn+n}

def Shared.queued (s : Shared) (q : BulkQueue) (added : List QueueItem) : Shared :=
  {s with
    queue := q
    history := {s.history with queued := s.history.queued ++ added.map (·.id)}}

def Shared.cancel (s : Shared) (softwareID : String) : Shared :=
  let out := cancelPendingInstallsForSoftware s.queue softwareID
  {s with
    queue := out.1
    history := {s.history with cancelled := s.history.cancelled ++ out.2.map (·.id)}}

/- MarkSoftwareUninstalled, with its place among the marks. -/
def Shared.mark (s : Shared) (softwareID : String) : Shared :=
  {s with
    installed := markSoftwareUninstalled s.installed softwareID
    history := {s.history with
      marks := Function.update s.history.marks softwareID (s.history.marks softwareID + 1)}}

/- The cancel pass of the uninstall that made mark number `mark` is over. -/
def Shared.complete (s : Shared) (softwareID : String) (mark : Nat) : Shared :=
  {s with history := {s.history with
    completed := Function.update s.history.completed softwareID
      (max (s.history.completed softwareID) mark)}}

/- A failing query of the installed row reads as "not uninstalled" and "not brew". -/
def Request.next (m : CaseMap) (k : Choice) (s : Shared) : Request → Stepped
  | .enqueueAPI db action todo added =>
    match todo with
    | [] => if added = [] then finished s else go s (.append db added)
    | id::rest =>
      if k.fails = false ∧ getSoftwarePackageManager s.installed id = some .packageManagerBrew then
        go s (.enqueueAPI db action rest added)
      else go (s.draw 1) (.enqueueAPI db action rest (added ++ [newItem s.drawn id action]))
  | .enqueueActions db action ids =>
    go (s.draw ids.length) (.append db (newItems s.drawn action ids))
  | .missingBusy db items => go s (.missingItem ⟨db,items,pendingOrRunning s.queue,[]⟩)
  | .missingItem call =>
    match call.todo with
    | [] => if call.candidates = [] then finished s else go s (.append call.db call.candidates)
    | item::rest =>
      if trimSpace item.softwareID = "" then go s (.missingItem (call.skip rest))
      else if k.fails = false ∧ isSoftwareUninstalled s.installed (trimSpace item.softwareID) then
        go s (.missingItem (call.skip rest))
      else go s (.missingManager call (s.history.marks (trimSpace item.softwareID)))
  | .missingManager call readAt =>
    match call.todo with
    | [] => finished s
    | item::rest =>
      if k.fails = false ∧
          getSoftwarePackageManager s.installed (trimSpace item.softwareID) = some .packageManagerBrew then
        go s (.missingItem (call.skip rest))
      else if trimSpace item.softwareID ∈ call.busy then go s (.missingItem (call.skip rest))
      else go s (.missingLatest call readAt)
  | .missingLatest call readAt =>
    match call.todo with
    | [] => finished s
    | item::rest =>
      match getLatestJobForSoftware s.jobs (trimSpace item.softwareID) with
      | some j => go s (.missingActive call readAt j.id)
      | none => go (s.draw 1) (.missingItem (call.candidate s.drawn item rest readAt))
  | .missingActive call readAt job =>
    match call.todo with
    | [] => finished s
    | item::rest =>
      if s.jobs.runningAt job then go s (.missingItem (call.skip rest))
      else go (s.draw 1) (.missingItem (call.candidate s.drawn item rest readAt))
  | .brewBusy db action kind names => go s (.brewItems db action kind names (Install.brewBusy m s.queue))
  | .brewItems db action kind names busy =>
    let added := brewAdded s.drawn action kind busy names
    if added = [] then finished s else go (s.draw added.length) (.append db added)
  | .append db added => go (s.queued (s.queue.append db added) added) .kick
  | .retryFind db id softwareID action =>
    match retryDrop s.queue id with
    | (q,none) => go {s with queue := q} (.retryItem db none softwareID action)
    | (q,some found) => go {s with queue := q} (.retryItem db (some found) found.softwareID found.action)
  | .retryItem db found softwareID action =>
    match retryRow s.drawn found softwareID action with
    | none => finished s
    | some item => go (s.draw 1) (.retryAppend db item)
  | .retryAppend db item => go (s.queued (s.queue.appendRetry db item) [item]) .kick
  | .kick =>
    if s.queue.running then finished s
    else go {s with queue := {s.queue with running := true}} (.flagged s.queue.db)
  | .flagged db =>
    if db then some (s,.done,[.worker .busy])
    else finished {s with queue := {s.queue with running := false}}
  | .dismissItem itemID softwareID =>
    match itemID with
    | none => go s (.dismissRows none softwareID)
    | some ref => go {s with jobs := dismissJob s.jobs ref.id} (.dismissRows (some ref) softwareID)
  | .dismissRows itemID softwareID =>
    let row := itemID.bind (fun ref => if ref.jobPrefix then none else some ref.id)
    let out := Install.dismissRows s.queue row softwareID
    let dismissed := {s with queue := out.1, jobs := dismissJobs s.jobs (out.2.filterMap (·.jobID))}
    if softwareID = "" then finished dismissed else go dismissed (.dismissLatest softwareID)
  | .dismissLatest softwareID =>
    match getLatestJobForSoftware s.jobs softwareID with
    | none => finished s
    | some j => go s (.dismissStatus j.id)
  | .dismissStatus job =>
    if (s.jobs.at job).any (fun j => j.status == .error) then go s (.dismissFailed job) else finished s
  | .dismissFailed job => finished {s with jobs := dismissJob s.jobs job}
  | .switchMark softwareID =>
    if k.fails then go s (.switchCancel softwareID none .install)
    else go (s.mark softwareID)
      (.switchCancel softwareID (some (s.history.marks softwareID + 1)) .install)
  | .switchCancel softwareID mark action =>
    match mark with
    | none => some (s.cancel softwareID,startActions true (some action) [softwareID],[])
    | some n => some ((s.cancel softwareID).complete softwareID n,
        startActions true (some action) [softwareID],[])

/- The rows a request has made and not yet appended. -/
def Request.cargo : Request → List QueueItem
  | .enqueueAPI _ _ _ added => added
  | .missingItem call => call.candidates
  | .missingManager call _ => call.candidates
  | .missingLatest call _ => call.candidates
  | .missingActive call _ _ => call.candidates
  | .append _ added => added
  | .retryAppend _ item => [item]
  | _ => []

/- Points that hold no row, no mark and no part in waking the worker, and take
no busy set. -/
def Request.quiet : Request → Bool
  | .enqueueActions _ _ _ => true
  | .retryFind _ _ _ _ => true
  | .retryItem _ _ _ _ => true
  | .dismissItem _ _ => true
  | .dismissRows _ _ => true
  | .dismissLatest _ => true
  | .dismissStatus _ => true
  | .dismissFailed _ => true
  | .switchMark _ => true
  | .switchCancel _ mark _ => mark.isNone
  | _ => false

def Goroutine.quiet : Goroutine → Bool
  | .request r => r.quiet
  | .done => true
  | _ => false

def Request.calm : Request → Bool
  | .kick => false
  | .flagged _ => false
  | _ => true

def Request.missingCall : Request → Option MissingCall
  | .missingItem call => some call
  | .missingManager call _ => some call
  | .missingLatest call _ => some call
  | .missingActive call _ _ => some call
  | _ => none

/- Past the busy test: the next read may turn the item into a candidate. -/
def Request.missingRead : Request → Option (MissingCall × Nat)
  | .missingLatest call readAt => some (call,readAt)
  | .missingActive call readAt _ => some (call,readAt)
  | _ => none

/- What one step of a request can do. -/
inductive Request.Step (m : CaseMap) (s : Shared) :
    Request → Shared → Goroutine → List Goroutine → Prop where
  | leave {r} (calm : r.calm = true) : Step m s r s .done []
  | quiet {r g} (ids : List UUID) (before : r.quiet = true) (after : g.quiet = true) :
      Step m s r {s with jobs := dismissJobs s.jobs ids} g []
  | apiAppend {db action added} :
      Step m s (.enqueueAPI db action [] added) s (.request (.append db added)) []
  | apiSkip {db action id rest added} :
      Step m s (.enqueueAPI db action (id::rest) added) s (.request (.enqueueAPI db action rest added)) []
  | apiItem {db action id rest added} :
      Step m s (.enqueueAPI db action (id::rest) added) (s.draw 1)
        (.request (.enqueueAPI db action rest (added ++ [newItem s.drawn id action]))) []
  | actions {db action ids} :
      Step m s (.enqueueActions db action ids) (s.draw ids.length)
        (.request (.append db (newItems s.drawn action ids))) []
  | missingBusy {db items} :
      Step m s (.missingBusy db items) s (.request (.missingItem ⟨db,items,pendingOrRunning s.queue,[]⟩)) []
  | missingAppend {call} (last : call.todo = []) :
      Step m s (.missingItem call) s (.request (.append call.db call.candidates)) []
  | missingSkip {r call item rest} (at_ : r.missingCall = some call) (todo : call.todo = item::rest) :
      Step m s r s (.request (.missingItem (call.skip rest))) []
  | missingFlag {call item rest} (todo : call.todo = item::rest) (named : trimSpace item.softwareID ≠ "") :
      Step m s (.missingItem call) s
        (.request (.missingManager call (s.history.marks (trimSpace item.softwareID)))) []
  | missingFree {call readAt item rest} (todo : call.todo = item::rest)
      (free : trimSpace item.softwareID ∉ call.busy) :
      Step m s (.missingManager call readAt) s (.request (.missingLatest call readAt)) []
  | missingFound {call readAt job} :
      Step m s (.missingLatest call readAt) s (.request (.missingActive call readAt job)) []
  | missingCandidate {r call readAt item rest} (at_ : r.missingRead = some (call,readAt))
      (todo : call.todo = item::rest) :
      Step m s r (s.draw 1) (.request (.missingItem (call.candidate s.drawn item rest readAt))) []
  | brewBusy {db action kind names} :
      Step m s (.brewBusy db action kind names) s
        (.request (.brewItems db action kind names (Install.brewBusy m s.queue))) []
  | brewItems {db action kind names busy added} (made : added = brewAdded s.drawn action kind busy names) :
      Step m s (.brewItems db action kind names busy) (s.draw added.length) (.request (.append db added)) []
  | append {db added} :
      Step m s (.append db added) (s.queued (s.queue.append db added) added) (.request .kick) []
  | retryFind {db id softwareID action g} (after : g.quiet = true) :
      Step m s (.retryFind db id softwareID action) {s with queue := (retryDrop s.queue id).1} g []
  | retryItem {db found softwareID action item} (row : retryRow s.drawn found softwareID action = some item) :
      Step m s (.retryItem db found softwareID action) (s.draw 1) (.request (.retryAppend db item)) []
  | retryAppend {db item} :
      Step m s (.retryAppend db item) (s.queued (s.queue.appendRetry db item) [item]) (.request .kick) []
  | kicked (running : s.queue.running = true) : Step m s .kick s .done []
  | flag (stopped : s.queue.running = false) :
      Step m s .kick {s with queue := {s.queue with running := true}} (.request (.flagged s.queue.db)) []
  | spawn : Step m s (.flagged true) s .done [.worker .busy]
  | unflag : Step m s (.flagged false) {s with queue := {s.queue with running := false}} .done []
  | dismissRows {itemID softwareID g row} (ids : List UUID) (after : g.quiet = true) :
      Step m s (.dismissRows itemID softwareID)
        {s with queue := (Install.dismissRows s.queue row softwareID).1, jobs := dismissJobs s.jobs ids} g []
  | switchMark {softwareID} :
      Step m s (.switchMark softwareID) (s.mark softwareID)
        (.request (.switchCancel softwareID (some (s.history.marks softwareID + 1)) .install)) []
  | switchCancel {softwareID action g} (after : g.quiet = true) :
      Step m s (.switchCancel softwareID none action) (s.cancel softwareID) g []
  | switchComplete {softwareID mark action g} (after : g.quiet = true) :
      Step m s (.switchCancel softwareID (some mark) action) ((s.cancel softwareID).complete softwareID mark) g []

theorem quietActions (db : Bool) (action : Option Action) (ids : List String) :
    (startActions db action ids).quiet = true := by
  unfold startActions
  split
  · rfl
  · split <;> rfl

theorem Request.steps {m : CaseMap} {k : Choice} {s s' : Shared} {r : Request} {g : Goroutine}
    {new : List Goroutine} (stepped : r.next m k s = some (s',g,new)) : Request.Step m s r s' g new := by
  cases r with
  | enqueueAPI db action todo added =>
    cases todo with
    | nil =>
      simp only [Request.next] at stepped
      split at stepped <;> cases stepped
      · exact .leave rfl
      · exact .apiAppend
    | cons id rest =>
      simp only [Request.next] at stepped
      split at stepped <;> cases stepped
      · exact .apiSkip
      · exact .apiItem
  | enqueueActions db action ids =>
    cases stepped
    exact .actions
  | missingBusy db items =>
    cases stepped
    exact .missingBusy
  | missingItem call =>
    simp only [Request.next] at stepped
    split at stepped
    · rename_i last
      split at stepped <;> cases stepped
      · exact .leave rfl
      · exact .missingAppend last
    · rename_i item rest todo
      split at stepped
      · cases stepped
        exact .missingSkip rfl todo
      · split at stepped <;> cases stepped
        · exact .missingSkip rfl todo
        · exact .missingFlag todo (by assumption)
  | missingManager call readAt =>
    simp only [Request.next] at stepped
    split at stepped
    · cases stepped
      exact .leave rfl
    · rename_i item rest todo
      split at stepped
      · cases stepped
        exact .missingSkip rfl todo
      · split at stepped <;> cases stepped
        · exact .missingSkip rfl todo
        · exact .missingFree todo (by assumption)
  | missingLatest call readAt =>
    simp only [Request.next] at stepped
    split at stepped
    · cases stepped
      exact .leave rfl
    · rename_i item rest todo
      split at stepped <;> cases stepped
      · exact .missingFound
      · exact .missingCandidate rfl todo
  | missingActive call readAt job =>
    simp only [Request.next] at stepped
    split at stepped
    · cases stepped
      exact .leave rfl
    · rename_i item rest todo
      split at stepped <;> cases stepped
      · exact .missingSkip rfl todo
      · exact .missingCandidate rfl todo
  | brewBusy db action kind names =>
    cases stepped
    exact .brewBusy
  | brewItems db action kind names busy =>
    simp only [Request.next] at stepped
    split at stepped <;> cases stepped
    · exact .leave rfl
    · exact .brewItems rfl
  | append db added =>
    cases stepped
    exact .append
  | retryFind db id softwareID action =>
    have whole (after : g.quiet = true) : Request.Step m s (.retryFind db id softwareID action)
      {s with queue := (retryDrop s.queue id).1} g [] := .retryFind after
    simp only [Request.next] at stepped
    split at stepped <;> cases stepped <;> rename_i q same <;> rw [same] at whole <;> exact whole rfl
  | retryItem db found softwareID action =>
    simp only [Request.next] at stepped
    split at stepped <;> cases stepped
    · exact .leave rfl
    · exact .retryItem (by assumption)
  | retryAppend db item =>
    cases stepped
    exact .retryAppend
  | kick =>
    simp only [Request.next] at stepped
    split at stepped <;> cases stepped
    · exact .kicked (by assumption)
    · exact .flag (by simpa using (by assumption : ¬s.queue.running = true))
  | flagged db =>
    cases db with
    | false =>
      cases stepped
      exact .unflag
    | true =>
      cases stepped
      exact .spawn
  | dismissItem itemID softwareID =>
    cases itemID with
    | none =>
      cases stepped
      exact .quiet [] rfl rfl
    | some ref =>
      cases stepped
      exact .quiet [ref.id] rfl rfl
  | dismissRows itemID softwareID =>
    simp only [Request.next] at stepped
    split at stepped <;> cases stepped <;> exact .dismissRows _ rfl
  | dismissLatest softwareID =>
    simp only [Request.next] at stepped
    split at stepped <;> cases stepped <;> exact .quiet [] rfl rfl
  | dismissStatus job =>
    simp only [Request.next] at stepped
    split at stepped <;> cases stepped <;> exact .quiet [] rfl rfl
  | dismissFailed job =>
    cases stepped
    exact .quiet [job] rfl rfl
  | switchMark softwareID =>
    simp only [Request.next] at stepped
    split at stepped <;> cases stepped
    · exact .quiet [] rfl rfl
    · exact .switchMark
  | switchCancel softwareID mark action =>
    cases mark with
    | none =>
      cases stepped
      exact .switchCancel (quietActions _ _ _)
    | some n =>
      cases stepped
      exact .switchComplete (quietActions _ _ _)

end ContainerWS
