import ContainerWS.GoPath
import Mathlib.Data.List.MinMax
import Mathlib.Data.List.Nodup
import Mathlib.Data.String.Basic

/-! modules/kubernetes/configapi: the table of kubeconfigs, k8s_keys, the options that tell which one is
active, and what reads and writes them. Each operation of the database may fail, and the files are what
they are when they are looked at. -/
namespace ContainerWS.Kubernetes.Registry
open GoStrings

/- A text with something in it and no blanks around it. -/
abbrev Text := {s : String // trimSpace s = s ∧ s ≠ ""}

def trimmed (s : String) (filled : trimSpace s ≠ "") : Text := ⟨trimSpace s,trimSpaceTwice s,filled⟩

/- No writer leaves out the id or the path of a row, and the hooks trim both. -/
structure K8sKey where
  id : Text
  name : String
  path : Text
  secret : String
  deriving DecidableEq

def K8sKey.BeforeCreate (k : K8sKey) : K8sKey := { k with name := if trimSpace k.name = "" then k.id else trimSpace k.name }

/- The ids of deleted rows stay taken. -/
structure Keys where
  rows : List K8sKey
  deleted : List Text
  distinct : (rows.map K8sKey.id ++ deleted).Nodup

section
variable (t : Keys)

theorem insertDistinct {k : K8sKey} (free : ¬k.id ∈ t.rows.map K8sKey.id ++ t.deleted) :
    ((t.rows ++ [k]).map K8sKey.id ++ t.deleted).Nodup := by
  rw [List.map_append,List.append_assoc]
  have middle : (t.rows.map K8sKey.id ++ ([k].map K8sKey.id ++ t.deleted)).Perm (k.id :: (t.rows.map K8sKey.id ++ t.deleted)) :=
    List.perm_middle
  exact middle.nodup_iff.mpr (List.nodup_cons.mpr ⟨free,t.distinct⟩)

theorem changeDistinct {f : K8sKey → K8sKey} (keeps : ∀ k, (f k).id = k.id) : ((t.rows.map f).map K8sKey.id ++ t.deleted).Nodup := by
  rw [List.map_map,show K8sKey.id ∘ f = K8sKey.id from funext keeps]
  exact t.distinct

theorem removeDistinct (id : Text) :
    ((t.rows.filter (fun k => k.id ≠ id)).map K8sKey.id ++ ((t.rows.filter (fun k => k.id = id)).map K8sKey.id ++ t.deleted)).Nodup := by
  have parts : (t.rows.filter (fun k => decide (k.id ≠ id)) ++ t.rows.filter (fun k => decide (k.id = id))).Perm t.rows := by
    have both := List.filter_append_perm (fun k : K8sKey => decide (k.id ≠ id)) t.rows
    simpa using both
  rw [← List.append_assoc,← List.map_append]
  exact ((parts.map K8sKey.id).append_right t.deleted).nodup_iff.mpr t.distinct

def Keys.insert (k : K8sKey) : Option Keys :=
  if free : k.id ∈ t.rows.map K8sKey.id ++ t.deleted then none else some ⟨t.rows ++ [k],t.deleted,insertDistinct t free⟩

/- The rows of the id get other contents. -/
def changed (id : Text) (name secret : String) (k : K8sKey) : K8sKey := if k.id = id then { k with name := name, secret := secret } else k

theorem changedID (id : Text) (name secret : String) (k : K8sKey) : (changed id name secret k).id = k.id := by
  unfold changed
  split <;> rfl

def Keys.change (id : Text) (name secret : String) : Keys :=
  ⟨t.rows.map (changed id name secret),t.deleted,changeDistinct t (changedID id name secret)⟩

def Keys.remove (id : Text) : Keys :=
  ⟨t.rows.filter (fun k => k.id ≠ id),(t.rows.filter (fun k => k.id = id)).map K8sKey.id ++ t.deleted,removeDistinct t id⟩

end

/- An entry of the option KUBECONFIG_FILES. -/
structure Legacy where
  id : String
  name : String
  path : String
  deriving DecidableEq

/- An option that is not there reads as a blank one; what cannot be read of KUBECONFIG_FILES is none. -/
structure Store where
  keys : Keys
  activeID : String
  path : String
  context : String
  files : List Legacy

/- The host: `kubeclient.DefaultPath`, which files there are and what is in them, which can be written,
whether the directory of the managed ones can be made, and what `clientcmd` says of a content. -/
structure Host where
  default : String
  filled : trimSpace default ≠ ""
  stat : String → Bool
  read : String → Option String
  write : String → Bool
  store : Bool
  invalid : String → Option String
  contexts : String → Except String (List String)

/- The operations of the database that fail. -/
structure Faults where
  countKeys : Bool := false
  readFiles : Bool := false
  addLegacy : Nat → Bool := fun _ => false
  readPath : Bool := false
  findPath : Bool := false
  fillSecret : Bool := false
  addKey : Bool := false
  findKey : Bool := false
  saveKey : Bool := false
  deleteKey : Bool := false
  readActive : Bool := false
  countActive : Bool := false
  setActive : Bool := false
  setPath : Bool := false
  setContext : Bool := false
  loadKeys : Bool := false
  readActiveAgain : Bool := false
  readPathAgain : Bool := false
  setActiveAgain : Bool := false
  setPathAgain : Bool := false
  readContext : Bool := false

def managedStoreDir : String := "/root/.kube/containerws/configs"

def ManagedFilePath (id : String) : String :=
  GoPath.render (GoPath.join ["root",".kube","containerws","configs"] (trimSpace id ++ ".yaml"))

theorem trimRoot (cs : List Char) : trimSpace (String.ofList ('/' :: cs)) ≠ "" := by
  intro blank
  have head : (trimSpace (String.ofList ('/' :: cs))).toList.head? = some '/' := trimHead (by decide)
  rw [blank] at head
  cases head

theorem managedFilled (id : String) : trimSpace (ManagedFilePath id) ≠ "" := trimRoot _

/- A relative path is in no absolute directory. -/
def IsManagedPath (path : String) : Bool :=
  match (trimSpace path).toList with
  | '/' :: rest => hasPrefix (GoPath.render (GoPath.clean (GoPath.components (String.ofList rest)))) (managedStoreDir ++ "/")
  | _ => false

section
variable (h : Host) (f : Faults)

def Host.ResolvePath (path : String) : String := if trimSpace path = "" then h.default else trimSpace path

theorem resolveFilled (path : String) : trimSpace (h.ResolvePath path) ≠ "" := by
  unfold Host.ResolvePath
  split
  · exact h.filled
  · rename_i filled
    rwa [trimSpaceTwice]

def Host.FileExists (path : String) : Bool := h.stat (h.ResolvePath path)

def Host.ReadFile (path : String) : Option String := h.read (h.ResolvePath path)

def Host.ValidateContent (content : String) : Option String :=
  if trimSpace content = "" then some "kubeconfig content is empty" else h.invalid content

def Host.WriteFile (path content : String) : Except String Unit :=
  let path := trimSpace path
  if path = "" then .error "path is required"
  else if hasPrefix path "/" = false then .error "path must be absolute"
  else match h.ValidateContent content with
  | some e => .error e
  | none => if h.write path then .ok () else .error "write failed"

def syncSecretToPath (path secret : String) : Except String Unit :=
  if trimSpace path = "" then .error "path is required"
  else if trimSpace secret = "" then .error "secret is empty"
  else h.WriteFile (trimSpace path) (trimSpace secret)

def materializeFile (entry : K8sKey) : Except String Unit :=
  if h.FileExists entry.path = true ∧ trimSpace entry.secret = "" then .ok ()
  else if trimSpace entry.secret = "" then
    if h.FileExists entry.path then .ok () else .error ("kubeconfig secret missing for " ++ entry.name)
  else if IsManagedPath entry.path = true ∧ h.store = false then .error "mkdir failed"
  else if IsManagedPath entry.path = false ∧ h.FileExists entry.path = true then .ok ()
  else syncSecretToPath h entry.path entry.secret

def keyToMeta (k : K8sKey) : K8sKey := if trimSpace k.name = "" then { k with name := k.id } else k

def loadRegistry (s : Store) : List K8sKey := s.keys.rows.map keyToMeta

def activeFileID (s : Store) : String := trimSpace s.activeID

def findFile (list : List K8sKey) (id : String) : Option K8sKey := list.find? (fun k => k.id.val = trimSpace id)

def databaseError : String := "database error"

/- The entries that have an id and a path, each with what its file says. -/
def addLegacy (s : Store) : List (Legacy × Nat) → Store × Option String
  | [] => (s,none)
  | (e,n) :: rest =>
    if filled : trimSpace e.id ≠ "" ∧ trimSpace e.path ≠ "" then
      let name := if trimSpace e.name = "" then trimSpace e.id else trimSpace e.name
      let row : K8sKey := ⟨trimmed e.id filled.1,name,trimmed e.path filled.2,(h.ReadFile (trimSpace e.path)).getD ""⟩
      match if f.addLegacy n then none else s.keys.insert row.BeforeCreate with
      | none => (s,some databaseError)
      | some keys => addLegacy { s with keys := keys } rest
    else addLegacy s rest

def migrateLegacyOptionsRegistry (s : Store) : Store × Option String :=
  if f.countKeys then (s,some databaseError)
  else if s.keys.rows ≠ [] then (s,none)
  else if f.readFiles then (s,some databaseError)
  else addLegacy h f s s.files.zipIdx

def ensureActivePointsAtKey (s : Store) (key : K8sKey) : Store × Option String :=
  if f.readActive then (s,some databaseError)
  else
    let activeID := activeFileID s
    if activeID ≠ "" ∧ f.countActive = true then (s,some databaseError)
    else if activeID ≠ "" ∧ ∃ k ∈ s.keys.rows, k.id.val = activeID then (s,none)
    else
      let s := if f.setActive then s else { s with activeID := key.id }
      (if f.setPath then s else { s with path := key.path },none)

/- The path of the host's kubeconfig, or else of the one that is set. -/
def seedPath (s : Store) : String :=
  if h.FileExists h.default then h.default else if f.readPath then h.default else h.ResolvePath s.path

theorem seedPathFilled (s : Store) : trimSpace (seedPath h f s) ≠ "" := by
  unfold seedPath
  split
  · exact h.filled
  · split
    · exact h.filled
    · exact resolveFilled h s.path

/- The first one by the primary key. -/
def firstAt (s : Store) (path : String) : Option K8sKey := (s.keys.rows.filter (fun k => k.path.val = path)).argmin (fun k => k.id.val)

/- The row that is made of the host's kubeconfig, where it can be read. -/
def hostKey (id : Text) (s : Store) : Option K8sKey :=
  match h.ReadFile (seedPath h f s) with
  | none => none
  | some data =>
    match h.ValidateContent data with
    | some _ => none
    | none => some ⟨id,"Default",trimmed (seedPath h f s) (seedPathFilled h f s),data⟩

/- The secret of a row that has none is filled in. -/
def backfill (s : Store) (existing : K8sKey) : Store :=
  if trimSpace existing.secret ≠ "" then s
  else match h.ReadFile existing.path with
  | none => s
  | some data => if data = "" ∨ f.fillSecret = true then s else { s with keys := s.keys.change existing.id existing.name data }

/- After the old option has been looked through. -/
def seedHost (id : Text) (s : Store) : Store × Option String :=
  if h.FileExists (seedPath h f s) = false then (s,none)
  else if f.findPath then (s,some databaseError)
  else match firstAt s (seedPath h f s) with
  | some existing => ensureActivePointsAtKey f (backfill h f s existing) existing
  | none =>
    match hostKey h f id s with
    | none => (s,none)
    | some row =>
      match if f.addKey then none else s.keys.insert row.BeforeCreate with
      | none => (s,some databaseError)
      | some keys => ensureActivePointsAtKey f { s with keys := keys } row.BeforeCreate

def SeedMissingFromUserProfile (id : Text) (s : Store) : Store × Option String :=
  match migrateLegacyOptionsRegistry h f s with
  | (s,some e) => (s,some e)
  | (s,none) => seedHost h f id s

/- The entries, when no id is active: the one at the path that is set, or the first one. -/
def pointAtEntry (s : Store) (list : List K8sKey) : Store × String :=
  let path := h.ResolvePath (if f.readPathAgain then "" else s.path)
  match list.find? (fun k => k.path.val = path) with
  | some k => (if f.setActiveAgain then s else { s with activeID := k.id },k.id)
  | none =>
    match list with
    | [] => (s,"")
    | first :: _ =>
      let s := if f.setActiveAgain then s else { s with activeID := first.id }
      (if f.setPathAgain then s else { s with path := first.path },first.id)

def listed (s : Store) : Store × Except String (List K8sKey × String) :=
  if f.loadKeys = true ∨ f.readActiveAgain = true then (s,.error databaseError)
  else
    let list := loadRegistry s
    let activeID := activeFileID s
    if list = [] ∨ activeID ≠ "" then (s,.ok (list,activeID))
    else
      let (s,activeID) := pointAtEntry h f s list
      (s,.ok (list,activeID))

def ensureSeededRegistry (id : Text) (s : Store) : Store × Except String (List K8sKey × String) :=
  match SeedMissingFromUserProfile h f id s with
  | (s,some e) => (s,.error e)
  | (s,none) => listed h f s

def activateFile (s : Store) (entry : K8sKey) (contextName : String) : Store × Option String :=
  match materializeFile h entry with
  | .error e => (s,some e)
  | .ok _ =>
    if f.setActive then (s,some databaseError)
    else if f.setPath then ({ s with activeID := entry.id },some databaseError)
    else if f.setContext then ({ s with activeID := entry.id, path := entry.path },some databaseError)
    else ({ s with activeID := entry.id, path := entry.path, context := trimSpace contextName },none)

/- The row of a new file that has been checked and written. -/
def writtenFile (id : Text) (name content : String) : Except String K8sKey :=
  if trimSpace name = "" then .error "name is required"
  else match h.ValidateContent content with
  | some e => .error e
  | none =>
    if h.store = false then .error "mkdir failed"
    else match h.WriteFile (ManagedFilePath id) content with
    | .error e => .error e
    | .ok _ => .ok ⟨id,trimSpace name,trimmed (ManagedFilePath id) (managedFilled id),content⟩

/- `after` is the host when the file has been written. -/
def createManagedFile (after : Host) (id : Text) (name content : String) (s : Store) : Store × Option String :=
  match writtenFile h id name content with
  | .error e => (s,some e)
  | .ok row =>
    match if f.addKey then none else s.keys.insert row.BeforeCreate with
    | none => (s,some databaseError)
    | some keys =>
      let s := { s with keys := keys }
      if f.countKeys = false ∧ keys.rows.length = 1 then ((activateFile after f s (keyToMeta row.BeforeCreate) "").1,none) else (s,none)

def rowOf (s : Store) (id : String) : Option K8sKey := s.keys.rows.find? (fun k => k.id.val = trimSpace id)

def updateManagedContent (id name content : String) (s : Store) : Store × Option String :=
  if f.findKey then (s,some databaseError)
  else match rowOf s id with
  | none => (s,some ("kubeconfig " ++ id ++ " not found"))
  | some row =>
    let name := if trimSpace name ≠ "" then trimSpace name else row.name
    let refused := if content = "" then none else
      match h.ValidateContent content with
      | some e => some e
      | none =>
        match syncSecretToPath h row.path content with
        | .error e => some e
        | .ok _ => none
    match refused with
    | some e => (s,some e)
    | none =>
      if f.saveKey then (s,some databaseError)
      else ({ s with keys := s.keys.change row.id (trimSpace name) (if content = "" then row.secret else content) },none)

/- The active entry has been deleted. -/
def pointElsewhere (s : Store) : Store × Option String :=
  if f.loadKeys then (s,some databaseError)
  else match loadRegistry s with
  | first :: _ => ((activateFile h f s first "").1,none)
  | [] =>
    let s := if f.setActive then s else { s with activeID := "" }
    (if f.setPath then s else { s with path := h.default },none)

def deleteFile (id : String) (s : Store) : Store × Option String :=
  if f.findKey then (s,some databaseError)
  else match rowOf s id with
  | none => (s,some ("kubeconfig " ++ id ++ " not found"))
  | some row =>
    if f.readActive then (s,some databaseError)
    else if f.deleteKey then (s,some databaseError)
    else
      let activeID := activeFileID s
      let s := { s with keys := s.keys.remove row.id }
      if activeID ≠ row.id then (s,none) else pointElsewhere h f s

/- The entry that is to be activated, with the context if one is asked for. -/
def activable (id context : String) (s : Store) : Except String K8sKey :=
  match findFile (loadRegistry s) id with
  | none => .error ("kubeconfig " ++ id ++ " not found")
  | some entry =>
    match if h.FileExists entry.path then Except.ok () else materializeFile h entry with
    | .error _ => .error ("kubeconfig file missing at " ++ entry.path.val)
    | .ok _ =>
      match if trimSpace context = "" then Except.ok [] else h.contexts entry.path with
      | .error e => .error e
      | .ok names =>
        if trimSpace context ≠ "" ∧ trimSpace context ∉ names then .error ("context " ++ trimSpace context ++ " not found in kubeconfig")
        else .ok entry

/- ActivateFileAPI, between its listings. -/
def activateEntry (id context : String) (s : Store) : Store × Option String :=
  match activable h id context s with
  | .error e => (s,some e)
  | .ok entry => activateFile h f s entry (trimSpace context)

end

structure Settings where
  path : String
  context : String
  exists_ : Bool
  default : String
  deriving DecidableEq

/- modules/kubernetes/kubecli: what talks to the cluster. -/
def LoadSettings (h : Host) (f : Faults) (s : Store) : Except String Settings :=
  if f.readPath = true ∨ f.readContext = true ∨ f.readActive = true then .error databaseError
  else
    let path := match if activeFileID s = "" ∨ f.findKey = true then none else rowOf s s.activeID with
      | some key => key.path.val
      | none => s.path
    .ok ⟨h.ResolvePath path,trimSpace s.context,h.FileExists path,h.default⟩

end ContainerWS.Kubernetes.Registry
