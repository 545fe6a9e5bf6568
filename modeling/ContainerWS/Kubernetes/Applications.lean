import ContainerWS.Interleaving
import ContainerWS.Kubernetes.Manifests
import ContainerWS.Newest
import ContainerWS.Numbered

/-! modules/kubernetes/applications/handlers.go: the requests that write one application and its
revisions. Each statement of the database is a step; writes succeed, reads may fail. -/
namespace ContainerWS.Kubernetes.Applications
open GoStrings Interleaving Newest Numbered

structure K8sApplication where
  name : String
  namespace_ : String
  yaml : String
  version : Int
  resources : List ManifestRef
  deriving DecidableEq, Repr

/- Before each write. -/
def K8sApplication.Normalize (a : K8sApplication) : K8sApplication :=
  { a with name := trimSpace a.name, namespace_ := trimSpace a.namespace_, yaml := trimSpace a.yaml }

structure K8sApplicationRevision where
  id : Nat
  version : Int
  name : String
  namespace_ : String
  yaml : String
  resources : List ManifestRef
  source : String
  note : String
  deriving DecidableEq, Repr

def K8sApplicationRevision.BeforeCreate (r : K8sApplicationRevision) : K8sApplicationRevision :=
  { r with
    name := trimSpace r.name
    namespace_ := trimSpace r.namespace_
    yaml := trimSpace r.yaml
    source := if trimSpace r.source = "" then "save" else trimSpace r.source }

def kind : Kind K8sApplicationRevision := ⟨K8sApplicationRevision.id,fun n r => { r with id := n },fun _ _ => rfl⟩

def maxAppRevisions : Nat := 50

/- The row that recordRevision creates. -/
def revisionOf (app : K8sApplication) (source note : String) : K8sApplicationRevision :=
  K8sApplicationRevision.BeforeCreate
    ⟨0,if app.version ≤ 0 then 1 else app.version,app.name,app.namespace_,app.yaml,app.resources,source,trimSpace note⟩

/- The application as it is saved, and whether a revision of it is recorded. -/
def bumpRevisionIfChanged (existing next : K8sApplication) : K8sApplication × Bool :=
  let changed : Bool := existing.yaml ≠ next.yaml || existing.namespace_ ≠ next.namespace_ || existing.name ≠ next.name
  let app := { next with version := existing.version }
  if !changed && 0 < existing.version then (app,false)
  else
    let ver := if existing.version ≤ 0 then 1 else if changed then existing.version + 1 else existing.version
    ({ app with version := ver },true)

structure SaveBody where
  name : String
  namespace_ : String
  yaml : String
  deriving DecidableEq, Repr

structure ApplyBody where
  yaml : String
  dryRun : Bool
  defaultNamespace : String
  namespace_ : String
  name : String
  deriving DecidableEq, Repr

/- No body is one that cannot be read. An apply has the id of the application; the version of a restore is
what is read of its text. -/
inductive Request where
  | update (body : Option SaveBody)
  | apply (body : Option ApplyBody)
  | restore (ver : Option Int)
  deriving DecidableEq, Repr

/- Of an answer, the application in it. Where an apply does not find the application, it makes another one,
which has rows of its own. -/
inductive Answer where
  | refused (message : String)
  | applied
  | saved (app : K8sApplication)
  | another (app : K8sApplication)
  deriving DecidableEq, Repr

/- How far a request is, with what it has read. -/
inductive Call where
  | asked (r : Request)
  | seeking (next : K8sApplication)
  | found (existing : K8sApplication) (ver : Int)
  | saving (existing next : K8sApplication) (source note : String)
  | recording (app : K8sApplication) (source note : String)
  | trimming (app : K8sApplication)
  | deleting (app : K8sApplication) (ids : List Nat)
  | answered (answer : Answer)
  deriving DecidableEq, Repr

structure Store where
  app : K8sApplication
  revisions : Rows kind

/- A read fails, or finds a row; the cluster is what it is when it is asked. -/
inductive Choice (ν : Type) where
  | done
  | failed
  | revision (id : Nat)
  | cluster (c : Cluster ν)

section
variable {ν : Type} (codec : Yaml ν)

def prepareSave (body : SaveBody) : Except String K8sApplication :=
  let name := trimSpace body.name
  if name = "" then .error "name is required"
  else match EnsureUniformNamespace codec body.yaml body.namespace_ with
  | .error e => .error e
  | .ok (rewritten,ns,analysis) =>
    if ns = "" then .error "namespace is required" else .ok ⟨name,ns,rewritten,0,analysis.resources⟩

def refuse (s : Store) (message : String) : Option (Store × Call) := some (s,.answered (.refused message))

def UpdateAPI (body : Option SaveBody) (s : Store) : Choice ν → Option (Store × Call)
  | .failed => refuse s "application not found"
  | .done =>
    match body with
    | none => refuse s "invalid body"
    | some body =>
      match prepareSave codec { body with name := if trimSpace body.name = "" then s.app.name else body.name } with
      | .error e => refuse s e
      | .ok prepared => some (s,.saving s.app prepared "save" "")
  | _ => none

/- Up to the cluster. -/
def ApplyAPI (body : Option ApplyBody) (s : Store) (k : Choice ν) : Option (Store × Call) :=
  match body with
  | none => refuse s "invalid body"
  | some body =>
    let targetNS := if trimSpace body.namespace_ = "" then trimSpace body.defaultNamespace else trimSpace body.namespace_
    match EnsureUniformNamespace codec body.yaml targetNS,k with
    | .error e,_ => refuse s e
    | .ok (rewritten,ns,analysis),.cluster c =>
      match ApplyManifests codec c rewritten ⟨ns,body.dryRun⟩ with
      | .error e => refuse s e
      | .ok (_,summary) =>
        if body.dryRun = false ∧ summary.failed = 0 ∧ trimSpace body.name ≠ "" then
          some (s,.seeking ⟨trimSpace body.name,ns,rewritten,0,analysis.resources⟩)
        else some (s,.answered .applied)
    | _,_ => none

/- Up to the application. -/
def RestoreRevisionAPI (ver : Option Int) (s : Store) : Choice ν → Option (Store × Call) :=
  match ver with
  | none => fun _ => refuse s "invalid version"
  | some ver =>
    if ver ≤ 0 then fun _ => refuse s "invalid version"
    else fun
      | .failed => refuse s "application not found"
      | .done => some (s,.found s.app ver)
      | _ => none

def next (k : Choice ν) (s : Store) : Call → Option (Store × Call)
  | .asked (.update body) => UpdateAPI codec body s k
  | .asked (.apply body) => ApplyAPI codec body s k
  | .asked (.restore ver) => RestoreRevisionAPI ver s k
  | .seeking next =>
    match k with
    | .failed => some (s,.answered (.another { next with version := 1 }.Normalize))
    | .done => some (s,.saving s.app next "apply" "")
    | _ => none
  | .found app ver =>
    match k with
    | .failed => refuse s "revision not found"
    | .revision n =>
      match s.revisions.rows.find? (fun r => r.id = n ∧ r.version = ver) with
      | none => none
      | some rev =>
        some (s,.saving app ⟨rev.name,rev.namespace_,rev.yaml,0,rev.resources⟩ "restore" ("restored from v" ++ toString ver))
    | _ => none
  | .saving existing next source note =>
    let (app,record) := bumpRevisionIfChanged existing next
    let app := app.Normalize
    some ({ s with app := app },if record then .recording app source note else .answered (.saved app))
  | .recording app source note => some ({ s with revisions := s.revisions.insert (revisionOf app source note) },.trimming app)
  | .trimming app =>
    match k with
    | .failed => some (s,.answered (.saved app))
    | .done =>
      let old := behind K8sApplicationRevision.version maxAppRevisions s.revisions.rows
      some (s,if old = [] then .answered (.saved app) else .deleting app (old.map K8sApplicationRevision.id))
    | _ => none
  | .deleting app ids => some ({ s with revisions := s.revisions.remove ids },.answered (.saved app))
  | .answered _ => none

def system : System Store Call Request (Choice ν) where
  start := .asked
  next k s t := (next codec k s t).map (fun m => (m.1,m.2,[]))

end

/- The application has been created, with its first revision. -/
def created (prepared : K8sApplication) : Store :=
  let app := { prepared with version := 1 }.Normalize
  ⟨app,(empty kind).insert (revisionOf app "create" "")⟩

end ContainerWS.Kubernetes.Applications
