import ContainerWS.Fallible
import ContainerWS.Separated
import ContainerWS.TextRows

/-! modules/kubernetes/kubecli/validate.go and manifests.go: streams of manifests, the namespace
that is written into them, and the requests that applying them makes. The YAML package and the
cluster are what they are taken to be in `Yaml` and `Cluster`. -/
namespace ContainerWS.Kubernetes
open Fallible GoStrings TextRows

/- What stands under metadata.namespace: a text, or something else. -/
inductive Namespace (ν : Type) where
  | text (s : String)
  | other (value : ν)
  deriving DecidableEq, Repr

/- An unstructured object: the fields that are looked at, and the other ones of the object and of its
metadata by their names. One whose metadata is no object has no name. -/
structure Object (ν : Type) where
  apiVersion : String
  kind : String
  name : String
  namespace_ : Option (Namespace ν)
  metadata : List (String × ν)
  fields : List (String × ν)
  deriving DecidableEq, Repr

variable {ν : Type}

/- A namespace that is no text is not seen. -/
def Object.GetNamespace (o : Object ν) : String :=
  match o.namespace_ with
  | some (.text s) => s
  | _ => ""

def Object.SetNamespace (o : Object ν) (ns : String) : Object ν :=
  { o with namespace_ := if ns = "" then none else some (.text ns) }

def stripManagedFields (o : Object ν) : Object ν :=
  { o with
    fields := o.fields.filter (fun f => f.1 ≠ "status")
    metadata := o.metadata.filter (fun f =>
      f.1 ∉ ["managedFields","resourceVersion","uid","creationTimestamp","generation","selfLink"]) }

def newlineMark : List Char := "\n---".toList

/- `strings.ReplaceAll` of CR LF by LF. -/
def unixEnds : List Char → List Char
  | '\x0d' :: '\n' :: rest => '\n' :: unixEnds rest
  | c :: rest => c :: unixEnds rest
  | [] => []

def firstLine (doc : List Char) : String := String.ofList (doc.takeWhile (fun c => c != '\n'))

/- What follows a marker, without the rest of its line where that is blank, a comment or an end mark. -/
def afterMark (part : List Char) : List Char :=
  let doc := if part.head? = some '\n' then part.tail else part
  if '\n' ∈ doc then
    let first := trimSpace (firstLine doc)
    if first = "" ∨ hasPrefix first "#" = true ∨ first = "..." then (doc.dropWhile (fun c => c != '\n')).tail else doc
  else doc

def onlyComments (doc : String) : Bool :=
  (split '\n' doc).all (fun line => trimSpace line = "" || hasPrefix (trimSpace line) "#")

def keepDocument (doc : String) : Option String :=
  let doc := trimSpace doc
  if doc = "" ∨ doc = "..." then none else if onlyComments doc then none else some doc

def SplitYAMLDocuments (content : String) : List String :=
  match Separated.split newlineMark (unixEnds content.toList) with
  | [] => []
  | first :: rest => (first :: rest.map afterMark).filterMap (fun doc => keepDocument (String.ofList doc))

def clusterScopedKinds : List String :=
  ["Namespace","Node","PersistentVolume","ClusterRole","ClusterRoleBinding","StorageClass","CSIDriver","CSINode",
    "PriorityClass","RuntimeClass","IngressClass","CustomResourceDefinition","MutatingWebhookConfiguration",
    "ValidatingWebhookConfiguration","APIService","ClusterIssuer","VolumeAttachment"]

def IsClusterScopedKind (kind : String) : Bool := clusterScopedKinds.contains (trimSpace kind)

/- Listed kinds are left as they are. -/
def Object.within (ns : String) (o : Object ν) : Object ν := if IsClusterScopedKind o.kind then o else o.SetNamespace ns

structure ManifestRef where
  apiVersion : String
  kind : String
  name : String
  namespace_ : String
  clusterScoped : Bool
  deriving DecidableEq, Repr

structure ManifestAnalysis where
  namespace_ : String
  resources : List ManifestRef
  deriving DecidableEq, Repr

/- What the text of an object in YAML looks like: it begins with a field, and has no carriage return and
no line that begins with the marker. -/
structure Plain (doc : String) : Prop where
  trimmed : trimSpace doc = doc
  noReturn : '\x0d' ∉ doc.toList
  noMark : ¬newlineMark <:+: '\n' :: doc.toList
  field : ∃ c, doc.toList.head? = some c ∧ c ≠ '#'
  noEnd : trimSpace (firstLine doc.toList) ≠ "..."

/- An object, read with a line break less at the end of its last text. That is not its version or kind,
which other fields follow; of its name and namespace it takes a line break at most. -/
structure Chomped (o o' : Object ν) : Prop where
  apiVersion : o'.apiVersion = o.apiVersion
  kind : o'.kind = o.kind
  name : trimSpace o'.name = trimSpace o.name
  namespace_ : o'.namespace_ = o.namespace_ ∨ ∃ v v', o.namespace_ = some (.text v) ∧ v.toList.getLast? = some '\n' ∧
    o'.namespace_ = some (.text v') ∧ trimSpace v' = trimSpace v

/- `sigs.k8s.io/yaml`. The value null is no object. What is read from a text, also in another namespace,
can be written and read again. `block` tells of an object whether its text ends in a literal block scalar:
without the last line break of the text that reads as another one. -/
structure Yaml (ν : Type) where
  Unmarshal : String → Except String (Option (Object ν))
  Marshal : Object ν → Except String String
  block : Object ν → Bool
  plain : ∀ {o text}, Marshal o = .ok text → Plain (trimSpace text)
  back : ∀ {doc o text}, Unmarshal doc = .ok (some o) → Marshal o = .ok text → Unmarshal text = .ok (some o)
  backWithin : ∀ {doc o ns text}, Unmarshal doc = .ok (some o) → ns ≠ "" → Marshal (o.SetNamespace ns) = .ok text →
    Unmarshal text = .ok (some (o.SetNamespace ns))
  trims : ∀ {o text}, Marshal o = .ok text → block o = false → Unmarshal (trimSpace text) = Unmarshal text
  chomps : ∀ {o text}, Marshal o = .ok text → block o = true → Unmarshal text = .ok (some o) →
    ∃ o', Unmarshal (trimSpace text) = .ok (some o') ∧ Chomped o o' ∧ o' ≠ o

section
variable (yaml : Yaml ν)

def place (i : Nat) : String := "document " ++ toString (i+1)

/- One document: its reference and the namespace that all share from here on. -/
def analyzeDocument (shared : Option String) (doc : String) (i : Nat) : Except String (Option String × ManifestRef) :=
  match yaml.Unmarshal doc with
  | .error e => .error (place i ++ ": invalid yaml: " ++ e)
  | .ok none => .error (place i ++ ": empty document")
  | .ok (some o) =>
    let name := trimSpace o.name
    let ns := trimSpace o.GetNamespace
    if o.kind = "" ∨ o.apiVersion = "" then .error (place i ++ ": apiVersion and kind are required")
    else if name = "" then .error (place i ++ " (" ++ o.kind ++ "): metadata.name is required")
    else if IsClusterScopedKind o.kind then
      if ns ≠ "" then .error (place i ++ " (" ++ o.kind ++ "/" ++ name ++ "): cluster-scoped resources must not set metadata.namespace")
      else .ok (shared,⟨o.apiVersion,o.kind,name,"",true⟩)
    else
      let ref : ManifestRef := ⟨o.apiVersion,o.kind,name,ns,false⟩
      if ns = "" then .ok (shared,ref)
      else match shared with
        | none => .ok (some ns,ref)
        | some other =>
          if ns ≠ other then .error ("all namespaced resources must use the same namespace; found \"" ++ other ++ "\" and \"" ++
            ns ++ "\" (" ++ place i ++ ": " ++ o.kind ++ "/" ++ name ++ ")")
          else .ok (shared,ref)

def analyzeFrom (shared : Option String) : List String → Nat → Except String (Option String × List ManifestRef)
  | [],_ => .ok (shared,[])
  | doc :: rest,i => do
    let (shared,ref) ← analyzeDocument yaml shared doc i
    let (shared,refs) ← analyzeFrom shared rest (i+1)
    return (shared,ref :: refs)

def AnalyzeManifests (content : String) : Except String ManifestAnalysis :=
  let docs := SplitYAMLDocuments content
  if docs = [] then .error "yaml content is empty"
  else do
    let (shared,refs) ← analyzeFrom yaml none docs 0
    return ⟨shared.getD "",refs⟩

/- The text of a document in the namespace, none for null. -/
def rewriteDocument (ns : String) (doc : String × Nat) : Except String (Option String) :=
  match yaml.Unmarshal doc.1 with
  | .error e => .error (place doc.2 ++ ": invalid yaml: " ++ e)
  | .ok none => .ok none
  | .ok (some o) =>
    match yaml.Marshal (o.within ns) with
    | .error e => .error (place doc.2 ++ ": marshal: " ++ e)
    | .ok text => .ok (some (trimSpace text))

def joinDocuments (docs : List String) : String := String.ofList ("\n---\n".toList.intercalate (docs.map String.toList))

def RewriteManifestNamespace (content namespace_ : String) : Except String String :=
  let ns := trimSpace namespace_
  let docs := SplitYAMLDocuments content
  if ns = "" then .error "namespace is required to rewrite manifests"
  else if docs = [] then .error "yaml content is empty"
  else do
    let out ← docs.zipIdx.mapM (rewriteDocument yaml ns)
    return joinDocuments (out.filterMap id)

/- The rewritten stream, its namespace and its analysis. -/
def EnsureUniformNamespace (content targetNS : String) : Except String (String × String × ManifestAnalysis) := do
  let analysis ← AnalyzeManifests yaml content
  let ns := if trimSpace targetNS ≠ "" then trimSpace targetNS else trimSpace analysis.namespace_
  if ns = "" then
    if analysis.resources.any (fun r => !r.clusterScoped) then
      .error "choose a namespace, or set metadata.namespace on the manifests"
    else .ok (content,"",analysis)
  else do
    let rewritten ← RewriteManifestNamespace yaml content ns
    let analysis ← AnalyzeManifests yaml rewritten
    return (rewritten,ns,⟨ns,analysis.resources.map (fun r => if r.clusterScoped then r else { r with namespace_ := ns })⟩)

end

inductive Scope where
  | namespaced
  | root
  deriving DecidableEq, Repr

structure Mapping where
  resource : String
  scope : Scope
  deriving DecidableEq, Repr

structure ManifestApplyOptions where
  defaultNamespace : String
  dryRun : Bool
  deriving DecidableEq, Repr

/- A server-side apply of an object, under a namespace or at the root. -/
structure Request (ν : Type) where
  resource : String
  namespace_ : Option String
  object : Object ν
  dryRun : Bool
  deriving DecidableEq, Repr

/- The cluster: the group and version of an apiVersion, if it is one; the resource of a kind by
discovery; which objects it has, and its answer to an apply. -/
structure Cluster (ν : Type) where
  ParseGroupVersion : String → Option (String × String)
  RESTMapping : String × String → String → Except String Mapping
  has : Request ν → Bool
  Apply : Request ν → Except String (Object ν)

structure ManifestResult where
  index : Nat
  apiVersion : String
  kind : String
  namespace_ : String
  name : String
  action : String
  error : String
  deriving DecidableEq, Repr

structure ManifestApplySummary where
  dryRun : Bool
  total : Nat
  applied : Nat
  failed : Nat
  results : List ManifestResult
  deriving DecidableEq, Repr

section
variable (yaml : Yaml ν) (cluster : Cluster ν)

/- The mapping of an object, where its version can be read and its kind is known. -/
def Cluster.mapping (o : Object ν) : Except String Mapping :=
  match cluster.ParseGroupVersion o.apiVersion with
  | none => .error "apiVersion and kind are required"
  | some gv =>
    if o.kind = "" ∨ o.apiVersion = "" then .error "apiVersion and kind are required"
    else if trimSpace o.name = "" then .error "metadata.name is required"
    else match cluster.RESTMapping gv o.kind with
      | .error e => .error ("resolve resource: " ++ e)
      | .ok mapping => .ok mapping

/- Where the object of a document is sent. -/
def requestOf (opts : ManifestApplyOptions) (o : Object ν) : Except String (Request ν) := do
  let mapping ← cluster.mapping o
  let obj := stripManagedFields o
  match mapping.scope with
  | .root => return ⟨mapping.resource,none,obj,opts.dryRun⟩
  | .namespaced =>
    let ns := trimSpace obj.GetNamespace
    if ns ≠ "" then return ⟨mapping.resource,some ns,obj,opts.dryRun⟩
    else
      let ns := trimSpace opts.defaultNamespace
      if ns = "" then .error "namespace is required for this resource (set metadata.namespace or choose a default namespace)"
      else return ⟨mapping.resource,some ns,obj.SetNamespace ns,opts.dryRun⟩

/- The result of a request, by the answer of the cluster. -/
def sentResult (opts : ManifestApplyOptions) (i : Nat) (o : Object ν) (r : Request ν) : ManifestResult :=
  match cluster.Apply r with
  | .error e => ⟨i+1,o.apiVersion,o.kind,r.namespace_.getD o.GetNamespace,o.name,"",e⟩
  | .ok applied => ⟨i+1,applied.apiVersion,applied.kind,applied.GetNamespace,applied.name,
      if opts.dryRun then "dry-run" else if cluster.has r then "configured" else "created",""⟩

/- One document: the request that it makes, if any, and its result. -/
def applyDocument (opts : ManifestApplyOptions) (doc : String × Nat) : Option (Request ν) × ManifestResult :=
  match yaml.Unmarshal doc.1 with
  | .error e => (none,⟨doc.2+1,"","","","","","invalid yaml: " ++ e⟩)
  | .ok none => (none,⟨doc.2+1,"","","","","","empty document"⟩)
  | .ok (some o) =>
    match requestOf cluster opts o with
    | .error e =>
      (none,⟨doc.2+1,o.apiVersion,if cluster.ParseGroupVersion o.apiVersion = none then "" else o.kind,o.GetNamespace,o.name,"",e⟩)
    | .ok r => (some r,sentResult cluster opts doc.2 o r)

/- The requests in their order, and the summary. -/
def ApplyManifests (content : String) (opts : ManifestApplyOptions) : Except String (List (Request ν) × ManifestApplySummary) :=
  let docs := SplitYAMLDocuments content
  if docs = [] then .error "yaml content is empty"
  else
    let outcomes := docs.zipIdx.map (applyDocument yaml cluster opts)
    let results := outcomes.map Prod.snd
    .ok (outcomes.filterMap Prod.fst,⟨opts.dryRun,docs.length,results.countP (fun r => r.error = ""),
      results.countP (fun r => r.error ≠ ""),results⟩)

end

end ContainerWS.Kubernetes
