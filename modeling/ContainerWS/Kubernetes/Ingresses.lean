import ContainerWS.Fallible
import ContainerWS.TextRows
import ContainerWS.Kubernetes.Store

/-! modules/kubernetes/ingresses/handlers.go: what the page is shown of an Ingress, and the spec
that is made of what it sends back. Lists that are absent and lists without elements are one
thing to the API server. -/
namespace ContainerWS.Kubernetes
open Fallible GoMap GoStrings TextRows

structure ServiceBackendPort where
  name : String
  number : Int
  deriving DecidableEq, Repr

structure IngressServiceBackend where
  name : String
  port : ServiceBackendPort
  deriving DecidableEq, Repr

structure TypedLocalObjectReference where
  apiGroup : Option String
  kind : String
  name : String
  deriving DecidableEq, Repr

structure IngressBackend where
  service : Option IngressServiceBackend
  resource : Option TypedLocalObjectReference
  deriving DecidableEq, Repr

structure HTTPIngressPath where
  path : String
  pathType : Option String
  backend : IngressBackend
  deriving DecidableEq, Repr

structure IngressRule where
  host : String
  http : Option (List HTTPIngressPath)
  deriving DecidableEq, Repr

structure IngressTLS where
  hosts : List String
  secretName : String
  deriving DecidableEq, Repr

structure IngressSpec where
  ingressClassName : Option String
  defaultBackend : Option IngressBackend
  tls : List IngressTLS
  rules : List IngressRule
  deriving DecidableEq, Repr

structure LoadBalancerIngress where
  ip : String
  hostname : String
  deriving DecidableEq, Repr

structure Ingress where
  labels : Option (Entries String)
  annotations : Option (Entries String)
  createdAt : String
  spec : IngressSpec
  loadBalancer : List LoadBalancerIngress
  deriving DecidableEq

structure PathBody where
  path : String
  pathType : String
  serviceName : String
  servicePort : Int
  servicePortName : String
  deriving DecidableEq, Repr

structure RuleBody where
  host : String
  paths : List PathBody
  deriving DecidableEq, Repr

structure IngressBody where
  ingressClass : String
  rules : List RuleBody
  tls : List IngressTLS
  labels : Option (Entries String)
  annotations : Option (Entries String)
  deriving DecidableEq

/- A row of `paths`; the name of a port is there when it is not empty. -/
structure PathDetail where
  path : String
  pathType : String
  serviceName : String
  servicePort : Int
  servicePortName : Option String
  deriving DecidableEq, Repr

structure RuleDetail where
  host : String
  paths : List PathDetail
  deriving DecidableEq, Repr

structure IngressDetail where
  namespace_ : String
  name : String
  ingressClass : String
  hosts : String
  address : String
  rules : List RuleDetail
  tls : List IngressTLS
  labels : Option (Entries String)
  annotations : Option (Entries String)
  createdAt : String
  deriving DecidableEq

def ingressClass (ing : Ingress) : String :=
  match ing.spec.ingressClassName with
  | some class_ => class_
  | none =>
    match ing.annotations with
    | some annotations => trimSpace ((annotations.get "kubernetes.io/ingress.class").getD "")
    | none => ""

def joined (parts : List String) : String := ", ".intercalate parts

def ingressAddresses (ing : Ingress) : String :=
  joined (ing.loadBalancer.filterMap (fun a =>
    if a.ip ≠ "" then some a.ip else if a.hostname ≠ "" then some a.hostname else none))

/- Each host once, those of the rules first. -/
def ingressHosts (ing : Ingress) : String :=
  let ofRules := ing.spec.rules.map (fun r => if trimSpace r.host = "" then "*" else trimSpace r.host)
  let ofTLS := (ing.spec.tls.flatMap (fun t => t.hosts.map trimSpace)).filter (fun h => h ≠ "")
  joined ((ofRules ++ ofTLS).foldl (fun hosts h => if h ∈ hosts then hosts else hosts ++ [h]) [])

def pathTypeExact : String := "Exact"

def pathTypePrefix : String := "Prefix"

def pathTypeImplementationSpecific : String := "ImplementationSpecific"

def pathTypeOf (m : CaseMap) (s : String) : String :=
  let kind := m.toLower (trimSpace s)
  if kind = "exact" then pathTypeExact
  else if kind = "implementationSpecific" ∨ kind = "implementationspecific" then pathTypeImplementationSpecific
  else pathTypePrefix

def buildPath (m : CaseMap) (p : PathBody) : Except String HTTPIngressPath :=
  if trimSpace p.serviceName = "" then .error "path service_name is required"
  else if p.servicePort ≤ 0 ∧ trimSpace p.servicePortName = "" then .error "path service_port or service_port_name is required"
  else .ok
    { path := if trimSpace p.path = "" then "/" else trimSpace p.path
      pathType := some (pathTypeOf m p.pathType)
      backend :=
        { service := some
            { name := trimSpace p.serviceName
              port := if 0 < p.servicePort then ⟨"",p.servicePort⟩ else ⟨trimSpace p.servicePortName,0⟩ }
          resource := none } }

def buildRule (m : CaseMap) (rule : RuleBody) : Except String IngressRule :=
  if rule.paths = [] then .error "each rule needs at least one path"
  else do
    let paths ← rule.paths.mapM (buildPath m)
    return ⟨trimSpace rule.host,some paths⟩

def buildTLS (t : IngressTLS) : Option IngressTLS :=
  if trimSpace t.secretName = "" ∧ t.hosts = [] then none
  else some ⟨t.hosts.filterMap (fun h => if trimSpace h ≠ "" then some (trimSpace h) else none),trimSpace t.secretName⟩

def buildSpec (m : CaseMap) (body : IngressBody) : Except String IngressSpec :=
  if body.rules = [] then .error "at least one rule is required"
  else do
    let rules ← body.rules.mapM (buildRule m)
    return ⟨if trimSpace body.ingressClass ≠ "" then some (trimSpace body.ingressClass) else none,none,
      body.tls.filterMap buildTLS,rules⟩

def pathDetail (p : HTTPIngressPath) : PathDetail where
  path := p.path
  pathType := p.pathType.getD ""
  serviceName := (p.backend.service.map IngressServiceBackend.name).getD ""
  servicePort := (p.backend.service.map (fun s => s.port.number)).getD 0
  servicePortName :=
    let portName := (p.backend.service.map (fun s => s.port.name)).getD ""
    if portName ≠ "" then some portName else none

def ruleDetail (rule : IngressRule) : RuleDetail := ⟨rule.host,(rule.http.getD []).map pathDetail⟩

def detailFrom (namespace_ name : String) (ing : Ingress) : IngressDetail where
  namespace_ := namespace_
  name := name
  ingressClass := ingressClass ing
  hosts := ingressHosts ing
  address := ingressAddresses ing
  rules := ing.spec.rules.map ruleDetail
  tls := ing.spec.tls
  labels := ing.labels
  annotations := ing.annotations
  createdAt := ing.createdAt

def PathDetail.body (p : PathDetail) : PathBody :=
  ⟨p.path,p.pathType,p.serviceName,p.servicePort,p.servicePortName.getD ""⟩

def RuleDetail.body (rule : RuleDetail) : RuleBody := ⟨rule.host,rule.paths.map PathDetail.body⟩

/- The detail read as the body of a request: fields that have no place in it are dropped. -/
def IngressDetail.body (d : IngressDetail) : IngressBody :=
  ⟨d.ingressClass,d.rules.map RuleDetail.body,d.tls,d.labels,d.annotations⟩

def GetAPI (store : Store Ingress) (namespace_ name : String) : Except String IngressDetail := do
  let ing ← store.Get "ingresses.networking.k8s.io" (trimSpace namespace_) (trimSpace name)
  return detailFrom (trimSpace namespace_) (trimSpace name) ing

def UpdateAPI (m : CaseMap) (admits : Admission Ingress) (store : Store Ingress) (namespace_ name : String)
    (body : Option IngressBody) : Except String (Store Ingress × IngressDetail) :=
  match body with
  | none => .error "invalid body"
  | some body => do
    let spec ← buildSpec m body
    let ing ← store.Get "ingresses.networking.k8s.io" (trimSpace namespace_) (trimSpace name)
    let updated := { ing with spec := spec, labels := body.labels.or ing.labels, annotations := body.annotations.or ing.annotations }
    let store ← store.Update admits (trimSpace namespace_) (trimSpace name) ing updated
    return (store,detailFrom (trimSpace namespace_) (trimSpace name) updated)

/- The path is not blank at its ends, of a known type, and goes to one port of a service. -/
structure PathKept (p : HTTPIngressPath) : Prop where
  path : p.path ≠ "" ∧ trimSpace p.path = p.path
  type : p.pathType = some pathTypeExact ∨ p.pathType = some pathTypePrefix ∨ p.pathType = some pathTypeImplementationSpecific
  noResource : p.backend.resource = none
  service : ∃ s, p.backend.service = some s ∧ (s.name ≠ "" ∧ trimSpace s.name = s.name) ∧
    (0 < s.port.number ∧ s.port.name = "" ∨ s.port.number = 0 ∧ s.port.name ≠ "" ∧ trimSpace s.port.name = s.port.name)

structure RuleKept (rule : IngressRule) : Prop where
  host : trimSpace rule.host = rule.host
  paths : ∃ paths, rule.http = some paths ∧ paths ≠ [] ∧ ∀ p ∈ paths, PathKept p

structure TLSKept (t : IngressTLS) : Prop where
  filled : t.secretName ≠ "" ∨ t.hosts ≠ []
  secretName : trimSpace t.secretName = t.secretName
  hosts : ∀ h ∈ t.hosts, h ≠ "" ∧ trimSpace h = h

/- The class is given by the field alone: it is not empty there, or it is nowhere. -/
def ClassKept (ing : Ingress) : Prop :=
  match ing.spec.ingressClassName with
  | some class_ => class_ ≠ "" ∧ trimSpace class_ = class_
  | none => ∀ class_, ing.annotations.bind (fun a => a.get "kubernetes.io/ingress.class") = some class_ → trimSpace class_ = ""

structure SpecKept (ing : Ingress) : Prop where
  noDefault : ing.spec.defaultBackend = none
  class_ : ClassKept ing
  someRule : ing.spec.rules ≠ []
  rules : ∀ rule ∈ ing.spec.rules, RuleKept rule
  tls : ∀ t ∈ ing.spec.tls, TLSKept t

/- The server takes what it holds already: what is shown of the Ingress and sent back is taken, and
leaves spec, labels and annotations. -/
def SubmitKeeps (m : CaseMap) (ing : Ingress) : Prop :=
  ∀ (admits : Admission Ingress) (store : Store Ingress) (namespace_ name : String) (shown : IngressDetail),
    admits ing ing = .ok () → store (trimSpace namespace_) (trimSpace name) = some ing →
    GetAPI store namespace_ name = .ok shown →
    ∃ store' answer ing', UpdateAPI m admits store namespace_ name (some shown.body) = .ok (store',answer) ∧
      store' (trimSpace namespace_) (trimSpace name) = some ing' ∧
      ing'.spec = ing.spec ∧ ing'.labels = ing.labels ∧ ing'.annotations = ing.annotations

theorem pathTypeSelf (m : LowerMap) (s : String) : pathTypeOf m.toCaseMap s = s ↔
    s = pathTypeExact ∨ s = pathTypePrefix ∨ s = pathTypeImplementationSpecific := by
  constructor
  · intro same
    rw [← same]
    unfold pathTypeOf
    dsimp only
    split
    · exact .inl rfl
    · split
      · exact .inr (.inr rfl)
      · exact .inr (.inl rfl)
  · have known (s : String) (small : (trimSpace s).toList.all (fun c => decide (c.toNat < 128)) = true) :
        pathTypeOf m.toCaseMap s = pathTypeOf ascii s := by
      rw [pathTypeOf,toLowerAscii m (by simpa using small),pathTypeOf]
    rintro (rfl | rfl | rfl)
    · rw [known _ (by decide)]
      decide
    · rw [known _ (by decide)]
      decide
    · rw [known _ (by decide)]
      decide

theorem orEmpty (s : String) : (if s ≠ "" then some s else none).getD "" = s := by
  split
  · rfl
  · rename_i blank
    exact (not_not.mp blank).symm

theorem pathSelf (path : String) : (if trimSpace path = "" then "/" else trimSpace path) = path ↔ path ≠ "" ∧ trimSpace path = path := by
  have blank : trimSpace "" = "" := by decide
  have root : trimSpace "/" = "/" := by decide
  split
  · rename_i empty
    constructor
    · rintro rfl
      rw [root] at empty
      simp at empty
    · rintro ⟨filled,same⟩
      exact absurd (same.symm.trans empty) filled
  · rename_i filled
    refine ⟨fun same => ⟨?_,same⟩,And.right⟩
    rintro rfl
    exact filled blank

theorem portSelf (port : ServiceBackendPort) :
    (if 0 < port.number then ⟨"",port.number⟩ else ⟨trimSpace port.name,0⟩ : ServiceBackendPort) = port ↔
      0 < port.number ∧ port.name = "" ∨ port.number = 0 ∧ trimSpace port.name = port.name := by
  rcases port with ⟨name,number⟩
  dsimp only
  split
  · rename_i numbered
    rw [ServiceBackendPort.mk.injEq]
    constructor
    · exact fun same => .inl ⟨numbered,same.1.symm⟩
    · rintro (here | none)
      · exact ⟨here.2.symm,rfl⟩
      · omega
  · rename_i named
    rw [ServiceBackendPort.mk.injEq]
    constructor
    · exact fun same => .inr ⟨same.2.symm,same.1⟩
    · rintro (here | none)
      · exact absurd here.1 named
      · exact ⟨none.2,none.1.symm⟩

theorem buildPathOk {m : CaseMap} {p : PathBody} {r : HTTPIngressPath} : buildPath m p = .ok r ↔
    trimSpace p.serviceName ≠ "" ∧ (0 < p.servicePort ∨ trimSpace p.servicePortName ≠ "") ∧
      (if trimSpace p.path = "" then "/" else trimSpace p.path) = r.path ∧ some (pathTypeOf m p.pathType) = r.pathType ∧
      some ⟨trimSpace p.serviceName,if 0 < p.servicePort then ⟨"",p.servicePort⟩ else ⟨trimSpace p.servicePortName,0⟩⟩ =
        r.backend.service ∧ none = r.backend.resource := by
  rcases r with ⟨path,pathType,service,resource⟩
  unfold buildPath
  split
  · rename_i unnamed
    exact iff_of_false nofun (fun made => made.1 unnamed)
  · rename_i named
    split
    · rename_i noPort
      refine iff_of_false nofun ?_
      rintro ⟨_,ported | ported,_⟩
      · omega
      · exact ported noPort.2
    · rename_i ported
      have some_ : 0 < p.servicePort ∨ trimSpace p.servicePortName ≠ "" := by
        by_cases numbered : 0 < p.servicePort
        · exact .inl numbered
        · exact .inr (fun blank => ported ⟨by omega,blank⟩)
      rw [Except.ok.injEq,HTTPIngressPath.mk.injEq,IngressBackend.mk.injEq]
      exact ⟨fun made => ⟨named,some_,made⟩,fun made => made.2.2⟩

theorem pathBack (m : LowerMap) (p : HTTPIngressPath) : buildPath m.toCaseMap (pathDetail p).body = .ok p ↔ PathKept p := by
  rcases p with ⟨path,pathType,service,resource⟩
  have blank : trimSpace "" = "" := by decide
  rw [buildPathOk]
  cases service with
  | none => exact iff_of_false (fun made => made.1 blank) (fun kept => nomatch kept.service)
  | some s =>
    have portName : (pathDetail ⟨path,pathType,some s,resource⟩).body.servicePortName = s.port.name := orEmpty s.port.name
    have typed : some (pathTypeOf m.toCaseMap (pathType.getD "")) = pathType ↔
        pathType = some pathTypeExact ∨ pathType = some pathTypePrefix ∨ pathType = some pathTypeImplementationSpecific := by
      cases pathType with
      | none => simp
      | some t => simp only [Option.getD_some,Option.some_inj,pathTypeSelf m t]
    have served : (⟨trimSpace s.name,if 0 < s.port.number then ⟨"",s.port.number⟩ else ⟨trimSpace s.port.name,0⟩⟩ : IngressServiceBackend) = s ↔
        trimSpace s.name = s.name ∧ (0 < s.port.number ∧ s.port.name = "" ∨ s.port.number = 0 ∧ trimSpace s.port.name = s.port.name) := by
      rw [← portSelf]
      rcases s with ⟨name,port⟩
      exact Iff.of_eq (IngressServiceBackend.mk.injEq _ _ _ _)
    rw [portName]
    simp only [pathDetail,PathDetail.body,Option.map_some,Option.getD_some,Option.some_inj,pathSelf,typed,served]
    constructor
    · rintro ⟨named,ported,pathKept,type,⟨name,port⟩,noResource⟩
      refine ⟨pathKept,type,noResource.symm,s,rfl,⟨name ▸ named,name⟩,?_⟩
      rcases port with number | ⟨none,same⟩
      · exact .inl number
      · refine .inr ⟨none,?_,same⟩
        rcases ported with some_ | filled
        · omega
        · exact same ▸ filled
    · rintro ⟨pathKept,type,noResource,s',here,⟨named,name⟩,port⟩
      obtain rfl := Option.some_inj.mp here
      refine ⟨name.symm ▸ named,?_,pathKept,type,⟨name,?_⟩,noResource.symm⟩
      · rcases port with number | named
        · exact .inl number.1
        · exact .inr (named.2.2.symm ▸ named.2.1)
      · rcases port with number | named
        · exact .inl number
        · exact .inr ⟨named.1,named.2.2⟩

theorem ruleBack (m : LowerMap) (rule : IngressRule) : buildRule m.toCaseMap (ruleDetail rule).body = .ok rule ↔ RuleKept rule := by
  rcases rule with ⟨host,http⟩
  have bodies : (ruleDetail ⟨host,http⟩).body.paths = (http.getD []).map (fun p => (pathDetail p).body) := List.map_map
  unfold buildRule
  rw [bodies]
  split
  · rename_i none
    refine iff_of_false nofun ?_
    rintro ⟨_,paths,here,some_,_⟩
    obtain rfl : http = some paths := here
    exact some_ (List.map_eq_nil_iff.mp none)
  · rename_i some_
    rw [bindOk]
    cases http with
    | none => exact absurd rfl some_
    | some paths =>
      constructor
      · rintro ⟨built,made,same⟩
        obtain ⟨hosted,here⟩ := IngressRule.mk.inj (Except.ok.inj same)
        obtain rfl := Option.some_inj.mp here
        refine ⟨hosted,built,rfl,fun none => some_ (by rw [none]; rfl),?_⟩
        exact fun p mem => (pathBack m p).mp (mapMSelf.mp made p mem)
      · rintro ⟨hosted,paths',here,_,kept⟩
        obtain rfl := Option.some_inj.mp here
        refine ⟨paths,mapMSelf.mpr (fun p mem => (pathBack m p).mpr (kept p mem)),?_⟩
        exact congrArg Except.ok (IngressRule.mk.injEq .. ▸ ⟨hosted,rfl⟩)

theorem tlsBack (t : IngressTLS) : buildTLS t = some t ↔ TLSKept t := by
  rcases t with ⟨hosts,secretName⟩
  have each : hosts.filterMap (fun h => if trimSpace h ≠ "" then some (trimSpace h) else none) = hosts ↔
      ∀ h ∈ hosts, h ≠ "" ∧ trimSpace h = h := by
    rw [filterMapSelfIff]
    apply forall₂_congr
    intro h _
    split
    · rename_i filled
      rw [Option.some_inj]
      exact ⟨fun same => ⟨same ▸ filled,same⟩,And.right⟩
    · rename_i blank
      exact iff_of_false nofun (fun kept => blank (kept.2.symm ▸ kept.1))
  unfold buildTLS
  dsimp only
  split
  · rename_i empty
    refine iff_of_false nofun ?_
    rintro ⟨filled,same,_⟩
    rcases filled with named | some_
    · exact named (same.symm.trans empty.1)
    · exact some_ empty.2
  · rename_i filled
    rw [Option.some_inj,IngressTLS.mk.injEq,each]
    constructor
    · rintro ⟨hosts,same⟩
      refine ⟨?_,same,hosts⟩
      rw [same] at filled
      exact not_and_or.mp filled
    · exact fun kept => ⟨kept.hosts,kept.secretName⟩

theorem classBack (ing : Ingress) : (if trimSpace (ingressClass ing) ≠ "" then some (trimSpace (ingressClass ing)) else none) =
    ing.spec.ingressClassName ↔ ClassKept ing := by
  have blank : trimSpace "" = "" := by decide
  unfold ingressClass ClassKept
  cases ing.spec.ingressClassName with
  | some class_ =>
    dsimp only
    split
    · rename_i filled
      rw [Option.some_inj]
      exact ⟨fun same => ⟨same ▸ filled,same⟩,And.right⟩
    · rename_i empty
      exact iff_of_false nofun (fun kept => empty (kept.2.symm ▸ kept.1))
  | none =>
    dsimp only
    cases ing.annotations with
    | none => simp [blank]
    | some annotations =>
      dsimp only
      rw [trimSpaceTwice]
      rw [Option.bind_some]
      cases annotations.get "kubernetes.io/ingress.class" with
      | none => simp [blank]
      | some class_ => simp

/- What is made of the detail is the spec again exactly where nothing of it is lost. -/
theorem specBack (m : LowerMap) (namespace_ name : String) (ing : Ingress) :
    buildSpec m.toCaseMap (detailFrom namespace_ name ing).body = .ok ing.spec ↔ SpecKept ing := by
  have rules : (detailFrom namespace_ name ing).body.rules = ing.spec.rules.map (fun r => (ruleDetail r).body) := List.map_map
  have named : ingressClass ing = (detailFrom namespace_ name ing).body.ingressClass := rfl
  unfold buildSpec
  rw [rules]
  split
  · rename_i none
    exact iff_of_false nofun (fun kept => kept.someRule (List.map_eq_nil_iff.mp none))
  · rename_i some_
    rw [bindOk]
    constructor
    · rintro ⟨built,made,same⟩
      have whole := Except.ok.inj same
      have default : none = ing.spec.defaultBackend := congrArg IngressSpec.defaultBackend whole
      have tls : ing.spec.tls.filterMap buildTLS = ing.spec.tls := congrArg IngressSpec.tls whole
      obtain rfl : built = ing.spec.rules := congrArg IngressSpec.rules whole
      have class_ := congrArg IngressSpec.ingressClassName whole
      dsimp only at class_
      rw [← named] at class_
      refine ⟨default.symm,(classBack ing).mp class_,?_,?_,?_⟩
      · exact fun none => some_ (by rw [none]; rfl)
      · exact fun rule mem => (ruleBack m rule).mp (mapMSelf.mp made rule mem)
      · exact fun t mem => (tlsBack t).mp (filterMapSelfIff.mp tls t mem)
    · intro kept
      refine ⟨ing.spec.rules,mapMSelf.mpr (fun rule mem => (ruleBack m rule).mpr (kept.rules rule mem)),?_⟩
      have class_ := (classBack ing).mpr kept.class_
      have tls := filterMapSelfIff.mpr (fun t mem => (tlsBack t).mpr (kept.tls t mem))
      have default := kept.noDefault
      refine congrArg Except.ok ?_
      have listed : ing.spec.tls = (detailFrom namespace_ name ing).body.tls := rfl
      rw [← named,← listed,class_,tls,← default]

theorem getShown {store : Store Ingress} {namespace_ name : String} {ing : Ingress} {shown : IngressDetail}
    (stored : store (trimSpace namespace_) (trimSpace name) = some ing) (loaded : GetAPI store namespace_ name = .ok shown) :
    shown = detailFrom (trimSpace namespace_) (trimSpace name) ing := by
  have here : store.Get "ingresses.networking.k8s.io" (trimSpace namespace_) (trimSpace name) = .ok ing := getOk.mpr stored
  rw [GetAPI,here] at loaded
  exact (Except.ok.inj loaded).symm

theorem updateOk {m : CaseMap} {admits : Admission Ingress} {store store' : Store Ingress} {namespace_ name : String} {ing : Ingress}
    {body : IngressBody} {answer : IngressDetail} (stored : store (trimSpace namespace_) (trimSpace name) = some ing) :
    UpdateAPI m admits store namespace_ name (some body) = .ok (store',answer) ↔
      ∃ spec, buildSpec m body = .ok spec ∧
        let updated := { ing with spec := spec, labels := body.labels.or ing.labels, annotations := body.annotations.or ing.annotations }
        admits ing updated = .ok () ∧ store.put (trimSpace namespace_) (trimSpace name) updated = store' ∧
          detailFrom (trimSpace namespace_) (trimSpace name) updated = answer := by
  have here : store.Get "ingresses.networking.k8s.io" (trimSpace namespace_) (trimSpace name) = .ok ing := getOk.mpr stored
  simp only [UpdateAPI,Store.Update,bindOk,here,Except.ok.injEq,exists_eq_left',pure,Except.pure,Prod.mk.injEq]
  apply exists_congr
  intro spec
  apply and_congr_right
  intro _
  constructor
  · rintro ⟨stored',⟨⟨u,answered,same⟩,rfl,rfl⟩⟩
    exact ⟨answered,same,rfl⟩
  · rintro ⟨answered,rfl,rfl⟩
    exact ⟨_,⟨(),answered,rfl⟩,rfl,rfl⟩

/- Labels and annotations are sent back as they are. -/
theorem sentBack (namespace_ name : String) (ing : Ingress) :
    { ing with labels := (detailFrom namespace_ name ing).body.labels.or ing.labels,
               annotations := (detailFrom namespace_ name ing).body.annotations.or ing.annotations } = ing := by
  simp [detailFrom,IngressDetail.body]

theorem submitNeeds (m : LowerMap) {ing : Ingress} (keeps : SubmitKeeps m.toCaseMap ing) : SpecKept ing := by
  obtain ⟨store',answer,ing',saved,held,spec,_⟩ := keeps (fun _ _ => .ok ()) (fun _ _ => some ing) "" "" _ rfl rfl rfl
  obtain ⟨built,made,_,same,_⟩ := (updateOk rfl).mp saved
  rw [← same,putSame] at held
  rw [← Option.some_inj.mp held] at spec
  dsimp only at spec
  rw [spec] at made
  exact (specBack m _ _ ing).mp made

theorem submitMeets (m : LowerMap) {ing : Ingress} (kept : SpecKept ing) : SubmitKeeps m.toCaseMap ing := by
  intro admits store namespace_ name shown admitted stored loaded
  obtain rfl := getShown stored loaded
  have made := (specBack m (trimSpace namespace_) (trimSpace name) ing).mpr kept
  have whole := sentBack (trimSpace namespace_) (trimSpace name) ing
  refine ⟨_,_,ing,(updateOk stored).mpr ⟨ing.spec,made,?_,rfl,rfl⟩,?_,rfl,rfl,rfl⟩
  · rw [whole]
    exact admitted
  · rw [putSame,whole]

theorem submitKeeps (m : LowerMap) (ing : Ingress) : SubmitKeeps m.toCaseMap ing ↔ SpecKept ing := ⟨submitNeeds m,submitMeets m⟩

def serviceBackend (name : String) (number : Int) : IngressBackend := ⟨some ⟨name,"",number⟩,none⟩

/- One rule, and a backend for all other requests. -/
def defaulted : Ingress where
  labels := none
  annotations := none
  createdAt := "2026-01-01T00:00:00Z"
  spec := ⟨some "nginx",some (serviceBackend "fallback" 80),[],
    [⟨"app.example",some [⟨"/",some pathTypePrefix,serviceBackend "web" 80⟩]⟩]⟩
  loadBalancer := []

theorem defaultLost : ¬SubmitKeeps ascii defaulted := fun keeps => nomatch (submitNeeds asciiLower keeps).noDefault

end ContainerWS.Kubernetes
