import ContainerWS.Proxy.Fiber
import ContainerWS.Proxy.Traefik

/-! What packages/proxymanager/traefik/generate.go writes for redirects and proxy hosts:
routers with their priorities, the services they forward to and their middlewares.
Certificates, which no router is chosen by, are left out. -/
namespace ContainerWS.Proxy
open GoStrings

def schemeHTTP : String := "http"

def schemeHTTPS : String := "https"

def schemeBoth : String := "both"

/- The keys of the map of routers, and their texts. -/
inductive RouterName where
  | redirect (i : Nat)
  | host (i : Nat)
  | hostRoot (i : Nat)
  | hostLocation (i j : Nat)
  deriving DecidableEq

def RouterName.text : RouterName → String
  | .redirect i => "redirect-" ++ toString i
  | .host i => "host-" ++ toString i
  | .hostRoot i => "host-" ++ toString i ++ "-root"
  | .hostLocation i j => "host-" ++ toString i ++ "-loc-" ++ toString j

inductive ServiceName where
  | noop
  | host (i : Nat)
  | hostLocation (i j : Nat)
  deriving DecidableEq

def ServiceName.text : ServiceName → String
  | .noop => "noop@internal"
  | .host i => "svc-" ++ toString i
  | .hostLocation i j => "svc-" ++ toString i ++ "-loc-" ++ toString j

inductive Middleware where
  | redirectRegex (regex replacement : String) (permanent : Bool)
  | stripPrefix (prefixes : List String)
  deriving DecidableEq

/- A router; a middleware belongs to one router and is named after it. -/
structure Router where
  name : RouterName
  domains : List String
  pathPrefix : Option String
  entryPoints : List String
  middlewares : List RouterName
  service : ServiceName
  priority : Nat
  tls : Bool
  deriving DecidableEq

structure Dynamic where
  routers : List Router
  services : List (ServiceName × String)
  middlewares : List (RouterName × Middleware)

def Router.rule (x : Router) : String :=
  " || ".intercalate (x.domains.map (fun d => "Host(`" ++ d ++ "`)")) ++
    (match x.pathPrefix with
      | none => ""
      | some start => " && PathPrefix(`" ++ start ++ "`)")

/- What stands up to and behind the first separator of a scheme. -/
def cutScheme : List Char → Option (List Char × List Char)
  | ':' :: '/' :: '/' :: rest => some ([':','/','/'],rest)
  | c :: rest => (cutScheme rest).map (fun cut => (c :: cut.1,cut.2))
  | [] => none

def stripPath (u : String) : String :=
  match cutScheme u.toList with
  | some (scheme,rest) => String.ofList (scheme ++ rest.takeWhile (fun c => c != '/'))
  | none => u

/- Nothing but separators stands behind the host. -/
def PathFree (u : String) : Prop :=
  match cutScheme u.toList with
  | some (_,rest) => ∀ c ∈ rest.dropWhile (fun c => c != '/'), c = '/'
  | none => True

/- The same URL but for separators at the end. -/
def SameURL (a b : String) : Prop := trimRight '/' a = trimRight '/' b

def permanent (statusCode : Nat) : Bool := statusCode = 301 || statusCode = 308

def redirectRouter (i : Nat) (r : ProxyRedirect) : Router where
  name := .redirect i
  domains := [r.fromHost]
  pathPrefix := if r.fromPath ≠ "/" then some r.fromPath else none
  entryPoints := ["web"]
  middlewares := [.redirect i]
  service := .noop
  priority := 1000+i
  tls := false

def redirectMiddleware (i : Nat) (r : ProxyRedirect) : RouterName × Middleware :=
  (.redirect i,.redirectRegex ".*" r.toURL (permanent r.statusCode))

/- A place of the host list that requests are sent on from: a proxy host or, with its position,
one of its locations. -/
structure Entry where
  index : Nat
  host : ProxyHost
  place : Option (Nat × ProxyLocation)

/- The loop of the generator. -/
def hostEntries (h : ProxyHost) (i : Nat) : List Entry :=
  ⟨i,h,none⟩ :: h.locations.zipIdx.map (fun loc => ⟨i,h,some (loc.2,loc.1)⟩)

def entries (hosts : List ProxyHost) : List Entry := hosts.zipIdx.flatMap (fun h => hostEntries h.1 h.2)

namespace Entry

def pathPrefix (e : Entry) : Option String := e.place.map (fun loc => loc.2.pathPrefix)

def upstream (appBaseURL : String) (e : Entry) : String :=
  match e.place with
  | none => e.host.upstream appBaseURL
  | some loc => loc.2.upstream (e.host.upstream appBaseURL) appBaseURL

def locationID (e : Entry) : String :=
  match e.place with
  | none => ""
  | some loc => loc.2.id

def routerName (e : Entry) : RouterName :=
  match e.place with
  | none => if e.host.locations = [] then .host e.index else .hostRoot e.index
  | some loc => .hostLocation e.index loc.1

def service (e : Entry) : ServiceName :=
  match e.place with
  | none => .host e.index
  | some loc => .hostLocation e.index loc.1

def priority (e : Entry) : Nat :=
  match e.place with
  | none => if e.host.locations = [] then 100+e.index else 50+e.index
  | some loc => 200+loc.1

/- A location that is stripped; never the root one. -/
def stripped (e : Entry) : Option String :=
  match e.place with
  | none => none
  | some loc => if loc.2.stripPrefix ∧ loc.2.pathPrefix ≠ "/" then some loc.2.pathPrefix else none

end Entry

def entryPoints (h : ProxyHost) : List String :=
  let points := (if h.listenScheme = schemeHTTP ∨ h.listenScheme = schemeBoth then ["web"] else []) ++
    (if h.listenScheme = schemeHTTPS ∨ h.listenScheme = schemeBoth then ["websecure"] else [])
  if points = [] then ["web"] else points

def Entry.router (m : CaseMap) (e : Entry) : Router where
  name := e.routerName
  domains := e.host.domainList m
  pathPrefix := e.pathPrefix
  entryPoints := entryPoints e.host
  middlewares := if e.stripped.isSome then [e.routerName] else []
  service := e.service
  priority := e.priority
  tls := e.host.listenScheme = schemeHTTPS ∨ e.host.listenScheme = schemeBoth

def buildDynamic (m : CaseMap) (hosts : List ProxyHost) (redirects : List ProxyRedirect) (appBaseURL : String) : Dynamic where
  routers := redirects.zipIdx.map (fun r => redirectRouter r.2 r.1) ++ (entries hosts).map (Entry.router m)
  services := (entries hosts).map (fun e => (e.service,stripPath (e.upstream appBaseURL)))
  middlewares := redirects.zipIdx.map (fun r => redirectMiddleware r.2 r.1) ++
    (entries hosts).filterMap (fun e => e.stripped.map (fun start => (e.routerName,.stripPrefix [start])))

/- A rule read as host match and path prefix. -/
def Router.accepts (m : CaseMap) (r : Request) (x : Router) : Bool :=
  x.domains.any (fun d => m.toLower d = requestHost m r.host) && x.pathPrefix.all (fun start => hasPrefix r.path start)

/- Where a router forwards to. -/
def Dynamic.url (d : Dynamic) (x : Router) : Option String := d.services.lookup x.service

/- A key that only one element has finds its value. -/
theorem lookupMap {α β γ : Type} [DecidableEq β] {f : α → β} {g : α → γ} {l : List α} {a : α} (mem : a ∈ l)
    (only : ∀ b ∈ l, f b = f a → b = a) : (l.map (fun a => (f a,g a))).lookup (f a) = some (g a) := by
  induction l with
  | nil => cases mem
  | cons b rest ih =>
    rw [List.map_cons,List.lookup_cons]
    by_cases same : f b = f a
    · rw [only b List.mem_cons_self same]
      simp
    · have other : (f a == f b) = false := by simpa using Ne.symm same
      rw [other]
      have later : a ∈ rest := (List.mem_cons.mp mem).resolve_left (fun here => same (congrArg f here.symm))
      exact ih later (fun c inside => only c (List.mem_cons_of_mem _ inside))

end ContainerWS.Proxy
