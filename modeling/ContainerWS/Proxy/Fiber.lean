import ContainerWS.Proxy.Model
import Mathlib.Data.String.Basic
import Mathlib.Data.List.Sort

/-! The route table of packages/proxymanager/fiber/routes.go, and which of its routes
a request takes. -/
namespace ContainerWS.Proxy
open GoPath GoStrings

structure Route where
  host : String
  pathPrefix : String
  upstreamURL : String
  stripPrefix : Bool
  websocket : Bool
  customHeaders : List (String × String)
  hostID : String
  locationID : String
  deriving DecidableEq, Repr

structure RedirectRule where
  fromHost : String
  fromPath : String
  toURL : String
  statusCode : Nat
  preservePath : Bool
  deriving DecidableEq, Repr

structure Table where
  routes : List Route
  redirects : List RedirectRule
  active : Bool
  deriving DecidableEq, Repr

structure BuildInput where
  activeEngine : String
  hosts : List ProxyHost
  redirects : List ProxyRedirect
  appBaseURL : String
  deriving DecidableEq, Repr

def engineFiber : String := "fiber"

def normalizePath (p : String) : String :=
  let p := trimSpace p
  if p = "" then "/"
  else
    let p := if hasPrefix p "/" then p else "/" ++ p
    if p = "/" then p
    else if trimRight '/' p = "" then "/" else trimRight '/' p

def headersOf (h : ProxyHost) : List (String × String) :=
  h.customHeaders.filterMap (fun kv => kv.2.map (fun v => (kv.1,v)))

/- The route of a domain without a location. -/
def rootRoute (appBaseURL : String) (h : ProxyHost) (d : String) : Route :=
  ⟨d,"/",h.upstream appBaseURL,false,h.websocket,headersOf h,h.id,""⟩

def locationRoute (appBaseURL : String) (h : ProxyHost) (d : String) (loc : ProxyLocation) : Route :=
  ⟨d,normalizePath loc.pathPrefix,loc.upstream (h.upstream appBaseURL) appBaseURL,loc.stripPrefix,loc.websocket || h.websocket,
    headersOf h,h.id,loc.id⟩

def hostRoutes (m : CaseMap) (appBaseURL : String) (h : ProxyHost) : List Route :=
  (h.domainList m).flatMap (fun d => rootRoute appBaseURL h d :: h.locations.map (locationRoute appBaseURL h d))

/- The order of the table: by host, and by the length of the prefix from the longest on. -/
def Route.less (a b : Route) : Bool :=
  if a.host ≠ b.host then decide (a.host < b.host) else decide (b.pathPrefix.utf8ByteSize < a.pathPrefix.utf8ByteSize)

def Route.upTo (a b : Route) : Prop := b.less a = false

instance : DecidableRel Route.upTo := fun a b => inferInstanceAs (Decidable (b.less a = false))

def redirectRule (m : CaseMap) (r : ProxyRedirect) : RedirectRule :=
  ⟨m.toLower r.fromHost,normalizePath r.fromPath,r.toURL,r.statusCode,r.preservePath⟩

/- `BuildTable`, with `sort.SliceStable` at its end. -/
def BuildTable (m : CaseMap) (i : BuildInput) : Table where
  routes := (i.hosts.flatMap (hostRoutes m i.appBaseURL)).insertionSort Route.upTo
  redirects := i.redirects.map (redirectRule m)
  active := i.activeEngine = engineFiber

/- The host of a request as it is looked for: in lower case and without its port. -/
def requestHost (m : CaseMap) (host : String) : String := before ':' (m.toLower (trimSpace host))

/- `path.Clean` of the path with a separator in front. -/
def requestPath (reqPath : String) : String := render (clean (components (trimSpace reqPath)))

/- The prefix is the path or ends before one of its separators. -/
def covers (pathPrefix reqPath : String) : Bool :=
  pathPrefix = "/" || reqPath = pathPrefix || hasPrefix reqPath (pathPrefix ++ "/")

/- `Table.Match` on a host and path so prepared. -/
def Table.pick (t : Table) (host reqPath : String) : Option Route :=
  if t.active then t.routes.find? (fun r => (r.host = host || r.host = "*") && covers r.pathPrefix reqPath) else none

def Table.Match (m : CaseMap) (t : Table) (host reqPath : String) : Option Route :=
  t.pick (requestHost m host) (requestPath reqPath)

/- A route of the host that serves the path. -/
structure Candidate (t : Table) (host reqPath : String) (r : Route) : Prop where
  active : t.active = true
  listed : r ∈ t.routes
  host : r.host = host
  covers : covers r.pathPrefix reqPath = true

/- The answer is a route of the host itself if there is one, else one for all hosts,
and of these one with the longest prefix. -/
def MostSpecific (t : Table) (host reqPath : String) : Option Route → Prop
  | some r => (Candidate t host reqPath r ∨ Candidate t "*" reqPath r ∧ ∀ r', ¬Candidate t host reqPath r') ∧
    ∀ r', Candidate t r.host reqPath r' → r'.pathPrefix.utf8ByteSize ≤ r.pathPrefix.utf8ByteSize
  | none => ∀ r', ¬Candidate t host reqPath r' ∧ ¬Candidate t "*" reqPath r'

/- Some proxy host has the name among its domains. -/
def Listed (m : CaseMap) (hosts : List ProxyHost) (name : String) : Prop := ∃ h ∈ hosts, name ∈ h.domainList m

theorem upToIff {a b : Route} :
    a.upTo b ↔ a.host ≤ b.host ∧ (a.host = b.host → b.pathPrefix.utf8ByteSize ≤ a.pathPrefix.utf8ByteSize) := by
  unfold Route.upTo Route.less
  by_cases same : a.host = b.host
  · rw [if_neg (by simp [same])]
    simp [same]
  · rw [if_pos (Ne.symm same),decide_eq_false_iff_not,not_lt]
    exact ⟨fun held => ⟨held,fun equal => absurd equal same⟩,And.left⟩

instance : Std.Total Route.upTo where
  total a b := by
    simp only [upToIff]
    rcases lt_trichotomy a.host b.host with before | same | behind
    · exact .inl ⟨before.le,fun same => absurd same before.ne⟩
    · rcases Nat.le_total b.pathPrefix.utf8ByteSize a.pathPrefix.utf8ByteSize with shorter | longer
      · exact .inl ⟨same.le,fun _ => shorter⟩
      · exact .inr ⟨same.ge,fun _ => longer⟩
    · exact .inr ⟨behind.le,fun same => absurd same behind.ne⟩

instance : IsTrans Route Route.upTo where
  trans a b c first second := by
    rw [upToIff] at *
    refine ⟨first.1.trans second.1,?_⟩
    intro same
    have left : a.host = b.host := le_antisymm first.1 (same ▸ second.1)
    have right : b.host = c.host := left.symm.trans same
    exact (second.2 right).trans (first.2 left)

/- The routes of a table stand in its order. -/
theorem tableSorted (m : CaseMap) (i : BuildInput) : (BuildTable m i).routes.Pairwise Route.upTo :=
  List.pairwise_insertionSort Route.upTo _

theorem tableRoutes {m : CaseMap} {i : BuildInput} {r : Route} :
    r ∈ (BuildTable m i).routes ↔ ∃ h ∈ i.hosts, ∃ d ∈ h.domainList m,
      r = rootRoute i.appBaseURL h d ∨ ∃ loc ∈ h.locations, r = locationRoute i.appBaseURL h d loc := by
  unfold BuildTable hostRoutes
  simp only [List.mem_insertionSort,List.mem_flatMap,List.mem_cons,List.mem_map]
  constructor
  · rintro ⟨h,host,d,domain,rfl | ⟨loc,mem,rfl⟩⟩
    · exact ⟨h,host,d,domain,.inl rfl⟩
    · exact ⟨h,host,d,domain,.inr ⟨loc,mem,rfl⟩⟩
  · rintro ⟨h,host,d,domain,rfl | ⟨loc,mem,rfl⟩⟩
    · exact ⟨h,host,d,domain,.inl rfl⟩
    · exact ⟨h,host,d,domain,.inr ⟨loc,mem,rfl⟩⟩

/- The first route that fits: no other that fits stands before it. -/
theorem findLeast {p : Route → Bool} {r : Route} {l : List Route} (sorted : l.Pairwise Route.upTo)
    (found : l.find? p = some r) : ∀ r' ∈ l, p r' = true → r.upTo r' := by
  obtain ⟨_,before,after,rfl,skipped⟩ := List.find?_eq_some_iff_append.mp found
  intro r' mem fits
  obtain ⟨_,tail,_⟩ := List.pairwise_append.mp sorted
  rcases List.mem_append.mp mem with early | late
  · have skip := skipped r' early
    rw [fits] at skip
    cases skip
  · rcases List.mem_cons.mp late with rfl | later
    · exact upToIff.mpr ⟨le_refl _,fun _ => le_refl _⟩
    · exact (List.pairwise_cons.mp tail).1 r' later

theorem pickSome {t : Table} {h p : String} {r : Route} (found : t.pick h p = some r) :
    Candidate t h p r ∨ Candidate t "*" p r := by
  unfold Table.pick at found
  split at found
  · rename_i active
    have mem := List.mem_of_find?_eq_some found
    have fits := List.find?_some found
    simp only [Bool.and_eq_true,Bool.or_eq_true,decide_eq_true_eq] at fits
    rcases fits.1 with own | all
    · exact .inl ⟨active,mem,own,fits.2⟩
    · exact .inr ⟨active,mem,all,fits.2⟩
  · cases found

/- Of two routes that serve the request the table answers with none that stands behind the other. -/
theorem pickLeast {m : CaseMap} {i : BuildInput} {h p : String} {r : Route} (found : (BuildTable m i).pick h p = some r)
    {r' : Route} (other : Candidate (BuildTable m i) h p r' ∨ Candidate (BuildTable m i) "*" p r') :
    r.host ≤ r'.host ∧ (r.host = r'.host → r'.pathPrefix.utf8ByteSize ≤ r.pathPrefix.utf8ByteSize) := by
  have fits : r' ∈ (BuildTable m i).routes ∧ ((r'.host = h || r'.host = "*") && covers r'.pathPrefix p) = true := by
    rcases other with own | all
    · exact ⟨own.listed,by simp [own.host,own.covers]⟩
    · exact ⟨all.listed,by simp [all.host,all.covers]⟩
  unfold Table.pick at found
  split at found
  · exact upToIff.mp (findLeast (tableSorted m i) found r' fits.1 fits.2)
  · cases found

theorem pickNone {t : Table} {h p : String} (missed : t.pick h p = none) (r : Route) :
    ¬Candidate t h p r ∧ ¬Candidate t "*" p r := by
  unfold Table.pick at missed
  constructor
  all_goals
    intro held
    rw [if_pos held.active,List.find?_eq_none] at missed
    exact missed r held.listed (by simp [held.host,held.covers])

/- Every domain has a route that serves all paths. -/
theorem listedRoot {m : CaseMap} {i : BuildInput} {name p : String} (active : (BuildTable m i).active = true)
    (listed : Listed m i.hosts name) : ∃ r, Candidate (BuildTable m i) name p r := by
  obtain ⟨h,host,domain⟩ := listed
  exact ⟨rootRoute i.appBaseURL h name,active,tableRoutes.mpr ⟨h,host,name,domain,.inl rfl⟩,rfl,rfl⟩

theorem candidateListed {m : CaseMap} {i : BuildInput} {name p : String} {r : Route}
    (held : Candidate (BuildTable m i) name p r) : Listed m i.hosts name := by
  obtain ⟨h,host,d,domain,rfl | ⟨loc,_,rfl⟩⟩ := tableRoutes.mp held.listed
  · exact ⟨h,host,held.host ▸ domain⟩
  · exact ⟨h,host,held.host ▸ domain⟩

/- Where a proxy host for all names stands before the one of the request, its root route takes the request. -/
theorem allTakes {m : CaseMap} {i : BuildInput} {h : String} (p : String) (on : (BuildTable m i).active = true) (behind : "*" < h)
    (own : Listed m i.hosts h) (all : Listed m i.hosts "*") :
    ¬MostSpecific (BuildTable m i) h p ((BuildTable m i).pick h p) := by
  intro specific
  obtain ⟨ownRoute,ownRoot⟩ := listedRoot (p := p) on own
  obtain ⟨allRoute,allRoot⟩ := listedRoot (p := p) on all
  cases found : (BuildTable m i).pick h p with
  | none => exact (pickNone found ownRoute).1 ownRoot
  | some r =>
    rw [found] at specific
    rcases specific.1 with here | ⟨_,none⟩
    · have least := (pickLeast found (.inr allRoot)).1
      rw [here.host,allRoot.host] at least
      exact absurd behind (not_lt.mpr least)
    · exact none ownRoute ownRoot

theorem pickSpecific {m : CaseMap} {i : BuildInput} {h p : String}
    (apart : (BuildTable m i).active = true → "*" < h → ¬(Listed m i.hosts h ∧ Listed m i.hosts "*")) :
    MostSpecific (BuildTable m i) h p ((BuildTable m i).pick h p) := by
  cases found : (BuildTable m i).pick h p with
  | none => exact pickNone found
  | some r =>
    refine ⟨?_,?_⟩
    · rcases pickSome found with here | all
      · exact .inl here
      · rcases eq_or_ne h "*" with same | other
        · exact .inl (same ▸ all)
        · refine .inr ⟨all,?_⟩
          intro r' own
          have least := (pickLeast found (.inl own)).1
          rw [own.host,all.host] at least
          exact apart all.active (lt_of_le_of_ne least other.symm) ⟨candidateListed own,candidateListed all⟩
    · intro r' other
      rcases pickSome found with here | all
      · exact (pickLeast found (.inl (here.host ▸ other))).2 other.host.symm
      · exact (pickLeast found (.inr (all.host ▸ other))).2 other.host.symm

/- Hosts stand in the order of their names, and a proxy host for all names with them:
a request takes the most specific route unless its host is listed behind "*". -/
theorem matchSpecific (m : CaseMap) (i : BuildInput) (host reqPath : String) :
    MostSpecific (BuildTable m i) (requestHost m host) (requestPath reqPath) ((BuildTable m i).Match m host reqPath) ↔
      (i.activeEngine = engineFiber → "*" < requestHost m host →
        ¬(Listed m i.hosts (requestHost m host) ∧ Listed m i.hosts "*")) := by
  have active : (BuildTable m i).active = true ↔ i.activeEngine = engineFiber := by simp [BuildTable]
  rw [← active]
  constructor
  · intro specific on behind both
    exact allTakes _ on behind both.1 both.2 specific
  · exact pickSpecific

def sampleHost (id domains upstream : String) : ProxyHost :=
  ⟨id,"",domains,"http","url",upstream,false,false,false,false,false,[],[]⟩

def allAndOne : BuildInput :=
  ⟨engineFiber,[sampleHost "1" "*" "http://all:1",sampleHost "2" "a.example" "http://one:2"],[],""⟩

/- A request for a.example goes where every other request goes. -/
theorem allTakesOne : ((BuildTable ascii allAndOne).Match ascii "a.example" "/").map Route.upstreamURL = some "http://all:1" ∧
    ¬MostSpecific (BuildTable ascii allAndOne) (requestHost ascii "a.example") (requestPath "/")
      ((BuildTable ascii allAndOne).Match ascii "a.example" "/") :=
  ⟨by decide,allTakes _ (by decide) (by decide) ⟨_,List.mem_cons_of_mem _ List.mem_cons_self,by decide⟩
    ⟨_,List.mem_cons_self,by decide⟩⟩

end ContainerWS.Proxy
