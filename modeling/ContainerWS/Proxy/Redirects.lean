import ContainerWS.Proxy.NginxConfig

/-! Redirects in the three engines: the rule that `MatchRedirect` of the route table finds, the
one that nginx is configured to answer with and the one of Traefik's router, each with its
Location as src/modules/proxymanager/fiberproxy/proxy.go or the engine gives it. -/
namespace ContainerWS.Proxy
open GoPath GoStrings Nginx StableFirst

/- A request as it is sent; its path is the sent one with its escapes read. -/
structure Visit extends Request where
  sent : String
  sentRooted : hasPrefix sent "/" = true
  query : Option String

/- The request with its path as it is sent. -/
def Visit.raw (v : Visit) : Request := ⟨v.host,v.sent,v.sentRooted⟩

def Visit.requestURI (v : Visit) : String :=
  v.sent ++ match v.query with
    | none => ""
    | some q => "?" ++ q

/- `net/url`: parsing, and the two fields that the middleware reads and writes. -/
structure NetURL where
  URL : Type
  Parse : String → Option URL
  Path : URL → String
  withPath : URL → String → URL
  withRawQuery : URL → String → URL
  String : URL → String

def RedirectRule.takes (host reqPath : String) (r : RedirectRule) : Bool :=
  let start := trimRight '/' r.fromPath
  (r.fromHost = host || r.fromHost = "*") &&
    (r.fromPath = "/" || reqPath = r.fromPath || (start ≠ "" && hasPrefix reqPath (start ++ "/")))

def Table.MatchRedirect (m : CaseMap) (t : Table) (host reqPath : String) : Option RedirectRule :=
  if t.active then t.redirects.find? (RedirectRule.takes (requestHost m host) (requestPath reqPath)) else none

/- Where the rule stands that is found. -/
def Table.redirectIndex (m : CaseMap) (t : Table) (host reqPath : String) : Option Nat :=
  if t.active then t.redirects.findIdx? (RedirectRule.takes (requestHost m host) (requestPath reqPath)) else none

/- `Middleware`: a target that cannot be parsed stays as it is. -/
def RedirectRule.location (net : NetURL) (v : Visit) (r : RedirectRule) : String :=
  if r.preservePath then
    match net.Parse r.toURL with
    | none => r.toURL
    | some u => net.String (net.withRawQuery (net.withPath u (trimRight '/' (net.Path u) ++ v.sent)) (v.query.getD ""))
  else r.toURL

def ruleName (m : CaseMap) (v : Visit) (name : String) : Bool := m.toLower name = requestHost m v.host

section
variable (net : NetURL) (m : CaseMap) (port : Nat) (redirects : List ProxyRedirect) (v : Visit)

def fiberRedirected : Option (Nat × String) :=
  let t := BuildTable m ⟨engineFiber,[],redirects,""⟩
  (t.redirectIndex m v.host v.sent).bind (fun i => t.redirects[i]?.map (fun r => (i,r.location net v)))

def redirectFileName (x : ProxyRedirect × Nat) : String := (redirectFile m port x).name

def redirectServer (x : ProxyRedirect × Nat) : Server := renderRedirect x.1 port

/- The rule whose server block takes the request. -/
def nginxRedirected : Option (Nat × String) :=
  (normalizedURI v.path).bind (fun uri =>
    (serverFor (redirectServer port) (ruleName m v) (redirects.zipIdx.insertionSort (byName (redirectFileName m port)))).bind (fun x =>
      (((redirectServer port x).action uri).bind (Action.location port (requestHost m v.host) v.requestURI)).map (fun target => (x.2,target))))

/- Of the routers that accept the request the one with the highest priority. -/
def Dynamic.routed (d : Dynamic) (r : Request) : Option Router := (d.routers.filter (Router.accepts m r)).argmax Router.priority

/- A router of a redirect answers with the replacement of its middleware. -/
def Dynamic.redirected (d : Dynamic) (x : Router) : Option (Nat × String) :=
  match x.name,d.middlewares.lookup x.name with
  | .redirect i,some (.redirectRegex _ replacement _) => some (i,replacement)
  | _,_ => none

def traefikRedirected : Option (Nat × String) :=
  let d := buildDynamic m [] redirects ""
  (d.routed m v.toRequest).bind d.redirected

/- The three answer with one rule and one Location, the target with path and query behind it where
they are preserved, or all with none. -/
def SameRedirect : Prop :=
  fiberRedirected net m redirects v = nginxRedirected m port redirects v ∧
    fiberRedirected net m redirects v = traefikRedirected m redirects v ∧
    ∀ i location, fiberRedirected net m redirects v = some (i,location) → ∃ r, redirects[i]? = some r ∧
      location = if r.preservePath then trimRight '/' r.toURL ++ v.requestURI else r.toURL

/- The rule is for the name or for all names, and its path covers the request. -/
def Taken (r : ProxyRedirect) : Bool := (redirectRule m r).takes (requestHost m v.host) (requestPath v.sent)

/- No rule before it is taken. -/
def FirstRule (i : Nat) (r : ProxyRedirect) : Prop :=
  redirects[i]? = some r ∧ Taken m v r = true ∧ ∀ j r', j < i → redirects[j]? = some r' → Taken m v r' = false

/- The file of the rule is read before the files of all others for its name, or of all others where
no rule has the name. -/
def FileFirst (x : ProxyRedirect × Nat) : Prop :=
  Effective (byName (redirectFileName m port)) (redirectServer port) (ruleName m v) redirects.zipIdx x

/- The path that nginx compares begins with the path of the rule. -/
def Located (r : ProxyRedirect) : Prop := ∃ uri, normalizedURI v.path = some uri ∧ hasPrefix uri r.fromPath = true

def Reached (r : ProxyRedirect) : Prop := ruleName m v r.fromHost = true ∧ (r.fromPath = "/" ∨ hasPrefix v.path r.fromPath = true)

/- No rule for the name behind it has a path that the request begins with. -/
def LastRule (i : Nat) (r : ProxyRedirect) : Prop :=
  redirects[i]? = some r ∧ Reached m v r ∧ ∀ j r', i < j → redirects[j]? = some r' → ¬Reached m v r'

/- The target is not one on the proxy itself, and preserving adds nothing to it. -/
def Unchanged (r : ProxyRedirect) : Prop :=
  hasPrefix r.toURL "/" = false ∧
    (r.preservePath = true → trimRight '/' r.toURL ++ v.requestURI = r.toURL ∧ ∀ u, net.Parse r.toURL = some u →
      net.String (net.withRawQuery (net.withPath u (trimRight '/' (net.Path u) ++ v.sent)) (v.query.getD "")) = r.toURL)

/- One rule is the first of the table, of the files and the last of the routers, and its target is sent
unchanged; or there is none for any engine. -/
def OneRule : Prop :=
  (∃ i r, FirstRule m redirects v i r ∧ FileFirst m port redirects v (r,i) ∧ Located v r ∧ LastRule m redirects v i r ∧
      Unchanged net v r) ∨
    (∀ r ∈ redirects, Taken m v r = false ∧ ¬Reached m v r) ∧ ∀ x, FileFirst m port redirects v x → ¬Located v x.1

end

section
variable {net : NetURL} {m : CaseMap} {port : Nat} {redirects : List ProxyRedirect} {v : Visit}

theorem takenRule : RedirectRule.takes (requestHost m v.host) (requestPath v.sent) ∘ redirectRule m = Taken m v := by
  funext r
  rw [Function.comp_apply,Taken]

theorem redirectIndexFirst {i : Nat} : (BuildTable m ⟨engineFiber,[],redirects,""⟩).redirectIndex m v.host v.sent = some i ↔
    ∃ r, FirstRule m redirects v i r := by
  have active : (BuildTable m ⟨engineFiber,[],redirects,""⟩).active = true := by simp [BuildTable]
  unfold Table.redirectIndex FirstRule
  rw [if_pos active]
  unfold BuildTable
  rw [List.findIdx?_map,takenRule,List.findIdx?_eq_some_iff_getElem]
  constructor
  · rintro ⟨bound,taken,before⟩
    refine ⟨redirects[i],List.getElem?_eq_getElem bound,taken,?_⟩
    intro j r earlier here
    obtain ⟨within,rfl⟩ := List.getElem?_eq_some_iff.mp here
    exact Bool.eq_false_iff.mpr (before j earlier)
  · rintro ⟨r,here,taken,before⟩
    obtain ⟨bound,rfl⟩ := List.getElem?_eq_some_iff.mp here
    exact ⟨bound,taken,fun j earlier => Bool.eq_false_iff.mp (before j _ earlier (List.getElem?_eq_getElem (earlier.trans bound)))⟩

theorem matchRedirectIndex (t : Table) (host reqPath : String) :
    t.MatchRedirect m host reqPath = (t.redirectIndex m host reqPath).bind (fun i => t.redirects[i]?) := by
  unfold Table.MatchRedirect Table.redirectIndex
  split
  · exact List.find?_eq_bind_findIdx?_getElem?
  · rfl

theorem fiberSome {i : Nat} {location : String} : fiberRedirected net m redirects v = some (i,location) ↔
    ∃ r, FirstRule m redirects v i r ∧ (redirectRule m r).location net v = location := by
  unfold fiberRedirected
  simp only [Option.bind_eq_some_iff,redirectIndexFirst,Option.map_eq_some_iff]
  have row (j : Nat) : (BuildTable m ⟨engineFiber,[],redirects,""⟩).redirects[j]? = redirects[j]?.map (redirectRule m) := List.getElem?_map
  constructor
  · rintro ⟨j,⟨r,first⟩,rule,here,same⟩
    rw [row,first.1,Option.map_some,Option.some_inj] at here
    obtain ⟨rfl,rfl⟩ := Prod.mk.inj same
    exact ⟨r,first,by rw [here]⟩
  · rintro ⟨r,first,rfl⟩
    exact ⟨i,⟨r,first⟩,redirectRule m r,by rw [row,first.1,Option.map_some],rfl⟩

theorem redirectAction (x : ProxyRedirect × Nat) (uri : String) : (redirectServer port x).action uri =
    if hasPrefix uri x.1.fromPath then some (.answer x.1.statusCode (redirectTo x.1)) else none := by
  unfold Server.action Server.location redirectServer renderRedirect
  by_cases begins : hasPrefix uri x.1.fromPath = true
  · simp [Location.moves,Location.start,Matcher.accepts,begins]
  · simp [Location.moves,Location.start,Matcher.accepts,begins]

theorem nginxSome {i : Nat} {location : String} : nginxRedirected m port redirects v = some (i,location) ↔
    ∃ r, FileFirst m port redirects v (r,i) ∧ Located v r ∧ sentTo port (requestHost m v.host) v.requestURI (redirectTo r) = location := by
  unfold nginxRedirected Located FileFirst
  simp only [Option.bind_eq_some_iff,Option.map_eq_some_iff,sortedServer,redirectAction]
  constructor
  · rintro ⟨uri,normal,⟨r,j⟩,first,target,⟨action,taken,sent⟩,same⟩
    obtain ⟨rfl,rfl⟩ := Prod.mk.inj same
    split at taken <;> try contradiction
    rename_i begins
    rw [← Option.some_inj.mp taken] at sent
    exact ⟨r,first,⟨uri,normal,begins⟩,Option.some_inj.mp sent⟩
  · rintro ⟨r,first,⟨uri,normal,begins⟩,rfl⟩
    exact ⟨uri,normal,(r,i),first,_,⟨_,if_pos begins,rfl⟩,rfl⟩

theorem routerAccepts (i : Nat) (r : ProxyRedirect) : (redirectRouter i r).accepts m v.toRequest = true ↔ Reached m v r := by
  unfold Router.accepts Reached redirectRouter ruleName
  by_cases root : r.fromPath = "/"
  · simp [root]
  · simp [root]

theorem redirectRouters : (buildDynamic m [] redirects "").routers = redirects.zipIdx.map (fun r => redirectRouter r.2 r.1) := by
  simp [buildDynamic,entries]

theorem redirectRedirected {i : Nat} {r : ProxyRedirect} (here : redirects[i]? = some r) :
    (buildDynamic m [] redirects "").redirected (redirectRouter i r) = some (i,r.toURL) := by
  have found : (buildDynamic m [] redirects "").middlewares.lookup (.redirect i) =
      some (.redirectRegex ".*" r.toURL (permanent r.statusCode)) := by
    have only : ∀ y ∈ redirects.zipIdx, RouterName.redirect y.2 = RouterName.redirect i → y = (r,i) := by
      rintro ⟨r',j⟩ mem same
      obtain rfl : j = i := RouterName.redirect.inj same
      rw [List.mem_zipIdx_iff_getElem?,here] at mem
      rw [Option.some_inj.mp mem]
    have whole : (buildDynamic m [] redirects "").middlewares = redirects.zipIdx.map (fun x => redirectMiddleware x.2 x.1) := by
      simp [buildDynamic,entries]
    rw [whole]
    exact lookupMap (f := fun x : ProxyRedirect × Nat => RouterName.redirect x.2) (a := (r,i))
      (List.mem_zipIdx_iff_getElem?.mpr here) only
  unfold Dynamic.redirected
  rw [show (redirectRouter i r).name = .redirect i from rfl,found]

theorem acceptedRouter {x : Router} : x ∈ (buildDynamic m [] redirects "").routers.filter (Router.accepts m v.toRequest) ↔
    ∃ j r, redirects[j]? = some r ∧ Reached m v r ∧ redirectRouter j r = x := by
  rw [List.mem_filter,redirectRouters,List.mem_map]
  constructor
  · rintro ⟨⟨⟨r,j⟩,mem,rfl⟩,accepted⟩
    exact ⟨j,r,List.mem_zipIdx_iff_getElem?.mp mem,(routerAccepts j r).mp accepted,rfl⟩
  · rintro ⟨j,r,here,reached,rfl⟩
    exact ⟨⟨(r,j),List.mem_zipIdx_iff_getElem?.mpr here,rfl⟩,(routerAccepts j r).mpr reached⟩

/- Routers of redirects are numbered upwards: the last one is taken. -/
theorem routedLast {x : Router} : (buildDynamic m [] redirects "").routed m v.toRequest = some x ↔
    ∃ i r, LastRule m redirects v i r ∧ redirectRouter i r = x := by
  have number (i : Nat) (r : ProxyRedirect) : (redirectRouter i r).priority = 1000+i := rfl
  have highest {i : Nat} {r : ProxyRedirect} (last : LastRule m redirects v i r) {y : Router}
      (mem : y ∈ (buildDynamic m [] redirects "").routers.filter (Router.accepts m v.toRequest)) (above : 1000+i ≤ y.priority) :
      y = redirectRouter i r := by
    obtain ⟨here,_,behind⟩ := last
    obtain ⟨j,r',there,reached,rfl⟩ := acceptedRouter.mp mem
    rw [number] at above
    rcases Nat.lt_or_ge i j with later | upTo
    · exact absurd reached (behind j r' later there)
    · obtain rfl : j = i := by omega
      rw [here] at there
      rw [Option.some_inj.mp there]
  unfold Dynamic.routed
  constructor
  · intro best
    obtain ⟨i,r,here,reached,rfl⟩ := acceptedRouter.mp (List.argmax_mem best)
    refine ⟨i,r,⟨here,reached,?_⟩,rfl⟩
    intro j r' later there other
    have upTo := List.le_of_mem_argmax (acceptedRouter.mpr ⟨j,r',there,other,rfl⟩) best
    rw [number,number] at upTo
    omega
  · rintro ⟨i,r,last,rfl⟩
    have mem := acceptedRouter.mpr ⟨i,r,last.1,last.2.1,rfl⟩
    cases best : ((buildDynamic m [] redirects "").routers.filter (Router.accepts m v.toRequest)).argmax Router.priority with
    | none =>
      rw [List.argmax_eq_none.mp best] at mem
      cases mem
    | some y => rw [highest last (List.argmax_mem best) (List.le_of_mem_argmax mem best)]

theorem traefikSome {i : Nat} {location : String} : traefikRedirected m redirects v = some (i,location) ↔
    ∃ r, LastRule m redirects v i r ∧ r.toURL = location := by
  unfold traefikRedirected
  simp only [Option.bind_eq_some_iff,routedLast]
  constructor
  · rintro ⟨x,⟨j,r,last,rfl⟩,sent⟩
    rw [redirectRedirected last.1] at sent
    obtain ⟨rfl,rfl⟩ := Prod.mk.inj (Option.some_inj.mp sent)
    exact ⟨r,last,rfl⟩
  · rintro ⟨r,last,rfl⟩
    exact ⟨redirectRouter i r,⟨i,r,last,rfl⟩,redirectRedirected last.1⟩

/- A property that some element has some last element has. -/
theorem lastOf {α : Type} {p : α → Prop} {l : List α} {a : α} (mem : a ∈ l) (held : p a) :
    ∃ (i : Nat) (b : α), l[i]? = some b ∧ p b ∧ ∀ (j : Nat) (c : α), i < j → l[j]? = some c → ¬p c := by
  induction l using List.reverseRecOn with
  | nil => cases mem
  | append_singleton l b ih =>
    by_cases last : p b
    · refine ⟨l.length,b,by simp,last,?_⟩
      intro j c behind here
      have short : (l ++ [b]).length ≤ j := by
        rw [List.length_append,List.length_singleton]
        exact behind
      rw [List.getElem?_eq_none short] at here
      cases here
    · have inside : a ∈ l := by
        rcases List.mem_append.mp mem with early | late
        · exact early
        · exact absurd (List.mem_singleton.mp late ▸ held) last
      obtain ⟨i,d,here,found,behind⟩ := ih inside
      have bound := (List.getElem?_eq_some_iff.mp here).1
      refine ⟨i,d,by rw [List.getElem?_append_left bound,here],found,?_⟩
      intro j c later there
      rcases Nat.lt_or_ge j l.length with within | upTo
      · rw [List.getElem?_append_left within] at there
        exact behind j c later there
      · rw [List.getElem?_append_right upTo] at there
        obtain ⟨_,rfl⟩ := List.getElem?_eq_some_iff.mp there
        simpa using last

theorem redirectIndexNone : (BuildTable m ⟨engineFiber,[],redirects,""⟩).redirectIndex m v.host v.sent = none ↔
    ∀ r ∈ redirects, Taken m v r = false := by
  have active : (BuildTable m ⟨engineFiber,[],redirects,""⟩).active = true := by simp [BuildTable]
  unfold Table.redirectIndex
  rw [if_pos active]
  unfold BuildTable
  rw [List.findIdx?_map,takenRule,List.findIdx?_eq_none_iff]

theorem fiberNone : fiberRedirected net m redirects v = none ↔ ∀ r ∈ redirects, Taken m v r = false := by
  rw [← redirectIndexNone]
  constructor
  · intro none
    rw [Option.eq_none_iff_forall_ne_some] at none ⊢
    intro i found
    obtain ⟨r,first⟩ := redirectIndexFirst.mp found
    exact none (i,_) (fiberSome.mpr ⟨r,first,rfl⟩)
  · intro none
    unfold fiberRedirected
    simp only [none,Option.bind_none]

theorem nginxNone : nginxRedirected m port redirects v = none ↔ ∀ x, FileFirst m port redirects v x → ¬Located v x.1 := by
  rw [Option.eq_none_iff_forall_ne_some]
  constructor
  · intro none x first located
    exact none (x.2,_) (nginxSome.mpr ⟨x.1,first,located,rfl⟩)
  · rintro none ⟨i,location⟩ answered
    obtain ⟨r,first,located,_⟩ := nginxSome.mp answered
    exact none (r,i) first located

theorem traefikNone : traefikRedirected m redirects v = none ↔ ∀ r ∈ redirects, ¬Reached m v r := by
  rw [Option.eq_none_iff_forall_ne_some]
  constructor
  · intro none r mem reached
    obtain ⟨i,last,here,held,behind⟩ := lastOf mem reached
    exact none (i,_) (traefikSome.mpr ⟨last,⟨here,held,behind⟩,rfl⟩)
  · rintro none ⟨i,location⟩ answered
    obtain ⟨r,last,_⟩ := traefikSome.mp answered
    exact none r (List.mem_of_getElem? last.1) last.2.1

theorem defaultPage (port : Nat) (named : String → Bool) (path host requestURI : String) :
    (chosen (included [defaultFile port]) port named path).bind (Action.location port host requestURI) = none := by
  have one : included [defaultFile port] = (defaultFile port).servers := by simp [included]
  have page (server : Server) (uri : String) (mem : server ∈ (defaultFile port).servers) :
      (server.action uri).bind (Action.location port host requestURI) = none := by
    obtain rfl := List.mem_singleton.mp mem
    by_cases begins : hasPrefix uri "/" = true
    · simp [Server.action,Server.location,Location.moves,Location.start,Matcher.accepts,Action.location,begins]
    · simp [Server.action,Server.location,Location.moves,Location.start,Matcher.accepts,begins]
  rw [one]
  unfold chosen
  split
  · rw [Option.bind_eq_none_iff]
    intro action found
    simp only [Option.bind_eq_some_iff] at found
    obtain ⟨uri,_,server,taken,answered⟩ := found
    have nothing := page server uri (plainServersMem (serverForMem taken)).1
    rw [answered] at nothing
    exact nothing
  · rfl

theorem redirectsIncluded (m : CaseMap) (port : Nat) (redirects : List ProxyRedirect) :
    included (redirects.zipIdx.map (redirectFile m port)) =
      (redirects.zipIdx.insertionSort (byName (redirectFileName m port))).map (redirectServer port) := by
  unfold included
  rw [sortedFiles,List.flatMap_map]
  exact List.flatMap_pure_eq_map (redirectServer port) _

theorem redirectsAccepted {port : Nat} {l : List (ProxyRedirect × Nat)} : Accepted (l.map (redirectServer port)) := by
  intro server mem
  obtain ⟨x,_,rfl⟩ := List.mem_map.mp mem
  simp [redirectServer,renderRedirect,Location.start,Action.passable]

theorem redirectsPlain {port : Nat} {l : List (ProxyRedirect × Nat)} :
    plainServers port (l.map (redirectServer port)) = l.map (redirectServer port) := by
  unfold plainServers
  rw [if_neg (by simp [redirectServer,renderRedirect])]
  rw [List.filter_eq_self]
  intro server mem
  obtain ⟨x,_,rfl⟩ := List.mem_map.mp mem
  simp [redirectServer,renderRedirect]

/- The answer is that of the configuration as it is written, where there are no proxy hosts. -/
theorem redirectsGenerated (m : CaseMap) (s : Snapshot) (sslDir : Path) (appBaseURL : String) (v : Visit) (alone : s.hosts = []) :
    (nginxRedirected m s.settings.nginxPorts.1 s.redirects v).map Prod.snd =
      (chosen (included (Generate m s sslDir appBaseURL)) s.settings.nginxPorts.1 (ruleName m v) v.path).bind
        (Action.location s.settings.nginxPorts.1 (requestHost m v.host) v.requestURI) := by
  unfold Generate
  rw [alone,List.zipIdx_nil,List.map_nil,List.append_nil]
  by_cases none : s.redirects = []
  · rw [if_pos ⟨rfl,none⟩,none,List.zipIdx_nil,List.map_nil,List.nil_append,defaultPage]
    unfold nginxRedirected
    cases normalizedURI v.path <;> simp [serverFor]
  · rw [if_neg (fun both => none both.2),List.append_nil,redirectsIncluded]
    unfold chosen nginxRedirected
    rw [if_pos redirectsAccepted,redirectsPlain,serverForMap]
    cases normalizedURI v.path with
    | none => rfl
    | some uri =>
      cases serverFor (redirectServer s.settings.nginxPorts.1) (ruleName m v)
          (s.redirects.zipIdx.insertionSort (byName (redirectFileName m s.settings.nginxPorts.1))) with
      | none => rfl
      | some x => simp

theorem targetValue (r : ProxyRedirect) (host requestURI : String) : String.join ((redirectTo r).map (Piece.value host requestURI)) =
    if r.preservePath then trimRight '/' r.toURL ++ requestURI else r.toURL := by
  unfold redirectTo
  split <;> simp [Piece.value]

/- What nginx answers is the target where the target is not one on the proxy itself. -/
theorem sentSame {r : ProxyRedirect} {host requestURI : String}
    (plain : r.preservePath = true → trimRight '/' r.toURL ++ requestURI = r.toURL) :
    sentTo port host requestURI (redirectTo r) = r.toURL ↔ hasPrefix r.toURL "/" = false := by
  have whole : String.join ((redirectTo r).map (Piece.value host requestURI)) = r.toURL := by
    rw [targetValue]
    split
    · exact plain ‹_›
    · rfl
  unfold sentTo
  dsimp only
  rw [whole]
  by_cases rooted : hasPrefix r.toURL "/" = true
  · rw [if_pos rooted]
    refine iff_of_false ?_ (by simp [rooted])
    intro same
    rw [← same] at rooted
    simp [hasPrefix] at rooted
  · rw [if_neg rooted]
    simpa using rooted

theorem locationSame (r : ProxyRedirect) : (redirectRule m r).location net v = r.toURL ↔
    (r.preservePath = true → ∀ u, net.Parse r.toURL = some u →
      net.String (net.withRawQuery (net.withPath u (trimRight '/' (net.Path u) ++ v.sent)) (v.query.getD "")) = r.toURL) := by
  unfold RedirectRule.location redirectRule
  cases r.preservePath with
  | false => simp
  | true =>
    cases net.Parse r.toURL with
    | none => simp
    | some u => simp

theorem oneRuleOf (same : SameRedirect net m port redirects v) : OneRule net m port redirects v := by
  obtain ⟨nginx,traefik,target⟩ := same
  cases answered : fiberRedirected net m redirects v with
  | none =>
    have taken := fiberNone.mp answered
    have reached := traefikNone.mp (traefik.symm.trans answered)
    exact .inr ⟨fun r mem => ⟨taken r mem,reached r mem⟩,nginxNone.mp (nginx.symm.trans answered)⟩
  | some outcome =>
    obtain ⟨i,location⟩ := outcome
    obtain ⟨r,first,followed⟩ := fiberSome.mp answered
    obtain ⟨r',file,located,sent⟩ := nginxSome.mp (nginx.symm.trans answered)
    obtain ⟨r'',last,replaced⟩ := traefikSome.mp (traefik.symm.trans answered)
    have row : r' = r := by
      have here := List.mem_zipIdx_iff_getElem?.mp (effectiveMem file)
      rw [first.1] at here
      exact (Option.some_inj.mp here).symm
    have router : r'' = r := Option.some_inj.mp (last.1.symm.trans first.1)
    subst row router
    obtain ⟨other,here,spec⟩ := target i location answered
    obtain rfl : other = r'' := Option.some_inj.mp (here.symm.trans first.1)
    subst replaced
    have plain (kept : other.preservePath = true) : trimRight '/' other.toURL ++ v.requestURI = other.toURL := by
      rw [if_pos kept] at spec
      exact spec.symm
    exact .inl ⟨i,other,first,file,located,last,(sentSame plain).mp sent,
      fun kept => ⟨plain kept,(locationSame other).mp followed kept⟩⟩

theorem sameRedirectOf (one : OneRule net m port redirects v) : SameRedirect net m port redirects v := by
  rcases one with ⟨i,r,first,file,located,last,away,added⟩ | ⟨none,files⟩
  · have plain (kept : r.preservePath = true) := (added kept).1
    have followed : (redirectRule m r).location net v = r.toURL := (locationSame r).mpr (fun kept => (added kept).2)
    have fiber : fiberRedirected net m redirects v = some (i,r.toURL) := fiberSome.mpr ⟨r,first,followed⟩
    refine ⟨?_,?_,?_⟩
    · rw [fiber,nginxSome.mpr ⟨r,file,located,(sentSame plain).mpr away⟩]
    · rw [fiber,traefikSome.mpr ⟨r,last,rfl⟩]
    · intro j location answered
      rw [fiber] at answered
      obtain ⟨rfl,rfl⟩ := Prod.mk.inj (Option.some_inj.mp answered)
      refine ⟨r,first.1,?_⟩
      split
      · exact (plain ‹_›).symm
      · rfl
  · have fiber : fiberRedirected net m redirects v = Option.none := fiberNone.mpr (fun r mem => (none r mem).1)
    refine ⟨?_,?_,?_⟩
    · rw [fiber,nginxNone.mpr files]
    · rw [fiber,traefikNone.mpr (fun r mem => (none r mem).2)]
    · intro i location answered
      rw [fiber] at answered
      cases answered

end

/- A URL without escapes: what stands up to its path, the path and the query. -/
def plainURL : NetURL where
  URL := String × String × String
  Parse u := (cutScheme u.toList).map (fun cut => (String.ofList (cut.1 ++ cut.2.takeWhile (fun c => c != '/')),
    String.ofList (cut.2.dropWhile (fun c => c != '/')),""))
  Path u := u.2.1
  withPath u p := (u.1,p,u.2.2)
  withRawQuery u q := (u.1,u.2.1,q)
  String u := u.1 ++ u.2.1 ++ (if u.2.2 = "" then "" else "?" ++ u.2.2)

def preserved : ProxyRedirect := ⟨"a.example","/","https://b.example",301,true⟩

def visitX : Visit := ⟨⟨"a.example","/x",rfl⟩,"/x",rfl,none⟩

end ContainerWS.Proxy
