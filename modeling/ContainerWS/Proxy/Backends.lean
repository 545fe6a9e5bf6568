import ContainerWS.Proxy.Priorities
import ContainerWS.Proxy.Redirects

/-! Where a plain request goes with the route table and with the nginx configuration of one
snapshot. The files of redirects and of proxy hosts stand in one order, and of the server blocks
for one name only the first is looked at. -/
namespace ContainerWS.Proxy
open GoPath GoStrings Nginx StableFirst

def engineNginx : String := "nginx"

def engineTraefik : String := "traefik"

def dockerNetHost : String := "host"

def dockerNetMacvlan : String := "macvlan"

def Snapshot.CertByID (s : Snapshot) (id : String) : Option ProxyCertificate :=
  if id = "" then none else s.certificates.find? (fun c => c.id = id)

def dockerNetworkPasses (s : ProxySettings) : Bool :=
  if (s.activeEngine = engineNginx ∧ s.nginxRuntime = runtimeDocker) ∨ (s.activeEngine = engineTraefik ∧ s.traefikRuntime = runtimeDocker) then
    if s.dockerNetworkMode ∈ [dockerNetPublished,dockerNetHost,"","bridge"] then true
    else s.dockerNetworkMode = dockerNetMacvlan && trimSpace s.dockerNetworkName ≠ ""
  else true

/- `parses` is `url.ParseRequestURI` without an error. -/
def hostPasses (m : CaseMap) (parses : String → Bool) (s : Snapshot) (h : HostRow) : Bool :=
  h.domainList m ≠ [] && trimSpace h.upstreamTarget ≠ "" &&
  (h.upstreamType ≠ upstreamURL || parses h.upstreamTarget || h.forwardHost ≠ "") &&
  (!(h.listenScheme = schemeHTTPS || h.listenScheme = schemeBoth) ||
    match h.certificateID with
    | none => false
    | some id => trimSpace id ≠ "" && (s.CertByID id).isSome) &&
  h.locations.all (fun loc => loc.upstreamTarget = "" || loc.upstreamType ≠ upstreamURL || parses loc.upstreamTarget)

/- Whether a snapshot passes; the texts of its errors, which name rows by what only the
administration shows, are left out. -/
def ValidateSnapshot (m : CaseMap) (parses : String → Bool) (s : Snapshot) : Bool :=
  s.settings.activeEngine ∈ [engineFiber,engineNginx,engineTraefik] &&
  (0 < s.settings.httpPort && s.settings.httpPort ≤ 65535) && (0 < s.settings.httpsPort && s.settings.httpsPort ≤ 65535) &&
  dockerNetworkPasses s.settings && s.hosts.all (hostPasses m parses s) &&
  s.redirects.all (fun r => trimSpace r.fromHost ≠ "" && trimSpace r.toURL ≠ "")

/- What a request is sent to: a rule, an upstream, or a redirect that only nginx makes. -/
inductive Selected where
  | redirect (i : Nat)
  | upstream (url : String)
  | own
  deriving DecidableEq, Repr

abbrev Item := (ProxyRedirect × Nat) ⊕ (HostRow × Nat)

def Entry.start (e : Entry) : String := e.pathPrefix.getD "/"

section
variable (m : CaseMap) (s : Snapshot) (sslDir : Path) (appBaseURL : String) (v : Visit)

def Snapshot.rows : List ProxyHost := s.hosts.map HostRow.toProxyHost

/- The middleware asks for a redirect first. -/
def fiberSelected : Option Selected :=
  let t := BuildTable m ⟨engineFiber,s.rows,s.redirects,appBaseURL⟩
  match t.redirectIndex m v.host v.sent with
  | some i => some (.redirect i)
  | none => (t.Match m v.host v.sent).map (fun r => .upstream (trimRight '/' r.upstreamURL))

def Snapshot.items : List Item := s.redirects.zipIdx.map .inl ++ s.hosts.zipIdx.map .inr

def itemFile : Item → File
  | .inl r => redirectFile m s.settings.nginxPorts.1 r
  | .inr h => hostFile m s sslDir appBaseURL h

def itemName (x : Item) : String := (itemFile m s sslDir appBaseURL x).name

/- Whether a file has a block for plain requests, and the block. -/
def isPlain : Item → Bool
  | .inl _ => true
  | .inr h => listenHTTP h.1.toProxyHost

def itemServer : Item → Server
  | .inl r => redirectServer s.settings.nginxPorts.1 r
  | .inr h => plainServer m s.settings.nginxPorts.1 appBaseURL h.1.toProxyHost h.2

/- The port for plain requests is one for SSL. -/
def Snapshot.clash : Bool := s.hosts.any (fun h => listenHTTPS h.toProxyHost && s.settings.nginxPorts.2 = s.settings.nginxPorts.1)

def plainItems : List Item :=
  if s.clash then [] else (s.items.insertionSort (byName (itemName m s sslDir appBaseURL))).filter isPlain

def itemSelected (uri : String) (x : Item) : Option Selected :=
  match (itemServer m s appBaseURL x).action uri,x with
  | some (.answer _ _),.inl r => some (.redirect r.2)
  | some (.pass url),_ => some (.upstream url)
  | some (.answer _ _),.inr _ => some .own
  | some .slash,_ => some .own
  | _,_ => none

def nginxSelected : Option Selected :=
  if Accepted (included (Generate m s sslDir appBaseURL)) then
    (normalizedURI v.path).bind (fun uri =>
      (serverFor (itemServer m s appBaseURL) (ruleName m v) (plainItems m s sslDir appBaseURL)).bind (itemSelected m s appBaseURL uri))
  else none

/- nginx takes the configuration in: no host has two places with one prefix, all pass on over HTTP,
and every host with SSL has a certificate. -/
def Loads : Prop :=
  ∀ h ∈ s.hosts.zipIdx, listenHTTP h.1.toProxyHost = true ∨ listenHTTPS h.1.toProxyHost = true →
    ((hostEntries h.1.toProxyHost h.2).map Entry.start).Nodup ∧
    (∀ e ∈ hostEntries h.1.toProxyHost h.2, (Action.pass (trimRight '/' (e.upstream appBaseURL))).passable = true) ∧
    (listenHTTPS h.1.toProxyHost = true → (certPaths s.settings h.1 s.certificates sslDir).1 ≠ "" ∧
      (certPaths s.settings h.1 s.certificates sslDir).2 ≠ "")

/- The file whose block takes the plain requests for the name. -/
def Serving (x : Item) : Prop :=
  s.clash = false ∧ Effective (byName (itemName m s sslDir appBaseURL)) (itemServer m s appBaseURL) (ruleName m v) (s.items.filter isPlain) x

def Moved (h : HostRow × Nat) (uri : String) : Prop := ∃ e ∈ hostEntries h.1.toProxyHost h.2, e.start = uri ++ "/"

def Probed (h : HostRow × Nat) (uri : String) : Prop := h.1.blockExploits = true ∧ exploits.matcher.accepts uri = true

/- The place of the host with the longest prefix that the path begins with. -/
def Furthest (h : HostRow × Nat) (uri : String) (e : Entry) : Prop :=
  e ∈ hostEntries h.1.toProxyHost h.2 ∧ hasPrefix uri e.start = true ∧
    ∀ e' ∈ hostEntries h.1.toProxyHost h.2, hasPrefix uri e'.start = true → e'.start.length ≤ e.start.length

def Passed (h : HostRow × Nat) (e : Entry) : Prop :=
  h.1.sslForced = false ∧ ∃ uri, normalizedURI v.path = some uri ∧ ¬Moved h uri ∧ ¬Probed h uri ∧ Furthest h uri e

/- The block leaves the request without an upstream and without a redirect. -/
def Silent : Item → Prop
  | .inl r => ¬Located v r.1
  | .inr h => ∀ uri, normalizedURI v.path = some uri → h.1.sslForced = false ∧ ¬Moved h uri ∧ Probed h uri

/- A rule that is the first of the table has the block for the name; or no rule is taken, the place that reaches
furthest in the table and the place with the longest prefix in the block for the name have one upstream;
or the table has nothing, and neither has the block. -/
def OneBackend : Prop :=
  (∃ i r, FirstRule m s.redirects v i r ∧ Loads s sslDir appBaseURL ∧ Serving m s sslDir appBaseURL v (.inl (r,i)) ∧ Located v r) ∨
    (∀ r ∈ s.redirects, Taken m v r = false) ∧
      ((∃ e, Foremost m s.rows v.raw e ∧ Loads s sslDir appBaseURL ∧ ∃ h f, Serving m s sslDir appBaseURL v (.inr h) ∧ Passed v h f ∧
          trimRight '/' (e.upstream appBaseURL) = trimRight '/' (f.upstream appBaseURL)) ∨
        ¬Listed m s.rows (requestHost m v.host) ∧ ¬Listed m s.rows "*" ∧
          (Loads s sslDir appBaseURL → ∀ x, Serving m s sslDir appBaseURL v x → Silent v x))

end

section
variable {m : CaseMap} {s : Snapshot} {sslDir : Path} {appBaseURL : String} {v : Visit}

theorem tableRules : (BuildTable m ⟨engineFiber,s.rows,s.redirects,appBaseURL⟩).redirectIndex m v.host v.sent =
    (BuildTable m ⟨engineFiber,[],s.redirects,""⟩).redirectIndex m v.host v.sent := by
  unfold Table.redirectIndex BuildTable
  rfl

theorem tableMatch : (BuildTable m ⟨engineFiber,s.rows,s.redirects,appBaseURL⟩).Match m v.host v.sent =
    (BuildTable m ⟨engineFiber,s.rows,[],appBaseURL⟩).Match m v.raw.host v.raw.path := by
  unfold Table.Match Table.pick BuildTable
  rfl

theorem fiberRule {i : Nat} : fiberSelected m s appBaseURL v = some (.redirect i) ↔ ∃ r, FirstRule m s.redirects v i r := by
  unfold fiberSelected
  dsimp only
  rw [tableRules,← redirectIndexFirst]
  cases (BuildTable m ⟨engineFiber,[],s.redirects,""⟩).redirectIndex m v.host v.sent with
  | none => simp
  | some j => simp

theorem fiberUpstream {url : String} : fiberSelected m s appBaseURL v = some (.upstream url) ↔
    (∀ r ∈ s.redirects, Taken m v r = false) ∧ ∃ e, Foremost m s.rows v.raw e ∧ trimRight '/' (e.upstream appBaseURL) = url := by
  unfold fiberSelected
  dsimp only
  rw [tableRules,tableMatch,← redirectIndexNone]
  cases (BuildTable m ⟨engineFiber,[],s.redirects,""⟩).redirectIndex m v.host v.sent with
  | some j => simp
  | none =>
    simp only [Option.map_eq_some_iff,matchForemost,true_and,Selected.upstream.injEq]
    constructor
    · rintro ⟨_,⟨e,d,first,rfl⟩,same⟩
      rw [(routeIDs appBaseURL e d).2.2] at same
      exact ⟨e,⟨d,first⟩,same⟩
    · rintro ⟨e,⟨d,first⟩,same⟩
      exact ⟨_,⟨e,d,first,rfl⟩,by rw [(routeIDs appBaseURL e d).2.2,same]⟩

theorem fiberSilent : fiberSelected m s appBaseURL v = none ↔ (∀ r ∈ s.redirects, Taken m v r = false) ∧
    ¬Listed m s.rows (requestHost m v.host) ∧ ¬Listed m s.rows "*" := by
  unfold fiberSelected
  dsimp only
  rw [tableRules,tableMatch,← redirectIndexNone]
  cases (BuildTable m ⟨engineFiber,[],s.redirects,""⟩).redirectIndex m v.host v.sent with
  | some j => simp
  | none =>
    rw [Option.map_eq_none_iff,matchNone]
    exact ⟨fun unlisted => ⟨rfl,unlisted⟩,And.right⟩

theorem fiberOwn : fiberSelected m s appBaseURL v ≠ some .own := by
  unfold fiberSelected
  dsimp only
  split
  · simp
  · simp [Option.map_eq_some_iff]

theorem entryLocation (e : Entry) : (e.location appBaseURL).start = some e.start ∧
    (e.location appBaseURL).action = .pass (trimRight '/' (e.upstream appBaseURL)) := by
  unfold Entry.location Entry.start Entry.pathPrefix
  cases e.place <;> exact ⟨rfl,rfl⟩

theorem hostStarts (h : ProxyHost) (i : Nat) : (hostLocations appBaseURL h i).filterMap Location.start = (hostEntries h i).map Entry.start := by
  have each : Location.start ∘ Entry.location appBaseURL = fun e => some e.start := funext (fun e => (entryLocation e).1)
  unfold hostLocations
  rw [List.filterMap_append,List.filterMap_map,each,List.filterMap_eq_map']
  split <;> rfl

theorem hostLocationMem {h : ProxyHost} {i : Nat} {l : Location} : l ∈ hostLocations appBaseURL h i ↔
    (h.blockExploits = true ∧ l = exploits) ∨ ∃ e ∈ hostEntries h i, e.location appBaseURL = l := by
  unfold hostLocations
  rw [List.mem_append,List.mem_map]
  refine or_congr_left ?_
  split
  · simp [*]
  · simp [*]

theorem hostPassable (h : ProxyHost) (i : Nat) : (∀ l ∈ hostLocations appBaseURL h i, l.action.passable = true) ↔
    ∀ e ∈ hostEntries h i, (Action.pass (trimRight '/' (e.upstream appBaseURL))).passable = true := by
  constructor
  · intro all e mem
    have passed := all _ (hostLocationMem.mpr (.inr ⟨e,mem,rfl⟩))
    rwa [(entryLocation e).2] at passed
  · intro all l mem
    rcases hostLocationMem.mp mem with ⟨_,rfl⟩ | ⟨e,inside,rfl⟩
    · rfl
    · rw [(entryLocation e).2]
      exact all e inside

theorem forcedAction {h : HostRow × Nat} (forced : h.1.sslForced = true) (uri : String) :
    (itemServer m s appBaseURL (.inr h)).action uri = some (.answer 301 [.text "https://",.host,.requestURI]) := by
  simp [itemServer,plainServer,Server.action,forced]

section
variable {h : HostRow × Nat} {uri : String}

theorem movedIff (plain : h.1.sslForced = false) : (itemServer m s appBaseURL (.inr h)).locations.any (Location.moves uri) = true ↔ Moved h uri := by
  unfold itemServer plainServer Moved
  simp only [plain,Bool.false_eq_true,if_false,List.any_eq_true,hostLocationMem]
  constructor
  · rintro ⟨l,⟨_,rfl⟩ | ⟨e,mem,rfl⟩,moves⟩
    · cases moves
    · unfold Location.moves at moves
      rw [(entryLocation e).1,(entryLocation e).2] at moves
      exact ⟨e,mem,of_decide_eq_true moves⟩
  · rintro ⟨e,mem,same⟩
    refine ⟨_,.inr ⟨e,mem,rfl⟩,?_⟩
    unfold Location.moves
    rw [(entryLocation e).1,(entryLocation e).2]
    exact decide_eq_true same

theorem movedAction (plain : h.1.sslForced = false) (moved : Moved h uri) :
    (itemServer m s appBaseURL (.inr h)).action uri = some .slash := by
  have answer : (itemServer m s appBaseURL (.inr h)).answer = none := by simp [itemServer,plainServer,plain]
  unfold Server.action
  rw [answer]
  exact if_pos ((movedIff plain).mpr moved)

theorem probedAction (plain : h.1.sslForced = false) (still : ¬Moved h uri) (probed : Probed h uri) :
    (itemServer m s appBaseURL (.inr h)).action uri = some (.page 404) := by
  have answer : (itemServer m s appBaseURL (.inr h)).answer = none := by simp [itemServer,plainServer,plain]
  have locations : (itemServer m s appBaseURL (.inr h)).locations =
      exploits :: (hostEntries h.1.toProxyHost h.2).map (Entry.location appBaseURL) := by
    simp [itemServer,plainServer,plain,hostLocations,probed.1]
  have first : (exploits :: (hostEntries h.1.toProxyHost h.2).map (Entry.location appBaseURL)).find?
      (fun l => l.start.isNone && l.matcher.accepts uri) = some exploits := by
    rw [List.find?_cons,probed.2]
    rfl
  unfold Server.action
  rw [answer]
  dsimp only
  rw [if_neg (fun moves => still ((movedIff plain).mp moves))]
  unfold Server.location
  rw [locations,first]
  rfl

theorem passedAction (plain : h.1.sslForced = false) (nodup : ((hostEntries h.1.toProxyHost h.2).map Entry.start).Nodup)
    (still : ¬Moved h uri) (free : ¬Probed h uri) {e : Entry} (furthest : Furthest h uri e) :
    (itemServer m s appBaseURL (.inr h)).action uri = some (.pass (trimRight '/' (e.upstream appBaseURL))) := by
  have answer : (itemServer m s appBaseURL (.inr h)).answer = none := by simp [itemServer,plainServer,plain]
  have locations : (itemServer m s appBaseURL (.inr h)).locations = hostLocations appBaseURL h.1.toProxyHost h.2 := by
    simp [itemServer,plainServer,plain]
  have taken : (itemServer m s appBaseURL (.inr h)).location uri = some (e.location appBaseURL) := by
    obtain ⟨mem,begins,longest⟩ := furthest
    rw [locationLongest (by rwa [locations,hostStarts])]
    · rw [locations]
      refine ⟨hostLocationMem.mpr (.inr ⟨e,mem,rfl⟩),e.start,(entryLocation e).1,begins,?_⟩
      intro k inside q start reach
      rcases hostLocationMem.mp inside with ⟨_,rfl⟩ | ⟨e',there,rfl⟩
      · cases start
      · rw [(entryLocation e').1] at start
        obtain rfl := Option.some_inj.mp start
        exact longest e' there reach
    · rw [locations]
      intro k inside none
      rcases hostLocationMem.mp inside with ⟨blocks,rfl⟩ | ⟨e',_,rfl⟩
      · exact Bool.eq_false_iff.mpr (fun accepts => free ⟨blocks,accepts⟩)
      · rw [(entryLocation e').1] at none
        cases none
  unfold Server.action
  rw [answer]
  dsimp only
  rw [if_neg (fun moves => still ((movedIff plain).mp moves)),taken,Option.map_some,(entryLocation e).2]

/- The root location takes what no other does. -/
theorem furthestSome (rooted : hasPrefix uri "/" = true) : ∃ e, Furthest h uri e := by
  cases best : ((hostEntries h.1.toProxyHost h.2).filter (fun e => hasPrefix uri e.start)).argmax (fun e => e.start.length) with
  | none =>
    have empty := List.argmax_eq_none.mp best
    rw [List.filter_eq_nil_iff] at empty
    exact absurd rooted (empty ⟨h.2,h.1.toProxyHost,none⟩ List.mem_cons_self)
  | some e =>
    obtain ⟨mem,begins⟩ := List.mem_filter.mp (List.argmax_mem best)
    refine ⟨e,mem,begins,?_⟩
    intro e' inside reach
    exact List.le_of_mem_argmax (f := fun e : Entry => e.start.length) (List.mem_filter.mpr ⟨inside,reach⟩) best

end

theorem itemsFiles (some : s.items ≠ []) : Generate m s sslDir appBaseURL = s.items.map (itemFile m s sslDir appBaseURL) := by
  have rest : ¬(s.hosts = [] ∧ s.redirects = []) := by
    rintro ⟨hosts,redirects⟩
    exact some (by simp [Snapshot.items,hosts,redirects])
  unfold Generate Snapshot.items
  rw [if_neg rest,List.append_nil,List.map_append,List.map_map,List.map_map]
  rfl

theorem includedMem {files : List File} {t : Server} : t ∈ included files ↔ ∃ f ∈ files, t ∈ f.servers := by
  simp [included,List.mem_flatMap]

theorem hostServers {h : HostRow × Nat} {t : Server} : t ∈ (itemFile m s sslDir appBaseURL (.inr h)).servers ↔
    (listenHTTP h.1.toProxyHost = true ∧ t = itemServer m s appBaseURL (.inr h)) ∨ (listenHTTPS h.1.toProxyHost = true ∧
      t = sslServer m s.settings.nginxPorts.2 (certPaths s.settings h.1 s.certificates sslDir) appBaseURL h.1.toProxyHost h.2) := by
  unfold itemFile hostFile renderHost itemServer
  rw [List.mem_append]
  refine or_congr ?_ ?_
  · split
    · simp [*]
    · simp [*]
  · split
    · simp [*]
    · simp [*]

theorem acceptedIff : Accepted (included (Generate m s sslDir appBaseURL)) ↔ Loads s sslDir appBaseURL := by
  have forced (h : ProxyHost) (kept : h.sslForced = true) : listenHTTPS h = true := by simp [listenHTTPS,kept]
  constructor
  · rintro accepted ⟨h,i⟩ mem listens
    have inside : Sum.inr (h,i) ∈ s.items := List.mem_append_right _ (List.mem_map_of_mem mem)
    have all (t : Server) (there : t ∈ (itemFile m s sslDir appBaseURL (.inr (h,i))).servers) := accepted t (by
      rw [itemsFiles (List.ne_nil_of_mem inside)]
      exact includedMem.mpr ⟨_,List.mem_map_of_mem inside,there⟩)
    by_cases secure : listenHTTPS h.toProxyHost = true
    · obtain ⟨starts,cert,pass⟩ := all _ (hostServers.mpr (.inr ⟨secure,rfl⟩))
      exact ⟨(hostStarts _ _) ▸ starts,(hostPassable _ _).mp pass,fun _ => cert rfl⟩
    · have plain : h.sslForced = false := Bool.eq_false_iff.mpr (fun kept => secure (forced _ kept))
      obtain ⟨starts,_,pass⟩ := all _ (hostServers.mpr (.inl ⟨listens.resolve_right secure,rfl⟩))
      have locations : (itemServer m s appBaseURL (.inr (h,i))).locations = hostLocations appBaseURL h.toProxyHost i := by
        simp [itemServer,plainServer,plain]
      rw [locations] at starts pass
      exact ⟨(hostStarts _ _) ▸ starts,(hostPassable _ _).mp pass,fun held => absurd held secure⟩
  · intro loads t mem
    by_cases none : s.items = []
    · have hosts : s.hosts = [] ∧ s.redirects = [] := by simpa [Snapshot.items,and_comm] using none
      have page : Generate m s sslDir appBaseURL = [defaultFile s.settings.nginxPorts.1] := by simp [Generate,hosts.1,hosts.2]
      rw [page] at mem
      obtain ⟨_,file,there⟩ := includedMem.mp mem
      obtain rfl := List.mem_singleton.mp file
      obtain rfl := List.mem_singleton.mp there
      simp [Location.start,Action.passable]
    · rw [itemsFiles none] at mem
      obtain ⟨_,file,there⟩ := includedMem.mp mem
      obtain ⟨x,inside,rfl⟩ := List.mem_map.mp file
      rcases x with r | h
      · obtain rfl := List.mem_singleton.mp there
        exact redirectsAccepted (l := [r]) _ List.mem_cons_self
      · have row : h ∈ s.hosts.zipIdx := by
          rcases List.mem_append.mp inside with early | late
          · obtain ⟨_,_,same⟩ := List.mem_map.mp early
            cases same
          · obtain ⟨h',other,same⟩ := List.mem_map.mp late
            exact Sum.inr.inj same ▸ other
        rcases hostServers.mp there with ⟨listens,rfl⟩ | ⟨secure,rfl⟩
        · obtain ⟨starts,pass,_⟩ := loads h row (.inl listens)
          cases kept : h.1.sslForced with
          | true => simp [itemServer,plainServer,kept]
          | false =>
            have locations : (itemServer m s appBaseURL (.inr h)).locations = hostLocations appBaseURL h.1.toProxyHost h.2 := by
              simp [itemServer,plainServer,kept]
            rw [locations]
            exact ⟨(hostStarts _ _).symm ▸ starts,by rintro ⟨⟩,(hostPassable _ _).mpr pass⟩
        · obtain ⟨starts,pass,cert⟩ := loads h row (.inr secure)
          exact ⟨(hostStarts _ _).symm ▸ starts,fun _ => cert secure,(hostPassable _ _).mpr pass⟩

theorem servingIff {x : Item} : serverFor (itemServer m s appBaseURL) (ruleName m v) (plainItems m s sslDir appBaseURL) = some x ↔
    Serving m s sslDir appBaseURL v x := by
  unfold plainItems Serving
  cases s.clash with
  | true => simp [serverFor]
  | false => simp [keptServer]

theorem itemMem {h : HostRow × Nat} : Sum.inr h ∈ s.items ↔ h ∈ s.hosts.zipIdx := by
  unfold Snapshot.items
  simp

theorem servingHost {h : HostRow × Nat} (serving : Serving m s sslDir appBaseURL v (.inr h)) :
    h ∈ s.hosts.zipIdx ∧ listenHTTP h.1.toProxyHost = true := by
  obtain ⟨inside,listens⟩ := List.mem_filter.mp (effectiveMem serving.2)
  exact ⟨itemMem.mp inside,listens⟩

theorem servingNodup (loads : Loads s sslDir appBaseURL) {h : HostRow × Nat} (serving : Serving m s sslDir appBaseURL v (.inr h)) :
    ((hostEntries h.1.toProxyHost h.2).map Entry.start).Nodup := by
  obtain ⟨row,listens⟩ := servingHost serving
  exact (loads h row (.inl listens)).1

theorem hostNumber {h : HostRow} (mem : h ∈ s.hosts) : ∃ i, (h,i) ∈ s.hosts.zipIdx := by
  rw [← List.zipIdx_map_fst 0 s.hosts] at mem
  obtain ⟨⟨_,i⟩,inside,rfl⟩ := List.mem_map.mp mem
  exact ⟨i,inside⟩

theorem clashIncluded (some : s.items ≠ []) :
    (included (Generate m s sslDir appBaseURL)).any (fun t => t.ssl && t.listen = s.settings.nginxPorts.1) = s.clash := by
  rw [Bool.eq_iff_iff,itemsFiles some]
  unfold Snapshot.clash
  simp only [List.any_eq_true,includedMem,List.mem_map,Bool.and_eq_true,decide_eq_true_eq]
  constructor
  · rintro ⟨t,⟨_,⟨x,mem,rfl⟩,there⟩,secure,listens⟩
    rcases x with r | h
    · obtain rfl := List.mem_singleton.mp there
      cases secure
    · rcases hostServers.mp there with ⟨_,rfl⟩ | ⟨held,rfl⟩
      · cases secure
      · exact ⟨h.1,List.mem_of_getElem? (List.mem_zipIdx_iff_getElem?.mp (itemMem.mp mem)),held,listens⟩
  · rintro ⟨h,mem,secure,ports⟩
    obtain ⟨i,inside⟩ := hostNumber mem
    exact ⟨_,⟨_,⟨.inr (h,i),itemMem.mpr inside,rfl⟩,hostServers.mpr (.inr ⟨secure,rfl⟩)⟩,rfl,ports⟩

/- Of the servers of a file the one for plain requests. -/
theorem filePlain (apart : s.clash = false) {x : Item} (mem : x ∈ s.items) :
    (itemFile m s sslDir appBaseURL x).servers.filter (fun t => t.listen = s.settings.nginxPorts.1) =
      if isPlain x then [itemServer m s appBaseURL x] else [] := by
  rcases x with r | h
  · simp [itemFile,redirectFile,isPlain,itemServer,redirectServer,renderRedirect]
  · have ports (secure : listenHTTPS h.1.toProxyHost = true) : s.settings.nginxPorts.2 ≠ s.settings.nginxPorts.1 := by
      intro same
      have here := List.mem_of_getElem? (List.mem_zipIdx_iff_getElem?.mp (itemMem.mp mem))
      unfold Snapshot.clash at apart
      rw [List.any_eq_false] at apart
      exact apart h.1 here (by simp [secure,same])
    unfold itemFile hostFile renderHost isPlain itemServer
    rw [List.filter_append]
    cases secure : listenHTTPS h.1.toProxyHost with
    | true =>
      split <;> simp [plainServer,sslServer,ports secure]
    | false =>
      split <;> simp [plainServer]

/- The blocks for plain requests are those of the configuration as it is written. -/
theorem plainGenerated (some : s.items ≠ []) : plainServers s.settings.nginxPorts.1 (included (Generate m s sslDir appBaseURL)) =
    (plainItems m s sslDir appBaseURL).map (itemServer m s appBaseURL) := by
  have sorted : included (Generate m s sslDir appBaseURL) =
      (s.items.insertionSort (byName (itemName m s sslDir appBaseURL))).flatMap (fun x => (itemFile m s sslDir appBaseURL x).servers) := by
    unfold included
    rw [itemsFiles some,sortedFiles,List.flatMap_map]
    rfl
  unfold plainServers plainItems
  rw [clashIncluded some]
  cases apart : s.clash with
  | true => rfl
  | false =>
    have kept : ∀ l : List Item, (∀ x ∈ l, x ∈ s.items) →
        (l.flatMap (fun x => (itemFile m s sslDir appBaseURL x).servers)).filter (fun t => t.listen = s.settings.nginxPorts.1) =
          (l.filter isPlain).map (itemServer m s appBaseURL) := by
      intro l
      induction l with
      | nil => exact fun _ => rfl
      | cons x rest ih =>
        intro all
        rw [List.flatMap_cons,List.filter_append,filePlain apart (all x List.mem_cons_self),ih (fun y mem => all y (List.mem_cons_of_mem _ mem))]
        cases plain : isPlain x with
        | true => rw [if_pos rfl,List.filter_cons_of_pos plain,List.map_cons,List.singleton_append]
        | false => rw [if_neg Bool.false_ne_true,List.filter_cons_of_neg (by simp [plain]),List.nil_append]
    rw [if_neg Bool.false_ne_true,if_neg Bool.false_ne_true,sorted]
    exact kept _ (fun x mem => (List.mem_insertionSort _).mp mem)

theorem ruleSelected (uri : String) (r : ProxyRedirect × Nat) :
    itemSelected m s appBaseURL uri (.inl r) = if hasPrefix uri r.1.fromPath then some (.redirect r.2) else none := by
  have action : (itemServer m s appBaseURL (.inl r)).action uri = _ := redirectAction r uri
  unfold itemSelected
  rw [action]
  split_ifs <;> rfl

section
variable {h : HostRow × Nat} {uri : String} (rooted : hasPrefix uri "/" = true)
  (nodup : ((hostEntries h.1.toProxyHost h.2).map Entry.start).Nodup)
include rooted nodup

variable (m s appBaseURL) in
/- The ways in which the block of a host may end. -/
theorem hostSelected : (h.1.sslForced = true ∨ Moved h uri) ∧ itemSelected m s appBaseURL uri (.inr h) = some .own ∨
    (h.1.sslForced = false ∧ ¬Moved h uri ∧ Probed h uri) ∧ itemSelected m s appBaseURL uri (.inr h) = none ∨
    (h.1.sslForced = false ∧ ¬Moved h uri ∧ ¬Probed h uri) ∧ ∃ e, Furthest h uri e ∧
      ∀ e, Furthest h uri e → itemSelected m s appBaseURL uri (.inr h) = some (.upstream (trimRight '/' (e.upstream appBaseURL))) := by
  unfold itemSelected
  cases forced : h.1.sslForced with
  | true =>
    rw [forcedAction forced]
    exact .inl ⟨.inl rfl,rfl⟩
  | false =>
    by_cases moved : Moved h uri
    · rw [movedAction forced moved]
      exact .inl ⟨.inr moved,rfl⟩
    · by_cases probed : Probed h uri
      · rw [probedAction forced moved probed]
        exact .inr (.inl ⟨⟨rfl,moved,probed⟩,rfl⟩)
      · obtain ⟨e,furthest⟩ := furthestSome rooted
        refine .inr (.inr ⟨⟨rfl,moved,probed⟩,e,furthest,?_⟩)
        intro e' other
        rw [passedAction forced nodup moved probed other]

theorem hostUpstream {url : String} : itemSelected m s appBaseURL uri (.inr h) = some (.upstream url) ↔ h.1.sslForced = false ∧
    ¬Moved h uri ∧ ¬Probed h uri ∧ ∃ e, Furthest h uri e ∧ trimRight '/' (e.upstream appBaseURL) = url := by
  rcases hostSelected m s appBaseURL rooted nodup with ⟨own,same⟩ | ⟨⟨plain,still,probed⟩,same⟩ |
      ⟨⟨plain,still,free⟩,e,furthest,all⟩
  · rw [same]
    refine iff_of_false (by simp) ?_
    rintro ⟨plain,still,_⟩
    rcases own with forced | moved
    · rw [plain] at forced
      cases forced
    · exact still moved
  · rw [same]
    exact iff_of_false (by simp) (fun held => held.2.2.1 probed)
  · constructor
    · intro same
      rw [all e furthest] at same
      exact ⟨plain,still,free,e,furthest,Selected.upstream.inj (Option.some_inj.mp same)⟩
    · rintro ⟨_,_,_,e',other,rfl⟩
      exact all e' other

theorem hostSilent : itemSelected m s appBaseURL uri (.inr h) = none ↔ h.1.sslForced = false ∧ ¬Moved h uri ∧ Probed h uri := by
  rcases hostSelected m s appBaseURL rooted nodup with ⟨own,same⟩ | ⟨silent,same⟩ | ⟨⟨plain,still,free⟩,e,furthest,all⟩
  · rw [same]
    refine iff_of_false (by simp) ?_
    rintro ⟨plain,still,_⟩
    rcases own with forced | moved
    · rw [plain] at forced
      cases forced
    · exact still moved
  · exact iff_of_true same silent
  · rw [all e furthest]
    exact iff_of_false (by simp) (fun held => free held.2.2)

theorem hostNoRule {i : Nat} : itemSelected m s appBaseURL uri (.inr h) ≠ some (.redirect i) := by
  rcases hostSelected m s appBaseURL rooted nodup with ⟨_,same⟩ | ⟨_,same⟩ | ⟨_,e,furthest,all⟩
  · simp [same]
  · simp [same]
  · simp [all e furthest]

end

theorem nginxAnswer {a : Selected} : nginxSelected m s sslDir appBaseURL v = some a ↔ Loads s sslDir appBaseURL ∧
    ∃ uri, normalizedURI v.path = some uri ∧ ∃ x, Serving m s sslDir appBaseURL v x ∧ itemSelected m s appBaseURL uri x = some a := by
  unfold nginxSelected
  by_cases accepted : Accepted (included (Generate m s sslDir appBaseURL))
  · rw [if_pos accepted]
    simp only [Option.bind_eq_some_iff,servingIff]
    exact ⟨fun held => ⟨acceptedIff.mp accepted,held⟩,And.right⟩
  · rw [if_neg accepted]
    exact iff_of_false nofun (fun held => accepted (acceptedIff.mpr held.1))

theorem nginxRule {i : Nat} : nginxSelected m s sslDir appBaseURL v = some (.redirect i) ↔
    Loads s sslDir appBaseURL ∧ ∃ r, Serving m s sslDir appBaseURL v (.inl (r,i)) ∧ Located v r := by
  rw [nginxAnswer]
  refine and_congr_right (fun loads => ?_)
  constructor
  · rintro ⟨uri,normal,x,serving,selected⟩
    rcases x with ⟨r,j⟩ | h
    · rw [ruleSelected] at selected
      split at selected <;> try contradiction
      rename_i begins
      obtain rfl := Selected.redirect.inj (Option.some_inj.mp selected)
      exact ⟨r,serving,uri,normal,begins⟩
    · exact absurd selected (hostNoRule (uriRooted normal) (servingNodup loads serving))
  · rintro ⟨r,serving,uri,normal,begins⟩
    exact ⟨uri,normal,_,serving,by rw [ruleSelected,if_pos begins]⟩

theorem nginxUpstream {url : String} : nginxSelected m s sslDir appBaseURL v = some (.upstream url) ↔ Loads s sslDir appBaseURL ∧
    ∃ h f, Serving m s sslDir appBaseURL v (.inr h) ∧ Passed v h f ∧ trimRight '/' (f.upstream appBaseURL) = url := by
  rw [nginxAnswer]
  refine and_congr_right (fun loads => ?_)
  constructor
  · rintro ⟨uri,normal,x,serving,selected⟩
    rcases x with r | h
    · rw [ruleSelected] at selected
      split at selected <;> cases selected
    · obtain ⟨plain,still,free,f,furthest,same⟩ := (hostUpstream (uriRooted normal) (servingNodup loads serving)).mp selected
      exact ⟨h,f,serving,⟨plain,uri,normal,still,free,furthest⟩,same⟩
  · rintro ⟨h,f,serving,⟨plain,uri,normal,still,free,furthest⟩,same⟩
    exact ⟨uri,normal,_,serving,
      (hostUpstream (uriRooted normal) (servingNodup loads serving)).mpr ⟨plain,still,free,f,furthest,same⟩⟩

theorem nginxSilent : nginxSelected m s sslDir appBaseURL v = none ↔
    (Loads s sslDir appBaseURL → ∀ x, Serving m s sslDir appBaseURL v x → Silent v x) := by
  rw [Option.eq_none_iff_forall_ne_some]
  constructor
  · intro none loads x serving
    have each (uri : String) (normal : normalizedURI v.path = some uri) : itemSelected m s appBaseURL uri x = Option.none := by
      rw [Option.eq_none_iff_forall_ne_some]
      exact fun a selected => none a (nginxAnswer.mpr ⟨loads,uri,normal,x,serving,selected⟩)
    rcases x with r | h
    · rintro ⟨uri,normal,begins⟩
      have silent := each uri normal
      rw [ruleSelected,if_pos begins] at silent
      cases silent
    · exact fun uri normal => (hostSilent (uriRooted normal) (servingNodup loads serving)).mp (each uri normal)
  · intro silent a selected
    obtain ⟨loads,uri,normal,x,serving,taken⟩ := nginxAnswer.mp selected
    have quiet := silent loads x serving
    rcases x with r | h
    · rw [ruleSelected] at taken
      split at taken <;> try contradiction
      exact quiet ⟨uri,normal,‹_›⟩
    · rw [(hostSilent (uriRooted normal) (servingNodup loads serving)).mpr (quiet uri normal)] at taken
      cases taken

theorem servingRow {r : ProxyRedirect} {i : Nat} (serving : Serving m s sslDir appBaseURL v (.inl (r,i))) : s.redirects[i]? = some r := by
  have inside := List.mem_of_mem_filter (effectiveMem serving.2)
  unfold Snapshot.items at inside
  simpa [List.mem_zipIdx_iff_getElem?] using inside

theorem oneBackendOf (same : fiberSelected m s appBaseURL v = nginxSelected m s sslDir appBaseURL v) : OneBackend m s sslDir appBaseURL v := by
  cases selected : fiberSelected m s appBaseURL v with
  | none =>
    obtain ⟨untaken,own,all⟩ := fiberSilent.mp selected
    exact .inr ⟨untaken,.inr ⟨own,all,nginxSilent.mp (same.symm.trans selected)⟩⟩
  | some a =>
    have nginx := same.symm.trans selected
    cases a with
    | redirect i =>
      obtain ⟨r,first⟩ := fiberRule.mp selected
      obtain ⟨loads,r',serving,located⟩ := nginxRule.mp nginx
      obtain rfl : r = r' := Option.some_inj.mp (first.1.symm.trans (servingRow serving))
      exact .inl ⟨i,r,first,loads,serving,located⟩
    | upstream url =>
      obtain ⟨untaken,e,foremost,upstream⟩ := fiberUpstream.mp selected
      obtain ⟨loads,h,f,serving,passed,target⟩ := nginxUpstream.mp nginx
      exact .inr ⟨untaken,.inl ⟨e,foremost,loads,h,f,serving,passed,upstream.trans target.symm⟩⟩
    | own => exact absurd selected fiberOwn

theorem backendsSame (one : OneBackend m s sslDir appBaseURL v) : fiberSelected m s appBaseURL v = nginxSelected m s sslDir appBaseURL v := by
  rcases one with ⟨i,r,first,loads,serving,located⟩ | ⟨untaken,⟨e,foremost,loads,h,f,serving,passed,upstream⟩ | ⟨own,all,silent⟩⟩
  · rw [fiberRule.mpr ⟨r,first⟩,nginxRule.mpr ⟨loads,r,serving,located⟩]
  · rw [fiberUpstream.mpr ⟨untaken,e,foremost,rfl⟩,nginxUpstream.mpr ⟨loads,h,f,serving,passed,upstream.symm⟩]
  · rw [fiberSilent.mpr ⟨untaken,own,all⟩,nginxSilent.mpr silent]

end

def apiSnapshot : Snapshot where
  settings := ⟨"fiber","docker","docker",80,443,"published",""⟩
  hosts := [⟨hostWith "a.example" [⟨"2","/api","url","http://api:1",false,false⟩],"",none⟩]
  redirects := []
  certificates := []

def visitAPIs : Visit := ⟨⟨"a.example","/apis",rfl⟩,"/apis",rfl,none⟩

end ContainerWS.Proxy
