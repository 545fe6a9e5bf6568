import ContainerWS.Proxy.Dynamic
import ContainerWS.StableFirst

/-! The priorities of the routers for proxy hosts against the order of the route table. A router
is numbered by where it stands in its list, a route by how far its prefix reaches. -/
namespace ContainerWS.Proxy
open GoPath GoStrings StableFirst

/- Proxy hosts as they are stored: under distinct ids. -/
structure HostList where
  hosts : List ProxyHost
  ids : (hosts.map ProxyHost.id).Nodup
  locationIDs : ∀ h ∈ hosts, (h.locations.map ProxyLocation.id).Nodup ∧ ∀ loc ∈ h.locations, loc.id ≠ ""

def Entry.normalized (e : Entry) : String :=
  match e.place with
  | none => "/"
  | some loc => normalizePath loc.2.pathPrefix

def Entry.route (appBaseURL : String) (e : Entry) (d : String) : Route :=
  match e.place with
  | none => rootRoute appBaseURL e.host d
  | some loc => locationRoute appBaseURL e.host d loc.2

/- An entry under each name of its host, in the order in which the routes are listed. -/
def named (m : CaseMap) (hosts : List ProxyHost) : List (Entry × String) :=
  hosts.zipIdx.flatMap (fun h => (h.1.domainList m).flatMap (fun d => (hostEntries h.1 h.2).map (fun e => (e,d))))

/- By name, and under one name by how far the prefix reaches. -/
def Reaches (a b : Entry × String) : Prop :=
  a.2 ≤ b.2 ∧ (a.2 = b.2 → b.1.normalized.utf8ByteSize ≤ a.1.normalized.utf8ByteSize)

variable (m : CaseMap) (hosts : List ProxyHost) (appBaseURL : String) (r : Request)

def fits (a : Entry × String) : Bool :=
  (a.2 = requestHost m r.host || a.2 = "*") && covers a.1.normalized (requestPath r.path)

/- The entry reaches furthest: none before it reaches as far, and none behind it further. -/
def Foremost (e : Entry) : Prop := ∃ d, First Reaches (fits m r) (named m hosts) (e,d)

/- The host has the name of the request, and the path begins with the text of the prefix. -/
def Served (e : Entry) : Prop :=
  requestHost m r.host ∈ e.host.domainList m ∧ ∀ start, e.pathPrefix = some start → hasPrefix r.path start = true

/- The entry has the greatest number of those that are served. -/
def Highest (e : Entry) : Prop :=
  Served m r e ∧ ∀ e' ∈ entries hosts, Served m r e' → e' ≠ e → e'.priority < e.priority

/- The router of a route. -/
def RouterOf (route : Route) (x : Router) : Prop :=
  ∃ e ∈ entries hosts, x = e.router m ∧ e.host.id = route.hostID ∧ e.locationID = route.locationID

/- The router with the highest priority is the one of the route that the table answers with,
and both forward to one URL; where the table has no answer no router has one. -/
def Agrees : Prop :=
  match (BuildTable m ⟨engineFiber,hosts,[],appBaseURL⟩).Match m r.host r.path with
  | none => ∀ x ∈ (buildDynamic m hosts [] appBaseURL).routers, x.accepts m r = false
  | some route => ∃ x ∈ (buildDynamic m hosts [] appBaseURL).routers, x.accepts m r = true ∧
      (∀ y ∈ (buildDynamic m hosts [] appBaseURL).routers, y.accepts m r = true → y ≠ x → y.priority < x.priority) ∧
      RouterOf m hosts route x ∧ ∃ url, (buildDynamic m hosts [] appBaseURL).url x = some url ∧ SameURL url route.upstreamURL

/- One entry reaches furthest and has the greatest number, and its upstream has no path;
or no host has the name of the request or is for all names. -/
def Aligned : Prop :=
  (∃ e, Foremost m hosts r e ∧ Highest m hosts r e ∧ PathFree (e.upstream appBaseURL)) ∨
    (¬Listed m hosts (requestHost m r.host) ∧ ¬Listed m hosts "*")

variable {m hosts appBaseURL r}

theorem entriesMem {e : Entry} : e ∈ entries hosts ↔
    hosts[e.index]? = some e.host ∧ ∀ j loc, e.place = some (j,loc) → e.host.locations[j]? = some loc := by
  unfold entries
  rw [List.mem_flatMap]
  constructor
  · rintro ⟨⟨h,i⟩,here,mem⟩
    have found := List.mem_zipIdx_iff_getElem?.mp here
    rcases List.mem_cons.mp mem with rfl | later
    · exact ⟨found,nofun⟩
    · obtain ⟨⟨loc,j⟩,there,rfl⟩ := List.mem_map.mp later
      refine ⟨found,?_⟩
      intro k l same
      cases same
      exact List.mem_zipIdx_iff_getElem?.mp there
  · rintro ⟨found,place⟩
    refine ⟨(e.host,e.index),List.mem_zipIdx_iff_getElem?.mpr found,?_⟩
    obtain ⟨i,h,here⟩ := e
    cases here with
    | none => exact List.mem_cons_self
    | some loc =>
      exact List.mem_cons_of_mem _ (List.mem_map.mpr ⟨(loc.2,loc.1),List.mem_zipIdx_iff_getElem?.mpr (place loc.1 loc.2 rfl),rfl⟩)

/- An entry is known by its positions. -/
theorem entrySame {e e' : Entry} (mem : e ∈ entries hosts) (mem' : e' ∈ entries hosts) (index : e.index = e'.index)
    (place : e.place.map Prod.fst = e'.place.map Prod.fst) : e = e' := by
  obtain ⟨found,loc⟩ := entriesMem.mp mem
  obtain ⟨found',loc'⟩ := entriesMem.mp mem'
  have host : e.host = e'.host := by
    rw [index,found'] at found
    exact (Option.some_inj.mp found).symm
  obtain ⟨i,h,p⟩ := e
  obtain ⟨i',h',p'⟩ := e'
  dsimp only at index host place
  subst index host
  cases p with
  | none =>
    cases p' with
    | none => rfl
    | some q => cases place
  | some q =>
    cases p' with
    | none => cases place
    | some q' =>
      have position : q.1 = q'.1 := Option.some_inj.mp place
      have one := loc q.1 q.2 rfl
      have two := loc' q'.1 q'.2 rfl
      dsimp only at one two
      rw [position,two] at one
      rw [Prod.ext position (Option.some_inj.mp one).symm]

theorem namedMem {a : Entry × String} : a ∈ named m hosts ↔ a.1 ∈ entries hosts ∧ a.2 ∈ a.1.host.domainList m := by
  unfold named entries
  simp only [List.mem_flatMap]
  constructor
  · rintro ⟨h,here,d,domain,mem⟩
    obtain ⟨e,there,rfl⟩ := List.mem_map.mp mem
    refine ⟨⟨h,here,there⟩,?_⟩
    have host : e.host = h.1 := by
      rcases List.mem_cons.mp there with rfl | later
      · rfl
      · obtain ⟨loc,_,rfl⟩ := List.mem_map.mp later
        rfl
    exact host ▸ domain
  · rintro ⟨⟨h,here,there⟩,domain⟩
    have host : a.1.host = h.1 := by
      rcases List.mem_cons.mp there with same | later
      · rw [same]
      · obtain ⟨loc,_,same⟩ := List.mem_map.mp later
        rw [← same]
    exact ⟨h,here,a.2,host ▸ domain,List.mem_map_of_mem there⟩

/- An entry is known by the ids that its route has. -/
theorem entryOfIDs (l : HostList) {e e' : Entry} (mem : e ∈ entries l.hosts) (mem' : e' ∈ entries l.hosts)
    (host : e.host.id = e'.host.id) (location : e.locationID = e'.locationID) : e = e' := by
  obtain ⟨found,loc⟩ := entriesMem.mp mem
  obtain ⟨found',loc'⟩ := entriesMem.mp mem'
  have index : e.index = e'.index := by
    have one : (l.hosts.map ProxyHost.id)[e.index]? = some e.host.id := by rw [List.getElem?_map,found,Option.map_some]
    have two : (l.hosts.map ProxyHost.id)[e'.index]? = some e'.host.id := by rw [List.getElem?_map,found',Option.map_some]
    have bound : e.index < (l.hosts.map ProxyHost.id).length := (List.getElem?_eq_some_iff.mp one).1
    rw [host,← two] at one
    exact (List.getElem?_inj bound l.ids).mp one
  obtain ⟨locations,real⟩ := l.locationIDs e.host (List.mem_of_getElem? found)
  have same : e.host = e'.host := by
    rw [index,found'] at found
    exact (Option.some_inj.mp found).symm
  refine entrySame mem mem' index ?_
  unfold Entry.locationID at location
  cases here : e.place with
  | none =>
    cases there : e'.place with
    | none => rfl
    | some q =>
      rw [here,there] at location
      have inside := List.mem_of_getElem? (same ▸ loc' q.1 q.2 there)
      exact absurd location.symm (real q.2 inside)
  | some p =>
    cases there : e'.place with
    | none =>
      rw [here,there] at location
      exact absurd location (real p.2 (List.mem_of_getElem? (loc p.1 p.2 here)))
    | some q =>
      rw [here,there] at location
      have location : p.2.id = q.2.id := location
      have one : (e.host.locations.map ProxyLocation.id)[p.1]? = some p.2.id := by
        rw [List.getElem?_map,loc p.1 p.2 here,Option.map_some]
      have two : (e.host.locations.map ProxyLocation.id)[q.1]? = some q.2.id := by
        rw [List.getElem?_map,same,loc' q.1 q.2 there,Option.map_some]
      have bound : p.1 < (e.host.locations.map ProxyLocation.id).length := (List.getElem?_eq_some_iff.mp one).1
      rw [location,← two] at one
      exact congrArg some ((List.getElem?_inj bound locations).mp one)

theorem nameIndex {e e' : Entry} (name : e.routerName = e'.routerName) : e.index = e'.index ∧ e.place.map Prod.fst = e'.place.map Prod.fst := by
  unfold Entry.routerName at name
  obtain ⟨i,h,p⟩ := e
  obtain ⟨i',h',p'⟩ := e'
  cases p with
  | none =>
    cases p' with
    | none =>
      dsimp only at name
      split_ifs at name <;> cases name <;> exact ⟨rfl,rfl⟩
    | some q =>
      dsimp only at name
      split_ifs at name
  | some q =>
    cases p' with
    | none =>
      dsimp only at name
      split_ifs at name
    | some q' =>
      obtain ⟨index,position⟩ := RouterName.hostLocation.inj name
      exact ⟨index,congrArg some position⟩

theorem routerSame {e e' : Entry} (mem : e ∈ entries hosts) (mem' : e' ∈ entries hosts) (same : e.router m = e'.router m) : e = e' := by
  obtain ⟨index,place⟩ := nameIndex (congrArg Router.name same)
  exact entrySame mem mem' index place

theorem serviceSame {e e' : Entry} (mem : e ∈ entries hosts) (mem' : e' ∈ entries hosts) (same : e.service = e'.service) : e = e' := by
  unfold Entry.service at same
  have known : e.index = e'.index ∧ e.place.map Prod.fst = e'.place.map Prod.fst := by
    obtain ⟨i,h,p⟩ := e
    obtain ⟨i',h',p'⟩ := e'
    cases p with
    | none =>
      cases p' with
      | none => exact ⟨ServiceName.host.inj same,rfl⟩
      | some q => cases same
    | some q =>
      cases p' with
      | none => cases same
      | some q' =>
        obtain ⟨index,position⟩ := ServiceName.hostLocation.inj same
        exact ⟨index,congrArg some position⟩
  exact entrySame mem mem' known.1 known.2

theorem urlOf {e : Entry} (mem : e ∈ entries hosts) :
    (buildDynamic m hosts [] appBaseURL).url (e.router m) = some (stripPath (e.upstream appBaseURL)) :=
  lookupMap mem (fun _ there same => serviceSame there mem same)

theorem cutSchemeWhole {cs : List Char} {cut : List Char × List Char} (found : cutScheme cs = some cut) : cs = cut.1 ++ cut.2 := by
  fun_induction cutScheme cs generalizing cut with
  | case1 rest =>
    cases found
    rfl
  | case2 c rest other ih =>
    obtain ⟨inner,here,rfl⟩ := Option.map_eq_some_iff.mp found
    rw [ih here]
    rfl
  | case3 => cases found

theorem trimTail (a b : List Char) : (a ++ b).rdropWhile (fun c => c == '/') = a.rdropWhile (fun c => c == '/') ↔ ∀ c ∈ b, c = '/' := by
  constructor
  · intro same
    by_contra some
    push Not at some
    obtain ⟨c,mem,other⟩ := some
    have left : b.rdropWhile (fun c => c == '/') ≠ [] := by
      rw [Ne,List.rdropWhile_eq_nil_iff]
      exact fun all => other (by simpa using all c mem)
    have whole : (a ++ b).rdropWhile (fun c => c == '/') = a ++ b.rdropWhile (fun c => c == '/') := by
      unfold List.rdropWhile at left ⊢
      rw [List.reverse_append,List.dropWhile_append,if_neg (by simpa using left),List.reverse_append,List.reverse_reverse]
    have shorter := (List.rdropWhile_prefix (fun c => c == '/') (l := a)).length_le
    have longer := List.length_pos_iff.mpr left
    rw [← same,whole,List.length_append] at shorter
    omega
  · intro all
    unfold List.rdropWhile
    have gone : b.reverse.dropWhile (fun c => c == '/') = [] := by
      rw [List.dropWhile_eq_nil_iff]
      intro c mem
      exact beq_iff_eq.mpr (all c (List.mem_reverse.mp mem))
    rw [List.reverse_append,List.dropWhile_append,gone]
    rfl

/- A cut URL is the same where there was nothing to cut. -/
theorem stripSame (u : String) : SameURL (stripPath u) u ↔ PathFree u := by
  unfold SameURL stripPath PathFree
  cases found : cutScheme u.toList with
  | none => exact iff_of_true rfl trivial
  | some cut =>
    have whole : u.toList = (cut.1 ++ cut.2.takeWhile (fun c => c != '/')) ++ cut.2.dropWhile (fun c => c != '/') := by
      rw [List.append_assoc,List.takeWhile_append_dropWhile]
      exact cutSchemeWhole found
    have cutting := trimTail (cut.1 ++ cut.2.takeWhile (fun c => c != '/')) (cut.2.dropWhile (fun c => c != '/'))
    rw [← whole] at cutting
    refine Iff.trans ?_ cutting
    simp only [trimRight,String.toList_ofList]
    constructor
    · intro same
      have same := congrArg String.toList same
      simpa only [String.toList_ofList] using same.symm
    · intro same
      exact congrArg String.ofList same.symm

theorem routesNamed (hosts : List ProxyHost) : hosts.flatMap (hostRoutes m appBaseURL) =
    (named m hosts).map (fun a => a.1.route appBaseURL a.2) := by
  have each (h : ProxyHost) (i : Nat) : hostRoutes m appBaseURL h =
      ((h.domainList m).flatMap (fun d => (hostEntries h i).map (fun e => (e,d)))).map (fun a => a.1.route appBaseURL a.2) := by
    unfold hostRoutes
    rw [List.map_flatMap]
    refine List.flatMap_congr (fun d _ => ?_)
    rw [List.map_map,hostEntries,List.map_cons,List.map_map]
    have tail : h.locations = h.locations.zipIdx.map Prod.fst := (List.zipIdx_map_fst 0 _).symm
    conv_lhs => rw [tail]
    rw [List.map_map]
    rfl
  have numbered : hosts = hosts.zipIdx.map Prod.fst := (List.zipIdx_map_fst 0 _).symm
  unfold named
  rw [List.map_flatMap]
  conv_lhs => rw [numbered]
  rw [List.flatMap_map]
  exact List.flatMap_congr (fun h _ => each h.1 h.2)

theorem domainLower {h : ProxyHost} {d : String} (mem : d ∈ h.domainList m) : m.toLower d = d := by
  unfold ProxyHost.domainList at mem
  obtain ⟨p,_,rfl⟩ := List.mem_map.mp (List.mem_of_mem_filter mem)
  have inside : ∀ c ∈ (trimSpace (m.toLower p)).toList, m.lower c = c := by
    intro c mem
    have raw : c ∈ (m.toLower p).toList := by
      unfold trimSpace trimLeft at mem
      rw [String.toList_ofList] at mem
      have mem := List.dropWhile_subset _ (List.mem_reverse.mp mem)
      exact List.dropWhile_subset _ (List.mem_reverse.mp mem)
    rw [CaseMap.toLower,String.toList_ofList] at raw
    obtain ⟨_,_,rfl⟩ := List.mem_map.mp raw
    exact m.idempotent _
  unfold CaseMap.toLower at inside ⊢
  rw [List.map_congr_left inside,List.map_id',String.ofList_toList]

theorem acceptsIff {e : Entry} : (e.router m).accepts m r = true ↔ Served m r e := by
  unfold Router.accepts Served
  rw [Bool.and_eq_true]
  refine and_congr ?_ ?_
  · rw [List.any_eq_true]
    constructor
    · rintro ⟨d,mem,same⟩
      rw [decide_eq_true_eq,domainLower mem] at same
      exact same ▸ mem
    · intro mem
      exact ⟨_,mem,decide_eq_true (domainLower mem)⟩
  · change e.pathPrefix.all _ = true ↔ _
    cases e.pathPrefix with
    | none => simp
    | some start => simp

/- The table answers with the route of the entry that reaches furthest. -/
theorem matchForemost {route : Route} : (BuildTable m ⟨engineFiber,hosts,[],appBaseURL⟩).Match m r.host r.path = some route ↔
    ∃ e d, First Reaches (fits m r) (named m hosts) (e,d) ∧ e.route appBaseURL d = route := by
  have host (a : Entry × String) : (a.1.route appBaseURL a.2).host = a.2 := by
    unfold Entry.route
    cases a.1.place <;> rfl
  have reach (a : Entry × String) : (a.1.route appBaseURL a.2).pathPrefix = a.1.normalized := by
    unfold Entry.route Entry.normalized
    cases a.1.place <;> rfl
  have order : (fun a b : Entry × String => (a.1.route appBaseURL a.2).upTo (b.1.route appBaseURL b.2)) = Reaches := by
    funext a b
    rw [upToIff,host,host,reach,reach]
    rfl
  have fit : (fun a : Entry × String => ((a.1.route appBaseURL a.2).host = requestHost m r.host || (a.1.route appBaseURL a.2).host = "*") &&
      covers (a.1.route appBaseURL a.2).pathPrefix (requestPath r.path)) = fits m r := by
    funext a
    rw [host,reach]
    rfl
  have active : (BuildTable m ⟨engineFiber,hosts,[],appBaseURL⟩).active = true := by simp [BuildTable]
  unfold Table.Match Table.pick
  rw [if_pos active]
  unfold BuildTable
  rw [sortedFind,routesNamed,firstMap,order,fit]
  constructor
  · rintro ⟨⟨e,d⟩,same,first⟩
    exact ⟨e,d,first,same⟩
  · rintro ⟨e,d,first,same⟩
    exact ⟨(e,d),same,first⟩

theorem routerMem {x : Router} : x ∈ (buildDynamic m hosts [] appBaseURL).routers ↔ ∃ e ∈ entries hosts, e.router m = x := by
  simp [buildDynamic]

theorem foremostMem {e : Entry} {d : String} (first : First Reaches (fits m r) (named m hosts) (e,d)) : e ∈ entries hosts :=
  (namedMem.mp (firstMem first).1).1

/- The table has no answer just where no host has the name or is for all of them. -/
theorem matchNone : (BuildTable m ⟨engineFiber,hosts,[],appBaseURL⟩).Match m r.host r.path = none ↔
    ¬Listed m hosts (requestHost m r.host) ∧ ¬Listed m hosts "*" := by
  have active : (BuildTable m ⟨engineFiber,hosts,[],appBaseURL⟩).active = true := by simp [BuildTable]
  constructor
  · intro missed
    refine ⟨?_,?_⟩
    · intro listed
      obtain ⟨route,root⟩ := listedRoot active listed
      exact (pickNone missed route).1 root
    · intro listed
      obtain ⟨route,root⟩ := listedRoot active listed
      exact (pickNone missed route).2 root
  · rintro ⟨own,all⟩
    cases found : (BuildTable m ⟨engineFiber,hosts,[],appBaseURL⟩).Match m r.host r.path with
    | none => rfl
    | some route =>
      rcases pickSome found with here | star
      · exact absurd (candidateListed here) own
      · exact absurd (candidateListed star) all

theorem routeIDs (appBaseURL : String) (e : Entry) (d : String) : (e.route appBaseURL d).hostID = e.host.id ∧ (e.route appBaseURL d).locationID = e.locationID ∧
    (e.route appBaseURL d).upstreamURL = e.upstream appBaseURL := by
  unfold Entry.route Entry.locationID Entry.upstream
  cases e.place <;> exact ⟨rfl,rfl,rfl⟩

theorem alignedOf (l : HostList) (agrees : Agrees m l.hosts appBaseURL r) : Aligned m l.hosts appBaseURL r := by
  unfold Agrees at agrees
  cases found : (BuildTable m ⟨engineFiber,l.hosts,[],appBaseURL⟩).Match m r.host r.path with
  | none => exact .inr (matchNone.mp found)
  | some route =>
    rw [found] at agrees
    obtain ⟨x,_,accepted,highest,⟨e',mem',rfl,host,location⟩,url,forward,same⟩ := agrees
    obtain ⟨e,d,first,rfl⟩ := matchForemost.mp found
    obtain ⟨hostID,locationID,upstream⟩ := routeIDs appBaseURL e d
    have one : e' = e := entryOfIDs l mem' (foremostMem first) (host.trans hostID) (location.trans locationID)
    subst one
    refine .inl ⟨e',⟨d,first⟩,⟨acceptsIff.mp accepted,?_⟩,?_⟩
    · intro other mem served apart
      exact highest _ (routerMem.mpr ⟨other,mem,rfl⟩) (acceptsIff.mpr served) (fun equal => apart (routerSame mem mem' equal))
    · rw [urlOf mem'] at forward
      rw [← Option.some_inj.mp forward,upstream] at same
      exact (stripSame _).mp same

theorem agreesOf (aligned : Aligned m hosts appBaseURL r) : Agrees m hosts appBaseURL r := by
  unfold Agrees
  rcases aligned with ⟨e,⟨d,first⟩,⟨served,highest⟩,free⟩ | unlisted
  · rw [matchForemost.mpr ⟨e,d,first,rfl⟩]
    obtain ⟨hostID,locationID,upstream⟩ := routeIDs appBaseURL e d
    have mem := foremostMem first
    refine ⟨e.router m,routerMem.mpr ⟨e,mem,rfl⟩,acceptsIff.mpr served,?_,⟨e,mem,rfl,hostID.symm,locationID.symm⟩,_,urlOf mem,?_⟩
    · rintro _ emitted accepted apart
      obtain ⟨other,inside,rfl⟩ := routerMem.mp emitted
      exact highest other inside (acceptsIff.mp accepted) (fun equal => apart (congrArg _ equal))
    · rw [upstream]
      exact (stripSame _).mpr free
  · rw [matchNone.mpr unlisted]
    intro x emitted
    obtain ⟨e,mem,rfl⟩ := routerMem.mp emitted
    rw [← Bool.not_eq_true,acceptsIff]
    rintro ⟨domain,_⟩
    exact unlisted.1 ⟨e.host,List.mem_of_getElem? (entriesMem.mp mem).1,domain⟩

/- Routers are numbered by where they stand: the two engines agree on a request just where the
place that reaches furthest for it also has the greatest number, and an upstream without a path. -/
theorem prioritiesAgree (m : CaseMap) (l : HostList) (appBaseURL : String) (r : Request) :
    Agrees m l.hosts appBaseURL r ↔ Aligned m l.hosts appBaseURL r := ⟨alignedOf l,agreesOf⟩

/- The narrow location is listed before the wide one. -/
def narrowFirst : HostList where
  hosts := [hostWith "a.example" [⟨"2","/api/v1","url","http://narrow:1",false,false⟩,⟨"3","/api","url","http://wide:1",false,false⟩]]
  ids := by decide +kernel
  locationIDs := by decide +kernel

/- A request for the narrow one goes to the wide one. -/
theorem narrowToWide : ¬Agrees ascii narrowFirst.hosts "" ⟨"a.example","/api/v1",rfl⟩ := by
  unfold Agrees
  have found : (BuildTable ascii ⟨engineFiber,narrowFirst.hosts,[],""⟩).Match ascii "a.example" "/api/v1" =
      some ⟨"a.example","/api/v1","http://narrow:1",false,false,[],"1","2"⟩ := by decide +kernel
  have wide : ∃ y ∈ (buildDynamic ascii narrowFirst.hosts [] "").routers,
      y.accepts ascii ⟨"a.example","/api/v1",rfl⟩ = true ∧ y.priority = 201 := by decide +kernel
  have narrow : ∀ e ∈ entries narrowFirst.hosts, e.host.id = "1" → e.locationID = "2" → e.priority = 200 := by decide +kernel
  rw [found]
  rintro ⟨x,_,_,highest,⟨e,mem,rfl,host,location⟩,_⟩
  obtain ⟨y,emitted,accepted,number⟩ := wide
  have low : (e.router ascii).priority = 200 := narrow e mem host location
  have apart : y ≠ e.router ascii := by
    rintro rfl
    omega
  have below := highest y emitted accepted apart
  omega

end ContainerWS.Proxy
