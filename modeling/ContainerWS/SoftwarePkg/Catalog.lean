import ContainerWS.Memo
import ContainerWS.Runs
import ContainerWS.SoftwarePkg.Fetch
import ContainerWS.SoftwarePkg.Scaffold

/-! The two caches of packages/softwarepkg, of index.go and of fetch.go, and InvalidateCatalogCache, which
empties one after the other. Requests to the registry are made without a lock. -/
namespace ContainerWS.SoftwarePkg.Catalog
open GoPath GoStrings Memo

/- A response, with its body as an index.json. -/
structure Answer where
  status : Nat
  index : Option (List PackageMeta)
  deriving DecidableEq, Repr

/- FetchJSON of the index. No answer is an error of the transport. -/
def fetchIndex : Option Answer → Except Unit (List PackageMeta)
  | none => .error ()
  | some a =>
    if a.status < 200 ∨ 300 ≤ a.status then .error ()
    else match a.index with
    | none => .error ()
    | some softwares => .ok softwares

def named (softwares : List PackageMeta) : List PackageMeta :=
  softwares.filterMap (fun p => if trimSpace p.name = "" then none else some {p with name := trimSpace p.name})

/- 0 = keep until InvalidateCatalogCache. -/
def catalogCacheTTL : Nat := 0

def probeCacheTTL : Nat := 0

/- FetchCatalog of a raw base; its work is the URL that it asks for. -/
def catalogKind : Kind String String (Option Answer) (List PackageMeta) (Except Unit (List PackageMeta)) where
  key rawBase := some (trimRight '/' rawBase)
  unkeyed := .error ()
  work rawBase := .more (JoinRawURL rawBase catalogIndexPath)
  read a _ :=
    match fetchIndex a with
    | .error _ => .drop (.error ())
    | .ok softwares => .keep (named softwares) (.ok (named softwares))
  hit items := .ok items
  ttl := catalogCacheTTL

inductive Method where
  | head
  | get
  deriving DecidableEq, Repr

/- One method of probeURL; without a result the next one is tried. -/
def probeOne (method : Method) : Option Answer → Option (Except Unit Bool)
  | none => some (.error ())
  | some a =>
    if a.status = 404 then some (.ok false)
    else if a.status = 405 ∨ a.status = 403 then
      match method with
      | .head => none
      | .get => some (.ok false)
    else if 200 ≤ a.status ∧ a.status < 300 then some (.ok true)
    else match method with
      | .head => none
      | .get => some (.error ())

/- The path that is asked for, those behind it, and whether a probe has failed. -/
structure Probing where
  method : Method
  rel : String
  rest : List String
  failed : Bool
  deriving DecidableEq, Repr

def probeNext (failed : Bool) : List String → Progress Probing Bool (Except Unit Bool)
  | [] => .keep false (if failed then .error () else .ok false)
  | rel :: rest => .more ⟨.head,rel,rest,failed⟩

def probeRead (a : Option Answer) (w : Probing) : Progress Probing Bool (Except Unit Bool) :=
  match probeOne w.method a with
  | none => .more {w with method := .get}
  | some (.ok true) => .keep true (.ok true)
  | some (.ok false) => probeNext w.failed w.rest
  | some (.error _) => probeNext true w.rest

/- HasInstallForHost; what is found is kept also when a probe has failed. -/
def probeKind (m : CaseMap) : Kind Query Probing (Option Answer) Bool (Except Unit Bool) where
  key q := cacheKey m q
  unkeyed := .ok false
  work q := probeNext false (installPaths m q)
  read := probeRead
  hit ok := .ok ok
  ttl := probeCacheTTL

section
variable (r : Registry) (q : Query)

/- How a registry that does not change answers. -/
def answer (url : String) : Option Answer :=
  match r url with
  | .absent => some ⟨404,none⟩
  | .document _ => some ⟨200,none⟩
  | .refused => none

def ask (p : Progress Probing Bool (Except Unit Bool)) : Progress Probing Bool (Except Unit Bool) :=
  match p with
  | .more w => probeRead (answer r (installURL q w.rel)) w
  | done => done

theorem askKept (n : Nat) (ok : Bool) (result : Except Unit Bool) : (ask r q)^[n] (.keep ok result) = .keep ok result :=
  Function.iterate_fixed rfl n

/- There the reads come to what the probes of the paths come to. -/
theorem probesAsked (failed : Bool) (rels : List String) : (ask r q)^[rels.length] (probeNext failed rels) =
    .keep (probe r q failed rels).1
      (if (probe r q failed rels).1 = false ∧ (probe r q failed rels).2 = true then .error () else .ok (probe r q failed rels).1) := by
  induction rels generalizing failed with
  | nil => cases failed <;> rfl
  | cons rel rest ih =>
    rw [List.length_cons,Function.iterate_succ_apply]
    cases there : r (installURL q rel) with
    | absent =>
      have one : ask r q (probeNext failed (rel :: rest)) = probeNext failed rest := by
        simp [ask,probeNext,probeRead,answer,there,probeOne]
      rw [one,ih]
      simp only [probe,probeURL,there]
    | document d =>
      have one : ask r q (probeNext failed (rel :: rest)) = .keep true (.ok true) := by
        simp [ask,probeNext,probeRead,answer,there,probeOne]
      rw [one,askKept]
      simp only [probe,probeURL,there]
      rfl
    | refused =>
      have one : ask r q (probeNext failed (rel :: rest)) = probeNext true rest := by
        simp [ask,probeNext,probeRead,answer,there,probeOne]
      rw [one,ih]
      simp only [probe,probeURL,there]

end

abbrev CatalogCache := Memory String String (List PackageMeta) (Except Unit (List PackageMeta))

abbrev ProbeCache := Memory Query Probing Bool (Except Unit Bool)

/- What a call of InvalidateCatalogCache empties next, and when it has returned. -/
inductive Clearing where
  | catalog
  | probe
  | returned (at' : Nat)
  deriving DecidableEq, Repr

structure Invalidation where
  began : Nat
  phase : Clearing
  deriving DecidableEq, Repr

/- `now` counts the moves; it is what the times are measured in. -/
structure World where
  now : Nat
  catalog : CatalogCache
  probes : ProbeCache
  invalidations : List Invalidation

inductive Move where
  | fetchCatalog (rawBase : String)
  | hasInstallForHost (q : Query)
  | invalidate
  | catalogTurn (i : Nat) (a : Option Answer)
  | probeTurn (i : Nat) (a : Option Answer)
  | clear (i : Nat)
  deriving DecidableEq, Repr

def World.cleared (w : World) (i : Nat) (v : Invalidation) : Option World :=
  match v.phase with
  | .catalog => some {w with catalog := w.catalog.clear, invalidations := w.invalidations.set i {v with phase := .probe}}
  | .probe => some {w with probes := w.probes.clear, invalidations := w.invalidations.set i {v with phase := .returned w.now}}
  | .returned _ => none

def World.next (m : CaseMap) (w : World) : Move → Option World
  | .fetchCatalog rawBase => some {w with catalog := w.catalog.start w.now rawBase}
  | .hasInstallForHost q => some {w with probes := w.probes.start w.now q}
  | .invalidate => some {w with invalidations := w.invalidations ++ [⟨w.now,.catalog⟩]}
  | .catalogTurn i a => (w.catalog.turn catalogKind w.now i a).map (fun c => {w with catalog := c})
  | .probeTurn i a => (w.probes.turn (probeKind m) w.now i a).map (fun c => {w with probes := c})
  | .clear i =>
    match w.invalidations[i]? with
    | none => none
    | some v => w.cleared i v

def step (m : CaseMap) (w : World) (e : Move) : Option World := (w.next m e).map (fun w' => {w' with now := w.now+1})

def opening : World := ⟨0,empty,empty,[]⟩

/- A call that began after an invalidation had returned has returned nothing that was read before the
invalidation began. -/
def Upto {θ ω σ ρ : Type} (invalidations : List Invalidation) (c : Call θ ω σ ρ) : Prop :=
  ∀ result since, c.phase = .returned result since → ∀ v ∈ invalidations, ∀ t, v.phase = .returned t → t < c.began →
    Newer v.began since

def Current (w : World) : Prop :=
  (∀ c ∈ w.catalog.calls, Upto w.invalidations c) ∧ ∀ c ∈ w.probes.calls, Upto w.invalidations c

/- No call in flight has read before a time what it may yet store. -/
def Landed {θ ω σ ρ : Type} (began : Nat) (s : Memory θ ω σ ρ) : Prop := ∀ c ∈ s.calls, Newer began c.phase.carries

instance {θ ω σ ρ : Type} (began : Nat) (s : Memory θ ω σ ρ) : Decidable (Landed began s) := by
  unfold Landed
  infer_instance

def LandedAt (w : World) (v : Invalidation) : Prop :=
  match v.phase with
  | .catalog => Landed v.began w.catalog
  | .probe => Landed v.began w.probes
  | .returned _ => True

instance (w : World) (v : Invalidation) : Decidable (LandedAt w v) := by
  unfold LandedAt
  split <;> infer_instance

/- A cache is emptied only when the calls that have read for it before the invalidation began have stored
what they read. -/
def Calm (w : World) : Move → Prop
  | .clear i => ∀ v ∈ w.invalidations[i]?, LandedAt w v
  | _ => True

instance (w : World) (e : Move) : Decidable (Calm w e) := by
  unfold Calm
  split <;> infer_instance

/- What an invalidation has emptied holds nothing older than it. -/
structure Ages (w : World) : Prop where
  began : ∀ v ∈ w.invalidations, v.began < w.now
  catalog : ∀ v ∈ w.invalidations, v.phase ≠ .catalog → Fresh v.began w.catalog
  probes : ∀ v ∈ w.invalidations, ∀ t, v.phase = .returned t → Fresh v.began w.probes
  catalogCalls : ∀ c ∈ w.catalog.calls, c.began < w.now ∧ Upto w.invalidations c
  probeCalls : ∀ c ∈ w.probes.calls, c.began < w.now ∧ Upto w.invalidations c

section
variable {θ ω α σ ρ : Type} {kind : Kind θ ω α σ ρ} {s s' : Memory θ ω σ ρ} {now : Nat} {invalidations : List Invalidation}

theorem callsStart (query : θ) (calls : ∀ c ∈ s.calls, c.began < now ∧ Upto invalidations c) :
    ∀ c ∈ (s.start now query).calls, c.began < now+1 ∧ Upto invalidations c := by
  intro c mem
  rcases List.mem_append.mp mem with old | new
  · exact ⟨Nat.lt_succ_of_lt (calls c old).1,(calls c old).2⟩
  · cases List.mem_singleton.mp new
    exact ⟨Nat.lt_succ_self now,by rintro _ _ ⟨⟩⟩

theorem callsTurn {i : Nat} {a : α} (moved : s.turn kind now i a = some s')
    (calls : ∀ c ∈ s.calls, c.began < now ∧ Upto invalidations c) (began : ∀ v ∈ invalidations, v.began < now)
    (fresh : ∀ v ∈ invalidations, ∀ t, v.phase = .returned t → Fresh v.began s) :
    ∀ c ∈ s'.calls, c.began < now+1 ∧ Upto invalidations c := by
  intro d mem
  rcases turnCalls moved mem with old | ⟨c,inside,same,returns⟩
  · exact ⟨Nat.lt_succ_of_lt (calls d old).1,(calls d old).2⟩
  · refine ⟨same ▸ Nat.lt_succ_of_lt (calls c inside).1,?_⟩
    intro result since back v known t finished _
    exact returns v.began (Nat.le_of_lt (began v known)) (fresh v known t finished) result since back

theorem callsLater (calls : ∀ c ∈ s.calls, c.began < now ∧ Upto invalidations c) :
    ∀ c ∈ s.calls, c.began < now+1 ∧ Upto invalidations c :=
  fun c mem => ⟨Nat.lt_succ_of_lt (calls c mem).1,(calls c mem).2⟩

/- An invalidation that returns no earlier than now is none from before a call. -/
theorem callsKnown {later : List Invalidation} {v' : Invalidation} (known : ∀ v ∈ later, v ∈ invalidations ∨ v = v')
    (open' : ∀ t, v'.phase = .returned t → now ≤ t) (calls : ∀ c ∈ s.calls, c.began < now ∧ Upto invalidations c) : ∀ c ∈ s.calls, c.began < now+1 ∧ Upto later c := by
  intro c mem
  obtain ⟨before,upto⟩ := calls c mem
  refine ⟨Nat.lt_succ_of_lt before,?_⟩
  intro result since back v inside t finished earlier
  rcases known v inside with old | rfl
  · exact upto result since back v old t finished earlier
  · have late := open' t finished
    omega

end

theorem agesStep {m : CaseMap} {w w' : World} {e : Move} (ages : Ages w) (calm : Calm w e) (moved : step m w e = some w') : Ages w' := by
  obtain ⟨next,stepped,rfl⟩ := Option.map_eq_some_iff.mp moved
  have earlier : ∀ v ∈ w.invalidations, v.began < w.now+1 := fun v mem => Nat.lt_succ_of_lt (ages.began v mem)
  cases e with
  | fetchCatalog rawBase =>
    cases stepped
    exact ⟨earlier,fun v mem past => freshStart (ages.catalog v mem past) rawBase,ages.probes,
      callsStart rawBase ages.catalogCalls,callsLater ages.probeCalls⟩
  | hasInstallForHost q =>
    cases stepped
    exact ⟨earlier,ages.catalog,fun v mem t finished => freshStart (ages.probes v mem t finished) q,
      callsLater ages.catalogCalls,callsStart q ages.probeCalls⟩
  | invalidate =>
    cases stepped
    have known : ∀ v ∈ w.invalidations ++ [⟨w.now,.catalog⟩],
        v ∈ w.invalidations ∨ v = ⟨w.now,.catalog⟩ := fun v mem => (List.mem_append.mp mem).imp id List.mem_singleton.mp
    have after : ∀ t, Clearing.catalog = .returned t → w.now ≤ t := by rintro _ ⟨⟩
    refine ⟨?_,?_,?_,callsKnown known after ages.catalogCalls,callsKnown known after ages.probeCalls⟩
    · intro v mem
      rcases known v mem with old | rfl
      · exact earlier v old
      · exact Nat.lt_succ_self w.now
    · intro v mem past
      rcases known v mem with old | rfl
      · exact ages.catalog v old past
      · contradiction
    · intro v mem t finished
      rcases known v mem with old | rfl
      · exact ages.probes v old t finished
      · cases finished
  | catalogTurn i a =>
    obtain ⟨c,turned,rfl⟩ := Option.map_eq_some_iff.mp stepped
    refine ⟨earlier,?_,ages.probes,?_,callsLater ages.probeCalls⟩
    · exact fun v mem past => freshTurn (Nat.le_of_lt (ages.began v mem)) (ages.catalog v mem past) turned
    · refine callsTurn turned ages.catalogCalls ages.began ?_
      exact fun v mem t finished => ages.catalog v mem (by rw [finished]; simp)
  | probeTurn i a =>
    obtain ⟨c,turned,rfl⟩ := Option.map_eq_some_iff.mp stepped
    refine ⟨earlier,ages.catalog,?_,callsLater ages.catalogCalls,callsTurn turned ages.probeCalls ages.began ages.probes⟩
    exact fun v mem t finished => freshTurn (Nat.le_of_lt (ages.began v mem)) (ages.probes v mem t finished) turned
  | clear i =>
    simp only [World.next] at stepped
    split at stepped
    · cases stepped
    · rename_i v found
      have inside : v ∈ w.invalidations := List.mem_of_getElem? found
      have landed : LandedAt w v := calm v found
      obtain ⟨began,phase⟩ := v
      cases phase with
      | catalog =>
        cases stepped
        have known : ∀ v ∈ w.invalidations.set i ⟨began,.probe⟩, v ∈ w.invalidations ∨ v = ⟨began,.probe⟩ :=
          fun v mem => List.mem_or_eq_of_mem_set mem
        have after : ∀ t, Clearing.probe = .returned t → w.now ≤ t := by rintro _ ⟨⟩
        refine ⟨?_,?_,?_,callsKnown known after ages.catalogCalls,callsKnown known after ages.probeCalls⟩
        · intro v mem
          rcases known v mem with old | rfl
          · exact earlier v old
          · exact earlier ⟨began,.catalog⟩ inside
        · intro v mem past
          rcases known v mem with old | rfl
          · exact freshClear (ages.catalog v old past).calls
          · exact freshClear landed
        · intro v mem t finished
          rcases known v mem with old | rfl
          · exact ages.probes v old t finished
          · cases finished
      | probe =>
        cases stepped
        have known : ∀ v ∈ w.invalidations.set i ⟨began,.returned w.now⟩, v ∈ w.invalidations ∨ v = ⟨began,.returned w.now⟩ :=
          fun v mem => List.mem_or_eq_of_mem_set mem
        have after : ∀ t, Clearing.returned w.now = .returned t → w.now ≤ t := by
          rintro _ ⟨⟩
          exact Nat.le_refl _
        refine ⟨?_,?_,?_,callsKnown known after ages.catalogCalls,callsKnown known after ages.probeCalls⟩
        · intro v mem
          rcases known v mem with old | rfl
          · exact earlier v old
          · exact earlier ⟨began,.probe⟩ inside
        · intro v mem past
          rcases known v mem with old | rfl
          · exact ages.catalog v old past
          · exact ages.catalog ⟨began,.probe⟩ inside (by simp)
        · intro v mem t finished
          rcases known v mem with old | rfl
          · exact freshClear (ages.probes v old t finished).calls
          · exact freshClear landed
      | returned t => cases stepped

theorem opened : Ages opening := ⟨by rintro _ ⟨⟩,by rintro _ ⟨⟩,by rintro _ ⟨⟩,by rintro _ ⟨⟩,by rintro _ ⟨⟩⟩

/- What has been invalidated is not returned to a later call, in every run that empties the caches calmly. -/
theorem catalogCurrent (m : CaseMap) {moves : List Move} {w : World} (calm : Runs.Guided (step m) Calm opening moves)
    (ran : Runs.run (step m) opening moves = some w) : Current w := by
  have ages : Ages w := Runs.runGuided (fun ages calm moved => agesStep ages calm moved) opened calm ran
  exact ⟨fun c mem => (ages.catalogCalls c mem).2,fun c mem => (ages.probeCalls c mem).2⟩

def registry : String := "https://packages"

/- The index is fetched, the caches are emptied, and it is fetched again. -/
def refetched : List Move :=
  [.fetchCatalog registry,.catalogTurn 0 none,.catalogTurn 0 (some ⟨200,some [⟨"jq",""⟩]⟩),.catalogTurn 0 none,
    .invalidate,.clear 0,.clear 0,
    .fetchCatalog registry,.catalogTurn 1 none,.catalogTurn 1 (some ⟨200,some []⟩),.catalogTurn 1 none]

theorem catalogCurrentRefetched : ∃ w, Runs.run (step ascii) opening refetched = some w ∧
    w.catalog.calls.map (fun c => c.phase) =
      [.returned (.ok [⟨"jq",""⟩]) (some 2),.returned (.ok []) (some 9)] ∧ Current w := by
  have done : (Runs.run (step ascii) opening refetched).map (fun w => w.catalog.calls.map (fun c => c.phase)) =
      some [.returned (.ok [⟨"jq",""⟩]) (some 2),.returned (.ok []) (some 9)] := by decide
  obtain ⟨w,ran,phases⟩ := Option.map_eq_some_iff.mp done
  exact ⟨w,ran,phases,catalogCurrent ascii (by decide) ran⟩

/- The caches are emptied between the fetch of the index and its storing. -/
def overtaken : List Move :=
  [.fetchCatalog registry,.catalogTurn 0 none,.catalogTurn 0 (some ⟨200,some [⟨"jq",""⟩]⟩),
    .invalidate,.clear 0,.clear 0,.catalogTurn 0 none,.fetchCatalog registry,.catalogTurn 1 none]

theorem staleReturned : ¬∀ moves w, Runs.run (step ascii) opening moves = some w → Current w := by
  intro all
  have done : (Runs.run (step ascii) opening overtaken).map (fun w => (w.catalog.calls[1]?,w.invalidations)) =
      some (some ⟨registry,7,.returned (.ok [⟨"jq",""⟩]) (some 2)⟩,[⟨3,.returned 5⟩]) := by decide
  obtain ⟨w,ran,same⟩ := Option.map_eq_some_iff.mp done
  simp only [Prod.mk.injEq] at same
  have newer := (all overtaken w ran).1 _ (List.mem_of_getElem? same.1) _ _ rfl ⟨3,.returned 5⟩ (by rw [same.2]; exact List.mem_singleton_self _)
    5 rfl (by decide) 2 rfl
  contradiction

end ContainerWS.SoftwarePkg.Catalog
