import ContainerWS.SoftwarePkg.Catalog

/-! What a cached "no install" rests on: HasInstallForHost of packages/softwarepkg/fetch.go, with the
answers of each call noted beside the caches. -/
namespace ContainerWS.SoftwarePkg.Catalog
open GoStrings Memo

/- The verdict of probeURL on a path, and the call that has made the entry of a key. -/
structure Traced where
  world : World
  heard : Nat → List (String × Except Unit Bool)
  writer : String → Option Nat

/- What an answer settles for the call that gets it. -/
def hears (c : Call Query Probing Bool (Except Unit Bool)) (a : Option Answer) : List (String × Except Unit Bool) :=
  match c.phase with
  | .read w _ =>
    match probeOne w.method a with
    | none => []
    | some verdict => [(w.rel,verdict)]
  | _ => []

/- The key under which a call stores next. -/
def storesAt (m : CaseMap) (c : Call Query Probing Bool (Except Unit Bool)) : Option String :=
  match c.phase with
  | .store _ _ _ => cacheKey m c.query
  | _ => none

def note (m : CaseMap) (s : Traced) (w' : World) : Move → Traced
  | .probeTurn i a =>
    match s.world.probes.calls[i]? with
    | none => ⟨w',s.heard,s.writer⟩
    | some c =>
      ⟨w',Function.update s.heard i (s.heard i ++ hears c a),
        fun key => if storesAt m c = some key then some i else s.writer key⟩
  | _ => ⟨w',s.heard,s.writer⟩

def tracedStep (m : CaseMap) (s : Traced) (e : Move) : Option Traced := (step m s.world e).map (fun w' => note m s w' e)

def tracedOpening : Traced := ⟨opening,fun _ => [],fun _ => none⟩

/- A cached absence is from a call that has heard of each of its paths that it is not there. -/
def AbsenceHeard (m : CaseMap) (s : Traced) : Prop :=
  ∀ key cell, s.world.probes.entries key = some cell → cell.value = false → ∃ i c, s.writer key = some i ∧
    s.world.probes.calls[i]? = some c ∧ cacheKey m c.query = some key ∧
    s.heard i = (installPaths m c.query).map (fun rel => (rel,.ok false))

/- No call stores an absence under its key after a probe of it has failed. -/
def Definite (m : CaseMap) (s : Traced) : Move → Prop
  | .probeTurn i _ => ∀ c ∈ s.world.probes.calls[i]?, ∀ key since, storesAt m c = some key → c.phase ≠ .store false (.error ()) since
  | _ => True

/- Nothing found so far, and whether a probe has failed. -/
def Nothing (heard : List (String × Except Unit Bool)) (failed : Bool) : Prop :=
  (∀ p ∈ heard, p.2 ≠ .ok true) ∧ (failed = true ↔ ∃ p ∈ heard, p.2 = .error ())

/- Where a call stands in its paths. -/
def Tells (paths : List String) (heard : List (String × Except Unit Bool)) : Phase Probing Bool (Except Unit Bool) → Prop
  | .look => heard = []
  | .read w _ => paths = heard.map Prod.fst ++ w.rel :: w.rest ∧ Nothing heard w.failed
  | .store false result _ => heard.map Prod.fst = paths ∧
      ∃ failed, Nothing heard failed ∧ result = if failed then .error () else .ok false
  | .store true _ _ => True
  | .returned _ _ => True

/- What is noted of the calls, and that a call that has made an entry is at its end. -/
structure Noted (m : CaseMap) (s : Traced) : Prop where
  wrote : ∀ key i, s.writer key = some i → ∃ c result since, s.world.probes.calls[i]? = some c ∧ c.phase = .returned result since
  silent : ∀ i, s.world.probes.calls.length ≤ i → s.heard i = []
  tells : ∀ i c, s.world.probes.calls[i]? = some c → Tells (installPaths m c.query) (s.heard i) c.phase

theorem nothingMore {heard : List (String × Except Unit Bool)} {failed : Bool} (nothing : Nothing heard failed) (rel : String) :
    Nothing (heard ++ [(rel,.ok false)]) failed ∧ Nothing (heard ++ [(rel,.error ())]) true := by
  obtain ⟨none,fails⟩ := nothing
  refine ⟨⟨?_,?_⟩,⟨?_,?_⟩⟩
  · intro p mem
    rcases List.mem_append.mp mem with old | new
    · exact none p old
    · rw [List.mem_singleton.mp new]
      rintro ⟨⟩
  · rw [fails]
    constructor
    · rintro ⟨p,mem,error⟩
      exact ⟨p,List.mem_append_left _ mem,error⟩
    · rintro ⟨p,mem,error⟩
      rcases List.mem_append.mp mem with old | new
      · exact ⟨p,old,error⟩
      · rw [List.mem_singleton.mp new] at error
        cases error
  · intro p mem
    rcases List.mem_append.mp mem with old | new
    · exact none p old
    · rw [List.mem_singleton.mp new]
      rintro ⟨⟩
  · exact iff_of_true rfl ⟨(rel,.error ()),List.mem_append_right _ (List.mem_singleton.mpr rfl),rfl⟩

/- After the paths that have been heard of, the call goes on to the next one or stores. -/
theorem tellsNext (since : Option Nat) {paths rest : List String} {heard : List (String × Except Unit Bool)}
    {failed : Bool} (ahead : paths = heard.map Prod.fst ++ rest) (nothing : Nothing heard failed) :
    Tells paths heard ((probeNext failed rest).phase since) := by
  cases rest with
  | nil =>
    refine ⟨?_,failed,nothing,rfl⟩
    rw [ahead,List.append_nil]
  | cons rel rest => exact ⟨ahead,nothing⟩

theorem tellsStart (paths : List String) : Tells paths [] ((probeNext false paths).phase none) :=
  tellsNext none (List.nil_append _).symm ⟨by rintro _ ⟨⟩,iff_of_false Bool.false_ne_true (by rintro ⟨_,⟨⟩,_⟩)⟩

theorem workProbe (m : CaseMap) (q : Query) : (probeKind m).work q = probeNext false (installPaths m q) := by
  delta probeKind
  with_reducible rfl

theorem probeKey (m : CaseMap) (q : Query) : (probeKind m).key q = cacheKey m q := by
  delta probeKind
  with_reducible rfl

/- One step of a call leaves it where its answers say. -/
theorem tellsTurn {m : CaseMap} {now : Nat} {a : Option Answer} {entries entries' : String → Option (Cell Bool)}
    {c c' : Call Query Probing Bool (Except Unit Bool)} {heard : List (String × Except Unit Bool)} (tells : Tells (installPaths m c.query) heard c.phase)
    (moved : (probeKind m).next now a entries c = some (entries',c')) :
    Tells (installPaths m c.query) (heard ++ hears c a) c'.phase ∧ c'.query = c.query := by
  obtain ⟨q,began,phase⟩ := c
  cases phase with
  | look =>
    have none : heard = [] := tells
    subst none
    simp only [Kind.next] at moved
    split at moved
    · cases moved
      exact ⟨trivial,rfl⟩
    · split at moved
      · cases moved
        exact ⟨trivial,rfl⟩
      · cases moved
        rw [workProbe]
        dsimp only
        generalize installPaths m q = paths
        exact ⟨tellsStart paths,rfl⟩
  | read w since =>
    obtain ⟨paths,nothing⟩ := tells
    cases moved
    have ahead (verdict : Except Unit Bool) : installPaths m q = (heard ++ [(w.rel,verdict)]).map Prod.fst ++ w.rest := by
      rw [paths,List.map_append,List.append_assoc]
      rfl
    refine ⟨?_,rfl⟩
    change Tells (installPaths m q) _ ((probeRead a w).phase (some (since.getD now)))
    unfold hears probeRead
    dsimp only
    cases probeOne w.method a with
    | none =>
      rw [List.append_nil]
      exact ⟨paths,nothing⟩
    | some verdict =>
      rcases verdict with ⟨⟨⟩⟩ | ⟨_ | _⟩
      · exact tellsNext _ (ahead _) (nothingMore nothing w.rel).2
      · exact tellsNext _ (ahead _) (nothingMore nothing w.rel).1
      · trivial
  | store value result since =>
    simp only [Kind.next] at moved
    split at moved
    · cases moved
    · cases moved
      exact ⟨trivial,rfl⟩
  | returned result since => cases moved

theorem probeTurned {m : CaseMap} {w w' : World} {i : Nat} {a : Option Answer} (moved : step m w (.probeTurn i a) = some w') :
    ∃ c entries c', w.probes.calls[i]? = some c ∧ (probeKind m).next w.now a w.probes.entries c = some (entries,c') ∧
      w'.probes = ⟨entries,w.probes.calls.set i c'⟩ := by
  obtain ⟨next,stepped,rfl⟩ := Option.map_eq_some_iff.mp moved
  obtain ⟨probes,turned,rfl⟩ := Option.map_eq_some_iff.mp stepped
  unfold Memory.turn at turned
  cases found : w.probes.calls[i]? with
  | none =>
    rw [found] at turned
    cases turned
  | some c =>
    rw [found] at turned
    dsimp only at turned
    cases nextCall : (probeKind m).next w.now a w.probes.entries c with
    | none =>
      rw [nextCall] at turned
      cases turned
    | some p =>
      rw [nextCall] at turned
      cases turned
      exact ⟨c,p.1,p.2,rfl,nextCall,rfl⟩

/- The other moves add at most a call, and make no entry. -/
theorem probesLeft {m : CaseMap} {w w' : World} {e : Move} (moved : step m w e = some w') (other : ∀ i a, e ≠ .probeTurn i a) :
    (∀ key cell, w'.probes.entries key = some cell → w.probes.entries key = some cell) ∧
    ∃ more, w'.probes.calls = w.probes.calls ++ more ∧ ∀ c ∈ more, c.phase = .look := by
  have same : ∃ more, w.probes.calls = w.probes.calls ++ more ∧ ∀ c ∈ more, c.phase = .look :=
    ⟨[],(List.append_nil _).symm,by rintro _ ⟨⟩⟩
  obtain ⟨next,stepped,rfl⟩ := Option.map_eq_some_iff.mp moved
  cases e with
  | fetchCatalog rawBase =>
    cases stepped
    exact ⟨fun _ _ here => here,same⟩
  | hasInstallForHost q =>
    cases stepped
    exact ⟨fun _ _ here => here,_,rfl,fun c mem => by rw [List.mem_singleton.mp mem]⟩
  | invalidate =>
    cases stepped
    exact ⟨fun _ _ here => here,same⟩
  | catalogTurn i a =>
    obtain ⟨c,_,rfl⟩ := Option.map_eq_some_iff.mp stepped
    exact ⟨fun _ _ here => here,same⟩
  | probeTurn i a => exact absurd rfl (other i a)
  | clear i =>
    unfold World.next at stepped
    dsimp only at stepped
    split at stepped
    · cases stepped
    · rename_i v _
      unfold World.cleared at stepped
      split at stepped
      · cases stepped
        exact ⟨fun _ _ here => here,same⟩
      · cases stepped
        exact ⟨by rintro _ _ ⟨⟩,same⟩
      · cases stepped

theorem noteWorld (m : CaseMap) (s : Traced) (w' : World) (e : Move) : (note m s w' e).world = w' := by
  cases e with
  | probeTurn i a =>
    unfold note
    dsimp only
    split <;> rfl
  | _ => rfl

theorem noteOther {m : CaseMap} (s : Traced) (w' : World) {e : Move} (other : ∀ i a, e ≠ .probeTurn i a) :
    note m s w' e = ⟨w',s.heard,s.writer⟩ := by
  cases e with
  | probeTurn i a => exact absurd rfl (other i a)
  | _ => rfl

theorem notedOther {m : CaseMap} {s : Traced} {w' : World} {e : Move} (noted : Noted m s) (moved : step m s.world e = some w')
    (other : ∀ i a, e ≠ .probeTurn i a) : Noted m (note m s w' e) := by
  rw [noteOther s w' other]
  obtain ⟨_,more,grown,new⟩ := probesLeft moved other
  refine ⟨?_,?_,?_⟩
  · intro key i writer
    obtain ⟨c,result,since,here,returned⟩ := noted.wrote key i writer
    refine ⟨c,result,since,?_,returned⟩
    rw [grown,List.getElem?_append_left (List.getElem?_eq_some_iff.mp here).1]
    exact here
  · intro i beyond
    rw [grown,List.length_append] at beyond
    exact noted.silent i (by omega)
  · intro i c here
    rw [grown] at here
    by_cases old : i < s.world.probes.calls.length
    · rw [List.getElem?_append_left old] at here
      exact noted.tells i c here
    · rw [List.getElem?_append_right (by omega)] at here
      change Tells (installPaths m c.query) (s.heard i) c.phase
      rw [new c (List.mem_of_getElem? here)]
      exact noted.silent i (by omega)

/- A call that has returned makes no step. -/
theorem writerWaits {m : CaseMap} {s : Traced} {i : Nat} {a : Option Answer} {c : Call Query Probing Bool (Except Unit Bool)}
    {now : Nat} {entries entries' : String → Option (Cell Bool)} {c' : Call Query Probing Bool (Except Unit Bool)}
    (noted : Noted m s) (found : s.world.probes.calls[i]? = some c)
    (nextCall : (probeKind m).next now a entries c = some (entries',c')) (key : String) : s.writer key ≠ some i := by
  intro writer
  obtain ⟨d,result,since,here,returned⟩ := noted.wrote key i writer
  rw [found] at here
  cases here
  unfold Kind.next at nextCall
  rw [returned] at nextCall
  cases nextCall

/- A call that stores is at its end then. -/
theorem storeReturns {m : CaseMap} {now : Nat} {a : Option Answer} {entries entries' : String → Option (Cell Bool)}
    {c c' : Call Query Probing Bool (Except Unit Bool)} {value : Bool} {result : Except Unit Bool} {since : Option Nat}
    (phase : c.phase = .store value result since) (nextCall : (probeKind m).next now a entries c = some (entries',c')) :
    ∃ key expires, cacheKey m c.query = some key ∧ entries' = Function.update entries key (some ⟨value,since,expires⟩) ∧
      c' = {c with phase := .returned result since} := by
  unfold Kind.next at nextCall
  rw [phase] at nextCall
  dsimp only at nextCall
  rw [probeKey] at nextCall
  cases cached : cacheKey m c.query with
  | none =>
    rw [cached] at nextCall
    cases nextCall
  | some key =>
    rw [cached] at nextCall
    cases nextCall
    exact ⟨key,_,rfl,rfl,rfl⟩

/- Any other step leaves the entries. -/
theorem entriesLeft {m : CaseMap} {now : Nat} {a : Option Answer} {entries entries' : String → Option (Cell Bool)}
    {c c' : Call Query Probing Bool (Except Unit Bool)} (phase : ∀ value result since, c.phase ≠ .store value result since)
    (nextCall : (probeKind m).next now a entries c = some (entries',c')) : entries' = entries ∧ storesAt m c = none := by
  unfold storesAt
  unfold Kind.next at nextCall
  split at nextCall
  · rename_i look
    rw [look]
    split at nextCall
    · cases nextCall
      exact ⟨rfl,rfl⟩
    · split at nextCall
      · cases nextCall
        exact ⟨rfl,rfl⟩
      · cases nextCall
        exact ⟨rfl,rfl⟩
  · rename_i read
    rw [read]
    cases nextCall
    exact ⟨rfl,rfl⟩
  · rename_i store
    exact absurd store (phase _ _ _)
  · cases nextCall

theorem noteTurn {m : CaseMap} {s : Traced} (w' : World) {i : Nat} (a : Option Answer)
    {c : Call Query Probing Bool (Except Unit Bool)} (found : s.world.probes.calls[i]? = some c) :
    note m s w' (.probeTurn i a) = ⟨w',Function.update s.heard i (s.heard i ++ hears c a),
      fun key => if storesAt m c = some key then some i else s.writer key⟩ := by
  unfold note
  dsimp only
  rw [found]

/- Where a call stores, it hears nothing. -/
theorem storeDeaf {c : Call Query Probing Bool (Except Unit Bool)} {value : Bool} {result : Except Unit Bool} {since : Option Nat}
    (phase : c.phase = .store value result since) (a : Option Answer) : hears c a = [] := by
  unfold hears
  rw [phase]

theorem notedTurn {m : CaseMap} {s : Traced} {w' : World} {i : Nat} {a : Option Answer} (noted : Noted m s)
    (moved : step m s.world (.probeTurn i a) = some w') : Noted m (note m s w' (.probeTurn i a)) := by
  obtain ⟨c,entries,c',found,nextCall,after⟩ := probeTurned moved
  have inside : i < s.world.probes.calls.length := (List.getElem?_eq_some_iff.mp found).1
  obtain ⟨tells,query⟩ := tellsTurn (noted.tells i c found) nextCall
  rw [noteTurn w' a found]
  refine ⟨?_,?_,?_⟩
  · intro key j writer
    change (if storesAt m c = some key then some i else s.writer key) = some j at writer
    change ∃ d result since, w'.probes.calls[j]? = some d ∧ _
    rw [after]
    by_cases stores : storesAt m c = some key
    · rw [if_pos stores,Option.some.injEq] at writer
      subst writer
      rw [List.getElem?_set_self inside]
      unfold storesAt at stores
      split at stores
      · rename_i phase
        obtain ⟨_,_,_,_,rfl⟩ := storeReturns phase nextCall
        exact ⟨_,_,_,rfl,rfl⟩
      · cases stores
    · rw [if_neg stores] at writer
      obtain ⟨d,result,since,here,returned⟩ := noted.wrote key j writer
      have apart : i ≠ j := by
        intro same
        exact writerWaits noted found nextCall key (same ▸ writer)
      rw [List.getElem?_set_ne apart]
      exact ⟨d,result,since,here,returned⟩
  · intro j beyond
    change w'.probes.calls.length ≤ j at beyond
    rw [after,List.length_set] at beyond
    change Function.update s.heard i (s.heard i ++ hears c a) j = []
    rw [Function.update_of_ne (by omega)]
    exact noted.silent j beyond
  · intro j d here
    change w'.probes.calls[j]? = some d at here
    change Tells (installPaths m d.query) (Function.update s.heard i (s.heard i ++ hears c a) j) d.phase
    rw [after] at here
    by_cases same : i = j
    · subst same
      rw [List.getElem?_set_self inside] at here
      cases here
      rw [Function.update_self,query]
      exact tells
    · rw [List.getElem?_set_ne same] at here
      rw [Function.update_of_ne (fun other => same other.symm)]
      exact noted.tells j d here

theorem notedStep {m : CaseMap} {s s' : Traced} {e : Move} (noted : Noted m s) (moved : tracedStep m s e = some s') : Noted m s' := by
  obtain ⟨w',stepped,rfl⟩ := Option.map_eq_some_iff.mp moved
  by_cases turn : ∃ i a, e = .probeTurn i a
  · obtain ⟨i,a,rfl⟩ := turn
    exact notedTurn noted stepped
  · exact notedOther noted stepped (fun i a same => turn ⟨i,a,same⟩)

/- An entry of before has its call of before. -/
theorem absenceKept {m : CaseMap} {s : Traced} {w' : World} {i : Nat} {a : Option Answer} (noted : Noted m s)
    (absence : AbsenceHeard m s) {c c' : Call Query Probing Bool (Except Unit Bool)} {entries : String → Option (Cell Bool)}
    (found : s.world.probes.calls[i]? = some c) (nextCall : (probeKind m).next s.world.now a s.world.probes.entries c = some (entries,c'))
    (after : w'.probes = ⟨entries,s.world.probes.calls.set i c'⟩) {key : String} {cell : Cell Bool}
    (here : s.world.probes.entries key = some cell) (none : cell.value = false) (other : storesAt m c ≠ some key) :
    ∃ j d, (note m s w' (.probeTurn i a)).writer key = some j ∧ w'.probes.calls[j]? = some d ∧ cacheKey m d.query = some key ∧
      (note m s w' (.probeTurn i a)).heard j = (installPaths m d.query).map (fun rel => (rel,.ok false)) := by
  obtain ⟨j,d,writer,call,keyed,told⟩ := absence key cell here none
  have apart : i ≠ j := by
    intro same
    exact writerWaits noted found nextCall key (same ▸ writer)
  refine ⟨j,d,?_,?_,keyed,?_⟩
  · rw [noteTurn w' a found]
    exact (if_neg other).trans writer
  · rw [after]
    exact (List.getElem?_set_ne apart).trans call
  · rw [noteTurn w' a found]
    exact (Function.update_of_ne (fun same => apart same.symm) _ _).trans told

theorem heardAbsent {heard : List (String × Except Unit Bool)} {paths : List String} (all : heard.map Prod.fst = paths)
    (nothing : Nothing heard false) : heard = paths.map (fun rel => (rel,.ok false)) := by
  subst all
  rw [List.map_map]
  refine (List.map_id heard).symm.trans (List.map_congr_left fun p mem => ?_)
  obtain ⟨rel,verdict⟩ := p
  rcases verdict with ⟨⟨⟩⟩ | ⟨_ | _⟩
  · exact absurd (nothing.2.mpr ⟨_,mem,rfl⟩) Bool.false_ne_true
  · rfl
  · exact absurd rfl (nothing.1 _ mem)

/- A step leaves only heard absences exactly when it stores no other. -/
theorem absenceStep {m : CaseMap} {s s' : Traced} {e : Move} (noted : Noted m s) (absence : AbsenceHeard m s)
    (moved : tracedStep m s e = some s') : AbsenceHeard m s' ↔ Definite m s e := by
  obtain ⟨w',stepped,rfl⟩ := Option.map_eq_some_iff.mp moved
  unfold AbsenceHeard
  rw [noteWorld]
  by_cases turn : ∃ i a, e = .probeTurn i a
  · obtain ⟨i,a,rfl⟩ := turn
    obtain ⟨c,entries,c',found,nextCall,after⟩ := probeTurned stepped
    have inside : i < s.world.probes.calls.length := (List.getElem?_eq_some_iff.mp found).1
    have tells := noted.tells i c found
    by_cases stores : ∃ value result since, c.phase = .store value result since
    · obtain ⟨value,result,since,phase⟩ := stores
      obtain ⟨key,expires,keyed,stored,back⟩ := storeReturns phase nextCall
      have at' : storesAt m c = some key := by rw [storesAt,phase]; exact keyed
      have mine : (note m s w' (.probeTurn i a)).writer key = some i := by
        rw [noteTurn w' a found]
        exact if_pos at'
      have told : (note m s w' (.probeTurn i a)).heard i = s.heard i := by
        rw [noteTurn w' a found,storeDeaf phase a,List.append_nil]
        exact Function.update_self i _ _
      have call : w'.probes.calls[i]? = some c' := by
        rw [after]
        exact List.getElem?_set_self inside
      have entry : w'.probes.entries key = some ⟨value,since,expires⟩ := by
        rw [after,stored]
        exact Function.update_self key _ _
      have rest : ∀ other cell, other ≠ key → w'.probes.entries other = some cell → s.world.probes.entries other = some cell := by
        intro other cell apart here
        rw [after,stored] at here
        exact (Function.update_of_ne apart _ _).symm.trans here
      rw [phase] at tells
      constructor
      · intro later d same _ _ _ pending
        rw [found] at same
        cases same
        rw [phase] at pending
        cases pending
        obtain ⟨_,failed,nothing,result⟩ := tells
        cases failed
        · cases result
        · obtain ⟨p,mem,error⟩ := nothing.2.mp rfl
          obtain ⟨j,d,writer,_,_,all⟩ := later key _ entry rfl
          rw [mine,Option.some.injEq] at writer
          subst writer
          rw [told] at all
          rw [all] at mem
          obtain ⟨rel,_,rfl⟩ := List.mem_map.mp mem
          cases error
      · intro definite other cell here none
        by_cases same : other = key
        · rw [same] at here ⊢
          rw [entry] at here
          cases here
          change value = false at none
          subst none
          obtain ⟨paths,failed,nothing,result⟩ := tells
          cases failed
          · refine ⟨i,c',mine,call,?_,?_⟩
            · rw [back]
              exact keyed
            · rw [told,back]
              exact heardAbsent paths nothing
          · subst result
            exact absurd phase (definite c found key since at')
        · refine absenceKept noted absence found nextCall after (rest other cell same here) none ?_
          rw [at',Ne,Option.some.injEq]
          exact fun eq => same eq.symm
    · have free : ∀ value result since, c.phase ≠ .store value result since := fun v r t phase => stores ⟨v,r,t,phase⟩
      obtain ⟨left,silent⟩ := entriesLeft free nextCall
      refine iff_of_true ?_ ?_
      · intro key cell here none
        have before : s.world.probes.entries key = some cell := by
          rw [after,left] at here
          exact here
        exact absenceKept noted absence found nextCall after before none (by rw [silent]; rintro ⟨⟩)
      · intro d same _ _ _ phase
        rw [found] at same
        cases same
        exact free _ _ _ phase
  · have other : ∀ i a, e ≠ .probeTurn i a := fun i a same => turn ⟨i,a,same⟩
    obtain ⟨fewer,more,grown,_⟩ := probesLeft stepped other
    rw [noteOther s w' other]
    refine iff_of_true ?_ ?_
    · intro key cell here none
      obtain ⟨j,d,writer,call,keyed,told⟩ := absence key cell (fewer key cell here) none
      refine ⟨j,d,writer,?_,keyed,told⟩
      rw [grown,List.getElem?_append_left (List.getElem?_eq_some_iff.mp call).1]
      exact call
    · cases e with
      | probeTurn i a => exact absurd rfl (other i a)
      | _ => trivial

/- A call that stores is never stuck. -/
theorem definiteStuck {m : CaseMap} {s : Traced} {e : Move} (stuck : tracedStep m s e = none) : Definite m s e := by
  cases e with
  | probeTurn i a =>
    intro c found key since stores phase
    rw [storesAt,phase] at stores
    dsimp only at stores
    cases nextCall : (probeKind m).next s.world.now a s.world.probes.entries c with
    | none =>
      rw [Kind.next,phase] at nextCall
      dsimp only at nextCall
      rw [probeKey,stores] at nextCall
      cases nextCall
    | some p =>
      have turned : s.world.probes.turn (probeKind m) s.world.now i a = some ⟨p.1,s.world.probes.calls.set i p.2⟩ := by
        rw [Memory.turn,show s.world.probes.calls[i]? = some c from found]
        dsimp only
        rw [nextCall]
      rw [tracedStep,step,World.next,turned] at stuck
      cases stuck
  | _ => trivial

theorem notedOpening (m : CaseMap) : Noted m tracedOpening :=
  ⟨by rintro _ _ ⟨⟩,fun _ _ => rfl,by rintro _ _ ⟨⟩⟩

theorem absenceIff (m : CaseMap) (moves : List Move) :
    (∀ n s, Runs.run (tracedStep m) tracedOpening (moves.take n) = some s → AbsenceHeard m s) ↔
      Runs.Guided (tracedStep m) (Definite m) tracedOpening moves :=
  Runs.guidedBeside notedStep absenceStep definiteStuck (notedOpening m) (by rintro _ _ ⟨⟩)

def probedOnce : Query := ⟨"r","a",⟨"","",""⟩⟩

/- One probe, and its only request is not answered. -/
def unanswered : List Move := [.hasInstallForHost probedOnce,.probeTurn 0 none,.probeTurn 0 none,.probeTurn 0 none]

theorem errorRemembered : ¬ ∀ (m : CaseMap) (moves : List Move) (n : Nat) (s : Traced),
    Runs.run (tracedStep m) tracedOpening (moves.take n) = some s →
    AbsenceHeard m s := by
  intro all
  have done : (Runs.run (tracedStep ascii) tracedOpening (unanswered.take 4)).map
      (fun s => ((s.world.probes.entries "r|a|||").map Cell.value,s.writer "r|a|||",s.heard 0)) =
      some (some false,some 0,[("softwares/a/default/install.json",.error ())]) := by decide
  obtain ⟨s,ran,same⟩ := Option.map_eq_some_iff.mp done
  simp only [Prod.mk.injEq] at same
  obtain ⟨cell,entry,none⟩ := Option.map_eq_some_iff.mp same.1
  obtain ⟨i,c,writer,_,_,told⟩ := all ascii unanswered 4 s ran "r|a|||" cell entry none
  rw [same.2.1,Option.some.injEq] at writer
  subst writer
  rw [same.2.2] at told
  have mem : ("softwares/a/default/install.json",(Except.error () : Except Unit Bool)) ∈
      (installPaths ascii c.query).map (fun rel => (rel,Except.ok false)) := by
    rw [← told]
    exact List.mem_singleton_self _
  obtain ⟨_,_,⟨⟩⟩ := List.mem_map.mp mem

end ContainerWS.SoftwarePkg.Catalog
