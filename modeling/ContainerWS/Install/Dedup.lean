import ContainerWS.Install.Rows

/-! De-duplication by the busy sets. A call of EnqueueMissingInstalls or of
EnqueueBrewActions takes its busy set in one critical section and appends in a
later one. Counting with the live rows those a call may still append, there is
at most one for each software and for each brew kind and name. -/
namespace ContainerWS.Install
open Interleaving GoStrings

inductive Key where
  | software (softwareID : String)
  | brew (kind : BrewKind) (name : String)
  deriving DecidableEq, Repr

def Origin.isMissing : Origin → Bool
  | .missing _ => true
  | _ => false

/- The rows that the two calls make under a key. -/
def made : Key → QueueItem → Bool
  | .software softwareID,it => it.origin.isMissing && it.softwareID == softwareID
  | .brew kind name,it => it.origin == .brew && it.brewKind == kind && it.brewName == name

theorem madeKind (key : Key) : Kind (made key) := by
  intro it status jobID message versionID
  cases key <;> rfl

def asked (items : List MissingInstall) : List String := items.map (fun item => trimSpace item.softwareID)

/- Whether the rest of a call may still bring a row under the key. -/
def toCome : Key → Request → Nat
  | .software softwareID,r =>
    match r.missingCall with
    | some call => if softwareID ∈ asked call.todo ∧ softwareID ∉ call.busy then 1 else 0
    | none => 0
  | .brew kind name,.brewItems _ _ kind' names busy =>
    if kind' = kind ∧ name ∈ names ∧ name ∉ busy then 1 else 0
  | _,_ => 0

def wants (key : Key) : Goroutine → Nat
  | .request r => r.cargo.countP (made key) + toCome key r
  | _ => 0

/- When a call takes its busy set, no other call past its own may still append
under a key that this one is given and does not find busy. -/
def NobodyAppending (m : CaseMap) (c : Process) : Goroutine → Prop
  | .request (.missingBusy _ items) =>
    ∀ softwareID ∈ asked items, softwareID ∉ pendingOrRunning c.shared.queue →
      ∀ u ∈ c.pool, wants (.software softwareID) u = 0
  | .request (.brewBusy _ _ kind names) =>
    ∀ name ∈ names, name ∉ brewBusy m c.shared.queue → ∀ u ∈ c.pool, wants (.brew kind name) u = 0
  | _ => True

instance (m : CaseMap) (c : Process) (t : Goroutine) : Decidable (NobodyAppending m c t) := by
  unfold NobodyAppending
  split <;> infer_instance

/- The head of a call past the busy test is not busy, and the names of a brew
call are in lower case. -/
def Checked (m : CaseMap) : Goroutine → Prop
  | .request (.missingLatest call _) => ∀ item rest, call.todo = item::rest → trimSpace item.softwareID ∉ call.busy
  | .request (.missingActive call _ _) => ∀ item rest, call.todo = item::rest → trimSpace item.softwareID ∉ call.busy
  | .request (.brewBusy _ _ _ names) => ∀ name ∈ names, m.toLower name = name ∧ name ≠ ""
  | _ => True

structure Distinct (m : CaseMap) (c : Process) : Prop where
  single : ∀ key, liveOf (made key) c.shared.queue + load (wants key) c.pool ≤ 1
  checked : ∀ t ∈ c.pool, Checked m t

/- A step that brings nothing new under any key. -/
theorem singleKeep {s s' : Shared} {pool new : List Goroutine} {i : Nat} {t g : Goroutine} {key : Key}
    (before : liveOf (made key) s.queue + load (wants key) pool ≤ 1) (found : pool[i]? = some t)
    (fewer : liveOf (made key) s'.queue + wants key g + load (wants key) new ≤
      liveOf (made key) s.queue + wants key t) :
    liveOf (made key) s'.queue + load (wants key) (pool.set i g ++ new) ≤ 1 := by
  have moved := loadStep (wants key) g new found
  omega

/- A busy set lets a key in only when nothing is there under it. -/
theorem singleEnter {s : Shared} {pool : List Goroutine} {i : Nat} {t g : Goroutine} {key : Key}
    (before : liveOf (made key) s.queue + load (wants key) pool ≤ 1) (found : pool[i]? = some t)
    (most : wants key g ≤ 1) (free : 0 < wants key g → liveOf (made key) s.queue = 0 ∧
      ∀ u ∈ pool, wants key u = 0) :
    liveOf (made key) s.queue + load (wants key) (pool.set i g ++ []) ≤ 1 := by
  have moved := loadStep (wants key) g [] found
  simp only [loadNil] at moved
  rcases Nat.eq_zero_or_pos (wants key g) with none | some
  · omega
  · obtain ⟨noRow,others⟩ := free some
    have empty := (loadZero (wants key) pool).mpr others
    omega

theorem quietWants {g : Goroutine} (silent : g.quiet = true) (key : Key) : wants key g = 0 := by
  cases g with
  | request r =>
    cases r <;> simp only [Goroutine.quiet,Request.quiet] at silent <;> try contradiction
    all_goals cases key <;> rfl
  | done => rfl
  | _ => contradiction

theorem quietChecked {m : CaseMap} {g : Goroutine} (silent : g.quiet = true) : Checked m g := by
  cases g with
  | request r => cases r <;> trivial
  | done => trivial
  | _ => contradiction

theorem pendingOrRunningMem {q : BulkQueue} {it : QueueItem} (mem : it ∈ q.items) (isLive : it.live = true) :
    it.softwareID ∈ pendingOrRunning q :=
  List.mem_map_of_mem (List.mem_filter.mpr ⟨mem,isLive⟩)

theorem brewBusyMem {m : CaseMap} {q : BulkQueue} {it : QueueItem} (mem : it ∈ q.items)
    (isLive : it.live = true) (lower : m.toLower it.brewName = it.brewName) (named : it.brewName ≠ "") :
    it.brewName ∈ brewBusy m q := by
  have key : brewKey m it = it.brewName := by
    rw [brewKey,lower,if_neg named]
  refine List.mem_filter.mpr ⟨?_,by simpa using named⟩
  rw [← key]
  exact List.mem_map_of_mem (List.mem_filter.mpr ⟨mem,isLive⟩)

theorem noneLive {p : QueueItem → Bool} {q : BulkQueue} (none : ∀ it ∈ q.items, it.live = true → p it = false) :
    liveOf p q = 0 := by
  refine List.countP_eq_zero.mpr ?_
  intro it mem both
  simp only [Bool.and_eq_true] at both
  rw [none it mem both.1] at both
  exact Bool.false_ne_true both.2

theorem wantsBusy (key : Key) (db : Bool) (items : List MissingInstall) (busy : List String) :
    wants key (.request (.missingItem ⟨db,items,busy,[]⟩)) = toCome key (.missingItem ⟨db,items,busy,[]⟩) := by
  simp [wants,Request.cargo]

theorem toComeMost (key : Key) (r : Request) : toCome key r ≤ 1 := by
  unfold toCome
  split
  · split
    · split <;> omega
    · omega
  · split <;> omega
  · omega

/- Rows of the other calls are under no key. -/
theorem newItemsMade {key : Key} {drawn : Nat} {action : Action} {ids : List String} :
    (newItems drawn action ids).countP (made key) = 0 := by
  induction ids generalizing drawn with
  | nil => rfl
  | cons s rest ih =>
    rw [newItems,List.countP_cons,ih]
    cases key <;> rfl

theorem retryRowMade {key : Key} {id : UUID} {found : Option QueueItem} {softwareID : String}
    {action : Action} {item : QueueItem} (row : retryRow id found softwareID action = some item) :
    made key item = false := by
  unfold retryRow at row
  split at row
  · split at row
    · cases Option.some.inj row
      cases key <;> rfl
    · split at row <;> try contradiction
      cases Option.some.inj row
      cases key <;> rfl
  · split at row <;> try contradiction
    cases Option.some.inj row
    cases key <;> rfl

theorem flagLe {a b : Prop} [Decidable a] [Decidable b] (implies : a → b) :
    (if a then 1 else 0) ≤ if b then 1 else 0 := by
  split
  · rename_i holds
    rw [if_pos (implies holds)]
  · exact Nat.zero_le _

/- The loop of EnqueueBrewActions takes each free name once. -/
theorem brewAddedMade (drawn : Nat) (action : Action) (kind : BrewKind) (busy names : List String)
    (kind' : BrewKind) (name : String) :
    (brewAdded drawn action kind busy names).countP (made (.brew kind' name)) ≤
      if kind = kind' ∧ name ∈ names ∧ name ∉ busy then 1 else 0 := by
  induction names generalizing drawn busy with
  | nil => simp [brewAdded]
  | cons head rest ih =>
    simp only [brewAdded]
    split
    · rename_i isBusy
      refine Nat.le_trans (ih drawn busy) (flagLe ?_)
      exact fun inRest => ⟨inRest.1,List.mem_cons_of_mem _ inRest.2.1,inRest.2.2⟩
    · rename_i isFree
      rw [List.countP_cons]
      have tail := ih (drawn+1) (head::busy)
      by_cases same : kind = kind' ∧ head = name
      · obtain ⟨rfl,rfl⟩ := same
        have here : kind = kind ∧ head ∈ head::rest ∧ head ∉ busy := ⟨rfl,by simp,isFree⟩
        rw [if_neg (by simp)] at tail
        rw [if_pos here]
        split <;> omega
      · have other : made (.brew kind' name) (brewItem drawn head action kind) = false := by
          simp only [made,brewItem,Bool.and_eq_false_iff,beq_eq_false_iff_ne]
          by_cases kinds : kind = kind'
          · exact .inr (fun names => same ⟨kinds,names⟩)
          · exact .inl (.inr kinds)
        rw [other]
        refine Nat.le_trans tail (flagLe ?_)
        rintro ⟨kinds,mem,notBusy⟩
        exact ⟨kinds,List.mem_cons_of_mem _ mem,fun inside => notBusy (by simp [inside])⟩

theorem brewAddedSoftware (softwareID : String) (drawn : Nat) (action : Action) (kind : BrewKind)
    (busy names : List String) :
    (brewAdded drawn action kind busy names).countP (made (.software softwareID)) = 0 := by
  induction names generalizing drawn busy with
  | nil => rfl
  | cons head rest ih =>
    simp only [brewAdded]
    split
    · exact ih drawn busy
    · rw [List.countP_cons,ih]
      rfl

/- Points of EnqueueMissingInstalls want the same as long as their call does. -/
theorem missingWants {r : Request} {call : MissingCall} (at_ : r.missingCall = some call) (key : Key) :
    wants key (.request r) = wants key (.request (.missingItem call)) := by
  cases r <;> simp only [Request.missingCall,reduceCtorEq,Option.some.injEq] at at_
  all_goals
    subst at_
    cases key <;> rfl

theorem missingReadCall {r : Request} {call : MissingCall} {readAt : Nat}
    (at_ : r.missingRead = some (call,readAt)) : r.missingCall = some call := by
  cases r <;> simp_all [Request.missingRead,Request.missingCall]

theorem missingReadChecked {m : CaseMap} {r : Request} {call : MissingCall} {readAt : Nat}
    {item : MissingInstall} {rest : List MissingInstall} (at_ : r.missingRead = some (call,readAt))
    (todo : call.todo = item::rest) (checked : Checked m (.request r)) :
    trimSpace item.softwareID ∉ call.busy := by
  cases r <;> simp only [Request.missingRead,reduceCtorEq,Option.some.injEq,Prod.mk.injEq] at at_
  all_goals
    obtain ⟨rfl,_⟩ := at_
    exact checked item rest todo

theorem skipWants {call : MissingCall} {item : MissingInstall} {rest : List MissingInstall}
    (todo : call.todo = item::rest) (key : Key) :
    wants key (.request (.missingItem (call.skip rest))) ≤ wants key (.request (.missingItem call)) := by
  cases key with
  | software softwareID =>
    simp only [wants,toCome,Request.cargo,Request.missingCall,MissingCall.skip,todo,asked,List.map_cons,
      List.mem_cons]
    exact Nat.add_le_add_left (flagLe (fun inRest => ⟨.inr inRest.1,inRest.2⟩)) _
  | brew kind name => exact Nat.le_refl _

/- A candidate uses up what its key had to come. -/
theorem candidateWants {call : MissingCall} {item : MissingInstall} {rest : List MissingInstall}
    (todo : call.todo = item::rest) (free : trimSpace item.softwareID ∉ call.busy) (id : UUID)
    (readAt : Nat) (key : Key) :
    wants key (.request (.missingItem (call.candidate id item rest readAt))) ≤
      wants key (.request (.missingItem call)) := by
  cases key with
  | software softwareID =>
    simp only [wants,toCome,Request.cargo,Request.missingCall,MissingCall.candidate,todo,asked,List.map_cons,
      List.mem_cons,List.countP_append,List.countP_singleton]
    by_cases same : softwareID = trimSpace item.softwareID
    · subst same
      rw [if_pos (⟨.inl rfl,free⟩ : _ ∧ _)]
      simp only [true_or,not_true_eq_false,and_false,if_false]
      split <;> omega
    · have other : made (.software softwareID) (missingInstallItem id item readAt) = false := by
        simp [made,missingInstallItem,Ne.symm same]
      simp only [other,same,false_or]
      simp
  | brew kind name =>
    simp only [wants,toCome,Request.cargo,MissingCall.candidate,List.countP_append,List.countP_singleton]
    exact Nat.le_refl _

theorem singleFewer {s s' : Shared} {pool new : List Goroutine} {i : Nat} {t g : Goroutine} {key : Key}
    (before : liveOf (made key) s.queue + load (wants key) pool ≤ 1) (found : pool[i]? = some t)
    (less : Fewer s.queue s'.queue) (hands : wants key g + load (wants key) new ≤ wants key t) :
    liveOf (made key) s'.queue + load (wants key) (pool.set i g ++ new) ≤ 1 := by
  have live := less.live _ (madeKind key)
  exact singleKeep before found (by omega)

theorem singleDone {s s' : Shared} {pool : List Goroutine} {i : Nat} {t g : Goroutine} {key : Key}
    (before : liveOf (made key) s.queue + load (wants key) pool ≤ 1) (found : pool[i]? = some t)
    (less : Fewer s.queue s'.queue) (none : wants key g = 0) :
    liveOf (made key) s'.queue + load (wants key) (pool.set i g ++ []) ≤ 1 :=
  singleFewer before found less (by rw [none]; exact Nat.zero_le _)

theorem liveAppend (p : QueueItem → Bool) (q : BulkQueue) (db : Bool) (added : List QueueItem) :
    liveOf p (q.append db added) ≤ liveOf p q + added.countP p := by
  have split := boundedCount (fun it => it.live && p it) (q.items ++ added)
  have fewer : added.countP (fun it => it.live && p it) ≤ added.countP p :=
    List.countP_mono_left (by
      intro it _ both
      simp only [Bool.and_eq_true] at both
      exact both.2)
  rw [List.countP_append] at split
  simp only [liveOf,BulkQueue.append]
  omega

theorem liveRetry (p : QueueItem → Bool) (q : BulkQueue) (db : Bool) (item : QueueItem) :
    liveOf p (q.appendRetry db item) ≤ liveOf p q + [item].countP p := by
  simp only [liveOf,BulkQueue.appendRetry,List.countP_append]
  refine Nat.add_le_add_left (List.countP_mono_left ?_) _
  intro it _ both
  simp only [Bool.and_eq_true] at both
  exact both.2

/- The first section of EnqueueMissingInstalls. -/
theorem enterMissing {s : Shared} {db : Bool} {items : List MissingInstall} {key : Key}
    (some : 0 < wants key (.request (.missingItem ⟨db,items,pendingOrRunning s.queue,[]⟩))) :
    ∃ softwareID ∈ asked items, softwareID ∉ pendingOrRunning s.queue ∧ key = .software softwareID ∧
      liveOf (made key) s.queue = 0 := by
  rw [wantsBusy] at some
  cases key with
  | brew kind name => exact absurd some (Nat.lt_irrefl 0)
  | software softwareID =>
    simp only [toCome,Request.missingCall] at some
    split at some
    · rename_i both
      refine ⟨softwareID,both.1,both.2,rfl,noneLive ?_⟩
      intro it mem isLive
      have there := pendingOrRunningMem mem isLive
      by_contra madeHere
      simp only [made,Bool.not_eq_false,Bool.and_eq_true,beq_iff_eq] at madeHere
      exact both.2 (madeHere.2 ▸ there)
    · exact absurd some (Nat.lt_irrefl 0)

/- The first section of EnqueueBrewActions. -/
theorem enterBrew {m : CaseMap} {s : Shared} {db : Bool} {action : Action} {kind : BrewKind}
    {names : List String} {key : Key} (clean : ∀ name ∈ names, m.toLower name = name ∧ name ≠ "")
    (some : 0 < wants key (.request (.brewItems db action kind names (brewBusy m s.queue)))) :
    ∃ name ∈ names, name ∉ brewBusy m s.queue ∧ key = .brew kind name ∧ liveOf (made key) s.queue = 0 := by
  cases key with
  | software softwareID => exact absurd some (Nat.lt_irrefl 0)
  | brew kind' name =>
    simp only [wants,Request.cargo,toCome,List.countP_nil,Nat.zero_add] at some
    split at some
    · rename_i both
      obtain ⟨rfl,mem,free⟩ := both
      obtain ⟨lower,named⟩ := clean name mem
      refine ⟨name,mem,free,rfl,noneLive ?_⟩
      intro it inside isLive
      by_contra madeHere
      simp only [made,Bool.not_eq_false,Bool.and_eq_true,beq_iff_eq] at madeHere
      have same := madeHere.2
      have there := brewBusyMem (m := m) inside isLive (by rw [same,lower]) (by rw [same]; exact named)
      exact free (same ▸ there)
    · exact absurd some (Nat.lt_irrefl 0)

theorem requestSingle {m : CaseMap} {s s' : Shared} {r : Request} {g : Goroutine}
    {pool new : List Goroutine} {i : Nat} (distinct : Distinct m ⟨s,pool⟩)
    (found : pool[i]? = some (.request r)) (guard : NobodyAppending m ⟨s,pool⟩ (.request r))
    (step : Request.Step m s r s' g new) (key : Key) :
    liveOf (made key) s'.queue + load (wants key) (pool.set i g ++ new) ≤ 1 := by
  have before : liveOf (made key) s.queue + load (wants key) pool ≤ 1 := distinct.single key
  have checked := distinct.checked _ (List.mem_of_getElem? found)
  cases step with
  | leave calm => exact singleDone before found (fewerSame rfl) rfl
  | quiet ids prior after => exact singleDone before found (fewerSame rfl) (quietWants after key)
  | retryFind after => exact singleDone before found (fewerRetryDrop _ _) (quietWants after key)
  | dismissRows ids after => exact singleDone before found (fewerFilter rfl) (quietWants after key)
  | switchCancel after => exact singleDone before found (fewerCancel _ _) (quietWants after key)
  | switchComplete after => exact singleDone before found (fewerCancel _ _) (quietWants after key)
  | apiAppend => exact singleFewer before found (fewerSame rfl) (by cases key <;> exact Nat.le_refl _)
  | apiSkip => exact singleFewer before found (fewerSame rfl) (by cases key <;> exact Nat.le_refl _)
  | apiItem =>
    refine singleFewer before found (fewerSame rfl) ?_
    simp only [wants,Request.cargo,List.countP_append]
    cases key <;> exact Nat.le_refl _
  | actions =>
    refine singleDone before found (fewerSame rfl) ?_
    simp only [wants,Request.cargo,newItemsMade]
    cases key <;> rfl
  | missingBusy =>
    rename_i db items
    refine singleEnter before found ?_ ?_
    · rw [wantsBusy]
      exact toComeMost key _
    · intro some
      obtain ⟨softwareID,mem,free,rfl,none⟩ := enterMissing some
      exact ⟨none,guard softwareID mem free⟩
  | missingAppend last =>
    refine singleFewer before found (fewerSame rfl) ?_
    cases key <;> exact Nat.le_add_right _ _
  | missingSkip at_ todo =>
    refine singleFewer before found (fewerSame rfl) ?_
    rw [missingWants at_]
    exact skipWants todo key
  | missingFlag todo named =>
    exact singleFewer before found (fewerSame rfl) (by cases key <;> exact Nat.le_refl _)
  | missingFree todo free =>
    exact singleFewer before found (fewerSame rfl) (by cases key <;> exact Nat.le_refl _)
  | missingFound => exact singleFewer before found (fewerSame rfl) (by cases key <;> exact Nat.le_refl _)
  | missingCandidate at_ todo =>
    refine singleFewer before found (fewerSame rfl) ?_
    rw [missingWants (missingReadCall at_)]
    exact candidateWants todo (missingReadChecked at_ todo checked) _ _ key
  | brewBusy =>
    rename_i db action kind names
    refine singleEnter before found ?_ ?_
    · simp only [wants,Request.cargo,List.countP_nil,Nat.zero_add]
      exact toComeMost key _
    · intro some
      obtain ⟨name,mem,free,rfl,none⟩ := enterBrew checked some
      exact ⟨none,guard name mem free⟩
  | brewItems made_ =>
    subst made_
    refine singleFewer before found (fewerSame rfl) ?_
    cases key with
    | software softwareID =>
      simp only [wants,Request.cargo,brewAddedSoftware]
      exact Nat.le_refl _
    | brew kind' name =>
      simp only [wants,Request.cargo,List.countP_nil,Nat.zero_add]
      exact brewAddedMade _ _ _ _ _ _ _
  | retryItem row =>
    refine singleDone before found (fewerSame rfl) ?_
    simp only [wants,Request.cargo,List.countP_singleton,retryRowMade row]
    cases key <;> rfl
  | append =>
    rename_i db added
    have grown := liveAppend (made key) s.queue db added
    refine singleKeep before found ?_
    cases key <;> exact grown
  | retryAppend =>
    rename_i db item
    have grown := liveRetry (made key) s.queue db item
    refine singleKeep before found ?_
    cases key <;> exact grown
  | spawn => exact singleFewer before found (fewerSame rfl) (by cases key <;> exact Nat.le_refl _)
  | flag stopped => exact singleDone before found (fewerSame rfl) (by cases key <;> rfl)
  | switchMark => exact singleDone before found (fewerSame rfl) (by cases key <;> rfl)
  | _ => exact singleDone before found (fewerSame rfl) (by cases key <;> rfl)

theorem requestChecked {m : CaseMap} {s s' : Shared} {r : Request} {g : Goroutine} {new : List Goroutine}
    (checked : Checked m (.request r)) (step : Request.Step m s r s' g new) :
    Checked m g ∧ ∀ u ∈ new, Checked m u := by
  cases step with
  | quiet ids prior after => exact ⟨quietChecked after,by simp⟩
  | retryFind after => exact ⟨quietChecked after,by simp⟩
  | dismissRows ids after => exact ⟨quietChecked after,by simp⟩
  | switchCancel after => exact ⟨quietChecked after,by simp⟩
  | switchComplete after => exact ⟨quietChecked after,by simp⟩
  | missingFree todo free =>
    refine ⟨?_,by simp⟩
    intro item rest todo'
    rw [todo] at todo'
    cases todo'
    exact free
  | missingFound => exact ⟨checked,by simp⟩
  | spawn => exact ⟨trivial,by simp [Checked]⟩
  | _ => exact ⟨trivial,by simp⟩

/- Goroutines that are no request bring no row, nor does a kick. -/
def barren : Goroutine → Bool
  | .request .kick => true
  | .request _ => false
  | _ => true

theorem barrenWants {g : Goroutine} (none : barren g = true) (key : Key) : wants key g = 0 := by
  cases g with
  | request r =>
    cases r <;> simp only [barren,reduceCtorEq] at none
    cases key <;> rfl
  | _ => rfl

theorem barrenChecked {m : CaseMap} {g : Goroutine} (none : barren g = true) : Checked m g := by
  cases g with
  | request r => cases r <;> trivial
  | _ => trivial

theorem stepBarren {m : CaseMap} {k : Choice} {s s' : Shared} {t g : Goroutine} {new : List Goroutine}
    (request : ∀ r, t ≠ .request r) (stepped : next m k s t = some (s',g,new)) :
    barren g = true ∧ ∀ u ∈ new, barren u = true := by
  cases t with
  | request r => exact absurd rfl (request r)
  | worker w => cases Worker.steps stepped <;> simp [barren]
  | stream v => cases Stream.steps stepped <;> simp [barren]
  | install run => cases installSteps stepped <;> simp [barren]
  | prune job =>
    cases stepped
    simp [barren]
  | setup v =>
    obtain ⟨_,_,_,_,_,_,self,others⟩ := setupFrame stepped
    refine ⟨?_,?_⟩
    · rcases self with rfl | ⟨w,rfl⟩ <;> rfl
    · intro u mem
      obtain ⟨w,rfl⟩ := others u mem
      rfl
  | done => contradiction

theorem startedDistinct {m : CaseMap} {g : Goroutine} (started : Started m g) :
    (∀ key, wants key g = 0) ∧ Checked m g := by
  cases started with
  | quiet silent => exact ⟨quietWants silent,quietChecked silent⟩
  | brew clean => exact ⟨fun key => by cases key <;> rfl,clean⟩
  | stream => exact ⟨fun _ => rfl,trivial⟩
  | background => exact ⟨fun _ => rfl,trivial⟩
  | http => exact ⟨fun _ => rfl,trivial⟩
  | _ => exact ⟨fun key => by cases key <;> rfl,trivial⟩

theorem distinctPreserved (m : CaseMap) :
    Preserved (host m) (fun c t => NobodyAppending m c t ∧ Settled c) (Distinct m) := by
  refine ⟨?_,?_⟩
  · intro c call distinct
    obtain ⟨none,checked⟩ := startedDistinct (startCases m call)
    refine ⟨?_,?_⟩
    · intro key
      have same : load (wants key) (c.pool ++ [start m call]) = load (wants key) c.pool := by
        simp [none key]
      exact same ▸ distinct.single key
    · intro u mem
      rcases List.mem_append.mp mem with old | fresh
      · exact distinct.checked u old
      · rw [List.mem_singleton.mp fresh]
        exact checked
  · intro c i t k s' g new distinct found ⟨guard,settled⟩ stepped
    have mem : t ∈ c.pool := List.mem_of_getElem? found
    by_cases request : ∃ r, t = .request r
    · obtain ⟨r,rfl⟩ := request
      have step := Request.steps stepped
      obtain ⟨self,others⟩ := requestChecked (distinct.checked _ mem) step
      exact ⟨requestSingle distinct found guard step,everyStep distinct.checked self others⟩
    · have other : ∀ r, t ≠ .request r := fun r same => request ⟨r,same⟩
      obtain ⟨self,others⟩ := stepBarren other stepped
      have less : Fewer c.shared.queue s'.queue := by
        cases stepRows (settled t mem) stepped with
        | append here after => exact absurd here (other _)
        | retryAppend here after => exact absurd here (other _)
        | fewer less => exact less
      refine ⟨?_,everyStep distinct.checked (barrenChecked self) (fun u inside => barrenChecked (others u inside))⟩
      intro key
      refine singleFewer (distinct.single key) found less ?_
      have none := (loadZero (wants key) new).mpr (fun u inside => barrenWants (others u inside) key)
      rw [none,barrenWants self key]
      exact Nat.zero_le _

theorem distinctBoot (m : CaseMap) (installed : Installed) : Distinct m (boot installed) := by
  refine ⟨fun key => by simp [boot,liveOf],?_⟩
  intro t mem
  simp [boot] at mem

/- The pending and running rows that softwaresync made for one software, and
those that EnqueueBrewActions made for one kind and name. -/
def liveUnder (key : Key) (q : BulkQueue) : List QueueItem :=
  q.items.filter (fun it => it.live && made key it)

theorem liveUnderLength (key : Key) (q : BulkQueue) : (liveUnder key q).length = liveOf (made key) q :=
  List.countP_eq_length_filter.symm

theorem oneLiveRow (m : CaseMap) (installed : Installed) {events : List (Event Call Choice)}
    {c : Process} (guarded : Along (host m) (NobodyAppending m) (boot installed) events)
    (ran : run (host m) (boot installed) events = some c) :
    (∀ softwareID, (liveUnder (.software softwareID) c.shared.queue).length ≤ 1) ∧
    ∀ kind name, (liveUnder (.brew kind name) c.shared.queue).length ≤ 1 := by
  have settling := alongStrengthen (settledPreserved m (NobodyAppending m)) (settledBoot installed) guarded
  have distinct := runPreserved (distinctPreserved m) (distinctBoot m installed) settling ran
  have each : ∀ key, (liveUnder key c.shared.queue).length ≤ 1 := by
    intro key
    have single := distinct.single key
    rw [liveUnderLength]
    omega
  exact ⟨fun softwareID => each _,fun kind name => each _⟩

/- The second calls take their busy sets after the first ones have appended. -/
def missingAndBrew : List (Event Call Choice) :=
  ([.call (.enqueueMissingInstalls true [⟨"a","1"⟩])] : Events) ++ (List.replicate 6 (.step 0 {}) : Events) ++
    ([.call (.enqueueMissingInstalls true [⟨"a","1"⟩])] : Events) ++
    (List.replicate 4 (.step 1 {}) : Events) ++
    ([.call (.enqueueBrewActions true "install" ["wget"] "formula")] : Events) ++
    (List.replicate 3 (.step 2 {}) : Events) ++
    ([.call (.enqueueBrewActions true "upgrade" ["Wget"] "formula")] : Events) ++
    (List.replicate 2 (.step 3 {}) : Events)

theorem oneLiveRowRun : ∃ c, run (host ascii) (boot (fun _ => none)) missingAndBrew = some c ∧
    c.shared.queue.items.length = 2 ∧ (liveUnder (.software "a") c.shared.queue).length ≤ 1 ∧
    (liveUnder (.brew .formula "wget") c.shared.queue).length ≤ 1 := by
  obtain ⟨c,ran,two⟩ := (Option.any_eq_true _ _).mp
    (by decide : (run (host ascii) (boot (fun _ => none)) missingAndBrew).any
      (fun c => c.shared.queue.items.length == 2) = true)
  obtain ⟨softwares,brews⟩ := oneLiveRow ascii _ (by decide) ran
  exact ⟨c,ran,by simpa using two,softwares "a",brews .formula "wget"⟩

/- Both calls take their busy sets before either appends. -/
def missingTogether : List (Event Call Choice) :=
  ([.call (.enqueueMissingInstalls true [⟨"a","1"⟩]),.call (.enqueueMissingInstalls true [⟨"a","1"⟩])] : Events) ++
    ([.step 0 {},.step 1 {}] : Events) ++ (List.replicate 5 (.step 0 {}) : Events) ++
    (List.replicate 5 (.step 1 {}) : Events)

def brewTogether : List (Event Call Choice) :=
  ([.call (.enqueueBrewActions true "install" ["wget"] "formula"),
      .call (.enqueueBrewActions true "install" ["wget"] "formula")] : Events) ++
    ([.step 0 {},.step 1 {}] : Events) ++ (List.replicate 2 (.step 0 {}) : Events) ++
    (List.replicate 2 (.step 1 {}) : Events)

theorem twoLiveRows :
    (∃ c, run (host ascii) (boot (fun _ => none)) missingTogether = some c ∧
      1 < (liveUnder (.software "a") c.shared.queue).length) ∧
    ∃ c, run (host ascii) (boot (fun _ => none)) brewTogether = some c ∧
      1 < (liveUnder (.brew .formula "wget") c.shared.queue).length := by
  obtain ⟨c,ran,two⟩ := (Option.any_eq_true _ _).mp
    (by decide : (run (host ascii) (boot (fun _ => none)) missingTogether).any
      (fun c => 1 < (liveUnder (.software "a") c.shared.queue).length) = true)
  obtain ⟨d,ran',two'⟩ := (Option.any_eq_true _ _).mp
    (by decide : (run (host ascii) (boot (fun _ => none)) brewTogether).any
      (fun c => 1 < (liveUnder (.brew .formula "wget") c.shared.queue).length) = true)
  exact ⟨⟨c,ran,by simpa using two⟩,d,ran',by simpa using two'⟩

end ContainerWS.Install
