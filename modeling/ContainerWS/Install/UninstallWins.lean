import ContainerWS.Install.Rows

/-! EnqueueMissingInstalls against an uninstall. Each row softwaresync makes
remembers how many uninstalls of its software were marked when the installed
row was read. An uninstall wins when no pending row, and none the worker has
claimed, goes back to a read from before an uninstall that is over. -/
namespace ContainerWS.Install
open Interleaving GoStrings

/- The software and the time of the read behind a row of softwaresync. -/
def itemRead (it : QueueItem) : Option (String × Nat) :=
  match it.origin with
  | .missing readAt => some (it.softwareID,readAt)
  | _ => none

def headRead (call : MissingCall) (readAt : Nat) : List (String × Nat) :=
  match call.todo with
  | [] => []
  | item::_ => [(trimSpace item.softwareID,readAt)]

/- The read whose row is still to be decided. -/
def reads : Goroutine → List (String × Nat)
  | .request (.missingManager call readAt) => headRead call readAt
  | .request (.missingLatest call readAt) => headRead call readAt
  | .request (.missingActive call readAt _) => headRead call readAt
  | _ => []

/- Rows on their way into the queue, and the one the worker has claimed. -/
def carried : Goroutine → List QueueItem
  | .request r => r.cargo
  | .worker w => w.item.toList
  | _ => []

def inFlight (t : Goroutine) : List (String × Nat) := reads t ++ (carried t).filterMap itemRead

def runCancels (run : ScriptRun) : Option (String × Nat) :=
  match run.point with
  | .cancelPending mark => some (run.softwareID,mark)
  | _ => none

/- The cancel pass a goroutine is about to make, with the mark it follows. -/
def cancels : Goroutine → Option (String × Nat)
  | .worker (.annotate _ run) => runCancels run
  | .worker (.script _ run) => runCancels run
  | .install run => runCancels run
  | .request (.switchCancel softwareID mark _) => mark.map (fun n => (softwareID,n))
  | _ => none

/- The cancel pass finds nothing of its software in flight from before its mark. -/
def NothingInFlight (c : Process) (t : Goroutine) : Prop :=
  ∀ p ∈ cancels t, ∀ u ∈ c.pool, ∀ q ∈ inFlight u, q.1 = p.1 → p.2 ≤ q.2

instance (c : Process) (t : Goroutine) : Decidable (NothingInFlight c t) := by
  unfold NothingInFlight
  infer_instance

/- The read came after every uninstall that is over. -/
def InTime (completed : String → Nat) (p : String × Nat) : Prop :=
  p.1 ≠ "" ∧ trimSpace p.1 = p.1 ∧ completed p.1 ≤ p.2

instance (completed : String → Nat) (p : String × Nat) : Decidable (InTime completed p) := by
  unfold InTime
  infer_instance

def RowInTime (completed : String → Nat) (it : QueueItem) : Prop :=
  ∀ p ∈ itemRead it, it.action = .install ∧ InTime completed p

instance (completed : String → Nat) (it : QueueItem) : Decidable (RowInTime completed it) := by
  unfold RowInTime
  infer_instance

def late (completed : String → Nat) (it : QueueItem) : Bool := !decide (RowInTime completed it)

theorem lateKind (completed : String → Nat) : Kind (late completed) := fun _ _ _ _ _ => rfl

/- What a goroutine may have in hand. -/
structure Timely (h : History) (t : Goroutine) : Prop where
  carried : ∀ it ∈ carried t, RowInTime h.completed it
  reads : ∀ p ∈ reads t, InTime h.completed p
  cancels : ∀ p ∈ cancels t, p.2 ≤ h.marks p.1

structure Wins (c : Process) : Prop where
  rows : pendingOf (late c.shared.history.completed) c.shared.queue = 0
  marked : ∀ softwareID, c.shared.history.completed softwareID ≤ c.shared.history.marks softwareID
  timely : ∀ t ∈ c.pool, Timely c.shared.history t

theorem noneLate {completed : String → Nat} {q : BulkQueue} (rows : pendingOf (late completed) q = 0)
    {it : QueueItem} (mem : it ∈ q.items) (isPending : it.pending = true) : RowInTime completed it := by
  have all := List.countP_eq_zero.mp rows it mem
  simpa [isPending,late] using all

/- Later marks and the same cancel passes spoil nothing. -/
theorem timelyLater {h h' : History} (completed : h'.completed = h.completed)
    (marks : ∀ softwareID, h.marks softwareID ≤ h'.marks softwareID) {t : Goroutine} (timely : Timely h t) :
    Timely h' t := by
  refine ⟨?_,?_,fun p mem => Nat.le_trans (timely.cancels p mem) (marks p.1)⟩
  · rw [completed]
    exact timely.carried
  · rw [completed]
    exact timely.reads

/- A cancel pass spoils only what was read before its mark. -/
theorem inTimeComplete {completed : String → Nat} {softwareID : String} {mark : Nat} {p : String × Nat}
    (inTime : InTime completed p) (after : p.1 = softwareID → mark ≤ p.2) :
    InTime (Function.update completed softwareID (max (completed softwareID) mark)) p := by
  refine ⟨inTime.1,inTime.2.1,?_⟩
  rw [Function.update_apply]
  split
  · rename_i same
    have known := inTime.2.2
    rw [same] at known
    exact max_le known (after same)
  · exact inTime.2.2

theorem plainRow {completed : String → Nat} {it : QueueItem} (none : itemRead it = none) :
    RowInTime completed it := by
  intro p read
  rw [none] at read
  contradiction

theorem emptyHands {h : History} {g : Goroutine} (rows : carried g = []) (noRead : reads g = [])
    (noCancel : cancels g = none) : Timely h g := by
  refine ⟨?_,?_,?_⟩ <;> simp [rows,noRead,noCancel]

theorem quietHands {g : Goroutine} (silent : g.quiet = true) :
    carried g = [] ∧ reads g = [] ∧ cancels g = none := by
  cases g with
  | request r =>
    cases r <;> simp only [Goroutine.quiet,Request.quiet] at silent <;> try contradiction
    all_goals try exact ⟨rfl,rfl,rfl⟩
    rename_i softwareID mark action
    cases mark with
    | none => exact ⟨rfl,rfl,rfl⟩
    | some n => contradiction
  | done => exact ⟨rfl,rfl,rfl⟩
  | _ => contradiction

theorem quietTimely {h : History} {g : Goroutine} (silent : g.quiet = true) : Timely h g := by
  obtain ⟨rows,noRead,noCancel⟩ := quietHands silent
  exact emptyHands rows noRead noCancel

theorem missingCarried {r : Request} {call : MissingCall} (at_ : r.missingCall = some call) :
    carried (.request r) = call.candidates := by
  cases r <;> simp_all [Request.missingCall,carried,Request.cargo]

theorem missingReadCarried {r : Request} {call : MissingCall} {readAt : Nat}
    (at_ : r.missingRead = some (call,readAt)) :
    carried (.request r) = call.candidates ∧ reads (.request r) = headRead call readAt := by
  cases r <;> simp_all [Request.missingRead,carried,Request.cargo,reads]

theorem newItemsPlain {drawn : Nat} {action : Action} {ids : List String} {it : QueueItem}
    (mem : it ∈ newItems drawn action ids) : itemRead it = none := by
  induction ids generalizing drawn with
  | nil => contradiction
  | cons s rest ih =>
    rcases List.mem_cons.mp mem with rfl | inside
    · rfl
    · exact ih inside

theorem brewAddedPlain {drawn : Nat} {action : Action} {kind : BrewKind} {busy names : List String}
    {it : QueueItem} (mem : it ∈ brewAdded drawn action kind busy names) : itemRead it = none := by
  induction names generalizing drawn busy with
  | nil => contradiction
  | cons name rest ih =>
    simp only [brewAdded] at mem
    split at mem
    · exact ih mem
    · rcases List.mem_cons.mp mem with rfl | inside
      · rfl
      · exact ih inside

theorem retryRowPlain {id : UUID} {found : Option QueueItem} {softwareID : String} {action : Action}
    {item : QueueItem} (row : retryRow id found softwareID action = some item) : itemRead item = none := by
  unfold retryRow at row
  split at row
  · split at row
    · cases Option.some.inj row
      rfl
    · split at row <;> try contradiction
      cases Option.some.inj row
      rfl
  · split at row <;> try contradiction
    cases Option.some.inj row
    rfl

/- The rows in hand and the reads stay, and no cancel pass is ahead. -/
theorem timelySame {h : History} {t g : Goroutine} (timely : Timely h t) (rows : carried g = carried t)
    (same : reads g = reads t ∨ reads g = []) (noCancel : cancels g = none) : Timely h g := by
  refine ⟨?_,?_,?_⟩
  · rw [rows]
    exact timely.carried
  · rcases same with same | none
    · rw [same]
      exact timely.reads
    · simp [none]
  · simp [noCancel]

theorem timelyMore {h : History} {t g : Goroutine} {item : QueueItem} (timely : Timely h t)
    (rows : carried g = carried t ++ [item]) (last : RowInTime h.completed item)
    (noRead : reads g = []) (noCancel : cancels g = none) : Timely h g := by
  refine ⟨?_,by simp [noRead],by simp [noCancel]⟩
  rw [rows]
  intro it mem
  rcases List.mem_append.mp mem with old | fresh
  · exact timely.carried it old
  · rw [List.mem_singleton.mp fresh]
    exact last

/- What a request has in hand after a step. -/
theorem requestTimely {m : CaseMap} {s s' : Shared} {r : Request} {g : Goroutine} {new : List Goroutine}
    (marked : ∀ softwareID, s.history.completed softwareID ≤ s.history.marks softwareID)
    (timely : Timely s.history (.request r)) (step : Request.Step m s r s' g new) :
    (∀ softwareID, s.history.marks softwareID ≤ s'.history.marks softwareID) ∧
    Timely s'.history g ∧ ∀ u ∈ new, Timely s'.history u := by
  have still : ∀ x, s.history.marks x ≤ s.history.marks x := fun _ => Nat.le_refl _
  cases step with
  | leave calm => exact ⟨still,emptyHands rfl rfl rfl,by simp⟩
  | quiet ids before after => exact ⟨still,quietTimely after,by simp⟩
  | retryFind after => exact ⟨still,quietTimely after,by simp⟩
  | dismissRows ids after => exact ⟨still,quietTimely after,by simp⟩
  | switchCancel after => exact ⟨still,quietTimely after,by simp⟩
  | switchComplete after => exact ⟨still,quietTimely after,by simp⟩
  | apiAppend => exact ⟨still,timelySame timely rfl (.inl rfl) rfl,by simp⟩
  | apiSkip => exact ⟨still,timelySame timely rfl (.inl rfl) rfl,by simp⟩
  | apiItem => exact ⟨still,timelyMore timely rfl (plainRow rfl) rfl rfl,by simp⟩
  | actions =>
    exact ⟨still,⟨fun _ mem => plainRow (newItemsPlain mem),by simp [reads],by simp [cancels]⟩,by simp⟩
  | brewItems made =>
    subst made
    exact ⟨still,⟨fun _ mem => plainRow (brewAddedPlain mem),by simp [reads],by simp [cancels]⟩,by simp⟩
  | retryItem row =>
    refine ⟨still,⟨?_,by simp [reads],by simp [cancels]⟩,by simp⟩
    intro it mem
    rw [List.mem_singleton.mp mem]
    exact plainRow (retryRowPlain row)
  | missingAppend last => exact ⟨still,timelySame timely rfl (.inr rfl) rfl,by simp⟩
  | missingSkip at_ todo =>
    exact ⟨still,timelySame timely (missingCarried at_).symm (.inr rfl) rfl,by simp⟩
  | missingFlag todo named =>
    refine ⟨still,⟨timely.carried,?_,by simp [cancels]⟩,by simp⟩
    intro p mem
    simp only [reads,headRead,todo,List.mem_singleton] at mem
    subst mem
    exact ⟨named,trimSpaceTwice _,marked _⟩
  | missingFree todo free => exact ⟨still,timelySame timely rfl (.inl rfl) rfl,by simp⟩
  | missingFound => exact ⟨still,timelySame timely rfl (.inl rfl) rfl,by simp⟩
  | missingCandidate at_ todo =>
    obtain ⟨rows,read⟩ := missingReadCarried at_
    have here := timely.reads
    simp only [read,headRead,todo,List.mem_singleton,forall_eq] at here
    refine ⟨still,timelyMore timely (by rw [rows]; rfl) ?_ rfl rfl,by simp⟩
    intro p same
    cases Option.some.inj same
    exact ⟨rfl,here⟩
  | switchMark =>
    refine ⟨?_,⟨by simp [carried,Request.cargo],by simp [reads],?_⟩,by simp⟩
    · intro x
      simp only [Shared.mark,Function.update_apply]
      split
      · rename_i same
        subst same
        exact Nat.le_succ _
      · exact Nat.le_refl _
    · intro p mem
      cases Option.some.inj mem
      simp [Shared.mark]
  | spawn =>
    exact ⟨still,emptyHands rfl rfl rfl,fun u mem => by
      rw [List.mem_singleton.mp mem]
      exact emptyHands rfl rfl rfl⟩
  | _ => exact ⟨still,emptyHands rfl rfl rfl,by simp⟩

theorem plainCancels {run : ScriptRun} {point : ScriptPoint} (plain : point.plain = true) :
    runCancels (run.at point) = none := by
  cases point <;> simp_all [ScriptPoint.plain,runCancels,ScriptRun.at]

/- Away from the cancel pass a run completes nothing, and a pass it comes to
follows the mark it has just made. -/
theorem scriptMarks {s s' : Shared} {run : ScriptRun} {point : Option ScriptPoint}
    (free : runCancels run = none) (step : run.Step s s' point) :
    s'.history.completed = s.history.completed ∧
    (∀ softwareID, s.history.marks softwareID ≤ s'.history.marks softwareID) ∧
    ∀ next ∈ point, ∀ p ∈ runCancels (run.at next), p.2 ≤ s'.history.marks p.1 := by
  have still : ∀ x, s.history.marks x ≤ s.history.marks x := fun _ => Nat.le_refl _
  cases step with
  | lock here unlocked => exact ⟨rfl,still,by simp [runCancels,ScriptRun.at]⟩
  | move inside onward => exact ⟨rfl,still,by simp [plainCancels onward]⟩
  | mark here =>
    refine ⟨rfl,?_,?_⟩
    · intro x
      simp only [Shared.mark,Function.update_apply]
      split
      · rename_i same
        subst same
        exact Nat.le_succ _
      · exact Nat.le_refl _
    · intro next same p mem
      cases Option.some.inj same
      cases Option.some.inj mem
      simp [Shared.mark,ScriptRun.at]
  | cancel here => simp [runCancels,here] at free
  | installed rows here onward => exact ⟨rfl,still,by simp [plainCancels onward]⟩
  | finish here => exact ⟨rfl,still,by simp [runCancels,ScriptRun.at]⟩
  | unlock here => exact ⟨rfl,still,by simp⟩

theorem claimRow {q q' : BulkQueue} {row : QueueItem} (claimed : claimNextQueueItem q = some (row,q')) :
    ∃ it ∈ q.items, it.pending = true ∧ row = startRow it := by
  unfold claimNextQueueItem at claimed
  split at claimed <;> try contradiction
  rename_i found
  cases Option.some.inj claimed
  obtain ⟨it,mem,isPending,same,_⟩ := claimCount (fun _ => true) found
  exact ⟨it,mem,isPending,same⟩

theorem dispatchHands (it : QueueItem) : carried (.worker (dispatch it)) = [it] ∧
    reads (.worker (dispatch it)) = [] ∧ cancels (.worker (dispatch it)) = none := by
  unfold dispatch
  split <;> exact ⟨rfl,rfl,rfl⟩

theorem workerTimely {s s' : Shared} {w : Worker} {g : Goroutine} {new : List Goroutine}
    (rows : pendingOf (late s.history.completed) s.queue = 0)
    (timely : Timely s.history (.worker w)) (free : ∀ it run, w = .script it run → runCancels run = none)
    (step : Worker.Step s w s' g new) :
    s'.history.completed = s.history.completed ∧
    (∀ softwareID, s.history.marks softwareID ≤ s'.history.marks softwareID) ∧
    Timely s'.history g ∧ ∀ u ∈ new, Timely s'.history u := by
  have still : ∀ x, s.history.marks x ≤ s.history.marks x := fun _ => Nat.le_refl _
  cases step with
  | claim claimed =>
    rename_i row q
    obtain ⟨hands,noRead,noCancel⟩ := dispatchHands row
    refine ⟨rfl,still,⟨?_,by simp [noRead],by simp [noCancel]⟩,by simp⟩
    rw [hands]
    intro it mem
    obtain ⟨old,inside,isPending,rfl⟩ := claimRow claimed
    rw [List.mem_singleton.mp mem]
    have inTime := noneLate rows inside isPending
    exact inTime
  | giveUp holds final early =>
    refine ⟨rfl,still,timelySame timely ?_ (.inr rfl) rfl,by simp⟩
    simp only [carried,holds]
    rfl
  | annotate => exact ⟨rfl,still,⟨timely.carried,by simp [reads],timely.cancels⟩,by simp⟩
  | script inner =>
    obtain ⟨completed,marks,ahead⟩ := scriptMarks (free _ _ rfl) inner
    refine ⟨completed,marks,⟨?_,by simp [reads],ahead _ rfl⟩,by simp⟩
    rw [completed]
    exact timely.carried
  | scripted inner =>
    obtain ⟨completed,marks,_⟩ := scriptMarks (free _ _ rfl) inner
    refine ⟨completed,marks,⟨?_,by simp [reads],by simp [cancels]⟩,?_⟩
    · rw [completed]
      exact timely.carried
    · intro u mem
      rw [List.mem_singleton.mp mem]
      exact emptyHands rfl rfl rfl
  | finish => exact ⟨rfl,still,emptyHands rfl rfl rfl,by simp⟩
  | rekick more => exact ⟨rfl,still,emptyHands rfl rfl rfl,by simp⟩
  | quit none => exact ⟨rfl,still,emptyHands rfl rfl rfl,by simp⟩
  | _ => exact ⟨rfl,still,timelySame timely rfl (.inl rfl) rfl,by simp⟩

theorem installTimely {s s' : Shared} {run : ScriptRun} {g : Goroutine} {new : List Goroutine}
    (free : runCancels run = none) (step : InstallStep s run s' g new) :
    s'.history.completed = s.history.completed ∧
    (∀ softwareID, s.history.marks softwareID ≤ s'.history.marks softwareID) ∧
    Timely s'.history g ∧ ∀ u ∈ new, Timely s'.history u := by
  cases step with
  | script inner =>
    obtain ⟨completed,marks,ahead⟩ := scriptMarks free inner
    exact ⟨completed,marks,⟨by simp [carried],by simp [reads],ahead _ rfl⟩,by simp⟩
  | scripted inner =>
    obtain ⟨completed,marks,_⟩ := scriptMarks free inner
    refine ⟨completed,marks,emptyHands rfl rfl rfl,?_⟩
    intro u mem
    rw [List.mem_singleton.mp mem]
    exact emptyHands rfl rfl rfl

theorem itemReadOwn {it : QueueItem} {p : String × Nat} (read : p ∈ itemRead it) : it.softwareID = p.1 := by
  unfold itemRead at read
  split at read
  · cases Option.some.inj read
    rfl
  · simp at read

/- The cancel pass takes every pending row of its software that softwaresync made. -/
theorem cancelRows {completed : String → Nat} {q : BulkQueue} (softwareID : String) (mark : Nat)
    (rows : pendingOf (late completed) q = 0) :
    pendingOf (late (Function.update completed softwareID (max (completed softwareID) mark)))
      (cancelPendingInstallsForSoftware q softwareID).1 = 0 := by
  refine List.countP_eq_zero.mpr ?_
  intro it mem wrong
  simp only [Bool.and_eq_true,late,Bool.not_eq_true',decide_eq_false_iff_not] at wrong
  obtain ⟨isPending,isLate⟩ := wrong
  have inside : it ∈ q.items ∧ (trimSpace softwareID ≠ "" → pendingInstall (trimSpace softwareID) it = false) := by
    unfold cancelPendingInstallsForSoftware at mem
    split at mem
    · exact ⟨mem,fun named => absurd (by assumption) named⟩
    · have kept := List.mem_filter.mp mem
      exact ⟨kept.1,fun _ => by simpa using kept.2⟩
  have inTime := noneLate rows inside.1 isPending
  apply isLate
  intro p read
  obtain ⟨action,before⟩ := inTime p read
  refine ⟨action,inTimeComplete before ?_⟩
  intro same
  have own := itemReadOwn read
  have named : trimSpace softwareID ≠ "" := by
    rw [← same,before.2.1]
    exact before.1
  have gone := inside.2 named
  have status : it.status = .pending := by simpa [QueueItem.pending] using isPending
  simp [pendingInstall,own,same.symm,before.2.1,action,status] at gone

/- A goroutine that has nothing of the software in hand from before the mark. -/
theorem timelyComplete {h h' : History} {softwareID : String} {mark : Nat} {t : Goroutine}
    (completed : h'.completed = Function.update h.completed softwareID (max (h.completed softwareID) mark))
    (marks : h'.marks = h.marks) (timely : Timely h t)
    (after : ∀ q ∈ inFlight t, q.1 = softwareID → mark ≤ q.2) : Timely h' t := by
  refine ⟨?_,?_,?_⟩
  · intro it mem p read
    obtain ⟨action,before⟩ := timely.carried it mem p read
    rw [completed]
    refine ⟨action,inTimeComplete before (after p ?_)⟩
    exact List.mem_append_right _ (List.mem_filterMap.mpr ⟨it,mem,read⟩)
  · intro p mem
    rw [completed]
    exact inTimeComplete (timely.reads p mem) (after p (List.mem_append_left _ mem))
  · rw [marks]
    exact timely.cancels

theorem markedComplete {h : History} {softwareID : String} {mark : Nat}
    (marked : ∀ x, h.completed x ≤ h.marks x) (ahead : mark ≤ h.marks softwareID) (x : String) :
    Function.update h.completed softwareID (max (h.completed softwareID) mark) x ≤ h.marks x := by
  rw [Function.update_apply]
  split
  · rename_i same
    subst same
    exact max_le (marked x) ahead
  · exact marked x

theorem winsComplete {s s' : Shared} {pool : List Goroutine} {i : Nat} {t g : Goroutine}
    {softwareID : String} {mark : Nat} (wins : Wins ⟨s,pool⟩) (found : pool[i]? = some t)
    (pass : cancels t = some (softwareID,mark)) (guard : NothingInFlight ⟨s,pool⟩ t)
    (queue : s'.queue = (cancelPendingInstallsForSoftware s.queue softwareID).1)
    (completed : s'.history.completed =
      Function.update s.history.completed softwareID (max (s.history.completed softwareID) mark))
    (marks : s'.history.marks = s.history.marks) (hands : carried g = carried t)
    (noRead : reads g = []) (noCancel : cancels g = none) : Wins ⟨s',pool.set i g ++ []⟩ := by
  have ahead : mark ≤ s.history.marks softwareID :=
    (wins.timely t (List.mem_of_getElem? found)).cancels _ pass
  have others : ∀ u ∈ pool, Timely s'.history u := by
    intro u mem
    exact timelyComplete completed marks (wins.timely u mem) (guard _ pass u mem)
  refine ⟨?_,?_,everyStep others ?_ (by simp)⟩
  · rw [queue,completed]
    exact cancelRows softwareID mark wins.rows
  · rw [completed,marks]
    exact markedComplete wins.marked ahead
  · exact timelySame (others t (List.mem_of_getElem? found)) hands (.inr noRead) noCancel

theorem winsKeep {s s' : Shared} {pool new : List Goroutine} {i : Nat} {g : Goroutine}
    (wins : Wins ⟨s,pool⟩) (rows : pendingOf (late s.history.completed) s'.queue = 0)
    (hands : s'.history.completed = s.history.completed ∧
      (∀ softwareID, s.history.marks softwareID ≤ s'.history.marks softwareID) ∧
      Timely s'.history g ∧ ∀ u ∈ new, Timely s'.history u) : Wins ⟨s',pool.set i g ++ new⟩ := by
  obtain ⟨completed,marks,self,others⟩ := hands
  refine ⟨?_,?_,everyStep (fun u mem => timelyLater completed marks (wins.timely u mem)) self others⟩
  · rw [completed]
    exact rows
  · intro x
    rw [completed]
    exact Nat.le_trans (wins.marked x) (marks x)

/- Rows that enter are in time, and the rest of the rows get fewer. -/
theorem rowsInTime {t : Goroutine} {q q' : BulkQueue} {h : History} (step : RowStep t q q')
    (timely : Timely h t) (rows : pendingOf (late h.completed) q = 0) :
    pendingOf (late h.completed) q' = 0 := by
  have grown : ∀ added : List QueueItem, (∀ it ∈ added, RowInTime h.completed it) →
      (q.items ++ added).countP (fun it => it.pending && late h.completed it) = 0 := by
    intro added fresh
    have none : added.countP (fun it => it.pending && late h.completed it) = 0 := by
      rw [List.countP_eq_zero]
      intro it mem wrong
      simp [late,fresh it mem] at wrong
    rw [List.countP_append,none]
    exact rows
  cases step with
  | append here after =>
    rename_i db added
    subst here after
    have whole := grown added timely.carried
    have split := boundedCount (fun it => it.pending && late h.completed it) (q.items ++ added)
    simp only [pendingOf,BulkQueue.append]
    omega
  | retryAppend here after =>
    rename_i db item
    subst here after
    exact grown [item] timely.carried
  | fewer less =>
    have counts := less.pending _ (lateKind h.completed)
    omega

theorem setupTimely {k : Choice} {s s' : Shared} {v : Setup} {g : Goroutine} {new : List Goroutine}
    (stepped : v.next k s = some (s',g,new)) :
    s'.history.completed = s.history.completed ∧
    (∀ softwareID, s.history.marks softwareID ≤ s'.history.marks softwareID) ∧
    Timely s'.history g ∧ ∀ u ∈ new, Timely s'.history u := by
  obtain ⟨_,_,_,_,history,_,self,others⟩ := setupFrame stepped
  rw [history]
  refine ⟨rfl,fun _ => Nat.le_refl _,?_,?_⟩
  · rcases self with rfl | ⟨w,rfl⟩ <;> exact emptyHands rfl rfl rfl
  · intro u mem
    obtain ⟨w,rfl⟩ := others u mem
    exact emptyHands rfl rfl rfl

theorem startedHands {h : History} {m : CaseMap} {g : Goroutine} (started : Started m g) : Timely h g := by
  cases started with
  | quiet silent => exact quietTimely silent
  | _ => exact emptyHands rfl rfl rfl

theorem requestWins {m : CaseMap} {s s' : Shared} {r : Request} {g : Goroutine} {pool new : List Goroutine}
    {i : Nat} (wins : Wins ⟨s,pool⟩) (found : pool[i]? = some (.request r))
    (guard : NothingInFlight ⟨s,pool⟩ (.request r)) (rows : RowStep (.request r) s.queue s'.queue)
    (step : Request.Step m s r s' g new) : Wins ⟨s',pool.set i g ++ new⟩ := by
  have timely := wins.timely _ (List.mem_of_getElem? found)
  have inTime := rowsInTime rows timely wins.rows
  have hands := requestTimely wins.marked timely step
  cases step with
  | switchComplete after =>
    obtain ⟨none,noRead,noCancel⟩ := quietHands after
    exact winsComplete wins found rfl guard rfl rfl rfl none noRead noCancel
  | _ => exact winsKeep wins inTime ⟨rfl,hands⟩

/- A run at its cancel pass makes it and goes on to `finish`. -/
theorem scriptCancels {s s' : Shared} {run : ScriptRun} {point : Option ScriptPoint} {mark : Nat}
    (here : run.point = .cancelPending mark) (step : run.Step s s' point) :
    s' = (s.cancel run.softwareID).complete run.softwareID mark ∧
    ∃ message, point = some (.finish .success message) := by
  cases step with
  | cancel now =>
    rw [here] at now
    cases now
    exact ⟨rfl,_,rfl⟩
  | move inside onward =>
    rw [here] at inside
    exact absurd inside.1 (by simp [ScriptPoint.plain])
  | _ => simp_all

theorem runCancelsAt {run : ScriptRun} {p : String × Nat} (pass : runCancels run = some p) :
    ∃ mark, run.point = .cancelPending mark ∧ p = (run.softwareID,mark) := by
  unfold runCancels at pass
  split at pass <;> try contradiction
  cases Option.some.inj pass
  exact ⟨_,by assumption,rfl⟩

theorem workerWins {s s' : Shared} {w : Worker} {g : Goroutine} {pool new : List Goroutine} {i : Nat}
    (wins : Wins ⟨s,pool⟩) (found : pool[i]? = some (.worker w))
    (guard : NothingInFlight ⟨s,pool⟩ (.worker w)) (rows : RowStep (.worker w) s.queue s'.queue)
    (step : Worker.Step s w s' g new) : Wins ⟨s',pool.set i g ++ new⟩ := by
  have timely := wins.timely _ (List.mem_of_getElem? found)
  have inTime := rowsInTime rows timely wins.rows
  by_cases free : ∀ it run, w = .script it run → runCancels run = none
  · exact winsKeep wins inTime (workerTimely wins.rows timely free step)
  · push Not at free
    obtain ⟨it,run,rfl,some⟩ := free
    obtain ⟨p,pass⟩ := Option.ne_none_iff_exists'.mp some
    obtain ⟨mark,here,rfl⟩ := runCancelsAt pass
    cases step with
    | giveUp holds final early => contradiction
    | script inner =>
      obtain ⟨rfl,message,same⟩ := scriptCancels here inner
      cases Option.some.inj same
      exact winsComplete wins found pass guard rfl rfl rfl rfl rfl rfl
    | scripted inner =>
      obtain ⟨_,message,same⟩ := scriptCancels here inner
      contradiction

theorem installWins {s s' : Shared} {run : ScriptRun} {g : Goroutine} {pool new : List Goroutine} {i : Nat}
    (wins : Wins ⟨s,pool⟩) (found : pool[i]? = some (.install run))
    (guard : NothingInFlight ⟨s,pool⟩ (.install run)) (rows : RowStep (.install run) s.queue s'.queue)
    (step : InstallStep s run s' g new) : Wins ⟨s',pool.set i g ++ new⟩ := by
  have timely := wins.timely _ (List.mem_of_getElem? found)
  have inTime := rowsInTime rows timely wins.rows
  cases pass : runCancels run with
  | none => exact winsKeep wins inTime (installTimely pass step)
  | some p =>
    obtain ⟨mark,here,rfl⟩ := runCancelsAt pass
    cases step with
    | script inner =>
      obtain ⟨rfl,message,same⟩ := scriptCancels here inner
      cases Option.some.inj same
      exact winsComplete wins found pass guard rfl rfl rfl rfl rfl rfl
    | scripted inner =>
      obtain ⟨_,message,same⟩ := scriptCancels here inner
      contradiction

theorem streamTimely {s s' : Shared} {v : Stream} {g : Goroutine} {new : List Goroutine}
    (step : Stream.Step s v s' g new) :
    s'.history.completed = s.history.completed ∧
    (∀ softwareID, s.history.marks softwareID ≤ s'.history.marks softwareID) ∧
    Timely s'.history g ∧ ∀ u ∈ new, Timely s'.history u := by
  have still : ∀ x, s.history.marks x ≤ s.history.marks x := fun _ => Nat.le_refl _
  cases step with
  | register =>
    refine ⟨rfl,still,emptyHands rfl rfl rfl,?_⟩
    intro u mem
    rw [List.mem_singleton.mp mem]
    exact emptyHands rfl rfl rfl
  | _ => exact ⟨rfl,still,emptyHands rfl rfl rfl,by simp⟩

theorem winsPreserved (m : CaseMap) :
    Preserved (host m) (fun c t => NothingInFlight c t ∧ Settled c) Wins := by
  refine ⟨?_,?_⟩
  · intro c call wins
    refine ⟨wins.rows,wins.marked,?_⟩
    intro u mem
    rcases List.mem_append.mp mem with old | fresh
    · exact wins.timely u old
    · rw [List.mem_singleton.mp fresh]
      exact startedHands (startCases m call)
  · intro c i t k s' g new wins found ⟨guard,settled⟩ stepped
    have mem : t ∈ c.pool := List.mem_of_getElem? found
    have rows := stepRows (settled t mem) stepped
    have inTime := rowsInTime rows (wins.timely t mem) wins.rows
    cases t with
    | request r => exact requestWins wins found guard rows (Request.steps stepped)
    | worker w => exact workerWins wins found guard rows (Worker.steps stepped)
    | stream v => exact winsKeep wins inTime (streamTimely (Stream.steps stepped))
    | install run => exact installWins wins found guard rows (installSteps stepped)
    | prune job =>
      cases stepped
      exact winsKeep wins inTime ⟨rfl,fun _ => Nat.le_refl _,emptyHands rfl rfl rfl,by simp⟩
    | setup v => exact winsKeep wins inTime (setupTimely stepped)
    | done => contradiction

theorem winsBoot (installed : Installed) : Wins (boot installed) := by
  refine ⟨rfl,fun _ => Nat.le_refl _,?_⟩
  intro t mem
  simp [boot] at mem

/- Neither waiting nor with the worker is a row that softwaresync made from a
read before an uninstall that is over. -/
structure UninstallWon (c : Process) : Prop where
  pending : ∀ it ∈ c.shared.queue.items, it.status = .pending → ∀ p ∈ itemRead it,
    c.shared.history.completed p.1 ≤ p.2
  claimed : ∀ w, Goroutine.worker w ∈ c.pool → ∀ it ∈ w.item, ∀ p ∈ itemRead it,
    c.shared.history.completed p.1 ≤ p.2

theorem uninstallWins (m : CaseMap) (installed : Installed) {events : List (Event Call Choice)}
    {c : Process} (guarded : Along (host m) NothingInFlight (boot installed) events)
    (ran : run (host m) (boot installed) events = some c) : UninstallWon c := by
  have settling := alongStrengthen (settledPreserved m NothingInFlight) (settledBoot installed) guarded
  have wins := runPreserved (winsPreserved m) (winsBoot installed) settling ran
  refine ⟨?_,?_⟩
  · intro it mem status p read
    have inTime := noneLate wins.rows mem (by simp [QueueItem.pending,status])
    exact (inTime p read).2.2.2
  · intro w mem it holds p read
    have inTime := (wins.timely _ mem).carried it (by simpa [carried] using holds)
    exact (inTime p read).2.2.2

/- The row of softwaresync is pending when the switch marks and cancels. -/
def missingThenSwitch : List (Event Call Choice) :=
  ([.call (.enqueueMissingInstalls true [⟨"a","1"⟩])] : Events) ++ (List.replicate 6 (.step 0 {}) : Events) ++
    ([.call (.switchToLocal "a")] : Events) ++ (List.replicate 2 (.step 1 {}) : Events)

theorem uninstallWinsRun : ∃ c, run (host ascii) (boot (fun _ => none)) missingThenSwitch = some c ∧
    c.shared.history.completed "a" = 1 ∧ UninstallWon c := by
  have finished : (run (host ascii) (boot (fun _ => none)) missingThenSwitch).any
      (fun c => c.shared.history.completed "a" == 1) = true := by decide
  obtain ⟨c,ran,completed⟩ := (Option.any_eq_true _ _).mp finished
  exact ⟨c,ran,by simpa using completed,uninstallWins ascii _ (by decide) ran⟩

/- The flag is read, the software uninstalled through the queue, and the row of
the old read appended. -/
def uninstallBetween : List (Event Call Choice) :=
  ([.call (.enqueueMissingInstalls true [⟨"a","1"⟩])] : Events) ++ (List.replicate 2 (.step 0 {}) : Events) ++
    ([.call (.enqueueActions true "uninstall" ["a"])] : Events) ++ (List.replicate 4 (.step 1 {}) : Events) ++
    (List.replicate 16 (.step 2 {}) : Events) ++ (List.replicate 5 (.step 0 {}) : Events)

def ownedLocally : Installed :=
  fun softwareID => if softwareID = "a" then some ⟨"1",.packageManagerLocal,false,false⟩ else none

/- A pending row that an uninstall should have kept out. -/
def overtaken (c : Process) : Bool :=
  c.shared.queue.items.any (fun it =>
    it.status == .pending && (itemRead it).any (fun p => p.2 < c.shared.history.completed p.1))

theorem overtakenLost {c : Process} (found : overtaken c = true) : ¬UninstallWon c := by
  intro won
  simp only [overtaken,List.any_eq_true,Bool.and_eq_true,beq_iff_eq,Option.any_eq_true,decide_eq_true_eq] at found
  obtain ⟨it,mem,status,p,read,before⟩ := found
  have after := won.pending it mem status p read
  omega

theorem uninstallLoses : ∃ c, run (host ascii) (boot ownedLocally) uninstallBetween = some c ∧
    ¬UninstallWon c := by
  obtain ⟨c,ran,found⟩ := (Option.any_eq_true _ _).mp
    (by decide +kernel : (run (host ascii) (boot ownedLocally) uninstallBetween).any overtaken = true)
  exact ⟨c,ran,overtakenLost found⟩

end ContainerWS.Install
