import ContainerWS.Install.Ledger

/-! One row of the queue from its append to its end. Other callers can take it away: the window,
a retry of it, a dismissal. Where they do not, it waits, is held by one worker, and stays behind
only when that worker ends it in error. -/
namespace ContainerWS.Install
open Interleaving GoStrings

section
variable {P : UUID → Prop}

theorem requestMade {m : CaseMap} {s s' : Shared} {r : Request} {g : Goroutine} {new : List Goroutine}
    (old : ∀ it ∈ r.cargo, P it.id) (fresh : ∀ id, s.drawn ≤ id → id < s'.drawn → P id)
    (step : Request.Step m s r s' g new) : (∀ it ∈ cargo g, P it.id) ∧ ∀ u ∈ new, cargo u = [] := by
  have silent {g : Goroutine} (after : g.quiet = true) : ∀ it ∈ cargo g, P it.id := by
    rw [(quietCargo after).1]
    simp
  have ranged {added : List QueueItem} {count : Nat} (ids : added.map (·.id) = List.range' s.drawn count)
      (drawn : s'.drawn = s.drawn + count) : ∀ it ∈ added, P it.id := by
    intro it mem
    have inside : it.id ∈ List.range' s.drawn count := ids ▸ List.mem_map_of_mem mem
    rw [List.mem_range'_1] at inside
    exact fresh it.id inside.1 (by omega)
  have last {items : List QueueItem} {item : QueueItem} (items' : ∀ it ∈ items, P it.id) (id : item.id = s.drawn)
      (drawn : s'.drawn = s.drawn + 1) : ∀ it ∈ items ++ [item], P it.id := by
    intro it mem
    rcases List.mem_append.mp mem with before | here
    · exact items' it before
    · rw [List.mem_singleton.mp here,id]
      exact fresh _ (Nat.le_refl _) (by omega)
  cases step with
  | quiet ids before after => exact ⟨silent after,by simp⟩
  | retryFind after => exact ⟨silent after,by simp⟩
  | dismissRows ids after => exact ⟨silent after,by simp⟩
  | switchCancel after => exact ⟨silent after,by simp⟩
  | switchComplete after => exact ⟨silent after,by simp⟩
  | apiAppend => exact ⟨old,by simp⟩
  | apiSkip => exact ⟨old,by simp⟩
  | missingAppend done => exact ⟨old,by simp⟩
  | missingFlag todo => exact ⟨old,by simp⟩
  | missingFree todo free => exact ⟨old,by simp⟩
  | missingFound => exact ⟨old,by simp⟩
  | missingSkip at_ todo =>
    rw [missingCargo at_] at old
    exact ⟨old,by simp⟩
  | missingCandidate at_ todo =>
    rw [missingReadCargo at_] at old
    exact ⟨last old rfl rfl,by simp⟩
  | apiItem => exact ⟨last old rfl rfl,by simp⟩
  | actions => exact ⟨ranged (newItemsIDs _ _ _) rfl,by simp⟩
  | brewItems made =>
    subst made
    exact ⟨ranged (brewAddedIDs _ _ _ _ _) rfl,by simp⟩
  | @retryItem _ _ _ _ item row =>
    have one : [item].map (·.id) = List.range' s.drawn 1 := by
      rw [List.map_singleton,(retryRowFresh row).1]
      rfl
    exact ⟨ranged one rfl,by simp⟩
  | spawn => exact ⟨by simp [cargo],by simp [cargo]⟩
  | _ => exact ⟨by simp [cargo,Request.cargo],by simp⟩

theorem stepMade {m : CaseMap} {k : Choice} {s s' : Shared} {t g : Goroutine} {new : List Goroutine}
    (old : ∀ it ∈ cargo t, P it.id) (fresh : ∀ id, s.drawn ≤ id → id < s'.drawn → P id)
    (stepped : next m k s t = some (s',g,new)) : (∀ it ∈ cargo g, P it.id) ∧ ∀ u ∈ new, cargo u = [] := by
  cases t with
  | request r => exact requestMade old fresh (Request.steps stepped)
  | worker w =>
    obtain ⟨self,others⟩ := workerCargo (Worker.steps stepped)
    exact ⟨by simp [self],others⟩
  | stream v => cases Stream.steps stepped <;> simp [cargo]
  | install run => cases installSteps stepped <;> simp [cargo]
  | prune job =>
    cases stepped
    simp [cargo]
  | setup v =>
    obtain ⟨_,_,_,_,_,_,self,others⟩ := setupFrame stepped
    refine ⟨?_,?_⟩
    · rcases self with rfl | ⟨w,rfl⟩ <;> simp [cargo]
    · intro u mem
      obtain ⟨w,rfl⟩ := others u mem
      rfl
  | done => contradiction

end

/- What no transition rewrites of a row. -/
def SameRow (it old : QueueItem) : Prop := old.id = it.id ∧ old.softwareID = it.softwareID ∧ old.action = it.action

def FromRows (q q' : BulkQueue) : Prop := ∀ it ∈ q'.items, ∃ old ∈ q.items, SameRow it old

theorem fromFilter {q q' : BulkQueue} {keep : QueueItem → Bool} (items : q'.items = q.items.filter keep) : FromRows q q' := by
  intro it mem
  rw [items] at mem
  exact ⟨it,List.mem_of_mem_filter mem,rfl,rfl,rfl⟩

theorem fromMap {q q' : BulkQueue} {f : QueueItem → QueueItem} (items : q'.items = q.items.map f)
    (same : ∀ it, SameRow (f it) it) : FromRows q q' := by
  intro it mem
  rw [items] at mem
  obtain ⟨old,stored,rfl⟩ := List.mem_map.mp mem
  exact ⟨old,stored,same old⟩

theorem fromSame {q q' : BulkQueue} (items : q'.items = q.items) : FromRows q q' := by
  intro it mem
  rw [items] at mem
  exact ⟨it,mem,rfl,rfl,rfl⟩

theorem fromCancel (q : BulkQueue) (softwareID : String) : FromRows q (cancelPendingInstallsForSoftware q softwareID).1 := by
  unfold cancelPendingInstallsForSoftware
  split
  · exact fromSame rfl
  · exact fromFilter rfl

theorem fromScript {s s' : Shared} {run : ScriptRun} {point : Option ScriptPoint} (step : run.Step s s' point) :
    FromRows s.queue s'.queue := by
  cases step with
  | cancel here => exact fromCancel _ _
  | _ => exact fromSame rfl

theorem fromFinish (q : BulkQueue) (id : UUID) (status : Status) (message : String) (jobID : Option UUID) :
    FromRows q (finishQueueItem q id status message jobID) := by
  unfold finishQueueItem
  split
  · exact fromFilter rfl
  · refine fromMap rfl fun it => ?_
    split <;> exact ⟨rfl,rfl,rfl⟩

/- A row is one that was there, or cargo of whoever appends. -/
theorem stepFrom {m : CaseMap} {k : Choice} {s s' : Shared} {t g : Goroutine} {new : List Goroutine}
    (stepped : next m k s t = some (s',g,new)) :
    ∀ it ∈ s'.queue.items, (∃ old ∈ s.queue.items, SameRow it old) ∨ it ∈ cargo t := by
  have keeps (from' : FromRows s.queue s'.queue) : ∀ it ∈ s'.queue.items, (∃ old ∈ s.queue.items, SameRow it old) ∨ it ∈ cargo t :=
    fun it mem => .inl (from' it mem)
  cases t with
  | request r =>
    cases Request.steps stepped with
    | append =>
      intro it mem
      rcases List.mem_append.mp (memBounded mem) with before | added
      · exact .inl ⟨it,before,rfl,rfl,rfl⟩
      · exact .inr added
    | retryAppend =>
      intro it mem
      rcases List.mem_append.mp mem with before | added
      · exact .inl ⟨it,before,rfl,rfl,rfl⟩
      · exact .inr added
    | retryFind after =>
      refine keeps ?_
      unfold retryDrop
      split
      · exact fromSame rfl
      · exact fromFilter rfl
    | dismissRows ids after => exact keeps (fromFilter rfl)
    | switchCancel after => exact keeps (fromCancel _ _)
    | switchComplete after => exact keeps (fromCancel _ _)
    | _ => exact keeps (fromSame rfl)
  | worker w =>
    cases Worker.steps stepped with
    | claim claimed =>
      refine keeps fun it mem => ?_
      unfold claimNextQueueItem at claimed
      split at claimed <;> try contradiction
      rename_i items found
      cases Option.some.inj claimed
      obtain ⟨old,stored,_,same,_⟩ := claimCount (fun _ => true) found
      rcases claimMem found mem with rfl | before
      · exact ⟨old,stored,by rw [same]; exact ⟨rfl,rfl,rfl⟩⟩
      · exact ⟨it,before,rfl,rfl,rfl⟩
    | brewRun =>
      refine keeps (fromMap rfl fun it => ?_)
      split <;> exact ⟨rfl,rfl,rfl⟩
    | annotate =>
      refine keeps (fromMap rfl fun it => ?_)
      split <;> exact ⟨rfl,rfl,rfl⟩
    | script inner => exact keeps (fromScript inner)
    | scripted inner => exact keeps (fromScript inner)
    | finish => exact keeps (fromFinish _ _ _ _ _)
    | _ => exact keeps (fromSame rfl)
  | stream v => cases Stream.steps stepped <;> exact keeps (fromSame rfl)
  | install run =>
    cases installSteps stepped with
    | script inner => exact keeps (fromScript inner)
    | scripted inner => exact keeps (fromScript inner)
  | prune job =>
    cases stepped
    exact keeps (fromSame rfl)
  | setup v =>
    obtain ⟨queue,_⟩ := setupFrame stepped
    exact keeps (fromSame (by rw [queue]))
  | done => contradiction

theorem scriptDrawn {s s' : Shared} {run : ScriptRun} {point : Option ScriptPoint} (step : run.Step s s' point) :
    s.drawn ≤ s'.drawn := by
  cases step with
  | _ => exact Nat.le_refl _

theorem stepDrawn {m : CaseMap} {k : Choice} {s s' : Shared} {t g : Goroutine} {new : List Goroutine}
    (stepped : next m k s t = some (s',g,new)) : s.drawn ≤ s'.drawn := by
  cases t with
  | request r => cases Request.steps stepped <;> first | exact Nat.le_refl _ | exact Nat.le_add_right _ _
  | worker w =>
    cases Worker.steps stepped with
    | register => exact Nat.le_add_right _ _
    | script inner => exact scriptDrawn inner
    | scripted inner => exact scriptDrawn inner
    | _ => exact Nat.le_refl _
  | stream v => cases Stream.steps stepped <;> first | exact Nat.le_refl _ | exact Nat.le_add_right _ _
  | install run =>
    cases installSteps stepped with
    | script inner => exact scriptDrawn inner
    | scripted inner => exact scriptDrawn inner
  | prune job =>
    cases stepped
    exact Nat.le_refl _
  | setup v =>
    obtain ⟨_,_,_,_,_,drawn,_⟩ := setupFrame stepped
    exact drawn
  | done => contradiction

/- The row that a step of a worker ends, and how. -/
def ending : Goroutine → Option (UUID × Status)
  | .worker (.finish it status _ _) => some (it.id,status)
  | _ => none

/- What else could take the row away leaves it, and its worker ends it with a success or an error. -/
def Spares (n : UUID) (c : Process) : Goroutine → Prop
  | .request (.append _ added) => ∀ it ∈ overflow (c.shared.queue.items ++ added), it.id ≠ n
  | .request (.retryFind _ id _ _) => id ≠ n
  | .request (.dismissRows itemID softwareID) =>
    ∀ it ∈ (dismissRows c.shared.queue (itemID.bind (fun ref => if ref.jobPrefix then none else some ref.id)) softwareID).2,
      it.id ≠ n
  | .worker (.finish it status _ _) => it.id = n → status = .success ∨ status = .error
  | _ => True

instance (n : UUID) (c : Process) (t : Goroutine) : Decidable (Spares n c t) := by
  apply @Goroutine.casesOn (fun t => Decidable (Spares n c t)) t
  case request =>
    intro r
    apply @Request.casesOn (fun r => Decidable (Spares n c (.request r))) r <;> intros <;> dsimp only [Spares] <;> infer_instance
  case worker =>
    intro w
    apply @Worker.casesOn (fun w => Decidable (Spares n c (.worker w))) w <;> intros <;> dsimp only [Spares] <;> infer_instance
  all_goals
    intros
    exact instDecidableTrue

/- The rows with the identifier, by status, as they were. -/
def Stays (n : UUID) (q q' : BulkQueue) : Prop := ∀ status, rows n status q' = rows n status q

theorem staysFilter {n : UUID} {q q' : BulkQueue} {keep : QueueItem → Bool} (items : q'.items = q.items.filter keep)
    (kept : ∀ it ∈ q.items, it.id = n → keep it = true) : Stays n q q' := by
  intro status
  rw [rows,items]
  apply filterCountEq
  intro it mem row
  simp only [isRow,Bool.and_eq_true,beq_iff_eq] at row
  exact kept it mem row.1

theorem staysMap {n : UUID} {q q' : BulkQueue} {f : QueueItem → QueueItem} (items : q'.items = q.items.map f)
    (same : ∀ it, (f it).id = it.id) (kept : ∀ it, it.id = n → (f it).status = it.status) : Stays n q q' := by
  intro status
  rw [rows,items]
  apply mapCountEq
  intro it mem
  by_cases here : it.id = n
  · simp [isRow,same,kept it here]
  · have away : (it.id == n) = false := by simpa using here
    simp [isRow,same,away]

theorem staysAppend {n : UUID} {q q' : BulkQueue} {added : List QueueItem}
    (items : q'.items = bounded (q.items ++ added) ∧ (∀ it ∈ overflow (q.items ++ added), it.id ≠ n) ∨
      q'.items = q.items ++ added) (others : ∀ it ∈ added, it.id ≠ n) : Stays n q q' := by
  intro status
  have none {l : List QueueItem} (away : ∀ it ∈ l, it.id ≠ n) : l.countP (isRow n status) = 0 := by
    rw [List.countP_eq_zero]
    intro it mem row
    simp only [isRow,Bool.and_eq_true,beq_iff_eq] at row
    exact away it mem row.1
  have whole : (q.items ++ added).countP (isRow n status) = q.items.countP (isRow n status) := by
    rw [List.countP_append,none others]
    rfl
  rcases items with ⟨items,cut⟩ | items
  · have split := boundedCount (isRow n status) (q.items ++ added)
    rw [none cut] at split
    rw [rows,rows,items,← whole,← split,Nat.zero_add]
  · rw [rows,rows,items,whole]

/- A cancel pass is for installs. -/
theorem staysCancel {n : UUID} {q : BulkQueue} (uninstall : ∀ it ∈ q.items, it.id = n → it.action = .uninstall)
    (softwareID : String) : Stays n q (cancelPendingInstallsForSoftware q softwareID).1 := by
  unfold cancelPendingInstallsForSoftware
  split
  · exact fun _ => rfl
  · refine staysFilter rfl fun it mem here => ?_
    simp [pendingInstall,uninstall it mem here]

theorem staysScript {n : UUID} {s s' : Shared} {run : ScriptRun} {point : Option ScriptPoint}
    (uninstall : ∀ it ∈ s.queue.items, it.id = n → it.action = .uninstall) (step : run.Step s s' point) :
    Stays n s.queue s'.queue := by
  cases step with
  | cancel here => exact staysCancel uninstall _
  | _ => exact fun _ => rfl

theorem staysFinish {n id : UUID} (q : BulkQueue) (other : id ≠ n) (status : Status) (message : String) (jobID : Option UUID) :
    Stays n q (finishQueueItem q id status message jobID) := by
  unfold finishQueueItem
  split
  · refine staysFilter rfl fun it _ here => ?_
    rw [here,bne_iff_ne]
    exact Ne.symm other
  · refine staysMap rfl (fun it => by split <;> rfl) fun it here => ?_
    rw [if_neg (here ▸ Ne.symm other)]

/- What a step is to the row of an identifier. -/
inductive Fate (n : UUID) (s s' : Shared) (t g : Goroutine) (new : List Goroutine) : Prop where
  | stays (rows : Stays n s.queue s'.queue) (held : heldBy n g + load (heldBy n) new = heldBy n t)
      (apart : ∀ status, ending t ≠ some (n,status))
  | claimed (pending : rows n .pending s'.queue + 1 = rows n .pending s.queue)
      (running : rows n .running s'.queue = rows n .running s.queue + 1)
      (error : rows n .error s'.queue = rows n .error s.queue)
      (held : heldBy n g + load (heldBy n) new = heldBy n t + 1) (apart : ∀ status, ending t ≠ some (n,status))
  | ended {status message jobID} (ends : ending t = some (n,status)) (fair : status = .success ∨ status = .error)
      (after : s'.queue = finishQueueItem s.queue n status message jobID)
      (held : heldBy n g + load (heldBy n) new + 1 = heldBy n t)

theorem claimStays {q q' : BulkQueue} {row : QueueItem} (claimed : claimNextQueueItem q = some (row,q')) {n : UUID}
    {status : Status} (apart : row.id ≠ n ∨ status ≠ .pending ∧ status ≠ .running) : rows n status q' = rows n status q := by
  unfold claimNextQueueItem at claimed
  split at claimed <;> try contradiction
  rename_i items found
  cases Option.some.inj claimed
  obtain ⟨it,_,isPending,rfl,count⟩ := claimCount (isRow n status) found
  have before : it.status = .pending := by simpa [QueueItem.pending] using isPending
  have neither : isRow n status it = false ∧ isRow n status (startRow it) = false := by
    rcases apart with other | ⟨notPending,notRunning⟩
    · have away : (it.id == n) = false := by simpa [startRow] using other
      simp [isRow,startRow,away]
    · simp [isRow,startRow,before,Ne.symm notPending,Ne.symm notRunning]
  simpa [neither.1,neither.2,rows] using count

theorem requestFate {n : UUID} {m : CaseMap} {k : Choice} {s s' : Shared} {r : Request} {g : Goroutine} {pool new : List Goroutine}
    (uninstall : ∀ it ∈ s.queue.items, it.id = n → it.action = .uninstall) (others : ∀ it ∈ r.cargo, it.id ≠ n)
    (spares : Spares n ⟨s,pool⟩ (.request r)) (stepped : r.next m k s = some (s',g,new)) :
    Fate n s s' (.request r) g new := by
  have silent {g : Goroutine} (after : g.quiet = true) : heldBy n g + load (heldBy n) [] = heldBy n (.request r) := by
    rw [(quietAccounts after n).2]
    rfl
  have apart : ∀ status, ending (.request r) ≠ some (n,status) := by
    intro status
    simp [ending]
  by_cases dismissal : ∃ itemID softwareID, r = .dismissRows itemID softwareID
  · obtain ⟨itemID,softwareID,rfl⟩ := dismissal
    have kept : Stays n s.queue (dismissRows s.queue
        (itemID.bind (fun ref => if ref.jobPrefix then none else some ref.id)) softwareID).1 := by
      refine staysFilter rfl fun it mem here => ?_
      by_contra dropped
      exact spares it (List.mem_filter.mpr ⟨mem,by simpa using dropped⟩) here
    simp only [Request.next] at stepped
    split at stepped <;> cases stepped <;> exact .stays kept rfl apart
  · cases Request.steps stepped with
    | dismissRows ids after => exact absurd ⟨_,_,rfl⟩ dismissal
    | append => exact .stays (staysAppend (.inl ⟨rfl,spares⟩) others) rfl apart
    | retryAppend => exact .stays (staysAppend (.inr rfl) others) rfl apart
    | retryFind after =>
      refine .stays ?_ (silent after) apart
      unfold retryDrop
      split
      · exact fun _ => rfl
      · refine staysFilter rfl fun it _ here => ?_
        rw [here,bne_iff_ne]
        exact Ne.symm spares
    | switchCancel after => exact .stays (staysCancel uninstall _) (silent after) apart
    | switchComplete after => exact .stays (staysCancel uninstall _) (silent after) apart
    | quiet ids before after => exact .stays (fun _ => rfl) (silent after) apart
    | spawn => exact .stays (fun _ => rfl) (by simp [heldBy,heldIDs,Worker.item]) apart
    | _ => exact .stays (fun _ => rfl) rfl apart

theorem workerFate {n : UUID} {s s' : Shared} {w : Worker} {g : Goroutine} {pool new : List Goroutine}
    (uninstall : ∀ it ∈ s.queue.items, it.id = n → it.action = .uninstall) (spares : Spares n ⟨s,pool⟩ (.worker w))
    (step : Worker.Step s w s' g new) : Fate n s s' (.worker w) g new := by
  cases step with
  | @claim it q claimed =>
    obtain ⟨pendings,runnings⟩ := rowsClaim claimed n
    have takes : heldBy n (.worker (dispatch it)) = [it.id].count n := by
      simp only [heldBy,heldIDs,dispatchItem]
      rfl
    have free : heldBy n (.worker .claim) = 0 := rfl
    rw [List.count_singleton] at takes pendings runnings
    by_cases same : it.id = n
    · rw [if_pos (by simpa using same)] at takes pendings runnings
      exact .claimed pendings runnings (claimStays claimed (.inr (by simp))) (by rw [takes,free,loadNil]) (by simp [ending])
    · rw [if_neg (by simpa using same)] at takes
      exact .stays (fun status => claimStays claimed (.inl same)) (by rw [takes,free,loadNil]) (by simp [ending])
  | @giveUp w it status message jobID holds final early =>
    refine .stays (fun _ => rfl) ?_ ?_
    · simp only [heldBy,heldIDs,holds,loadNil]
      rfl
    · cases w <;> simp_all [ending,Worker.early]
  | brewRun => exact .stays (staysMap rfl (fun it => by split <;> rfl) (fun it _ => by split <;> rfl)) rfl (by simp [ending])
  | annotate => exact .stays (staysMap rfl (fun it => by split <;> rfl) (fun it _ => by split <;> rfl)) rfl (by simp [ending])
  | script inner => exact .stays (staysScript uninstall inner) rfl (by simp [ending])
  | scripted inner => exact .stays (staysScript uninstall inner) rfl (by simp [ending])
  | @finish it status message jobID =>
    have holds : heldBy n (.worker (.finish it status message jobID)) = [it.id].count n := rfl
    have free : heldBy n (.worker .busy) = 0 := rfl
    rw [List.count_singleton] at holds
    by_cases same : it.id = n
    · rw [if_pos (by simpa using same)] at holds
      subst same
      exact .ended rfl (spares rfl) rfl (by rw [holds,free,loadNil])
    · rw [if_neg (by simpa using same)] at holds
      exact .stays (staysFinish _ same _ _ _) (by rw [holds,free,loadNil]) (by simp [ending,same])
  | _ => exact .stays (fun _ => rfl) rfl (by simp [ending])

theorem stepFate {n : UUID} {m : CaseMap} {k : Choice} {s s' : Shared} {t g : Goroutine} {pool new : List Goroutine}
    (uninstall : ∀ it ∈ s.queue.items, it.id = n → it.action = .uninstall) (others : ∀ it ∈ cargo t, it.id ≠ n)
    (spares : Spares n ⟨s,pool⟩ t) (stepped : next m k s t = some (s',g,new)) : Fate n s s' t g new := by
  cases t with
  | request r => exact requestFate uninstall others spares stepped
  | worker w => exact workerFate uninstall spares (Worker.steps stepped)
  | stream v => cases Stream.steps stepped <;> exact .stays (fun _ => rfl) rfl (by simp [ending])
  | install run =>
    cases installSteps stepped with
    | script inner => exact .stays (staysScript uninstall inner) rfl (by simp [ending])
    | scripted inner => exact .stays (staysScript uninstall inner) rfl (by simp [ending])
  | prune job =>
    cases stepped
    exact .stays (fun _ => rfl) rfl (by simp [ending])
  | setup v =>
    obtain ⟨queue,_,_,_,_,_,self,others⟩ := setupFrame stepped
    have none : load (heldBy n) new = 0 := (loadZero _ new).mpr (by
      intro u mem
      obtain ⟨w,rfl⟩ := others u mem
      rfl)
    have here : heldBy n g = 0 := by
      rcases self with rfl | ⟨w,rfl⟩ <;> rfl
    refine .stays (fun _ => by rw [queue]) ?_ (by simp [ending])
    rw [none,here]
    rfl
  | done => contradiction

/- The identifiers that are about. -/
structure Only (P : UUID → Prop) (c : Process) : Prop where
  rows : ∀ it ∈ c.shared.queue.items, P it.id
  cargo : ∀ t ∈ c.pool, ∀ it ∈ cargo t, P it.id
  held : ∀ t ∈ c.pool, ∀ id ∈ heldIDs t, P id

theorem stepHeld {m : CaseMap} {k : Choice} {s s' : Shared} {t g : Goroutine} {new : List Goroutine}
    (stepped : next m k s t = some (s',g,new)) :
    (∀ id ∈ heldIDs g, id ∈ heldIDs t ∨ ∃ it ∈ s.queue.items, it.id = id) ∧ ∀ u ∈ new, heldIDs u = [] := by
  cases t with
  | request r =>
    have silent {g : Goroutine} (after : g.quiet = true) :
        ∀ id ∈ heldIDs g, id ∈ heldIDs (.request r) ∨ ∃ it ∈ s.queue.items, it.id = id := by
      rw [(quietCargo after).2]
      simp
    cases Request.steps stepped with
    | quiet ids before after => exact ⟨silent after,by simp⟩
    | retryFind after => exact ⟨silent after,by simp⟩
    | dismissRows ids after => exact ⟨silent after,by simp⟩
    | switchCancel after => exact ⟨silent after,by simp⟩
    | switchComplete after => exact ⟨silent after,by simp⟩
    | spawn => exact ⟨by simp [heldIDs],by simp [heldIDs,Worker.item]⟩
    | _ => exact ⟨by simp [heldIDs],by simp⟩
  | worker w =>
    cases Worker.steps stepped with
    | claim claimed =>
      unfold claimNextQueueItem at claimed
      split at claimed <;> try contradiction
      rename_i items found
      cases Option.some.inj claimed
      obtain ⟨old,stored,_,rfl,_⟩ := claimCount (fun _ => true) found
      refine ⟨fun id mem => .inr ⟨old,stored,?_⟩,by simp⟩
      simp only [heldIDs,dispatchItem,Option.map_some,Option.toList_some,List.mem_singleton] at mem
      exact mem.symm
    | @giveUp w it status message jobID holds final early =>
      have same : heldIDs (.worker w) = [it.id] := by simp [heldIDs,holds]
      exact ⟨fun id mem => .inl (same ▸ mem),by simp⟩
    | scripted inner => exact ⟨fun id mem => .inl mem,by simp [heldIDs]⟩
    | look => exact ⟨fun id mem => .inl mem,by simp⟩
    | held => exact ⟨fun id mem => .inl mem,by simp⟩
    | free => exact ⟨fun id mem => .inl mem,by simp⟩
    | empty => exact ⟨fun id mem => .inl mem,by simp⟩
    | finish => exact ⟨by simp [heldIDs,Worker.item],by simp⟩
    | rekick more => exact ⟨by simp [heldIDs],by simp⟩
    | quit none => exact ⟨by simp [heldIDs],by simp⟩
    | _ => exact ⟨fun id mem => .inl mem,by simp⟩
  | stream v => cases Stream.steps stepped <;> exact ⟨by simp [heldIDs],by simp [heldIDs]⟩
  | install run => cases installSteps stepped <;> exact ⟨by simp [heldIDs],by simp [heldIDs]⟩
  | prune job =>
    cases stepped
    exact ⟨by simp [heldIDs],by simp⟩
  | setup v =>
    obtain ⟨_,_,_,_,_,_,self,others⟩ := setupFrame stepped
    refine ⟨?_,?_⟩
    · rcases self with rfl | ⟨w,rfl⟩ <;> simp [heldIDs]
    · intro u mem
      obtain ⟨w,rfl⟩ := others u mem
      rfl
  | done => contradiction

theorem onlyMore {P Q : UUID → Prop} {c : Process} (more : ∀ id, P id → Q id) (only : Only P c) : Only Q c :=
  ⟨fun it mem => more _ (only.rows it mem),fun t mem it carried => more _ (only.cargo t mem it carried),
    fun t mem id holds => more _ (only.held t mem id holds)⟩

theorem onlyCall {P : UUID → Prop} {c : Process} (only : Only P c) (m : CaseMap) (call : Call) :
    Only P ⟨c.shared,c.pool ++ [start m call]⟩ := by
  obtain ⟨none,idle⟩ := startedCargo (startCases m call)
  refine ⟨only.rows,?_,?_⟩
  · intro t mem
    rcases List.mem_append.mp mem with old | fresh
    · exact only.cargo t old
    · have silent : cargo t = [] := List.mem_singleton.mp fresh ▸ none
      simp [silent]
  · intro t mem
    rcases List.mem_append.mp mem with old | fresh
    · exact only.held t old
    · have silent : heldIDs t = [] := List.mem_singleton.mp fresh ▸ idle
      simp [silent]

theorem onlyStep {P : UUID → Prop} {m : CaseMap} {k : Choice} {s s' : Shared} {pool new : List Goroutine} {i : Nat} {t g : Goroutine}
    (only : Only P ⟨s,pool⟩) (found : pool[i]? = some t) (fresh : ∀ id, s.drawn ≤ id → id < s'.drawn → P id)
    (stepped : next m k s t = some (s',g,new)) : Only P ⟨s',pool.set i g ++ new⟩ := by
  have mem : t ∈ pool := List.mem_of_getElem? found
  obtain ⟨made,madeNew⟩ := stepMade (only.cargo t mem) fresh stepped
  obtain ⟨held,heldNew⟩ := stepHeld stepped
  refine ⟨?_,?_,?_⟩
  · intro it stored
    rcases stepFrom stepped it stored with ⟨before,there,same,_⟩ | inside
    · exact same ▸ only.rows before there
    · exact only.cargo t mem it inside
  · refine everyStep only.cargo made fun u here => ?_
    simp [madeNew u here]
  · refine everyStep only.held ?_ fun u here => ?_
    · intro id holds
      rcases held id holds with before | ⟨it,stored,rfl⟩
      · exact only.held t mem id before
      · exact only.rows it stored
    · simp [heldNew u here]

/- Every identifier was drawn. -/
def Below (c : Process) : Prop := Only (fun id => id < c.shared.drawn) c

theorem belowPreserved (m : CaseMap) : Preserved (host m) (fun _ _ => True) Below := by
  constructor
  · intro c call below
    exact onlyCall below m call
  · intro c i t k s' g new below found _ stepped
    have drawn : c.shared.drawn ≤ s'.drawn := stepDrawn stepped
    have later : Only (fun id => id < s'.drawn) c := onlyMore (fun id before => Nat.lt_of_lt_of_le before drawn) below
    exact onlyStep later found (fun _ _ before => before) stepped

theorem belowBoot (installed : Installed) : Below (boot installed) := by
  constructor <;> simp [boot]

/- The row of a queued uninstall: pending, or running while one worker holds it, or ended, and then it
is still there just when it failed. -/
structure Owned (n : UUID) (softwareID : String) (c : Process) (ended : Option Status) : Prop where
  drawn : n < c.shared.drawn
  uncarried : ∀ t ∈ c.pool, ∀ it ∈ cargo t, it.id ≠ n
  row : ∀ it ∈ c.shared.queue.items, it.id = n → it.softwareID = softwareID ∧ it.action = .uninstall
  counted : rows n .pending c.shared.queue + load (heldBy n) c.pool = if ended = none then 1 else 0
  claimed : load (heldBy n) c.pool ≤ rows n .running c.shared.queue
  failed : 0 < rows n .error c.shared.queue ↔ ended = some .error
  fair : ended = none ∨ ended = some .success ∨ ended = some .error

/- How the row has ended after a step. -/
def endedBy (n : UUID) (ended : Option Status) (t : Goroutine) : Option Status :=
  match ended,ending t with
  | some status,_ => some status
  | none,some (id,status) => if id = n then some status else none
  | none,none => none

theorem endedApart {n : UUID} {ended : Option Status} {t : Goroutine} (apart : ∀ status, ending t ≠ some (n,status)) :
    endedBy n ended t = ended := by
  unfold endedBy
  split
  · rfl
  · rename_i id status ends
    have other : id ≠ n := fun same => apart status (same ▸ ends)
    rw [if_neg other]
  · rfl

/- A row that ends in error is left, one that ends otherwise is not. -/
theorem errorFinish {n : UUID} {q : BulkQueue} {status : Status} (running : 0 < rows n .running q)
    (fair : status = .success ∨ status = .error) (message : String) (jobID : Option UUID) :
    0 < rows n .error (finishQueueItem q n status message jobID) ↔ status = .error := by
  obtain ⟨it,mem,here⟩ := List.countP_pos_iff.mp running
  simp only [isRow,Bool.and_eq_true,beq_iff_eq] at here
  rcases fair with rfl | rfl
  · refine iff_of_false ?_ (by simp)
    have gone : rows n .error (finishQueueItem q n .success message jobID) = 0 := by
      rw [rows,List.countP_eq_zero]
      intro left mem row
      simp only [finishQueueItem,true_or,if_true,List.mem_filter,bne_iff_ne] at mem
      simp only [isRow,Bool.and_eq_true,beq_iff_eq] at row
      exact mem.2 row.1
    omega
  · refine iff_of_true ?_ rfl
    refine List.countP_pos_iff.mpr ⟨finishRow .error message jobID it,?_,?_⟩
    · simp only [finishQueueItem,reduceCtorEq,or_self,if_false]
      exact List.mem_map.mpr ⟨it,mem,if_pos here.1⟩
    · simp [isRow,finishRow,here.1]

theorem ownedStep {n : UUID} {softwareID : String} {ended : Option Status} {m : CaseMap} {k : Choice} {s s' : Shared}
    {pool new : List Goroutine} {i : Nat} {t g : Goroutine} (owned : Owned n softwareID ⟨s,pool⟩ ended)
    (found : pool[i]? = some t) (spares : Spares n ⟨s,pool⟩ t) (stepped : next m k s t = some (s',g,new)) :
    Owned n softwareID ⟨s',pool.set i g ++ new⟩ (endedBy n ended t) := by
  have drawn : s.drawn ≤ s'.drawn := stepDrawn stepped
  have mem : t ∈ pool := List.mem_of_getElem? found
  have below : n < s.drawn := owned.drawn
  have others := owned.uncarried t mem
  obtain ⟨made,madeNew⟩ := stepMade others (fun id after _ => Nat.ne_of_gt (Nat.lt_of_lt_of_le below after)) stepped
  have fate := stepFate (fun it stored here => (owned.row it stored here).2) others spares stepped
  have loads := loadStep (heldBy n) g new found
  have member := loadMember (heldBy n) mem
  have counted := owned.counted
  have claimed := owned.claimed
  have failed := owned.failed
  dsimp only at counted claimed failed
  have row : ∀ it ∈ s'.queue.items, it.id = n → it.softwareID = softwareID ∧ it.action = .uninstall := by
    intro it stored here
    rcases stepFrom stepped it stored with ⟨old,there,id,software,action⟩ | carried
    · have known := owned.row old there (id.trans here)
      exact ⟨software ▸ known.1,action ▸ known.2⟩
    · exact absurd here (others it carried)
  have uncarried : ∀ u ∈ pool.set i g ++ new, ∀ it ∈ cargo u, it.id ≠ n := by
    refine everyStep owned.uncarried made fun u fresh => ?_
    simp [madeNew u fresh]
  have lower : n < s'.drawn := Nat.lt_of_lt_of_le below drawn
  cases fate with
  | stays same held apart =>
    have holders : load (heldBy n) (pool.set i g ++ new) = load (heldBy n) pool := by omega
    rw [endedApart apart]
    refine ⟨lower,uncarried,row,?_,?_,?_,owned.fair⟩ <;> dsimp only
    · rw [same,holders]
      exact counted
    · rw [same,holders]
      exact claimed
    · rw [same]
      exact failed
  | claimed pending running error held apart =>
    have holders : load (heldBy n) (pool.set i g ++ new) = load (heldBy n) pool + 1 := by omega
    rw [endedApart apart]
    refine ⟨lower,uncarried,row,?_,?_,?_,owned.fair⟩ <;> dsimp only
    · rw [holders,← counted,← pending]
      omega
    · rw [holders,running]
      exact Nat.succ_le_succ claimed
    · rw [error]
      exact failed
  | @ended status message jobID ends fair after held =>
    have open' : ended = none := by
      by_contra finished
      rw [if_neg finished] at counted
      omega
    rw [if_pos open'] at counted
    have final : status.final := by
      rcases fair with rfl | rfl <;> exact ⟨by simp,by simp⟩
    have now : endedBy n ended t = some status := by
      simp only [endedBy,open',ends,if_true]
    have idle : load (heldBy n) (pool.set i g ++ new) = 0 := by omega
    have pendings := rowsFinish s.queue n message jobID final n (.inl rfl)
    rw [if_pos rfl] at pendings
    have errors : 0 < rows n .error (finishQueueItem s.queue n status message jobID) ↔ status = .error :=
      errorFinish (by omega) fair message jobID
    rw [now]
    have fair' : some status = none ∨ some status = some .success ∨ some status = some .error := by simpa using fair
    refine ⟨lower,uncarried,row,?_,?_,?_,fair'⟩ <;> dsimp only <;> try rw [after]
    · rw [pendings,idle,if_neg (by simp)]
    · rw [idle]
      exact Nat.zero_le _
    · rw [errors,Option.some.injEq]

end ContainerWS.Install
