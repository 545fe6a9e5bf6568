import ContainerWS.Install.Settled

/-! What a step does to the rows, counted by kind. Only an append makes a row
pending or live; every other step keeps the rows, takes some out or moves them
on. -/
namespace ContainerWS.Install
open Interleaving GoStrings

/- A kind of row speaks of what no transition rewrites. -/
def Kind (p : QueueItem → Bool) : Prop :=
  ∀ (it : QueueItem) status jobID message versionID,
    p {it with status := status, jobID := jobID, message := message, versionID := versionID} = p it

def pendingOf (p : QueueItem → Bool) (q : BulkQueue) : Nat := q.items.countP (fun it => it.pending && p it)

def liveOf (p : QueueItem → Bool) (q : BulkQueue) : Nat := q.items.countP (fun it => it.live && p it)

structure Fewer (q q' : BulkQueue) : Prop where
  pending : ∀ p, Kind p → pendingOf p q' ≤ pendingOf p q
  live : ∀ p, Kind p → liveOf p q' ≤ liveOf p q

theorem fewerSame {q q' : BulkQueue} (items : q'.items = q.items) : Fewer q q' := by
  refine ⟨?_,?_⟩ <;> intro p kind <;> simp only [pendingOf,liveOf,items] <;> exact Nat.le_refl _

theorem fewerFilter {q q' : BulkQueue} {keep : QueueItem → Bool} (items : q'.items = q.items.filter keep) :
    Fewer q q' := by
  refine ⟨?_,?_⟩ <;> intro p kind <;> simp only [pendingOf,liveOf,items] <;> exact filterCountLe _ _ _

/- Rows rewritten to a status that is not pending, and not live unless they were. -/
theorem fewerMap {q q' : BulkQueue} {f : QueueItem → QueueItem} (items : q'.items = q.items.map f)
    (kinds : ∀ p, Kind p → ∀ it, p (f it) = p it)
    (pending : ∀ it, (f it).pending = true → it.pending = true)
    (live : ∀ it, (f it).live = true → it.live = true) : Fewer q q' := by
  refine ⟨?_,?_⟩
  · intro p kind
    simp only [pendingOf,items,List.countP_map]
    apply List.countP_mono_left
    intro it mem here
    simp only [Function.comp_apply,Bool.and_eq_true,kinds p kind] at here ⊢
    exact ⟨pending it here.1,here.2⟩
  · intro p kind
    simp only [liveOf,items,List.countP_map]
    apply List.countP_mono_left
    intro it mem here
    simp only [Function.comp_apply,Bool.and_eq_true,kinds p kind] at here ⊢
    exact ⟨live it here.1,here.2⟩

theorem fewerAnnotate (q : BulkQueue) (id jobID : UUID) (versionID message : String) :
    Fewer q (q.annotate id jobID versionID message) := by
  refine fewerMap rfl ?_ ?_ ?_
  · intro p kind it
    split
    · exact kind it it.status (some jobID) message versionID
    · rfl
  · intro it
    split <;> exact fun same => same
  · intro it
    split <;> exact fun same => same

theorem fewerAnnotateMessage (q : BulkQueue) (id : UUID) (message : String) :
    Fewer q (q.annotateMessage id message) := by
  refine fewerMap rfl ?_ ?_ ?_
  · intro p kind it
    split
    · exact kind it it.status it.jobID message it.versionID
    · rfl
  · intro it
    split <;> exact fun same => same
  · intro it
    split <;> exact fun same => same

theorem finalNotLive {status : Status} (final : status.final) {it : QueueItem} (here : it.status = status) :
    it.pending = false ∧ it.live = false := by
  obtain ⟨notPending,notRunning⟩ := final
  simp [QueueItem.pending,QueueItem.live,here,notPending,notRunning]

theorem fewerFinish (q : BulkQueue) (id : UUID) {status : Status} (message : String) (jobID : Option UUID)
    (final : status.final) : Fewer q (finishQueueItem q id status message jobID) := by
  unfold finishQueueItem
  split
  · exact fewerFilter rfl
  · have finished : ∀ it, (finishRow status message jobID it).pending = false ∧
        (finishRow status message jobID it).live = false := fun it => finalNotLive final rfl
    refine fewerMap rfl ?_ ?_ ?_
    · intro p kind it
      split
      · exact kind it status (jobID <|> it.jobID) message it.versionID
      · rfl
    · intro it
      split
      · rw [(finished it).1]
        intro wrong
        contradiction
      · exact fun same => same
    · intro it
      split
      · rw [(finished it).2]
        intro wrong
        contradiction
      · exact fun same => same

theorem fewerClaim {q q' : BulkQueue} {row : QueueItem} (claimed : claimNextQueueItem q = some (row,q')) :
    Fewer q q' := by
  unfold claimNextQueueItem at claimed
  split at claimed <;> try contradiction
  rename_i items found
  cases Option.some.inj claimed
  obtain ⟨before,it,after,whole,isPending,_,rfl,rfl⟩ := claimSplit found
  have wasLive : it.live = true := by
    simp only [QueueItem.pending] at isPending
    simp [QueueItem.live,isPending]
  have notPending : (startRow it).pending = false := rfl
  refine ⟨?_,?_⟩
  · intro p kind
    simp only [pendingOf,whole,List.countP_append,List.countP_cons,isPending,notPending,Bool.false_and]
    simp
  · intro p kind
    have isLive : (startRow it).live = true := rfl
    have same : p (startRow it) = p it := kind it .running it.jobID "Starting…" it.versionID
    simp only [liveOf,whole,List.countP_append,List.countP_cons,same,wasLive,isLive]
    exact Nat.le_refl _

theorem fewerRetryDrop (q : BulkQueue) (id : UUID) : Fewer q (retryDrop q id).1 := by
  unfold retryDrop
  split
  · exact fewerSame rfl
  · exact fewerFilter rfl

theorem fewerCancel (q : BulkQueue) (softwareID : String) :
    Fewer q (cancelPendingInstallsForSoftware q softwareID).1 := by
  unfold cancelPendingInstallsForSoftware
  split
  · exact fewerSame rfl
  · exact fewerFilter rfl

/- The rows and the flags over one step. -/
inductive RowStep (t : Goroutine) (q q' : BulkQueue) : Prop where
  | append {db added} (here : t = .request (.append db added)) (after : q' = q.append db added)
  | retryAppend {db item} (here : t = .request (.retryAppend db item)) (after : q' = q.appendRetry db item)
  | fewer (less : Fewer q q')

theorem requestRows {m : CaseMap} {s s' : Shared} {r : Request} {g : Goroutine} {new : List Goroutine}
    (step : Request.Step m s r s' g new) : RowStep (.request r) s.queue s'.queue := by
  cases step with
  | append => exact .append rfl rfl
  | retryAppend => exact .retryAppend rfl rfl
  | retryFind after => exact .fewer (fewerRetryDrop _ _)
  | dismissRows ids after => exact .fewer (fewerFilter rfl)
  | switchCancel after => exact .fewer (fewerCancel _ _)
  | switchComplete after => exact .fewer (fewerCancel _ _)
  | _ => exact .fewer (fewerSame rfl)

theorem scriptFewer {s s' : Shared} {run : ScriptRun} {point : Option ScriptPoint}
    (step : run.Step s s' point) : Fewer s.queue s'.queue := by
  cases step with
  | cancel here => exact fewerCancel _ _
  | _ => exact fewerSame rfl

theorem workerRows {s s' : Shared} {w : Worker} {g : Goroutine} {new : List Goroutine}
    (settled : goroutineSettled s.jobs (.worker w)) (step : Worker.Step s w s' g new) :
    Fewer s.queue s'.queue := by
  cases step with
  | claim claimed => exact fewerClaim claimed
  | brewRun => exact fewerAnnotateMessage _ _ _
  | annotate => exact fewerAnnotate _ _ _ _ _
  | script inner => exact scriptFewer inner
  | scripted inner => exact scriptFewer inner
  | finish => exact fewerFinish _ _ _ _ settled
  | _ => exact fewerSame rfl

theorem stepRows {m : CaseMap} {k : Choice} {s s' : Shared} {t g : Goroutine} {new : List Goroutine}
    (settled : goroutineSettled s.jobs t) (stepped : next m k s t = some (s',g,new)) :
    RowStep t s.queue s'.queue := by
  cases t with
  | request r => exact requestRows (Request.steps stepped)
  | worker w => exact .fewer (workerRows settled (Worker.steps stepped))
  | stream v =>
    cases Stream.steps stepped with
    | _ => exact .fewer (fewerSame rfl)
  | install run =>
    cases installSteps stepped with
    | script inner => exact .fewer (scriptFewer inner)
    | scripted inner => exact .fewer (scriptFewer inner)
  | prune job =>
    cases stepped
    exact .fewer (fewerSame rfl)
  | setup v =>
    obtain ⟨queue,_⟩ := setupFrame stepped
    exact .fewer (fewerSame (by rw [queue]))
  | done => contradiction

end ContainerWS.Install
