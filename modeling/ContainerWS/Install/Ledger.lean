import ContainerWS.Install.Settled

/-! Accounts of accepted requests: an identifier that was appended is pending,
cancelled or claimed once, and one that was claimed is running or finished. The
accounts balance as long as the 200-row window cuts off finished rows only and
a retry names no live row. -/
namespace ContainerWS.Install
open Interleaving GoStrings

def isRow (n : Nat) (status : Status) (it : QueueItem) : Bool := it.id == n && it.status == status

def rows (n : Nat) (status : Status) (q : BulkQueue) : Nat := q.items.countP (isRow n status)

/- What the sections of the queue do to the pending and the running rows. -/

theorem isRowLive {n : Nat} {status : Status} {it : QueueItem} (row : isRow n status it = true)
    (live : status = .pending ∨ status = .running) : it.live = true := by
  simp only [isRow,Bool.and_eq_true,beq_iff_eq] at row
  simp [QueueItem.live,row.2,live]

theorem rowsAppend {q : BulkQueue} {added : List QueueItem} (db : Bool) (n : Nat) {status : Status}
    (live : status = .pending ∨ status = .running)
    (kept : ∀ it ∈ overflow (q.items ++ added), it.live = false) :
    rows n status (q.append db added) = rows n status q + added.countP (isRow n status) := by
  have split := boundedCount (isRow n status) (q.items ++ added)
  have none : (overflow (q.items ++ added)).countP (isRow n status) = 0 := by
    rw [List.countP_eq_zero]
    intro it mem row
    have lives := isRowLive row live
    rw [kept it mem] at lives
    exact Bool.false_ne_true lives
  rw [List.countP_append] at split
  simp only [rows,BulkQueue.append]
  omega

theorem rowsRetryAppend (q : BulkQueue) (db : Bool) (item : QueueItem) (n : Nat) (status : Status) :
    rows n status (q.appendRetry db item) = rows n status q + [item].countP (isRow n status) := by
  simp only [rows,BulkQueue.appendRetry,List.countP_append]

theorem pendingCount {added : List QueueItem} (n : Nat) (fresh : ∀ it ∈ added, it.pending = true) :
    added.countP (isRow n .pending) = (added.map (·.id)).count n := by
  rw [List.count,List.countP_map]
  apply List.countP_congr
  intro it mem
  have isPending : it.status = .pending := by simpa [QueueItem.pending] using fresh it mem
  simp [isRow,isPending]

theorem runningCount {added : List QueueItem} (n : Nat) (fresh : ∀ it ∈ added, it.pending = true) :
    added.countP (isRow n .running) = 0 := by
  rw [List.countP_eq_zero]
  intro it mem row
  have isPending : it.status = .pending := by simpa [QueueItem.pending] using fresh it mem
  simp [isRow,isPending] at row

theorem rowsRetryDrop {q : BulkQueue} {id : UUID} (n : Nat) {status : Status}
    (live : status = .pending ∨ status = .running)
    (finished : ∀ it ∈ q.items, it.id = id → it.live = false) :
    rows n status (retryDrop q id).1 = rows n status q := by
  unfold retryDrop
  split
  · rfl
  · apply filterCountEq
    intro it mem row
    have lives := isRowLive row live
    simp only [bne_iff_ne]
    intro same
    rw [finished it mem same] at lives
    contradiction

theorem rowsDismiss (q : BulkQueue) (itemID : Option UUID) (softwareID : String) (n : Nat)
    {status : Status} (live : status = .pending ∨ status = .running) :
    rows n status (dismissRows q itemID softwareID).1 = rows n status q := by
  apply filterCountEq
  intro it mem row
  simp [isRowLive row live]

theorem cancelPendingRows (q : BulkQueue) (softwareID : String) (n : Nat) :
    rows n .pending (cancelPendingInstallsForSoftware q softwareID).1 +
      ((cancelPendingInstallsForSoftware q softwareID).2.map (·.id)).count n = rows n .pending q := by
  unfold cancelPendingInstallsForSoftware
  split
  · simp
  · have gone : ∀ it ∈ q.items.filter (pendingInstall (trimSpace softwareID)), it.pending = true := by
      intro it mem
      have taken := (List.mem_filter.mp mem).2
      simp only [pendingInstall,Bool.and_eq_true] at taken
      exact taken.2
    rw [← pendingCount n gone]
    have parts := (List.filter_append_perm (pendingInstall (trimSpace softwareID)) q.items).countP_eq
      (isRow n .pending)
    rw [List.countP_append] at parts
    simp only [rows]
    omega

theorem cancelRunningRows (q : BulkQueue) (softwareID : String) (n : Nat) :
    rows n .running (cancelPendingInstallsForSoftware q softwareID).1 = rows n .running q := by
  unfold cancelPendingInstallsForSoftware
  split
  · rfl
  · apply filterCountEq
    intro it mem row
    simp only [isRow,Bool.and_eq_true,beq_iff_eq] at row
    simp [pendingInstall,row.2]

theorem rowsClaim {q q' : BulkQueue} {row : QueueItem} (claimed : claimNextQueueItem q = some (row,q'))
    (n : Nat) :
    rows n .pending q' + [row.id].count n = rows n .pending q ∧
    rows n .running q' = rows n .running q + [row.id].count n := by
  unfold claimNextQueueItem at claimed
  split at claimed <;> try contradiction
  rename_i items found
  cases Option.some.inj claimed
  obtain ⟨it,_,isPending,same,pendings⟩ := claimCount (isRow n .pending) found
  obtain ⟨it',_,isPending',same',runnings⟩ := claimCount (isRow n .running) found
  have status : it.status = .pending := by simpa [QueueItem.pending] using isPending
  have status' : it'.status = .pending := by simpa [QueueItem.pending] using isPending'
  have ids : row.id = it.id := by rw [same]; rfl
  have ids' : row.id = it'.id := by rw [same']; rfl
  have started : row.status = .running := by rw [same]; rfl
  simp only [rows,isRow,status,started,← ids] at pendings ⊢
  simp only [isRow,status',started,← ids'] at runnings
  have apart : (Status.running == Status.pending) = false := rfl
  have apart' : (Status.pending == Status.running) = false := rfl
  rw [List.count_singleton]
  cases h : row.id == n <;> simp [h,apart,apart'] at pendings runnings ⊢ <;> omega

theorem rowsFinish (q : BulkQueue) (id : UUID) {status : Status} (message : String) (jobID : Option UUID)
    (final : status.final) (n : Nat) {live : Status} (isLive : live = .pending ∨ live = .running) :
    rows n live (finishQueueItem q id status message jobID) = if n = id then 0 else rows n live q := by
  have differs : (status == live) = false := by
    rcases isLive with rfl | rfl
    · simpa using final.1
    · simpa using final.2
  unfold finishQueueItem
  split
  · split
    · rename_i same
      subst same
      simp only [rows,List.countP_eq_zero,List.mem_filter]
      rintro it ⟨_,other⟩ row
      simp only [isRow,Bool.and_eq_true,beq_iff_eq] at row
      simp [row.1] at other
    · rename_i other
      apply filterCountEq
      intro it mem row
      simp only [isRow,Bool.and_eq_true,beq_iff_eq] at row
      simp [row.1,other]
  · split
    · rename_i same
      subst same
      simp only [rows,List.countP_eq_zero,List.mem_map]
      rintro _ ⟨it,_,rfl⟩ row
      split at row
      · simp [isRow,finishRow,differs] at row
      · rename_i different
        simp [isRow,different] at row
    · rename_i other
      apply mapCountEq
      intro it mem
      split
      · rename_i same
        have away : (it.id == n) = false := by simpa [same] using Ne.symm other
        simp [isRow,finishRow,away]
      · rfl

theorem rowsAnnotate (q : BulkQueue) (id jobID : UUID) (versionID message : String) (n : Nat)
    (status : Status) : rows n status (q.annotate id jobID versionID message) = rows n status q := by
  apply mapCountEq
  intro it mem
  split <;> rfl

theorem rowsAnnotateMessage (q : BulkQueue) (id : UUID) (message : String) (n : Nat) (status : Status) :
    rows n status (q.annotateMessage id message) = rows n status q := by
  apply mapCountEq
  intro it mem
  split <;> rfl

/- The identifiers a goroutine has drawn and not yet appended, and the one it
has claimed and not yet finished. -/
def cargo : Goroutine → List QueueItem
  | .request r => r.cargo
  | _ => []

def cargoOf (n : Nat) (t : Goroutine) : Nat := ((cargo t).map (·.id)).count n

def heldIDs : Goroutine → List UUID
  | .worker w => (w.item.map (·.id)).toList
  | _ => []

def heldBy (n : Nat) (t : Goroutine) : Nat := (heldIDs t).count n

structure Balanced (n : Nat) (c : Process) : Prop where
  fresh : c.shared.drawn ≤ n → c.shared.history.queued.count n + load (cargoOf n) c.pool = 0
  once : c.shared.history.queued.count n + load (cargoOf n) c.pool ≤ 1
  queued : rows n .pending c.shared.queue + c.shared.history.claimed.count n +
    c.shared.history.cancelled.count n = c.shared.history.queued.count n
  claimed : rows n .running c.shared.queue + c.shared.history.finished.count n =
    c.shared.history.claimed.count n
  held : load (heldBy n) c.pool + c.shared.history.finished.count n = c.shared.history.claimed.count n

structure Books (c : Process) : Prop where
  balanced : ∀ n, Balanced n c
  pending : ∀ t ∈ c.pool, ∀ it ∈ cargo t, it.pending = true

/- The entry a step makes for one identifier: each account moves by what the
others do, and new cargo is freshly drawn. -/
structure Entry (n : Nat) (s s' : Shared) (t g : Goroutine) (new : List Goroutine) : Prop where
  drawn : s.drawn ≤ s'.drawn
  cargo : cargoOf n g + load (cargoOf n) new + s'.history.queued.count n ≤
    cargoOf n t + s.history.queued.count n + if s.drawn ≤ n ∧ n < s'.drawn then 1 else 0
  queued : rows n .pending s'.queue + s'.history.claimed.count n + s'.history.cancelled.count n +
      s.history.queued.count n =
    rows n .pending s.queue + s.history.claimed.count n + s.history.cancelled.count n +
      s'.history.queued.count n
  claimed : rows n .running s'.queue + s'.history.finished.count n + s.history.claimed.count n =
    rows n .running s.queue + s.history.finished.count n + s'.history.claimed.count n
  held : heldBy n g + load (heldBy n) new + s'.history.finished.count n + s.history.claimed.count n =
    heldBy n t + s.history.finished.count n + s'.history.claimed.count n

theorem balancedStep {n : Nat} {s s' : Shared} {pool new : List Goroutine} {i : Nat} {t g : Goroutine}
    (before : Balanced n ⟨s,pool⟩) (found : pool[i]? = some t) (entry : Entry n s s' t g new) :
    Balanced n ⟨s',pool.set i g ++ new⟩ := by
  have cargos := loadStep (cargoOf n) g new found
  have helds := loadStep (heldBy n) g new found
  have fresh := before.fresh
  have once := before.once
  have queued := before.queued
  have claimed := before.claimed
  have held := before.held
  have drawn := entry.drawn
  have moved := entry.cargo
  have queued' := entry.queued
  have claimed' := entry.claimed
  have held' := entry.held
  dsimp only at fresh once queued claimed held
  constructor <;> dsimp only
  · intro later
    have none := fresh (by omega)
    have outside : ¬(s.drawn ≤ n ∧ n < s'.drawn) := by omega
    rw [if_neg outside] at moved
    omega
  · split at moved
    · rename_i inside
      have none := fresh inside.1
      omega
    · omega
  · omega
  · omega
  · omega

/- Steps that leave the live rows, the four lists and the counter alone. -/
theorem entryStill {n : Nat} {s s' : Shared} {t g : Goroutine} {new : List Goroutine}
    (queue : ∀ status, status = .pending ∨ status = .running → rows n status s'.queue = rows n status s.queue)
    (history : s'.history = {s.history with marks := s'.history.marks}) (drawn : s'.drawn = s.drawn)
    (cargo : cargoOf n g + load (cargoOf n) new ≤ cargoOf n t)
    (held : heldBy n g + load (heldBy n) new = heldBy n t) : Entry n s s' t g new := by
  have pendings := queue .pending (.inl rfl)
  have runnings := queue .running (.inr rfl)
  have queued : s'.history.queued = s.history.queued := by rw [history]
  have claimed : s'.history.claimed = s.history.claimed := by rw [history]
  have finished : s'.history.finished = s.history.finished := by rw [history]
  have cancelled : s'.history.cancelled = s.history.cancelled := by rw [history]
  constructor
  · omega
  · rw [queued]
    omega
  · rw [queued,claimed,cancelled,pendings]
  · rw [claimed,finished,runnings]
  · rw [claimed,finished]
    omega

/- Freshly drawn rows become cargo. -/
theorem entryDraw {n : Nat} {s s' : Shared} {t g : Goroutine} {new : List Goroutine}
    (queue : s'.queue = s.queue) (history : s'.history = s.history) {count : Nat}
    (drawn : s'.drawn = s.drawn+count)
    (cargo : cargoOf n g + load (cargoOf n) new ≤ cargoOf n t + (List.range' s.drawn count).count n)
    (held : heldBy n g + load (heldBy n) new = heldBy n t) : Entry n s s' t g new := by
  have once := List.nodup_iff_count.mp (List.nodup_range' (s := s.drawn) (n := count)) n
  constructor
  · omega
  · rw [history]
    split
    · omega
    · rename_i outside
      have absent : n ∉ List.range' s.drawn count := by
        rw [List.mem_range'_1]
        omega
      rw [List.count_eq_zero_of_not_mem absent] at cargo
      omega
  · rw [history,queue]
  · rw [history,queue]
  · rw [history]
    omega

theorem newItemsIDs (drawn : Nat) (action : Action) (ids : List String) :
    (newItems drawn action ids).map (·.id) = List.range' drawn ids.length := by
  induction ids generalizing drawn with
  | nil => rfl
  | cons s rest ih =>
    simp only [newItems,List.map_cons,List.length_cons,List.range'_succ,ih]
    rfl

theorem newItemsPending {drawn : Nat} {action : Action} {ids : List String} {it : QueueItem}
    (mem : it ∈ newItems drawn action ids) : it.pending = true := by
  induction ids generalizing drawn with
  | nil => contradiction
  | cons s rest ih =>
    rcases List.mem_cons.mp mem with rfl | inside
    · rfl
    · exact ih inside

theorem brewAddedIDs (drawn : Nat) (action : Action) (kind : BrewKind) (busy names : List String) :
    (brewAdded drawn action kind busy names).map (·.id) =
      List.range' drawn (brewAdded drawn action kind busy names).length := by
  induction names generalizing drawn busy with
  | nil => rfl
  | cons name rest ih =>
    simp only [brewAdded]
    split
    · exact ih drawn busy
    · simp only [List.map_cons,List.length_cons,List.range'_succ,ih]
      rfl

theorem brewAddedPending {drawn : Nat} {action : Action} {kind : BrewKind} {busy names : List String}
    {it : QueueItem} (mem : it ∈ brewAdded drawn action kind busy names) : it.pending = true := by
  induction names generalizing drawn busy with
  | nil => contradiction
  | cons name rest ih =>
    simp only [brewAdded] at mem
    split at mem
    · exact ih mem
    · rcases List.mem_cons.mp mem with rfl | inside
      · rfl
      · exact ih inside

theorem retryRowFresh {id : UUID} {found : Option QueueItem} {softwareID : String} {action : Action}
    {item : QueueItem} (row : retryRow id found softwareID action = some item) :
    item.id = id ∧ item.pending = true := by
  unfold retryRow at row
  split at row
  · split at row
    · cases Option.some.inj row
      exact ⟨rfl,rfl⟩
    · split at row <;> try contradiction
      cases Option.some.inj row
      exact ⟨rfl,rfl⟩
  · split at row <;> try contradiction
    cases Option.some.inj row
    exact ⟨rfl,rfl⟩

/- What an append leaves of the rows, given that the window cuts no live one. -/
theorem entryAppend {n : Nat} {s : Shared} {q : BulkQueue} {added : List QueueItem} {t : Goroutine}
    (holds : cargo t = added) (free : heldBy n t = 0)
    (fresh : ∀ it ∈ added, it.pending = true)
    (grown : ∀ status, status = .pending ∨ status = .running →
      rows n status q = rows n status s.queue + added.countP (isRow n status)) :
    Entry n s (s.queued q added) t (.request .kick) [] := by
  have pendings := grown .pending (.inl rfl)
  have runnings := grown .running (.inr rfl)
  rw [pendingCount n fresh] at pendings
  rw [runningCount n fresh] at runnings
  have carried : cargoOf n t = (added.map (·.id)).count n := by rw [cargoOf,holds]
  have none : cargoOf n (.request .kick) = 0 := rfl
  have idle : heldBy n (.request .kick) = 0 := rfl
  constructor <;> simp only [Shared.queued,List.count_append,loadNil]
  · exact Nat.le_refl _
  · omega
  · omega
  · omega
  · omega

theorem entryCancel {n : Nat} {s s' : Shared} {softwareID : String} {t g : Goroutine}
    {new : List Goroutine} (queue : s'.queue = (s.cancel softwareID).queue)
    (queued : s'.history.queued = s.history.queued) (claimed : s'.history.claimed = s.history.claimed)
    (finished : s'.history.finished = s.history.finished)
    (cancelled : s'.history.cancelled = (s.cancel softwareID).history.cancelled)
    (drawn : s'.drawn = s.drawn) (cargo : cargoOf n g + load (cargoOf n) new ≤ cargoOf n t)
    (held : heldBy n g + load (heldBy n) new = heldBy n t) : Entry n s s' t g new := by
  have pendings := cancelPendingRows s.queue softwareID n
  have runnings := cancelRunningRows s.queue softwareID n
  constructor
  · omega
  · rw [queued]
    omega
  · rw [queue,queued,claimed,cancelled]
    simp only [Shared.cancel,List.count_append]
    omega
  · rw [queue,claimed,finished]
    simp only [Shared.cancel]
    omega
  · rw [claimed,finished]
    omega

/- No accepted request is lost while it is live: rows cut from the window are
over, and so is the row a retry replaces. -/
def KeepsLive (c : Process) : Goroutine → Prop
  | .request (.append _ added) => ∀ it ∈ overflow (c.shared.queue.items ++ added), it.live = false
  | .request (.retryFind _ id _ _) => ∀ it ∈ c.shared.queue.items, it.id = id → it.live = false
  | _ => True

instance (c : Process) (t : Goroutine) : Decidable (KeepsLive c t) := by
  unfold KeepsLive
  split <;> infer_instance

theorem quietCargo {g : Goroutine} (silent : g.quiet = true) : cargo g = [] ∧ heldIDs g = [] := by
  cases g with
  | request r => cases r <;> simp_all [Goroutine.quiet,Request.quiet,cargo,Request.cargo,heldIDs]
  | done => exact ⟨rfl,rfl⟩
  | _ => contradiction

theorem quietAccounts {g : Goroutine} (silent : g.quiet = true) (n : Nat) :
    cargoOf n g = 0 ∧ heldBy n g = 0 := by
  obtain ⟨none,idle⟩ := quietCargo silent
  simp [cargoOf,heldBy,none,idle]

theorem missingCargo {r : Request} {call : MissingCall} (at_ : r.missingCall = some call) :
    r.cargo = call.candidates := by
  cases r <;> simp_all [Request.missingCall,Request.cargo]

theorem missingReadCargo {r : Request} {call : MissingCall} {readAt : Nat}
    (at_ : r.missingRead = some (call,readAt)) : r.cargo = call.candidates := by
  cases r <;> simp_all [Request.missingRead,Request.cargo]

theorem requestEntry {m : CaseMap} {s s' : Shared} {r : Request} {g : Goroutine} {pool new : List Goroutine}
    (n : Nat) (fresh : ∀ it ∈ r.cargo, it.pending = true) (keeps : KeepsLive ⟨s,pool⟩ (.request r))
    (step : Request.Step m s r s' g new) : Entry n s s' (.request r) g new := by
  cases step with
  | leave calm => exact entryStill (fun _ _ => rfl) rfl rfl (by simp [cargoOf,cargo]) rfl
  | quiet ids before after =>
    obtain ⟨none,idle⟩ := quietAccounts after n
    exact entryStill (fun _ _ => rfl) rfl rfl (by simp [none]) (by rw [idle]; rfl)
  | missingSkip at_ todo =>
    have carried : cargo (.request r) = _ := missingCargo at_
    refine entryStill (fun _ _ => rfl) rfl rfl ?_ rfl
    rw [loadNil,cargoOf,cargoOf,carried]
    exact Nat.le_refl _
  | missingCandidate at_ todo =>
    have carried : cargo (.request r) = _ := missingReadCargo at_
    refine entryDraw rfl rfl rfl ?_ rfl
    rw [cargoOf,cargoOf,carried]
    simp [cargo,Request.cargo,MissingCall.candidate,missingInstallItem]
  | apiItem =>
    refine entryDraw rfl rfl rfl ?_ rfl
    simp [cargoOf,cargo,Request.cargo,newItem]
  | actions =>
    refine entryDraw rfl rfl rfl ?_ rfl
    simp [cargoOf,cargo,Request.cargo,newItemsIDs]
  | brewItems made =>
    refine entryDraw rfl rfl rfl ?_ rfl
    simp only [cargoOf,cargo,Request.cargo]
    rw [made,brewAddedIDs]
    simp
  | retryItem row =>
    refine entryDraw rfl rfl rfl ?_ rfl
    simp [cargoOf,cargo,Request.cargo,(retryRowFresh row).1]
  | append => exact entryAppend rfl rfl fresh (fun _ live => rowsAppend _ n live keeps)
  | retryAppend => exact entryAppend rfl rfl fresh (fun _ _ => rowsRetryAppend _ _ _ n _)
  | retryFind after =>
    obtain ⟨none,idle⟩ := quietAccounts after n
    exact entryStill (fun _ live => rowsRetryDrop n live keeps) rfl rfl (by simp [none])
      (by rw [idle]; rfl)
  | dismissRows ids after =>
    obtain ⟨none,idle⟩ := quietAccounts after n
    exact entryStill (fun _ live => rowsDismiss _ _ _ n live) rfl rfl (by simp [none])
      (by rw [idle]; rfl)
  | switchCancel after =>
    obtain ⟨none,idle⟩ := quietAccounts after n
    exact entryCancel rfl rfl rfl rfl rfl rfl (by simp [none]) (by rw [idle]; rfl)
  | switchComplete after =>
    obtain ⟨none,idle⟩ := quietAccounts after n
    exact entryCancel rfl rfl rfl rfl rfl rfl (by simp [none]) (by rw [idle]; rfl)
  | spawn => exact entryStill (fun _ _ => rfl) rfl rfl (by simp [cargoOf,cargo]) (by simp [heldBy,heldIDs,Worker.item])
  | missingAppend last => exact entryStill (fun _ _ => rfl) rfl rfl (Nat.le_refl _) rfl
  | _ => exact entryStill (fun _ _ => rfl) rfl rfl (by simp [cargoOf,cargo,Request.cargo]) rfl

theorem requestCargo {m : CaseMap} {s s' : Shared} {r : Request} {g : Goroutine} {new : List Goroutine}
    (fresh : ∀ it ∈ r.cargo, it.pending = true) (step : Request.Step m s r s' g new) :
    (∀ it ∈ cargo g, it.pending = true) ∧ ∀ u ∈ new, ∀ it ∈ cargo u, it.pending = true := by
  have silent : ∀ {g : Goroutine}, g.quiet = true → ∀ it ∈ cargo g, it.pending = true := by
    intro g after
    rw [(quietCargo after).1]
    simp
  cases step with
  | quiet ids before after => exact ⟨silent after,by simp⟩
  | retryFind after => exact ⟨silent after,by simp⟩
  | dismissRows ids after => exact ⟨silent after,by simp⟩
  | switchCancel after => exact ⟨silent after,by simp⟩
  | switchComplete after => exact ⟨silent after,by simp⟩
  | apiAppend => exact ⟨fresh,by simp⟩
  | apiSkip => exact ⟨fresh,by simp⟩
  | missingAppend last => exact ⟨fresh,by simp⟩
  | missingFlag todo => exact ⟨fresh,by simp⟩
  | missingFree todo free => exact ⟨fresh,by simp⟩
  | missingFound => exact ⟨fresh,by simp⟩
  | missingSkip at_ todo =>
    rw [missingCargo at_] at fresh
    exact ⟨fresh,by simp⟩
  | missingCandidate at_ todo =>
    rw [missingReadCargo at_] at fresh
    refine ⟨?_,by simp⟩
    intro it mem
    rcases List.mem_append.mp mem with old | last
    · exact fresh it old
    · rw [List.mem_singleton.mp last]
      rfl
  | apiItem =>
    refine ⟨?_,by simp⟩
    intro it mem
    rcases List.mem_append.mp mem with old | last
    · exact fresh it old
    · rw [List.mem_singleton.mp last]
      rfl
  | actions => exact ⟨fun _ mem => newItemsPending mem,by simp⟩
  | brewItems made =>
    subst made
    exact ⟨fun _ mem => brewAddedPending mem,by simp⟩
  | retryItem row =>
    refine ⟨?_,by simp⟩
    intro it mem
    rw [List.mem_singleton.mp mem]
    exact (retryRowFresh row).2
  | spawn => exact ⟨by simp [cargo],by simp [cargo]⟩
  | _ => exact ⟨by simp [cargo,Request.cargo],by simp⟩

theorem dispatchItem (it : QueueItem) : (dispatch it).item = some it := by
  unfold dispatch
  split <;> rfl

theorem scriptEntry {s s' : Shared} {run : ScriptRun} {point : Option ScriptPoint} {t g : Goroutine}
    {new : List Goroutine} (n : Nat) (step : run.Step s s' point)
    (cargo : cargoOf n g + load (cargoOf n) new ≤ cargoOf n t)
    (held : heldBy n g + load (heldBy n) new = heldBy n t) : Entry n s s' t g new := by
  cases step with
  | cancel here => exact entryCancel rfl rfl rfl rfl rfl rfl cargo held
  | _ => exact entryStill (fun _ _ => rfl) rfl rfl cargo held

theorem claimEntry {s : Shared} {it : QueueItem} {q : BulkQueue} (n : Nat)
    (claimed : claimNextQueueItem s.queue = some (it,q)) :
    Entry n s (s.claimed q it.id) (.worker .claim) (.worker (dispatch it)) [] := by
  obtain ⟨pendings,runnings⟩ := rowsClaim claimed n
  have takes : heldBy n (.worker (dispatch it)) = [it.id].count n := by
    simp only [heldBy,heldIDs,dispatchItem]
    rfl
  have idle : heldBy n (.worker .claim) = 0 := rfl
  constructor <;> simp only [Shared.claimed,List.count_append,loadNil]
  · exact Nat.le_refl _
  · exact Nat.le_add_right _ _
  · omega
  · omega
  · omega

/- The one row of a held identifier is running; finishing takes it out. -/
theorem finishEntry {s : Shared} {pool : List Goroutine} {i : Nat} {it : QueueItem} {status : Status}
    {message : String} {jobID : Option UUID} (n : Nat) (before : Balanced n ⟨s,pool⟩)
    (found : pool[i]? = some (.worker (.finish it status message jobID))) (final : status.final) :
    Entry n s (s.finish (finishQueueItem s.queue it.id status message jobID) it.id)
      (.worker (.finish it status message jobID)) (.worker .busy) [] := by
  have pendings := rowsFinish s.queue it.id message jobID final n (.inl rfl)
  have runnings := rowsFinish s.queue it.id message jobID final n (.inr rfl)
  have member := loadMember (heldBy n) (List.mem_of_getElem? found)
  have holds : heldBy n (.worker (.finish it status message jobID)) = [it.id].count n := rfl
  have idle : heldBy n (.worker .busy) = 0 := rfl
  have once := before.once
  have queued := before.queued
  have claimed := before.claimed
  have held := before.held
  dsimp only at once queued claimed held member
  rw [holds,List.count_singleton] at member
  by_cases same : n = it.id
  · rw [if_pos same] at pendings runnings
    have one : [it.id].count n = 1 := by simp [same]
    rw [if_pos (by simp [same])] at member
    constructor <;> simp only [Shared.finish,List.count_append,loadNil]
    · exact Nat.le_refl _
    · exact Nat.le_add_right _ _
    · omega
    · omega
    · omega
  · rw [if_neg same] at pendings runnings
    have none : [it.id].count n = 0 := by simp [Ne.symm same]
    constructor <;> simp only [Shared.finish,List.count_append,loadNil]
    · exact Nat.le_refl _
    · exact Nat.le_add_right _ _
    · omega
    · omega
    · omega

theorem workerEntry {s s' : Shared} {w : Worker} {g : Goroutine} {pool new : List Goroutine} {i : Nat}
    (n : Nat) (before : Balanced n ⟨s,pool⟩) (found : pool[i]? = some (.worker w))
    (settled : goroutineSettled s.jobs (.worker w)) (step : Worker.Step s w s' g new) :
    Entry n s s' (.worker w) g new := by
  cases step with
  | claim claimed => exact claimEntry n claimed
  | giveUp holds final early =>
    refine entryStill (fun _ _ => rfl) rfl rfl (Nat.le_refl _) ?_
    simp only [heldBy,heldIDs,holds,loadNil]
    rfl
  | brewRun => exact entryStill (fun status _ => rowsAnnotateMessage _ _ _ n status) rfl rfl (Nat.le_refl _) rfl
  | register => exact entryDraw rfl rfl rfl (Nat.le_add_right _ _) rfl
  | annotate => exact entryStill (fun status _ => rowsAnnotate _ _ _ _ _ n status) rfl rfl (Nat.le_refl _) rfl
  | script inner => exact scriptEntry n inner (Nat.le_refl _) rfl
  | scripted inner => exact scriptEntry n inner (Nat.le_refl _) rfl
  | finish => exact finishEntry n before found settled
  | _ => exact entryStill (fun _ _ => rfl) rfl rfl (Nat.le_refl _) rfl

theorem workerCargo {s s' : Shared} {w : Worker} {g : Goroutine} {new : List Goroutine}
    (step : Worker.Step s w s' g new) : cargo g = [] ∧ ∀ u ∈ new, cargo u = [] := by
  cases step with
  | scripted inner => exact ⟨rfl,by simp [cargo]⟩
  | _ => exact ⟨rfl,by simp⟩

theorem setupEntry {k : Choice} {s s' : Shared} {v : Setup} {g : Goroutine} {new : List Goroutine}
    (n : Nat) (stepped : v.next k s = some (s',g,new)) : Entry n s s' (.setup v) g new := by
  obtain ⟨queue,_,_,_,history,drawn,self,others⟩ := setupFrame stepped
  have none : load (cargoOf n) new = 0 := (loadZero _ new).mpr (by
    intro u mem
    obtain ⟨w,rfl⟩ := others u mem
    rfl)
  have idle : load (heldBy n) new = 0 := (loadZero _ new).mpr (by
    intro u mem
    obtain ⟨w,rfl⟩ := others u mem
    rfl)
  have here : cargoOf n g = 0 ∧ heldBy n g = 0 := by
    rcases self with rfl | ⟨w,rfl⟩ <;> exact ⟨rfl,rfl⟩
  constructor
  · exact drawn
  · rw [none,here.1,history]
    omega
  · rw [queue,history]
  · rw [queue,history]
  · rw [idle,here.2,history]
    rfl

theorem stepEntry {m : CaseMap} {k : Choice} {s s' : Shared} {t g : Goroutine} {pool new : List Goroutine}
    {i : Nat} (n : Nat) (books : Books ⟨s,pool⟩) (settled : Settled ⟨s,pool⟩)
    (found : pool[i]? = some t) (keeps : KeepsLive ⟨s,pool⟩ t)
    (stepped : next m k s t = some (s',g,new)) : Entry n s s' t g new := by
  have mem : t ∈ pool := List.mem_of_getElem? found
  cases t with
  | request r => exact requestEntry n (books.pending _ mem) keeps (Request.steps stepped)
  | worker w => exact workerEntry n (books.balanced n) found (settled _ mem) (Worker.steps stepped)
  | stream v =>
    cases Stream.steps stepped with
    | register => exact entryDraw rfl rfl rfl (Nat.le_add_right _ _) rfl
    | _ => exact entryStill (fun _ _ => rfl) rfl rfl (Nat.le_refl _) rfl
  | install run =>
    cases installSteps stepped with
    | script inner => exact scriptEntry n inner (Nat.le_refl _) rfl
    | scripted inner => exact scriptEntry n inner (Nat.le_refl _) rfl
  | prune job =>
    cases stepped
    exact entryStill (fun _ _ => rfl) rfl rfl (Nat.le_refl _) rfl
  | setup v => exact setupEntry n stepped
  | done => contradiction

theorem stepCargo {m : CaseMap} {k : Choice} {s s' : Shared} {t g : Goroutine} {new : List Goroutine}
    (fresh : ∀ it ∈ cargo t, it.pending = true) (stepped : next m k s t = some (s',g,new)) :
    (∀ it ∈ cargo g, it.pending = true) ∧ ∀ u ∈ new, ∀ it ∈ cargo u, it.pending = true := by
  cases t with
  | request r => exact requestCargo fresh (Request.steps stepped)
  | worker w =>
    obtain ⟨self,others⟩ := workerCargo (Worker.steps stepped)
    refine ⟨by simp [self],?_⟩
    intro u mem
    simp [others u mem]
  | stream v => cases Stream.steps stepped <;> simp [cargo]
  | install run => cases installSteps stepped <;> simp [cargo]
  | prune job =>
    cases stepped
    simp [cargo]
  | setup v =>
    obtain ⟨_,_,_,_,_,_,self,others⟩ := setupFrame stepped
    refine ⟨?_,?_⟩
    · rcases self with rfl | ⟨w,rfl⟩ <;> simp [cargo]
    · intro u mem
      obtain ⟨w,rfl⟩ := others u mem
      simp [cargo]
  | done => contradiction

theorem startedCargo {m : CaseMap} {g : Goroutine} (started : Started m g) : cargo g = [] ∧ heldIDs g = [] := by
  cases started with
  | quiet silent => exact quietCargo silent
  | _ => exact ⟨rfl,rfl⟩

theorem booksPreserved (m : CaseMap) :
    Preserved (host m) (fun c t => KeepsLive c t ∧ Settled c) Books := by
  constructor
  · intro c call books
    obtain ⟨none,idle⟩ := startedCargo (startCases m call)
    constructor
    · intro n
      have cargos : load (cargoOf n) (c.pool ++ [start m call]) = load (cargoOf n) c.pool := by
        simp [cargoOf,none]
      have helds : load (heldBy n) (c.pool ++ [start m call]) = load (heldBy n) c.pool := by
        simp [heldBy,idle]
      have before := books.balanced n
      exact ⟨fun later => cargos ▸ before.fresh later,cargos ▸ before.once,before.queued,before.claimed,
        helds ▸ before.held⟩
    · intro u mem
      rcases List.mem_append.mp mem with old | fresh
      · exact books.pending u old
      · cases List.mem_singleton.mp fresh
        intro it inside
        have away : it ∈ cargo (start m call) := inside
        rw [none] at away
        contradiction
  · intro c i t k s' g new books found ⟨keeps,settled⟩ stepped
    obtain ⟨self,others⟩ := stepCargo (books.pending t (List.mem_of_getElem? found)) stepped
    exact ⟨fun n => balancedStep (books.balanced n) found (stepEntry n books settled found keeps stepped),
      everyStep books.pending self others⟩

theorem booksBoot (installed : Installed) : Books (boot installed) := by
  constructor
  · intro n
    constructor <;> simp [boot,rows]
  · intro t mem
    simp [boot] at mem

def idsWith (status : Status) (q : BulkQueue) : List UUID :=
  (q.items.filter (fun it => it.status == status)).map (·.id)

theorem idsWithCount (n : Nat) (status : Status) (q : BulkQueue) :
    (idsWith status q).count n = rows n status q := by
  simp only [idsWith,rows,List.count,List.countP_map,List.countP_filter]
  rfl

/- Every identifier the queue accepted is pending, cancelled or claimed exactly
once, and every one claimed is running or finished. -/
structure Accounted (c : Process) : Prop where
  once : c.shared.history.queued.Nodup
  queued : (idsWith .pending c.shared.queue ++ c.shared.history.claimed ++
    c.shared.history.cancelled).Perm c.shared.history.queued
  claimed : (idsWith .running c.shared.queue ++ c.shared.history.finished).Perm c.shared.history.claimed

theorem booksAccounted {c : Process} (books : Books c) : Accounted c := by
  constructor
  · rw [List.nodup_iff_count]
    intro n
    have once := (books.balanced n).once
    omega
  · rw [List.perm_iff_count]
    intro n
    have queued := (books.balanced n).queued
    simp only [List.count_append,idsWithCount]
    exact queued
  · rw [List.perm_iff_count]
    intro n
    have claimed := (books.balanced n).claimed
    simp only [List.count_append,idsWithCount]
    exact claimed

theorem acceptedAccounted (m : CaseMap) (installed : Installed) {events : List (Event Call Choice)}
    {c : Process} (guarded : Along (host m) KeepsLive (boot installed) events)
    (ran : run (host m) (boot installed) events = some c) : Accounted c := by
  have settling := alongStrengthen (settledPreserved m KeepsLive) (settledBoot installed) guarded
  exact booksAccounted (runPreserved (booksPreserved m) (booksBoot installed) settling ran)

/- One row installed to its end and a second one cancelled by an uninstall. -/
def installAndCancel : List (Event Call Choice) :=
  ([.call (.enqueueActions true "install" ["a"]),.call (.enqueueActions true "install" ["b"])] : Events) ++
    (List.replicate 4 (.step 0 {}) : Events) ++ (List.replicate 2 (.step 1 {}) : Events) ++
    ([.call (.switchToBrew "b"),.step 3 {}] : Events) ++ (List.replicate 15 (.step 2 {}) : Events)

theorem acceptedAccountedRun : ∃ c,
    run (host ascii) (boot (fun _ => none)) installAndCancel = some c ∧ Accounted c := by
  obtain ⟨c,ran⟩ := Option.isSome_iff_exists.mp
    (by decide +kernel : (run (host ascii) (boot (fun _ => none)) installAndCancel).isSome = true)
  exact ⟨c,ran,acceptedAccounted ascii _ (by decide +kernel) ran⟩

/- Accepted rows beyond the window are cut off while pending. -/
def longQueue : List (Event Call Choice) :=
  (List.range 41).flatMap (fun i =>
    [.call (.enqueueActions true "install" ["a","b","c","d","e"]),.step i {},.step i {}])

/- A retry drops the pending row it names before its copy is appended. -/
def retryLive : List (Event Call Choice) :=
  [.call (.enqueueActions true "install" ["a"]),.step 0 {},.step 0 {},
    .call (.retryQueueAPI true (some 0) "" ""),.step 1 {}]

/- More rows are accepted than the queue and the records account for. -/
def short (c : Process) : Bool :=
  c.shared.queue.items.length + c.shared.history.claimed.length + c.shared.history.cancelled.length <
    c.shared.history.queued.length

theorem shortNotAccounted {c : Process} (missing : short c = true) : ¬Accounted c := by
  intro accounted
  have total := accounted.queued.length_eq
  have fewer : (idsWith .pending c.shared.queue).length ≤ c.shared.queue.items.length := by
    rw [idsWith,List.length_map]
    exact List.length_filter_le _ _
  simp only [short,decide_eq_true_eq] at missing
  simp only [List.length_append] at total
  omega

theorem runShort {events : List (Event Call Choice)}
    (missing : (run (host ascii) (boot (fun _ => none)) events).any short = true) :
    ∃ c, run (host ascii) (boot (fun _ => none)) events = some c ∧ ¬Accounted c := by
  obtain ⟨c,ran,lost⟩ := (Option.any_eq_true _ _).mp missing
  exact ⟨c,ran,shortNotAccounted lost⟩

theorem acceptedLost :
    (∃ c, run (host ascii) (boot (fun _ => none)) longQueue = some c ∧ ¬Accounted c) ∧
    ∃ c, run (host ascii) (boot (fun _ => none)) retryLive = some c ∧ ¬Accounted c :=
  ⟨runShort (by decide +kernel),runShort (by decide +kernel)⟩

end ContainerWS.Install
