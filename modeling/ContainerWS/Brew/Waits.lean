import ContainerWS.Brew.Switch
import ContainerWS.Runs

/-! What the wait of a switch can tell. It sees the rows of the software that are live or in error and
the jobs of the software that are running or in error; its own row shows there only until it is ended
otherwise. -/
namespace ContainerWS.Brew
open Install Interleaving GoStrings

variable {m : CaseMap} {w : Switch}

/- Brew is asked to install, and given the row, after a queued uninstall that succeeded; and the queue
is why the switch fails only when that uninstall failed or was cancelled. -/
structure Sound (s : State) : Prop where
  after : s.phase = .install ∨ s.phase = .mark ∨ s.phase = .done → s.item = none ∨ s.ended = some .success
  reason : ∀ f, s.phase = .failed f → f.queue = true → s.ended = some .error ∨ s.ended = some .cancelled

def Phase.waits : Phase → Bool
  | .enqueue _ => true
  | .poll => true
  | .pollList _ => true
  | .pollJob _ _ _ => true
  | _ => false

/- When the switch looks: the ten minutes are not over before its uninstall has failed, and no other
row of the software, and no job of it that the view lists, is in error. -/
def Undisturbed (w : Switch) (item : Option UUID) (ended : Option Status) (k : Turn) : Phase → Prop
  | .poll => k.expired = false ∨ ended = some .error
  | .pollJob items [] visible =>
    (∀ it ∈ items, it.softwareID = w.softwareID → it.status = .error → item = some it.id) ∧
    ∀ j ∈ mergedJobs items visible, j.softwareID = w.softwareID → j.running = true
  | _ => True

instance (w : Switch) (item : Option UUID) (ended : Option Status) (k : Turn) (p : Phase) :
    Decidable (Undisturbed w item ended k p) := by
  unfold Undisturbed
  split <;> infer_instance

/- While the switch waits, its row is not cut off, retried, dismissed, skipped, cancelled or ended as
dismissed, and nothing else disturbs it when it looks. -/
def Calm (w : Switch) (s : State) : Move → Prop
  | .process (.call _) => True
  | .process (.step i _) =>
    s.phase.waits = true → ∀ t ∈ s.process.pool[i]?, ∀ n ∈ s.item, Spares n s.process t
  | .turn k => Undisturbed w s.item s.ended k s.phase

instance (w : Switch) (s : State) (e : Move) : Decidable (Calm w s e) := by
  unfold Calm
  split <;> infer_instance

/- What a look at the rows shows of the own one. -/
structure Seen (n : UUID) (softwareID : String) (items : List QueueItem) (ended : Option Status) : Prop where
  shown : (∃ it ∈ items, it.softwareID = softwareID ∧ it.live = true) ∨
    (∃ it ∈ items, it.softwareID = softwareID ∧ it.status = .error) ∨ ended = some .success
  error : ∀ it ∈ items, it.id = n → it.status = .error → ended = some .error

theorem rowShown {n : UUID} {status : Status} {q : BulkQueue} (there : 0 < rows n status q) :
    ∃ it ∈ q.items, it.id = n ∧ it.status = status := by
  obtain ⟨it,mem,row⟩ := List.countP_pos_iff.mp there
  simp only [isRow,Bool.and_eq_true,beq_iff_eq] at row
  exact ⟨it,mem,row.1,row.2⟩

theorem ownedSeen {n : UUID} {softwareID : String} {c : Process} {ended : Option Status} (owned : Owned n softwareID c ended) :
    Seen n softwareID c.shared.queue.items ended := by
  constructor
  · rcases owned.fair with open' | won | failed
    · have counted := owned.counted
      have claimed := owned.claimed
      rw [if_pos open'] at counted
      have live : 0 < rows n .pending c.shared.queue ∨ 0 < rows n .running c.shared.queue := by omega
      rcases live with pending | running
      · obtain ⟨it,mem,here,status⟩ := rowShown pending
        exact .inl ⟨it,mem,(owned.row it mem here).1,by simp [QueueItem.live,status]⟩
      · obtain ⟨it,mem,here,status⟩ := rowShown running
        exact .inl ⟨it,mem,(owned.row it mem here).1,by simp [QueueItem.live,status]⟩
    · exact .inr (.inr won)
    · obtain ⟨it,mem,here,status⟩ := rowShown (owned.failed.mpr failed)
      exact .inr (.inl ⟨it,mem,(owned.row it mem here).1,status⟩)
  · intro it mem here status
    refine owned.failed.mp (List.countP_pos_iff.mpr ⟨it,mem,?_⟩)
    simp [isRow,here,status]

theorem verdictFailed {softwareID : String} {items : List QueueItem} {visible : List VisibleJob}
    (told : verdict softwareID items visible = .failed) :
    (∃ it ∈ items, it.softwareID = softwareID ∧ it.status = .error) ∨
      ∃ j ∈ mergedJobs items visible, j.softwareID = softwareID ∧ j.running = false := by
  unfold verdict at told
  dsimp only at told
  split at told
  · rename_i found
    simp only [Bool.or_eq_true,List.any_eq_true,List.mem_filter,beq_iff_eq,activeRows,Bool.not_eq_true'] at found
    rcases found with ⟨it,⟨⟨mem,_⟩,same⟩,status⟩ | ⟨j,⟨mem,same⟩,status⟩
    · exact .inl ⟨it,mem,same,status⟩
    · exact .inr ⟨j,mem,same,status⟩
  · split at told <;> cases told

theorem verdictOver {softwareID : String} {items : List QueueItem} {visible : List VisibleJob}
    (told : verdict softwareID items visible = .finished) {it : QueueItem} (mem : it ∈ items) (same : it.softwareID = softwareID) :
    it.live = false ∧ it.status ≠ .error := by
  unfold verdict at told
  dsimp only at told
  split at told <;> try contradiction
  split at told <;> try contradiction
  rename_i sound still
  simp only [Bool.or_eq_true,List.any_eq_true,List.mem_filter,beq_iff_eq,activeRows,not_or,not_exists] at sound still
  have notError : it.status ≠ .error := fun status => sound.1 it ⟨⟨⟨mem,by simp [status]⟩,same⟩,status⟩
  refine ⟨?_,notError⟩
  by_contra live
  rw [Bool.not_eq_false] at live
  exact still.1 it ⟨⟨⟨mem,by simp [live]⟩,same⟩,live⟩

/- What the phases of a switch know. -/
def Tracks (w : Switch) (s : State) : Prop :=
  match s.phase with
  | .look => s.item = none ∧ s.ended = none ∧ Below s.process
  | .enqueue r =>
    (s.item = none ∧ s.ended = none ∧ Below s.process ∧
      (r = .switchCancel w.softwareID none .uninstall ∨ r = .enqueueActions true .uninstall [w.softwareID])) ∨
    (∃ n, s.item = some n ∧ s.ended = none ∧ n < s.process.shared.drawn ∧ Only (fun id => id ≠ n) s.process ∧
      r = .append true [newItem n w.softwareID .uninstall]) ∨
    (∃ n, s.item = some n ∧ Owned n w.softwareID s.process s.ended ∧ (r = .kick ∨ ∃ db, r = .flagged db))
  | .poll => ∃ n, s.item = some n ∧ Owned n w.softwareID s.process s.ended
  | .pollList items => ∃ n, s.item = some n ∧ Owned n w.softwareID s.process s.ended ∧ Seen n w.softwareID items s.ended
  | .pollJob items _ _ => ∃ n, s.item = some n ∧ Owned n w.softwareID s.process s.ended ∧ Seen n w.softwareID items s.ended
  | .failed f => f.queue = true → s.ended = some .error ∨ s.ended = some .cancelled
  | _ => s.item = none ∨ s.ended = some .success

theorem tracksSound {s : State} (tracks : Tracks w s) : Sound s := by
  constructor
  · rintro (here | here | here) <;> rw [Tracks,here] at tracks <;> exact tracks
  · intro f here
    rw [Tracks,here] at tracks
    exact tracks

theorem endedGrows {n : UUID} {ended : Option Status} {t : Goroutine} {status : Status} (finished : ended = some status) :
    endedBy n ended t = some status := by
  rw [finished]
  rfl

theorem seenLater {n : UUID} {softwareID : String} {items : List QueueItem} {ended : Option Status}
    (seen : Seen n softwareID items ended) (t : Goroutine) : Seen n softwareID items (endedBy n ended t) := by
  refine ⟨?_,fun it mem here status => endedGrows (seen.error it mem here status)⟩
  rcases seen.shown with live | error | won
  · exact .inl live
  · exact .inr (.inl error)
  · exact .inr (.inr (endedGrows won))

/- The process goes on beside a switch. -/
theorem ownedExec {n : UUID} {c p : Process} {ended : Option Status} {e : Interleaving.Event Call Choice}
    (owned : Owned n w.softwareID c ended) (spares : ∀ i k t, e = .step i k → c.pool[i]? = some t → Spares n c t)
    (ran : exec (host m) c e = some p) :
    ∃ ended', Owned n w.softwareID p ended' ∧ (∀ items, Seen n w.softwareID items ended → Seen n w.softwareID items ended') ∧
      ∀ s : State, s.process = c → s.item = some n → s.ended = ended → s.endedAfter e = ended' := by
  cases execMoved ran with
  | call r =>
    obtain ⟨none,idle⟩ := startedCargo (startCases m r)
    have held : load (heldBy n) (c.pool ++ [start m r]) = load (heldBy n) c.pool := by
      simp [heldBy,idle]
    refine ⟨ended,⟨owned.drawn,?_,owned.row,?_,le_of_eq_of_le held owned.claimed,owned.failed,owned.fair⟩,
      fun _ seen => seen,fun s _ _ same => same⟩
    swap
    · exact (congrArg (fun l => rows n .pending c.shared.queue + l) held).trans owned.counted
    intro t mem
    rcases List.mem_append.mp mem with old | fresh
    · exact owned.uncarried t old
    · have silent : cargo t = [] := List.mem_singleton.mp fresh ▸ none
      simp [silent]
  | @step i k t s' g new found stepped =>
    refine ⟨endedBy n ended t,ownedStep owned found (spares i k t rfl found) stepped,fun _ seen => seenLater seen t,?_⟩
    intro s here item same
    simp only [State.endedAfter,item,here,found,same]

theorem tracksOpening (installed : Installed) : Tracks w (opening installed) := ⟨rfl,rfl,belowBoot installed⟩

theorem endedNone {s : State} (item : s.item = none) (e : Interleaving.Event Call Choice) : s.endedAfter e = s.ended := by
  cases e with
  | call r => rfl
  | step i k => simp only [State.endedAfter,item]

theorem endedStays {s : State} {status : Status} (finished : s.ended = some status) (e : Interleaving.Event Call Choice) :
    s.endedAfter e = some status := by
  cases e with
  | call r => exact finished
  | step i k =>
    simp only [State.endedAfter]
    split
    · exact endedGrows finished
    · exact finished

theorem endingHeld {n : UUID} {status : Status} {t : Goroutine} (ends : ending t = some (n,status)) : n ∈ heldIDs t := by
  cases t with
  | worker v => cases v <;> simp_all [ending,heldIDs,Worker.item]
  | _ => cases ends

/- A row that is drawn and not yet appended. -/
theorem drawnExec {n : UUID} {c p : Process} {e : Interleaving.Event Call Choice} (drawn : n < c.shared.drawn)
    (only : Only (fun id => id ≠ n) c) (ran : exec (host m) c e = some p) :
    n < p.shared.drawn ∧ Only (fun id => id ≠ n) p ∧
      ∀ s : State, s.process = c → s.item = some n → s.ended = none → s.endedAfter e = none := by
  cases execMoved ran with
  | call r => exact ⟨drawn,onlyCall only m r,fun s _ _ same => same⟩
  | @step i k t s' g new found stepped =>
    have later : c.shared.drawn ≤ s'.drawn := stepDrawn stepped
    refine ⟨Nat.lt_of_lt_of_le drawn later,onlyStep only found ?_ stepped,fun s here item same => ?_⟩
    · intro id after _
      exact Nat.ne_of_gt (Nat.lt_of_lt_of_le drawn after)
    · have apart : ∀ status, ending t ≠ some (n,status) := fun status ends =>
        only.held t (List.mem_of_getElem? found) n (endingHeld ends) rfl
      simp only [State.endedAfter,item,here,found,same,endedApart apart]

theorem tracksProcess {s : State} {p : Process} {e : Interleaving.Event Call Choice} (tracks : Tracks w s)
    (calm : Calm w s (.process e)) (ran : exec (host m) s.process e = some p) :
    Tracks w {s with process := p, ended := s.endedAfter e} := by
  obtain ⟨c,phase,item,ended⟩ := s
  have below (before : Below c) : Below p := by
    refine execPreserved (belowPreserved m) before ?_ ran
    cases e with
    | call r => trivial
    | step i k => exact fun _ _ => trivial
  have spares (waits : phase.waits = true) {n : UUID} (item : item = some n) :
      ∀ i k t, e = .step i k → c.pool[i]? = some t → Spares n c t := by
    rintro i k t rfl found
    exact calm waits t found n item
  have finished (ends : item = none ∨ ended = some .success) :
      item = none ∨ State.endedAfter ⟨c,phase,item,ended⟩ e = some .success := ends.imp id fun won => endedStays won e
  cases phase with
  | look =>
    obtain ⟨none,open',before⟩ := tracks
    exact ⟨none,(endedNone none e).trans open',below before⟩
  | enqueue r =>
    rcases tracks with ⟨none,open',before,here⟩ | ⟨n,own,open',drawn,only,here⟩ | ⟨n,own,owned,here⟩
    · exact .inl ⟨none,(endedNone none e).trans open',below before,here⟩
    · obtain ⟨drawn,only,same⟩ := drawnExec drawn only ran
      exact .inr (.inl ⟨n,own,same _ rfl own open',drawn,only,here⟩)
    · obtain ⟨ended',owned,_,same⟩ := ownedExec owned (spares rfl own) ran
      exact .inr (.inr ⟨n,own,same _ rfl own rfl ▸ owned,here⟩)
  | poll =>
    obtain ⟨n,own,owned⟩ := tracks
    obtain ⟨ended',owned,_,same⟩ := ownedExec owned (spares rfl own) ran
    exact ⟨n,own,same _ rfl own rfl ▸ owned⟩
  | pollList items =>
    obtain ⟨n,own,owned,seen⟩ := tracks
    obtain ⟨ended',owned,later,same⟩ := ownedExec owned (spares rfl own) ran
    exact ⟨n,own,same _ rfl own rfl ▸ owned,same _ rfl own rfl ▸ later items seen⟩
  | pollJob items todo visible =>
    obtain ⟨n,own,owned,seen⟩ := tracks
    obtain ⟨ended',owned,later,same⟩ := ownedExec owned (spares rfl own) ran
    exact ⟨n,own,same _ rfl own rfl ▸ owned,same _ rfl own rfl ▸ later items seen⟩
  | failed f => exact fun queue => (tracks queue).imp (fun lost => endedStays lost e) (fun lost => endedStays lost e)
  | install => exact finished tracks
  | mark => exact finished tracks
  | done => exact finished tracks

/- The row that comes last is never the one cut off. -/
theorem appendedRows {n : UUID} {q : BulkQueue} (db : Bool) (item : QueueItem) (absent : ∀ it ∈ q.items, it.id ≠ n) (status : Status) :
    rows n status (q.append db [item]) = [item].countP (isRow n status) := by
  have none {l : List QueueItem} (away : ∀ it ∈ l, it.id ≠ n) : l.countP (isRow n status) = 0 := by
    rw [List.countP_eq_zero]
    intro it mem row
    simp only [isRow,Bool.and_eq_true,beq_iff_eq] at row
    exact away it mem row.1
  have cut : ∀ it ∈ overflow (q.items ++ [item]), it.id ≠ n := by
    intro it mem
    have short : (q.items ++ [item]).length - historyLimit ≤ q.items.length := by
      rw [List.length_append,List.length_singleton,historyLimit]
      omega
    rw [overflow,List.take_append_of_le_length short] at mem
    exact absent it (List.mem_of_mem_take mem)
  have split := boundedCount (isRow n status) (q.items ++ [item])
  rw [none cut,List.countP_append,none absent,Nat.zero_add,Nat.zero_add] at split
  exact split

theorem ownedAppend {n : UUID} {s : Shared} {pool : List Goroutine} (drawn : n < s.drawn) (only : Only (fun id => id ≠ n) ⟨s,pool⟩) :
    Owned n w.softwareID ⟨s.queued (s.queue.append true [newItem n w.softwareID .uninstall]) [newItem n w.softwareID .uninstall],pool⟩ none := by
  have counts := appendedRows true (newItem n w.softwareID .uninstall) only.rows
  have free : load (heldBy n) pool = 0 := (loadZero _ _).mpr fun t mem =>
    List.count_eq_zero_of_not_mem fun holds => only.held t mem n holds rfl
  refine ⟨drawn,only.cargo,?_,?_,?_,?_,.inl rfl⟩
  · intro it mem here
    rcases List.mem_append.mp (memBounded mem) with before | last
    · exact absurd here (only.rows it before)
    · rw [List.mem_singleton.mp last]
      exact ⟨rfl,rfl⟩
  · refine (congrArg₂ (· + ·) (counts .pending) free).trans ?_
    simp [isRow,newItem]
  · exact le_of_eq_of_le free (Nat.zero_le _)
  · refine (iff_of_eq (congrArg (0 < ·) (counts .error))).trans ?_
    simp [isRow,newItem]

theorem ownedBeside {n : UUID} {softwareID : String} {s s' : Shared} {pool new : List Goroutine} {ended : Option Status}
    (owned : Owned n softwareID ⟨s,pool⟩ ended) (items : s'.queue.items = s.queue.items) (drawn : s'.drawn = s.drawn)
    (idle : ∀ u ∈ new, cargo u = [] ∧ heldBy n u = 0) : Owned n softwareID ⟨s',pool ++ new⟩ ended := by
  have held : load (heldBy n) (pool ++ new) = load (heldBy n) pool := by
    rw [loadAppend,(loadZero (heldBy n) new).mpr fun u mem => (idle u mem).2]
    rfl
  have same (status : Status) : rows n status s'.queue = rows n status s.queue := by rw [rows,rows,items]
  refine ⟨drawn ▸ owned.drawn,?_,items ▸ owned.row,?_,?_,?_,owned.fair⟩
  · intro t mem
    rcases List.mem_append.mp mem with old | fresh
    · exact owned.uncarried t old
    · simp [(idle t fresh).1]
  · exact (congrArg₂ (· + ·) (same .pending) held).trans owned.counted
  · exact le_of_eq_of_le held (le_of_le_of_eq owned.claimed (same .running).symm)
  · exact (iff_of_eq (congrArg (0 < ·) (same .error))).trans owned.failed

theorem tracksEnqueue {c : Process} {r : Request} {item : Option UUID} {ended : Option Status} {k : Turn} {s' : State}
    (tracks : Tracks w ⟨c,.enqueue r,item,ended⟩) (moved : w.next m k ⟨c,.enqueue r,item,ended⟩ = some s') : Tracks w s' := by
  rcases tracks with ⟨none,open',below,rfl | rfl⟩ | ⟨n,own,open',drawn,only,rfl⟩ | ⟨n,own,owned,rfl | ⟨db,rfl⟩⟩
  · have names : uniqueNonEmpty [w.softwareID] = [w.softwareID] := by
      simp [uniqueNonEmpty,uniqueFrom,w.trimmed,w.named]
    simp only [Switch.next,Request.next,startActions,names,afterRequest,List.append_nil] at moved
    rw [if_neg (by simp)] at moved
    cases moved
    refine .inl ⟨none,open',⟨?_,below.cargo,below.held⟩,.inr rfl⟩
    intro it mem
    obtain ⟨old,there,same,_⟩ := fromCancel c.shared.queue w.softwareID it mem
    exact same ▸ below.rows old there
  · simp only [Switch.next,Request.next,go,afterRequest,List.append_nil] at moved
    cases moved
    refine .inr (.inl ⟨c.shared.drawn,rfl,open',Nat.lt_succ_self _,?_,rfl⟩)
    have apart : Only (fun id => id ≠ c.shared.drawn) c := onlyMore (fun id before => Nat.ne_of_lt before) below
    exact ⟨apart.rows,apart.cargo,apart.held⟩
  · simp only [Switch.next,Request.next,go,afterRequest,List.append_nil] at moved
    cases moved
    have owned := ownedAppend (w := w) drawn only
    exact .inr (.inr ⟨n,own,open' ▸ owned,.inl rfl⟩)
  · simp only [Switch.next,Request.next] at moved
    split at moved
    · cases moved
    · rename_i stepped
      split at stepped <;> cases stepped <;> cases moved
      · exact ⟨n,own,ownedBeside owned rfl rfl (by simp)⟩
      · exact .inr (.inr ⟨n,own,ownedBeside owned rfl rfl (by simp),.inr ⟨_,rfl⟩⟩)
  · simp only [Switch.next,Request.next] at moved
    split at moved
    · cases moved
    · rename_i stepped
      split at stepped <;> cases stepped <;> cases moved
      · exact ⟨n,own,ownedBeside owned rfl rfl (by simp [cargo,heldBy,heldIDs,Worker.item])⟩
      · exact ⟨n,own,ownedBeside owned rfl rfl (by simp)⟩

theorem tracksTurn {s s' : State} {k : Turn} (tracks : Tracks w s) (calm : Calm w s (.turn k))
    (moved : w.next m k s = some s') : Tracks w s' := by
  obtain ⟨c,phase,item,ended⟩ := s
  cases phase with
  | look =>
    obtain ⟨none,open',below⟩ := tracks
    simp only [Switch.next,State.to] at moved
    split at moved
    · split at moved
      · split at moved <;> cases moved
        · exact .inl ⟨none,open',below,.inl rfl⟩
        · exact nofun
      · cases moved
        exact .inl none
    · cases moved
      exact .inl none
  | enqueue r => exact tracksEnqueue tracks moved
  | poll =>
    obtain ⟨n,own,owned⟩ := tracks
    simp only [Switch.next,State.to] at moved
    split at moved
    · cases moved
      exact nofun
    · split at moved <;> cases moved
      · rename_i expired
        exact fun _ => .inl (calm.resolve_left (by simp [expired]))
      · exact ⟨n,own,owned,ownedSeen owned⟩
  | pollList items =>
    obtain ⟨n,own,owned,seen⟩ := tracks
    cases moved
    exact ⟨n,own,owned,seen⟩
  | pollJob items todo visible =>
    obtain ⟨n,own,owned,seen⟩ := tracks
    cases todo with
    | nil =>
      obtain ⟨alone,running⟩ := calm
      simp only [Switch.next,State.to] at moved
      split at moved
      · rename_i told
        cases moved
        rcases verdictFailed told with ⟨it,mem,same,status⟩ | ⟨j,mem,same,status⟩
        · have mine : it.id = n := (Option.some.inj (own.symm.trans (alone it mem same status))).symm
          exact fun _ => .inl (seen.error it mem mine status)
        · rw [running j mem same] at status
          cases status
      · split at moved <;> cases moved
        · exact nofun
        · exact ⟨n,own,owned⟩
      · rename_i told
        cases moved
        rcases seen.shown with ⟨it,mem,same,live⟩ | ⟨it,mem,same,error⟩ | won
        · rw [(verdictOver told mem same).1] at live
          cases live
        · exact absurd error (verdictOver told mem same).2
        · exact .inr won
    | cons id rest =>
      simp only [Switch.next,State.to] at moved
      split at moved <;> cases moved
      exact ⟨n,own,owned,seen⟩
  | install =>
    simp only [Switch.next,State.to] at moved
    split at moved <;> cases moved
    · exact nofun
    · exact tracks
  | mark =>
    simp only [Switch.next,State.to] at moved
    split at moved <;> cases moved
    · exact nofun
    · exact tracks
  | done => cases moved
  | failed f => cases moved

theorem tracksStep {s s' : State} {e : Move} (tracks : Tracks w s) (calm : Calm w s e) (moved : step m w s e = some s') :
    Tracks w s' := by
  cases e with
  | process e =>
    simp only [step] at moved
    split at moved <;> cases moved
    exact tracksProcess tracks calm (by assumption)
  | turn k => exact tracksTurn tracks calm moved

/- The wait is right in every run whose moves are calm. -/
theorem switchSound (m : CaseMap) (w : Switch) (installed : Installed) {moves : List Move} {s : State}
    (calm : Runs.Guided (step m w) (Calm w) (opening installed) moves)
    (ran : Runs.run (step m w) (opening installed) moves = some s) : Sound s :=
  tracksSound (Runs.runGuided (fun tracks calm moved => tracksStep tracks calm moved) (tracksOpening installed) calm ran)

def jq : Switch where
  softwareID := "jq"
  versionID := "v1"
  uninstallScript := true
  trimmed := by decide
  named := by decide

/- The software is a local install. -/
def local' : Installed := fun softwareID => if softwareID = "jq" then some ⟨"v0",.packageManagerLocal,false,false⟩ else none

/- The uninstall is enqueued and its script runs to an end; then the switch looks at the queue. -/
def waiting (outcome : Outcome) : List Move :=
  (List.replicate 6 (.turn {}) : List Move) ++ (List.replicate 9 (.process (.step 0 {})) : List Move) ++
    ([.process (.step 0 {outcome := outcome})] : List Move)

def looking : List Move := List.replicate 6 (.turn {})

def uninstalled : List Move := waiting .success ++ List.replicate 6 (.process (.step 0 {})) ++ looking

theorem switchSoundUninstalled : ∃ s, Runs.run (step ascii jq) (opening local') uninstalled = some s ∧ s.phase = .done ∧ Sound s := by
  have done : (Runs.run (step ascii jq) (opening local') uninstalled).map State.phase = some .done := by decide +kernel
  obtain ⟨s,ran,phase⟩ := Option.map_eq_some_iff.mp done
  exact ⟨s,ran,phase,switchSound ascii jq local' (by decide +kernel) ran⟩

/- The script of the uninstall is cancelled; the row leaves the view all the same. -/
def cancelled : List Move := waiting .cancelled ++ List.replicate 4 (.process (.step 0 {})) ++ looking

theorem cancelledGoesOn : ¬∀ moves s, Runs.run (step ascii jq) (opening local') moves = some s → Sound s := by
  intro all
  have done : (Runs.run (step ascii jq) (opening local') cancelled).map (fun s => (s.phase,s.item,s.ended)) =
      some (.done,some 0,some .cancelled) := by decide +kernel
  obtain ⟨s,ran,same⟩ := Option.map_eq_some_iff.mp done
  simp only [Prod.mk.injEq] at same
  have ends := (all cancelled s ran).after (.inr (.inr same.1))
  rw [same.2.1,same.2.2] at ends
  simp at ends

end ContainerWS.Brew
