import ContainerWS.JobLog.Shape

/-! `finish` and the subscribers that attached while the job ran. Its events are
offered like any other, so a full channel loses them; the goroutine that closes
the channels starts when nothing is left to offer. -/
namespace ContainerWS.JobLog
open Install Interleaving GoStrings

/- The event tells the status that `finish` was called with. -/
def Reports (f : Final) (ev : StreamEvent) : Prop :=
  match ev.type with
  | .cancelled => f.status = .cancelled
  | .done => f.status ≠ .cancelled ∧ ev.success = some (f.status == .success)
  | .error => f.status = .error
  | _ => False

def tellsTo (i : Nat) : List Op → Nat
  | [] => 0
  | .tell _ subs :: ops => subs.count i + tellsTo i ops
  | _ :: ops => tellsTo i ops

/- The events of `finish` that a goroutine still has to offer to a subscriber. -/
def owes (i : Nat) : Goroutine → Nat
  | .voice (.script ops) => tellsTo i ops
  | .sends _ subs (.script ops) => (if .close ∈ ops then subs.count i else 0) + tellsTo i ops
  | _ => 0

def closes : Goroutine → Nat
  | .closer => 1
  | _ => 0

structure Told (i : Nat) (c : Process) (cl : Client) : Prop where
  kind : ∀ f, c.shared.job.final = some f → ∀ ev ∈ cl.arrived, ev.terminal = true →
    ev ∈ c.shared.job.finishEvents f
  owed : ∀ f, c.shared.job.final = some f → cl.position = .following →
    (∃ ev ∈ cl.arrived, ev ∈ c.shared.job.finishEvents f) ∨ 0 < load (owes i) c.pool
  ended : cl.position ≠ .following → cl.connected = true →
    ∃ f, c.shared.job.final = some f ∧ ∃ ev ∈ cl.written, ev ∈ c.shared.job.finishEvents f
  shut : cl.closed = true → load (owes i) c.pool = 0

structure Telling (i : Nat) (c : Process) : Prop where
  told : ∀ cl, c.shared.clients[i]? = some cl → cl.running = true → Told i c cl
  closers : 0 < load closes c.pool → load (owes i) c.pool = 0

/- When the last event of `finish` is offered to a subscriber that still follows,
its channel has room or an earlier event of `finish` went through. -/
def LastTold (i : Nat) (c : Process) : Goroutine → Prop
  | .sends ev (j :: _) (.script ops) => j = i → ev.terminal = true → tellsTo i ops = 0 →
      ∀ cl ∈ c.shared.clients[i]?, cl.position = .following →
        cl.channel.length < bufferSize ∨ ∃ e ∈ cl.arrived, e.terminal = true
  | _ => True

instance (i : Nat) (c : Process) (t : Goroutine) : Decidable (LastTold i c t) := by
  unfold LastTold
  split <;> infer_instance

theorem finishReports {j : Job} {f : Final} {ev : StreamEvent} (mem : ev ∈ j.finishEvents f) : Reports f ev := by
  unfold Job.finishEvents at mem
  rcases List.mem_cons.mp mem with rfl | reason
  · unfold Reports Job.finishEvent
    by_cases cancelled : f.status = .cancelled
    · simp [cancelled]
    · simp [cancelled]
  · split at reason
    · rename_i tells
      rw [List.mem_singleton.mp reason]
      unfold Final.tellsReason at tells
      simp only [Bool.and_eq_true,beq_iff_eq] at tells
      exact tells.1
    · contradiction

theorem finishTerminal {j : Job} {f : Final} {ev : StreamEvent} (mem : ev ∈ j.finishEvents f) :
    ev.terminal = true := by
  unfold Job.finishEvents at mem
  rcases List.mem_cons.mp mem with rfl | reason
  · unfold StreamEvent.terminal Job.finishEvent
    by_cases cancelled : f.status = .cancelled
    · simp [cancelled]
    · simp [cancelled]
  · split at reason
    · rw [List.mem_singleton.mp reason]
      rfl
    · contradiction

theorem owesScript {i : Nat} {t : Goroutine} (silent : scripting t = 0) : owes i t = 0 := by
  cases t with
  | voice v => cases v <;> first | rfl | contradiction
  | sends ev subs after => cases after <;> first | rfl | contradiction
  | _ => rfl

theorem voicelessOwes {i : Nat} {t : Goroutine} (none : t.voiceOf = none) : owes i t = 0 :=
  owesScript (by unfold scripting; rw [none])

/- After `finish` a step other than an offer leaves open what is owed. -/
theorem owesSame {i : Nat} {s s' : Shared} {t g : Goroutine} {new : List Goroutine} {f : Final}
    (own : Fits s t) (finished : s.job.final = some f) (step : Step s t s' g new)
    (other : ∀ ev j rest after, t ≠ .sends ev (j :: rest) after) :
    s'.job = s.job ∧ owes i g + load (owes i) new = owes i t := by
  cases step with
  | publish copy => cases fitsOver own finished
  | append copy => cases fitsOver own finished
  | read copy =>
    rw [fitsReading own] at finished
    contradiction
  | turn turns pending => cases fitsOver own finished <;> contradiction
  | awake ready pending => cases fitsOver own finished
  | spawn => cases fitsOver own finished
  | finish copy => cases fitsOver own finished
  | tell =>
    cases fitsOver own finished with
    | tell reason => simp [owes,tellsTo]
  | close =>
    cases fitsOver own finished with
    | close => exact ⟨rfl,rfl⟩
  | accept there opened room => exact absurd rfl (other _ _ _ _)
  | drop there opened full => exact absurd rfl (other _ _ _ _)
  | @sent ev after =>
    refine ⟨rfl,?_⟩
    cases after <;> simp [owes]
  | file files =>
    obtain ⟨before,after⟩ := filesSilent files
    exact ⟨rfl,by rw [voicelessOwes before,voicelessOwes after]; rfl⟩
  | _ => exact ⟨rfl,rfl⟩

theorem closesOver {s : Shared} {u : Goroutine} (fits : Fits s u) (positive : 0 < closes u) :
    s.job.final ≠ none := by
  cases fits with
  | closer finished => exact finished
  | idle idle => cases u <;> contradiction
  | _ => contradiction

theorem owesFinish {i : Nat} {j : Job} {f : Final} {ev : StreamEvent} {subs : List Nat}
    (one : subs.count i = 1) : 0 < owes i (.sends ev subs (.script (afterFinish j f subs))) := by
  have closes : .close ∈ afterFinish j f subs := by
    unfold afterFinish
    split <;> simp
  simp only [owes,if_pos closes,one]
  omega

theorem toldRunning {i : Nat} {c : Process} {cl : Client} (running : c.shared.job.final = none)
    (closed : cl.closed = false) (here : cl.connected = true → cl.position = .following) : Told i c cl := by
  constructor
  · intro f finished
    rw [running] at finished
    contradiction
  · intro f finished
    rw [running] at finished
    contradiction
  · exact fun left connected => absurd (here connected) left
  · intro shut
    rw [closed] at shut
    contradiction

theorem runningFollows {i : Nat} {c : Process} {cl : Client} (told : Told i c cl)
    (running : c.shared.job.final = none) (connected : cl.connected = true) : cl.position = .following := by
  by_contra left
  obtain ⟨f,finished,_⟩ := told.ended left connected
  rw [running] at finished
  contradiction

/- A writer of a running job leaves only when its client is gone. -/
theorem movesRunning {cl cl' : Client} {subscribers : List Nat} {i : Nat} (attached : Attached subscribers i cl)
    (here : cl.connected = true → cl.position = .following) (moved : Moves cl cl')
    (connected : cl'.connected = true) : cl'.position = .following := by
  cases moved with
  | @write ev rest at_ todo =>
    have calm := calmStops (attached.calm ev (by simp [Client.arrived,todo]))
    simp [calm]
  | fail at_ => contradiction
  | receive at_ todo running channel => exact at_
  | finished at_ todo last =>
    have closed := (last attached.running).2
    rw [attached.closed] at closed
    contradiction
  | past before after fewer => exact absurd (here connected) before

/- Nobody is owed anything while the job runs. -/
theorem tellingRunning {i : Nat} {s s' : Shared} {pool new : List Goroutine} {k : Nat} {t g : Goroutine}
    (shape : Shape ⟨s,pool⟩) (telling : Telling i ⟨s,pool⟩) (found : pool[k]? = some t)
    (step : Step s t s' g new) (running : s.job.final = none) (still : s'.job.final = none) :
    Telling i ⟨s',pool.set k g ++ new⟩ := by
  have own : Fits s t := shape.fits t (List.mem_of_getElem? found)
  have after := shapeStep shape found step
  have opened : Opened s' := after.opened still
  have opened' : Opened s := shape.opened running
  have follows : ∀ cl, s.clients[i]? = some cl → cl.connected = true → cl.position = .following :=
    fun cl there => runningFollows (telling.told cl there (opened' i cl there).running) running
  constructor
  · intro cl there _
    apply toldRunning still (opened i cl there).closed
    cases step with
    | accept reached open_ room =>
      rcases setCases there with ⟨rfl,rfl⟩ | ⟨_,old⟩
      · have same := follows _ reached
        exact same
      · exact follows cl old
    | closeAll =>
      cases own with
      | closer finished => exact absurd running finished
      | idle idle => contradiction
    | attach =>
      rcases concatCases there with ⟨_,rfl⟩ | old
      · exact fun _ => rfl
      · exact follows cl old
    | write reached moved =>
      rcases setCases there with ⟨rfl,rfl⟩ | ⟨_,old⟩
      · exact movesRunning (opened' _ _ reached) (follows _ reached) moved
      · exact follows cl old
    | _ => exact follows cl there
  · intro some
    obtain ⟨u,mem,positive⟩ := loadPositive closes some
    exact absurd still (closesOver (after.fits u mem) positive)

/- The call of `finish` owes its events to every subscriber that follows. -/
theorem tellingFinish {i : Nat} {s : Shared} {pool : List Goroutine} {k : Nat} {f : Final} {subs : List Nat}
    {ops : List Op} (shape : Shape ⟨s,pool⟩) (telling : Telling i ⟨s,pool⟩)
    (found : pool[k]? = some (.voice (.script (.finish f :: ops)))) (copy : subs.Perm s.subscribers)
    (running : s.job.final = none) :
    Telling i ⟨{s with job := {s.job with final := some f}},
      pool.set k (.sends (s.job.finishEvent f) subs (.script (afterFinish s.job f subs))) ++ []⟩ := by
  have opened : Opened s := shape.opened running
  constructor
  · intro cl there live
    have attached := opened i cl there
    constructor
    · intro _ _ ev mem terminal
      rw [attached.calm ev mem] at terminal
      contradiction
    · intro _ _ following
      right
      have one : subs.count i = 1 := by rw [copy.count_eq]; exact attached.listed following
      have moved := loadStep (owes i) (.sends (s.job.finishEvent f) subs (.script (afterFinish s.job f subs)))
        [] found
      have mine := loadMember (owes i) (List.mem_of_getElem? found)
      have some : 0 < owes i (.sends (s.job.finishEvent f) subs (.script (afterFinish s.job f subs))) :=
        owesFinish one
      simp only [loadNil] at moved
      show 0 < load (owes i) (pool.set k _ ++ [])
      omega
    · intro left connected
      exact absurd (runningFollows (telling.told cl there live) running connected) left
    · intro shut
      rw [attached.closed] at shut
      contradiction
  · intro some
    have moved := loadStep closes (.sends (s.job.finishEvent f) subs (.script (afterFinish s.job f subs)))
      [] found
    have none : load closes pool = 0 := by
      by_contra positive
      obtain ⟨u,mem,one⟩ := loadPositive closes (Nat.pos_of_ne_zero positive)
      exact closesOver (shape.fits u mem) one running
    have zero : closes (.sends (s.job.finishEvent f) subs (.script (afterFinish s.job f subs))) = 0 := rfl
    simp only [loadNil] at moved some
    omega

theorem toldKept {i : Nat} {c d : Process} {cl : Client} (told : Told i c cl)
    (job : d.shared.job = c.shared.job) (same : load (owes i) d.pool = load (owes i) c.pool) :
    Told i d cl := by
  constructor
  · rw [job]
    exact told.kind
  · rw [job,same]
    exact told.owed
  · rw [job]
    exact told.ended
  · rw [same]
    exact told.shut

theorem toldWrite {i : Nat} {c : Process} {cl cl' : Client} {f : Final} (told : Told i c cl)
    (finished : c.shared.job.final = some f) (live : cl.running = true) (moved : Moves cl cl') : Told i c cl' := by
  obtain ⟨_,closed,arrived⟩ := movesKeep moved
  constructor
  · exact fun f finished ev mem => told.kind f finished ev (arrived mem)
  · intro f finished following
    obtain ⟨here,same⟩ := movesArrived moved following
    rw [same]
    exact told.owed f finished here
  · intro left connected
    cases moved with
    | @write ev rest here todo =>
      have stops : ev.stops = true := by
        by_contra goesOn
        exact left (by simp [goesOn])
      have mem := told.kind f finished ev (by simp [Client.arrived,todo]) (stopsTerminal stops)
      exact ⟨f,finished,ev,by simp,mem⟩
    | fail here => contradiction
    | receive here todo running channel => exact absurd here left
    | finished here todo last =>
      obtain ⟨channel,shut⟩ := last live
      have nothing := told.shut shut
      rcases told.owed f finished here with ⟨ev,mem,finishes⟩ | more
      · refine ⟨f,finished,ev,?_,finishes⟩
        simpa [Client.arrived,todo,channel] using mem
      · omega
    | past before after fewer => exact told.ended before connected
  · rw [closed]
    exact told.shut

theorem closesMoves {s s' : Shared} {t g : Goroutine} {new : List Goroutine} (step : Step s t s' g new)
    (other : ∀ ops, t ≠ .voice (.script (.close :: ops))) : closes g + load closes new ≤ closes t := by
  cases step with
  | close => exact absurd rfl (other _)
  | file files =>
    have after := filesIdle files
    cases g <;> first | exact Nat.zero_le _ | contradiction
  | _ => exact Nat.zero_le _

/- The goroutine that closes the channels starts when nothing is owed. -/
theorem closeOwes {i : Nat} {c : Process} {k : Nat} {ops : List Op} {f : Final} (shape : Shape c)
    (found : c.pool[k]? = some (.voice (.script (.close :: ops)))) (finished : c.shared.job.final = some f) :
    load (owes i) c.pool = 0 := by
  rw [loadZero]
  intro u mem
  obtain ⟨j,there⟩ := List.mem_iff_getElem?.mp mem
  by_cases here : j = k
  · subst here
    rw [found] at there
    cases Option.some.inj there
    cases fitsOver (shape.fits _ mem) finished with
    | close => rfl
  · exact owesScript (besideScript shape here found rfl there)

/- One event of `finish` goes to one subscriber. -/
theorem offering {s : Shared} {ev : StreamEvent} {j : Nat} {rest : List Nat} {after : Voice} {f : Final}
    (fits : Fits s (.sends ev (j :: rest) after)) (finished : s.job.final = some f) :
    ev ∈ s.job.finishEvents f ∧ ∃ ops, after = .script ops ∧ ∀ i,
      owes i (.sends ev (j :: rest) after) = owes i (.sends ev rest after) + if j = i then 1 else 0 := by
  have ended : s.job.final ≠ none := by simp [finished]
  cases fits with
  | spoken running alone pending event aimed => exact absurd running ended
  | heard running event own aimed => exact absurd running ended
  | @telling f' _ _ ops here closing mem more =>
    rw [finished] at here
    cases Option.some.inj here
    refine ⟨mem,ops,rfl,?_⟩
    intro i
    simp only [owes,if_pos more,List.count_cons,beq_iff_eq]
    omega
  | idle idle => contradiction

theorem tellingOver {i : Nat} {s s' : Shared} {pool new : List Goroutine} {k : Nat} {t g : Goroutine}
    {f : Final} (shape : Shape ⟨s,pool⟩) (telling : Telling i ⟨s,pool⟩) (found : pool[k]? = some t)
    (step : Step s t s' g new) (finished : s.job.final = some f)
    (other : ∀ ev j rest after, t ≠ .sends ev (j :: rest) after) :
    Telling i ⟨s',pool.set k g ++ new⟩ := by
  have own : Fits s t := shape.fits t (List.mem_of_getElem? found)
  obtain ⟨job,owed⟩ := owesSame (i := i) own finished step other
  have moved := loadStep (owes i) g new found
  have same : load (owes i) (pool.set k g ++ new) = load (owes i) pool := by omega
  constructor
  · have kept : ∀ cl, Told i ⟨s,pool⟩ cl → Told i ⟨s',pool.set k g ++ new⟩ cl :=
      fun cl told => toldKept told job same
    intro cl there live
    cases step with
    | accept reached open_ room => exact absurd rfl (other _ _ _ _)
    | drop reached open_ full => exact absurd rfl (other _ _ _ _)
    | closeAll =>
      have nothing : load (owes i) pool = 0 := by
        apply telling.closers
        have mine := loadMember closes (List.mem_of_getElem? found)
        have one : closes .closer = 1 := rfl
        show 0 < load closes pool
        omega
      simp only [closeAll,List.getElem?_mapIdx,Option.map_eq_some_iff] at there
      obtain ⟨old,was,shut⟩ := there
      split at shut
      · cases shut
        have told := kept old (telling.told old was live)
        exact ⟨told.kind,told.owed,told.ended,fun _ => same.trans nothing⟩
      · cases shut
        exact kept cl (telling.told cl was live)
    | attach =>
      rcases concatCases there with ⟨_,rfl⟩ | old
      · simp [attachJobSSE,finished] at live
      · exact kept cl (telling.told cl old live)
    | write reached moves =>
      rcases setCases there with ⟨rfl,rfl⟩ | ⟨_,old⟩
      · have before := (movesKeep moves).1.symm.trans live
        exact kept _ (toldWrite (telling.told _ reached before) finished before moves)
      · exact kept cl (telling.told cl old live)
    | _ => exact kept cl (telling.told cl there live)
  · intro some
    show load (owes i) (pool.set k g ++ new) = 0
    rw [same]
    by_cases closing : ∃ ops, t = .voice (.script (.close :: ops))
    · obtain ⟨ops,rfl⟩ := closing
      exact closeOwes shape found finished
    · apply telling.closers
      have fewer := closesMoves step (fun ops here => closing ⟨ops,here⟩)
      have counted := loadStep closes g new found
      show 0 < load closes pool
      have some' : 0 < load closes (pool.set k g ++ new) := some
      omega

theorem tellingOffer {i : Nat} {s s' : Shared} {pool new : List Goroutine} {k : Nat} {g : Goroutine}
    {f : Final} {ev : StreamEvent} {j : Nat} {rest : List Nat} {after : Voice} (shape : Shape ⟨s,pool⟩)
    (telling : Telling i ⟨s,pool⟩) (found : pool[k]? = some (.sends ev (j :: rest) after))
    (guard : LastTold i ⟨s,pool⟩ (.sends ev (j :: rest) after))
    (step : Step s (.sends ev (j :: rest) after) s' g new) (finished : s.job.final = some f) :
    Telling i ⟨s',pool.set k g ++ new⟩ := by
  have own := shape.fits _ (List.mem_of_getElem? found)
  obtain ⟨mem,ops,rfl,owed⟩ := offering own finished
  have moved := loadStep (owes i) g new found
  have mine := loadMember (owes i) (List.mem_of_getElem? found)
  have counted := loadStep closes g new found
  have due := owed i
  -- whoever is not the receiver sees no change
  have others : s'.job = s.job → owes i g + load (owes i) new = owes i (.sends ev rest (.script ops)) → i ≠ j →
      ∀ cl, Told i ⟨s,pool⟩ cl → Told i ⟨s',pool.set k g ++ new⟩ cl := by
    intro job hands different cl told
    rw [if_neg (Ne.symm different)] at due
    exact toldKept told job (by show load (owes i) (pool.set k g ++ new) = load (owes i) pool; omega)
  have closers : closes g + load closes new = 0 →
      owes i g + load (owes i) new = owes i (.sends ev rest (.script ops)) →
      0 < load closes (pool.set k g ++ new) → load (owes i) (pool.set k g ++ new) = 0 := by
    intro none hands some
    have nothing : load (owes i) pool = 0 := telling.closers (by show 0 < load closes pool; omega)
    omega
  cases step with
  | @accept _ _ _ _ target reached open_ room =>
    refine ⟨?_,closers rfl rfl⟩
    intro cl there live
    rcases setCases there with ⟨rfl,rfl⟩ | ⟨different,old⟩
    · have told := telling.told target reached live
      have arrived : Client.arrived {target with channel := target.channel ++ [ev]} = target.arrived ++ [ev] := by
        rw [arrivedPushed,if_pos live]
      constructor
      · intro f' finished' e inside terminal
        rw [arrived] at inside
        rcases List.mem_append.mp inside with old | last
        · exact told.kind f' finished' e old terminal
        · rw [List.mem_singleton.mp last]
          cases Option.some.inj (finished.symm.trans finished')
          exact mem
      · intro f' finished' _
        left
        cases Option.some.inj (finished.symm.trans finished')
        exact ⟨ev,by rw [arrived]; simp,mem⟩
      · exact told.ended
      · intro shut
        have opened : target.closed = true := shut
        rw [open_] at opened
        contradiction
    · exact others rfl rfl different cl (telling.told cl old live)
  | @drop _ _ _ _ target reached open_ full =>
    refine ⟨?_,closers rfl rfl⟩
    intro cl there live
    by_cases here : i = j
    · subst here
      cases Option.some.inj (reached.symm.trans there)
      have told := telling.told target reached live
      refine ⟨told.kind,?_,told.ended,?_⟩
      · intro f' finished' following
        cases Option.some.inj (finished.symm.trans finished')
        by_cases more : tellsTo i ops = 0
        · left
          rcases guard rfl (finishTerminal mem) more target reached following with room | ⟨e,inside,terminal⟩
          · omega
          · exact ⟨e,inside,told.kind f finished e inside terminal⟩
        · right
          have left : tellsTo i ops ≤ owes i (.sends ev rest (.script ops)) := Nat.le_add_left _ _
          simp only [loadNil] at moved
          show 0 < load (owes i) (pool.set k _ ++ [])
          omega
      · intro shut
        rw [open_] at shut
        contradiction
    · exact others rfl rfl here cl (telling.told cl there live)
  | file files => cases files

theorem tellingStep {i : Nat} {s s' : Shared} {pool new : List Goroutine} {k : Nat} {t g : Goroutine}
    (shape : Shape ⟨s,pool⟩) (telling : Telling i ⟨s,pool⟩) (found : pool[k]? = some t)
    (guard : LastTold i ⟨s,pool⟩ t) (step : Step s t s' g new) : Telling i ⟨s',pool.set k g ++ new⟩ := by
  cases finished : s.job.final with
  | none =>
    cases still : s'.job.final with
    | none => exact tellingRunning shape telling found step finished still
    | some f =>
      cases step with
      | finish copy => exact tellingFinish shape telling found copy finished
      | _ => exact absurd (finished.symm.trans still) (by simp)
  | some f =>
    by_cases offers : ∃ ev j rest after, t = .sends ev (j :: rest) after
    · obtain ⟨ev,j,rest,after,rfl⟩ := offers
      exact tellingOffer shape telling found guard step finished
    · exact tellingOver shape telling found step finished
        (fun ev j rest after here => offers ⟨ev,j,rest,after,here⟩)

theorem tellingPreserved (i : Nat) :
    Preserved system (LastTold i) (fun c => Shape c ∧ Telling i c) := by
  constructor
  · intro c call holds
    have kept : ∀ w : Goroutine → Nat, w .attach = 0 → load w (c.pool ++ [.attach]) = load w c.pool := by
      intro w zero
      simp [zero]
    refine ⟨(shapePreserved (LastTold i)).call c call holds.1,?_,?_⟩
    · exact fun cl there live => toldKept (holds.2.told cl there live) rfl (kept (owes i) rfl)
    · intro some
      have none := holds.2.closers (by rw [← kept closes rfl]; exact some)
      exact (kept (owes i) rfl).trans none
  · intro c k t choice s' g new holds found guard stepped
    have step := nextStep stepped
    exact ⟨shapeStep holds.1 found step,tellingStep holds.1 holds.2 found guard step⟩

/- A subscriber that attached while the job ran and has left its loop with the
client still there has written an event with the final status. -/
def Delivered (i : Nat) (c : Process) : Prop :=
  ∀ cl, c.shared.clients[i]? = some cl → cl.running = true → cl.position ≠ .following → cl.connected = true →
    ∃ f, c.shared.job.final = some f ∧ ∃ ev ∈ cl.written, ev.terminal = true ∧ Reports f ev

theorem terminalDelivered {j : Job} (running : j.final = none) (body : String) (row : Option Row) (i : Nat)
    {events : List (Event Call Choice)} {c : Process}
    (guarded : Along system (LastTold i) (launch j body row) events)
    (ran : run system (launch j body row) events = some c) : Delivered i c := by
  have nobody : Telling i (launch j body row) := by
    constructor
    · intro cl there
      simp [launch] at there
    · intro some
      simp [launch,closes] at some
  obtain ⟨_,telling⟩ := runPreserved (tellingPreserved i) ⟨launchShape running body row,nobody⟩ guarded ran
  intro cl there live left connected
  obtain ⟨f,finished,ev,mem,finishes⟩ := (telling.told cl there live).ended left connected
  exact ⟨f,finished,ev,mem,finishTerminal finishes,finishReports finishes⟩

def quietJob : Job := prepared "" "" "" .install

/- A subscriber attaches first and the script writes nothing. -/
def quietRun : List (Event Call Choice) :=
  ([.call .attach,.step 2 {}] : Events) ++ (List.replicate 16 (.step 0 {}) : Events) ++
    ([.step 3 {eof := true},.step 4 {eof := true}] : Events) ++ (List.replicate 10 (.step 0 {}) : Events) ++
    (List.replicate 15 (.step 2 {}) : Events)

theorem terminalDeliveredQuiet : ∃ c, run system (launch quietJob "" none) quietRun = some c ∧
    ∃ cl ∈ c.shared.clients, ∃ f, c.shared.job.final = some f ∧
      ∃ ev ∈ cl.written, ev.terminal = true ∧ Reports f ev := by
  obtain ⟨c,ran,left⟩ := (Option.any_eq_true _ _).mp
    (by decide : (run system (launch quietJob "" none) quietRun).any
      (fun c => c.shared.clients.length = 1 ∧ c.shared.clients.all (fun cl => cl.running && cl.connected &&
        cl.position != .following)) = true)
  obtain ⟨one,all⟩ := of_decide_eq_true left
  have inside : 0 < c.shared.clients.length := by omega
  have facts := List.all_eq_true.mp all _ (List.getElem_mem inside)
  simp only [Bool.and_eq_true,bne_iff_ne] at facts
  obtain ⟨⟨live,connected⟩,ended⟩ := facts
  have delivered := terminalDelivered rfl "" none 0 (by decide) ran
  exact ⟨c,ran,_,List.getElem_mem inside,
    delivered _ (List.getElem?_eq_getElem inside) live ended connected⟩

/- The script writes 507 lines before the subscriber reads its channel. -/
def burst : List (Event Call Choice) :=
  ([.call .attach,.step 2 {}] : Events) ++ (List.replicate 16 (.step 0 {}) : Events) ++
    (List.replicate 1521 (.step 3 {}) : Events) ++ ([.step 3 {eof := true},.step 4 {eof := true}] : Events) ++
    (List.replicate 10 (.step 0 {}) : Events) ++ ([.step 5 {}] : Events) ++
    (List.replicate 1026 (.step 2 {}) : Events)

/- Both pipes of a quiet job are read, for one subscriber that attached before. -/
def streaming (ls : List JobLogLine) (cl : Client) : Process :=
  ⟨⟨{quietJob with lines := ls},[0],[cl],2,[],none⟩,[.voice (.script [.wait .script]),.tick,.sse 0,
    .voice (.reader .stdout),.voice (.reader .stderr)]⟩

theorem runStep {c d : Process} {e : Event Call Choice} {es : List (Event Call Choice)}
    (moved : exec system c e = some d) : run system c (e :: es) = run system d es := by
  rw [run,moved]

theorem offerRoom {j : Job} {cl : Client} {ev : StreamEvent} {readers : Nat} (opened : cl.closed = false)
    (room : cl.channel.length < bufferSize) :
    offer ⟨j,[0],[cl],readers,[],none⟩ ev 0 =
      some ⟨j,[0],[{cl with channel := cl.channel ++ [ev]}],readers,[],none⟩ := by
  simp [offer,opened,room]

theorem offerFull {j : Job} {cl : Client} {ev : StreamEvent} {readers : Nat} (opened : cl.closed = false)
    (full : bufferSize ≤ cl.channel.length) :
    offer ⟨j,[0],[cl],readers,[],none⟩ ev 0 = some ⟨j,[0],[cl],readers,[],none⟩ := by
  simp [offer,opened,Nat.not_lt.mpr full]

theorem offerMoved {s s' : Shared} {pool : List Goroutine} {i t : Nat} {ev : StreamEvent} {rest : List Nat}
    {after : Voice} (found : pool[t]? = some (.sends ev (i :: rest) after)) (offered : offer s ev i = some s') :
    exec system ⟨s,pool⟩ (.step t {}) = some ⟨s',pool.set t (.sends ev rest after)⟩ := by
  simp [exec,found,system,next,offered]

/- One line of the script: read, offered to the subscriber, and on to the next. -/
theorem readLine {ls : List JobLogLine} {cl : Client} {es : List (Event Call Choice)} (opened : cl.closed = false)
    (room : cl.channel.length < bufferSize) :
    run system (streaming ls cl) (.step 3 {} :: .step 3 {} :: .step 3 {} :: es) =
      run system (streaming (ls ++ [⟨.stdout,""⟩])
        {cl with channel := cl.channel ++ [quietJob.logEvent ls.length ⟨.stdout,""⟩]}) es := by
  refine (runStep rfl).trans ?_
  exact (runStep (offerMoved rfl (offerRoom opened room))).trans (runStep rfl)

def Silent (evs : List StreamEvent) : Prop := ∀ ev ∈ evs, ev.stops = false ∧ ev.terminal = false

theorem readLines {es : List (Event Call Choice)} : ∀ (n : Nat) (ls : List JobLogLine) (cl : Client),
    cl.closed = false → Silent cl.channel → cl.channel.length + n ≤ bufferSize →
    ∃ ls' channel, channel.length = cl.channel.length + n ∧ Silent channel ∧
      run system (streaming ls cl) (List.replicate (3 * n) (.step 3 {}) ++ es) =
        run system (streaming ls' {cl with channel := channel}) es
  | 0,ls,cl,_,silent,_ => ⟨ls,cl.channel,rfl,silent,rfl⟩
  | n + 1,ls,cl,opened,silent,fits => by
    obtain ⟨ls',channel,long,quiet,same⟩ := readLines n (ls ++ [⟨.stdout,""⟩])
      {cl with channel := cl.channel ++ [quietJob.logEvent ls.length ⟨.stdout,""⟩]} opened
      (by
        intro ev mem
        rcases List.mem_append.mp mem with old | new
        · exact silent ev old
        · cases List.mem_singleton.mp new
          exact ⟨rfl,rfl⟩)
      (by simp only [List.length_append,List.length_singleton]; omega)
    refine ⟨ls',channel,?_,quiet,?_⟩
    · rw [long,List.length_append,List.length_singleton]
      omega
    · exact (readLine opened (by omega)).trans same

/- Both readers are through; `g` is what runSoftwareScript does next. -/
def ending (j : Job) (cl : Client) (g : Goroutine) : Process :=
  ⟨⟨j,[0],[cl],0,[],none⟩,[g,.tick,.sse 0,.done,.done]⟩

theorem endingMoved {j j' : Job} {cl : Client} {g g' : Goroutine} {es : List (Event Call Choice)}
    (moved : next {} ⟨j,[0],[cl],0,[],none⟩ g = some (⟨j',[0],[cl],0,[],none⟩,g',[])) :
    run system (ending j cl g) (.step 0 {} :: es) = run system (ending j' cl g') es := by
  refine runStep ?_
  simp [exec,ending,system,moved]

theorem offerDropped {j : Job} {cl : Client} {ev : StreamEvent} {after : Voice} {es : List (Event Call Choice)}
    (opened : cl.closed = false) (full : bufferSize ≤ cl.channel.length) :
    run system (ending j cl (.sends ev [0] after)) (.step 0 {} :: .step 0 {} :: es) =
      run system (ending j cl (.voice after)) es := by
  have dropped : next {} ⟨j,[0],[cl],0,[],none⟩ (.sends ev [0] after) =
      some (⟨j,[0],[cl],0,[],none⟩,.sends ev [] after,[]) := by
    simp only [next,offerFull opened full,Option.map_some]
  exact (endingMoved dropped).trans (endingMoved rfl)

theorem nothingLoaded (j : Job) : afterLoad j (trimSpace "") = [finishes .success j.successMessage "" none] := by
  have empty : trimSpace "" = "" := by decide
  rw [empty]
  exact if_pos rfl

def overJob (ls : List JobLogLine) : Job :=
  {quietJob with
    lines := ls ++ [⟨.system,quietJob.successMessage⟩]
    final := some ⟨.success,quietJob.successMessage,"",none⟩}

/- The script is over, and the channels are closed. -/
def ended (ls : List JobLogLine) (cl : Client) : Process :=
  ⟨⟨overJob ls,[],[cl],0,[],none⟩,[.voice (.script []),.tick,.sse 0,.done,.done,.done]⟩

theorem finishDropped {ls : List JobLogLine} {cl : Client} {es : List (Event Call Choice)} (opened : cl.closed = false)
    (full : bufferSize ≤ cl.channel.length) :
    run system (ending {quietJob with lines := ls ++ [⟨.system,quietJob.successMessage⟩]} cl
          (.voice (.script [finishes .success quietJob.successMessage "" none])))
        (.step 0 {} :: .step 0 {} :: .step 0 {} :: .step 0 {} :: .step 5 {} :: es) =
      run system (ended ls {cl with closed := true}) es := by
  have finished : next {} ⟨{quietJob with lines := ls ++ [⟨.system,quietJob.successMessage⟩]},[0],[cl],0,[],none⟩
      (.voice (.script [finishes .success quietJob.successMessage "" none])) =
      some (⟨overJob ls,[0],[cl],0,[],none⟩,.sends ((overJob ls).finishEvent
        ⟨.success,quietJob.successMessage,"",none⟩) [0] (.script [.close]),[]) := by
    simp [next,Voice.next,Op.next,finishes,copySubscribers,List.isPerm,afterFinish,Final.tellsReason,overJob,
      Job.finishEvent]
  refine (endingMoved finished).trans ((offerDropped opened full).trans ?_)
  have closer : run system (ending (overJob ls) cl (.voice (.script [.close]))) (.step 0 {} :: .step 5 {} :: es) =
      run system ⟨⟨overJob ls,[0],[cl],0,[],none⟩,[.voice (.script []),.tick,.sse 0,.done,.done,.closer]⟩
        (.step 5 {} :: es) := rfl
  refine closer.trans (runStep ?_)
  simp [exec,ended,system,next,closeAll]

/- The script ends; its last line and the event of `finish` meet a full channel. -/
theorem endDropped (ls : List JobLogLine) (cl : Client) (es : List (Event Call Choice)) (opened : cl.closed = false)
    (full : bufferSize ≤ cl.channel.length) :
    run system (streaming ls cl) (.step 3 {eof := true} :: .step 4 {eof := true} ::
        (List.replicate 10 (.step 0 {}) ++ .step 5 {} :: es)) =
      run system (ended ls {cl with closed := true}) es := by
  have waited : ∀ es, run system (streaming ls cl) (.step 3 {eof := true} :: .step 4 {eof := true} ::
      .step 0 {} :: .step 0 {} :: es) = run system (ending {quietJob with lines := ls} cl
        (.voice (.script [.append .system quietJob.successMessage,.loadCustomScript]))) es := by
    intro es
    rfl
  have loaded : next {} ⟨{quietJob with lines := ls ++ [⟨.system,quietJob.successMessage⟩]},[0],[cl],0,[],none⟩
      (.voice (.script [.loadCustomScript])) =
      some (⟨{quietJob with lines := ls ++ [⟨.system,quietJob.successMessage⟩]},[0],[cl],0,[],none⟩,
        .voice (.script [finishes .success quietJob.successMessage "" none]),[]) := by
    simp only [next,Voice.next,Op.next,script,nothingLoaded]
    rfl
  refine (waited _).trans ((endingMoved rfl).trans ((offerDropped opened full).trans ?_))
  exact (endingMoved loaded).trans (finishDropped opened full)

theorem writerMoved {ls : List JobLogLine} {cl cl' : Client} {es : List (Event Call Choice)}
    (following : cl.position = .following) (moved : cl.next false = some cl') :
    run system (ended ls cl) (.step 2 {} :: es) = run system (ended ls cl') es := by
  refine runStep ?_
  simp [exec,ended,system,next,sseNext,moved,following]

/- The writer takes an event and writes it, until the closed channel is empty. -/
theorem writeAll (ls : List JobLogLine) : ∀ (channel : List StreamEvent) (last : StreamEvent)
    (written : List StreamEvent), Silent (last :: channel) → Silent written → ∃ all, Silent all ∧
      run system (ended ls ⟨true,[last],channel,true,written,true,.following⟩)
          (List.replicate (2 * channel.length + 2) (.step 2 {})) =
        some (ended ls ⟨true,[],[],true,all,true,.leaving⟩)
  | [],last,written,silent,quiet => by
    refine ⟨written ++ [last],?_,?_⟩
    · intro ev mem
      rcases List.mem_append.mp mem with old | new
      · exact quiet ev old
      · exact silent ev new
    · have wrote : (⟨true,[last],[],true,written,true,.following⟩ : Client).next false =
          some ⟨true,[],[],true,written ++ [last],true,.following⟩ := by
        simp [Client.next,(silent last List.mem_cons_self).1]
      exact (writerMoved rfl wrote).trans (writerMoved rfl rfl)
  | ev :: channel,last,written,silent,quiet => by
    have goesOn : (⟨true,[last],ev :: channel,true,written,true,.following⟩ : Client).next false =
        some ⟨true,[],ev :: channel,true,written ++ [last],true,.following⟩ := by
      simp [Client.next,(silent last List.mem_cons_self).1]
    obtain ⟨all,calm,same⟩ := writeAll ls channel ev (written ++ [last])
      (fun e mem => silent e (List.mem_cons_of_mem last mem)) (by
        intro ev mem
        rcases List.mem_append.mp mem with old | new
        · exact quiet ev old
        · exact silent ev (by rw [List.mem_singleton.mp new]; exact List.mem_cons_self))
    exact ⟨all,calm,(writerMoved rfl goesOn).trans ((writerMoved rfl rfl).trans same)⟩

def quietLines : List JobLogLine :=
  [⟨.system,"Starting " ++ lowerVerb .install ++ " of " ++ quietJob.label⟩,
    ⟨.system,"$ bash -lc <<'" ++ heredoc .install .script ++ "'"⟩,⟨.system,""⟩,⟨.system,heredoc .install .script⟩]

def quietClient : Client :=
  ⟨true,[quietJob.sessionEvent],quietJob.startEvent ("Starting " ++ lowerVerb .install ++ " of " ++ quietJob.label) ::
    quietLines.mapIdx quietJob.logEvent,false,[],true,.following⟩

theorem streamingQuiet {es : List (Event Call Choice)} :
    run system (launch quietJob "" none) ([.call .attach,.step 2 {}] ++ (List.replicate 16 (.step 0 {}) ++ es)) =
      run system (streaming quietLines quietClient) es := rfl

theorem silentStart : Silent (quietJob.sessionEvent :: quietClient.channel) := by
  intro ev mem
  simp only [quietClient,quietLines,List.mapIdx_cons,List.mapIdx_nil,List.mem_cons,List.not_mem_nil,or_false] at mem
  rcases mem with rfl | rfl | rfl | rfl | rfl | rfl <;> exact ⟨rfl,rfl⟩

theorem terminalDropped : ∃ c, run system (launch quietJob "" none) burst = some c ∧ ¬ Delivered 0 c := by
  obtain ⟨ls,channel,long,quiet,filled⟩ := readLines 507 quietLines quietClient rfl
    (fun ev mem => silentStart ev (List.mem_cons_of_mem _ mem)) (by decide)
  have full : channel.length = 512 := long
  have silent : Silent (quietJob.sessionEvent :: channel) := by
    intro ev mem
    rcases List.mem_cons.mp mem with rfl | there
    · exact silentStart _ List.mem_cons_self
    · exact quiet ev there
  obtain ⟨all,calm,wrote⟩ := writeAll ls channel quietJob.sessionEvent [] silent (by intro ev mem; cases mem)
  rw [full] at wrote
  refine ⟨ended ls ⟨true,[],[],true,all,true,.leaving⟩,?_,?_⟩
  · unfold burst
    simp only [List.append_assoc]
    have dropped := endDropped ls {quietClient with channel := channel} (List.replicate 1026 (.step 2 {})) rfl
      (by simp only [full,bufferSize,Nat.le_refl])
    exact streamingQuiet.trans (filled.trans (dropped.trans wrote))
  · intro delivered
    obtain ⟨f,_,ev,mem,terminal,_⟩ := delivered ⟨true,[],[],true,all,true,.leaving⟩ rfl rfl (by rintro ⟨⟩) rfl
    rw [(calm ev mem).2] at terminal
    exact Bool.false_ne_true terminal

end ContainerWS.JobLog
