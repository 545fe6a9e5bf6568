import ContainerWS.Install.Rows

/-! kickQueueWorker and the exit of the worker. The flag `running` is held by
one goroutine, the worker or a kick about to start it, and a pending row without
the flag has a kick on its way. -/
namespace ContainerWS.Install
open Interleaving GoStrings

/- The holder of `running`. -/
def holder : Goroutine → Nat
  | .worker _ => 1
  | .request (.flagged _) => 1
  | _ => 0

def kicks : Goroutine → Nat
  | .request .kick => 1
  | _ => 0

def working : Goroutine → Nat
  | .worker _ => 1
  | _ => 0

/- No kick gives up for want of a handle. -/
def steady : Goroutine → Bool
  | .request (.flagged db) => db
  | _ => true

/- "every append stores a non-nil db" -/
def StoresDB (_ : Process) : Goroutine → Prop
  | .request (.append db _) => db = true
  | .request (.retryAppend db _) => db = true
  | _ => True

instance (c : Process) (t : Goroutine) : Decidable (StoresDB c t) := by
  cases t with
  | request r => cases r <;> dsimp only [StoresDB] <;> infer_instance
  | _ => dsimp only [StoresDB] <;> infer_instance

structure Awake (c : Process) : Prop where
  held : load holder c.pool = c.shared.queue.running.toNat
  woken : c.shared.queue.hasPending = true → c.shared.queue.running = true ∨ 0 < load kicks c.pool
  stored : c.shared.queue.running = true ∨ 0 < load kicks c.pool → c.shared.queue.db = true
  sound : ∀ t ∈ c.pool, steady t = true

/- A step that leaves flag and handle alone and hands on what the goroutine held. -/
structure Passes (s s' : Shared) (t g : Goroutine) (new : List Goroutine) : Prop where
  running : s'.queue.running = s.queue.running
  db : s'.queue.db = s.queue.db
  holder : holder g + load holder new = holder t
  kicks : kicks g + load kicks new = kicks t
  self : steady g = true
  started : ∀ u ∈ new, steady u = true

theorem fewerPending {q q' : BulkQueue} (less : Fewer q q') (more : q'.hasPending = true) :
    q.hasPending = true := by
  have counts := less.pending (fun _ => true) (fun _ _ _ _ _ => rfl)
  obtain ⟨it,mem,isPending⟩ := (hasPendingIff q').mp more
  have positive : 0 < pendingOf (fun _ => true) q' :=
    List.countP_pos_iff.mpr ⟨it,mem,by simpa using isPending⟩
  obtain ⟨old,inside,wasPending⟩ := List.countP_pos_iff.mp (Nat.lt_of_lt_of_le positive counts)
  exact (hasPendingIff q).mpr ⟨old,inside,by simpa using wasPending⟩

theorem awakePasses {s s' : Shared} {pool new : List Goroutine} {i : Nat} {t g : Goroutine}
    (awake : Awake ⟨s,pool⟩) (found : pool[i]? = some t) (less : Fewer s.queue s'.queue)
    (step : Passes s s' t g new) : Awake ⟨s',pool.set i g ++ new⟩ := by
  have holders := loadStep holder g new found
  have kicked := loadStep kicks g new found
  have sameHolders : load holder (pool.set i g ++ new) = load holder pool := by
    have h := step.holder
    omega
  have sameKicks : load kicks (pool.set i g ++ new) = load kicks pool := by
    have h := step.kicks
    omega
  constructor
  · rw [sameHolders,step.running]
    exact awake.held
  · rw [sameKicks,step.running]
    intro more
    exact awake.woken (fewerPending less more)
  · rw [sameKicks,step.running,step.db]
    exact awake.stored
  · exact everyStep awake.sound step.self step.started

theorem quietRest {g : Goroutine} (silent : g.quiet = true) :
    holder g = 0 ∧ kicks g = 0 ∧ steady g = true := by
  cases g with
  | request r => cases r <;> simp_all [Goroutine.quiet,Request.quiet,holder,kicks,steady]
  | done => simp [holder,kicks,steady]
  | _ => simp [Goroutine.quiet] at silent

theorem cancelFlags (q : BulkQueue) (softwareID : String) :
    (cancelPendingInstallsForSoftware q softwareID).1.running = q.running ∧
    (cancelPendingInstallsForSoftware q softwareID).1.db = q.db := by
  unfold cancelPendingInstallsForSoftware
  split <;> exact ⟨rfl,rfl⟩

theorem retryDropFlags (q : BulkQueue) (id : UUID) :
    (retryDrop q id).1.running = q.running ∧ (retryDrop q id).1.db = q.db := by
  unfold retryDrop
  split <;> exact ⟨rfl,rfl⟩

theorem finishFlags (q : BulkQueue) (id : UUID) (status : Status) (message : String)
    (jobID : Option UUID) :
    (finishQueueItem q id status message jobID).running = q.running ∧
    (finishQueueItem q id status message jobID).db = q.db := by
  unfold finishQueueItem
  split <;> exact ⟨rfl,rfl⟩

theorem claimFlags {q q' : BulkQueue} {row : QueueItem} (claimed : claimNextQueueItem q = some (row,q')) :
    q'.running = q.running ∧ q'.db = q.db := by
  unfold claimNextQueueItem at claimed
  split at claimed <;> try contradiction
  cases Option.some.inj claimed
  exact ⟨rfl,rfl⟩

/- A step between points that hold nothing. -/
theorem passesFree {s s' : Shared} {t g : Goroutine} (running : s'.queue.running = s.queue.running)
    (db : s'.queue.db = s.queue.db) (before : holder t = 0 ∧ kicks t = 0)
    (after : holder g = 0 ∧ kicks g = 0 ∧ steady g = true) : Passes s s' t g [] := by
  obtain ⟨holds,waits⟩ := before
  obtain ⟨held,kick,sound⟩ := after
  exact ⟨running,db,by rw [held,holds]; rfl,by rw [kick,waits]; rfl,sound,by simp⟩

theorem passesCancel {s s' : Shared} {softwareID : String} {t g : Goroutine}
    (queue : s'.queue = (cancelPendingInstallsForSoftware s.queue softwareID).1)
    (before : holder t = 0 ∧ kicks t = 0) (after : holder g = 0 ∧ kicks g = 0 ∧ steady g = true) :
    Passes s s' t g [] := by
  obtain ⟨running,db⟩ := cancelFlags s.queue softwareID
  apply passesFree _ _ before after
  · rw [queue,running]
  · rw [queue,db]

theorem calmRest {r : Request} (calm : r.calm = true) :
    holder (.request r) = 0 ∧ kicks (.request r) = 0 := by
  cases r <;> simp_all [Request.calm,holder,kicks]

theorem missingRest {r : Request} {call : MissingCall} (at_ : r.missingCall = some call) :
    holder (.request r) = 0 ∧ kicks (.request r) = 0 := by
  cases r <;> simp_all [Request.missingCall,holder,kicks]

theorem missingReadRest {r : Request} {call : MissingCall × Nat} (at_ : r.missingRead = some call) :
    holder (.request r) = 0 ∧ kicks (.request r) = 0 := by
  cases r <;> simp_all [Request.missingRead,holder,kicks]

/- An append puts its rows in and turns into a kick. -/
theorem awakeAppend {s s' : Shared} {pool : List Goroutine} {i : Nat} {t : Goroutine}
    (awake : Awake ⟨s,pool⟩) (found : pool[i]? = some t) (free : holder t = 0)
    (running : s'.queue.running = s.queue.running) (db : s'.queue.db = true) :
    Awake ⟨s',pool.set i (.request .kick) ++ []⟩ := by
  have holders := loadStep holder (.request .kick) [] found
  have kicked := loadStep kicks (.request .kick) [] found
  have own : holder (.request .kick) = 0 := rfl
  have one : kicks (.request .kick) = 1 := rfl
  have most : kicks t ≤ load kicks pool := loadMember kicks (List.mem_of_getElem? found)
  simp only [loadNil] at holders kicked
  constructor
  · have held : load holder pool = s.queue.running.toNat := awake.held
    show load holder (pool.set i (.request .kick) ++ []) = s'.queue.running.toNat
    rw [running]
    omega
  · intro _
    right
    show 0 < load kicks (pool.set i (.request .kick) ++ [])
    omega
  · intro _
    exact db
  · exact everyStep awake.sound rfl (by simp)

theorem kickWaits {c : Process} {i : Nat} (found : c.pool[i]? = some (.request .kick)) :
    0 < load kicks c.pool := by
  have h := loadMember kicks (List.mem_of_getElem? found)
  have one : kicks (.request .kick) = 1 := rfl
  omega

/- The first kick takes the flag, every later one finds it taken. -/
theorem awakeKicked {s : Shared} {pool : List Goroutine} {i : Nat} (awake : Awake ⟨s,pool⟩)
    (found : pool[i]? = some (.request .kick)) (running : s.queue.running = true) :
    Awake ⟨s,pool.set i .done ++ []⟩ := by
  have holders := loadStep holder .done [] found
  have own : holder (.request .kick) = 0 := rfl
  have none : holder .done = 0 := rfl
  have held : load holder pool = s.queue.running.toNat := awake.held
  have db := awake.stored (.inl running)
  simp only [loadNil] at holders
  refine ⟨?_,fun _ => .inl running,fun _ => db,everyStep awake.sound rfl (by simp)⟩
  show load holder (pool.set i .done ++ []) = s.queue.running.toNat
  omega

theorem awakeFlag {s : Shared} {pool : List Goroutine} {i : Nat} (awake : Awake ⟨s,pool⟩)
    (found : pool[i]? = some (.request .kick)) (stopped : s.queue.running = false) :
    Awake ⟨{s with queue := {s.queue with running := true}},
      pool.set i (.request (.flagged s.queue.db)) ++ []⟩ := by
  have holders := loadStep holder (.request (.flagged s.queue.db)) [] found
  have own : holder (.request .kick) = 0 := rfl
  have takes : holder (.request (.flagged s.queue.db)) = 1 := rfl
  have held := awake.held
  have db := awake.stored (.inr (kickWaits found))
  simp only [loadNil] at holders
  refine ⟨?_,fun _ => .inl rfl,fun _ => db,everyStep awake.sound db (by simp)⟩
  simp only [stopped,Bool.toNat_false] at held
  show load holder (pool.set i (.request (.flagged s.queue.db)) ++ []) = 1
  omega

theorem requestAwake {m : CaseMap} {s s' : Shared} {r : Request} {g : Goroutine}
    {pool new : List Goroutine} {i : Nat} (awake : Awake ⟨s,pool⟩)
    (found : pool[i]? = some (.request r)) (stores : StoresDB ⟨s,pool⟩ (.request r))
    (less : Fewer s.queue s'.queue) (step : Request.Step m s r s' g new) :
    Awake ⟨s',pool.set i g ++ new⟩ := by
  cases step with
  | append => exact awakeAppend awake found rfl rfl stores
  | retryAppend => exact awakeAppend awake found rfl rfl stores
  | kicked running => exact awakeKicked awake found running
  | flag stopped => exact awakeFlag awake found stopped
  | spawn => exact awakePasses awake found less ⟨rfl,rfl,rfl,rfl,rfl,by simp [steady]⟩
  | unflag =>
    have sound := awake.sound _ (List.mem_of_getElem? found)
    contradiction
  | leave calm => exact awakePasses awake found less (passesFree rfl rfl (calmRest calm) ⟨rfl,rfl,rfl⟩)
  | quiet ids before after =>
    obtain ⟨holds,waits,_⟩ := quietRest (g := .request r) before
    exact awakePasses awake found less (passesFree rfl rfl ⟨holds,waits⟩ (quietRest after))
  | missingSkip at_ todo =>
    exact awakePasses awake found less (passesFree rfl rfl (missingRest at_) ⟨rfl,rfl,rfl⟩)
  | missingCandidate at_ todo =>
    exact awakePasses awake found less (passesFree rfl rfl (missingReadRest at_) ⟨rfl,rfl,rfl⟩)
  | retryFind after =>
    obtain ⟨running,db⟩ := retryDropFlags s.queue _
    exact awakePasses awake found less (passesFree running db ⟨rfl,rfl⟩ (quietRest after))
  | dismissRows ids after =>
    exact awakePasses awake found less (passesFree rfl rfl ⟨rfl,rfl⟩ (quietRest after))
  | switchCancel after =>
    exact awakePasses awake found less (passesCancel rfl ⟨rfl,rfl⟩ (quietRest after))
  | switchComplete after =>
    exact awakePasses awake found less (passesCancel rfl ⟨rfl,rfl⟩ (quietRest after))
  | _ => exact awakePasses awake found less (passesFree rfl rfl ⟨rfl,rfl⟩ ⟨rfl,rfl,rfl⟩)

/- runSoftwareScript touches the queue only in its cancel pass. -/
theorem scriptFlags {s s' : Shared} {run : ScriptRun} {point : Option ScriptPoint}
    (step : run.Step s s' point) :
    s'.queue.running = s.queue.running ∧ s'.queue.db = s.queue.db := by
  cases step with
  | cancel here => exact cancelFlags s.queue run.softwareID
  | _ => exact ⟨rfl,rfl⟩

theorem awakeExit {s : Shared} {pool : List Goroutine} {i : Nat} {g : Goroutine}
    (awake : Awake ⟨s,pool⟩) (found : pool[i]? = some (.worker .exit)) (free : holder g = 0)
    (sound : steady g = true) (again : s.queue.hasPending = true → kicks g = 1) :
    Awake ⟨{s with queue := {s.queue with running := false}},pool.set i g ++ []⟩ := by
  have holders := loadStep holder g [] found
  have kicked := loadStep kicks g [] found
  have own : holder (.worker .exit) = 1 := rfl
  have none : kicks (.worker .exit) = 0 := rfl
  have alive := loadMember holder (List.mem_of_getElem? found)
  have held := awake.held
  have running : s.queue.running = true := by
    cases flag : s.queue.running with
    | true => rfl
    | false =>
      simp only [flag,Bool.toNat_false] at held
      omega
  have db := awake.stored (.inl running)
  simp only [running,Bool.toNat_true] at held
  simp only [loadNil] at holders kicked
  refine ⟨?_,?_,fun _ => db,everyStep awake.sound sound (by simp)⟩
  · show load holder (pool.set i g ++ []) = 0
    omega
  · intro more
    right
    have one := again more
    show 0 < load kicks (pool.set i g ++ [])
    omega

theorem workerAwake {s s' : Shared} {w : Worker} {g : Goroutine} {pool new : List Goroutine} {i : Nat}
    (awake : Awake ⟨s,pool⟩) (found : pool[i]? = some (.worker w)) (less : Fewer s.queue s'.queue)
    (step : Worker.Step s w s' g new) : Awake ⟨s',pool.set i g ++ new⟩ := by
  cases step with
  | claim claimed =>
    obtain ⟨running,db⟩ := claimFlags claimed
    exact awakePasses awake found less ⟨running,db,rfl,rfl,rfl,by simp⟩
  | script inner =>
    obtain ⟨running,db⟩ := scriptFlags inner
    exact awakePasses awake found less ⟨running,db,rfl,rfl,rfl,by simp⟩
  | scripted inner =>
    obtain ⟨running,db⟩ := scriptFlags inner
    exact awakePasses awake found less ⟨running,db,rfl,rfl,rfl,by simp [steady]⟩
  | finish =>
    obtain ⟨running,db⟩ := finishFlags s.queue _ _ _ _
    exact awakePasses awake found less ⟨running,db,rfl,rfl,rfl,by simp⟩
  | rekick more => exact awakeExit awake found rfl rfl (fun _ => rfl)
  | quit none => exact awakeExit awake found rfl rfl (by simp [none])
  | _ => exact awakePasses awake found less ⟨rfl,rfl,rfl,rfl,rfl,by simp⟩

theorem streamAwake {s s' : Shared} {v : Stream} {g : Goroutine} {pool new : List Goroutine} {i : Nat}
    (awake : Awake ⟨s,pool⟩) (found : pool[i]? = some (.stream v)) (less : Fewer s.queue s'.queue)
    (step : Stream.Step s v s' g new) : Awake ⟨s',pool.set i g ++ new⟩ := by
  cases step with
  | register => exact awakePasses awake found less ⟨rfl,rfl,rfl,rfl,rfl,by simp [steady]⟩
  | _ => exact awakePasses awake found less ⟨rfl,rfl,rfl,rfl,rfl,by simp⟩

theorem installAwake {s s' : Shared} {run : ScriptRun} {g : Goroutine} {pool new : List Goroutine}
    {i : Nat} (awake : Awake ⟨s,pool⟩) (found : pool[i]? = some (.install run))
    (less : Fewer s.queue s'.queue) (step : InstallStep s run s' g new) :
    Awake ⟨s',pool.set i g ++ new⟩ := by
  cases step with
  | script inner =>
    obtain ⟨running,db⟩ := scriptFlags inner
    exact awakePasses awake found less ⟨running,db,rfl,rfl,rfl,by simp⟩
  | scripted inner =>
    obtain ⟨running,db⟩ := scriptFlags inner
    exact awakePasses awake found less ⟨running,db,rfl,rfl,rfl,by simp [steady]⟩

theorem setupAwake {k : Choice} {s s' : Shared} {v : Setup} {g : Goroutine} {pool new : List Goroutine}
    {i : Nat} (awake : Awake ⟨s,pool⟩) (found : pool[i]? = some (.setup v))
    (stepped : v.next k s = some (s',g,new)) : Awake ⟨s',pool.set i g ++ new⟩ := by
  obtain ⟨queue,_,_,_,_,_,self,others⟩ := setupFrame stepped
  have rest : ∀ u ∈ new, holder u = 0 ∧ kicks u = 0 ∧ steady u = true := by
    intro u mem
    obtain ⟨w,rfl⟩ := others u mem
    exact ⟨rfl,rfl,rfl⟩
  have here : holder g = 0 ∧ kicks g = 0 ∧ steady g = true := by
    rcases self with rfl | ⟨w,rfl⟩ <;> exact ⟨rfl,rfl,rfl⟩
  have holders : load holder new = 0 := (loadZero holder new).mpr (fun u mem => (rest u mem).1)
  have kicked : load kicks new = 0 := (loadZero kicks new).mpr (fun u mem => (rest u mem).2.1)
  refine awakePasses awake found (fewerSame (by rw [queue]))
    ⟨by rw [queue],by rw [queue],?_,?_,here.2.2,fun u mem => (rest u mem).2.2⟩
  · rw [holders,here.1]
    rfl
  · rw [kicked,here.2.1]
    rfl

theorem startedRest {m : CaseMap} {g : Goroutine} (started : Started m g) :
    holder g = 0 ∧ kicks g = 0 ∧ steady g = true := by
  cases started with
  | quiet silent => exact quietRest silent
  | _ => exact ⟨rfl,rfl,rfl⟩

theorem awakeCall {c : Process} {g : Goroutine} (awake : Awake c)
    (rest : holder g = 0 ∧ kicks g = 0 ∧ steady g = true) : Awake ⟨c.shared,c.pool ++ [g]⟩ := by
  have holders : load holder (c.pool ++ [g]) = load holder c.pool := by
    simp [rest.1]
  have kicked : load kicks (c.pool ++ [g]) = load kicks c.pool := by
    simp [rest.2.1]
  refine ⟨holders.trans awake.held,?_,?_,?_⟩
  · rw [kicked]
    exact awake.woken
  · rw [kicked]
    exact awake.stored
  · intro u mem
    rcases List.mem_append.mp mem with old | fresh
    · exact awake.sound u old
    · rw [List.mem_singleton.mp fresh]
      exact rest.2.2

theorem awakePreserved (m : CaseMap) :
    Preserved (host m) (fun c t => StoresDB c t ∧ Settled c) Awake := by
  refine ⟨fun c call awake => awakeCall awake (startedRest (startCases m call)),?_⟩
  intro c i t k s' g new awake found ⟨stores,settled⟩ stepped
  cases stepRows (settled t (List.mem_of_getElem? found)) stepped with
  | append here after =>
    subst here
    cases stepped
    exact awakeAppend awake found rfl rfl stores
  | retryAppend here after =>
    subst here
    cases stepped
    exact awakeAppend awake found rfl rfl stores
  | fewer less =>
    cases t with
    | request r => exact requestAwake awake found stores less (Request.steps stepped)
    | worker w => exact workerAwake awake found less (Worker.steps stepped)
    | stream v => exact streamAwake awake found less (Stream.steps stepped)
    | install run => exact installAwake awake found less (installSteps stepped)
    | prune job =>
      cases stepped
      exact awakePasses awake found less ⟨rfl,rfl,rfl,rfl,rfl,by simp⟩
    | setup v => exact setupAwake awake found stepped
    | done => contradiction

theorem awakeBoot (installed : Installed) : Awake (boot installed) :=
  ⟨rfl,by intro more; contradiction,by intro flag; simp [boot] at flag,by simp [boot]⟩

/- Between an append and its kick, inside a kick, and in the deferred exit. -/
def halfDone : Goroutine → Bool
  | .request .kick => true
  | .request (.flagged _) => true
  | .worker .exit => true
  | _ => false

theorem holderWorks {t : Goroutine} (holds : 0 < holder t) (whole : halfDone t = false) :
    ∃ w, t = .worker w := by
  cases t with
  | worker w => exact ⟨w,rfl⟩
  | request r => cases r <;> simp_all [holder,halfDone]
  | _ => simp [holder] at holds

theorem kicksHalf {t : Goroutine} (waits : 0 < kicks t) : halfDone t = true := by
  cases t with
  | request r => cases r <;> simp_all [kicks,halfDone]
  | _ => simp [kicks] at waits

theorem workingHolder (pool : List Goroutine) : load working pool ≤ load holder pool := by
  induction pool with
  | nil => exact Nat.le_refl 0
  | cons t rest ih =>
    have each : working t ≤ holder t := by
      cases t <;> simp [working,holder]
    rw [loadCons,loadCons]
    omega

theorem noLostWakeup (m : CaseMap) (installed : Installed) {events : List (Event Call Choice)}
    {c : Process} (guarded : Along (host m) StoresDB (boot installed) events)
    (ran : run (host m) (boot installed) events = some c) :
    load working c.pool ≤ 1 ∧
    ((∀ t ∈ c.pool, halfDone t = false) → (∃ it ∈ c.shared.queue.items, it.status = .pending) →
      ∃ w, Goroutine.worker w ∈ c.pool) := by
  have settling := alongStrengthen (settledPreserved m StoresDB) (settledBoot installed) guarded
  have awake := runPreserved (awakePreserved m) (awakeBoot installed) settling ran
  have held := awake.held
  constructor
  · have fewer := workingHolder c.pool
    have one := Bool.toNat_le c.shared.queue.running
    omega
  · intro whole ⟨it,mem,isPending⟩
    have more : c.shared.queue.hasPending = true :=
      (hasPendingIff _).mpr ⟨it,mem,by simp [QueueItem.pending,isPending]⟩
    rcases awake.woken more with running | waits
    · rw [running] at held
      obtain ⟨t,inside,holds⟩ := loadPositive holder (by rw [held]; decide : 0 < load holder c.pool)
      obtain ⟨w,rfl⟩ := holderWorks holds (whole t inside)
      exact ⟨w,inside⟩
    · obtain ⟨t,inside,kick⟩ := loadPositive kicks waits
      have half := kicksHalf kick
      rw [whole t inside] at half
      contradiction

/- Two appends, one kick that starts the worker and one that finds it. -/
def twoAppends : List (Event Call Choice) :=
  [.call (.enqueueActions true "install" ["a"]),.call (.enqueueActions true "install" ["b"]),
    .step 0 {},.step 1 {},.step 0 {},.step 0 {},.step 1 {},.step 1 {},.step 0 {}]

theorem noLostWakeupTwo : ∃ c, run (host ascii) (boot (fun _ => none)) twoAppends = some c ∧
    (∃ it ∈ c.shared.queue.items, it.status = .pending) ∧ (∃ w, Goroutine.worker w ∈ c.pool) := by
  obtain ⟨c,ran⟩ := Option.isSome_iff_exists.mp
    (by decide : (run (host ascii) (boot (fun _ => none)) twoAppends).isSome = true)
  have state : (run (host ascii) (boot (fun _ => none)) twoAppends).any (fun c =>
      c.shared.queue.items.any (·.status == .pending) && c.pool.all (!halfDone ·)) = true := by decide
  rw [ran] at state
  simp only [Option.any_some,Bool.and_eq_true,List.any_eq_true,List.all_eq_true,beq_iff_eq,
    Bool.not_eq_true'] at state
  obtain ⟨pending,whole⟩ := state
  exact ⟨c,ran,pending,(noLostWakeup ascii _ (by decide) ran).2 whole pending⟩

end ContainerWS.Install
