import ContainerWS.System

/-! The handshake over the package manager. The software side looks at the
phase of the active VNC install before it works, the VNC side at the rows and
jobs of the softwares queue before it publishes that phase. A goroutine past
its look and not yet done with its scripts is armed. -/
namespace ContainerWS
open Install Interleaving GoStrings

def armedSoftware : Goroutine → Nat
  | .worker .claim => 1
  | .worker (.brewStart _) => 1
  | .worker (.brewRun _) => 1
  | .worker (.check _) => 1
  | .worker (.checkJob _ _) => 1
  | .worker (.prepare _) => 1
  | .worker (.register _ _) => 1
  | .worker (.annotate _ run) => (!run.point.finished).toNat
  | .worker (.script _ run) => (!run.point.finished).toNat
  | .install run => (!run.point.finished).toNat
  | _ => 0

def armedSetup : Goroutine → Nat
  | .setup (.phase _) => 1
  | .setup (.phaseAt _ _) => 1
  | .setup (.start _) => 1
  | .setup (.script _) => 1
  | _ => 0

/- The looks that let a goroutine pass see what the other side is about to do:
the worker reads a published record when a setup run is armed, an HTTP install
starts only when none is, and a setup run counts a row or a job when the
software side is armed. -/
def SeesOther (c : Process) : Goroutine → Prop
  | .worker (.busyRead inst) =>
    (∃ u ∈ c.pool, 0 < armedSetup u) → Vnc.packageManagerHeld c.shared.record inst = true
  | .stream (.register _ _) => ∀ u ∈ c.pool, armedSetup u = 0
  | .setup (.pollJob _ items todo visible) =>
    todo = [] → (∃ u ∈ c.pool, 0 < armedSoftware u) → 0 < activePending items visible
  | _ => True

instance (c : Process) (t : Goroutine) : Decidable (SeesOther c t) := by
  unfold SeesOther
  split <;> infer_instance

def OneArmed (c : Process) : Prop := load armedSoftware c.pool = 0 ∨ load armedSetup c.pool = 0

def armedScript (run : ScriptRun) : Nat := (!run.point.finished).toNat

theorem scriptArmed {s s' : Shared} {run : ScriptRun} {point : Option ScriptPoint}
    (step : run.Step s s' point) : ∀ p ∈ point, armedScript (run.at p) ≤ armedScript run := by
  intro p same
  have most : ∀ b : Bool, b.toNat ≤ 1 := Bool.toNat_le
  cases step with
  | lock here unlocked => simp [armedScript,here,ScriptPoint.finished,most]
  | move inside onward => simp [armedScript,inside.2,most]
  | mark here => simp [armedScript,here,ScriptPoint.finished,most]
  | cancel here => simp [armedScript,here,ScriptPoint.finished,most]
  | installed rows here onward => simp [armedScript,here,ScriptPoint.finished,most]
  | finish here =>
    cases Option.some.inj same
    exact Nat.zero_le _
  | unlock here => contradiction

/- How a step may change the two loads: only a look that passes arms. -/
inductive ArmStep (s : Shared) (t g : Goroutine) (new : List Goroutine) : Prop where
  | keep (software : armedSoftware g + load armedSoftware new ≤ armedSoftware t)
      (setup : armedSetup g + load armedSetup new ≤ armedSetup t)
  | passWorker {inst} (here : t = .worker (.busyRead inst))
      (notHeld : Vnc.packageManagerHeld s.record inst = false)
      (setup : armedSetup g + load armedSetup new = 0)
  | passStream {softwareID p} (here : t = .stream (.register softwareID p))
      (setup : armedSetup g + load armedSetup new = 0)
  | passSetup {owner items visible} (here : t = .setup (.pollJob owner items [] visible))
      (none : activePending items visible = 0)
      (software : armedSoftware g + load armedSoftware new = 0)

theorem quietUnarmed {g : Goroutine} (silent : g.quiet = true) : armedSoftware g = 0 ∧ armedSetup g = 0 := by
  cases g with
  | request r => exact ⟨rfl,rfl⟩
  | done => exact ⟨rfl,rfl⟩
  | _ => contradiction

theorem armUnarmed {s : Shared} {t g : Goroutine} (software : armedSoftware g = 0) (setup : armedSetup g = 0) :
    ArmStep s t g [] :=
  .keep (by rw [software]; exact Nat.zero_le _) (by rw [setup]; exact Nat.zero_le _)

theorem requestArm {m : CaseMap} {s s' : Shared} {r : Request} {g : Goroutine} {new : List Goroutine}
    (step : Request.Step m s r s' g new) : ArmStep s (.request r) g new := by
  have silent : ∀ {g : Goroutine}, g.quiet = true → ArmStep s (.request r) g [] := by
    intro g after
    obtain ⟨software,setup⟩ := quietUnarmed after
    exact armUnarmed software setup
  cases step with
  | quiet ids before after => exact silent after
  | retryFind after => exact silent after
  | dismissRows ids after => exact silent after
  | switchCancel after => exact silent after
  | switchComplete after => exact silent after
  | spawn => exact .keep (by simp [armedSoftware]) (by simp [armedSetup])
  | _ => exact armUnarmed rfl rfl

theorem dispatchArmed (it : QueueItem) :
    armedSoftware (.worker (dispatch it)) = 1 ∧ armedSetup (.worker (dispatch it)) = 0 := by
  unfold dispatch
  split <;> exact ⟨rfl,rfl⟩

theorem workerArm {s s' : Shared} {w : Worker} {g : Goroutine} {new : List Goroutine}
    (step : Worker.Step s w s' g new) : ArmStep s (.worker w) g new := by
  cases step with
  | free notHeld => exact .passWorker rfl notHeld rfl
  | claim claimed =>
    rename_i it q
    obtain ⟨software,setup⟩ := dispatchArmed it
    exact .keep (by rw [software]; exact Nat.le_refl 1) (by rw [setup]; exact Nat.zero_le _)
  | script inner =>
    have fewer := scriptArmed inner _ rfl
    exact .keep fewer (Nat.zero_le _)
  | scripted inner => exact .keep (Nat.zero_le _) (Nat.zero_le _)
  | brewRun => exact .keep (Nat.le_refl 1) (Nat.zero_le _)
  | found latest => exact .keep (Nat.le_refl 1) (Nat.zero_le _)
  | absent latest => exact .keep (Nat.le_refl 1) (Nat.zero_le _)
  | idle stopped => exact .keep (Nat.le_refl 1) (Nat.zero_le _)
  | prepared => exact .keep (Nat.le_refl 1) (Nat.zero_le _)
  | register => exact .keep (Nat.le_refl 1) (Nat.zero_le _)
  | annotate => exact .keep (Nat.le_refl _) (Nat.zero_le _)
  | _ => exact armUnarmed rfl rfl

theorem streamArm {s s' : Shared} {v : Stream} {g : Goroutine} {new : List Goroutine}
    (step : Stream.Step s v s' g new) : ArmStep s (.stream v) g new := by
  cases step with
  | register => exact .passStream rfl rfl
  | _ => exact armUnarmed rfl rfl

theorem installArm {s s' : Shared} {run : ScriptRun} {g : Goroutine} {new : List Goroutine}
    (step : InstallStep s run s' g new) : ArmStep s (.install run) g new := by
  cases step with
  | script inner =>
    have fewer := scriptArmed inner _ rfl
    exact .keep fewer (Nat.zero_le _)
  | scripted inner => exact .keep (Nat.zero_le _) (Nat.zero_le _)

theorem setupArm {k : Choice} {s s' : Shared} {v : Setup} {g : Goroutine} {new : List Goroutine}
    (stepped : v.next k s = some (s',g,new)) : ArmStep s (.setup v) g new := by
  cases v with
  | check auto =>
    simp only [Setup.next] at stepped
    split at stepped <;> cases stepped <;> exact armUnarmed rfl rfl
  | store auto =>
    simp only [Setup.next] at stepped
    split at stepped <;> cases stepped
    · exact armUnarmed rfl rfl
    · exact .keep (Nat.zero_le _) (Nat.zero_le _)
  | bind =>
    simp only [Setup.next] at stepped
    split at stepped <;> cases stepped <;> exact armUnarmed rfl rfl
  | hello jobID =>
    simp only [Setup.next] at stepped
    split at stepped <;> cases stepped <;> exact armUnarmed rfl rfl
  | ready owner =>
    simp only [Setup.next] at stepped
    split at stepped <;> cases stepped <;> exact armUnarmed rfl rfl
  | poll owner =>
    cases stepped
    exact armUnarmed rfl rfl
  | pollList owner items =>
    cases stepped
    exact armUnarmed rfl rfl
  | pollJob owner items todo visible =>
    simp only [Setup.next] at stepped
    split at stepped
    · split at stepped
      · rename_i none
        cases stepped
        exact .passSetup rfl none rfl
      · split at stepped <;> cases stepped <;> exact armUnarmed rfl rfl
    · split at stepped <;> cases stepped
      exact armUnarmed rfl rfl
  | phase owner =>
    cases owner with
    | background inst =>
      cases stepped
      exact .keep (Nat.zero_le _) (Nat.le_refl 1)
    | http jobID =>
      simp only [Setup.next] at stepped
      split at stepped <;> cases stepped <;> exact .keep (Nat.zero_le _) (Nat.le_refl 1)
  | phaseAt jobID inst =>
    cases stepped
    exact .keep (Nat.zero_le _) (Nat.le_refl 1)
  | start owner =>
    simp only [Setup.next] at stepped
    split at stepped <;> cases stepped
    · exact armUnarmed rfl rfl
    · exact .keep (Nat.zero_le _) (Nat.le_refl 1)
  | script owner =>
    cases stepped
    exact armUnarmed rfl rfl
  | finish owner status =>
    cases owner with
    | background inst =>
      cases stepped
      exact armUnarmed rfl rfl
    | http jobID =>
      simp only [Setup.next] at stepped
      split at stepped <;> cases stepped <;> exact armUnarmed rfl rfl
  | finishAt jobID inst status =>
    cases stepped
    exact armUnarmed rfl rfl

theorem stepArm {m : CaseMap} {k : Choice} {s s' : Shared} {t g : Goroutine} {new : List Goroutine}
    (stepped : next m k s t = some (s',g,new)) : ArmStep s t g new := by
  cases t with
  | request r => exact requestArm (Request.steps stepped)
  | worker w => exact workerArm (Worker.steps stepped)
  | stream v => exact streamArm (Stream.steps stepped)
  | install run => exact installArm (installSteps stepped)
  | prune job =>
    cases stepped
    exact armUnarmed rfl rfl
  | setup v => exact setupArm stepped
  | done => contradiction

theorem startedUnarmed {m : CaseMap} {g : Goroutine} (started : Started m g) : armedSoftware g = 0 ∧ armedSetup g = 0 := by
  cases started with
  | quiet silent => exact quietUnarmed silent
  | _ => exact ⟨rfl,rfl⟩

theorem armKept {pool new : List Goroutine} {i : Nat} {t g : Goroutine} (found : pool[i]? = some t)
    (one : load armedSoftware pool = 0 ∨ load armedSetup pool = 0)
    (software : armedSoftware g + load armedSoftware new ≤ armedSoftware t)
    (setup : armedSetup g + load armedSetup new ≤ armedSetup t) :
    load armedSoftware (pool.set i g ++ new) = 0 ∨ load armedSetup (pool.set i g ++ new) = 0 := by
  have softwares := loadStep armedSoftware g new found
  have setups := loadStep armedSetup g new found
  omega

theorem armPassed {w : Goroutine → Nat} {pool new : List Goroutine} {i : Nat} {t g : Goroutine}
    (found : pool[i]? = some t) (unarmed : ∀ u ∈ pool, w u = 0) (none : w g + load w new = 0) :
    load w (pool.set i g ++ new) = 0 := by
  have moved := loadStep w g new found
  have zero := (loadZero w pool).mpr unarmed
  omega

theorem allUnarmed {w : Goroutine → Nat} {pool : List Goroutine} (never : ¬∃ u ∈ pool, 0 < w u) :
    ∀ u ∈ pool, w u = 0 := by
  intro u mem
  by_contra armed
  exact never ⟨u,mem,Nat.pos_of_ne_zero armed⟩

theorem oneArmedPreserved (m : CaseMap) : Preserved (host m) SeesOther OneArmed := by
  constructor
  · intro c call one
    obtain ⟨software,setup⟩ := startedUnarmed (startCases m call)
    have softwares : load armedSoftware (c.pool ++ [start m call]) = load armedSoftware c.pool := by
      simp [software]
    have setups : load armedSetup (c.pool ++ [start m call]) = load armedSetup c.pool := by
      simp [setup]
    exact one.imp softwares.trans setups.trans
  · intro c i t k s' g new one found sees stepped
    cases stepArm stepped with
    | keep software setup => exact armKept found one software setup
    | passWorker here notHeld setup =>
      subst here
      have quiet : ¬∃ u ∈ c.pool, 0 < armedSetup u := by
        intro armed
        have held := sees armed
        rw [notHeld] at held
        contradiction
      exact .inr (armPassed found (allUnarmed quiet) setup)
    | passStream here setup =>
      subst here
      exact .inr (armPassed found sees setup)
    | passSetup here none software =>
      subst here
      have idle : ¬∃ u ∈ c.pool, 0 < armedSoftware u := by
        intro armed
        have counted := sees rfl armed
        omega
      exact .inl (armPassed found (allUnarmed idle) software)

/- A software install, uninstall or brew script is executing. -/
def softwareScript : Goroutine → Bool
  | .worker (.brewRun _) => true
  | .worker (.script _ run) => run.point == .running || run.point == .customRunning
  | .install run => run.point == .running || run.point == .customRunning
  | _ => false

theorem runningScriptArmed {run : ScriptRun}
    (executing : (run.point == .running || run.point == .customRunning) = true) : armedScript run = 1 := by
  simp only [Bool.or_eq_true,beq_iff_eq] at executing
  rcases executing with here | here <;> simp [armedScript,here,ScriptPoint.finished]

theorem softwareScriptArmed {t : Goroutine} (executing : softwareScript t = true) : armedSoftware t = 1 := by
  cases t with
  | worker w =>
    cases w with
    | brewRun it => rfl
    | script it run => exact runningScriptArmed executing
    | _ => contradiction
  | install run => exact runningScriptArmed executing
  | _ => contradiction

theorem setupScriptArmed {t : Goroutine} (executing : setupScript t = true) : armedSetup t = 1 := by
  cases t with
  | setup v => cases v <;> first | rfl | contradiction
  | _ => contradiction

theorem scriptsExclude (m : CaseMap) (installed : Installed) {events : List (Event Call Choice)}
    {c : Process} (guarded : Along (host m) SeesOther (boot installed) events)
    (ran : run (host m) (boot installed) events = some c) :
    ¬((∃ t ∈ c.pool, softwareScript t = true) ∧ ∃ u ∈ c.pool, setupScript u = true) := by
  have one := runPreserved (oneArmedPreserved m) (.inl rfl) guarded ran
  rintro ⟨⟨t,inT,softwares⟩,u,inU,setups⟩
  have armedT := loadMember armedSoftware inT
  have armedU := loadMember armedSetup inU
  rw [softwareScriptArmed softwares] at armedT
  rw [setupScriptArmed setups] at armedU
  rcases one with none | none <;> omega

/- The setup run publishes "installing" before the worker looks, which then
waits, and the queued install runs after the setup script. -/
def setupThenWorker : List (Event Call Choice) :=
  ([.call (.startBackgroundInstall false)] : Events) ++ (List.replicate 2 (.step 0 {}) : Events) ++
    (List.replicate 5 (.step 1 {}) : Events) ++ ([.call (.enqueueActions true "install" ["a"])] : Events) ++
    (List.replicate 4 (.step 2 {}) : Events) ++ (List.replicate 2 (.step 3 {}) : Events) ++
    (List.replicate 3 (.step 1 {}) : Events) ++ (List.replicate 9 (.step 3 {}) : Events)

theorem scriptsExcludeRun : ∃ c, run (host ascii) (boot (fun _ => none)) setupThenWorker = some c ∧
    (∃ t ∈ c.pool, softwareScript t = true) ∧ ¬∃ u ∈ c.pool, setupScript u = true := by
  have executing : (run (host ascii) (boot (fun _ => none)) setupThenWorker).any
      (fun c => c.pool.any softwareScript) = true := by decide
  obtain ⟨c,ran,busy⟩ := (Option.any_eq_true _ _).mp executing
  have software := List.any_eq_true.mp busy
  have exclude := scriptsExclude ascii _ (by decide) ran
  exact ⟨c,ran,software,fun setup => exclude ⟨software,setup⟩⟩

/- A StreamInstallAPI request looks at nothing. -/
def streamIntoSetup : List (Event Call Choice) :=
  ([.call (.startBackgroundInstall false)] : Events) ++ (List.replicate 2 (.step 0 {}) : Events) ++
    (List.replicate 6 (.step 1 {}) : Events) ++ ([.call (.streamInstallAPI "a")] : Events) ++
    (List.replicate 3 (.step 2 {}) : Events) ++ (List.replicate 2 (.step 3 {}) : Events)

/- The worker looks between the idle check of a setup run and its phase. -/
def workerIntoSetup : List (Event Call Choice) :=
  ([.call (.startBackgroundInstall false)] : Events) ++ (List.replicate 2 (.step 0 {}) : Events) ++
    (List.replicate 4 (.step 1 {}) : Events) ++ ([.call (.enqueueActions true "install" ["a"])] : Events) ++
    (List.replicate 4 (.step 2 {}) : Events) ++ (List.replicate 9 (.step 3 {}) : Events) ++
    (List.replicate 2 (.step 1 {}) : Events)

theorem runBoth {events : List (Event Call Choice)}
    (both : (run (host ascii) (boot (fun _ => none)) events).any
      (fun c => c.pool.any softwareScript && c.pool.any setupScript) = true) :
    ∃ c, run (host ascii) (boot (fun _ => none)) events = some c ∧
      (∃ t ∈ c.pool, softwareScript t = true) ∧ ∃ u ∈ c.pool, setupScript u = true := by
  obtain ⟨c,ran,pair⟩ := (Option.any_eq_true _ _).mp both
  simp only [Bool.and_eq_true,List.any_eq_true] at pair
  exact ⟨c,ran,pair⟩

theorem scriptsTogether :
    (∃ c, run (host ascii) (boot (fun _ => none)) streamIntoSetup = some c ∧
      (∃ t ∈ c.pool, softwareScript t = true) ∧ ∃ u ∈ c.pool, setupScript u = true) ∧
    ∃ c, run (host ascii) (boot (fun _ => none)) workerIntoSetup = some c ∧
      (∃ t ∈ c.pool, softwareScript t = true) ∧ ∃ u ∈ c.pool, setupScript u = true :=
  ⟨runBoth (by decide),runBoth (by decide)⟩

end ContainerWS
