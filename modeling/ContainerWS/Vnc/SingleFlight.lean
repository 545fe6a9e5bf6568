import ContainerWS.System

/-! One setup run at a time. A run is engaged from the moment its record should
be the active one until it has marked a record finished; the active record is
running as long as a run is engaged, if no start replaces or misses it. -/
namespace ContainerWS.Vnc
open ContainerWS Install Interleaving GoStrings

def engagedSetup : Setup → Nat
  | .check _ => 0
  | .store _ => 0
  | .bind => 0
  | _ => 1

def engaged : Goroutine → Nat
  | .setup v => engagedSetup v
  | _ => 0

/- StartBackgroundInstall stores its record, and StreamSetupAPI binds its job,
while no active record is running. -/
def NoneActive (c : Process) : Goroutine → Prop
  | .setup (.store _) => c.shared.record.activeRunning = false
  | .setup .bind => c.shared.record.activeRunning = false
  | _ => True

instance (c : Process) (t : Goroutine) : Decidable (NoneActive c t) := by
  unfold NoneActive
  split <;> infer_instance

def Flight (c : Process) : Prop := load engaged c.pool ≤ c.shared.record.activeRunning.toNat

theorem storeRunning (r : Record) (jobID : Nat) (auto : Bool) : (r.store jobID auto).activeRunning = true := by
  simp [Record.activeRunning,Record.running]

theorem bindRunning {r : Record} (jobID : Nat) (auto : Bool) (free : r.activeRunning = false) :
    (bindHTTPJob r jobID auto).activeRunning = true := by
  rw [bindHTTPJob,free]
  exact storeRunning r jobID auto

theorem phaseRunning (r : Record) (p : Nat) (phase : Phase) :
    (r.setPhase p phase).activeRunning = r.activeRunning := by
  unfold Record.setPhase Record.activeRunning
  rw [modifyActive]
  cases r.activeInst with
  | none => rfl
  | some q =>
    simp only [Record.running,modifyAt]
    by_cases same : p = q
    · rw [if_pos same]
      cases r.heap[q]? <;> rfl
    · rw [if_neg same]

theorem httpPhaseRunning (r : Record) (p jobID : Nat) (phase : Phase) :
    (setHTTPJobPhase r p jobID phase).activeRunning = r.activeRunning := by
  unfold setHTTPJobPhase
  split
  · exact phaseRunning r p phase
  · rfl

/- What a step does to the active record and to the engagement of its goroutine. -/
inductive FlightStep (s s' : Shared) (t g : Goroutine) (new : List Goroutine) : Prop where
  | keep (record : s'.record.activeRunning = s.record.activeRunning)
      (hands : engaged g + load engaged new ≤ engaged t)
  | enter (guarded : ∀ c, NoneActive c t → c.shared.record.activeRunning = false)
      (store : s.record.activeRunning = false → s'.record.activeRunning = true)
      (hands : engaged g + load engaged new ≤ 1)
  | leave (here : engaged t = 1) (hands : engaged g + load engaged new = 0)

theorem engagedOwner (v : Setup) : engagedSetup v = v.owner.isSome.toNat := by
  cases v <;> rfl

theorem setupFlight {k : Choice} {s s' : Shared} {v : Setup} {g : Goroutine} {new : List Goroutine}
    (stepped : v.next k s = some (s',g,new)) : FlightStep s s' (.setup v) g new := by
  cases Setup.steps stepped with
  | leave unowned => exact .keep rfl (Nat.zero_le _)
  | @move _ v' same plain =>
    have level : engagedSetup v' = engagedSetup v := by rw [engagedOwner,engagedOwner,same]
    exact .keep rfl (Nat.le_of_eq level)
  | store => exact .enter (fun _ free => free) (fun _ => storeRunning _ _ _) (Nat.le_refl 1)
  | bind => exact .enter (fun _ free => free) (fun free => bindRunning _ _ free) (Nat.le_refl 1)
  | goodbye fails => exact .leave rfl rfl
  | phase => exact .keep (phaseRunning _ _ _) (Nat.le_refl 1)
  | phaseAt => exact .keep (httpPhaseRunning _ _ _ _) (Nat.le_refl 1)
  | finish => exact .leave rfl rfl
  | nothing none => exact .leave rfl rfl
  | found active => exact .keep rfl (Nat.le_refl 1)
  | finishAt => exact .leave rfl rfl

/- The softwares side does not touch the record and starts no setup. -/
structure Idle (s s' : Shared) (g : Goroutine) (new : List Goroutine) : Prop where
  record : s'.record = s.record
  drawn : s.drawn ≤ s'.drawn
  self : engaged g = 0
  rest : load engaged new = 0

theorem scriptIdle {s s' : Shared} {run : ScriptRun} {point : Option ScriptPoint}
    (step : run.Step s s' point) : s'.record = s.record ∧ s.drawn ≤ s'.drawn := by
  cases step <;> exact ⟨rfl,Nat.le_refl _⟩

theorem quietIdle {g : Goroutine} (silent : g.quiet = true) : engaged g = 0 := by
  cases g with
  | setup v => contradiction
  | _ => rfl

theorem requestIdle {m : CaseMap} {s s' : Shared} {r : Request} {g : Goroutine} {new : List Goroutine}
    (step : Request.Step m s r s' g new) : Idle s s' g new := by
  cases step with
  | quiet ids before after => exact ⟨rfl,Nat.le_refl _,quietIdle after,rfl⟩
  | retryFind after => exact ⟨rfl,Nat.le_refl _,quietIdle after,rfl⟩
  | dismissRows ids after => exact ⟨rfl,Nat.le_refl _,quietIdle after,rfl⟩
  | switchCancel after => exact ⟨rfl,Nat.le_refl _,quietIdle after,rfl⟩
  | switchComplete after => exact ⟨rfl,Nat.le_refl _,quietIdle after,rfl⟩
  | _ => exact ⟨rfl,by first | exact Nat.le_refl _ | exact Nat.le_add_right _ _,rfl,rfl⟩

theorem workerIdle {s s' : Shared} {w : Worker} {g : Goroutine} {new : List Goroutine}
    (step : Worker.Step s w s' g new) : Idle s s' g new := by
  cases step with
  | script inner => exact ⟨(scriptIdle inner).1,(scriptIdle inner).2,rfl,rfl⟩
  | scripted inner => exact ⟨(scriptIdle inner).1,(scriptIdle inner).2,rfl,rfl⟩
  | _ => exact ⟨rfl,by first | exact Nat.le_refl _ | exact Nat.le_add_right _ _,rfl,rfl⟩

theorem streamIdle {s s' : Shared} {v : Stream} {g : Goroutine} {new : List Goroutine}
    (step : Stream.Step s v s' g new) : Idle s s' g new := by
  cases step <;> exact ⟨rfl,by first | exact Nat.le_refl _ | exact Nat.le_add_right _ _,rfl,rfl⟩

theorem installIdle {s s' : Shared} {run : ScriptRun} {g : Goroutine} {new : List Goroutine}
    (step : InstallStep s run s' g new) : Idle s s' g new := by
  cases step with
  | script inner => exact ⟨(scriptIdle inner).1,(scriptIdle inner).2,rfl,rfl⟩
  | scripted inner => exact ⟨(scriptIdle inner).1,(scriptIdle inner).2,rfl,rfl⟩

theorem stepIdle {m : CaseMap} {k : Choice} {s s' : Shared} {t g : Goroutine} {new : List Goroutine}
    (stepped : next m k s t = some (s',g,new)) :
    (∃ v, t = .setup v ∧ v.next k s = some (s',g,new)) ∨ engaged t = 0 ∧ Idle s s' g new := by
  cases t with
  | request r => exact .inr ⟨rfl,requestIdle (Request.steps stepped)⟩
  | worker w => exact .inr ⟨rfl,workerIdle (Worker.steps stepped)⟩
  | stream v => exact .inr ⟨rfl,streamIdle (Stream.steps stepped)⟩
  | install run => exact .inr ⟨rfl,installIdle (installSteps stepped)⟩
  | prune job =>
    cases stepped
    exact .inr ⟨rfl,rfl,Nat.le_refl _,rfl,rfl⟩
  | setup v => exact .inl ⟨v,rfl,stepped⟩
  | done => contradiction

theorem stepFlight {m : CaseMap} {k : Choice} {s s' : Shared} {t g : Goroutine} {new : List Goroutine}
    (stepped : next m k s t = some (s',g,new)) : FlightStep s s' t g new := by
  rcases stepIdle stepped with ⟨v,rfl,inner⟩ | ⟨_,idle⟩
  · exact setupFlight inner
  · exact .keep (by rw [idle.record]) (by rw [idle.self,idle.rest]; exact Nat.zero_le _)

theorem startedIdle {m : CaseMap} {g : Goroutine} (started : Started m g) : engaged g = 0 := by
  cases started with
  | quiet silent => exact quietIdle silent
  | _ => rfl

theorem flightPreserved (m : CaseMap) : Preserved (host m) NoneActive Flight := by
  refine ⟨?_,?_⟩
  · intro c call flight
    have idle : engaged ((host m).start call) = 0 := startedIdle (startCases m call)
    unfold Flight at flight ⊢
    simpa [idle] using flight
  · intro c i t k s' g new flight found guard stepped
    have moved := loadStep engaged g new found
    have mine := loadMember engaged (List.mem_of_getElem? found)
    have most := Bool.toNat_le c.shared.record.activeRunning
    unfold Flight at flight ⊢
    cases stepFlight stepped with
    | keep record hands =>
      rw [record]
      dsimp only
      omega
    | enter guarded store hands =>
      have free := guarded c guard
      rw [free] at flight
      rw [store free]
      simp only [Bool.toNat_false,Bool.toNat_true] at flight ⊢
      omega
    | leave here hands =>
      dsimp only
      omega

theorem flightBoot (installed : Installed) : Flight (boot installed) := Nat.le_refl 0

/- The setup scripts now executing. -/
def executing (c : Process) : Nat := c.pool.countP setupScript

theorem scriptEngaged {t : Goroutine} (runs : setupScript t = true) : engaged t = 1 := by
  unfold setupScript at runs
  split at runs
  · rfl
  · contradiction

theorem executingEngaged (pool : List Goroutine) : pool.countP setupScript ≤ load engaged pool := by
  induction pool with
  | nil => exact Nat.le_refl 0
  | cons t rest ih =>
    rw [loadCons,List.countP_cons]
    split
    · rename_i runs
      have own := scriptEngaged runs
      omega
    · omega

theorem oneSetupScript (m : CaseMap) (installed : Installed) {events : List (Event Call Choice)}
    {c : Process} (guarded : Along (host m) NoneActive (boot installed) events)
    (ran : run (host m) (boot installed) events = some c) : executing c ≤ 1 := by
  have flight := runPreserved (flightPreserved m) (flightBoot installed) guarded ran
  have fewer := executingEngaged c.pool
  have most := Bool.toNat_le c.shared.record.activeRunning
  unfold Flight at flight
  unfold executing
  omega

/- A second start is refused while the first run executes its script. -/
def startTwice : List (Event Call Choice) :=
  ([.call (.startBackgroundInstall false)] : Events) ++ (List.replicate 2 (.step 0 {}) : Events) ++
    (List.replicate 6 (.step 1 {}) : Events) ++ ([.call (.startBackgroundInstall true),.step 2 {}] : Events)

theorem oneSetupScriptTwice : ∃ c, run (host ascii) (boot (fun _ => none)) startTwice = some c ∧
    executing c = 1 := by
  obtain ⟨c,ran,some⟩ := (Option.any_eq_true _ _).mp
    (by decide : (run (host ascii) (boot (fun _ => none)) startTwice).any
      (fun c => 0 < executing c) = true)
  have most := oneSetupScript ascii _ (by decide) ran
  simp only [decide_eq_true_eq] at some
  exact ⟨c,ran,by omega⟩

/- Both starts find no running record before either stores its own. -/
def startTogether : List (Event Call Choice) :=
  ([.call (.startBackgroundInstall false),.call (.startBackgroundInstall false),.step 0 {},.step 1 {},
      .step 0 {},.step 1 {}] : Events) ++
    (List.replicate 6 (.step 2 {}) : Events) ++ (List.replicate 6 (.step 3 {}) : Events)

/- BindHTTPJob declines and the request goes on. -/
def streamDeclined : List (Event Call Choice) :=
  ([.call (.startBackgroundInstall false)] : Events) ++ (List.replicate 2 (.step 0 {}) : Events) ++
    (List.replicate 6 (.step 1 {}) : Events) ++ ([.call .streamSetupAPI] : Events) ++
    (List.replicate 9 (.step 2 {}) : Events)

theorem twoSetupScripts :
    (∃ c, run (host ascii) (boot (fun _ => none)) startTogether = some c ∧ 1 < executing c) ∧
    ∃ c, run (host ascii) (boot (fun _ => none)) streamDeclined = some c ∧ 1 < executing c := by
  obtain ⟨c,ran,two⟩ := (Option.any_eq_true _ _).mp
    (by decide : (run (host ascii) (boot (fun _ => none)) startTogether).any
      (fun c => 1 < executing c) = true)
  obtain ⟨d,ran',two'⟩ := (Option.any_eq_true _ _).mp
    (by decide : (run (host ascii) (boot (fun _ => none)) streamDeclined).any
      (fun c => 1 < executing c) = true)
  exact ⟨⟨c,ran,by simpa using two⟩,d,ran',by simpa using two'⟩

end ContainerWS.Vnc
