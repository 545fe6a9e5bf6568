import ContainerWS.Vnc.SingleFlight

/-! What a setup run leaves behind when it returns. The stream writer of
StreamSetupAPI has an early return after the write of each event that matters
and one at its end; it finishes the record bound to its job on all of them but
the first, where the client is gone before the first event. -/
namespace ContainerWS.Vnc
open ContainerWS Install Interleaving GoStrings

/- The active install is bound to the job and running. -/
def Record.runs (r : Record) (jobID : Nat) : Bool :=
  match r.activeInst with
  | none => false
  | some p => r.running p && r.same p jobID

def holder : Goroutine → Option Owner
  | .setup v => v.owner
  | _ => none

/- The write of the first event does not fail while the writer's record is the
active one and running. -/
def Greeted (c : Process) (k : Choice) : Goroutine → Prop
  | .setup (.hello jobID) => k.fails = true → c.shared.record.runs jobID = false
  | _ => True

instance (c : Process) (k : Choice) (t : Goroutine) : Decidable (Greeted c k t) := by
  unfold Greeted
  split <;> infer_instance

/- The goroutine that will finish the record at `p`. -/
def Holds (r : Record) (p : Nat) (t : Goroutine) : Prop :=
  holder t = some (.background p) ∨ ∃ jobID, holder t = some (.http jobID) ∧ r.same p jobID = true

/- The active record stays and keeps its job, and none starts to run again. -/
structure Kept (s s' : Shared) : Prop where
  drawn : s.drawn ≤ s'.drawn
  active : s'.record.activeInst = s.record.activeInst
  jobs : ∀ p jobID, s'.record.same p jobID = s.record.same p jobID
  statuses : ∀ p, s'.record.running p = true → s.record.running p = true

/- A record of a fresh job becomes the active one. -/
structure Opened (s s' : Shared) : Prop where
  drawn : s.drawn < s'.drawn
  fresh : ∃ auto, s'.record = s.record.store s.drawn auto

def Turned (s s' : Shared) : Prop := Kept s s' ∨ Opened s s'

theorem sameModify {f : ActiveInstall → ActiveInstall} (job : ∀ a, (f a).jobID = a.jobID) (r : Record)
    (q p jobID : Nat) : (r.modify q f).same p jobID = r.same p jobID := by
  simp only [Record.same,modifyAt]
  by_cases here : q = p
  · rw [if_pos here]
    cases r.heap[p]? with
    | none => rfl
    | some a => simp [job]
  · rw [if_neg here]

theorem sameStore {r : Record} {jobID other : Nat} {auto : Bool}
    (same : (r.store jobID auto).same r.heap.length other = true) : other = jobID := by
  simp only [Record.same,storeAt,beq_iff_eq] at same
  exact same.symm

theorem runningSetPhase (r : Record) (q p : Nat) (phase : Phase) :
    (r.setPhase q phase).running p = r.running p := by
  simp only [Record.running,Record.setPhase,modifyAt]
  by_cases here : q = p
  · rw [if_pos here]
    cases r.heap[p]? <;> rfl
  · rw [if_neg here]

theorem runningFinish {status : SetupStatus} (settled : status ≠ .running) (r : Record) (q p : Nat) :
    (r.finish q status).running p = (r.running p && q != p) := by
  simp only [Record.running,Record.finish,modifyAt]
  by_cases here : q = p
  · rw [if_pos here]
    cases r.heap[p]? with
    | none => rfl
    | some a => simp [ActiveInstall.finish,settled,here]
  · rw [if_neg here]
    simp [here]

theorem keptSame {s s' : Shared} (record : s'.record = s.record) (drawn : s.drawn ≤ s'.drawn) : Kept s s' :=
  ⟨drawn,by rw [record],by simp [record],by simp [record]⟩

theorem keptSetPhase (s : Shared) (q : Nat) (phase : Phase) :
    Kept s {s with record := s.record.setPhase q phase} :=
  ⟨Nat.le_refl _,rfl,sameModify (f := .setPhase phase) (fun _ => rfl) s.record q,
    fun p runs => by rwa [runningSetPhase] at runs⟩

theorem keptFinish {status : SetupStatus} (settled : status ≠ .running) (s : Shared) (q : Nat) :
    Kept s {s with record := s.record.finish q status} := by
  refine ⟨Nat.le_refl _,rfl,sameModify (f := .finish status) (fun _ => rfl) s.record q,?_⟩
  intro p runs
  rw [runningFinish settled,Bool.and_eq_true] at runs
  exact runs.1

/- What a run knows in its last steps. The record that a stream writer looked up
is the active one, if that is bound to its job at all. -/
def Ends (r : Record) : Setup → Prop
  | .finish _ status => status ≠ .running
  | .finishAt jobID p status => status ≠ .running ∧
      ∀ q, r.activeInst = some q → r.same q jobID = true → q = p
  | _ => True

theorem endsPlain {r : Record} {v : Setup} (plain : v.plain) : Ends r v := by
  cases v with
  | finish owner status => exact plain
  | finishAt jobID p status => exact plain.elim
  | _ => trivial

def Sound (s : Shared) : Goroutine → Prop
  | .setup v => (∀ jobID, v.owner = some (.http jobID) → jobID < s.drawn) ∧ Ends s.record v
  | _ => True

structure Traced (c : Process) : Prop where
  records : ∀ p jobID, c.shared.record.same p jobID = true → jobID < c.shared.drawn
  sound : ∀ t ∈ c.pool, Sound c.shared t

/- Where a step makes a record active, it or the goroutine it starts holds it. -/
theorem setupTurned {k : Choice} {s s' : Shared} {v : Setup} {g : Goroutine} {new : List Goroutine}
    (step : Setup.Step k s v s' g new) (ends : Ends s.record v) :
    Kept s s' ∨ Opened s s' ∧ ∃ u ∈ g::new, Holds s'.record s.record.heap.length u := by
  cases step with
  | @store auto =>
    exact .inr ⟨⟨Nat.lt_succ_self _,auto,rfl⟩,_,List.mem_cons_of_mem _ (List.mem_singleton_self _),.inl rfl⟩
  | bind =>
    cases free : s.record.activeRunning with
    | false =>
      have stored : bindHTTPJob s.record s.drawn false = s.record.store s.drawn false := by
        simp [bindHTTPJob,free]
      refine .inr ⟨⟨Nat.lt_succ_self _,false,stored⟩,_,List.mem_cons_self,.inr ⟨s.drawn,rfl,?_⟩⟩
      simp [stored,Record.same]
    | true => exact .inl (keptSame (by simp [bindHTTPJob,free]) (Nat.le_succ _))
  | @phase inst => exact .inl (keptSetPhase s inst .installing)
  | @phaseAt jobID inst =>
    unfold setHTTPJobPhase
    split
    · exact .inl (keptSetPhase s inst .installing)
    · exact .inl (keptSame rfl (Nat.le_refl _))
  | @finish inst status => exact .inl (keptFinish ends s inst)
  | @finishAt jobID inst status =>
    unfold finishHTTPJob
    split
    · exact .inl (keptFinish ends.1 s inst)
    · exact .inl (keptSame rfl (Nat.le_refl _))
  | _ => exact .inl (keptSame rfl (Nat.le_refl _))

theorem turnedDrawn {s s' : Shared} (turned : Turned s s') : s.drawn ≤ s'.drawn := by
  rcases turned with kept | opened
  · exact kept.drawn
  · exact Nat.le_of_lt opened.drawn

/- The record made active belongs to no job drawn before. -/
theorem openedSame {s s' : Shared} {p jobID : Nat} (opened : Opened s s') (old : jobID < s.drawn)
    (active : s'.record.activeInst = some p) : s'.record.same p jobID = false := by
  obtain ⟨auto,fresh⟩ := opened.fresh
  rw [fresh] at active ⊢
  cases Option.some.inj active
  apply Bool.eq_false_iff.mpr
  intro same
  have new := sameStore same
  omega

theorem soundTurned {s s' : Shared} {t : Goroutine} (turned : Turned s s') (sound : Sound s t) :
    Sound s' t := by
  cases t with
  | setup v =>
    obtain ⟨jobs,ends⟩ := sound
    refine ⟨fun jobID mine => Nat.lt_of_lt_of_le (jobs jobID mine) (turnedDrawn turned),?_⟩
    cases v with
    | finish owner status => exact ends
    | finishAt jobID p status =>
      refine ⟨ends.1,?_⟩
      intro q active same
      rcases turned with kept | opened
      · rw [kept.active] at active
        rw [kept.jobs] at same
        exact ends.2 q active same
      · rw [openedSame opened (jobs jobID rfl) active] at same
        contradiction
    | _ => trivial
  | _ => trivial

theorem recordsTurned {s s' : Shared} (turned : Turned s s')
    (records : ∀ p jobID, s.record.same p jobID = true → jobID < s.drawn) :
    ∀ p jobID, s'.record.same p jobID = true → jobID < s'.drawn := by
  intro p jobID same
  rcases turned with kept | opened
  · rw [kept.jobs] at same
    exact Nat.lt_of_lt_of_le (records p jobID same) kept.drawn
  · obtain ⟨auto,fresh⟩ := opened.fresh
    rw [fresh] at same
    by_cases last : p = s.record.heap.length
    · subst last
      rw [sameStore same]
      exact opened.drawn
    · have old : s.record.same p jobID = true := by
        simp only [Record.same,Record.store] at same ⊢
        rcases Nat.lt_or_gt_of_ne last with below | beyond
        · rwa [List.getElem?_append_left below] at same
        · rw [List.getElem?_eq_none (by simp; omega)] at same
          contradiction
      exact Nat.lt_trans (records p jobID old) opened.drawn

theorem setupSound {k : Choice} {s s' : Shared} {v : Setup} {g : Goroutine} {new : List Goroutine}
    (step : Setup.Step k s v s' g new) (sound : Sound s (.setup v)) :
    Sound s' g ∧ ∀ u ∈ new, Sound s' u := by
  obtain ⟨jobs,ends⟩ := sound
  cases step with
  | leave => exact ⟨trivial,by simp⟩
  | move same plain => exact ⟨⟨by rwa [same],endsPlain plain⟩,by simp⟩
  | store => exact ⟨trivial,by simp [Sound,Setup.owner,Ends]⟩
  | bind => exact ⟨⟨by simp [Setup.owner,Shared.draw],trivial⟩,by simp⟩
  | goodbye => exact ⟨trivial,by simp⟩
  | phase => exact ⟨⟨jobs,trivial⟩,by simp⟩
  | phaseAt => exact ⟨⟨jobs,trivial⟩,by simp⟩
  | finish => exact ⟨trivial,by simp⟩
  | nothing none => exact ⟨trivial,by simp⟩
  | @found jobID status inst active =>
    refine ⟨⟨jobs,ends,?_⟩,by simp⟩
    intro q here same
    rw [active] at here
    exact (Option.some.inj here).symm
  | finishAt => exact ⟨trivial,by simp⟩

theorem runsIff (r : Record) (jobID : Nat) : r.runs jobID = true ↔
    ∃ p, r.activeInst = some p ∧ r.running p = true ∧ r.same p jobID = true := by
  unfold Record.runs
  cases r.activeInst with
  | none => simp
  | some p => simp

theorem finishHTTPJobRuns {r : Record} {p jobID : Nat} {status : SetupStatus} (ends : Ends r (.finishAt jobID p status)) :
    (finishHTTPJob r p jobID status).runs jobID = false := by
  obtain ⟨settled,reads⟩ := ends
  apply Bool.eq_false_iff.mpr
  intro runs
  obtain ⟨q,active,running,same⟩ := (runsIff _ _).mp runs
  unfold finishHTTPJob at active running same
  split at same
  · rename_i mine
    rw [if_pos mine] at active running
    rw [runningFinish settled,Bool.and_eq_true,bne_iff_ne] at running
    rw [Record.finish,sameModify (f := .finish status) (fun _ => rfl)] at same
    exact running.2 (reads q active same).symm
  · rename_i other
    rw [if_neg other] at active
    rw [reads q active same] at same
    exact other same

theorem idleOwner {v : Setup} (idle : engaged (.setup v) = 0) : v.owner = none := by
  rw [engaged,engagedOwner] at idle
  cases h : v.owner with
  | none => rfl
  | some owner => simp [h] at idle

theorem idleSound {s : Shared} {t : Goroutine} (idle : engaged t = 0) : Sound s t := by
  cases t with
  | setup v =>
    have unowned := idleOwner idle
    refine ⟨by simp [unowned],?_⟩
    cases v with
    | finish owner status => contradiction
    | finishAt jobID p status => contradiction
    | _ => trivial
  | _ => trivial

theorem stepTurned {m : CaseMap} {k : Choice} {s s' : Shared} {t g : Goroutine} {new : List Goroutine}
    (stepped : next m k s t = some (s',g,new)) (sound : Sound s t) : Turned s s' := by
  rcases stepIdle stepped with ⟨v,rfl,inner⟩ | ⟨_,idle⟩
  · exact (setupTurned (Setup.steps inner) sound.2).imp_right And.left
  · exact .inl (keptSame idle.record idle.drawn)

theorem stepSound {m : CaseMap} {k : Choice} {s s' : Shared} {t g : Goroutine} {new : List Goroutine}
    (stepped : next m k s t = some (s',g,new)) (sound : Sound s t) :
    Sound s' g ∧ ∀ u ∈ new, Sound s' u := by
  rcases stepIdle stepped with ⟨v,rfl,inner⟩ | ⟨_,idle⟩
  · exact setupSound (Setup.steps inner) sound
  · have rest := (loadZero engaged new).mp idle.rest
    exact ⟨idleSound idle.self,fun u mem => idleSound (rest u mem)⟩

theorem tracedStep {m : CaseMap} {c d : Process} {e : Event Call Choice} (traced : Traced c)
    (ran : exec (host m) c e = some d) : Traced d := by
  obtain ⟨records,sound⟩ := traced
  cases execMoved ran with
  | call r =>
    refine ⟨records,?_⟩
    intro t mem
    rcases List.mem_append.mp mem with old | fresh
    · exact sound t old
    · rw [List.mem_singleton.mp fresh]
      exact idleSound (startedIdle (startCases m r))
  | step found stepped =>
    have mine := sound _ (List.mem_of_getElem? found)
    have turned := stepTurned stepped mine
    obtain ⟨self,started⟩ := stepSound stepped mine
    exact ⟨recordsTurned turned records,everyStep (fun u mem => soundTurned turned (sound u mem)) self started⟩

theorem tracedBoot (installed : Installed) : Traced (boot installed) :=
  ⟨by simp [boot,Record.same],by simp [boot]⟩

/- One stream writer. Once it has returned its job is never active and running
again, since no later record is bound to it. -/
def Released (s : Shared) (jobID : Nat) : Prop := jobID < s.drawn ∧ s.record.runs jobID = false

theorem releasedTurned {s s' : Shared} {jobID : Nat} (turned : Turned s s') (released : Released s jobID) :
    Released s' jobID := by
  obtain ⟨old,ended⟩ := released
  refine ⟨Nat.lt_of_lt_of_le old (turnedDrawn turned),Bool.eq_false_iff.mpr ?_⟩
  intro runs
  obtain ⟨p,active,running,same⟩ := (runsIff _ _).mp runs
  rcases turned with kept | opened
  · have before : s.record.runs jobID = true :=
      (runsIff _ _).mpr ⟨p,by rwa [kept.active] at active,kept.statuses p running,by rwa [kept.jobs] at same⟩
    rw [ended] at before
    contradiction
  · rw [openedSame opened old active] at same
    contradiction

theorem writerStep {k : Choice} {s s' : Shared} {v : Setup} {g : Goroutine} {new : List Goroutine}
    {jobID : Nat} (step : Setup.Step k s v s' g new) (mine : v.owner = some (.http jobID))
    (ends : Ends s.record v)
    (greeted : v = .hello jobID → k.fails = true → s.record.runs jobID = false) :
    holder g = some (.http jobID) ∨ s'.record.runs jobID = false := by
  cases step with
  | leave unowned =>
    rw [unowned] at mine
    contradiction
  | move same plain => exact .inl (same.trans mine)
  | goodbye fails =>
    cases mine
    exact .inr (greeted rfl fails)
  | phaseAt => exact .inl mine
  | nothing none => exact .inr (by simp [Record.runs,none])
  | found active => exact .inl mine
  | finishAt =>
    cases mine
    exact .inr (finishHTTPJobRuns ends)
  | _ => cases mine

def Writing (i jobID : Nat) (c : Process) : Prop :=
  (∃ t, c.pool[i]? = some t ∧ holder t = some (.http jobID)) ∨ Released c.shared jobID

theorem poolKept {pool new : List Goroutine} {i j : Nat} {t g : Goroutine} (found : pool[i]? = some t)
    (other : j ≠ i) : (pool.set j g ++ new)[i]? = some t := by
  obtain ⟨bound,_⟩ := List.getElem?_eq_some_iff.mp found
  rw [List.getElem?_append_left (by simpa using bound),List.getElem?_set_ne other]
  exact found

theorem poolSelf {pool new : List Goroutine} {i : Nat} {t g : Goroutine} (found : pool[i]? = some t) :
    (pool.set i g ++ new)[i]? = some g := by
  obtain ⟨bound,_⟩ := List.getElem?_eq_some_iff.mp found
  rw [List.getElem?_append_left (by simpa using bound),List.getElem?_set_self bound]

theorem writingStep {m : CaseMap} {c d : Process} {e : Event Call Choice} {i jobID : Nat}
    (traced : Traced c) (writing : Writing i jobID c) (greeted : Permitted Greeted c e)
    (ran : exec (host m) c e = some d) : Writing i jobID d := by
  cases execMoved ran with
  | call r =>
    rcases writing with ⟨t,found,mine⟩ | released
    · obtain ⟨bound,_⟩ := List.getElem?_eq_some_iff.mp found
      exact .inl ⟨t,by rw [List.getElem?_append_left bound]; exact found,mine⟩
    · exact .inr released
  | @step j k u s' g new here stepped =>
    have sound := traced.sound u (List.mem_of_getElem? here)
    have turned := stepTurned stepped sound
    rcases writing with ⟨t,found,mine⟩ | released
    · by_cases same : j = i
      · subst same
        rw [here] at found
        cases Option.some.inj found
        cases u with
        | setup v =>
          have old := sound.1 jobID mine
          have polite : v = .hello jobID → k.fails = true → c.shared.record.runs jobID = false := by
            rintro rfl fails
            exact greeted _ here fails
          rcases writerStep (Setup.steps stepped) mine sound.2 polite with still | ended
          · exact .inl ⟨g,poolSelf here,still⟩
          · exact .inr ⟨Nat.lt_of_lt_of_le old (turnedDrawn turned),ended⟩
        | _ => contradiction
      · exact .inl ⟨t,poolKept found same,mine⟩
    · exact .inr (releasedTurned turned released)

def InFlight (c : Process) : Prop :=
  ∀ p, c.shared.record.activeInst = some p → c.shared.record.running p = true →
    ∃ t ∈ c.pool, Holds c.shared.record p t

theorem holdsMoved {r r' : Record} {p : Nat} {t g : Goroutine} (owner : holder g = holder t)
    (jobs : ∀ jobID, r'.same p jobID = r.same p jobID) (holds : Holds r p t) : Holds r' p g := by
  rcases holds with mine | ⟨jobID,mine,same⟩
  · exact .inl (owner.trans mine)
  · exact .inr ⟨jobID,owner.trans mine,by rwa [jobs]⟩

theorem unownedHolds {r : Record} {p : Nat} {t : Goroutine} (unowned : holder t = none) : ¬Holds r p t := by
  rintro (mine | ⟨jobID,mine,_⟩) <;> rw [unowned] at mine <;> contradiction

/- A run goes on as long as the record it holds is running. -/
theorem setupHolds {k : Choice} {s s' : Shared} {v : Setup} {g : Goroutine} {new : List Goroutine} {p : Nat}
    (step : Setup.Step k s v s' g new) (ends : Ends s.record v)
    (greeted : ∀ jobID, v = .hello jobID → k.fails = true → s.record.runs jobID = false)
    (jobs : ∀ jobID, s'.record.same p jobID = s.record.same p jobID)
    (active : s'.record.activeInst = some p) (running : s'.record.running p = true)
    (holds : Holds s.record p (.setup v)) : Holds s'.record p g := by
  cases step with
  | leave unowned => exact absurd holds (unownedHolds unowned)
  | @move _ v' same plain =>
    have owner : holder (.setup v') = holder (.setup v) := same
    exact holdsMoved owner jobs holds
  | store => exact absurd holds (unownedHolds rfl)
  | bind => exact absurd holds (unownedHolds rfl)
  | @goodbye jobID fails =>
    obtain mine | ⟨other,mine,same⟩ := holds <;> cases mine
    have runs : s.record.runs jobID = true := (runsIff _ _).mpr ⟨p,active,running,same⟩
    rw [greeted jobID rfl fails] at runs
    contradiction
  | phase => exact holdsMoved rfl jobs holds
  | phaseAt => exact holdsMoved rfl jobs holds
  | finish =>
    obtain mine | ⟨other,mine,same⟩ := holds <;> cases mine
    rw [runningFinish ends] at running
    simp at running
  | nothing none =>
    rw [none] at active
    contradiction
  | found here => exact holdsMoved rfl jobs holds
  | @finishAt jobID inst status =>
    obtain mine | ⟨other,mine,same⟩ := holds <;> cases mine
    have runs : (finishHTTPJob s.record inst jobID status).runs jobID = true :=
      (runsIff _ _).mpr ⟨p,active,running,by rw [← same]; exact jobs jobID⟩
    rw [finishHTTPJobRuns ends] at runs
    contradiction

theorem idleHolder {t : Goroutine} (idle : engaged t = 0) : holder t = none := by
  cases t with
  | setup v => exact idleOwner idle
  | _ => rfl

theorem inFlightStep {m : CaseMap} {c d : Process} {e : Event Call Choice} (traced : Traced c)
    (flight : InFlight c) (greeted : Permitted Greeted c e) (ran : exec (host m) c e = some d) :
    InFlight d := by
  intro p active running
  cases execMoved ran with
  | call r =>
    obtain ⟨t,mem,holds⟩ := flight p active running
    exact ⟨t,List.mem_append_left _ mem,holds⟩
  | @step i k t s' g new found stepped =>
    have self : g ∈ c.pool.set i g ++ new := List.mem_of_getElem? (poolSelf found)
    -- The record stays: so does its holder, and where that steps it holds on.
    have stays (kept : Kept c.shared s') (mine : Holds c.shared.record p t → Holds s'.record p g) :
        ∃ u ∈ c.pool.set i g ++ new, Holds s'.record p u := by
      obtain ⟨u,mem,holds⟩ := flight p (by rwa [kept.active] at active) (kept.statuses p running)
      by_cases same : u = t
      · subst same
        exact ⟨g,self,mine holds⟩
      · exact ⟨u,memKeep found mem same,holdsMoved rfl (kept.jobs p) holds⟩
    rcases stepIdle stepped with ⟨v,rfl,inner⟩ | ⟨before,idle⟩
    · have step := Setup.steps inner
      have sound := traced.sound _ (List.mem_of_getElem? found)
      rcases setupTurned step sound.2 with kept | ⟨opened,u,mem,holds⟩
      · refine stays kept (setupHolds step sound.2 ?_ (kept.jobs p) active running)
        rintro jobID rfl fails
        exact greeted _ found fails
      · obtain ⟨auto,fresh⟩ := opened.fresh
        rw [fresh] at active
        cases Option.some.inj active
        rcases List.mem_cons.mp mem with rfl | started
        · exact ⟨u,self,holds⟩
        · exact ⟨u,List.mem_append_right _ started,holds⟩
    · exact stays (keptSame idle.record idle.drawn) (fun holds => absurd holds (unownedHolds (idleHolder before)))

theorem inFlightBoot (installed : Installed) : InFlight (boot installed) := by
  intro p active
  contradiction

def Watched (c : Process) : Prop := Traced c ∧ InFlight c

theorem watchedStep {m : CaseMap} {c d : Process} {e : Event Call Choice} (watched : Watched c)
    (greeted : Permitted Greeted c e) (ran : exec (host m) c e = some d) : Watched d :=
  ⟨tracedStep watched.1 ran,inFlightStep watched.1 watched.2 greeted ran⟩

def WatchedWriting (i jobID : Nat) (c : Process) : Prop := Watched c ∧ Writing i jobID c

theorem watchedWritingStep {m : CaseMap} {c d : Process} {e : Event Call Choice} {i jobID : Nat}
    (watched : WatchedWriting i jobID c) (greeted : Permitted Greeted c e) (ran : exec (host m) c e = some d) :
    WatchedWriting i jobID d :=
  ⟨watchedStep watched.1 greeted ran,writingStep watched.1.1 watched.2 greeted ran⟩

/- The stream writer of a job has returned: the job no longer blocks the
installer, and if another one does its run has not returned. -/
theorem streamWriterReleases (m : CaseMap) (installed : Installed) {before after : List (Event Call Choice)}
    {c d : Process} {i jobID : Nat} {t : Goroutine}
    (greeted : Guided (host m) (Permitted Greeted) (boot installed) (before ++ after))
    (ran : run (host m) (boot installed) before = some c) (writing : c.pool[i]? = some t)
    (job : holder t = some (.http jobID)) (more : run (host m) c after = some d)
    (returned : d.pool[i]? = some .done) :
    d.shared.record.runs jobID = false ∧
    (d.shared.record.activeRunning = true → ∃ p, d.shared.record.activeInst = some p ∧
      ∃ u ∈ d.pool, Holds d.shared.record p u) := by
  obtain ⟨first,second⟩ := guidedAppend ran greeted
  have opened := runGuided watchedStep ⟨tracedBoot installed,inFlightBoot installed⟩ first ran
  have closed : WatchedWriting i jobID d :=
    runGuided watchedWritingStep ⟨opened,.inl ⟨t,writing,job⟩⟩ second more
  obtain ⟨⟨_,flight⟩,still | released⟩ := closed
  · obtain ⟨u,found,mine⟩ := still
    rw [returned] at found
    cases Option.some.inj found
    contradiction
  · refine ⟨released.2,?_⟩
    intro busy
    unfold Record.activeRunning at busy
    split at busy
    · contradiction
    · rename_i p active
      exact ⟨p,active,flight p active busy⟩

/- A request alone, up to its first event and from there to its return. -/
def bindAlone : List (Event Call Choice) := [.call .streamSetupAPI,.step 0 {}]

def installAlone : List (Event Call Choice) := List.replicate 11 (.step 0 {})

theorem streamWriterReleasesAlone : ∃ d, run (host ascii) (boot (fun _ => none)) (bindAlone ++ installAlone) = some d ∧
    d.pool[0]? = some .done ∧ d.shared.record.runs 0 = false := by
  obtain ⟨c,ran,writing⟩ := (Option.any_eq_true _ _).mp
    (by decide : (run (host ascii) (boot (fun _ => none)) bindAlone).any
      (fun c => c.pool[0]? = some (.setup (.hello 0))) = true)
  obtain ⟨d,more,returned⟩ := (Option.any_eq_true _ _).mp
    (by decide : (run (host ascii) (boot (fun _ => none)) (bindAlone ++ installAlone)).any
      (fun d => d.pool[0]? = some .done) = true)
  simp only [decide_eq_true_eq] at writing returned
  have rest : run (host ascii) c installAlone = some d := by rwa [runAppend,ran] at more
  have released := streamWriterReleases ascii (fun _ => none)
    (by decide) ran writing rfl rest returned
  exact ⟨d,more,returned,released.1⟩

/- The client is gone before the first event. -/
theorem streamWriterBlocks : ∃ c d, run (host ascii) (boot (fun _ => none)) bindAlone = some c ∧
    c.pool[0]? = some (.setup (.hello 0)) ∧ run (host ascii) c [.step 0 {fails := true}] = some d ∧
    d.pool[0]? = some .done ∧ d.shared.record.runs 0 = true := by
  obtain ⟨c,ran,writing⟩ := (Option.any_eq_true _ _).mp
    (by decide : (run (host ascii) (boot (fun _ => none)) bindAlone).any
      (fun c => decide (c.pool[0]? = some (.setup (.hello 0))) &&
        (run (host ascii) c [.step 0 {fails := true}]).any
          (fun d => decide (d.pool[0]? = some .done) && d.shared.record.runs 0)) = true)
  simp only [Bool.and_eq_true,decide_eq_true_eq] at writing
  obtain ⟨here,left⟩ := writing
  obtain ⟨d,more,returned⟩ := (Option.any_eq_true _ _).mp left
  simp only [Bool.and_eq_true,decide_eq_true_eq] at returned
  exact ⟨c,d,ran,here,more,returned.1,returned.2⟩

end ContainerWS.Vnc
