import ContainerWS.Install.Requests

/-! The VNC setup runs of modules/vncnovnc/install/setup: StartBackgroundInstall
with the goroutine it starts, and StreamSetupAPI. Both wait for the softwares
queue, publish the phase "installing" and execute the setup script. -/
namespace ContainerWS
open Install Vnc

def setup (s : Shared) (v : Setup) : Stepped := some (s,.setup v,[])

def setupStatus : Outcome → SetupStatus
  | .success => .success
  | .cancelled => .cancelled
  | _ => .error

/- A wait that ends with an error: the HTTP run reports a cancel as such. -/
def waitStatus (owner : Owner) (k : Choice) : SetupStatus :=
  match owner, k.outcome with
  | .http _,.cancelled => .cancelled
  | _,_ => .error

def readJob (jobs : Jobs) (id : UUID) : List VisibleJob := ((jobs.at id).bind visibleJob).toList

def Setup.next (k : Choice) (s : Shared) : Setup → Stepped
  | .check auto => if s.record.activeRunning then finished s else setup s (.store auto)
  | .store auto =>
    if k.fails then finished s
    else some ({s.draw 1 with record := s.record.store s.drawn auto},.done,
      [.setup (.ready (.background s.record.heap.length))])
  | .bind =>
    if k.fails then finished s
    else setup {s.draw 1 with record := bindHTTPJob s.record s.drawn false} (.hello s.drawn)
  | .hello jobID => if k.fails then finished s else setup s (.ready (.http jobID))
  | .ready owner => if k.fails then setup s (.finish owner (waitStatus owner k)) else setup s (.poll owner)
  | .poll owner => setup s (.pollList owner s.queue.items)
  | .pollList owner items => setup s (.pollJob owner items s.jobs.byID [])
  | .pollJob owner items todo visible =>
    match todo with
    | [] =>
      if activePending items visible = 0 then setup s (.phase owner)
      else if k.fails then setup s (.finish owner (waitStatus owner k))
      else setup s (.poll owner)
    | id::rest =>
      match (id::rest)[k.pick]? with
      | none => none
      | some chosen =>
        setup s (.pollJob owner items ((id::rest).erase chosen) (visible ++ readJob s.jobs chosen))
  | .phase (.background inst) =>
    setup {s with record := s.record.setPhase inst .installing} (.start (.background inst))
  | .phase (.http jobID) =>
    match s.record.activeInst with
    | none => setup s (.start (.http jobID))
    | some inst => setup s (.phaseAt jobID inst)
  | .phaseAt jobID inst =>
    setup {s with record := setHTTPJobPhase s.record inst jobID .installing} (.start (.http jobID))
  | .start owner => if k.fails then setup s (.finish owner .error) else setup s (.script owner)
  | .script owner => setup s (.finish owner (setupStatus k.outcome))
  | .finish (.background inst) status => finished {s with record := s.record.finish inst status}
  | .finish (.http jobID) status =>
    match s.record.activeInst with
    | none => finished s
    | some inst => setup s (.finishAt jobID inst status)
  | .finishAt jobID inst status =>
    finished {s with record := finishHTTPJob s.record inst jobID status}

/- The record a setup run answers for: its own, or the one bound to its job. -/
def Setup.owner : Setup → Option Owner
  | .check _ => none
  | .store _ => none
  | .bind => none
  | .hello jobID => some (.http jobID)
  | .ready owner => some owner
  | .poll owner => some owner
  | .pollList owner _ => some owner
  | .pollJob owner _ _ _ => some owner
  | .phase owner => some owner
  | .phaseAt jobID _ => some (.http jobID)
  | .start owner => some owner
  | .script owner => some owner
  | .finish owner _ => some owner
  | .finishAt jobID _ _ => some (.http jobID)

/- Before its last steps a run has neither a status to store nor looked up the
record to store it in. -/
def Setup.plain : Setup → Prop
  | .finish _ status => status ≠ .running
  | .finishAt _ _ _ => False
  | _ => True

theorem waitStatusSettled (owner : Owner) (k : Choice) : waitStatus owner k ≠ .running := by
  unfold waitStatus
  split <;> exact nofun

theorem setupStatusSettled (outcome : Outcome) : setupStatus outcome ≠ .running := by
  cases outcome <;> exact nofun

inductive Setup.Step (k : Choice) (s : Shared) : Setup → Shared → Goroutine → List Goroutine → Prop where
  | leave {v} (unowned : v.owner = none) : Step k s v s .done []
  | move {v v'} (same : v'.owner = v.owner) (plain : v'.plain) : Step k s v s (.setup v') []
  | store {auto} : Step k s (.store auto) {s.draw 1 with record := s.record.store s.drawn auto} .done
      [.setup (.ready (.background s.record.heap.length))]
  | bind : Step k s .bind {s.draw 1 with record := bindHTTPJob s.record s.drawn false}
      (.setup (.hello s.drawn)) []
  | goodbye {jobID} (fails : k.fails = true) : Step k s (.hello jobID) s .done []
  | phase {inst} : Step k s (.phase (.background inst)) {s with record := s.record.setPhase inst .installing}
      (.setup (.start (.background inst))) []
  | phaseAt {jobID inst} : Step k s (.phaseAt jobID inst)
      {s with record := setHTTPJobPhase s.record inst jobID .installing} (.setup (.start (.http jobID))) []
  | finish {inst status} : Step k s (.finish (.background inst) status)
      {s with record := s.record.finish inst status} .done []
  | nothing {jobID status} (none : s.record.activeInst = none) : Step k s (.finish (.http jobID) status) s .done []
  | found {jobID status inst} (active : s.record.activeInst = some inst) :
      Step k s (.finish (.http jobID) status) s (.setup (.finishAt jobID inst status)) []
  | finishAt {jobID inst status} : Step k s (.finishAt jobID inst status)
      {s with record := finishHTTPJob s.record inst jobID status} .done []

theorem Setup.steps {k : Choice} {s s' : Shared} {v : Setup} {g : Goroutine} {new : List Goroutine}
    (stepped : v.next k s = some (s',g,new)) : Setup.Step k s v s' g new := by
  cases v with
  | check auto =>
    simp only [Setup.next] at stepped
    split at stepped <;> cases stepped
    · exact .leave rfl
    · exact .move rfl trivial
  | store auto =>
    simp only [Setup.next] at stepped
    split at stepped <;> cases stepped
    · exact .leave rfl
    · exact .store
  | bind =>
    simp only [Setup.next] at stepped
    split at stepped <;> cases stepped
    · exact .leave rfl
    · exact .bind
  | hello jobID =>
    simp only [Setup.next] at stepped
    split at stepped <;> cases stepped
    · exact .goodbye (by assumption)
    · exact .move rfl trivial
  | ready owner =>
    simp only [Setup.next] at stepped
    split at stepped <;> cases stepped
    · exact .move rfl (waitStatusSettled owner k)
    · exact .move rfl trivial
  | poll owner =>
    cases stepped
    exact .move rfl trivial
  | pollList owner items =>
    cases stepped
    exact .move rfl trivial
  | pollJob owner items todo visible =>
    simp only [Setup.next] at stepped
    split at stepped
    · split at stepped
      · cases stepped
        exact .move rfl trivial
      · split at stepped <;> cases stepped
        · exact .move rfl (waitStatusSettled owner k)
        · exact .move rfl trivial
    · split at stepped <;> cases stepped
      exact .move rfl trivial
  | phase owner =>
    cases owner with
    | background inst =>
      cases stepped
      exact .phase
    | http jobID =>
      simp only [Setup.next] at stepped
      split at stepped <;> cases stepped <;> exact .move rfl trivial
  | phaseAt jobID inst =>
    cases stepped
    exact .phaseAt
  | start owner =>
    simp only [Setup.next] at stepped
    split at stepped <;> cases stepped
    · exact .move rfl nofun
    · exact .move rfl trivial
  | script owner =>
    cases stepped
    exact .move rfl (setupStatusSettled k.outcome)
  | finish owner status =>
    cases owner with
    | background inst =>
      cases stepped
      exact .finish
    | http jobID =>
      simp only [Setup.next] at stepped
      split at stepped <;> cases stepped
      · exact .nothing (by assumption)
      · exact .found (by assumption)
  | finishAt jobID inst status =>
    cases stepped
    exact .finishAt

end ContainerWS
