import ContainerWS.JobLog.Goroutines

/-! The steps of a job's goroutines as a relation: what each one requires of the
shared state, and what it leaves to the goroutine. -/
namespace ContainerWS.JobLog
open Install Interleaving GoStrings

/- The operations that decide what comes next, always the last of a list. A
script that waits for its readers has nothing else ahead. -/
def Op.turns : Op → Bool
  | .start _ => true
  | .markUninstalled => true
  | .markInstalled => true
  | .loadCustomScript => true
  | .finish _ => true
  | _ => false

/- What a script has ahead before `finish` ... -/
inductive Pending : List Op → Prop where
  | publish {j message ops} (rest : Pending ops) : Pending (.publish (Job.startEvent j message) :: ops)
  | append {stream text ops} (rest : Pending ops) : Pending (.append stream text :: ops)
  | last {op} (turns : op.turns = true) : Pending [op]

/- ... and after it. -/
inductive Closing (j : Job) (f : Final) : List Op → Prop where
  | tell {subs} (reason : f.tellsReason = true) : Closing j f [.tell (j.errorEvent f) subs,.close]
  | close : Closing j f [.close]
  | finished : Closing j f []

theorem pendingLines {stream : LogStream} (texts : List String) {ops : List Op} (rest : Pending ops) :
    Pending (texts.map (.append stream) ++ ops) := by
  induction texts with
  | nil => exact rest
  | cons text texts ih => exact .append ih

theorem pendingBash (j : Job) (body : String) (stage : Stage) : Pending (streamBash j body stage) := by
  have rest : Pending [.append .system (heredoc j.mode stage),.start stage] := .append (.last rfl)
  exact .append (pendingLines (splitLines body) rest)

theorem pendingRun (j : Job) (body : String) : Pending (runSoftwareScript j body) :=
  .publish (.append (pendingBash j body .script))

theorem pendingScript (j : Job) (reason : String) (exitCode : Option Int) (outcome : Outcome) :
    Pending (afterScript j reason exitCode outcome) := by
  cases outcome with
  | success =>
    simp only [afterScript]
    cases j.mode with
    | install => exact .last rfl
    | uninstall => exact .last rfl
  | failed => exact .append (.append (.last rfl))
  | cancelled => exact .append (.last rfl)
  | timedOut => exact .append (.last rfl)

theorem pendingCustom (j : Job) (reason : String) (exitCode : Option Int) (outcome : Outcome) :
    Pending (afterCustom j reason exitCode outcome) := by
  cases outcome with
  | success => exact .append (.last rfl)
  | failed => exact .append (.append (.last rfl))
  | cancelled => exact .append (.last rfl)
  | timedOut => exact .append (.last rfl)

theorem pendingAfter (j : Job) (reason : String) (exitCode : Option Int) (outcome : Outcome)
    (stage : Stage) : Pending (afterBash j reason exitCode outcome stage) := by
  cases stage with
  | script => exact pendingScript j reason exitCode outcome
  | custom => exact pendingCustom j reason exitCode outcome

theorem pendingUninstallMark (j : Job) (warning : Option String) : Pending (afterUninstallMark j warning) := by
  cases warning with
  | none => exact .append (.last rfl)
  | some err => exact .append (.append (.last rfl))

theorem pendingInstallMark (j : Job) (warning : Option String) : Pending (afterInstallMark j warning) := by
  cases warning with
  | none => exact .append (.last rfl)
  | some err => exact .append (.append (.last rfl))

theorem pendingLoad (j : Job) (custom : String) : Pending (afterLoad j custom) := by
  unfold afterLoad
  split
  · exact .last rfl
  · exact .append (pendingBash j custom .custom)

theorem closingAfter (j : Job) (f : Final) (subs : List Nat) : Closing j f (afterFinish j f subs) := by
  unfold afterFinish
  split
  · rename_i reason
    exact .tell reason
  · exact .close

theorem copyPerm (k : Choice) (s : Shared) : (copySubscribers k s).Perm s.subscribers := by
  unfold copySubscribers
  split
  · rename_i order
    exact List.isPerm_iff.mp order
  · exact .refl _

def afterRead (stream : LogStream) (text : String) : Voice :=
  if stream = .stderr then .tail text else .reader stream

/- The points between which a goroutine touches neither job, channels nor log. -/
def Goroutine.idle : Goroutine → Bool
  | .voice _ => false
  | .sends _ _ _ => false
  | .closer => false
  | _ => true

/- Steps of the ticker and of either `persist`: only the row changes. -/
inductive Files (s : Shared) : Goroutine → Option Row → Goroutine → Prop where
  | tick (g) (next : g = .tickCheck ∨ g = .done) : Files s .tick s.row g
  | finished (finished : s.job.final ≠ none) : Files s .tickCheck s.row .done
  | due (running : s.job.final = none) : Files s .tickCheck s.row (.snapshot .ticker)
  | snapshot (p) : Files s (.snapshot p) s.row (.logJSON p s.job.snapshot)
  | logJSON (p snap) : Files s (.logJSON p snap) s.row (.lookup p ⟨snap,s.job.lines⟩)
  | lookup (p row fails) : Files s (.lookup p row) s.row (.store p (lookup fails s.row) row)
  | store (p answer row) : Files s (.store p answer row) (store answer row s.row) p.after

/- Steps of a writer. After it left its loop nothing more is written. -/
inductive Moves : Client → Client → Prop where
  | write {cl ev rest} (here : cl.position = .following) (todo : cl.todo = ev :: rest) :
      Moves cl {cl with
        written := cl.written ++ [ev],todo := rest,position := if ev.stops then .leaving else .following}
  | fail {cl} (here : cl.position = .following) :
      Moves cl {cl with connected := false,position := .leaving}
  | receive {cl ev rest} (here : cl.position = .following) (todo : cl.todo = []) (running : cl.running = true)
      (channel : cl.channel = ev :: rest) : Moves cl {cl with channel := rest,todo := [ev]}
  | finished {cl} (here : cl.position = .following) (todo : cl.todo = [])
      (finished : cl.running = true → cl.channel = [] ∧ cl.closed = true) :
      Moves cl {cl with position := .leaving}
  | past {cl position channel} (before : cl.position ≠ .following) (after : position ≠ .following)
      (fewer : channel ⊆ cl.channel) : Moves cl {cl with position := position,channel := channel}

theorem clientMoves {fails : Bool} {cl cl' : Client} (stepped : cl.next fails = some cl') : Moves cl cl' := by
  unfold Client.next at stepped
  split at stepped
  · rename_i here
    split at stepped
    · rename_i ev rest todo
      split at stepped <;> cases stepped
      · exact .fail here
      · exact .write here todo
    · rename_i todo
      split at stepped
      · rename_i running
        split at stepped
        · rename_i ev rest channel
          cases stepped
          exact .receive here todo running channel
        · rename_i channel
          split at stepped <;> cases stepped
          rename_i closed
          exact .finished here todo (fun _ => ⟨channel,closed⟩)
      · rename_i late
        cases stepped
        exact .finished here todo (fun running => absurd running late)
  · rename_i here
    cases stepped
    exact .past (by simp [here]) (by simp) (List.Subset.refl _)
  · rename_i here
    have before : cl.position ≠ .following := by simp [here]
    split at stepped
    · rename_i channel
      cases stepped
      exact .past before before (by rw [channel]; exact List.subset_cons_self _ _)
    · split at stepped <;> cases stepped
      · exact .past before before (List.Subset.refl _)
      · exact .past before (by simp) (List.Subset.refl _)
  · contradiction

theorem offerCases {s s' : Shared} {ev : StreamEvent} {i : Nat} (offered : offer s ev i = some s') :
    ∃ cl, s.clients[i]? = some cl ∧ cl.closed = false ∧
      (cl.channel.length < bufferSize ∧
        s' = {s with clients := s.clients.set i {cl with channel := cl.channel ++ [ev]}} ∨
       bufferSize ≤ cl.channel.length ∧ s' = s) := by
  unfold offer at offered
  split at offered <;> try contradiction
  rename_i cl found
  split at offered <;> try contradiction
  rename_i opened
  split at offered <;> cases offered
  · rename_i room
    exact ⟨cl,found,by simpa using opened,.inl ⟨room,rfl⟩⟩
  · rename_i full
    exact ⟨cl,found,by simpa using opened,.inr ⟨by omega,rfl⟩⟩

inductive Step (s : Shared) : Goroutine → Shared → Goroutine → List Goroutine → Prop where
  | publish {ev subs ops} (copy : subs.Perm s.subscribers) :
      Step s (.voice (.script (.publish ev :: ops))) s (.sends ev subs (.script ops)) []
  | append {stream text subs ops} (copy : subs.Perm s.subscribers) :
      Step s (.voice (.script (.append stream text :: ops))) (s.withLine ⟨stream,text⟩)
        (.sends (s.job.logEvent s.job.lines.length ⟨stream,text⟩) subs (.script ops)) []
  | read {stream text subs} (copy : subs.Perm s.subscribers) :
      Step s (.voice (.reader stream)) (s.withLine ⟨stream,text⟩)
        (.sends (s.job.logEvent s.job.lines.length ⟨stream,text⟩) subs (afterRead stream text)) []
  | turn {op ops then_} (turns : op.turns = true) (pending : Pending then_) :
      Step s (.voice (.script (op :: ops))) s (.voice (.script then_)) []
  | awake {stage ops then_} (ready : s.readers = 0) (pending : Pending then_) :
      Step s (.voice (.script (.wait stage :: ops))) s (.voice (.script then_)) []
  | spawn {stage ops} :
      Step s (.voice (.script (.start stage :: ops))) {s with readers := 2,tail := []}
        (.voice (.script [.wait stage])) [.voice (.reader .stdout),.voice (.reader .stderr)]
  | eof {stream} : Step s (.voice (.reader stream)) {s with readers := s.readers - 1} .done []
  | note {text} :
      Step s (.voice (.tail text)) {s with tail := lastForty (s.tail ++ [text])} (.voice (.reader .stderr)) []
  | finish {f subs ops} (copy : subs.Perm s.subscribers) :
      Step s (.voice (.script (.finish f :: ops))) {s with job := {s.job with final := some f}}
        (.sends (s.job.finishEvent f) subs (.script (afterFinish s.job f subs))) []
  | tell {ev subs ops} :
      Step s (.voice (.script (.tell ev subs :: ops))) s (.sends ev subs (.script ops)) []
  | close {ops} : Step s (.voice (.script (.close :: ops))) s (.voice (.script ops)) [.closer]
  | returned : Step s (.voice (.script [])) s (.snapshot .main) []
  | accept {ev i rest after cl} (found : s.clients[i]? = some cl) (opened : cl.closed = false)
      (room : cl.channel.length < bufferSize) :
      Step s (.sends ev (i :: rest) after)
        {s with clients := s.clients.set i {cl with channel := cl.channel ++ [ev]}} (.sends ev rest after) []
  | drop {ev i rest after cl} (found : s.clients[i]? = some cl) (opened : cl.closed = false)
      (full : bufferSize ≤ cl.channel.length) :
      Step s (.sends ev (i :: rest) after) s (.sends ev rest after) []
  | sent {ev after} : Step s (.sends ev [] after) s (.voice after) []
  | closeAll : Step s .closer (closeAll s) .done []
  | file {t row g} (files : Files s t row g) : Step s t {s with row := row} g []
  | attach :
      Step s .attach {s with
        clients := s.clients ++ [attachJobSSE s.job]
        subscribers := s.subscribers ++ [s.clients.length]} (.sse s.clients.length) []
  | write {i cl cl'} (found : s.clients[i]? = some cl) (moved : Moves cl cl') :
      Step s (.sse i) {s with
        clients := s.clients.set i cl'
        subscribers := if cl.position = .leaving then s.subscribers.erase i else s.subscribers} (.sse i) []

theorem opStep {k : Choice} {s s' : Shared} {op : Op} {ops : List Op} {g : Goroutine} {new : List Goroutine}
    (stepped : op.next k s ops = some (s',g,new)) : Step s (.voice (.script (op :: ops))) s' g new := by
  cases op with
  | publish ev =>
    cases stepped
    exact .publish (copyPerm k s)
  | append stream text =>
    cases stepped
    exact .append (copyPerm k s)
  | start stage =>
    simp only [Op.next] at stepped
    split at stepped <;> cases stepped
    · exact .turn rfl (.append (.last rfl))
    · exact .spawn
  | wait stage =>
    simp only [Op.next] at stepped
    split at stepped <;> cases stepped
    rename_i ready
    exact .awake ready (pendingAfter _ _ _ _ _)
  | markUninstalled =>
    cases stepped
    exact .turn rfl (pendingUninstallMark _ _)
  | markInstalled =>
    cases stepped
    exact .turn rfl (pendingInstallMark _ _)
  | loadCustomScript =>
    cases stepped
    exact .turn rfl (pendingLoad _ _)
  | finish f =>
    cases stepped
    exact .finish (copyPerm k s)
  | tell ev subs =>
    cases stepped
    exact .tell
  | close =>
    cases stepped
    exact .close

theorem voiceStep {k : Choice} {s s' : Shared} {v : Voice} {g : Goroutine} {new : List Goroutine}
    (stepped : v.next k s = some (s',g,new)) : Step s (.voice v) s' g new := by
  cases v with
  | script ops =>
    cases ops with
    | nil =>
      cases stepped
      exact .returned
    | cons op ops => exact opStep stepped
  | reader stream =>
    simp only [Voice.next] at stepped
    split at stepped <;> cases stepped
    · exact .eof
    · exact .read (copyPerm k s)
  | tail text =>
    cases stepped
    exact .note

theorem sseStep {k : Choice} {s s' : Shared} {i : Nat} {g : Goroutine} {new : List Goroutine}
    (stepped : sseNext k s i = some (s',g,new)) : Step s (.sse i) s' g new := by
  unfold sseNext at stepped
  split at stepped <;> try contradiction
  rename_i cl found
  split at stepped <;> cases stepped
  rename_i cl' moved
  exact .write found (clientMoves moved)

theorem nextStep {k : Choice} {s s' : Shared} {t g : Goroutine} {new : List Goroutine}
    (stepped : next k s t = some (s',g,new)) : Step s t s' g new := by
  cases t with
  | voice v => exact voiceStep stepped
  | sends ev subs after =>
    cases subs with
    | nil =>
      cases stepped
      exact .sent
    | cons i rest =>
      simp only [next,Option.map_eq_some_iff] at stepped
      obtain ⟨s₁,offered,same⟩ := stepped
      cases same
      obtain ⟨cl,found,opened,⟨room,rfl⟩ | ⟨full,rfl⟩⟩ := offerCases offered
      · exact .accept found opened room
      · exact .drop found opened full
  | closer =>
    cases stepped
    exact .closeAll
  | tick =>
    cases stepped
    apply Step.file (Files.tick _ _)
    split
    · exact .inr rfl
    · exact .inl rfl
  | tickCheck =>
    cases stepped
    split
    · rename_i finished
      exact .file (.finished (by rw [← Option.isSome_iff_ne_none]; exact finished))
    · rename_i running
      exact .file (.due (by simpa using running))
  | snapshot p =>
    cases stepped
    exact .file (.snapshot p)
  | logJSON p snap =>
    cases stepped
    exact .file (.logJSON p snap)
  | lookup p row =>
    cases stepped
    exact .file (.lookup p row k.fails)
  | store p answer row =>
    cases stepped
    exact .file (.store p answer row)
  | attach =>
    cases stepped
    exact .attach
  | sse i => exact sseStep stepped
  | done => contradiction

end ContainerWS.JobLog
