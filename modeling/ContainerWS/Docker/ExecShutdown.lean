import ContainerWS.Docker.ExecSession

/-! The end of a console session: what the handler waits for once the client is gone. -/
namespace ContainerWS.Docker
open Runs

/- The Docker reader has ended. -/
def Handler.late : Handler → Bool
  | .closeWriter | .waitWriter | .endWriter | .endWait | .endClose | .returned => true
  | _ => false

/- The writer's channel is closed. -/
def Handler.closed : Handler → Bool
  | .waitWriter | .endWait | .endClose | .returned => true
  | _ => false

/- In `shutdown`, after the context. -/
def Handler.cancelled : Handler → Bool
  | .closeWrite | .safeClose | .waitDocker | .closeWriter | .waitWriter | .returned => true
  | _ => false

/- In `shutdown`, before the Docker reader has ended. -/
def Handler.leaving : Handler → Bool
  | .cancel | .closeWrite | .safeClose | .waitDocker => true
  | _ => false

def Handler.writes : Handler → Bool
  | .write _ => true
  | _ => false

/- What every schedule keeps. -/
structure Wired (s : Session) : Prop where
  dockerUnborn : s.docker = .unborn → s.handler = .ready ∨ s.handler = .startDocker
  socketUnborn : s.socket = .unborn → s.handler = .ready ∨ s.handler = .startDocker ∨ s.handler = .startSocket
  late : s.handler.late = true → s.docker = .done
  closed : s.outClosed = s.handler.closed
  cancelled : s.handler.cancelled = true → s.cancelled = true
  writerLeft : s.writer = .closeWrite → s.cancelled = true
  writerDone : s.writer = .done → s.cancelled = true ∨ s.outClosed = true
  sound : s.panicked = false

theorem attachedWired : Wired attached := by
  constructor <;> simp [attached,Handler.late,Handler.closed,Handler.cancelled]

section
variable {room : Nat} {s t : Session} {k : Pick}

/- While the channel is open, a message is queued or the context is done. -/
theorem offerCases {m : ExecWSOut} (opened : s.outClosed = false) (sent : s.offer m k = some t) :
    t = s ∧ s.cancelled = true ∨ t = { s with outCh := s.outCh ++ [m] } ∧ s.outCh.length < outCap := by
  unfold Session.offer at sent
  cases k with
  | context =>
    dsimp only at sent
    split at sent <;> try contradiction
    exact .inl ⟨(Option.some_inj.mp sent).symm,by assumption⟩
  | send =>
    dsimp only at sent
    rw [if_neg (by simp [opened])] at sent
    split at sent <;> try contradiction
    exact .inr ⟨(Option.some_inj.mp sent).symm,by assumption⟩
  | go => cases sent
  | docker => cases sent
  | inbox => cases sent
  | fail => cases sent
  | received m => cases sent

/- A move of the handler after its goroutines have been started. -/
theorem wiredOn (wired : Wired s) (docker : t.docker = s.docker) (socket : t.socket = s.socket) (writer : t.writer = s.writer)
    (sound : t.panicked = s.panicked) (cancelled : s.cancelled = true → t.cancelled = true)
    (started : s.handler ≠ .ready ∧ s.handler ≠ .startDocker ∧ s.handler ≠ .startSocket)
    (late : t.handler.late = true → s.docker = .done) (closed : t.outClosed = t.handler.closed)
    (opened : s.outClosed = true → t.outClosed = true) (shut : t.handler.cancelled = true → t.cancelled = true) : Wired t where
  dockerUnborn unborn := by
    rw [docker] at unborn
    rcases wired.dockerUnborn unborn with here | here
    · exact absurd here started.1
    · exact absurd here started.2.1
  socketUnborn unborn := by
    rw [socket] at unborn
    rcases wired.socketUnborn unborn with here | here | here
    · exact absurd here started.1
    · exact absurd here started.2.1
    · exact absurd here started.2.2
  late after := docker.trans (late after)
  closed := closed
  cancelled := shut
  writerLeft left := cancelled (wired.writerLeft (writer.symm.trans left))
  writerDone done := (wired.writerDone (writer.symm.trans done)).imp cancelled opened
  sound := sound.trans wired.sound

theorem dispatchLoop (m : ClientMsg) : (dispatch m).late = false ∧ (dispatch m).closed = false ∧ (dispatch m).cancelled = false ∧
    (dispatch m).leaving = false := by
  unfold dispatch
  split
  · split <;> exact ⟨rfl,rfl,rfl,rfl⟩
  · exact ⟨rfl,rfl,rfl,rfl⟩
  · split
    · split <;> exact ⟨rfl,rfl,rfl,rfl⟩
    · split
      · split <;> exact ⟨rfl,rfl,rfl,rfl⟩
      · split
        · exact ⟨rfl,rfl,rfl,rfl⟩
        · split <;> exact ⟨rfl,rfl,rfl,rfl⟩

theorem offerWired {m : ExecWSOut} {h : Handler} (wired : Wired s) (here : s.handler.closed = false)
    (started : s.handler ≠ .startDocker ∧ s.handler ≠ .startSocket ∧ (s.handler = .ready → h = .startDocker))
    (next : h.late = false ∧ h.closed = false ∧ h.cancelled = false)
    (moved : (s.offer m k).map (fun t => { t with handler := h }) = some t) : Wired t := by
  obtain ⟨u,sent,rfl⟩ := Option.map_eq_some_iff.mp moved
  obtain ⟨dockerUnborn,socketUnborn,late,closed,cancelled,writerLeft,writerDone,sound⟩ := wired
  rcases offerCases (closed.trans here) sent with ⟨rfl,_⟩ | ⟨rfl,_⟩
  · constructor <;> simp_all
  · constructor <;> simp_all

theorem handlerWired (wired : Wired s) (moved : s.handlerStep room k = some t) : Wired t := by
  have closed := wired.closed
  have late := wired.late
  have shut := wired.cancelled
  unfold Session.handlerStep at moved
  cases here : s.handler with
  | ready =>
    rw [here] at moved
    exact offerWired wired (by rw [here]; rfl) (by simp [here]) ⟨rfl,rfl,rfl⟩ moved
  | startDocker =>
    rw [here] at moved closed shut
    cases Option.some_inj.mp moved
    obtain ⟨_,socketUnborn,_,_,_,writerLeft,writerDone,sound⟩ := wired
    exact ⟨nofun,fun _ => .inr (.inr rfl),nofun,closed,nofun,writerLeft,writerDone,sound⟩
  | startSocket =>
    rw [here] at moved closed shut
    cases Option.some_inj.mp moved
    obtain ⟨dockerUnborn,_,_,_,_,writerLeft,writerDone,sound⟩ := wired
    refine ⟨fun unborn => ?_,nofun,nofun,closed,nofun,writerLeft,writerDone,sound⟩
    have early := dockerUnborn unborn
    simp [here] at early
  | loop =>
    rw [here] at moved closed
    have started : s.handler ≠ .ready ∧ s.handler ≠ .startDocker ∧ s.handler ≠ .startSocket := by simp [here]
    cases k with
    | docker =>
      dsimp only at moved
      split at moved <;> try contradiction
      rename_i done
      cases Option.some_inj.mp moved
      exact wiredOn wired rfl rfl rfl rfl id started (fun _ => done) closed id nofun
    | context =>
      dsimp only at moved
      split at moved <;> try contradiction
      cases Option.some_inj.mp moved
      exact wiredOn wired rfl rfl rfl rfl id started nofun closed id nofun
    | inbox =>
      dsimp only at moved
      split at moved
      · rename_i m rest _
        cases Option.some_inj.mp moved
        obtain ⟨early,opened,free,_⟩ := dispatchLoop m
        exact wiredOn wired rfl rfl rfl rfl id started (fun after => absurd after (by simp [early])) (closed.trans opened.symm) id
          (fun after => absurd after (by simp [free]))
      · split at moved <;> try contradiction
        cases Option.some_inj.mp moved
        exact wiredOn wired rfl rfl rfl rfl id started nofun closed id nofun
    | go => cases moved
    | send => cases moved
    | fail => cases moved
    | received m => cases moved
  | write b =>
    rw [here] at moved closed
    have started : s.handler ≠ .ready ∧ s.handler ≠ .startDocker ∧ s.handler ≠ .startSocket := by simp [here]
    cases k with
    | go =>
      dsimp only at moved
      split at moved <;> try contradiction
      cases Option.some_inj.mp moved
      exact wiredOn wired rfl rfl rfl rfl id started nofun closed id nofun
    | fail =>
      dsimp only at moved
      split at moved <;> try contradiction
      cases Option.some_inj.mp moved
      exact wiredOn wired rfl rfl rfl rfl id started nofun closed id nofun
    | docker => cases moved
    | context => cases moved
    | inbox => cases moved
    | send => cases moved
    | received m => cases moved
  | resize =>
    rw [here] at moved closed
    cases Option.some_inj.mp moved
    exact wiredOn wired rfl rfl rfl rfl id (by simp [here]) nofun closed id nofun
  | pong =>
    rw [here] at moved
    exact offerWired wired (by rw [here]; rfl) (by simp [here]) ⟨rfl,rfl,rfl⟩ moved
  | kill =>
    rw [here] at moved
    exact offerWired wired (by rw [here]; rfl) (by simp [here]) ⟨rfl,rfl,rfl⟩ moved
  | cancel =>
    rw [here] at moved closed
    cases Option.some_inj.mp moved
    exact wiredOn wired rfl rfl rfl rfl (fun _ => rfl) (by simp [here]) nofun closed id (fun _ => rfl)
  | closeWrite =>
    rw [here] at moved closed shut
    cases Option.some_inj.mp moved
    exact wiredOn wired rfl rfl rfl rfl id (by simp [here]) nofun closed id shut
  | safeClose =>
    rw [here] at moved closed shut
    dsimp only at moved
    split at moved <;> try contradiction
    cases Option.some_inj.mp moved
    exact wiredOn wired rfl rfl rfl rfl id (by simp [here]) nofun closed id shut
  | waitDocker =>
    rw [here] at moved closed shut
    dsimp only at moved
    split at moved <;> try contradiction
    rename_i done
    cases Option.some_inj.mp moved
    exact wiredOn wired rfl rfl rfl rfl id (by simp [here]) (fun _ => done) closed id shut
  | closeWriter =>
    rw [here] at moved late shut
    cases Option.some_inj.mp moved
    exact wiredOn wired rfl rfl rfl rfl id (by simp [here]) late rfl (fun _ => rfl) shut
  | waitWriter =>
    rw [here] at moved late shut
    dsimp only at moved
    split at moved <;> try contradiction
    cases Option.some_inj.mp moved
    exact wiredOn wired rfl rfl rfl rfl (fun _ => rfl) (by simp [here]) late rfl (fun _ => rfl) (fun _ => rfl)
  | endWriter =>
    rw [here] at moved late
    cases Option.some_inj.mp moved
    exact wiredOn wired rfl rfl rfl rfl id (by simp [here]) late rfl (fun _ => rfl) nofun
  | endWait =>
    rw [here] at moved closed late
    dsimp only at moved
    split at moved <;> try contradiction
    cases Option.some_inj.mp moved
    exact wiredOn wired rfl rfl rfl rfl id (by simp [here]) late closed id nofun
  | endClose =>
    rw [here] at moved late
    dsimp only at moved
    split at moved <;> try contradiction
    cases Option.some_inj.mp moved
    exact wiredOn wired rfl rfl rfl rfl (fun _ => rfl) (by simp [here]) late rfl (fun _ => rfl) (fun _ => rfl)
  | returned =>
    rw [here] at moved
    cases moved

/- A move of the Docker reader: it had been started, it has not ended, and it is not unborn after. -/
theorem wiredReader (wired : Wired s) {docker : DockerReader} {output : List Payload} {outCh : List ExecWSOut}
    (busy : s.docker ≠ .done) (born : docker ≠ .unborn) :
    Wired { s with docker := docker, output := output, outCh := outCh } := by
  obtain ⟨_,socketUnborn,late,closed,cancelled,writerLeft,writerDone,sound⟩ := wired
  exact ⟨fun unborn => absurd unborn born,socketUnborn,fun after => absurd (late after) busy,closed,cancelled,writerLeft,writerDone,sound⟩

/- The reader of a handler that has closed the channel has ended. -/
theorem wiredOpened (wired : Wired s) (busy : s.docker ≠ .done) : s.outClosed = false := by
  have open' : s.handler.closed = false := by
    cases here : s.handler <;> first
      | rfl
      | exact absurd (wired.late (by rw [here]; rfl)) busy
  exact wired.closed.trans open'

theorem readerOffer {m : ExecWSOut} (docker : DockerReader) (wired : Wired s) (busy : s.docker ≠ .done) (born : docker ≠ .unborn)
    (moved : (s.offer m k).map (fun t => { t with docker := docker }) = some t) : Wired t := by
  obtain ⟨u,sent,rfl⟩ := Option.map_eq_some_iff.mp moved
  rcases offerCases (wiredOpened wired busy) sent with ⟨rfl,_⟩ | ⟨rfl,_⟩
  · exact wiredReader wired busy born
  · exact wiredReader wired busy born

theorem dockerWired (wired : Wired s) (moved : s.dockerStep k = some t) : Wired t := by
  unfold Session.dockerStep at moved
  cases here : s.docker with
  | unborn =>
    rw [here] at moved
    cases moved
  | read =>
    rw [here] at moved
    have busy : s.docker ≠ .done := by simp [here]
    dsimp only at moved
    split at moved
    · cases Option.some_inj.mp moved
      refine wiredReader wired busy ?_
      split <;> exact nofun
    · split at moved
      · cases Option.some_inj.mp moved
        exact wiredReader wired busy nofun
      · split at moved
        · cases moved
        · cases Option.some_inj.mp moved
          exact wiredReader wired busy nofun
        · cases Option.some_inj.mp moved
          exact wiredReader wired busy nofun
  | send b =>
    rw [here] at moved
    exact readerOffer .check wired (by simp [here]) nofun moved
  | check =>
    rw [here] at moved
    cases Option.some_inj.mp moved
    refine wiredReader wired (by simp [here]) ?_
    split <;> exact nofun
  | ended eof =>
    rw [here] at moved
    cases Option.some_inj.mp moved
    refine wiredReader wired (by simp [here]) ?_
    split <;> exact nofun
  | sendError =>
    rw [here] at moved
    exact readerOffer .sendExit wired (by simp [here]) nofun moved
  | sendExit =>
    rw [here] at moved
    exact readerOffer .done wired (by simp [here]) nofun moved
  | done =>
    rw [here] at moved
    cases moved

theorem wiredSocket (wired : Wired s) {socket : SocketReader} {inCh : List ClientMsg} (born : socket ≠ .unborn) :
    Wired { s with socket := socket, inCh := inCh } := by
  obtain ⟨dockerUnborn,_,late,closed,cancelled,writerLeft,writerDone,sound⟩ := wired
  exact ⟨dockerUnborn,fun unborn => absurd unborn born,late,closed,cancelled,writerLeft,writerDone,sound⟩

theorem socketWired (wired : Wired s) (moved : s.socketStep k = some t) : Wired t := by
  unfold Session.socketStep at moved
  cases here : s.socket with
  | unborn =>
    rw [here] at moved
    cases moved
  | read =>
    rw [here] at moved
    dsimp only at moved
    split at moved <;> try contradiction
    · split at moved <;> try contradiction
      cases Option.some_inj.mp moved
      exact wiredSocket wired nofun
    · cases Option.some_inj.mp moved
      exact wiredSocket wired nofun
  | deliver m =>
    rw [here] at moved
    dsimp only at moved
    split at moved <;> try contradiction
    · split at moved <;> try contradiction
      cases Option.some_inj.mp moved
      exact wiredSocket wired nofun
    · split at moved <;> try contradiction
      cases Option.some_inj.mp moved
      exact wiredSocket wired nofun
  | done =>
    rw [here] at moved
    cases moved

/- The writer cancels the context on its way out, or the channel is closed and empty. -/
theorem wiredWriter (wired : Wired s) {writer : Writer} {outCh : List ExecWSOut} {cancelled writeDead writeClosed : Bool}
    (later : s.cancelled = true → cancelled = true) (left : writer = .closeWrite → cancelled = true)
    (finished : writer = .done → cancelled = true ∨ s.outClosed = true) :
    Wired { s with writer := writer, outCh := outCh, cancelled := cancelled, writeDead := writeDead, writeClosed := writeClosed } :=
  ⟨wired.dockerUnborn,wired.socketUnborn,wired.late,wired.closed,fun after => later (wired.cancelled after),left,finished,wired.sound⟩

theorem writerWired (wired : Wired s) (moved : s.writerStep k = some t) : Wired t := by
  unfold Session.writerStep at moved
  cases here : s.writer with
  | receive =>
    rw [here] at moved
    dsimp only at moved
    split at moved
    · cases Option.some_inj.mp moved
      exact wiredWriter wired id nofun nofun
    · split at moved <;> try contradiction
      rename_i shut
      cases Option.some_inj.mp moved
      exact wiredWriter wired id nofun (fun _ => .inr shut)
  | lock m =>
    rw [here] at moved
    cases Option.some_inj.mp moved
    refine wiredWriter wired id ?_ ?_
    · split <;> exact nofun
    · split <;> exact nofun
  | writing m =>
    rw [here] at moved
    dsimp only at moved
    split at moved <;> try contradiction
    · split at moved <;> try contradiction
      cases Option.some_inj.mp moved
      exact wiredWriter wired id nofun nofun
    · split at moved <;> try contradiction
      cases Option.some_inj.mp moved
      exact wiredWriter wired id nofun nofun
  | cancel =>
    rw [here] at moved
    cases Option.some_inj.mp moved
    exact wiredWriter wired (fun _ => rfl) (fun _ => rfl) nofun
  | closeWrite =>
    rw [here] at moved
    cases Option.some_inj.mp moved
    exact wiredWriter wired id nofun (fun _ => .inl (wired.writerLeft here))
  | done =>
    rw [here] at moved
    cases moved

theorem stepWired {e : Move} (wired : Wired s) (moved : s.step room e = some t) : Wired t := by
  have outside : ∀ {output stream unread clientGone},
      Wired { s with output := output, stream := stream, unread := unread, clientGone := clientGone } :=
    ⟨wired.dockerUnborn,wired.socketUnborn,wired.late,wired.closed,wired.cancelled,wired.writerLeft,wired.writerDone,wired.sound⟩
  unfold Session.step at moved
  cases e with
  | handler k => exact handlerWired wired moved
  | docker k => exact dockerWired wired moved
  | socket k => exact socketWired wired moved
  | writer k => exact writerWired wired moved
  | output b =>
    dsimp only at moved
    split at moved <;> try contradiction
    cases Option.some_inj.mp moved
    exact outside
  | consume =>
    dsimp only at moved
    split at moved <;> try contradiction
    cases Option.some_inj.mp moved
    exact outside
  | finish stream =>
    dsimp only at moved
    split at moved <;> try contradiction
    cases Option.some_inj.mp moved
    exact outside
  | leave =>
    cases Option.some_inj.mp moved
    exact outside

/- None of the four can move: what is left is the process, and the client. -/
def Session.stuck (room : Nat) (s : Session) : Prop :=
  ∀ k, s.handlerStep room k = none ∧ s.dockerStep k = none ∧ s.socketStep k = none ∧ s.writerStep k = none

structure Ends (room : Nat) (s : Session) : Prop where
  sound : s.panicked = false
  closedFirst : s.handler = .waitDocker → s.hijackedClosed = true ∨ s.stream ≠ .running
  free : s.clientGone = true → s.handler ≠ .returned → ¬s.stuck room

/- The handler goes to `shutdown`. -/
def Session.begins (s : Session) (k : Pick) : Bool :=
  match s.handler with
  | .loop => k = .context ∨ k = .inbox ∧ s.inCh = []
  | .write _ => k = .fail
  | .kill => true
  | _ => false

/- It takes a message that goes to the process. -/
def Session.takes (s : Session) (k : Pick) : Bool :=
  match s.handler,k,s.inCh with
  | .loop,.inbox,m :: _ => (dispatch m).writes
  | _,_,_ => false

/- A session ends in time where it goes to `shutdown` only after the process has ended its output,
and where the process takes what is written to it once the client is gone. -/
def InTime (room : Nat) (s : Session) : Move → Prop
  | .handler k => (s.begins k = true → s.stream ≠ .running) ∧ (s.takes k = true → s.clientGone = true → s.taken room = true)
  | .leave => s.handler.writes = true → s.taken room = true
  | _ => True

instance (s : Session) (e : Move) : Decidable (InTime room s e) := by
  unfold InTime
  split <;> infer_instance

/- What a run that ends in time keeps. -/
structure Timely (room : Nat) (s : Session) : Prop where
  left : s.handler.leaving = true → s.stream ≠ .running
  written : s.handler.writes = true → s.clientGone = true → s.taken room = true

/- The part of the session that only the handler and the outside change. -/
def Session.outer (s : Session) : Handler × Stream × Nat × Bool := ⟨s.handler,s.stream,s.unread,s.clientGone⟩

theorem offerOuter {m : ExecWSOut} (sent : s.offer m k = some t) : t.outer = s.outer := by
  unfold Session.offer at sent
  split at sent
  · split at sent <;> try contradiction
    cases Option.some_inj.mp sent
    rfl
  · split at sent
    · cases Option.some_inj.mp sent
      rfl
    · split at sent <;> try contradiction
      cases Option.some_inj.mp sent
      rfl
  · cases sent

theorem dockerOuter (moved : s.dockerStep k = some t) : t.outer = s.outer := by
  have offered : ∀ {m docker}, (s.offer m k).map (fun t => { t with docker := docker }) = some t → t.outer = s.outer := by
    intro m docker moved
    obtain ⟨u,sent,rfl⟩ := Option.map_eq_some_iff.mp moved
    exact offerOuter (t := u) sent
  unfold Session.dockerStep at moved
  split at moved
  · cases moved
  · split at moved
    · cases Option.some_inj.mp moved
      rfl
    · split at moved
      · cases Option.some_inj.mp moved
        rfl
      · split at moved <;> try contradiction
        · cases Option.some_inj.mp moved
          rfl
        · cases Option.some_inj.mp moved
          rfl
  · exact offered moved
  · cases Option.some_inj.mp moved
    rfl
  · cases Option.some_inj.mp moved
    rfl
  · exact offered moved
  · exact offered moved
  · cases moved

theorem socketOuter (moved : s.socketStep k = some t) : t.outer = s.outer := by
  unfold Session.socketStep at moved
  repeat' split at moved
  all_goals first
    | contradiction
    | cases Option.some_inj.mp moved
      rfl

theorem writerOuter (moved : s.writerStep k = some t) : t.outer = s.outer := by
  unfold Session.writerStep at moved
  repeat' split at moved
  all_goals first
    | contradiction
    | cases Option.some_inj.mp moved
      rfl

theorem timelyOuter (timely : Timely room s) (same : t.outer = s.outer) : Timely room t := by
  obtain ⟨handler,stream,unread,gone⟩ : t.handler = s.handler ∧ t.stream = s.stream ∧ t.unread = s.unread ∧ t.clientGone = s.clientGone := by
    simpa [Session.outer] using same
  obtain ⟨left,written⟩ := timely
  refine ⟨by rwa [handler,stream],?_⟩
  rw [handler,gone]
  unfold Session.taken at written ⊢
  rwa [unread,stream]

/- What a move of the handler may begin. -/
structure Begins (s t : Session) (k : Pick) : Prop where
  stream : t.stream = s.stream
  gone : t.clientGone = s.clientGone
  left : t.handler.leaving = true → s.begins k = true ∨ s.handler.leaving = true
  written : t.handler.writes = true → s.takes k = true ∧ t.unread = s.unread

theorem offerBegins {m : ExecWSOut} {h : Handler} (left : h.leaving = true → s.begins k = true) (written : h.writes = false)
    (moved : (s.offer m k).map (fun t => { t with handler := h }) = some t) : Begins s t k := by
  obtain ⟨u,sent,rfl⟩ := Option.map_eq_some_iff.mp moved
  have same := offerOuter sent
  simp only [Session.outer,Prod.mk.injEq] at same
  exact ⟨same.2.1,same.2.2.2,fun after => .inl (left after),fun after => absurd after (by simp [written])⟩

theorem handlerBegins (moved : s.handlerStep room k = some t) : Begins s t k := by
  unfold Session.handlerStep at moved
  cases here : s.handler with
  | ready =>
    rw [here] at moved
    exact offerBegins (h := .startDocker) nofun rfl moved
  | startDocker =>
    rw [here] at moved
    cases Option.some_inj.mp moved
    exact ⟨rfl,rfl,nofun,nofun⟩
  | startSocket =>
    rw [here] at moved
    cases Option.some_inj.mp moved
    exact ⟨rfl,rfl,nofun,nofun⟩
  | loop =>
    rw [here] at moved
    dsimp only at moved
    split at moved <;> try contradiction
    · split at moved <;> try contradiction
      cases Option.some_inj.mp moved
      exact ⟨rfl,rfl,nofun,nofun⟩
    · split at moved <;> try contradiction
      cases Option.some_inj.mp moved
      exact ⟨rfl,rfl,fun _ => .inl (by simp [Session.begins,here]),nofun⟩
    · split at moved
      · rename_i m rest queued
        cases Option.some_inj.mp moved
        obtain ⟨_,_,_,still⟩ := dispatchLoop m
        exact ⟨rfl,rfl,fun after => absurd after (by simp [still]),fun after => ⟨by simpa [Session.takes,here,queued] using after,rfl⟩⟩
      · rename_i none
        split at moved <;> try contradiction
        cases Option.some_inj.mp moved
        exact ⟨rfl,rfl,fun _ => .inl (by simp [Session.begins,here,none]),nofun⟩
  | write b =>
    rw [here] at moved
    dsimp only at moved
    split at moved <;> try contradiction
    · split at moved <;> try contradiction
      cases Option.some_inj.mp moved
      exact ⟨rfl,rfl,nofun,nofun⟩
    · split at moved <;> try contradiction
      cases Option.some_inj.mp moved
      exact ⟨rfl,rfl,fun _ => .inl (by simp [Session.begins,here]),nofun⟩
  | resize =>
    rw [here] at moved
    cases Option.some_inj.mp moved
    exact ⟨rfl,rfl,nofun,nofun⟩
  | pong =>
    rw [here] at moved
    exact offerBegins (h := .loop) nofun rfl moved
  | kill =>
    rw [here] at moved
    exact offerBegins (fun _ => by simp [Session.begins,here]) rfl moved
  | cancel =>
    rw [here] at moved
    cases Option.some_inj.mp moved
    exact ⟨rfl,rfl,fun _ => .inr (by rw [here]; rfl),nofun⟩
  | closeWrite =>
    rw [here] at moved
    cases Option.some_inj.mp moved
    exact ⟨rfl,rfl,fun _ => .inr (by rw [here]; rfl),nofun⟩
  | safeClose =>
    rw [here] at moved
    dsimp only at moved
    split at moved <;> try contradiction
    cases Option.some_inj.mp moved
    exact ⟨rfl,rfl,fun _ => .inr (by rw [here]; rfl),nofun⟩
  | waitDocker =>
    rw [here] at moved
    dsimp only at moved
    split at moved <;> try contradiction
    cases Option.some_inj.mp moved
    exact ⟨rfl,rfl,nofun,nofun⟩
  | closeWriter =>
    rw [here] at moved
    cases Option.some_inj.mp moved
    exact ⟨rfl,rfl,nofun,nofun⟩
  | waitWriter =>
    rw [here] at moved
    dsimp only at moved
    split at moved <;> try contradiction
    cases Option.some_inj.mp moved
    exact ⟨rfl,rfl,nofun,nofun⟩
  | endWriter =>
    rw [here] at moved
    cases Option.some_inj.mp moved
    exact ⟨rfl,rfl,nofun,nofun⟩
  | endWait =>
    rw [here] at moved
    dsimp only at moved
    split at moved <;> try contradiction
    cases Option.some_inj.mp moved
    exact ⟨rfl,rfl,nofun,nofun⟩
  | endClose =>
    rw [here] at moved
    dsimp only at moved
    split at moved <;> try contradiction
    cases Option.some_inj.mp moved
    exact ⟨rfl,rfl,nofun,nofun⟩
  | returned =>
    rw [here] at moved
    cases moved

theorem attachedTimely : Timely room attached := by
  constructor <;> simp [attached,Handler.leaving,Handler.writes]

theorem stepTimely {e : Move} (timely : Timely room s) (inTime : InTime room s e) (moved : s.step room e = some t) : Timely room t := by
  obtain ⟨left,written⟩ := timely
  unfold Session.step at moved
  cases e with
  | handler k =>
    obtain ⟨begun,taking⟩ := inTime
    obtain ⟨stream,gone,leaves,writes⟩ := handlerBegins moved
    refine ⟨fun after => ?_,fun after off => ?_⟩
    · rw [stream]
      exact (leaves after).elim begun left
    · obtain ⟨took,unread⟩ := writes after
      have room := taking took (gone ▸ off)
      unfold Session.taken at room ⊢
      rwa [unread,stream]
  | docker k => exact timelyOuter ⟨left,written⟩ (dockerOuter moved)
  | socket k => exact timelyOuter ⟨left,written⟩ (socketOuter moved)
  | writer k => exact timelyOuter ⟨left,written⟩ (writerOuter moved)
  | output b =>
    dsimp only at moved
    split at moved <;> try contradiction
    cases Option.some_inj.mp moved
    exact ⟨left,written⟩
  | consume =>
    dsimp only at moved
    split at moved <;> try contradiction
    cases Option.some_inj.mp moved
    refine ⟨left,fun after off => ?_⟩
    have before := written after off
    simp only [Session.taken,Bool.or_eq_true,decide_eq_true_eq] at before ⊢
    exact before.imp_left (by omega)
  | finish stream =>
    dsimp only at moved
    split at moved <;> try contradiction
    rename_i finished
    cases Option.some_inj.mp moved
    exact ⟨fun _ => finished.2,fun _ _ => by simp [Session.taken,finished.2]⟩
  | leave =>
    cases Option.some_inj.mp moved
    exact ⟨left,fun after _ => inTime after⟩

/- Whoever stands at an offer can move: the context is done, or the idle writer left a place in the channel. -/
theorem offerMoves {m : ExecWSOut} (opened : s.outClosed = false) (ready : s.cancelled = true ∨ s.outCh = []) :
    ∃ k t, s.offer m k = some t := by
  rcases ready with finished | empty
  · exact ⟨.context,s,by simp [Session.offer,finished]⟩
  · exact ⟨.send,_,by simp [Session.offer,opened,empty,outCap]; rfl⟩

/- A writer that cannot move has left for good, or it waits at an empty channel. -/
theorem writerIdle (gone : s.clientGone = true) (still : ∀ k, s.writerStep k = none) :
    s.writer = .done ∨ s.writer = .receive ∧ s.outCh = [] ∧ s.outClosed = false := by
  have fails := still .fail
  unfold Session.writerStep at fails
  cases here : s.writer with
  | receive =>
    rw [here] at fails
    dsimp only at fails
    split at fails
    · cases fails
    · rename_i empty
      split at fails
      · cases fails
      · exact .inr ⟨rfl,empty,by simpa using ‹¬s.outClosed = true›⟩
  | lock m =>
    rw [here] at fails
    cases fails
  | writing m =>
    rw [here] at fails
    simp [gone] at fails
  | cancel =>
    rw [here] at fails
    cases fails
  | closeWrite =>
    rw [here] at fails
    cases fails
  | done => exact .inl rfl

theorem offerReady (wired : Wired s) (gone : s.clientGone = true) (still : ∀ k, s.writerStep k = none) (opened : s.outClosed = false) :
    s.cancelled = true ∨ s.outCh = [] := by
  rcases writerIdle gone still with done | ⟨_,empty,_⟩
  · exact .inl ((wired.writerDone done).resolve_right (by simp [opened]))
  · exact .inr empty

/- A Docker reader that cannot move has ended, waits for the process or has not been started. -/
theorem dockerIdle (ready : s.docker ≠ .done → s.outClosed = false ∧ (s.cancelled = true ∨ s.outCh = [])) (still : ∀ k, s.dockerStep k = none) :
    s.docker = .done ∨ s.docker = .unborn ∨ s.docker = .read ∧ s.stream = .running := by
  have offered : ∀ {m docker}, s.docker ≠ .done → ¬∀ k, (s.offer m k).map (fun t => { t with docker := docker }) = none := by
    intro m docker busy none
    obtain ⟨k,t,sent⟩ := offerMoves (m := m) (ready busy).1 (ready busy).2
    have blocked := none k
    rw [sent] at blocked
    cases blocked
  unfold Session.dockerStep at still
  cases here : s.docker with
  | unborn => exact .inr (.inl rfl)
  | read =>
    have blocked := still .go
    rw [here] at blocked
    dsimp only at blocked
    split at blocked
    · cases blocked
    · split at blocked
      · cases blocked
      · split at blocked <;> try contradiction
        exact .inr (.inr ⟨rfl,by assumption⟩)
  | send b =>
    rw [here] at still
    exact absurd still (offered (by simp [here]))
  | check =>
    rw [here] at still
    exact absurd (still .go) nofun
  | ended eof =>
    rw [here] at still
    exact absurd (still .go) nofun
  | sendError =>
    rw [here] at still
    exact absurd still (offered (by simp [here]))
  | sendExit =>
    rw [here] at still
    exact absurd still (offered (by simp [here]))
  | done => exact .inl rfl

/- A websocket reader that cannot move has ended, has not been started, or waits for the handler. -/
theorem socketIdle (still : ∀ k, s.socketStep k = none) :
    s.socket = .done ∨ s.socket = .unborn ∨ s.inCh ≠ [] := by
  unfold Session.socketStep at still
  cases here : s.socket with
  | unborn => exact .inr (.inl rfl)
  | read =>
    rw [here] at still
    exact absurd (still .fail) nofun
  | deliver m =>
    have sends := still .send
    rw [here] at sends
    refine .inr (.inr fun empty => ?_)
    simp [empty,inCap] at sends
  | done => exact .inl rfl

/- The handler moves on while the client is gone, in a session that ends in time. -/
theorem handlerMoves (wired : Wired s) (timely : Timely room s) (gone : s.clientGone = true) (docker : ∀ k, s.dockerStep k = none)
    (socket : ∀ k, s.socketStep k = none) (writer : ∀ k, s.writerStep k = none) (handler : ∀ k, s.handlerStep room k = none) :
    s.handler = .returned := by
  have closed := wired.closed
  have offered : s.outClosed = false → ∀ {m h}, ¬∀ k, (s.offer m k).map (fun t => { t with handler := h }) = none := by
    intro opened m h none
    obtain ⟨k,t,sent⟩ := offerMoves (m := m) opened (offerReady wired gone writer opened)
    have blocked := none k
    rw [sent] at blocked
    cases blocked
  have idle := writerIdle gone writer
  have free : s.writer.holds = false := by
    rcases idle with done | ⟨waits,_⟩
    · rw [done]
      rfl
    · rw [waits]
      rfl
  have finished : s.outClosed = true → s.writer = .done := fun shut => idle.resolve_right (by simp [shut])
  unfold Session.handlerStep at handler
  cases here : s.handler with
  | ready =>
    rw [here] at handler closed
    exact absurd handler (offered closed)
  | startDocker =>
    rw [here] at handler
    exact absurd (handler .go) nofun
  | startSocket =>
    rw [here] at handler
    exact absurd (handler .go) nofun
  | loop =>
    have takes := handler .inbox
    rw [here] at takes
    dsimp only at takes
    split at takes
    · cases takes
    · rename_i empty
      have born : s.socket ≠ .unborn := fun unborn => by simpa [here] using wired.socketUnborn unborn
      have done := (socketIdle socket).resolve_right (not_or.mpr ⟨born,by simp [empty]⟩)
      rw [if_pos done] at takes
      cases takes
  | write b =>
    have taken := timely.written (by rw [here]; rfl) gone
    have goes := handler .go
    have fails := handler .fail
    rw [here] at goes fails
    simp [taken] at goes fails
    simp [goes] at fails
  | resize =>
    rw [here] at handler
    exact absurd (handler .go) nofun
  | pong =>
    rw [here] at handler closed
    exact absurd handler (offered closed)
  | kill =>
    rw [here] at handler closed
    exact absurd handler (offered closed)
  | cancel =>
    rw [here] at handler
    exact absurd (handler .go) nofun
  | closeWrite =>
    rw [here] at handler
    exact absurd (handler .go) nofun
  | safeClose =>
    have closes := handler .go
    rw [here] at closes
    simp [free] at closes
  | waitDocker =>
    have waits := handler .go
    rw [here] at waits closed
    have ended := timely.left (by rw [here]; rfl)
    have born : s.docker ≠ .unborn := fun unborn => by simpa [here] using wired.dockerUnborn unborn
    have done := (dockerIdle (fun _ => ⟨closed,.inl (wired.cancelled (by rw [here]; rfl))⟩) docker).resolve_right
      (not_or.mpr ⟨born,fun reads => ended reads.2⟩)
    simp [done] at waits
  | closeWriter =>
    rw [here] at handler
    exact absurd (handler .go) nofun
  | waitWriter =>
    have waits := handler .go
    rw [here] at waits closed
    simp [finished closed] at waits
  | endWriter =>
    rw [here] at handler
    exact absurd (handler .go) nofun
  | endWait =>
    have waits := handler .go
    rw [here] at waits closed
    simp [finished closed] at waits
  | endClose =>
    have closes := handler .go
    rw [here] at closes
    simp [free] at closes
  | returned => rfl

end

/- Whatever the process and the schedule do, no message is sent after the channel was closed; and a
session that ends in time ends without the process. -/
theorem consoleEnds {room : Nat} {es : List Move} {t : Session} (ran : run (Session.step room) attached es = some t) :
    t.panicked = false ∧ (Guided (Session.step room) (InTime room) attached es → Ends room t) := by
  have wired := runKeeps stepWired attachedWired ran
  refine ⟨wired.sound,fun guided => ?_⟩
  have timely := runGuided stepTimely attachedTimely guided ran
  refine ⟨wired.sound,fun waits => .inr (timely.left (by rw [waits]; rfl)),fun gone busy stuck => busy ?_⟩
  exact handlerMoves wired timely gone (fun k => (stuck k).2.1) (fun k => (stuck k).2.2.1) (fun k => (stuck k).2.2.2) (fun k => (stuck k).1)

/- The exec is ready and its client has been told so. -/
def opening : List Move :=
  [.handler .send,.handler .go,.handler .go,.writer .go,.writer .go,.writer .go]

/- The process ends, then the client leaves. -/
theorem consoleEndsFirst : ∃ t, run (Session.step 8) attached (opening ++ [.finish .eof,.leave,.socket .fail,.handler .inbox,.handler .go,
    .handler .go,.handler .go]) = some t ∧ t.handler = .waitDocker ∧ Ends 8 t := by
  let es := opening ++ [.finish .eof,.leave,.socket .fail,.handler .inbox,.handler .go,.handler .go,.handler .go]
  obtain ⟨t,ran,waits⟩ : ∃ t, run (Session.step 8) attached es = some t ∧ t.handler = .waitDocker :=
    ⟨_,rfl,rfl⟩
  exact ⟨t,ran,waits,(consoleEnds ran).2 (by decide)⟩

/- The client leaves a process that keeps silent. -/
theorem silentProcess : ¬∀ {es : List Move} {t : Session}, run (Session.step 8) attached es = some t → Ends 8 t := by
  intro ends
  let es := opening ++ [.leave,.socket .fail,.handler .inbox,.handler .go,.handler .go,.handler .go]
  obtain ⟨t,ran,silent⟩ : ∃ t, run (Session.step 8) attached es = some t ∧ t.clientGone = true ∧ t.handler = .waitDocker ∧ t.docker = .read ∧
      t.output = [] ∧ t.stream = .running ∧ t.hijackedClosed = false ∧ t.socket = .done ∧ t.writer = .receive ∧ t.outCh = [] ∧
      t.outClosed = false := ⟨_,rfl,by decide⟩
  obtain ⟨gone,waits,reads,quiet,running,opened,done,idle,empty,unclosed⟩ := silent
  refine (ends ran).free gone (by simp [waits]) fun k => ⟨?_,?_,?_,?_⟩
  · simp [Session.handlerStep,waits,reads]
  · simp [Session.dockerStep,reads,quiet,opened,running]
  · simp [Session.socketStep,done]
  · simp [Session.writerStep,idle,empty,unclosed]

end ContainerWS.Docker
