import ContainerWS.CloudShell.Sessions

/-! What a client is told that resumes a session: the newest output the ring has kept, then
what the shell prints from there on. The replay is written outside the lock of Attach, so
the read loop may be faster; the replay comes first as long as the loop is not. -/
namespace ContainerWS.CloudShell
variable {size : Nat}

def bytesOf : List Frame → Bytes
  | [] => []
  | .control _ :: rest => bytesOf rest
  | .binary bytes :: rest => bytes ++ bytesOf rest

/- The bytes behind the ready frame. -/
def received : List Frame → Bytes
  | [] => []
  | .control .ready :: rest => bytesOf rest
  | .control .error :: rest => received rest
  | .control .exit :: rest => received rest
  | .control .pong :: rest => received rest
  | .binary _ :: rest => received rest

theorem bytesControl (frames : List Frame) (type : Control) : bytesOf (frames ++ [.control type]) = bytesOf frames := by
  induction frames with
  | nil => rfl
  | cons f rest ih =>
    cases f with
    | control other => exact ih
    | binary bytes => exact congrArg (bytes ++ ·) ih

theorem bytesBinary (frames : List Frame) (bytes : Bytes) : bytesOf (frames ++ [.binary bytes]) = bytesOf frames ++ bytes := by
  induction frames with
  | nil => exact List.append_nil _
  | cons f rest ih =>
    cases f with
    | control other => exact ih
    | binary more =>
      rw [List.cons_append,bytesOf,ih,bytesOf,List.append_assoc]

theorem receivedControl (frames : List Frame) (type : Control) : received (frames ++ [.control type]) = received frames := by
  induction frames with
  | nil => cases type <;> rfl
  | cons f rest ih =>
    cases f with
    | binary bytes => exact ih
    | control other =>
      cases other with
      | ready => exact bytesControl rest type
      | error => exact ih
      | exit => exact ih
      | pong => exact ih

theorem receivedBinary {frames : List Frame} (ready : .control .ready ∈ frames) (bytes : Bytes) :
    received (frames ++ [.binary bytes]) = received frames ++ bytes := by
  induction frames with
  | nil => contradiction
  | cons f rest ih =>
    cases f with
    | binary more => exact ih (by simpa using ready)
    | control other =>
      cases other with
      | ready => exact bytesBinary rest bytes
      | error => exact ih (by simpa using ready)
      | exit => exact ih (by simpa using ready)
      | pong => exact ih (by simpa using ready)

/- The replay is still to come. -/
def ClientPoint.fresh : ClientPoint → Bool
  | .ready => true
  | .replay => true
  | _ => false

/- What the read loop has in hand for a client. -/
def Reader.pending (r : Reader) (k : Nat) : Bytes :=
  match r with
  | .deliver sink chunk _ => if sink = k then chunk else []
  | _ => []

/- What a client was told, `live` of it behind the replay. -/
structure Said (c : Client) (live : Bytes) : Prop where
  silent : c.point.fresh = true → received c.frames = [] ∧ live = []
  told : c.point.fresh = false → received c.frames = c.snapshot ++ live ∨ c.lost = true ∧ received c.frames = []

/- Where `live` stands in the output since the client attached. -/
structure Tracks (s : Session size) (k : Nat) (c : Client) (live : Bytes) : Prop where
  behind : live <+: s.history.output.drop c.start
  ahead : c.lost = false → live ++ s.reader.pending k <+: s.history.output.drop c.start
  attached : c.lost = false → s.attach = some k → live ++ s.reader.pending k = s.history.output.drop c.start

structure Told (s : Session size) (k : Nat) (c : Client) : Prop where
  start : c.start ≤ s.history.output.length
  snapshot : c.snapshot = (s.history.output.take c.start).rtake size
  readied : c.point ≠ .ready → c.lost = false → .control .ready ∈ c.frames
  heard : ∃ live, Said c live ∧ Tracks s k c live

structure Follows (s : Session size) : Prop where
  ring : s.ring.Holds s.history.output
  attached : ∀ k, s.attach = some k → k + 1 = s.clients.length
  aimed : ∀ k chunk err, s.reader = .deliver k chunk err → k < s.clients.length
  told : ∀ k c, k + 1 = s.clients.length → s.clients[k]? = some c → Told s k c

/- A change that concerns no client: at most it takes one away. -/
structure Aside (s t : Session size) : Prop where
  ring : t.ring = s.ring
  clients : t.clients = s.clients
  reader : t.reader = s.reader
  output : t.history.output = s.history.output
  attach : t.attach = s.attach ∨ t.attach = none

theorem asideSelf (s : Session size) : Aside s s := ⟨rfl,rfl,rfl,rfl,.inl rfl⟩

theorem destroyAside (s : Session size) (cause : Cause) (fails : Bool) (d : Destroying) : Aside s (s.destroy cause fails d).1 := by
  cases d with
  | lock =>
    simp only [Session.destroy,Session.destroyLocked]
    split
    · exact asideSelf s
    · exact ⟨rfl,rfl,rfl,rfl,.inr rfl⟩
  | remove change => exact ⟨rfl,rfl,rfl,rfl,.inl rfl⟩
  | persist change => exact ⟨rfl,rfl,rfl,rfl,.inl rfl⟩
  | done => exact asideSelf s

theorem detachAside (s : Session size) (i : Nat) : Aside s (s.detach i).1 := by
  unfold Session.detach
  split
  · exact ⟨rfl,rfl,rfl,rfl,.inr rfl⟩
  · exact asideSelf s

/- What a client was told stays right as long as the output stands still and so does what the loop has
in hand for it. -/
theorem toldBeside {s t : Session size} {k : Nat} {c : Client} (pending : t.reader.pending k = s.reader.pending k)
    (output : t.history.output = s.history.output) (attach : t.attach = s.attach ∨ t.attach = none) (told : Told s k c) :
    Told t k c := by
  obtain ⟨live,said,tracks⟩ := told.heard
  refine ⟨?_,?_,told.readied,live,said,?_,?_,?_⟩
  · rw [output]
    exact told.start
  · rw [output]
    exact told.snapshot
  · rw [output]
    exact tracks.behind
  · rw [output,pending]
    exact tracks.ahead
  · intro alive here
    rw [output,pending]
    rcases attach with same | none
    · exact tracks.attached alive (same ▸ here)
    · rw [none] at here
      contradiction

theorem followsAside {s t : Session size} (aside : Aside s t) (follows : Follows s) : Follows t := by
  refine ⟨?_,?_,?_,?_⟩
  · rw [aside.ring,aside.output]
    exact follows.ring
  · intro k here
    rw [aside.clients]
    rcases aside.attach with same | none
    · exact follows.attached k (same ▸ here)
    · rw [none] at here
      contradiction
  · rw [aside.clients,aside.reader]
    exact follows.aimed
  · rw [aside.clients]
    exact fun k c last found => toldBeside (by rw [aside.reader]) aside.output aside.attach (follows.told k c last found)

/- A client goes on; nobody else is concerned. -/
theorem followsSet {s : Session size} {i : Nat} {c c' : Client} (follows : Follows s) (found : s.clients[i]? = some c)
    (next : Told s i c → Told s i c') : Follows (s.setClient i c') := by
  have same : (s.setClient i c').clients.length = s.clients.length := List.length_set
  refine ⟨follows.ring,?_,?_,?_⟩
  · rw [same]
    exact follows.attached
  · rw [same]
    exact follows.aimed
  · rw [same]
    intro k d last here
    by_cases own : i = k
    · subst own
      have set : (s.clients.set i c')[i]? = some c' := List.getElem?_set_self (List.getElem?_eq_some_iff.mp found).1
      cases Option.some.inj (set.symm.trans here)
      exact toldBeside (s := s) rfl rfl (.inl rfl) (next (follows.told i c last found))
    · have kept : (s.clients.set i c')[k]? = s.clients[k]? := List.getElem?_set_ne own
      exact toldBeside (s := s) rfl rfl (.inl rfl) (follows.told k d last (kept.symm.trans here))

/- The steps of a handler. -/

theorem toldControl {s : Session size} {k : Nat} {c : Client} (told : Told s k c) (type : Control) :
    Told s k (c.send (.control type)) := by
  obtain ⟨live,said,tracks⟩ := told.heard
  unfold Client.send
  split
  · exact told
  · refine ⟨told.start,told.snapshot,?_,live,⟨?_,?_⟩,tracks.behind,tracks.ahead,tracks.attached⟩
    · intro later alive
      exact List.mem_append_left _ (told.readied later alive)
    · rw [receivedControl]
      exact said.silent
    · rw [receivedControl]
      exact said.told

/- The replay is over, or still to come as before. -/
theorem toldPoint {s : Session size} {k : Nat} {c : Client} (told : Told s k c) {point : ClientPoint}
    (same : point.fresh = c.point.fresh) (later : c.point ≠ .ready) : Told s k {c with point := point} := by
  obtain ⟨live,said,tracks⟩ := told.heard
  refine ⟨told.start,told.snapshot,fun _ => told.readied later,live,⟨?_,?_⟩,tracks.behind,tracks.ahead,tracks.attached⟩
  · intro fresh
    exact said.silent (same ▸ fresh)
  · intro finished
    exact said.told (same ▸ finished)

theorem toldReady {s : Session size} {k : Nat} {c : Client} (told : Told s k c) (here : c.point = .ready) :
    Told s k {c.send (.control .ready) with point := .replay} := by
  obtain ⟨live,said,tracks⟩ := told.heard
  have quiet := said.silent (by rw [here]; rfl)
  unfold Client.send
  split
  · rename_i lost
    refine ⟨told.start,told.snapshot,?_,live,⟨fun _ => quiet,fun finished => (nomatch finished)⟩,tracks.behind,tracks.ahead,tracks.attached⟩
    intro _ alive
    rw [lost] at alive
    contradiction
  · refine ⟨told.start,told.snapshot,fun _ _ => by simp,live,⟨?_,fun finished => (nomatch finished)⟩,tracks.behind,tracks.ahead,tracks.attached⟩
    rw [receivedControl]
    exact fun _ => quiet

theorem toldReplay {s : Session size} {k : Nat} {c : Client} (told : Told s k c) (here : c.point = .replay) :
    Told s k {(if c.snapshot = [] then c else c.send (.binary c.snapshot)) with point := .pump} := by
  obtain ⟨live,said,tracks⟩ := told.heard
  obtain ⟨quiet,rfl⟩ := said.silent (by rw [here]; rfl)
  have readied := told.readied (by rw [here]; exact fun same => (nomatch same))
  split
  · rename_i empty
    refine ⟨told.start,told.snapshot,fun _ => readied,[],⟨fun fresh => (nomatch fresh),?_⟩,tracks.behind,tracks.ahead,tracks.attached⟩
    intro _
    rw [quiet,empty]
    exact .inl rfl
  · unfold Client.send
    split
    · rename_i lost
      exact ⟨told.start,told.snapshot,fun _ => readied,[],⟨fun fresh => (nomatch fresh),fun _ => .inr ⟨lost,quiet⟩⟩,
        tracks.behind,tracks.ahead,tracks.attached⟩
    · rename_i alive
      have ready := readied (by simpa using alive)
      refine ⟨told.start,told.snapshot,fun _ _ => List.mem_append_left _ ready,[],⟨fun fresh => (nomatch fresh),?_⟩,
        tracks.behind,tracks.ahead,tracks.attached⟩
      intro _
      rw [receivedBinary ready,quiet,List.append_nil]
      exact .inl rfl

theorem toldLost {s : Session size} {k : Nat} {c : Client} (told : Told s k c) : Told s k {c with lost := true} := by
  obtain ⟨live,said,tracks⟩ := told.heard
  refine ⟨told.start,told.snapshot,fun _ alive => (nomatch alive),live,⟨said.silent,?_⟩,tracks.behind,
    fun alive => (nomatch alive),fun alive => (nomatch alive)⟩
  intro finished
  rcases said.told finished with told | ⟨_,none⟩
  · exact .inl told
  · exact .inr ⟨rfl,none⟩

/- Each step of a handler that is neither an Attach nor a frame of the loop. -/
theorem followsServe {s : Session size} (follows : Follows s) {i : Nat} {c : Client} (found : s.clients[i]? = some c)
    (message : Message) (fails : Bool) : Follows (s.serve i c message fails) := by
  unfold Session.serve
  split
  · rename_i here
    exact followsSet follows found (fun told => toldReady told here)
  · rename_i here
    exact followsSet follows found (fun told => toldReplay told here)
  · rename_i here
    have later : c.point ≠ .ready := by simp [here]
    cases message with
    | ping => exact followsSet follows found (fun told => toldControl told .pong)
    | kill => exact followsSet follows found (fun told => toldPoint told (by simp [here,ClientPoint.fresh]) later)
    | leave => exact followsSet follows found (fun told => toldPoint told (by simp [here,ClientPoint.fresh]) later)
  · rename_i here
    exact followsSet follows found (fun told => toldPoint told (by simp [here,ClientPoint.fresh]) (by simp [here]))
  · rename_i d _ here
    have aside := destroyAside s (.client i) fails d
    exact followsSet (followsAside aside follows) (by rw [aside.clients]; exact found)
      (fun told => toldPoint told (by simp [here,ClientPoint.fresh]) (by simp [here]))
  · rename_i here
    refine followsSet follows found (fun told => ?_)
    have same : (c.send (.control .exit)).point = .killed := by
      unfold Client.send
      split <;> exact here
    exact toldPoint (toldControl told .exit) (by simp [same,ClientPoint.fresh]) (by simp [same])
  · rename_i here
    have aside := detachAside s i
    refine followsSet (followsAside aside follows) (by rw [aside.clients]; exact found) (fun told => ?_)
    refine toldPoint told ?_ (by simp [here])
    rw [here]
    unfold Session.detach
    split <;> rfl
  · rename_i change here
    have aside : Aside s (s.persist fails change .detached) := ⟨rfl,rfl,rfl,rfl,.inl rfl⟩
    exact followsSet (followsAside aside follows) found
      (fun told => toldPoint told (by simp [here,ClientPoint.fresh]) (by simp [here]))
  · rename_i here
    have aside : Aside s s.scheduleIdle := ⟨rfl,rfl,rfl,rfl,.inl rfl⟩
    exact followsSet (followsAside aside follows) found
      (fun told => toldPoint told (by simp [here,ClientPoint.fresh]) (by simp [here]))
  · exact follows

/- Nothing in hand of the loop is for a client that is yet to come. -/
theorem pendingNone {s : Session size} (follows : Follows s) : s.reader.pending s.clients.length = [] := by
  cases here : s.reader with
  | deliver sink chunk err =>
    have before := follows.aimed sink chunk err here
    rw [Reader.pending,if_neg (by omega)]
  | _ => rfl

theorem toldNew {s t : Session size} (follows : Follows s) (reader : t.reader = s.reader)
    (output : t.history.output = s.history.output) : Told t s.clients.length s.newClient := by
  have none : t.reader.pending s.clients.length = [] := by rw [reader,pendingNone follows]
  have rest : t.history.output.drop s.newClient.start = [] := by
    rw [output]
    exact List.drop_length
  refine ⟨Nat.le_of_eq (by rw [output]; rfl),?_,fun later => absurd rfl later,[],⟨fun _ => ⟨rfl,rfl⟩,fun finished => (nomatch finished)⟩,
    List.nil_prefix,?_,?_⟩
  · show s.ring.snapshot = (t.history.output.take s.history.output.length).rtake size
    rw [output,List.take_length]
    exact follows.ring.newest
  · intro _
    rw [none]
    exact List.nil_prefix
  · intro _ _
    rw [none,rest]
    rfl

theorem followsConnect {s : Session size} (follows : Follows s) (fails : Bool) : Follows (s.attachSink fails) := by
  unfold Session.attachSink
  split
  · exact follows
  · have clients : (s.attachOpen fails).clients = s.clients ++ [s.newClient] := rfl
    have length : (s.attachOpen fails).clients.length = s.clients.length + 1 := by rw [clients,List.length_append]; rfl
    refine ⟨follows.ring,?_,?_,?_⟩
    · intro k here
      cases Option.some.inj here
      exact length.symm
    · intro k chunk err here
      rw [length]
      exact Nat.lt_succ_of_lt (follows.aimed k chunk err here)
    · intro k c last found
      have place : k = s.clients.length := by omega
      subst place
      rw [clients,List.getElem?_concat_length] at found
      cases Option.some.inj found
      exact toldNew follows rfl rfl

theorem fireAside (s : Session size) (i : Nat) (t : Timer) (fails : Bool) : Aside s (s.fire i t fails) := by
  unfold Session.fire
  split
  · exact ⟨rfl,rfl,rfl,rfl,.inl rfl⟩
  · exact ⟨rfl,rfl,rfl,rfl,.inl rfl⟩
  · split <;> exact ⟨rfl,rfl,rfl,rfl,.inl rfl⟩
  · rename_i d _
    obtain ⟨ring,clients,reader,output,attach⟩ := destroyAside s (.timer i) fails d
    exact ⟨ring,clients,reader,output,attach⟩
  · exact asideSelf s
  · exact asideSelf s

/- The steps of the read loop. -/

theorem followsReader {s : Session size} (follows : Follows s) {r : Reader} (pending : ∀ k, r.pending k = s.reader.pending k)
    (aimed : ∀ k chunk err, r = .deliver k chunk err → k < s.clients.length) : Follows {s with reader := r} :=
  ⟨follows.ring,follows.attached,aimed,fun k c last found =>
    toldBeside (s := s) (pending k) rfl (.inl rfl) (follows.told k c last found)⟩

theorem afterPending (err : Option Bool) (k : Nat) : (afterRead err).pending k = [] := by
  cases err <;> rfl

theorem afterAimed {err : Option Bool} {k : Nat} {chunk : Bytes} {other : Option Bool} : afterRead err ≠ .deliver k chunk other := by
  cases err <;> exact fun same => (nomatch same)

theorem dropAppend {stream more : Bytes} {n : Nat} (inside : n ≤ stream.length) :
    (stream ++ more).drop n = stream.drop n ++ more := List.drop_append_of_le_length inside

/- What the loop reads it has in hand for whoever is attached. -/
theorem toldRead {s t : Session size} {k : Nat} {c : Client} {chunk : Bytes} (told : Told s k c) (idle : s.reader.pending k = [])
    (output : t.history.output = s.history.output ++ chunk) (attach : t.attach = s.attach)
    (pending : t.reader.pending k = if s.attach = some k then chunk else []) : Told t k c := by
  obtain ⟨live,said,tracks⟩ := told.heard
  have drop : t.history.output.drop c.start = s.history.output.drop c.start ++ chunk := by
    rw [output,dropAppend told.start]
  have behind : live <+: t.history.output.drop c.start := by
    rw [drop]
    exact tracks.behind.trans (List.prefix_append _ _)
  have meets : c.lost = false → s.attach = some k → live ++ chunk = t.history.output.drop c.start := by
    intro alive here
    have caught := tracks.attached alive here
    rw [idle,List.append_nil] at caught
    rw [drop,← caught]
  refine ⟨?_,?_,told.readied,live,said,behind,?_,?_⟩
  · rw [output,List.length_append]
    exact Nat.le_add_right_of_le told.start
  · rw [output,List.take_append_of_le_length told.start]
    exact told.snapshot
  · intro alive
    rw [pending]
    split
    · rename_i here
      exact ⟨[],(List.append_nil _).trans (meets alive here)⟩
    · rw [List.append_nil]
      exact behind
  · intro alive here
    rw [attach] at here
    rw [pending,if_pos here]
    exact meets alive here

theorem followsRead {s : Session size} (follows : Follows s) (input : Input) (idle : ∀ k, s.reader.pending k = []) :
    Follows {s.record input.chunk with reader := match s.attach with
      | none => afterRead input.err
      | some sink => .deliver sink input.chunk input.err} := by
  refine ⟨RingBuffer.holdsWrite follows.ring _,follows.attached,?_,?_⟩
  · intro k chunk err here
    cases attached : s.attach with
    | none =>
      simp only [attached] at here
      exact absurd here afterAimed
    | some sink =>
      simp only [attached] at here
      cases here
      exact Nat.lt_of_succ_le (Nat.le_of_eq (follows.attached _ attached))
  · intro k c last found
    refine toldRead (follows.told k c last found) (idle k) rfl rfl ?_
    cases attached : s.attach with
    | none => exact afterPending _ _
    | some sink => simp [Reader.pending]

/- The loop hands a chunk on: to the newest client only behind its replay. -/
theorem toldDeliver {s t : Session size} {k : Nat} {c : Client} {chunk : Bytes} {err : Option Bool} (told : Told s k c)
    (here : s.reader = .deliver k chunk err) (replayed : c.point.fresh = false ∨ c.lost = true)
    (output : t.history.output = s.history.output) (attach : t.attach = s.attach) (pending : t.reader.pending k = []) :
    Told t k (c.send (.binary chunk)) := by
  obtain ⟨live,said,tracks⟩ := told.heard
  have hand : s.reader.pending k = chunk := by rw [here,Reader.pending,if_pos rfl]
  cases lost : c.lost with
  | true =>
    have same : c.send (.binary chunk) = c := by rw [Client.send,if_pos lost]
    rw [same]
    refine ⟨by rw [output]; exact told.start,by rw [output]; exact told.snapshot,told.readied,live,said,?_,?_,?_⟩
    · rw [output]
      exact tracks.behind
    · exact fun alive => absurd lost (by simp [alive])
    · exact fun alive => absurd lost (by simp [alive])
  | false =>
    have finished : c.point.fresh = false := replayed.resolve_right (by simp [lost])
    have later : c.point ≠ .ready := fun same => by simp [same,ClientPoint.fresh] at finished
    have ready := told.readied later lost
    have same : c.send (.binary chunk) = {c with frames := c.frames ++ [.binary chunk]} := by rw [Client.send,if_neg (by simp [lost])]
    have ahead := tracks.ahead lost
    rw [hand] at ahead
    rw [same]
    refine ⟨by rw [output]; exact told.start,by rw [output]; exact told.snapshot,fun _ _ => List.mem_append_left _ ready,
      live ++ chunk,⟨fun fresh => absurd finished (by simp [fresh]),?_⟩,?_,?_,?_⟩
    · intro _
      rcases said.told finished with told | ⟨gone,_⟩
      · rw [receivedBinary ready,told,List.append_assoc]
        exact .inl rfl
      · rw [lost] at gone
        contradiction
    · rw [output]
      exact ahead
    · intro _
      rw [output,pending,List.append_nil]
      exact ahead
    · intro _ attached
      rw [output,pending,List.append_nil,← hand]
      exact tracks.attached lost (attach ▸ attached)

/- The loop writes no output to the newest client before that one has its replay. -/
def Patient (s : Session size) : Move → Prop
  | .reader _ _ =>
    match s.reader with
    | .deliver sink _ _ =>
      sink + 1 = s.clients.length → (s.clients[sink]?).all (fun c => !c.point.fresh || c.lost) = true
    | _ => True
  | _ => True

theorem sentAt {s : Session size} {sink k : Nat} {f : Frame} {c : Client} (found : (s.deliver sink f).clients[k]? = some c) :
    ∃ d, s.clients[k]? = some d ∧ c = if sink = k then d.send f else d := by
  have modified : (s.deliver sink f).clients[k]? = (s.clients[k]?).map (if sink = k then (·.send f) else id) := by
    show (s.clients.modify sink _)[k]? = _
    rw [List.getElem?_modify]
    split <;> rfl
  rw [modified] at found
  obtain ⟨d,here,same⟩ := Option.map_eq_some_iff.mp found
  refine ⟨d,here,?_⟩
  rw [← same]
  split <;> rfl

theorem followsDeliver {s : Session size} (follows : Follows s) {sink : Nat} {chunk : Bytes} {err : Option Bool}
    (here : s.reader = .deliver sink chunk err)
    (patient : sink + 1 = s.clients.length → (s.clients[sink]?).all (fun c => !c.point.fresh || c.lost) = true) :
    Follows {s.deliver sink (.binary chunk) with reader := afterRead err} := by
  have length : (s.deliver sink (.binary chunk)).clients.length = s.clients.length := List.length_modify _ _ _
  refine ⟨follows.ring,?_,?_,?_⟩
  · intro k attached
    rw [length]
    exact follows.attached k attached
  · intro k more other wrong
    exact absurd wrong afterAimed
  · intro k c last found
    have last : k + 1 = s.clients.length := last.trans length
    obtain ⟨d,before,rfl⟩ := sentAt (s := s) found
    have told := follows.told k d last before
    split
    · rename_i same
      subst same
      have replayed := patient last
      rw [before] at replayed
      refine toldDeliver told here ?_ rfl rfl (afterPending _ _)
      simpa using replayed
    · rename_i other
      have none : s.reader.pending k = [] := by rw [here,Reader.pending,if_neg other]
      exact toldBeside (s := s) ((afterPending _ _).trans none.symm) rfl (.inl rfl) told

theorem followsNotice {s : Session size} (follows : Follows s) (sink : Nat) (type : Control) {r : Reader}
    (before : ∀ k, s.reader.pending k = []) (after : ∀ k, r.pending k = [])
    (aimed : ∀ k chunk err, r ≠ .deliver k chunk err) : Follows {s.deliver sink (.control type) with reader := r} := by
  have length : (s.deliver sink (.control type)).clients.length = s.clients.length := List.length_modify _ _ _
  refine ⟨follows.ring,?_,?_,?_⟩
  · intro k attached
    rw [length]
    exact follows.attached k attached
  · intro k chunk err here
    exact absurd here (aimed k chunk err)
  · intro k c last found
    obtain ⟨d,here,rfl⟩ := sentAt (s := s) found
    have told := follows.told k d (last.trans length) here
    refine toldBeside (s := s) ((after k).trans (before k).symm) rfl (.inl rfl) ?_
    split
    · exact toldControl told type
    · exact told

theorem followsAdvance {s : Session size} (follows : Follows s) (input : Input) (fails : Bool)
    (patient : Patient s (.reader input fails)) : Follows (s.advance input fails) := by
  unfold Session.advance
  split
  · rename_i here
    split
    · exact followsReader follows (fun k => by rw [afterPending,here]; rfl) (fun k chunk err wrong => absurd wrong afterAimed)
    · exact followsRead follows input (fun k => by rw [here]; rfl)
  · rename_i sink chunk err here
    rw [Patient,here] at patient
    exact followsDeliver follows here patient
  · rename_i eof here
    refine followsReader follows ?_ ?_
    · intro k
      rw [here]
      cases s.attach with
      | none => rfl
      | some sink => cases eof <;> rfl
    · intro k chunk err wrong
      cases attached : s.attach with
      | none => simp [attached] at wrong
      | some sink => cases eof <;> simp [attached] at wrong
  · rename_i sink here
    exact followsNotice follows sink .error (fun k => by rw [here]; rfl) (fun k => rfl) (fun k chunk err wrong => (nomatch wrong))
  · rename_i sink here
    exact followsNotice follows sink .exit (fun k => by rw [here]; rfl) (fun k => rfl) (fun k chunk err wrong => (nomatch wrong))
  · rename_i d here
    have aside := destroyAside s .reader fails d
    refine followsReader (followsAside aside follows) ?_ (fun k chunk err wrong => (nomatch wrong))
    intro k
    rw [aside.reader,here]
    rfl

theorem followsStep {s t : Session size} {m : Move} (follows : Follows s) (patient : Patient s m) (moved : step s m = some t) :
    Follows t := by
  cases m with
  | connect fails =>
    cases moved
    exact followsConnect follows fails
  | client i message fails =>
    obtain ⟨c,found,rfl⟩ := Option.map_eq_some_iff.mp moved
    exact followsServe follows found message fails
  | lose i =>
    obtain ⟨c,found,rfl⟩ := Option.map_eq_some_iff.mp moved
    exact followsSet follows found toldLost
  | kill =>
    cases moved
    have aside : Aside s {s with kills := s.kills ++ [.lock]} := ⟨rfl,rfl,rfl,rfl,.inl rfl⟩
    exact followsAside aside follows
  | killer i fails =>
    obtain ⟨d,_,rfl⟩ := Option.map_eq_some_iff.mp moved
    obtain ⟨ring,clients,reader,output,attach⟩ := destroyAside s .kill fails d
    exact followsAside ⟨ring,clients,reader,output,attach⟩ follows
  | timer i fails =>
    obtain ⟨t,_,rfl⟩ := Option.map_eq_some_iff.mp moved
    exact followsAside (fireAside s i t fails) follows
  | reader input fails =>
    cases moved
    exact followsAdvance follows input fails patient

theorem followsCreate (n : Nat) : Follows (create n) := by
  refine ⟨RingBuffer.holdsNew 0 (ringSizePos n),?_,?_,?_⟩
  · intro k wrong
    contradiction
  · intro k chunk err wrong
    contradiction
  · intro k c last
    contradiction

/- What the client that attached last got behind its ready frame is the replay and then the output from
its Attach on, up to some point: a part of the output without a gap. -/
def Resumed (s : Session size) : Prop :=
  ∀ k c, k + 1 = s.clients.length → s.clients[k]? = some c → received c.frames ≠ [] →
    ∃ upTo, c.start ≤ upTo ∧ upTo ≤ s.history.output.length ∧
      received c.frames = c.snapshot ++ (s.history.output.take upTo).drop c.start ∧
      received c.frames <:+ s.history.output.take upTo

theorem followsResumed {s : Session size} (follows : Follows s) : Resumed s := by
  intro k c last found some
  obtain ⟨start,snapshot,_,live,said,tracks⟩ := follows.told k c last found
  have told : received c.frames = c.snapshot ++ live := by
    cases fresh : c.point.fresh with
    | true => exact absurd (said.silent fresh).1 some
    | false => exact (said.told fresh).resolve_right (fun lost => some lost.2)
  have length := tracks.behind.length_le
  rw [List.length_drop] at length
  have between : (s.history.output.take (c.start + live.length)).drop c.start = live := by
    rw [List.drop_take,Nat.add_sub_cancel_left]
    exact (List.prefix_iff_eq_take.mp tracks.behind).symm
  have whole : s.history.output.take (c.start + live.length) = s.history.output.take c.start ++ live := by
    rw [List.take_add,← List.prefix_iff_eq_take.mp tracks.behind]
  refine ⟨c.start + live.length,Nat.le_add_right _ _,by omega,?_,?_⟩
  · rw [between,told]
  · rw [told,whole,snapshot]
    have last : (s.history.output.take c.start).rtake size <:+ _ := RingBuffer.rtakeSuffix _
    obtain ⟨older,split⟩ := last
    refine ⟨older,?_⟩
    rw [← List.append_assoc,split]

/- Wherever an Attach falls, the client it is for gets the stream in order as long as the loop writes
nothing to it before its replay. -/
theorem resumeOrdered {n : Nat} {moves : List Move} {s : Session (ringSize n)} (patient : Runs.Guided step Patient (create n) moves)
    (ran : Runs.run step (create n) moves = some s) : Resumed s :=
  followsResumed (Runs.runGuided followsStep (followsCreate n) patient ran)

/- "a" is printed before the client attaches, "b" before its replay is written. -/
def resume : List Move :=
  [.reader ⟨[97],none⟩ false,.connect false,.client 0 .ping false,.reader ⟨[98],none⟩ false,.client 0 .ping false,.reader {} false]

def overtaken : List Move :=
  [.reader ⟨[97],none⟩ false,.connect false,.client 0 .ping false,.reader ⟨[98],none⟩ false,.reader {} false,.client 0 .ping false]

def attachedTo (ring : RingBuffer UInt8 size) (frames : List Frame) : Session size :=
  {opened ((ring.write [97]).write [98]) with
    attach := some 0
    row := .active
    clients := [⟨.pump,(ring.write [97]).snapshot,frames,false,1⟩]
    history := ⟨[97,98],1,1,none⟩}

theorem oneByte (n : Nat) : ((newByteRing n).write [97]).snapshot = [97] := by
  have holds := RingBuffer.holdsWrite (RingBuffer.holdsNew (0 : UInt8) (ringSizePos n)) [97]
  rw [List.nil_append] at holds
  exact holds.newest.trans (RingBuffer.rtakeAll (ringSizePos n))

theorem resumeRun {ring : RingBuffer UInt8 size} (printed : (ring.write [97]).snapshot = [97]) :
    Runs.run step (opened ring) resume =
      some (attachedTo ring [.control .ready,.binary (ring.write [97]).snapshot,.binary [98]]) := by
  simp [resume,Runs.run,step,Session.advance,Session.record,Session.attachSink,Session.attachOpen,Session.newClient,
    Session.cancelIdle,Session.persist,Session.serve,Session.setClient,Session.deliver,Client.send,afterRead,stopAt,opened,
    attachedTo,printed]

theorem overtakenRun {ring : RingBuffer UInt8 size} (printed : (ring.write [97]).snapshot = [97]) :
    Runs.run step (opened ring) overtaken =
      some (attachedTo ring [.control .ready,.binary [98],.binary (ring.write [97]).snapshot]) := by
  simp [overtaken,Runs.run,step,Session.advance,Session.record,Session.attachSink,Session.attachOpen,Session.newClient,
    Session.cancelIdle,Session.persist,Session.serve,Session.setClient,Session.deliver,Client.send,afterRead,stopAt,opened,
    attachedTo,printed]

theorem resumePatient {ring : RingBuffer UInt8 size} : Runs.Guided step Patient (opened ring) resume := by
  simp [resume,Runs.Guided,Patient,step,Session.advance,Session.record,Session.attachSink,Session.attachOpen,Session.newClient,
    Session.cancelIdle,Session.persist,Session.serve,Session.setClient,Session.deliver,Client.send,afterRead,stopAt,opened,
    ClientPoint.fresh]

theorem resumeOrderedReplay : ∃ s, Runs.run step (create sessionRingBytes) resume = some s ∧ Resumed s := by
  have ran := resumeRun (oneByte sessionRingBytes)
  exact ⟨_,ran,resumeOrdered resumePatient ran⟩

theorem liveOvertakes : ¬∀ moves s, Runs.run step (create sessionRingBytes) moves = some s → Resumed s := by
  intro all
  have printed := oneByte sessionRingBytes
  have resumed := all _ _ (overtakenRun printed)
  have got : received [.control .ready,.binary [98],.binary ((newByteRing sessionRingBytes).write [97]).snapshot] = [98,97] := by
    rw [printed]
    rfl
  obtain ⟨upTo,_,most,_,suffix⟩ := resumed 0 _ rfl rfl (by rw [show _ = _ from got]; decide)
  rw [show _ = _ from got] at suffix
  have length := suffix.length_le
  rw [List.length_take] at length
  have whole : upTo = 2 := by
    have two : ([97,98] : Bytes).length = 2 := rfl
    have long : [98,97].length ≤ min upTo ([97,98] : Bytes).length := length
    have short : upTo ≤ ([97,98] : Bytes).length := most
    simp at long short
    omega
  subst whole
  have same := suffix.eq_of_length rfl
  revert same
  decide

end ContainerWS.CloudShell
