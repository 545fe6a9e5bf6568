import ContainerWS.RingBuffer
import ContainerWS.Runs

/-! A session of modules/cloudshell/sessions.go with everything that runs beside it: the
read loop, one HandleTerminalWS for each client that attached, idle timers and calls of
Destroy. A move is one section under `ms.mu`, one row write or one frame of one of them.
What is typed into the shell, sizes and times decide nothing and are left out. -/
namespace ContainerWS.CloudShell

abbrev Bytes := List UInt8

def sessionRingBytes : Nat := 512 * 1024

def ringSize (n : Nat) : Nat := if n < 1024 then 1024 else n

theorem ringSizePos (n : Nat) : 0 < ringSize n := by
  unfold ringSize
  split <;> omega

def newByteRing (n : Nat) : RingBuffer UInt8 (ringSize n) := RingBuffer.new 0 (ringSize n) (ringSizePos n)

inductive ShellSessionStatus where
  | active
  | detached
  | closed
  deriving DecidableEq, Repr

inductive Control where
  | ready
  | error
  | exit
  | pong
  deriving DecidableEq, Repr

inductive Frame where
  | control (type : Control)
  | binary (bytes : Bytes)
  deriving DecidableEq, Repr

/- A call of Destroy. Behind its lock it knows which change of the session it has made. -/
inductive Destroying where
  | lock
  | remove (change : Nat)
  | persist (change : Nat)
  | done
  deriving DecidableEq, Repr

inductive ClientPoint where
  | ready
  | replay
  | pump
  | destroy (d : Destroying)
  | killed
  | detach
  | persist (change : Nat)
  | schedule
  | done
  deriving DecidableEq, Repr

/- HandleTerminalWS behind its Attach; its sink is the place in the list of clients. `start`
is how much the shell had printed when it attached and is read by nothing. -/
structure Client where
  point : ClientPoint
  snapshot : Bytes
  frames : List Frame
  lost : Bool
  start : Nat
  deriving DecidableEq, Repr

inductive TimerPoint where
  | sleeping
  | stopped
  | get
  | check
  | destroy (d : Destroying)
  | done
  deriving DecidableEq, Repr

/- An idle timer and its callback. How many clients had attached when it was scheduled and
when its callback saw none is read by nothing. -/
structure Timer where
  point : TimerPoint
  born : Nat
  checked : Option Nat
  deriving DecidableEq, Repr

inductive Reader where
  | read
  | deliver (sink : Nat) (chunk : Bytes) (err : Option Bool)
  | last (eof : Bool)
  | failed (sink : Nat)
  | closing (sink : Nat)
  | destroy (d : Destroying)
  deriving DecidableEq, Repr

inductive Cause where
  | reader
  | kill
  | client (sink : Nat)
  | timer (index : Nat)
  deriving DecidableEq, Repr

/- Who closed the session, which client it had and how many had attached. -/
structure Ending where
  cause : Cause
  client : Option Nat
  attaches : Nat
  deriving DecidableEq, Repr

/- Records written by the moves and read by none: what the shell has printed, how many changes
the session went through, which of them was written to the row last, and how it ended. -/
structure History where
  output : Bytes
  changes : Nat
  landed : Nat
  ended : Option Ending
  deriving DecidableEq, Repr

structure Session (size : Nat) where
  closed : Bool
  attach : Option Nat
  idleTimer : Option Nat
  ring : RingBuffer UInt8 size
  registered : Bool
  row : ShellSessionStatus
  clients : List Client
  timers : List Timer
  kills : List Destroying
  reader : Reader
  history : History

variable {size : Nat}

/- `create`: the row says active before the first client has attached. -/
def opened (ring : RingBuffer UInt8 size) : Session size :=
  ⟨false,none,none,ring,true,.active,[],[],[],.read,⟨[],0,0,none⟩⟩

def create (n : Nat) : Session (ringSize n) := opened (newByteRing n)

/- A frame on a broken connection is gone. -/
def Client.send (c : Client) (f : Frame) : Client := if c.lost then c else {c with frames := c.frames ++ [f]}

def Session.setClient (s : Session size) (i : Nat) (c : Client) : Session size := {s with clients := s.clients.set i c}

def Session.setTimer (s : Session size) (i : Nat) (t : Timer) : Session size := {s with timers := s.timers.set i t}

/- `persistShellSessionStatus`: a failed write is only logged. -/
def Session.persist (s : Session size) (fails : Bool) (change : Nat) (status : ShellSessionStatus) : Session size :=
  let history := {s.history with landed := if fails then s.history.landed else change}
  {s with row := if fails then s.row else status, history := history}

def stop (t : Timer) : Timer := if t.point = .sleeping then {t with point := .stopped} else t

def stopAt (timers : List Timer) : Option Nat → List Timer
  | none => timers
  | some i => timers.modify i stop

def Session.cancelIdle (s : Session size) : Session size := {s with idleTimer := none, timers := stopAt s.timers s.idleTimer}

def Session.scheduleIdle (s : Session size) : Session size :=
  let t := s.cancelIdle
  {t with idleTimer := some t.timers.length, timers := t.timers ++ [⟨.sleeping,t.clients.length,none⟩]}

def Session.newClient (s : Session size) : Client := ⟨.ready,s.ring.snapshot,[],false,s.history.output.length⟩

/- `Attach` writes the row before it lets go of the lock. -/
def Session.attachOpen (s : Session size) (fails : Bool) : Session size :=
  let history := {s.history with changes := s.history.changes+1}
  {s.cancelIdle with attach := some s.clients.length, clients := s.clients ++ [s.newClient], history := history}.persist fails
    (s.history.changes+1) .active

def Session.attachSink (s : Session size) (fails : Bool) : Session size := if s.closed then s else s.attachOpen fails

/- The section of `Detach`. -/
def Session.detach (s : Session size) (i : Nat) : Session size × ClientPoint :=
  if s.attach = some i then
    ({s with attach := none, history := {s.history with changes := s.history.changes+1}},.persist (s.history.changes+1))
  else (s,.done)

def Session.destroyLocked (s : Session size) (cause : Cause) : Session size × Destroying :=
  if s.closed then (s,.done)
  else
    let t := s.cancelIdle
    let ending : Ending := ⟨cause,t.attach,t.clients.length⟩
    let history := {t.history with changes := t.history.changes+1, ended := some ending}
    ({t with closed := true, attach := none, history := history},.remove history.changes)

def Session.destroy (s : Session size) (cause : Cause) (fails : Bool) : Destroying → Session size × Destroying
  | .lock => s.destroyLocked cause
  | .remove change => ({s with registered := false},.persist change)
  | .persist change => (s.persist fails change .closed,.done)
  | .done => (s,.done)

inductive Message where
  | ping
  | kill
  | leave
  deriving DecidableEq, Repr

/- The next step of the handler of one client. -/
def Session.serve (s : Session size) (i : Nat) (c : Client) (message : Message) (fails : Bool) : Session size :=
  match c.point with
  | .ready => s.setClient i {c.send (.control .ready) with point := .replay}
  | .replay => s.setClient i {(if c.snapshot = [] then c else c.send (.binary c.snapshot)) with point := .pump}
  | .pump =>
    match message with
    | .ping => s.setClient i (c.send (.control .pong))
    | .kill => s.setClient i {c with point := .destroy .lock}
    | .leave => s.setClient i {c with point := .detach}
  | .destroy .done => s.setClient i {c with point := .killed}
  | .destroy d => (s.destroy (.client i) fails d).1.setClient i {c with point := .destroy (s.destroy (.client i) fails d).2}
  | .killed => s.setClient i {c.send (.control .exit) with point := .detach}
  | .detach => (s.detach i).1.setClient i {c with point := (s.detach i).2}
  | .persist change => (s.persist fails change .detached).setClient i {c with point := .schedule}
  | .schedule => s.scheduleIdle.setClient i {c with point := .done}
  | .done => s

/- The runtime lets a timer fire, then its callback goes on. A stopped timer does neither. -/
def Session.fire (s : Session size) (i : Nat) (t : Timer) (fails : Bool) : Session size :=
  match t.point with
  | .sleeping => s.setTimer i {t with point := .get}
  | .get => s.setTimer i {t with point := if s.registered then .check else .done}
  | .check =>
    match s.attach with
    | some _ => s.setTimer i {t with point := .done}
    | none => s.setTimer i {t with point := .destroy .lock, checked := some s.clients.length}
  | .destroy d =>
    let u := (s.destroy (.timer i) fails d).1
    u.setTimer i {t with point := .destroy (s.destroy (.timer i) fails d).2}
  | .stopped => s
  | .done => s

/- What a read of the terminal returns: bytes, and whether it ended, by EOF or otherwise. -/
structure Input where
  chunk : Bytes := []
  err : Option Bool := none
  deriving DecidableEq, Repr

def afterRead : Option Bool → Reader
  | none => .read
  | some eof => .last eof

def Session.deliver (s : Session size) (sink : Nat) (f : Frame) : Session size :=
  {s with clients := s.clients.modify sink (·.send f)}

def Session.record (s : Session size) (chunk : Bytes) : Session size :=
  {s with ring := s.ring.write chunk, history := {s.history with output := s.history.output ++ chunk}}

/- The next step of `readLoop`. -/
def Session.advance (s : Session size) (input : Input) (fails : Bool) : Session size :=
  match s.reader with
  | .read =>
    if input.chunk = [] then {s with reader := afterRead input.err}
    else {s.record input.chunk with reader := match s.attach with
      | none => afterRead input.err
      | some sink => .deliver sink input.chunk input.err}
  | .deliver sink chunk err => {s.deliver sink (.binary chunk) with reader := afterRead err}
  | .last eof => {s with reader := match s.attach with
      | none => .destroy .lock
      | some sink => if eof then .closing sink else .failed sink}
  | .failed sink => {s.deliver sink (.control .error) with reader := .closing sink}
  | .closing sink => {s.deliver sink (.control .exit) with reader := .destroy .lock}
  | .destroy d => {(s.destroy .reader fails d).1 with reader := .destroy (s.destroy .reader fails d).2}

inductive Move where
  | connect (fails : Bool)
  | client (index : Nat) (message : Message) (fails : Bool)
  | lose (index : Nat)
  | kill
  | killer (index : Nat) (fails : Bool)
  | timer (index : Nat) (fails : Bool)
  | reader (input : Input) (fails : Bool)
  deriving DecidableEq, Repr

def step (s : Session size) : Move → Option (Session size)
  | .connect fails => some (s.attachSink fails)
  | .client i message fails => (s.clients[i]?).map (fun c => s.serve i c message fails)
  | .lose i => (s.clients[i]?).map (fun c => s.setClient i {c with lost := true})
  | .kill => some {s with kills := s.kills ++ [.lock]}
  | .killer i fails => (s.kills[i]?).map (fun d =>
      {(s.destroy .kill fails d).1 with kills := s.kills.set i (s.destroy .kill fails d).2})
  | .timer i fails => (s.timers[i]?).map (fun t => s.fire i t fails)
  | .reader input fails => some (s.advance input fails)

end ContainerWS.CloudShell
