import ContainerWS.Runs

/-! modules/docker/containers/exec_ws.go: a console in a container, from the attached exec on. The
handler and the three goroutines that it starts move in any order, and so do the process, which
may keep silent and read nothing, and the client. Every write to the websocket is one critical
section of `writeMu`; of the texts that are sent only their kinds are kept. -/
namespace ContainerWS.Docker

abbrev Payload := List UInt8

structure ExecWSControl where
  type : String
  cols : Nat
  rows : Nat
  data : String
  deriving DecidableEq, Repr

/- A message of the client; a text is a control where it can be read as one. -/
inductive ClientMsg where
  | binary (msg : Payload)
  | text (msg : Payload) (ctrl : Option ExecWSControl)
  deriving DecidableEq, Repr

inductive ExecWSOut where
  | ready
  | binary (b : Payload)
  | error
  | exit
  | pong
  deriving DecidableEq, Repr

/- Where the handler stands. -/
inductive Handler where
  | ready
  | startDocker
  | startSocket
  | loop
  | write (b : Payload)
  | resize
  | pong
  | kill
  -- shutdown
  | cancel
  | closeWrite
  | safeClose
  | waitDocker
  | closeWriter
  | waitWriter
  -- the Docker reader has ended first
  | endWriter
  | endWait
  | endClose
  | returned
  deriving DecidableEq, Repr

/- Docker TTY to websocket. -/
inductive DockerReader where
  | unborn
  | read
  | send (b : Payload)
  | check
  | ended (eof : Bool)
  | sendError
  | sendExit
  | done
  deriving DecidableEq, Repr

inductive SocketReader where
  | unborn
  | read
  | deliver (m : ClientMsg)
  | done
  deriving DecidableEq, Repr

inductive Writer where
  | receive
  | lock (m : ExecWSOut)
  | writing (m : ExecWSOut)
  | cancel
  | closeWrite
  | done
  deriving DecidableEq, Repr

/- What the exec's connection delivers: more to come, the end, or a failure. -/
inductive Stream where
  | running
  | eof
  | failed
  deriving DecidableEq, Repr

structure Session where
  handler : Handler
  docker : DockerReader
  socket : SocketReader
  writer : Writer
  cancelled : Bool
  outCh : List ExecWSOut
  outClosed : Bool
  inCh : List ClientMsg
  writeDead : Bool
  connClosed : Bool
  clientGone : Bool
  output : List Payload
  stream : Stream
  -- writes that the process has not read
  unread : Nat
  writeClosed : Bool
  hijackedClosed : Bool
  -- a send on a closed channel
  panicked : Bool
  deriving DecidableEq, Repr

inductive Pick where
  | go
  | context
  | send
  | docker
  | inbox
  | fail
  | received (m : ClientMsg)
  deriving DecidableEq, Repr

inductive Move where
  | handler (k : Pick)
  | docker (k : Pick)
  | socket (k : Pick)
  | writer (k : Pick)
  | output (b : Payload)
  | consume
  | finish (stream : Stream)
  | leave
  deriving DecidableEq, Repr

def outCap : Nat := 64

def inCap : Nat := 16

/- `sendJSON` and `sendBinary`: the context or a place in the channel, whichever is picked. -/
def Session.offer (s : Session) (m : ExecWSOut) : Pick → Option Session
  | .context => if s.cancelled then some s else none
  | .send =>
    if s.outClosed then some { s with panicked := true }
    else if s.outCh.length < outCap then some { s with outCh := s.outCh ++ [m] }
    else none
  | _ => none

/- What the handler does with a message. -/
def dispatch : ClientMsg → Handler
  | .binary msg => if 0 < msg.length then .write msg else .loop
  | .text msg none => .write msg
  | .text _ (some ctrl) =>
    if ctrl.type = "resize" then (if 0 < ctrl.cols ∧ 0 < ctrl.rows then .resize else .loop)
    else if ctrl.type = "input" then (if ctrl.data ≠ "" then .write ctrl.data.toByteArray.data.toList else .loop)
    else if ctrl.type = "ping" then .pong
    else if ctrl.type = "kill" then .kill
    else .loop

/- Where the writer has failed, the connection is left as it is. -/
def Session.close (s : Session) : Session := { s with connClosed := s.connClosed || !s.writeDead, writeDead := true }

def Writer.holds : Writer → Bool
  | .writing _ => true
  | _ => false

/- The deferred calls. -/
def Session.leave (s : Session) : Session :=
  { s with handler := .returned, outClosed := true, hijackedClosed := true, cancelled := true }

section
variable (room : Nat)

/- A write to the exec ends where the process reads or has ended, or the write side is closed. -/
def Session.taken (s : Session) : Bool := s.unread < room || s.stream ≠ .running

def Session.handlerStep (s : Session) (k : Pick) : Option Session :=
  match s.handler with
  | .ready => (s.offer .ready k).map (fun t => { t with handler := .startDocker })
  | .startDocker => some { s with docker := .read, handler := .startSocket }
  | .startSocket => some { s with socket := .read, handler := .loop }
  | .loop =>
    match k with
    | .docker => if s.docker = .done then some { s with handler := .endWriter } else none
    | .context => if s.cancelled then some { s with handler := .cancel } else none
    | .inbox =>
      match s.inCh with
      | m :: rest => some { s with inCh := rest, handler := dispatch m }
      | [] => if s.socket = .done then some { s with handler := .cancel } else none
    | _ => none
  | .write _ =>
    match k with
    | .go => if s.taken room ∧ s.writeClosed = false then some { s with unread := s.unread+1, handler := .loop } else none
    | .fail => if s.writeClosed ∨ s.stream ≠ .running then some { s with handler := .cancel } else none
    | _ => none
  | .resize => some { s with handler := .loop }
  | .pong => (s.offer .pong k).map (fun t => { t with handler := .loop })
  | .kill => (s.offer .exit k).map (fun t => { t with handler := .cancel })
  | .cancel => some { s with cancelled := true, handler := .closeWrite }
  | .closeWrite => some { s with writeClosed := true, handler := .safeClose }
  | .safeClose => if s.writer.holds then none else some { s.close with handler := .waitDocker }
  | .waitDocker => if s.docker = .done then some { s with handler := .closeWriter } else none
  | .closeWriter => some { s with outClosed := true, handler := .waitWriter }
  | .waitWriter => if s.writer = .done then some s.leave else none
  | .endWriter => some { s with outClosed := true, handler := .endWait }
  | .endWait => if s.writer = .done then some { s with handler := .endClose } else none
  | .endClose => if s.writer.holds then none else some s.close.leave
  | .returned => none

def Session.dockerStep (s : Session) (k : Pick) : Option Session :=
  match s.docker with
  | .unborn => none
  | .read =>
    match s.output with
    | b :: rest => some { s with output := rest, docker := if 0 < b.length then .send b else .check }
    | [] =>
      if s.hijackedClosed then some { s with docker := .ended false }
      else match s.stream with
        | .running => none
        | .eof => some { s with docker := .ended true }
        | .failed => some { s with docker := .ended false }
  | .send b => (s.offer (.binary b) k).map (fun t => { t with docker := .check })
  | .check => some { s with docker := if s.cancelled then .done else .read }
  | .ended eof => some { s with docker := if eof = false ∧ s.cancelled = false then .sendError else .sendExit }
  | .sendError => (s.offer .error k).map (fun t => { t with docker := .sendExit })
  | .sendExit => (s.offer .exit k).map (fun t => { t with docker := .done })
  | .done => none

/- Messages that have arrived are read also when the client is gone; the deadline may pass at any time. -/
def Session.socketStep (s : Session) (k : Pick) : Option Session :=
  match s.socket with
  | .unborn => none
  | .read =>
    match k with
    | .received m => if s.connClosed then none else some { s with socket := .deliver m }
    | .fail => some { s with socket := .done }
    | _ => none
  | .deliver m =>
    match k with
    | .send => if s.inCh.length < inCap then some { s with inCh := s.inCh ++ [m], socket := .read } else none
    | .context => if s.cancelled then some { s with socket := .done } else none
    | _ => none
  | .done => none

def Session.writerStep (s : Session) (k : Pick) : Option Session :=
  match s.writer with
  | .receive =>
    match s.outCh with
    | m :: rest => some { s with outCh := rest, writer := .lock m }
    | [] => if s.outClosed then some { s with writer := .done } else none
  | .lock m => some { s with writer := if s.writeDead then .receive else .writing m }
  | .writing _ =>
    match k with
    | .go => if s.connClosed then none else some { s with writer := .receive }
    | .fail => if s.clientGone ∨ s.connClosed then some { s with writeDead := true, writer := .cancel } else none
    | _ => none
  | .cancel => some { s with cancelled := true, writer := .closeWrite }
  | .closeWrite => some { s with writeClosed := true, writer := .done }
  | .done => none

def Session.step (s : Session) : Move → Option Session
  | .handler k => s.handlerStep room k
  | .docker k => s.dockerStep k
  | .socket k => s.socketStep k
  | .writer k => s.writerStep k
  | .output b => if s.stream = .running then some { s with output := s.output ++ [b] } else none
  | .consume => if s.stream = .running ∧ 0 < s.unread then some { s with unread := s.unread-1 } else none
  | .finish stream => if s.stream = .running ∧ stream ≠ .running then some { s with stream := stream } else none
  | .leave => some { s with clientGone := true }

end

/- The exec is attached and the writer has been started. -/
def attached : Session where
  handler := .ready
  docker := .unborn
  socket := .unborn
  writer := .receive
  cancelled := false
  outCh := []
  outClosed := false
  inCh := []
  writeDead := false
  connClosed := false
  clientGone := false
  output := []
  stream := .running
  unread := 0
  writeClosed := false
  hijackedClosed := false
  panicked := false

end ContainerWS.Docker
