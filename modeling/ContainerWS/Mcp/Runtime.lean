import ContainerWS.GoStrings
import ContainerWS.Interleaving

/-! modules/mcp/runtime.go: the standalone listener, as the calls that start and stop it and the
goroutines that listen. Each critical section is a step, as is each call into the web framework. -/
namespace ContainerWS.Mcp
open GoStrings Interleaving

/- A fiber app. A shutdown closes the listeners it has: the socket is one from Serve on, not yet when it is
only bound. -/
inductive Listener where
  | created
  | bound
  | serving
  | closed
  deriving DecidableEq, Repr

structure Options where
  enabled : Bool
  address : String
  port : Int
  deriving DecidableEq, Repr

/- `standaloneRuntime`, with all apps that have been made, by their numbers, and the options. -/
structure StandaloneRuntime where
  app : Option Nat
  addr : String
  lastErr : String
  apps : List Listener
  options : Options
  deriving DecidableEq, Repr

def StandaloneRuntime.setRunning (r : StandaloneRuntime) (app : Nat) (addr : String) : StandaloneRuntime :=
  { r with app := some app, addr := addr, lastErr := "" }

def StandaloneRuntime.setError (r : StandaloneRuntime) (err : String) : StandaloneRuntime := { r with lastErr := err }

def StandaloneRuntime.clear (r : StandaloneRuntime) : StandaloneRuntime := { r with app := none, addr := "" }

def StandaloneRuntime.become (r : StandaloneRuntime) (app : Nat) (l : Listener) : StandaloneRuntime :=
  { r with apps := r.apps.set app l }

/- `app.ShutdownWithContext`. -/
def StandaloneRuntime.Shutdown (r : StandaloneRuntime) (app : Nat) : StandaloneRuntime :=
  if r.apps[app]? = some .serving then r.become app .closed else r

inductive Row where
  | enabled
  | address
  | port
  deriving DecidableEq, Repr

/- `models.SetOption` of one row. -/
def SetOption (o new : Options) : Row → Options
  | .enabled => { o with enabled := new.enabled }
  | .address => { o with address := new.address }
  | .port => { o with port := new.port }

def filled (address : String) : String := if trimSpace address = "" then "0.0.0.0" else trimSpace address

def JoinHostPort (host : String) (port : Int) : String :=
  (if ':' ∈ host.toList then "[" ++ host ++ "]" else host) ++ ":" ++ toString port

inductive Request where
  | apply (enabled : Bool) (address : String) (port : Int)
  | restart (address : String) (port : Int)
  | stop
  deriving DecidableEq, Repr

/- How far a call or a goroutine is; `applied` tells whether ApplyStandaloneConfig has made the call. -/
inductive Call where
  | asked (r : Request)
  | storing (o : Options) (row : Row)
  | stop (applied : Bool)
  | stopping (app : Nat) (applied : Bool)
  | restart (address : String) (port : Int) (applied : Bool)
  | replacing (app : Nat) (address : String) (port : Int) (applied : Bool)
  | making (address : String) (port : Int) (applied : Bool)
  | running (app : Nat) (addr : String) (applied : Bool)
  | starting (app : Nat) (applied : Bool)
  | settling (applied : Bool)
  | checking (errMsg : String) (applied : Bool)
  | reporting (err : String) (disable : Bool)
  | disabling (err : String)
  | listening (app : Nat)
  | failed (app : Nat) (err : String)
  | done (err : Option String)
  deriving DecidableEq, Repr

/- Whether what is outside does what it is asked. -/
inductive Choice where
  | ok
  | fails (err : String)
  deriving DecidableEq, Repr

abbrev Move := Option (StandaloneRuntime × Call × List Call)

/- An error of a restart or a stop. -/
def fail (err : String) (applied disable : Bool) : Call := if applied then .reporting err disable else .done (some err)

/- Every port from 1 to 65535 can be looked up. -/
def ApplyStandaloneConfig (r : StandaloneRuntime) (enabled : Bool) (address : String) (port : Int) : Move :=
  if enabled = true ∧ (port ≤ 0 ∨ 65535 < port) then some (r,.done (some "port must be between 1 and 65535"),[])
  else some (r,.storing ⟨enabled,filled address,port⟩ .enabled,[])

/- What follows the row that has been stored. -/
def stored (o : Options) : Row → Call
  | .enabled => .storing o .address
  | .address => .storing o .port
  | .port => if o.enabled then .restart o.address o.port true else .stop true

/- The goroutine of an app, in `app.Listen`. -/
def Listen (r : StandaloneRuntime) (app : Nat) (k : Choice) : Move :=
  match r.apps[app]?,k with
  | some .created,.ok => some (r.become app .bound,.listening app,[])
  | some .created,.fails err => some (r.become app .closed,.failed app err,[])
  | some .bound,_ => some (r.become app .serving,.listening app,[])
  | some .serving,.ok => none
  | some .serving,.fails err => some (r.become app .closed,.failed app err,[])
  | some .closed,_ => some (r,.done none,[])
  | none,_ => none

def next (k : Choice) (r : StandaloneRuntime) : Call → Move
  | .asked (.apply enabled address port) => ApplyStandaloneConfig r enabled address port
  | .asked (.restart address port) => some (r,.restart address port false,[])
  | .asked .stop => some (r,.stop false,[])
  | .storing o row =>
    match k with
    | .fails err => some (r,.done (some err),[])
    | .ok => some ({ r with options := SetOption r.options o row },stored o row,[])
  | .stop applied => some (r.clear,match r.app with
    | none => .done none
    | some app => .stopping app applied,[])
  | .stopping app applied => some (r.Shutdown app,match k with
    | .ok => .done none
    | .fails err => fail err applied false,[])
  | .restart address port applied => some (r.clear,match r.app with
    | none => .making address port applied
    | some app => .replacing app address port applied,[])
  | .replacing app address port applied => some (r.Shutdown app,.making address port applied,[])
  | .making address port applied =>
    match k with
    | .fails err => some (r,fail err applied true,[])
    | .ok => some ({ r with apps := r.apps ++ [.created] },.running r.apps.length (JoinHostPort (filled address) port) applied,[])
  | .running app addr applied => some (r.setRunning app addr,.starting app applied,[])
  | .starting app applied => some (r,.settling applied,[.listening app])
  | .settling applied => some (r,.checking r.lastErr applied,[])
  | .checking errMsg applied => some (r,if errMsg ≠ "" ∧ r.app = none then fail errMsg applied true else .done none,[])
  | .reporting err disable => some (r.setError err,if disable then .disabling err else .done (some err),[])
  | .disabling err => some (match k with
    | .ok => { r with options := { r.options with enabled := false } }
    | .fails _ => r,.done (some err),[])
  | .listening app => Listen r app k
  | .failed app err => some (if r.app = some app then r.clear.setError err else r,.done none,[])
  | .done _ => none

def system : System StandaloneRuntime Call Request Choice where
  start := .asked
  next := next

def initial (options : Options) : StandaloneRuntime := ⟨none,"","",[],options⟩

end ContainerWS.Mcp
