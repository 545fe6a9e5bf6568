import ContainerWS.GoStrings
import Mathlib.Data.Rat.Floor

/-! How modules/docker/containers/handlers.go reads the body of a request for a container
and what it asks the Docker engine for. Ports and numbers are read by packages that are
not part of the repository: they are arguments. -/
namespace ContainerWS.Docker
open GoStrings

structure CreateBody where
  image : String
  name : String
  cmd : List String
  entrypoint : List String
  env : List String
  ports : List String
  publishAll : Bool
  binds : List String
  networks : List String
  restartPolicy : String
  restartRetries : Int
  memory : String
  cpus : Rat
  workingDir : String
  user : String
  hostname : String
  privileged : Bool
  readonlyRootfs : Bool
  autoRemove : Bool
  labels : List (String × String)
  extraHosts : List String
  devices : List String
  capAdd : List String
  capDrop : List String
  dns : List String
  pullIfMissing : Bool
  alwaysPull : Bool
  start : Option Bool
  tty : Bool
  openStdin : Bool
  logDriver : String
  logOpts : List (String × String)

structure PortBinding where
  hostIP : String
  hostPort : String
  deriving DecidableEq

/- A map, in the order in which its keys came. -/
abbrev PortMap := List (String × List PortBinding)

structure DeviceMapping where
  pathOnHost : String
  pathInContainer : String
  cgroupPermissions : String
  deriving DecidableEq

structure RestartPolicy where
  name : String
  maximumRetryCount : Int
  deriving DecidableEq

structure LogConfig where
  type : String
  config : List (String × String)
  deriving DecidableEq

structure Config where
  image : String
  env : List String
  cmd : List String
  entrypoint : List String
  workingDir : String
  user : String
  hostname : String
  labels : List (String × String)
  exposedPorts : List String
  tty : Bool
  openStdin : Bool
  attachStdin : Bool
  attachStdout : Bool
  attachStderr : Bool
  deriving DecidableEq

structure HostConfig where
  binds : List String
  portBindings : PortMap
  publishAllPorts : Bool
  privileged : Bool
  readonlyRootfs : Bool
  autoRemove : Bool
  extraHosts : List String
  capAdd : List String
  capDrop : List String
  dns : List String
  restartPolicy : RestartPolicy
  devices : List DeviceMapping
  logConfig : Option LogConfig
  memory : Int
  nanoCPUs : Int
  networkMode : String
  deriving DecidableEq

/- All that a container is created from; of its networks the names. -/
structure Spec where
  config : Config
  host : HostConfig
  networks : List String
  deriving DecidableEq

/- `nat.NewPort`, `strconv.ParseFloat` and the product with 1e9 in floating point. -/
structure Library where
  newPort : String → String → Except String String
  parseFloat : String → Option Rat
  nanoCPUs : Rat → Int

def truncate (q : Rat) : Int := if q < 0 then ⌈q⌉ else ⌊q⌋

def hasSuffix (s : String) (last : Char) : Bool := s.toList.getLast? = some last

def trimSuffix (s : String) : String := String.ofList s.toList.dropLast

def parseMemory (lib : Library) (m : CaseMap) (text : String) : Except String Int :=
  let s := trimSpace (m.toLower text)
  if s = "" ∨ s = "0" then .ok 0 else
  let (mult,s) :=
    if hasSuffix s 'g' then ((1024*1024*1024 : Rat),trimSuffix s)
    else if hasSuffix s 'm' then (1024*1024,trimSuffix s)
    else if hasSuffix s 'k' then (1024,trimSuffix s)
    else if hasSuffix s 'b' then (1,trimSuffix s)
    else (1,s)
  match lib.parseFloat s with
  | some v => .ok (truncate (v*mult))
  | none => .error ("invalid memory: " ++ s)

/- One entry; a blank one is skipped. -/
def parsePort (lib : Library) (m : CaseMap) (entry : String) : Except String (Option (String × PortBinding)) :=
  let raw := trimSpace entry
  if raw = "" then .ok none else
  let (proto,raw) :=
    match split '/' raw with
    | [port,proto] => (m.toLower proto,port)
    | _ => ("tcp",raw)
  match split ':' raw with
  | [containerPort] => (lib.newPort proto containerPort).map (fun p => some (p,⟨"",""⟩))
  | [hostPort,containerPort] => (lib.newPort proto containerPort).map (fun p => some (p,⟨"",hostPort⟩))
  | [hostIP,hostPort,containerPort] => (lib.newPort proto containerPort).map (fun p => some (p,⟨hostIP,hostPort⟩))
  | _ => .error ("invalid port mapping: " ++ raw)

def addBinding (bindings : PortMap) (p : String) (b : PortBinding) : PortMap :=
  if bindings.any (fun q => q.1 = p) then bindings.map (fun q => if q.1 = p then (q.1,q.2 ++ [b]) else q)
  else bindings ++ [(p,[b])]

def parsePortBindings (lib : Library) (m : CaseMap) (ports : List String) : Except String PortMap := do
  let entries ← ports.mapM (parsePort lib m)
  pure ((entries.filterMap id).foldl (fun bindings e => addBinding bindings e.1 e.2) [])

def parseDevice (device : String) : DeviceMapping :=
  match split ':' device with
  | [] => ⟨"","","rwm"⟩
  | [path] => ⟨path,path,"rwm"⟩
  | [onHost,inContainer] => ⟨onHost,inContainer,"rwm"⟩
  | onHost :: inContainer :: permissions :: _ => ⟨onHost,inContainer,permissions⟩

def parseDevices (devs : List String) : List DeviceMapping :=
  ((devs.map trimSpace).filter (fun d => d ≠ "")).map parseDevice

def namedNetworks (networks : List String) : List String := (networks.map trimSpace).filter (fun n => n ≠ "")

/- What `createFromBody` asks for, once the ports and the memory have been read. -/
def specOf (lib : Library) (body : CreateBody) (portBindings : PortMap) (mem : Int) : Spec where
  config := {
    image := trimSpace body.image
    env := body.env
    cmd := body.cmd
    entrypoint := body.entrypoint
    workingDir := body.workingDir
    user := body.user
    hostname := body.hostname
    labels := body.labels
    exposedPorts := portBindings.map Prod.fst
    tty := body.tty
    openStdin := body.openStdin
    attachStdin := body.openStdin
    attachStdout := true
    attachStderr := true }
  host := {
    binds := body.binds
    portBindings := portBindings
    publishAllPorts := body.publishAll
    privileged := body.privileged
    readonlyRootfs := body.readonlyRootfs
    autoRemove := body.autoRemove
    extraHosts := body.extraHosts
    capAdd := body.capAdd
    capDrop := body.capDrop
    dns := body.dns
    restartPolicy := ⟨if trimSpace body.restartPolicy = "" then "no" else trimSpace body.restartPolicy,body.restartRetries⟩
    devices := parseDevices body.devices
    logConfig := if trimSpace body.logDriver = "" then none else some ⟨trimSpace body.logDriver,body.logOpts⟩
    memory := if 0 < mem then mem else 0
    nanoCPUs := if 0 < body.cpus then lib.nanoCPUs body.cpus else 0
    networkMode := (body.networks.head?.map trimSpace).getD "" }
  networks := namedNetworks body.networks

/- The checks of a body whose image is there. -/
def readBody (lib : Library) (m : CaseMap) (body : CreateBody) : Except String Spec := do
  let portBindings ← parsePortBindings lib m body.ports
  let mem ← parseMemory lib m body.memory
  pure (specOf lib body portBindings mem)

end ContainerWS.Docker
