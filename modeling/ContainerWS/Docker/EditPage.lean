import ContainerWS.TextRows
import ContainerWS.Docker.Replace

/-! The page that edits a container, frontend/src/modules/docker/pages/containers/edit/index.tsx:
what it shows of an inspection, and the request that it makes of what it shows. -/
namespace ContainerWS.Docker
open GoStrings TextRows

/- What `\s` stands for, which is also what `trim` takes away. -/
def jsSpace (c : Char) : Bool :=
  let n := c.toNat
  (9 ≤ n && n ≤ 13) || n == 0x20 || n == 0xA0 || n == 0x1680 || (0x2000 ≤ n && n ≤ 0x200a) ||
  n == 0x2028 || n == 0x2029 || n == 0x202f || n == 0x205f || n == 0x3000 || n == 0xFEFF

def trim (s : String) : String := trimBoth jsSpace s

/- Both sides of the request: the table of lower case and the packages of the server, and
the numbers of the browser, which are doubles. -/
structure Runtime extends Library where
  lower : CaseMap
  lowerAscii : ∀ c, c.toNat < 128 → lower.lower c = c.toLower
  lowerSlash : ∀ c, lower.lower c = '/' → c = '/'
  lowerSolid : ∀ c, isSpace c = false → isSpace (lower.lower c) = false
  toLowerCase : String → String
  toLowerCaseSelf : ∀ s, lower.toLower s = s → toLowerCase s = s
  -- A port is written as a number or a range, and with its protocol it is no port any more.
  port : ∀ {proto p k}, newPort proto p = .ok k → ∃ n, k = n ++ "/" ++ proto ∧ n ≠ "" ∧
    (∀ c ∈ n.toList, c.isDigit = true ∨ c = '-') ∧ newPort proto n = .ok k
  portWhole : ∀ {proto p k other again}, newPort proto p = .ok k → newPort other k ≠ .ok again
  double : Int → Int
  doubleZero : double 0 = 0
  doubleTwice : ∀ n, double (double n) = double n
  doubleNonneg : ∀ n, 0 ≤ n → 0 ≤ double n
  doubleBound : ∀ n, n ≤ 2^63 → double n ≤ 2^63
  doublePart : ∀ (k : Nat) n, double (2^k*n) = 2^k*n → double n = n
  string : Int → String
  stringDigits : ∀ n, 0 < n → n ≤ 2^63 → double n = n →
    string n ≠ "" ∧ string n ≠ "0" ∧ (∀ c ∈ (string n).toList, c.isDigit = true) ∧ parseFloat (string n) = some (n : Rat)
  number : String → Int
  numberString : ∀ n, double n = n → number (string n) = n
  readInt : String → Option Int
  cpusString : Int → String
  cpusNumber : String → Rat

structure PortRow where
  hostIP : String
  hostPort : String
  containerPort : String
  protocol : String

structure VolumeRow where
  host : String
  container : String
  readOnly : Bool

structure KvRow where
  key : String
  value : String

inductive ConsoleMode where
  | both | interactive | tty | none
  deriving DecidableEq

structure Mount where
  type : String
  source : String
  destination : String
  rw : Bool

/- What the page shows. -/
structure Form where
  name : String
  image : String
  alwaysPull : Bool
  publishAll : Bool
  ports : List PortRow
  autoRemove : Bool
  startAfter : Bool
  cmdOverride : Bool
  cmd : String
  entrypointOverride : Bool
  entrypoint : String
  workdir : String
  user : String
  hostname : String
  consoleMode : ConsoleMode
  logDriver : String
  logOpts : List KvRow
  volumes : List VolumeRow
  networks : List String
  extraHosts : String
  dns : String
  envRows : List KvRow
  labelRows : List KvRow
  restart : String
  restartRetries : String
  privileged : Bool
  readonlyRoot : Bool
  memory : String
  cpus : String
  devices : String
  capAdd : String
  capDrop : String

def shellJoin (parts : List String) : String := join ' ' parts

def shellSplit (text : String) : List String := words jsSpace (trim text)

variable (rt : Runtime)

/- The key of a port, before and after its separator. -/
def portOf (key : String) : String := (split '/' key).headD ""

def protocolOf (key : String) : String :=
  rt.toLowerCase (match split '/' key with
    | _ :: proto :: _ => if proto = "" then "tcp" else proto
    | _ => "tcp")

def portsFromInspect (bindings : PortMap) : List PortRow :=
  bindings.flatMap (fun e =>
    if e.2 = [] then [⟨"","",portOf e.1,protocolOf rt e.1⟩]
    else e.2.map (fun b => ⟨b.hostIP,b.hostPort,portOf e.1,protocolOf rt e.1⟩))

def volumeOf (bind : String) : VolumeRow :=
  match split ':' bind with
  | [] => ⟨"","",false⟩
  | [host] => ⟨host,"",false⟩
  | [host,container] => ⟨host,container,false⟩
  | host :: container :: flag :: _ => ⟨host,container,flag = "ro"⟩

def volumesFromInspect (binds : List String) (mounts : List Mount) : List VolumeRow :=
  if binds ≠ [] then binds.map volumeOf
  else (mounts.filter (fun m => m.type = "bind" ∨ m.source ≠ "")).map (fun m => ⟨m.source,m.destination,!m.rw⟩)

/- What stands after the first such character. -/
def after (c : Char) (s : String) : String := String.ofList (s.toList.dropWhile (fun d => d != c)).tail

def envRow (line : String) : KvRow :=
  if '=' ∈ line.toList then ⟨before '=' line,after '=' line⟩ else ⟨line,""⟩

def envFromInspect (env : List String) : List KvRow := env.map envRow

def labelsFromInspect (labels : List (String × String)) : List KvRow := labels.map (fun e => ⟨e.1,e.2⟩)

def memoryFromBytes (n : Int) : String :=
  if n = 0 then ""
  else if n % (1024*1024*1024) = 0 then rt.string (n/(1024*1024*1024)) ++ "g"
  else if n % (1024*1024) = 0 then rt.string (n/(1024*1024)) ++ "m"
  else rt.string n

def consoleFromInspect (config : Config) : ConsoleMode :=
  if config.tty && config.openStdin then .both
  else if config.openStdin then .interactive
  else if config.tty then .tty
  else .none

def deviceLine (d : DeviceMapping) : String :=
  join ':' ([d.pathOnHost,d.pathInContainer,d.cgroupPermissions].filter (fun part => part ≠ ""))

def logConfigOf (host : HostConfig) : LogConfig := host.logConfig.getD ⟨"",[]⟩

/- The form after an inspection has been loaded. -/
def load (old : Container) (mounts : List Mount) (state : String) : Form where
  name := old.name
  image := old.spec.config.image
  alwaysPull := false
  publishAll := old.spec.host.publishAllPorts
  ports := portsFromInspect rt old.spec.host.portBindings
  autoRemove := old.spec.host.autoRemove
  startAfter := state = "running"
  cmd := shellJoin old.spec.config.cmd
  cmdOverride := shellJoin old.spec.config.cmd ≠ ""
  entrypoint := shellJoin old.spec.config.entrypoint
  entrypointOverride := shellJoin old.spec.config.entrypoint ≠ ""
  workdir := old.spec.config.workingDir
  user := old.spec.config.user
  hostname := old.spec.config.hostname
  consoleMode := consoleFromInspect old.spec.config
  logDriver := (logConfigOf old.spec.host).type
  logOpts := labelsFromInspect (logConfigOf old.spec.host).config
  volumes := volumesFromInspect old.spec.host.binds mounts
  networks := old.spec.networks
  extraHosts := join '\n' old.spec.host.extraHosts
  dns := join '\n' old.spec.host.dns
  envRows := envFromInspect old.spec.config.env
  labelRows := labelsFromInspect old.spec.config.labels
  restart := if old.spec.host.restartPolicy.name = "" then "no" else old.spec.host.restartPolicy.name
  restartRetries := rt.string (rt.double old.spec.host.restartPolicy.maximumRetryCount)
  privileged := old.spec.host.privileged
  readonlyRoot := old.spec.host.readonlyRootfs
  memory := memoryFromBytes rt (rt.double old.spec.host.memory)
  cpus := if rt.double old.spec.host.nanoCPUs = 0 then "" else rt.cpusString old.spec.host.nanoCPUs
  devices := join '\n' (old.spec.host.devices.map deviceLine)
  capAdd := join '\n' old.spec.host.capAdd
  capDrop := join '\n' old.spec.host.capDrop

def portString (p : PortRow) : Option String :=
  let proto := if p.protocol = "" then "tcp" else p.protocol
  let cport := trim p.containerPort
  let hport := trim p.hostPort
  let hip := trim p.hostIP
  if cport = "" then none
  else if hip ≠ "" ∧ hport ≠ "" then some (hip ++ ":" ++ hport ++ ":" ++ cport ++ "/" ++ proto)
  else if hport ≠ "" then some (hport ++ ":" ++ cport ++ "/" ++ proto)
  else some (cport ++ "/" ++ proto)

def bindString (v : VolumeRow) : Option String :=
  if trim v.host ≠ "" ∧ trim v.container ≠ "" then
    some (trim v.host ++ ":" ++ trim v.container ++ (if v.readOnly then ":ro" else ""))
  else none

def envString (r : KvRow) : Option String := if trim r.key = "" then none else some (trim r.key ++ "=" ++ r.value)

/- An object's prototype is not a property: what is set there is lost. -/
def setProperty (object : List (String × String)) (key value : String) : List (String × String) :=
  if key = "__proto__" then object
  else if object.any (fun e => e.1 = key) then object.map (fun e => if e.1 = key then (key,value) else e)
  else object ++ [(key,value)]

def objectOf (rows : List KvRow) : List (String × String) :=
  rows.foldl (fun object r => if trim r.key = "" then object else setProperty object (trim r.key) r.value) []

/- The entries of a text area. -/
def entriesOf (sep : Char → Bool) (text : String) : List String :=
  (((text.toList.splitOnP sep).map String.ofList).map trim).filter (fun s => s ≠ "")

def lineBreak (c : Char) : Bool := c == '\n'

def lineOrComma (c : Char) : Bool := c == '\n' || c == ','

/- The request; what is left undefined is empty for the server. -/
def buildBody (form : Form) : Option CreateBody :=
  if trim form.image = "" then none else some {
    image := trim form.image
    name := trim form.name
    cmd := if form.cmdOverride then shellSplit form.cmd else []
    entrypoint := if form.entrypointOverride then shellSplit form.entrypoint else []
    env := form.envRows.filterMap envString
    ports := form.ports.filterMap portString
    publishAll := form.publishAll
    binds := form.volumes.filterMap bindString
    networks := form.networks
    restartPolicy := form.restart
    restartRetries := rt.number form.restartRetries
    memory := trim form.memory
    cpus := if trim form.cpus = "" then 0 else rt.cpusNumber form.cpus
    workingDir := trim form.workdir
    user := trim form.user
    hostname := trim form.hostname
    privileged := form.privileged
    readonlyRootfs := form.readonlyRoot
    autoRemove := form.autoRemove
    labels := objectOf form.labelRows
    extraHosts := entriesOf lineBreak form.extraHosts
    devices := entriesOf lineBreak form.devices
    capAdd := entriesOf lineOrComma form.capAdd
    capDrop := entriesOf lineOrComma form.capDrop
    dns := entriesOf lineOrComma form.dns
    pullIfMissing := false
    alwaysPull := form.alwaysPull
    start := some form.startAfter
    tty := form.consoleMode = .both ∨ form.consoleMode = .tty
    openStdin := form.consoleMode = .both ∨ form.consoleMode = .interactive
    logDriver := form.logDriver
    logOpts := objectOf form.logOpts }

/- The body as the server reads it: a count is a decimal number in the request. -/
def decoded (body : CreateBody) : Except String CreateBody :=
  match rt.readInt (rt.string body.restartRetries) with
  | some n => .ok { body with restartRetries := n }
  | none => .error "cannot unmarshal number"

end ContainerWS.Docker
