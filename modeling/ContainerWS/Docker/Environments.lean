import ContainerWS.GoStrings
import ContainerWS.Runs
import ContainerWS.SoftDelete

/-! models/docker_environment.go and modules/docker/environments/handlers.go: the table docker_environments
and the requests that write it. -/
namespace ContainerWS.Docker.Environments
open GoStrings SoftDelete

def dockerConnUnix : String := "unix"

def dockerConnSSH : String := "ssh"

def dockerConnTLS : String := "tls"

def defaultSocket : String := "/var/run/docker.sock"

structure DockerEnvironment where
  id : Nat
  name : String
  description : String := ""
  connType : String
  hostURL : String := ""
  socketPath : String := ""
  sshHost : String := ""
  sshPort : Int := 0
  sshUser : String := ""
  sshPrivateKey : String := ""
  sshPassphrase : String := ""
  sshRemoteSocket : String := ""
  tcpHost : String := ""
  tcpPort : Int := 0
  tlsCACert : String := ""
  tlsCert : String := ""
  tlsKey : String := ""
  tlsSkipVerify : Bool := false
  isDefault : Bool := false
  isDisabled : Bool := false
  deletedAt : Bool := false
  deriving DecidableEq, Repr

/- Its buffer has sixteen bytes; a number with more digits is out of its range. -/
def itoa (n : Int) : Except String String :=
  if n = 0 then .ok "0"
  else if n < 0 then .ok ""
  else if n < 10000000000000000 then .ok n.toNat.repr
  else .error "index out of range"

def orElse (s other : String) : String := if trimSpace s = "" then other else s

/- The fields of the connection with their defaults. -/
def DockerEnvironment.filled (m : CaseMap) (b : DockerEnvironment) : DockerEnvironment :=
  let b := {b with connType := m.toLower (trimSpace b.connType)}
  if b.connType = dockerConnUnix then {b with socketPath := orElse b.socketPath defaultSocket}
  else if b.connType = dockerConnSSH then
    {b with sshPort := if b.sshPort ≤ 0 then 22 else b.sshPort, sshRemoteSocket := orElse b.sshRemoteSocket defaultSocket}
  else if b.connType = dockerConnTLS then {b with tcpPort := if b.tcpPort ≤ 0 then 2376 else b.tcpPort}
  else b

def DockerEnvironment.url (b : DockerEnvironment) : Except String String :=
  if b.connType = dockerConnUnix then .ok ("unix://" ++ b.socketPath)
  else if b.connType = dockerConnSSH then
    let user := trimSpace b.sshUser
    let host := trimSpace b.sshHost
    let url := if user ≠ "" then "ssh://" ++ user ++ "@" ++ host else "ssh://" ++ host
    if b.sshPort = 22 then .ok url else (itoa b.sshPort).map (fun port => url ++ ":" ++ port)
  else if b.connType = dockerConnTLS then (itoa b.tcpPort).map (fun port => "tcp://" ++ trimSpace b.tcpHost ++ ":" ++ port)
  else .ok b.hostURL

def DockerEnvironment.Normalize (m : CaseMap) (b : DockerEnvironment) : Except String DockerEnvironment :=
  let b := b.filled m
  b.url.map (fun url => {b with hostURL := url})

structure UpsertBody where
  name : String
  description : String := ""
  connType : String := ""
  socketPath : String := ""
  sshHost : String := ""
  sshPort : Int := 0
  sshUser : String := ""
  sshPrivateKey : String := ""
  sshPassphrase : String := ""
  sshRemoteSocket : String := ""
  tcpHost : String := ""
  tcpPort : Int := 0
  tlsCACert : String := ""
  tlsCert : String := ""
  tlsKey : String := ""
  tlsSkipVerify : Bool := false
  isDefault : Option Bool := none
  isDisabled : Option Bool := none
  deriving DecidableEq, Repr

/- dockerclient.SockPath: the socket that DOCKER_HOST names, or the default one. -/
def sockPath (dockerHost : String) : String :=
  let v := trimSpace dockerHost
  if hasPrefix v "unix://" then String.ofList (v.toList.drop 7) else defaultSocket

def given (value old : String) : String := if value = "" then old else trimSpace value

def givenWhole (value old : String) : String := if value = "" then old else value

def upsertUnix (sock : String) (body : UpsertBody) (creating : Bool) (env : DockerEnvironment) : DockerEnvironment :=
  if body.socketPath ≠ "" ∨ (creating = true ∧ env.connType = dockerConnUnix) then
    {env with socketPath := if trimSpace body.socketPath = "" then sock else trimSpace body.socketPath}
  else env

def upsertSSH (body : UpsertBody) (env : DockerEnvironment) : DockerEnvironment :=
  if body.sshHost ≠ "" ∨ env.connType = dockerConnSSH then
    {env with
      sshHost := given body.sshHost env.sshHost
      sshPort := if body.sshPort > 0 then body.sshPort else env.sshPort
      sshUser := given body.sshUser env.sshUser
      sshPrivateKey := givenWhole body.sshPrivateKey env.sshPrivateKey
      sshPassphrase := givenWhole body.sshPassphrase env.sshPassphrase
      sshRemoteSocket := given body.sshRemoteSocket env.sshRemoteSocket}
  else env

def upsertTLS (body : UpsertBody) (env : DockerEnvironment) : DockerEnvironment :=
  if body.tcpHost ≠ "" ∨ env.connType = dockerConnTLS then
    {env with
      tcpHost := given body.tcpHost env.tcpHost
      tcpPort := if body.tcpPort > 0 then body.tcpPort else env.tcpPort
      tlsCACert := givenWhole body.tlsCACert env.tlsCACert
      tlsCert := givenWhole body.tlsCert env.tlsCert
      tlsKey := givenWhole body.tlsKey env.tlsKey
      tlsSkipVerify := body.tlsSkipVerify}
  else env

def upsertConn (m : CaseMap) (body : UpsertBody) (creating : Bool) (env : DockerEnvironment) : Except String DockerEnvironment :=
  let conn := m.toLower (trimSpace body.connType)
  let conn := if creating = true ∧ conn = "" then dockerConnUnix else conn
  if conn = "" then .ok env
  else if conn = dockerConnUnix ∨ conn = dockerConnSSH ∨ conn = dockerConnTLS then .ok {env with connType := conn}
  else .error "conn_type must be unix, ssh, or tls"

def upsertFlags (body : UpsertBody) (creating : Bool) (env : DockerEnvironment) : DockerEnvironment :=
  {env with
    isDefault := body.isDefault.getD (if creating then false else env.isDefault)
    isDisabled := body.isDisabled.getD env.isDisabled}

def requiredFields (creating : Bool) (env : DockerEnvironment) : Except String Unit :=
  if env.connType = dockerConnSSH then
    if trimSpace env.sshHost = "" then .error "ssh_host is required"
    else if creating = true ∧ trimSpace env.sshPrivateKey = "" then .error "ssh_private_key is required"
    else .ok ()
  else if env.connType = dockerConnTLS then
    if trimSpace env.tcpHost = "" then .error "tcp_host is required" else .ok ()
  else .ok ()

def upsertName (body : UpsertBody) (creating : Bool) (env : DockerEnvironment) : DockerEnvironment :=
  {env with
    name := if trimSpace body.name = "" then env.name else trimSpace body.name
    description := if body.description ≠ "" ∨ creating = true then trimSpace body.description else env.description}

def applyUpsert (m : CaseMap) (sock : String) (env : DockerEnvironment) (body : UpsertBody) (creating : Bool) :
    Except String DockerEnvironment :=
  if creating = true ∧ trimSpace body.name = "" then .error "name is required"
  else do
    let env ← upsertConn m body creating (upsertName body creating env)
    let env := upsertFlags body creating (upsertTLS body (upsertSSH body (upsertUnix sock body creating env)))
    requiredFields creating env
    env.Normalize m

/- What a request for a new one starts from. -/
def blank : DockerEnvironment := {id := 0, name := "", connType := ""}

/- The unique index is on the name alone. -/
def schema : Schema DockerEnvironment String where
  ident := DockerEnvironment.id
  key := DockerEnvironment.name
  deleted := DockerEnvironment.deletedAt
  number := fun n row => {row with id := n}
  mark := fun row => {row with deletedAt := true}
  identNumber := fun _ _ => rfl
  keyNumber := fun _ _ => rfl
  identMark := fun _ => rfl
  keyMark := fun _ => rfl
  deletedMark := fun _ => rfl

abbrev DockerEnvironments := Table schema

def isDefault (value : Bool) : Column schema where
  set := fun row => {row with isDefault := value}
  ident := fun _ => rfl
  key := fun _ => rfl

/- Which statements of a request fail. -/
structure Faults where
  load : Bool := false
  clear : Bool := false
  write : Bool := false
  next : Bool := false
  count : Bool := false
  deriving DecidableEq, Repr

def numbered (id : Nat) (row : DockerEnvironment) : Bool := row.id == id

def load (k : Faults) (t : DockerEnvironments) (id : Nat) : Option DockerEnvironment := if k.load then none else t.first (numbered id)

/- Clearing the flags; its failure is passed over. -/
def clearDefault (k : Faults) (p : DockerEnvironment → Bool) (t : DockerEnvironments) : DockerEnvironments :=
  if k.clear then t else t.set (isDefault false) (fun row => row.isDefault && p row)

/- The answer of a request, an error or not, and the table it leaves. -/
abbrev Answer := Bool × DockerEnvironments

/- The statement that writes a row, or the error of the request. -/
def finish (k : Faults) (t : DockerEnvironments) (written : Option DockerEnvironments) : Answer :=
  if k.write then (true,t)
  else match written with
  | none => (true,t)
  | some u => (false,u)

def createAPI (m : CaseMap) (sock : String) (k : Faults) (body : UpsertBody) (t : DockerEnvironments) : Answer :=
  match applyUpsert m sock blank body true with
  | .error _ => (true,t)
  | .ok env =>
    let t := if env.isDefault then clearDefault k (fun _ => true) t else t
    finish k t (t.insert env)

def updateAPI (m : CaseMap) (sock : String) (k : Faults) (id : Nat) (body : UpsertBody) (t : DockerEnvironments) : Answer :=
  match load k t id with
  | none => (true,t)
  | some row =>
    match applyUpsert m sock row body false with
    | .error _ => (true,t)
    | .ok env =>
      let t := if env.isDefault then clearDefault k (fun other => other.id != env.id) t else t
      finish k t (t.update env)

def deleteAPI (k : Faults) (id : Nat) (t : DockerEnvironments) : Answer :=
  match load k t id with
  | none => (true,t)
  | some env =>
    match finish k t (t.update (schema.mark env)) with
    | (true,t) => (true,t)
    | (false,t) =>
      if env.isDefault = false ∨ k.next then (false,t)
      else match t.first (fun row => !row.isDisabled) with
      | none => (false,t)
      | some next => (false,t.set (isDefault true) (numbered next.id))

/- Both statements may fail unnoticed. -/
def activateAPI (k : Faults) (id : Nat) (t : DockerEnvironments) : Answer :=
  match load k t id with
  | none => (true,t)
  | some env =>
    if env.isDisabled then (true,t)
    else
      let t := clearDefault k (fun _ => true) t
      (false,if k.write then t else t.set (isDefault true) (numbered id))

def seededLocalDisabledDesc : String := "Local Docker Engine (unix socket)"

def recovered (sock path : String) : Column schema where
  set := fun row => {row with
    isDisabled := false
    description := "Local Docker Engine via " ++ path
    socketPath := if trimSpace row.socketPath = "" then sock else row.socketPath}
  ident := fun _ => rfl
  key := fun _ => rfl

/- `found` tells which sockets are there. -/
def reconcileDisabledLocalUnix (k : Faults) (sock : String) (found : String → Bool) (t : DockerEnvironments) : DockerEnvironments :=
  if found sock = false ∨ k.load then t
  else match t.first (fun row => row.connType == dockerConnUnix && row.isDisabled && row.isDefault &&
      row.description == seededLocalDisabledDesc) with
  | none => t
  | some env =>
    let path := orElse (trimSpace env.socketPath) sock
    if (path ≠ sock ∧ found path = false) ∨ k.write then t else t.set (recovered sock path) (numbered env.id)

def seededLocal (sock : String) (sockOK : Bool) : DockerEnvironment :=
  {id := 0, name := "Local", description := if sockOK then "Local Docker Engine via " ++ sock else seededLocalDisabledDesc,
    connType := dockerConnUnix, hostURL := "unix://" ++ orElse sock defaultSocket, socketPath := orElse sock defaultSocket,
    isDefault := true, isDisabled := !sockOK}

def ensureDefaultLocal (k : Faults) (sock : String) (found : String → Bool) (t : DockerEnvironments) : DockerEnvironments :=
  if k.count then t
  else if t.live.length > 0 then reconcileDisabledLocalUnix k sock found t
  else (finish k t (t.insert (seededLocal sock (found sock)))).2

/- A request; what lists or resolves environments seeds the table first. -/
inductive Request where
  | create (k : Faults) (body : UpsertBody)
  | update (k : Faults) (id : Nat) (body : UpsertBody)
  | delete (k : Faults) (id : Nat)
  | activate (k : Faults) (id : Nat)
  | seed (k : Faults) (found : String → Bool)

def Request.answer (m : CaseMap) (sock : String) (t : DockerEnvironments) : Request → Answer
  | .create k body => createAPI m sock k body t
  | .update k id body => updateAPI m sock k id body t
  | .delete k id => deleteAPI k id t
  | .activate k id => activateAPI k id t
  | .seed k found => (false,ensureDefaultLocal k sock found t)

/- The table, and how the last request found it and ended. -/
structure Served where
  table : DockerEnvironments
  before : DockerEnvironments
  failed : Bool

def step (m : CaseMap) (sock : String) (s : Served) (r : Request) : Option Served :=
  let a := r.answer m sock s.table
  some ⟨a.2,s.table,a.1⟩

def opening : Served := ⟨empty schema,empty schema,false⟩

end ContainerWS.Docker.Environments
