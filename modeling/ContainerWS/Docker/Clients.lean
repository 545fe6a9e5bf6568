import ContainerWS.Docker.Environments

/-! packages/dockerclient/client.go and packages/composecli/compose.go: the client that is made for an
environment, and the directory and the variables that docker compose is given for the same one. -/
namespace ContainerWS.Docker.Clients
open GoStrings Docker.Environments

structure TLSConfig (R P : Type) where
  skipVerify : Bool
  roots : Option R
  pair : Option P
  deriving DecidableEq

/- What is connected to, as whom. No roots are those of the system, and no TLS is a plain connection. -/
inductive Daemon (R P S : Type) where
  | socket (path : String)
  | tcp (url : String) (tls : Option (TLSConfig R P))
  | ssh (host : String) (port : Int) (user : String) (key : S) (remote : String)
  deriving DecidableEq

/- What reads the certificates and the keys, docker's own client library, and the commands docker and ssh in
the environment of the process: what docker compose connects to with its variables and the files under its
directory, `none` when it reports an error; the addresses it takes; what ssh makes of a configuration under
HOME; the key it has without one; the socket that docker uses on a remote host. -/
structure Tools (R P S : Type) where
  roots : String → Option R
  pair : String → String → Except String P
  signer : String → String → Except String S
  block : String → Bool
  host : String → Option String
  compose : String → List (String × String) → List (String × String) → Option (Daemon R P S)
  takes : String → Bool
  home : Bool
  word : String → Bool
  configured : String → Option (String × Int × String)
  own : Option S
  remote : String → Int → String → String

/- The branch that both functions take. -/
inductive Connection where
  | unix (path : String)
  | tls (b : DockerEnvironment)
  | ssh (b : DockerEnvironment)
  | unsupported (conn : String)

def connection : Option DockerEnvironment → Connection
  | none => .unix ""
  | some b =>
    if b.connType = "" ∨ b.connType = dockerConnUnix then .unix (trimSpace b.socketPath)
    else if b.connType = dockerConnTLS then .tls b
    else if b.connType = dockerConnSSH then .ssh b
    else .unsupported b.connType

def unsupportedType (conn : String) : String := "unsupported docker connection type: " ++ conn

/-! dockerclient. -/
section
variable {R P S : Type} (t : Tools R P S)

def withHost (host : String) (daemon : Daemon R P S) : Except String (Daemon R P S) :=
  match t.host host with
  | some e => .error e
  | none => .ok daemon

def newUnixClient (sock : String) : Except String (Daemon R P S) := withHost t ("unix://" ++ sock) (.socket sock)

def clientURL (b : DockerEnvironment) : String :=
  if trimSpace b.hostURL = "" then "tcp://" ++ trimSpace b.tcpHost ++ ":" ++ toString (if b.tcpPort ≤ 0 then 2376 else b.tcpPort)
  else trimSpace b.hostURL

def clientRoots (b : DockerEnvironment) : Except String (Option R) :=
  if trimSpace b.tlsCACert ≠ "" ∧ b.tlsSkipVerify = false then
    match t.roots (trimSpace b.tlsCACert) with
    | none => .error "invalid TLS CA certificate PEM"
    | some roots => .ok (some roots)
  else .ok none

def clientPair (b : DockerEnvironment) : Except String (Option P) :=
  if trimSpace b.tlsCert ≠ "" ∧ trimSpace b.tlsKey ≠ "" then
    match t.pair (trimSpace b.tlsCert) (trimSpace b.tlsKey) with
    | .error e => .error ("tls client cert/key: " ++ e)
    | .ok pair => .ok (some pair)
  else .ok none

def buildTLSConfig (b : DockerEnvironment) : Except String (TLSConfig R P) := do
  let roots ← clientRoots t b
  let pair ← clientPair t b
  pure ⟨b.tlsSkipVerify,roots,pair⟩

def newTLSClient (b : DockerEnvironment) : Except String (Daemon R P S) := do
  let cfg ← buildTLSConfig t b
  withHost t (clientURL b) (.tcp (clientURL b) (some cfg))

/- No passphrase is a key that is not encrypted. -/
def parseSSHPrivateKey (key passphrase : String) : Except String S :=
  match t.signer key passphrase with
  | .ok signer => .ok signer
  | .error e =>
    if passphrase = "" ∨ t.block key = false then .error ("parse ssh private key: " ++ e)
    else .error ("parse ssh private key with passphrase: " ++ e)

def remoteSocket (b : DockerEnvironment) : String := if trimSpace b.sshRemoteSocket = "" then defaultSocket else trimSpace b.sshRemoteSocket

def sshUnixDialer (b : DockerEnvironment) : Except String (Daemon R P S) :=
  if trimSpace b.sshHost = "" then .error "ssh_host is required"
  else if trimSpace b.sshPrivateKey = "" then .error "ssh_private_key is required for SSH environments"
  else do
    let signer ← parseSSHPrivateKey t (trimSpace b.sshPrivateKey) (trimSpace b.sshPassphrase)
    let port := if b.sshPort ≤ 0 then 22 else b.sshPort
    let user := if trimSpace b.sshUser = "" then "root" else trimSpace b.sshUser
    pure (.ssh (trimSpace b.sshHost) port user signer (remoteSocket b))

def newSSHClient (b : DockerEnvironment) : Except String (Daemon R P S) := do
  let dialer ← sshUnixDialer t b
  withHost t ("unix://" ++ remoteSocket b) dialer

/- `dockerHost` is the variable DOCKER_HOST of the process. -/
def newClientFor (dockerHost : String) (env : Option DockerEnvironment) : Except String (Daemon R P S) :=
  match connection env with
  | .unix path => newUnixClient t (if path ≠ "" then path else sockPath dockerHost)
  | .tls b => newTLSClient t b
  | .ssh b => newSSHClient t b
  | .unsupported conn => .error (unsupportedType conn)

end
/-! composecli. -/

def unixLines : List Char → List Char
  | '\r' :: '\n' :: rest => '\n' :: unixLines rest
  | c :: rest => c :: unixLines rest
  | [] => []

/- Every line is taken over. -/
def normalizeEnvFile (raw : String) : String :=
  let raw := trimSpace (String.ofList (unixLines raw.toList))
  if raw = "" then "" else trimRight '\n' ("\n".intercalate (split '\n' raw))

/- A directory has no body. -/
structure Write where
  name : String
  body : Option String
  message : String → String

def plain (e : String) : String := e

def baseWrites (yaml envFile : String) : List Write :=
  ⟨"docker-compose.yml",some (yaml ++ "\n"),fun e => "write compose file: " ++ e⟩ ::
    if normalizeEnvFile envFile = "" then []
    else [".env","stack.env"].map (fun name => ⟨name,some (normalizeEnvFile envFile ++ "\n"),fun e => "write " ++ name ++ ": " ++ e⟩)

def tlsWrites (b : DockerEnvironment) : List Write :=
  ⟨"certs",none,plain⟩ ::
    ([("certs/ca.pem",b.tlsCACert),("certs/cert.pem",b.tlsCert),("certs/key.pem",b.tlsKey)].filter (fun w => trimSpace w.2 ≠ "")).map
      (fun w => ⟨w.1,some w.2,plain⟩)

def identityLines (dir : String) (b : DockerEnvironment) : String :=
  if trimSpace b.sshPrivateKey = "" then "" else "  IdentityFile " ++ dir ++ "/.ssh/id_key\n  IdentitiesOnly yes\n"

def sshConfig (host user : String) (port : Int) (identity : String) : String :=
  "Host cws-docker\n  HostName " ++ host ++ "\n  User " ++ user ++ "\n  Port " ++ toString port ++
    "\n  StrictHostKeyChecking no\n  UserKnownHostsFile /dev/null\n" ++ identity

def configFor (dir : String) (b : DockerEnvironment) : String :=
  sshConfig (trimSpace b.sshHost) (trimSpace b.sshUser) b.sshPort (identityLines dir b)

def sshWrites (dir : String) (b : DockerEnvironment) : List Write :=
  ⟨".ssh",none,plain⟩ ::
    ((if trimSpace b.sshPrivateKey = "" then [] else [⟨".ssh/id_key",some (b.sshPrivateKey ++ "\n"),plain⟩]) ++
      [⟨".ssh/config",some (configFor dir b),plain⟩])

/- The error of making the directory, and those of the writes into it. -/
structure Disk where
  mkdirTemp : Except String String
  write : String → Option String

def writeAll (d : Disk) (writes : List Write) : Option String := writes.findSome? (fun w => (d.write w.name).map w.message)

def filesOf (writes : List Write) : List (String × String) := writes.filterMap (fun w => w.body.map (fun body => (w.name,body)))

structure Workdir where
  dir : String
  files : List (String × String)
  vars : List (String × String)

def composeURL (b : DockerEnvironment) : String :=
  if trimSpace b.hostURL = "" then "tcp://" ++ trimSpace b.tcpHost ++ ":" ++ toString b.tcpPort else trimSpace b.hostURL

def tlsVars (dir url verify : String) : List (String × String) :=
  [("DOCKER_HOST",url),("DOCKER_CERT_PATH",dir ++ "/certs"),("DOCKER_TLS_VERIFY",verify)]

def verifyOf (b : DockerEnvironment) : String := if b.tlsSkipVerify then "" else "1"

def sshVars (dir : String) : List (String × String) := [("HOME",dir),("DOCKER_HOST","ssh://cws-docker")]

/- What is written for the connection, after the files of the project. -/
def connectionWrites (dir : String) : Connection → List Write
  | .tls b => tlsWrites b
  | .ssh b => sshWrites dir b
  | _ => []

def connectionVars (dir : String) : Connection → Except String (List (String × String))
  | .unix path => .ok [("DOCKER_HOST","unix://" ++ if path ≠ "" then path else defaultSocket)]
  | .tls b => .ok (tlsVars dir (composeURL b) (verifyOf b))
  | .ssh _ => .ok (sshVars dir)
  | .unsupported conn => .error (unsupportedType conn)

def prepareWorkdir (d : Disk) (env : Option DockerEnvironment) (yaml envFile : String) : Except String Workdir :=
  match d.mkdirTemp with
  | .error e => .error ("create temp dir: " ++ e)
  | .ok dir =>
    let writes := baseWrites yaml envFile ++ connectionWrites dir (connection env)
    match writeAll d writes with
    | some e => .error e
    | none => (connectionVars dir (connection env)).map (fun vars => ⟨dir,filesOf writes,vars⟩)

/- The command runs with the variables, in the directory. -/
def composed {R P S : Type} (t : Tools R P S) (d : Disk) (env : Option DockerEnvironment) (yaml envFile : String) : Option (Daemon R P S) :=
  match prepareWorkdir d env yaml envFile with
  | .error _ => none
  | .ok w => t.compose w.dir w.vars w.files

end ContainerWS.Docker.Clients
