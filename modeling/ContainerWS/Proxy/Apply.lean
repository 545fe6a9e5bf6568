import ContainerWS.Disk
import ContainerWS.Frames
import ContainerWS.Proxy.Backends

/-! packages/proxymanager: apply.go, settings.go, paths.go, fiber_generate.go and what the two
generators write, up to the calls that reload a runtime. Any call to the system or to the database
may fail. Files hold what they say, not its text; logs and the texts of errors are left out. -/
namespace ContainerWS.Proxy
open GoPath GoStrings Nginx Disks

structure SettingsRow extends ProxySettings where
  configDir : String
  dirty : Bool
  lastAppliedAt : Option Nat
  lastApplyEngine : String
  lastApplyFailed : Bool
  deriving DecidableEq, Repr

structure CertificateRow extends ProxyCertificate where
  certPEM : String
  keyPEM : String
  deriving DecidableEq, Repr

/- The rows that the queries of `LoadSnapshot` give. -/
structure ApplySnapshot where
  settings : SettingsRow
  hosts : List HostRow
  redirects : List ProxyRedirect
  certificates : List CertificateRow

def ApplySnapshot.rows (s : ApplySnapshot) : Snapshot :=
  ⟨s.settings.toProxySettings,s.hosts,s.redirects,s.certificates.map CertificateRow.toProxyCertificate⟩

inductive Content where
  | nginxConf (confd : String)
  | servers (blocks : List Server)
  | pem (text : String)
  | traefikConf (httpPort httpsPort : Nat) (providersFile : String)
  | dynamic (d : Dynamic)
  | routes (t : Table)
  -- a write that has stopped
  | torn
  | other (text : String)

structure ApplyRun where
  engine : String
  status : String
  files : List Path
  failed : Bool
  deriving DecidableEq, Repr

def applyRunning : String := "running"

def applySuccess : String := "success"

def applyFailed : String := "failed"

/- How a call ends. -/
inductive Fault where
  | fine
  | refused
  | torn
  deriving DecidableEq, Repr

structure World where
  settings : Option SettingsRow
  hosts : List HostRow
  redirects : List ProxyRedirect
  certificates : List CertificateRow
  runs : List ApplyRun
  files : Disk Content
  -- the route table that Fiber serves from
  table : Option Table
  now : Nat
  plan : List Fault

/- Where an Apply has stopped. -/
inductive ApplyError where
  | database
  | validation
  | configDir
  | generate
  | runtime
  | unsupported
  deriving DecidableEq, Repr

structure ApplyResult where
  run : ApplyRun
  files : List Path
  engine : String
  preview : Bool
  deriving DecidableEq, Repr

/- What the process runs with; `runtime` is ApplyHost or ApplyDocker of an engine. -/
structure Process where
  m : CaseMap
  parses : String → Bool
  cwd : Path
  -- ResolveConfigDir
  resolved : String
  appBaseURL : String
  runtime : SettingsRow → String → Path → StateM World Bool

def call : StateM World Fault := modifyGet fun w =>
  match w.plan with
  | [] => (.fine,w)
  | f :: plan => (f,{ w with plan := plan })

/- A query, or a call that changes nothing that is looked at. -/
def ask : StateM World Bool := do return (← call) = .fine

def mkdirAll (_ : Path) : StateM World Bool := ask

def change (f : World → World) : StateM World Bool := do
  match ← call with
  | .fine => do
    modify f
    return true
  | _ => return false

section
variable (m : CaseMap) (s : SettingsRow)

def normalizedRuntime (runtime : String) : String :=
  let r := m.toLower (trimSpace runtime)
  if r ≠ runtimeHost ∧ r ≠ runtimeDocker then runtimeDocker else r

def SettingsRow.Normalize : SettingsRow :=
  let engine := m.toLower (trimSpace s.activeEngine)
  let mode := m.toLower (trimSpace s.dockerNetworkMode)
  { s with
    activeEngine := if engine ∈ [engineFiber,engineNginx,engineTraefik] then engine else engineFiber
    nginxRuntime := normalizedRuntime m s.nginxRuntime
    traefikRuntime := normalizedRuntime m s.traefikRuntime
    httpPort := if s.httpPort = 0 then 80 else s.httpPort
    httpsPort := if s.httpsPort = 0 then 443 else s.httpsPort
    configDir := if trimSpace s.configDir = "" then "/config/containerws/proxymanager" else s.configDir
    dockerNetworkMode := if mode ∈ [dockerNetPublished,dockerNetHost,dockerNetMacvlan] then mode else dockerNetPublished
    dockerNetworkName := trimSpace s.dockerNetworkName }

end

/- NewDefaultProxySettings before it is normalized. -/
def defaultSettings : SettingsRow where
  activeEngine := engineFiber
  nginxRuntime := ""
  traefikRuntime := ""
  httpPort := 0
  httpsPort := 0
  dockerNetworkMode := ""
  dockerNetworkName := ""
  configDir := ""
  dirty := true
  lastAppliedAt := none
  lastApplyEngine := ""
  lastApplyFailed := false

def IsLegacyDataConfigDir (path : String) : Bool :=
  let p := trimSpace path
  if p = "" then false
  else p = "data/proxymanager" || "/data/proxymanager".toList.isSuffixOf p.toList ||
    ["data","proxymanager"].isSuffixOf (clean (components path))

section
variable (p : Process)

def AbsoluteConfigDir (override : String) : Path :=
  let root := if trimSpace override = "" then p.resolved else trimSpace override
  clean (raw p.cwd root)

/- With `migrateLegacyConfigDir`. -/
def EnsureSettings : StateM World (Option SettingsRow) := do
  match ← call with
  | .fine =>
    match (← get).settings with
    | some row =>
      let s := row.Normalize p.m
      let next := render (AbsoluteConfigDir p "")
      if IsLegacyDataConfigDir s.configDir = true ∧ next ≠ "" ∧ next ≠ s.configDir then do
        let _ ← change (fun w => { w with settings := some { row with configDir := next } })
        return some ({ s with configDir := next }.Normalize p.m)
      else return some s
    | none =>
      let s := { defaultSettings.Normalize p.m with configDir := render (AbsoluteConfigDir p "") }
      match ← change (fun w => { w with settings := some s }) with
      | true => return some s
      | false => return none
  | _ => return none

def LoadSnapshot : StateM World (Option ApplySnapshot) := do
  match ← EnsureSettings p with
  | none => return none
  | some settings =>
    -- hosts with their locations, redirects, certificates
    match ← ask,← ask,← ask,← ask with
    | true,true,true,true =>
      let w ← get
      return some ⟨settings,w.hosts,w.redirects,w.certificates⟩
    | _,_,_,_ => return none

/- EnsureConfigRoot. -/
def EnsureConfigRoot (s : SettingsRow) : StateM World Bool := mkdirAll (AbsoluteConfigDir p s.configDir)

def engineDir (s : SettingsRow) (engine : String) : Path := join (AbsoluteConfigDir p s.configDir) engine

def ConfigDirFor (s : SettingsRow) (engine : String) : StateM World (Option Path) := do
  match ← mkdirAll (engineDir p s engine) with
  | true => return some (engineDir p s engine)
  | false => return none

end

def tmp (path : Path) : Path := path.dropLast ++ [path.getLast?.getD "" ++ ".tmp"]

/- `writeFile`, the same in the packages: a file next to it that takes its place. -/
def writeFile (path : Path) (c : Content) : StateM World Bool := do
  match ← mkdirAll path.dropLast with
  | false => return false
  | true =>
    match ← call with
    | .refused => return false
    | .torn => do
      modify (fun w => { w with files := w.files.put (tmp path) .torn })
      return false
    | .fine => do
      modify (fun w => { w with files := w.files.put (tmp path) c })
      change (fun w => { w with files := (w.files.remove (tmp path)).put path c })

/- One after the other, up to the first that fails. -/
def writeFiles : List (Path × Content) → StateM World Bool
  | [] => return true
  | (path,c) :: rest => do
    match ← writeFile path c with
    | true => writeFiles rest
    | false => return false

/- The files of the groups that were written whole. -/
def writeGroups : List (List (Path × Content)) → StateM World (List Path × Bool)
  | [] => return ([],true)
  | group :: rest => do
    match ← writeFiles group with
    | true => do
      let (files,ok) ← writeGroups rest
      return (group.map Prod.fst ++ files,ok)
    | false => return ([],false)

/- The material of the certificates that were pasted. -/
def certificateGroups (sslDir : Path) (certs : List CertificateRow) : List (List (Path × Content)) :=
  (certs.filter (fun c => c.source ≠ certPath && trimSpace c.certPEM ≠ "" && trimSpace c.keyPEM ≠ "")).map
    (fun c => [(join sslDir (c.id ++ ".crt"),.pem c.certPEM),(join sslDir (c.id ++ ".key"),.pem c.keyPEM)])

def isConf (n : Name) : Bool := ".conf".toList.isSuffixOf n.toList

/- The host files of another configuration go; one that stays is no error. -/
def clearConf (confd : Path) : StateM World PUnit := do
  match ← ask with
  | true => do
    let names := (← get).files.names confd
    (names.filter isConf).forM (fun n => do
      let _ ← change (fun w => { w with files := w.files.remove (confd ++ [n]) }))
  | false => return ()

section
variable (p : Process) (previewOnly : Bool) (s : ApplySnapshot)

def confGroups (dir : Path) : List (List (Path × Content)) :=
  (Generate p.m s.rows (join dir "ssl") p.appBaseURL).map (fun f => [(join (join dir "conf.d") f.name,.servers f.servers)])

def nginxConf (dir : Path) : List (List (Path × Content)) :=
  [[(join dir "nginx.conf",
    .nginxConf (if s.settings.nginxRuntime = runtimeDocker then "/etc/nginx/conf.d" else render (join dir "conf.d")))]]

def nginxGenerate (dir : Path) : StateM World (List Path × Bool) := do
  let _ ← mkdirAll (join dir "conf.d")
  let _ ← mkdirAll (join dir "ssl")
  match ← writeGroups (nginxConf s dir) with
  | (main,false) => return (main,false)
  | (main,true) =>
    match ← writeGroups (certificateGroups (join dir "ssl") s.certificates) with
    | (_,false) => return (main,false)
    | (certs,true) => do
      clearConf (join dir "conf.d")
      let (confs,ok) ← writeGroups (confGroups p s dir)
      return (main ++ certs ++ confs,ok)

def traefikGroups (dir : Path) : List (List (Path × Content)) :=
  [(join dir "traefik.yml",.traefikConf s.settings.httpPort s.settings.httpsPort
    (if s.settings.traefikRuntime = runtimeDocker then "/etc/traefik/dynamic" else render (join dir "dynamic")))] ::
  (certificateGroups (join dir "ssl") s.certificates ++
    [[(join (join dir "dynamic") "routes.yml",.dynamic (buildDynamic p.m s.rows.rows s.redirects p.appBaseURL))]])

def traefikGenerate (dir : Path) : StateM World (List Path × Bool) := do
  let _ ← mkdirAll (join dir "dynamic")
  let _ ← mkdirAll (join dir "ssl")
  writeGroups (traefikGroups p s dir)

def fiberTable : Table := BuildTable p.m ⟨s.settings.activeEngine,s.rows.rows,s.redirects,p.appBaseURL⟩

def routesFile : Path := join (engineDir p s.settings engineFiber) "routes.json"

def GenerateFiber : StateM World (List Path × Option ApplyError) := do
  match ← ConfigDirFor p s.settings engineFiber with
  | none => return ([],some .configDir)
  | some _ =>
    match ← writeFile (routesFile p s) (.routes (fiberTable p s)) with
    | true => return ([routesFile p s],none)
    | false => return ([],some .generate)

def applyFiber : StateM World (List Path × Option ApplyError) := do
  match ← GenerateFiber p s with
  | (files,none) => do
    if previewOnly then return (files,none)
    else do
      modify (fun w => { w with table := some (fiberTable p s) })
      return (files,none)
  | (files,some e) => return (files,some e)

/- An engine of its own: its files, then its runtime. -/
def applyEngine (engine : String) (generate : Path → StateM World (List Path × Bool)) : StateM World (List Path × Option ApplyError) := do
  match ← ConfigDirFor p s.settings engine with
  | none => return ([],some .configDir)
  | some dir =>
    match ← generate dir with
    | (files,false) => return (files,some .generate)
    | (files,true) =>
      if previewOnly then return (files,none)
      else
        match ← p.runtime s.settings engine dir with
        | true => do
          modify (fun w => { w with table := none })
          return (files,none)
        | false => return (files,some .runtime)

def applyActive : StateM World (List Path × Option ApplyError) :=
  let engine := s.settings.activeEngine
  if engine = engineFiber then applyFiber p previewOnly s
  else if engine = engineNginx then applyEngine p previewOnly s engineNginx (nginxGenerate p s)
  else if engine = engineTraefik then applyEngine p previewOnly s engineTraefik (traefikGenerate p s)
  else return ([],some .unsupported)

def ClearDirty (engine : String) (err : Option ApplyError) : StateM World PUnit := do
  match ← EnsureSettings p with
  | none => return ()
  | some _ => do
    let _ ← change (fun w => { w with
      settings := w.settings.map (fun row => { row with
        lastAppliedAt := some w.now, lastApplyEngine := engine, dirty := err.isSome, lastApplyFailed := err.isSome }) })

/- Once the run is on record. -/
def applyRecorded (i : Nat) : StateM World (Option ApplyResult × Option ApplyError) := do
  let engine := s.settings.activeEngine
  let (files,err) ← applyActive p previewOnly s
  let run : ApplyRun := ⟨engine,if err.isSome then applyFailed else applySuccess,files,err.isSome⟩
  let _ ← change (fun w => { w with runs := w.runs.set i run })
  if previewOnly = false then ClearDirty p engine err
  return (some ⟨run,files,engine,previewOnly⟩,err)

def Apply : StateM World (Option ApplyResult × Option ApplyError) := do
  match ← LoadSnapshot p with
  | none => return (none,some .database)
  | some s =>
    if ValidateSnapshot p.m p.parses s.rows = false then return (none,some .validation)
    else
      match ← EnsureConfigRoot p s.settings with
      | false => return (none,some .configDir)
      | true => do
        let i := (← get).runs.length
        match ← change (fun w => { w with runs := w.runs ++ [⟨s.settings.activeEngine,applyRunning,[],false⟩] }) with
        | false => return (none,some .database)
        | true => applyRecorded p previewOnly s i

end

end ContainerWS.Proxy
