import ContainerWS.Nginx
import ContainerWS.Proxy.Dynamic
import ContainerWS.StableFirst

/-! What packages/proxymanager/nginx/generate.go writes into conf.d: a file with its server
blocks for each redirect and each proxy host. Of nginx.conf only the include of these files
is used; the contents of certificates are left out. -/
namespace ContainerWS.Proxy
open GoPath GoStrings Nginx

def runtimeHost : String := "host"

def runtimeDocker : String := "docker"

def dockerNetPublished : String := "published"

def certPath : String := "path"

structure ProxySettings where
  activeEngine : String
  nginxRuntime : String
  traefikRuntime : String
  httpPort : Nat
  httpsPort : Nat
  dockerNetworkMode : String
  dockerNetworkName : String
  deriving DecidableEq, Repr

structure ProxyCertificate where
  id : String
  source : String
  certPath : String
  keyPath : String
  deriving DecidableEq, Repr

/- A row of proxy_hosts with the fields that no route is made of. -/
structure HostRow extends ProxyHost where
  forwardHost : String
  certificateID : Option String
  deriving DecidableEq, Repr

structure Snapshot where
  settings : ProxySettings
  hosts : List HostRow
  redirects : List ProxyRedirect
  certificates : List ProxyCertificate

def ProxySettings.DockerUsesPublishedPorts (s : ProxySettings) : Bool :=
  let mode := if s.dockerNetworkMode = "" then dockerNetPublished else s.dockerNetworkMode
  mode = dockerNetPublished || mode = "bridge"

def ProxySettings.NginxContainerListenPorts (s : ProxySettings) : Nat × Nat :=
  if s.nginxRuntime = runtimeDocker ∧ s.DockerUsesPublishedPorts = true then (80,443)
  else (if s.httpPort = 0 then 80 else s.httpPort,if s.httpsPort = 0 then 443 else s.httpsPort)

/- The ports that server blocks listen on. -/
def ProxySettings.nginxPorts (s : ProxySettings) : Nat × Nat :=
  if s.nginxRuntime = runtimeHost then (s.httpPort,s.httpsPort) else s.NginxContainerListenPorts

/- `%03d`. -/
def threeDigits (i : Nat) : String :=
  String.ofList (List.replicate (3-(toString i).length) '0') ++ toString i

def sanitize (m : CaseMap) (s : String) : String :=
  let out := (m.toLower (trimSpace s)).toList.map (fun c =>
    if ('a' ≤ c ∧ c ≤ 'z') ∨ ('0' ≤ c ∧ c ≤ '9') ∨ c = '-' ∨ c = '_' then c else '-')
  if out = [] then "host" else String.ofList (out.take 40)

/- A file of conf.d. -/
structure File where
  name : String
  servers : List Server
  deriving DecidableEq, Repr

def redirectTo (r : ProxyRedirect) : List Piece :=
  if r.preservePath then [.text (trimRight '/' r.toURL),.requestURI] else [.text r.toURL]

def renderRedirect (r : ProxyRedirect) (httpPort : Nat) : Server where
  listen := httpPort
  ssl := false
  certificate := ""
  key := ""
  names := [r.fromHost]
  answer := none
  locations := [⟨.start r.fromPath,.answer r.statusCode (redirectTo r),[]⟩]

def redirectFile (m : CaseMap) (httpPort : Nat) (r : ProxyRedirect × Nat) : File :=
  ⟨"redirect-" ++ threeDigits r.2 ++ "-" ++ sanitize m r.1.fromHost ++ ".conf",[renderRedirect r.1 httpPort]⟩

def certPaths (s : ProxySettings) (h : HostRow) (certs : List ProxyCertificate) (sslDir : Path) : String × String :=
  match h.certificateID.bind (fun id => certs.find? (fun c => c.id = id)) with
  | none => ("","")
  | some c =>
    if c.source = certPath then (c.certPath,c.keyPath)
    else if s.nginxRuntime = runtimeDocker then ("/etc/nginx/ssl/" ++ c.id ++ ".crt","/etc/nginx/ssl/" ++ c.id ++ ".key")
    else (render (join sslDir (c.id ++ ".crt")),render (join sslDir (c.id ++ ".key")))

def writeLocation (start upstream : String) (strip ws cache : Bool) (headers : List (String × Extra)) : Location where
  matcher := .start start
  action := .pass (trimRight '/' upstream)
  directives :=
    (if strip ∧ start ≠ "/" then ["rewrite ^" ++ trimRight '/' start ++ "/?(.*)$ /$1 break"] else []) ++
    ["proxy_set_header Host $host","proxy_set_header X-Real-IP $remote_addr",
      "proxy_set_header X-Forwarded-For $proxy_add_x_forwarded_for","proxy_set_header X-Forwarded-Proto $scheme"] ++
    (if ws then ["proxy_http_version 1.1","proxy_set_header Upgrade $http_upgrade","proxy_set_header Connection $connection_upgrade"]
      else []) ++
    (if cache then ["proxy_cache_valid 200 1h","add_header X-Cache-Status $upstream_cache_status"] else []) ++
    headers.filterMap (fun kv => kv.2.map (fun v => "proxy_set_header " ++ kv.1 ++ " " ++ v))

/- Probes that a host may keep out. -/
def exploits : Location where
  matcher := .anyOf ["/.","/wp-config.php","/xmlrpc.php","/wp-login.php"]
  action := .page 404
  directives := ["deny all"]

def Entry.location (appBaseURL : String) (e : Entry) : Location :=
  match e.place with
  | none => writeLocation "/" (e.upstream appBaseURL) false e.host.websocket e.host.cachingEnabled e.host.customHeaders
  | some loc => writeLocation loc.2.pathPrefix (e.upstream appBaseURL) loc.2.stripPrefix (loc.2.websocket || e.host.websocket)
      e.host.cachingEnabled e.host.customHeaders

def hostLocations (appBaseURL : String) (h : ProxyHost) (i : Nat) : List Location :=
  (if h.blockExploits then [exploits] else []) ++ (hostEntries h i).map (Entry.location appBaseURL)

/- The block for plain requests; where SSL is forced it has no name. -/
def plainServer (m : CaseMap) (httpPort : Nat) (appBaseURL : String) (h : ProxyHost) (i : Nat) : Server where
  listen := httpPort
  ssl := false
  certificate := ""
  key := ""
  names := if h.sslForced then [""] else h.domainList m
  answer := if h.sslForced then some (301,[.text "https://",.host,.requestURI]) else none
  locations := if h.sslForced then [] else hostLocations appBaseURL h i

def sslServer (m : CaseMap) (httpsPort : Nat) (paths : String × String) (appBaseURL : String) (h : ProxyHost) (i : Nat) : Server where
  listen := httpsPort
  ssl := true
  certificate := paths.1
  key := paths.2
  names := h.domainList m
  answer := none
  locations := hostLocations appBaseURL h i

def listenHTTP (h : ProxyHost) : Bool := h.listenScheme = schemeHTTP || h.listenScheme = schemeBoth || h.sslForced

def listenHTTPS (h : ProxyHost) : Bool := h.listenScheme = schemeHTTPS || h.listenScheme = schemeBoth || h.sslForced

def renderHost (m : CaseMap) (s : ProxySettings) (certs : List ProxyCertificate) (sslDir : Path) (appBaseURL : String) (h : HostRow) (i : Nat) :
    List Server :=
  (if listenHTTP h.toProxyHost then [plainServer m s.nginxPorts.1 appBaseURL h.toProxyHost i] else []) ++
    (if listenHTTPS h.toProxyHost then [sslServer m s.nginxPorts.2 (certPaths s h certs sslDir) appBaseURL h.toProxyHost i] else [])

def hostFile (m : CaseMap) (s : Snapshot) (sslDir : Path) (appBaseURL : String) (h : HostRow × Nat) : File :=
  ⟨"host-" ++ threeDigits h.2 ++ "-" ++ sanitize m h.1.name ++ ".conf",renderHost m s.settings s.certificates sslDir appBaseURL h.1 h.2⟩

/- The page of a proxy without hosts. -/
def defaultFile (httpPort : Nat) : File :=
  ⟨"00-default.conf",[⟨httpPort,false,"","",["_"],none,[⟨.start "/",.page 200,["add_header Content-Type text/plain"]⟩]⟩]⟩

def Generate (m : CaseMap) (s : Snapshot) (sslDir : Path) (appBaseURL : String) : List File :=
  s.redirects.zipIdx.map (redirectFile m s.settings.nginxPorts.1) ++ s.hosts.zipIdx.map (hostFile m s sslDir appBaseURL) ++
    if s.hosts = [] ∧ s.redirects = [] then [defaultFile s.settings.nginxPorts.1] else []

/- By the text that a name function gives. -/
def byName {α : Type} (name : α → String) (a b : α) : Prop := name a ≤ name b

section
variable {α : Type} (name : α → String)

instance : DecidableRel (byName name) := fun a b => inferInstanceAs (Decidable (name a ≤ name b))

instance : Std.Total (byName name) := ⟨fun a b => le_total (name a) (name b)⟩

instance : IsTrans α (byName name) := ⟨fun _ _ _ => le_trans⟩

end

/- The servers as they are included: by the names of their files. -/
def included (files : List File) : List Server := (files.insertionSort (byName File.name)).flatMap File.servers

theorem sortedFiles {α : Type} (f : α → File) (l : List α) :
    (l.map f).insertionSort (byName File.name) = (l.insertionSort (byName (fun a => (f a).name))).map f :=
  (List.map_insertionSort (byName (fun a => (f a).name)) (byName File.name) f l (fun _ _ _ _ => Iff.rfl)).symm

end ContainerWS.Proxy
