import ContainerWS.Decimals
import ContainerWS.Proxy.Model

/-! ProxyHost.Normalize of models/proxy_hosts.go and applyHostBody of modules/proxymanager/hosts, on all
fields of a row. `parse` is `url.Parse`, as far as its result is read. -/
namespace ContainerWS.Proxy.Rows
open GoStrings Decimals

structure ParsedURL where
  scheme : String
  host : String
  hostname : String
  port : String
  deriving DecidableEq, Repr

structure ProxyHost where
  id : String := ""
  name : String := ""
  domains : String := ""
  enabled : Bool := false
  listenScheme : String := ""
  forwardScheme : String := ""
  forwardHost : String := ""
  forwardPort : Int := 0
  upstreamType : String := ""
  upstreamTarget : String := ""
  websocket : Bool := false
  sslForced : Bool := false
  blockExploits : Bool := false
  cachingEnabled : Bool := false
  http2Support : Bool := false
  customHeaders : Option (List (String × Extra)) := none
  notes : String := ""
  certificateID : Option String := none
  orderNr : Int := 0
  deriving DecidableEq, Repr

def proxySchemeHTTP : String := "http"

def proxySchemeHTTPS : String := "https"

def proxySchemeBoth : String := "both"

variable (m : LowerMap) (parse : String → Option ParsedURL)

def normalizedListen (s : String) : String :=
  let scheme := m.toLower (trimSpace s)
  if scheme = proxySchemeHTTP ∨ scheme = proxySchemeHTTPS ∨ scheme = proxySchemeBoth then scheme else proxySchemeHTTP

def normalizedForward (s : String) : String :=
  if m.toLower (trimSpace s) = proxySchemeHTTPS then proxySchemeHTTPS else proxySchemeHTTP

def defaultPort (forwardScheme : String) : Int := if forwardScheme = proxySchemeHTTPS then 443 else 80

def portOr (forwardScheme : String) (port : Int) : Int := if port ≤ 0 then defaultPort forwardScheme else port

/- `fmt.Sprintf("%s://%s:%d", …)`. -/
def targetOf (scheme host : String) (port : Int) : String := scheme ++ "://" ++ host ++ ":" ++ Itoa port

/- What the forward fields become for a target that names a host. -/
def forwardOf (target : String) : Option (String × String × Int) :=
  match parse target with
  | none => none
  | some u =>
    if u.host = "" then none
    else
      let scheme := if m.toLower u.scheme = proxySchemeHTTPS then proxySchemeHTTPS else proxySchemeHTTP
      let (n,ok) := Atoi u.port
      some (scheme,u.hostname,if u.port ≠ "" ∧ ok = true then n else defaultPort scheme)

def syncForwardFromUpstream (h : ProxyHost) : ProxyHost :=
  match forwardOf m parse h.upstreamTarget with
  | none => h
  | some (scheme,host,port) => {h with forwardScheme := scheme, forwardHost := host, forwardPort := port}

/- The fields that are cleaned one by one. -/
def cleaned (h : ProxyHost) : ProxyHost :=
  let forwardScheme := normalizedForward m h.forwardScheme
  {h with
    name := trimSpace h.name
    domains := trimSpace h.domains
    upstreamType := normalizedType m.toCaseMap h.upstreamType
    listenScheme := normalizedListen m h.listenScheme
    forwardScheme := forwardScheme
    forwardHost := trimSpace h.forwardHost
    forwardPort := portOr forwardScheme h.forwardPort}

/- Prefer discrete forward_* fields; fall back to parsing UpstreamTarget. -/
def settleUpstream (h : ProxyHost) : ProxyHost :=
  if h.upstreamType = upstreamURL then
    if h.forwardHost ≠ "" then {h with upstreamTarget := targetOf h.forwardScheme h.forwardHost h.forwardPort}
    else if h.upstreamTarget ≠ "" then syncForwardFromUpstream m parse h
    else h
  else h

def Normalize (h : ProxyHost) : ProxyHost :=
  let h := settleUpstream m parse (cleaned m h)
  {h with upstreamTarget := trimSpace h.upstreamTarget, customHeaders := some (h.customHeaders.getD [])}

structure LocationBody where
  id : String := ""
  pathPrefix : String := ""
  upstreamType : String := ""
  upstreamTarget : String := ""
  stripPrefix : Bool := false
  websocket : Bool := false
  extras : Option (List (String × Extra)) := none
  orderNr : Int := 0
  enabled : Option Bool := none
  deriving DecidableEq, Repr

/- A pointer that is nil, and a list that is left out, are none. -/
structure HostBody where
  name : String := ""
  domains : String := ""
  enabled : Option Bool := none
  listenScheme : String := ""
  forwardScheme : String := ""
  forwardHost : String := ""
  forwardPort : Option Int := none
  upstreamType : String := ""
  upstreamTarget : String := ""
  websocket : Option Bool := none
  sslForced : Option Bool := none
  blockExploits : Option Bool := none
  cachingEnabled : Option Bool := none
  http2Support : Option Bool := none
  customHeaders : Option (List (String × Extra)) := none
  notes : String := ""
  certificateID : Option String := none
  orderNr : Int := 0
  locations : Option (List LocationBody) := none

inductive BodyError where
  | nameAndDomains
  | forwardHost
  deriving DecidableEq, Repr

/- A text that the body gives, or the one of the row. -/
def given (new old : String) : String := if new ≠ "" then new else old

/- A flag that is on when a row is created and the body does not say. -/
def flag (creating : Bool) (new : Option Bool) (old : Bool) : Bool := new.getD (if creating then true else old)

def bodyFilled (row : ProxyHost) (body : HostBody) (creating : Bool) : ProxyHost :=
  {row with
    name := given body.name row.name
    domains := given body.domains row.domains
    enabled := flag creating body.enabled row.enabled
    listenScheme := given body.listenScheme row.listenScheme
    forwardScheme := given body.forwardScheme row.forwardScheme
    forwardHost := given body.forwardHost row.forwardHost
    forwardPort := body.forwardPort.getD row.forwardPort
    upstreamType := given body.upstreamType row.upstreamType
    upstreamTarget := given body.upstreamTarget row.upstreamTarget
    websocket := flag creating body.websocket row.websocket
    sslForced := body.sslForced.getD row.sslForced
    blockExploits := flag creating body.blockExploits row.blockExploits
    cachingEnabled := body.cachingEnabled.getD row.cachingEnabled
    http2Support := flag creating body.http2Support row.http2Support
    customHeaders := if body.customHeaders.isSome then body.customHeaders else row.customHeaders
    notes := body.notes
    certificateID := body.certificateID
    orderNr := body.orderNr}

def applyHostBody (row : ProxyHost) (body : HostBody) (creating : Bool) : Except BodyError ProxyHost :=
  if creating = true ∧ (trimSpace body.name = "" ∨ trimSpace body.domains = "") then .error .nameAndDomains
  else
    let row := Normalize m parse (bodyFilled row body creating)
    if row.upstreamType = upstreamURL ∧ trimSpace row.upstreamTarget = "" ∧ trimSpace row.forwardHost = "" then .error .forwardHost
    else .ok row

end ContainerWS.Proxy.Rows
