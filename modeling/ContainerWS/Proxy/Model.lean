import ContainerWS.GoPath
import ContainerWS.GoStrings

/-! The rows of models/proxy_hosts.go and models/proxy_redirects.go that the three
engines are generated from. What only the administration shows is left out: times,
notes, order numbers and the forward fields that UpstreamTarget is computed from. -/
namespace ContainerWS.Proxy
open GoPath GoStrings

/- A value of a JSON object, of which the engines read texts only. -/
abbrev Extra := Option String

structure ProxyLocation where
  id : String
  pathPrefix : String
  upstreamType : String
  upstreamTarget : String
  stripPrefix : Bool
  websocket : Bool
  deriving DecidableEq, Repr

structure ProxyHost where
  id : String
  name : String
  domains : String
  listenScheme : String
  upstreamType : String
  upstreamTarget : String
  websocket : Bool
  sslForced : Bool
  blockExploits : Bool
  cachingEnabled : Bool
  http2Support : Bool
  customHeaders : List (String × Extra)
  locations : List ProxyLocation
  deriving DecidableEq, Repr

structure ProxyRedirect where
  fromHost : String
  fromPath : String
  toURL : String
  statusCode : Nat
  preservePath : Bool
  deriving DecidableEq, Repr

def upstreamURL : String := "url"

def upstreamAppPath : String := "app_path"

/- Trimmed domain names that are not empty. -/
def ProxyHost.domainList (m : CaseMap) (h : ProxyHost) : List String :=
  ((split ',' h.domains).map (fun p => trimSpace (m.toLower p))).filter (fun p => p != "")

/- The base of the application, without the separators at its end. -/
def appBase (appBaseURL : String) : String :=
  let base := trimRight '/' (trimSpace appBaseURL)
  if base = "" then "http://127.0.0.1" else base

/- `resolveUpstream`, the same in the three packages. -/
def resolveUpstream (kind target appBaseURL : String) : String :=
  let target := trimSpace target
  if kind = upstreamAppPath then
    appBase appBaseURL ++ (if hasPrefix target "/" then target else "/" ++ target)
  else target

/- The upstream of a location, or the one of its host. -/
def ProxyLocation.upstream (loc : ProxyLocation) (hostUpstream appBaseURL : String) : String :=
  if trimSpace loc.upstreamTarget ≠ "" then resolveUpstream loc.upstreamType loc.upstreamTarget appBaseURL
  else hostUpstream

def ProxyHost.upstream (h : ProxyHost) (appBaseURL : String) : String :=
  resolveUpstream h.upstreamType h.upstreamTarget appBaseURL

def normalizedPrefix (pathPrefix : String) : String :=
  let p := trimSpace pathPrefix
  if p = "" then "/" else if hasPrefix p "/" then p else "/" ++ p

def normalizedType (m : CaseMap) (kind : String) : String :=
  if m.toLower (trimSpace kind) = upstreamAppPath then upstreamAppPath else upstreamURL

/- What a location is saved as. -/
def ProxyLocation.Normalize (m : CaseMap) (loc : ProxyLocation) : ProxyLocation where
  id := loc.id
  pathPrefix := normalizedPrefix loc.pathPrefix
  upstreamType := normalizedType m loc.upstreamType
  upstreamTarget := trimSpace loc.upstreamTarget
  stripPrefix := loc.stripPrefix
  websocket := loc.websocket

/- Where a plain HTTP request goes: its paths begin with a separator. -/
structure Request where
  host : String
  path : String
  rooted : hasPrefix path "/" = true

theorem prefixIff {s start : String} : hasPrefix s start = true ↔ start.toList <+: s.toList := List.isPrefixOf_iff_prefix

theorem normalizedRooted (pathPrefix : String) : hasPrefix (normalizedPrefix pathPrefix) "/" = true := by
  unfold normalizedPrefix
  dsimp only
  split
  · rfl
  · split
    · assumption
    · rw [prefixIff,String.toList_append]
      exact List.prefix_append _ _

end ContainerWS.Proxy
