import ContainerWS.GoPath

/-! packages/softwarepkg/resolve.go: the folder names that a software may have in a registry and the
documents that are looked for in them. -/
namespace ContainerWS.SoftwarePkg
open GoPath GoStrings

structure HostFacts where
  distroID : String
  distroVersion : String
  arch : String
  deriving DecidableEq, Repr

/- `strings.ReplaceAll(s, "..", "")`: pair by pair from the left. -/
def dropPairs : List Char → List Char
  | '.' :: '.' :: cs => dropPairs cs
  | c :: cs => c :: dropPairs cs
  | [] => []

/- `strings.ReplaceAll(s, c, "")`. -/
def dropAll (c : Char) (cs : List Char) : List Char := cs.filter (fun d => d ≠ c)

section
variable (m : CaseMap)

def sanitizeSegment (s : String) : String :=
  let s := trimSpace s
  let s := m.toLower s
  let s := replaceAll ' ' '-' s
  let s := String.ofList (dropPairs s.toList)
  let s := String.ofList (dropAll '/' s.toList)
  String.ofList (dropAll '\\' s.toList)

def normID (s : String) : String := m.toLower (trimSpace s)

/- models.NormalizeArch. -/
def NormalizeArch (arch : String) : String :=
  let id := normID m arch
  if id ∈ ["x86_64","amd64","x64"] then "amd64"
  else if id ∈ ["aarch64","arm64"] then "arm64"
  else if id ∈ ["armv7l","armhf","armv7"] then "arm"
  else if id ∈ ["i386","i686","386"] then "386"
  else id

/- Each path once, in the order in which they are added. -/
def addOnce (out : List String) (p : String) : List String := if p ∈ out then out else out ++ [p]

def installPath (name distro ver arch : String) : String :=
  "softwares/" ++ name ++ "/" ++ distro ++ "/" ++ ver ++ "/" ++ arch ++ "/install.json"

def defaultPath (name : String) : String := "softwares/" ++ name ++ "/default/install.json"

def ResolveInstallPaths (softwareName : String) (host : HostFacts) : List String :=
  let name := sanitizeSegment m softwareName
  if name = "" then []
  else
    let distro := sanitizeSegment m host.distroID
    let ver := sanitizeSegment m host.distroVersion
    let arch := sanitizeSegment m (NormalizeArch m host.arch)
    let arch := if arch = "" then "any" else arch
    let paths := if distro ≠ "" ∧ ver ≠ "" ∧ arch ≠ "" then [installPath name distro ver arch] else []
    let paths := if distro ≠ "" ∧ ver ≠ "" then addOnce paths (installPath name distro ver "any") else paths
    let paths := if distro ≠ "" ∧ arch ≠ "" then addOnce paths (installPath name distro "any" arch) else paths
    let paths := if distro ≠ "" then addOnce paths (installPath name distro "any" "any") else paths
    addOnce paths (defaultPath name)

def metaPath (name : String) : String := "softwares/" ++ name ++ "/package.json"

def PackageMetaPath (softwareName : String) : String :=
  let name := sanitizeSegment m softwareName
  if name = "" then "" else metaPath name

def JoinRawURL (rawBase relPath : String) : String :=
  let base := trimRight '/' (trimSpace rawBase)
  let rel := String.ofList ((render (clean (components (trimSpace relPath)))).toList.dropWhile (fun c => c == '/'))
  if base = "" ∨ rel = "" ∨ rel = "." then base else base ++ "/" ++ rel

/- `strings.Fields`. -/
def fields (s : String) : List String :=
  ((s.toList.splitOnP isSpace).filter (fun f => f ≠ [])).map String.ofList

def CandidateSlugs (softwareName : String) : List String :=
  let primary := sanitizeSegment m softwareName
  if primary = "" then []
  else
    let add (out : List String) (s : String) : List String :=
      let s := sanitizeSegment m s
      if s = "" then out else addOnce out s
    let out := if '-' ∈ primary.toList ∧ before '-' primary ≠ "" then add [primary] (before '-' primary) else [primary]
    match fields (m.toLower (trimSpace softwareName)) with
    | f :: _ => add out f
    | [] => out

end

end ContainerWS.SoftwarePkg
