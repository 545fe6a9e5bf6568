import ContainerWS.Best
import ContainerWS.GoStrings

/-! MatchesHost and SpecificityScore of models/softwaresversion.go, and MatchingVersion of
modules/softwares/install/host.go that picks by them. -/
namespace ContainerWS.SoftwareMatch
open GoStrings

/- A version row as far as it is matched. -/
structure SoftwareVersion where
  id : String
  isLatest : Bool := false
  os : String := ""
  osVersion : String := ""
  distro : String := ""
  distroID : String := ""
  distroVersion : String := ""
  arch : String := ""
  platform : String := ""
  packageFamily : String := ""
  kernel : String := ""
  virtualization : String := ""
  containerRuntime : String := ""
  cloudProvider : String := ""
  deriving DecidableEq, Repr

structure HostIdentity where
  os : String := ""
  osVersion : String := ""
  distro : String := ""
  distroID : String := ""
  distroVersion : String := ""
  arch : String := ""
  platform : String := ""
  packageFamily : String := ""
  kernel : String := ""
  virtualization : String := ""
  containerRuntime : String := ""
  cloudProvider : String := ""
  deriving DecidableEq, Repr

variable (m : CaseMap) (fold : Char → Char)

/- `strings.EqualFold`; the table leads each character to one of its fold. -/
def equalFold (s t : String) : Bool := s.toList.map fold == t.toList.map fold

def normID (s : String) : String := m.toLower (trimSpace s)

/- What a version row takes for any host. -/
def wildcard (want : String) : Bool := trimSpace want = "" || trimSpace want = "*" || equalFold fold (trimSpace want) "any"

/- The comma-separated alternatives of a field, blank ones left out. -/
def alternatives (want : String) : List String := ((split ',' (trimSpace want)).map trimSpace).filter (fun part => part ≠ "")

/- One alternative against the host's value, which is trimmed. -/
def partMatches (part host : String) : Bool := equalFold fold part host || hasPrefix (m.toLower host) (m.toLower part)

def fieldMatches (want host : String) : Bool :=
  if wildcard fold want then true
  else if trimSpace host = "" then false
  else (alternatives want).any (fun part => partMatches m fold part (trimSpace host))

def SoftwareVersion.fields (v : SoftwareVersion) : List String :=
  [v.os,v.osVersion,v.distro,v.distroID,v.distroVersion,v.arch,v.platform,v.packageFamily,v.kernel,v.virtualization,
    v.containerRuntime,v.cloudProvider]

def HostIdentity.fields (h : HostIdentity) : List String :=
  [h.os,h.osVersion,h.distro,h.distroID,h.distroVersion,h.arch,h.platform,h.packageFamily,h.kernel,h.virtualization,
    h.containerRuntime,h.cloudProvider]

def checks (v : SoftwareVersion) (h : HostIdentity) : List (String × String) := v.fields.zip h.fields

def MatchesHost (v : SoftwareVersion) (h : HostIdentity) : Bool := (checks v h).all (fun c => fieldMatches m fold c.1 c.2)

def SpecificityScore (v : SoftwareVersion) : Int := (v.fields.countP (fun f => decide (trimSpace f ≠ "")) : Nat)

def NormalizeArch (arch : String) : String :=
  let id := normID m arch
  if id = "x86_64" ∨ id = "amd64" ∨ id = "x64" then "amd64"
  else if id = "aarch64" ∨ id = "arm64" then "arm64"
  else if id = "armv7l" ∨ id = "armhf" ∨ id = "armv7" then "arm"
  else if id = "i386" ∨ id = "i686" ∨ id = "386" then "386"
  else id

/- What the machine says of itself. -/
structure Snapshot where
  os : String
  osVersion : String := ""
  kernel : String := ""
  platform : String := ""
  distro : String := ""
  distroID : String := ""
  distroVersion : String := ""
  arch : String
  virtualization : String := ""
  containerRuntime : String := ""
  cloudProvider : String := ""

def contains (s part : String) : Bool := s.toList.tails.any (fun rest => part.toList.isPrefixOf rest)

def detectPackageFamily (distroID distroName : String) : String :=
  let id := normID m distroID
  let name := normID m distroName
  if contains id "ubuntu" || contains id "debian" || contains id "kali" || contains id "mint" || contains id "pop" ||
      contains name "ubuntu" || contains name "debian" || contains name "kali" then "apt"
  else if contains id "rhel" || contains id "fedora" || contains id "centos" || contains id "rocky" || contains id "alma" ||
      contains name "fedora" then "dnf"
  else if contains id "arch" || contains id "manjaro" || contains name "arch" then "pacman"
  else if contains id "alpine" then "apk"
  else ""

def CurrentHostIdentity (snap : Snapshot) : HostIdentity :=
  let arch := NormalizeArch m snap.arch
  { os := snap.os, osVersion := snap.osVersion, distro := snap.distro, distroID := snap.distroID
    distroVersion := snap.distroVersion, arch := arch
    platform := if trimSpace snap.platform = "" then snap.os ++ "/" ++ arch else trimSpace snap.platform
    packageFamily := detectPackageFamily m snap.distroID snap.distro, kernel := snap.kernel
    virtualization := snap.virtualization, containerRuntime := snap.containerRuntime, cloudProvider := snap.cloudProvider }

def versionScore (preferLatest : Bool) (v : SoftwareVersion) : Int :=
  if preferLatest && v.isLatest then SpecificityScore v+100 else SpecificityScore v

/- The first of the highest score among those that match. -/
def MatchingVersion (versions : List SoftwareVersion) (host : HostIdentity) (preferLatest : Bool) : Option SoftwareVersion :=
  Best.pick (fun v => MatchesHost m fold v host) (versionScore preferLatest) (-1) versions

def pickBestVersion (versions : List SoftwareVersion) (host : HostIdentity) (preferLatest : Bool) : Option SoftwareVersion :=
  match MatchingVersion m fold versions host preferLatest with
  | some best => some best
  | none =>
    match versions.find? SoftwareVersion.isLatest with
    | some v => some v
    | none => versions.head?

/- A field that names the host's kind, with its normal form: every field but the version numbers. -/
structure IdentityField where
  norm : String → String
  want : String
  host : String

def identityFields (v : SoftwareVersion) (h : HostIdentity) : List IdentityField :=
  [⟨normID m,v.os,h.os⟩,⟨normID m,v.distro,h.distro⟩,⟨normID m,v.distroID,h.distroID⟩,⟨NormalizeArch m,v.arch,h.arch⟩,
    ⟨normID m,v.platform,h.platform⟩,⟨normID m,v.packageFamily,h.packageFamily⟩,⟨normID m,v.virtualization,h.virtualization⟩,
    ⟨normID m,v.containerRuntime,h.containerRuntime⟩,⟨normID m,v.cloudProvider,h.cloudProvider⟩]

/- The same value: but for case, or in normal form. -/
def IdentityField.same (f : IdentityField) (part : String) : Prop :=
  equalFold fold part (trimSpace f.host) = true ∨ f.norm part = f.norm f.host

/- Concrete, and none of its alternatives is the host's value. -/
def IdentityField.Differs (f : IdentityField) : Prop :=
  wildcard fold f.want = false ∧ ∀ part ∈ alternatives f.want, ¬ f.same fold part

def RejectsOthers (v : SoftwareVersion) (h : HostIdentity) : Prop :=
  ∀ f ∈ identityFields m v h, f.Differs fold → MatchesHost m fold v h = false

/- Another value that the host's value begins with. -/
def IdentityField.PrefixOnly (f : IdentityField) : Prop :=
  f.Differs fold ∧ trimSpace f.host ≠ "" ∧ ∃ part ∈ alternatives f.want, hasPrefix (m.toLower (trimSpace f.host)) (m.toLower part) = true

theorem identityChecked {v : SoftwareVersion} {h : HostIdentity} {f : IdentityField} (mem : f ∈ identityFields m v h) :
    (f.want,f.host) ∈ checks v h := by
  simp only [identityFields,List.mem_cons,List.not_mem_nil,or_false] at mem
  rcases mem with rfl | rfl | rfl | rfl | rfl | rfl | rfl | rfl | rfl <;>
    simp [checks,SoftwareVersion.fields,HostIdentity.fields]

/- A concrete field that differs is met through a prefix, or not at all. -/
theorem differsMatches {f : IdentityField} (differs : f.Differs fold) :
    fieldMatches m fold f.want f.host = true ↔ f.PrefixOnly m fold := by
  unfold fieldMatches
  rw [differs.1,if_neg Bool.false_ne_true]
  by_cases blank : trimSpace f.host = ""
  · rw [if_pos blank]
    exact iff_of_false Bool.false_ne_true (fun only => only.2.1 blank)
  · rw [if_neg blank,List.any_eq_true]
    constructor
    · rintro ⟨part,mem,fits⟩
      refine ⟨differs,blank,part,mem,?_⟩
      unfold partMatches at fits
      rw [Bool.or_eq_true] at fits
      exact fits.resolve_left (fun equal => differs.2 part mem (.inl equal))
    · rintro ⟨_,_,part,mem,start⟩
      exact ⟨part,mem,by rw [partMatches,start,Bool.or_true]⟩

theorem rejectsIff (v : SoftwareVersion) (h : HostIdentity) : RejectsOthers m fold v h ↔
    ∀ f ∈ identityFields m v h, f.PrefixOnly m fold → ∃ c ∈ checks v h, fieldMatches m fold c.1 c.2 = false := by
  have refused : MatchesHost m fold v h = false ↔ ∃ c ∈ checks v h, fieldMatches m fold c.1 c.2 = false := by
    rw [MatchesHost,List.all_eq_false]
    simp only [Bool.not_eq_true]
  unfold RejectsOthers
  rw [refused]
  constructor
  · exact fun all f mem only => all f mem only.1
  · intro all f mem differs
    by_cases only : f.PrefixOnly m fold
    · exact all f mem only
    · refine ⟨_,identityChecked m mem,?_⟩
      rw [← Bool.not_eq_true,differsMatches m fold differs]
      exact only

def armVersion : SoftwareVersion := { id := "arm-build", arch := "arm" }

def arm64Host : HostIdentity := { os := "linux", arch := "arm64" }

theorem armOnArm64 : ¬ ∀ (m : CaseMap) (fold : Char → Char) (v : SoftwareVersion) (h : HostIdentity), RejectsOthers m fold v h := by
  intro all
  have differs : (⟨NormalizeArch ascii,"arm","arm64"⟩ : IdentityField).Differs Char.toLower := by
    unfold IdentityField.Differs IdentityField.same
    decide
  have refused := all ascii Char.toLower armVersion arm64Host ⟨NormalizeArch ascii,"arm","arm64"⟩
    (by simp [identityFields,armVersion,arm64Host]) differs
  revert refused
  decide

end ContainerWS.SoftwareMatch
