import ContainerWS.GoPath
import ContainerWS.Update.Semver

/-! fetchReleases of modules/settings/update/github.go on a decoded answer, and the update status of
c.go that is made from it. Transport and JSON are outside. -/
namespace ContainerWS.Update
open GoStrings

structure GhAsset where
  name : String
  browserDownloadURL : String := ""
  size : Int := 0
  deriving DecidableEq, Repr

structure GhRelease where
  tagName : String
  name : String := ""
  draft : Bool := false
  prerelease : Bool := false
  htmlURL : String := ""
  body : String := ""
  publishedAt : Int := 0
  assets : List GhAsset := []
  deriving DecidableEq, Repr

structure Release where
  tag : String
  name : String
  publishedAt : Int
  prerelease : Bool
  draft : Bool
  htmlURL : String
  body : String
  newer : Bool
  assetName : String := ""
  assetURL : String := ""
  assetSize : Int := 0
  hasAsset : Bool := false
  deriving DecidableEq, Repr

/- The running program: `runtime.GOOS`, `runtime.GOARCH`, the variable GOARM, and its version. -/
structure Platform where
  goos : String := "linux"
  goarch : String := "amd64"
  goarm : String := ""
  repo : String := "izetmolla/containerws"
  version : String

def Platform.arm (p : Platform) : String := if p.goarm = "" then "7" else p.goarm

def expectedAssetName (p : Platform) (tag : String) : String :=
  let armSuffix := if p.goarch = "arm" then "v" ++ p.arm else ""
  "containerws_" ++ normalizeVersion tag ++ "_" ++ p.goos ++ "_" ++ p.goarch ++ armSuffix

def platformSuffix (p : Platform) : String :=
  if p.goarch = "arm" then "_" ++ p.goos ++ "_armv" ++ p.arm else "_" ++ p.goos ++ "_" ++ p.goarch

def archiveBase (name : String) : String :=
  GoPath.trimSuffix (GoPath.trimSuffix (GoPath.trimSuffix (trimSpace name) ".tar.gz") ".tgz") ".zip"

def matchAssetExact (p : Platform) (name expected tag : String) : Bool :=
  let base := archiveBase name
  if base = "" then false
  else if base = expected then true
  else
    let alt := "containerws_" ++ tag ++ "_" ++ p.goos ++ "_" ++ p.goarch
    base = if p.goarch = "arm" then alt ++ "v" ++ p.arm else alt

def matchAssetLoose (p : Platform) (name : String) : Bool :=
  hasPrefix (archiveBase name) "containerws_" && (platformSuffix p).toList.isSuffixOf (archiveBase name).toList

/- The first exact match, or else the first loose one. -/
def pickAsset (p : Platform) (assets : List GhAsset) (tag : String) : Option GhAsset :=
  match assets.find? (fun a => matchAssetExact p a.name (expectedAssetName p tag) tag) with
  | some a => some a
  | none => assets.find? (fun a => matchAssetLoose p a.name)

def releaseDownloadURL (p : Platform) (tag assetName : String) : String :=
  if trimSpace tag = "" ∨ trimSpace assetName = "" then ""
  else "https://github.com/" ++ p.repo ++ "/releases/download/" ++ trimSpace tag ++ "/" ++ trimSpace assetName

def released (p : Platform) (currentVersion : String) (r : GhRelease) : Release :=
  let rel : Release :=
    { tag := r.tagName, name := r.name, publishedAt := r.publishedAt, prerelease := r.prerelease, draft := r.draft,
      htmlURL := r.htmlURL, body := r.body, newer := isNewer r.tagName currentVersion }
  match pickAsset p r.assets r.tagName with
  | some asset =>
    let url := releaseDownloadURL p r.tagName asset.name
    {rel with
      assetName := asset.name
      assetURL := if url = "" then asset.browserDownloadURL else url
      assetSize := asset.size
      hasAsset := true}
  | none => rel

/- One release of the loop: what is listed so far, and the stable tag. -/
def listRelease (p : Platform) (currentVersion : String) (acc : List Release × String) (r : GhRelease) : List Release × String :=
  if r.draft then acc
  else (acc.1 ++ [released p currentVersion r],if !r.prerelease && acc.2 = "" then r.tagName else acc.2)

def fetchReleases (p : Platform) (answer : Except String (List GhRelease)) (currentVersion : String) :
    Except String (List Release × String) :=
  match answer with
  | .error e => .error e
  | .ok raw =>
    let (out,latestStable) := raw.foldl (listRelease p currentVersion) ([],"")
    .ok (out,if latestStable = "" then (out.head?.elim "" Release.tag) else latestStable)

structure CacheState where
  releases : List Release
  latestTag : String
  err : String

/- CheckAPI, like every other refresh: the cache takes what the fetch gives. -/
def refreshCache (p : Platform) (answer : Except String (List GhRelease)) : CacheState :=
  match fetchReleases p answer p.version with
  | .error e => ⟨[],"",e⟩
  | .ok (releases,latest) => ⟨releases,latest,""⟩

structure Status where
  currentVersion : String
  expectedAsset : String
  latestTag : String
  updateAvailable : Bool
  lastError : String
  releasesCount : Nat

def statusPayload (p : Platform) (c : CacheState) : Status :=
  { currentVersion := p.version, expectedAsset := expectedAssetName p p.version, latestTag := c.latestTag
    updateAvailable := if c.latestTag ≠ "" then isNewer c.latestTag p.version else false
    lastError := c.err, releasesCount := c.releases.length }

def stable (raw : List GhRelease) : List GhRelease := raw.filter (fun r => !r.draft && !r.prerelease)

def published (raw : List GhRelease) : List GhRelease := raw.filter (fun r => !r.draft)

/- The stable version is a stable release that no stable one exceeds, and the flag says whether there
is a stable one above the running version. -/
def Latest (p : Platform) (raw : List GhRelease) : Prop :=
  let c := refreshCache p (.ok raw)
  (stable raw ≠ [] → ∃ r ∈ stable raw, r.tagName = c.latestTag ∧ ∀ o ∈ stable raw, isNewer o.tagName c.latestTag = false) ∧
  ((statusPayload p c).updateAvailable = true ↔ ∃ r ∈ stable raw, isNewer r.tagName p.version = true)

def tagged (r : GhRelease) : Bool := r.tagName ≠ ""

/- No stable release exceeds the first that has a tag; without one, the first release of all is not above the
running version, and has no tag where there is a stable one. -/
def FirstIsNewest (p : Platform) (raw : List GhRelease) : Prop :=
  match (stable raw).find? tagged with
  | some f => ∀ o ∈ stable raw, isNewer o.tagName f.tagName = false
  | none => ∀ f, (published raw).head? = some f → isNewer f.tagName p.version = false ∧ (stable raw ≠ [] → f.tagName = "")

theorem listReleases (p : Platform) (current : String) (raw : List GhRelease) (out : List Release) (latest : String) :
    raw.foldl (listRelease p current) (out,latest) = (out ++ (published raw).map (released p current),
      if latest = "" then ((stable raw).find? tagged).elim "" GhRelease.tagName else latest) := by
  induction raw generalizing out latest with
  | nil =>
    refine Prod.ext (List.append_nil out).symm ?_
    change latest = if latest = "" then "" else latest
    split
    · assumption
    · rfl
  | cons r rest ih =>
    rw [List.foldl_cons,listRelease]
    cases draft : r.draft
    · rw [if_neg Bool.false_ne_true,ih]
      have here : published (r :: rest) = r :: published rest := List.filter_cons_of_pos (by rw [draft]; rfl)
      rw [here,List.map_cons,List.append_assoc,List.singleton_append]
      congr 1
      cases pre : r.prerelease
      · have both : stable (r :: rest) = r :: stable rest := List.filter_cons_of_pos (by rw [draft,pre]; rfl)
        rw [both]
        simp only [Bool.not_false,Bool.true_and,decide_eq_true_eq]
        by_cases none : latest = ""
        · rw [if_pos none,if_pos none]
          by_cases tag : r.tagName = ""
          · rw [if_pos tag,List.find?_cons_of_neg (by rw [tagged,tag]; decide)]
          · rw [if_neg tag,List.find?_cons_of_pos (by rw [tagged]; exact decide_eq_true tag)]
            rfl
        · rw [if_neg none,if_neg none,if_neg none]
      · have skip : stable (r :: rest) = stable rest := List.filter_cons_of_neg (by rw [draft,pre]; decide)
        rw [skip,Bool.not_true,Bool.false_and,if_neg Bool.false_ne_true]
    · rw [if_pos rfl,ih]
      have left : published (r :: rest) = published rest := List.filter_cons_of_neg (by rw [draft]; exact Bool.false_ne_true)
      have skip : stable (r :: rest) = stable rest := List.filter_cons_of_neg (by rw [draft]; exact Bool.false_ne_true)
      rw [left,skip]

theorem releasedTag (p : Platform) (current : String) (r : GhRelease) : (released p current r).tag = r.tagName := by
  unfold released
  dsimp only
  split <;> rfl

/- The tag that the check remembers. -/
theorem latestTagOf (p : Platform) (raw : List GhRelease) : (refreshCache p (.ok raw)).latestTag =
    match (stable raw).find? tagged with
    | some f => f.tagName
    | none => (published raw).head?.elim "" GhRelease.tagName := by
  unfold refreshCache fetchReleases
  dsimp only
  rw [listReleases,if_pos rfl,List.nil_append]
  cases found : (stable raw).find? tagged with
  | none =>
    change (if "" = "" then _ else "") = _
    rw [if_pos rfl,List.head?_map]
    cases (published raw).head? with
    | none => rfl
    | some f => exact releasedTag p p.version f
  | some f =>
    have tag : tagged f = true := List.find?_some found
    exact if_neg (of_decide_eq_true tag)

theorem availableIff (p : Platform) (c : CacheState) :
    (statusPayload p c).updateAvailable = true ↔ isNewer c.latestTag p.version = true := by
  unfold statusPayload
  dsimp only
  by_cases none : c.latestTag = ""
  · rw [if_neg (not_not.mpr none),none]
    refine iff_of_false Bool.false_ne_true ?_
    rw [markedNotNewer (by left; decide)]
    exact Bool.false_ne_true
  · rw [if_pos none]

theorem latestIff (p : Platform) (raw : List GhRelease) : Latest p raw ↔ FirstIsNewest p raw := by
  unfold Latest FirstIsNewest
  dsimp only
  rw [availableIff,latestTagOf]
  cases found : (stable raw).find? tagged with
  | some f =>
    have mem : f ∈ stable raw := List.mem_of_find?_eq_some found
    dsimp only
    constructor
    · intro latest
      obtain ⟨_,_,_,above⟩ := latest.1 (List.ne_nil_of_mem mem)
      exact above
    · intro above
      refine ⟨fun _ => ⟨f,mem,rfl,above⟩,fun newer => ⟨f,mem,newer⟩,?_⟩
      rintro ⟨r,here,newer⟩
      exact newerThrough (above r here) newer
  | none =>
    -- a stable release without a tag exceeds nothing
    have blank : ∀ r ∈ stable raw, r.tagName = "" := by
      intro r mem
      by_contra tag
      exact List.find?_eq_none.mp found r mem (decide_eq_true tag)
    have never : ∀ r ∈ stable raw, ∀ v, isNewer r.tagName v = false := by
      intro r mem v
      rw [blank r mem]
      exact markedNotNewer (by left; decide) v
    have noStable : ¬ ∃ r ∈ stable raw, isNewer r.tagName p.version = true := by
      rintro ⟨r,mem,newer⟩
      exact Bool.false_ne_true ((never r mem _).symm.trans newer)
    dsimp only
    rw [iff_false_right noStable,Bool.not_eq_true]
    cases head : (published raw).head? with
    | none =>
      have nothing : stable raw = [] := by
        refine List.eq_nil_iff_forall_not_mem.mpr fun r mem => ?_
        have listed : r ∈ published raw := by
          rw [stable,List.mem_filter,Bool.and_eq_true] at mem
          exact List.mem_filter.mpr ⟨mem.1,mem.2.1⟩
        rw [List.head?_eq_none_iff.mp head] at listed
        cases listed
      exact iff_of_true ⟨fun some => absurd nothing some,markedNotNewer (by left; decide) _⟩ (by rintro _ ⟨⟩)
    | some f =>
      change (_ ∧ isNewer f.tagName p.version = false) ↔ _
      constructor
      · rintro ⟨member,older⟩ g same
        cases same
        refine ⟨older,fun some => ?_⟩
        obtain ⟨r,mem,tag,_⟩ := member some
        exact tag.symm.trans (blank r mem)
      · intro all
        refine ⟨fun some => ?_,(all f rfl).1⟩
        have tag := (all f rfl).2 some
        obtain ⟨r,mem⟩ := List.exists_mem_of_ne_nil _ some
        exact ⟨r,mem,(blank r mem).trans tag.symm,fun o here => never o here _⟩

/- A back-ported patch release that is listed before the newest one. -/
def backported : List GhRelease := [{ tagName := "v1.0.5" },{ tagName := "v2.0.0" }]

def onePointFive : Platform := { version := "1.5.0" }

theorem backportHides : ¬ ∀ (p : Platform) (raw : List GhRelease), Latest p raw := by
  intro all
  have newer : isNewer "v2.0.0" "1.5.0" = true := by decide
  have older : isNewer "v1.0.5" "1.5.0" = false := by decide
  have available := (all onePointFive backported).2.mpr ⟨{ tagName := "v2.0.0" },by decide,newer⟩
  rw [availableIff,latestTagOf] at available
  exact Bool.false_ne_true (older.symm.trans available)

end ContainerWS.Update
