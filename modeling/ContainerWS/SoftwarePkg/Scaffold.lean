import ContainerWS.SoftwarePkg.Segments

/-! The paths of packages/softwarepkg: what resolve.go asks a registry for and what scaffold.go
writes into one, and when they stay in the folder of their software. -/
namespace ContainerWS.SoftwarePkg
open GoPath GoStrings

/- What a path of an install.json is made of. -/
structure DistroTarget where
  distroID : String
  distroVersion : String
  arch : String
  deriving DecidableEq, Repr

/- A tag as ListHubTags gives it. -/
structure HubTag where
  distroID : String
  distroVersion : String
  workspace : Bool
  deriving DecidableEq, Repr

structure ScaffoldRequest where
  name : String
  distros : List String
  targets : List DistroTarget
  fromHub : Bool
  alsoAny : Bool
  alsoDefault : Option Bool
  outputDir : String
  updateIndex : Option Bool
  deriving DecidableEq, Repr

inductive ScaffoldError where
  | nameRequired
  | outputRequired
  | hub
  | noTags
  | noDistros
  | write (p : Path)
  deriving DecidableEq, Repr

/- The folder that is made and the files that are written, up to the first that cannot be, and the
catalogue that is merged into. -/
structure ScaffoldRun where
  folder : Option Path
  files : List Path
  index : Option Path
  result : Except ScaffoldError Unit

/- Each pair of a distribution and a version once, under the key of its path. -/
def hubTargets (seen : List String) : List HubTag → List DistroTarget
  | [] => []
  | t :: tags =>
    if ¬t.workspace ∨ t.distroID = "" then hubTargets seen tags
    else
      let key := t.distroID ++ "/" ++ t.distroVersion ++ "/any"
      if key ∈ seen then hubTargets seen tags
      else ⟨t.distroID,t.distroVersion,"any"⟩ :: hubTargets (key :: seen) tags

def HubTargets (tags : List HubTag) : List DistroTarget := hubTargets [] tags

/- One target for any version of each distribution. -/
def anyTargets (seen : List String) : List DistroTarget → List DistroTarget
  | [] => []
  | t :: targets =>
    if t.distroID ∈ seen then anyTargets seen targets
    else ⟨t.distroID,"any","any"⟩ :: anyTargets (t.distroID :: seen) targets

def DefaultDistros : List String := ["ubuntu","debian","fedora","alpine","arch","default"]

def installRelPath (name : String) (t : DistroTarget) : String :=
  if t.distroID = "default" ∨ t.distroID = "" then defaultPath name
  else installPath name t.distroID (if t.distroVersion = "" then "any" else t.distroVersion) (if t.arch = "" then "any" else t.arch)

def catalogIndexPath : String := "softwares/index.json"

/- Paths are written one after the other until one cannot be. -/
def writeAll (written : Path → Bool) : List Path → List Path × Option Path
  | [] => ([],none)
  | p :: ps =>
    if written p then
      let (rest,lost) := writeAll written ps
      (p :: rest,lost)
    else ([p],some p)

section
variable (m : CaseMap)

def resolveDistroTarget (raw : String) : Option DistroTarget :=
  let id := String.ofList (dropAll ' ' (m.toLower (trimSpace raw)).toList)
  if id ∈ ["ubuntu","debian","kali"] then some ⟨id,"any","any"⟩
  else if id ∈ ["fedora","rhel","centos","rocky","almalinux","alma"] then
    some ⟨if id = "alma" then "almalinux" else id,"any","any"⟩
  else if id = "alpine" then some ⟨id,"any","any"⟩
  else if id ∈ ["arch","manjaro"] then some ⟨id,"any","any"⟩
  else if id ∈ ["default","any","linux"] then some ⟨"default","",""⟩
  else none

/- The tags are those of the hub, when it answers. -/
def resolveScaffoldTargets (tags : Option (List HubTag)) (req : ScaffoldRequest) : Except ScaffoldError (List DistroTarget) :=
  if req.targets ≠ [] then .ok req.targets
  else if req.fromHub then
    match tags with
    | none => .error .hub
    | some tags =>
      let targets := HubTargets tags
      let targets := if req.alsoAny then targets ++ anyTargets [] targets else targets
      let targets := if req.alsoDefault.getD true then targets ++ [⟨"default","",""⟩] else targets
      if targets = [] then .error .noTags else .ok targets
  else
    let distros := if req.distros = [] then DefaultDistros else req.distros
    .ok (distros.filterMap (resolveDistroTarget m))

/- `filepath.Abs` of the directory. -/
def outputRoot (cwd : Path) (req : ScaffoldRequest) : Path := clean (raw cwd (trimSpace req.outputDir))

/- The folder is made, each file written and the catalogue merged where the disk lets it. -/
def Scaffold (cwd : Path) (tags : Option (List HubTag)) (made : Bool) (written : Path → Bool) (merged : Bool)
    (req : ScaffoldRequest) : ScaffoldRun :=
  let name := sanitizeSegment m req.name
  if name = "" then ⟨none,[],none,.error .nameRequired⟩
  else if trimSpace req.outputDir = "" then ⟨none,[],none,.error .outputRequired⟩
  else
    let root := outputRoot cwd req
    let folder := join (join root "softwares") name
    if !made then ⟨some folder,[],none,.error (.write folder)⟩
    else
      match resolveScaffoldTargets m tags req with
      | .error e => ⟨some folder,[],none,.error e⟩
      | .ok targets =>
        if targets = [] then ⟨some folder,[],none,.error .noDistros⟩
        else
          let package := join root (PackageMetaPath m name)
          let (files,lost) := writeAll written (package :: targets.map (fun t => join root (installRelPath name t)))
          match lost with
          | some p => ⟨some folder,files,none,.error (.write p)⟩
          | none =>
            if req.updateIndex.getD true then
              let index := join root catalogIndexPath
              ⟨some folder,files,some index,if merged then .ok () else .error (.write index)⟩
            else ⟨some folder,files,none,.ok ()⟩

/- Every path that is asked for or read for a software on a host. -/
def pathsOf (softwareName : String) (host : HostFacts) : List String :=
  (if PackageMetaPath m softwareName = "" then [] else [PackageMetaPath m softwareName]) ++
    ResolveInstallPaths m softwareName host

end

/- A file below the folder of a software. -/
def Under (root : Path) (n : Name) (p : Path) : Prop := ∃ file rest, p = root ++ "softwares" :: n :: file :: rest

/- A path of segments that name something, which stays where it belongs. -/
structure Stays (root : Path) (n : Name) (p : String) : Prop where
  segments : ∀ c ∈ components p, c ≠ "" ∧ c ≠ ".."
  under : Under root n (join root p)

/- `filepath.Clean` of a relative path: how many directories it goes up, and what follows. -/
def climbOne (gone : Nat × List Name) (c : Name) : Nat × List Name :=
  if c = "" ∨ c = "." then gone
  else if c = ".." then if gone.2 = [] then (gone.1+1,[]) else (gone.1,gone.2.dropLast)
  else (gone.1,gone.2 ++ [c])

def climb (parts : List Name) : Nat × List Name := parts.foldl climbOne (0,[])

/- What the path of a target has below the folder of the software. -/
def below (t : DistroTarget) : List Name :=
  if t.distroID = "default" ∨ t.distroID = "" then ["default","install.json"]
  else components t.distroID ++ components (if t.distroVersion = "" then "any" else t.distroVersion) ++
    components (if t.arch = "" then "any" else t.arch) ++ ["install.json"]

/- A target that does not leave the folder, or that comes back into it by the names that it left. -/
def Inside (folder : Path) (t : DistroTarget) : Prop :=
  ∃ file rest, (climb (below t)).2 = folder.drop (folder.length-(climb (below t)).1) ++ file :: rest

/- Texts whose segments make paths that stay in the folder of the software. -/
def Hosted (m : CaseMap) (softwareName : String) (host : HostFacts) : Prop :=
  Vanishes (trimSpace softwareName).toList ∨
  (¬Lone (trimSpace softwareName).toList ∧ ¬Twin (trimSpace softwareName).toList ∧
    (Vanishes (trimSpace host.distroID).toList ∨
      ¬Twin (trimSpace host.distroID).toList ∧ ¬Twin (trimSpace host.distroVersion).toList ∧
      ¬Twin (trimSpace (NormalizeArch m host.arch)).toList))

/- A request that writes nothing, or whose name names a folder and whose targets stay in it. -/
def Sheltered (m : CaseMap) (cwd : Path) (tags : Option (List HubTag)) (req : ScaffoldRequest) : Prop :=
  Vanishes (trimSpace req.name).toList ∨ trimSpace req.outputDir = "" ∨
  (¬Lone (trimSpace req.name).toList ∧ ¬Twin (trimSpace req.name).toList ∧
    ∀ targets, resolveScaffoldTargets m tags req = .ok targets → targets ≠ [] →
      Firm (trimSpace req.name).toList ∧
      ∀ t ∈ targets, Inside (outputRoot cwd req ++ ["softwares",sanitizeSegment m req.name]) t)

/- The folder and the files of a software are where its name says. -/
structure Placed (root : Path) (n : Name) (run : ScaffoldRun) : Prop where
  folder : ∀ p, run.folder = some p → p = root ++ ["softwares",n]
  files : ∀ p ∈ run.files, Under root n p

/- Where a relative path leads from a folder. -/
def arrive (folder : Path) (gone : Nat × List Name) : Path := folder.take (folder.length-gone.1) ++ gone.2

theorem arriveOne (folder : Path) (gone : Nat × List Name) (c : Name) :
    push (arrive folder gone) c = arrive folder (climbOne gone c) := by
  unfold push climbOne
  split
  · rfl
  · split
    · split
      · rename_i lost
        rw [arrive,arrive,lost,List.append_nil,List.append_nil,List.dropLast_eq_take,List.take_take,List.length_take]
        congr 1
        omega
      · rename_i some
        exact List.dropLast_append_of_ne_nil some
    · rw [arrive,arrive,List.append_assoc]

theorem climbPush (folder : Path) (parts : List Name) : parts.foldl push folder = arrive folder (climb parts) := by
  have each : ∀ (parts : List Name) (gone : Nat × List Name),
      parts.foldl push (arrive folder gone) = arrive folder (parts.foldl climbOne gone) := by
    intro parts
    induction parts with
    | nil => exact fun _ => rfl
    | cons c parts ih =>
      intro gone
      rw [List.foldl_cons,List.foldl_cons,arriveOne]
      exact ih (climbOne gone c)
  have here : arrive folder (0,[]) = folder := by simp [arrive]
  rw [climb,← each parts (0,[]),here]

/- A path that goes up nowhere. -/
theorem climbForward {parts : List Name} (forward : ∀ c ∈ parts, c ≠ "..") :
    climb parts = (0,parts.filter (fun c => decide ¬(c = "" ∨ c = "."))) := by
  have each : ∀ (parts : List Name) (gone : Nat × List Name), (∀ c ∈ parts, c ≠ "..") →
      parts.foldl climbOne gone = (gone.1,gone.2 ++ parts.filter (fun c => decide ¬(c = "" ∨ c = "."))) := by
    intro parts
    induction parts with
    | nil => exact fun _ _ => by simp
    | cons c parts ih =>
      intro gone forward
      rw [List.foldl_cons,ih _ (fun d mem => forward d (by simp [mem])),climbOne]
      by_cases same : c = "" ∨ c = "."
      · rw [if_pos same,List.filter_cons_of_neg (by rw [decide_eq_true_iff]; exact not_not_intro same)]
      · rw [if_neg same,if_neg (forward c (by simp)),List.filter_cons_of_pos (by rw [decide_eq_true_iff]; exact same)]
        simp
  rw [climb,each parts (0,[]) forward,List.nil_append]

section
variable {root : Path} {n : Name}

theorem underArrive {parts : List Name} (plain : Plain n) :
    Under root n ((("softwares" : Name) :: n :: parts).foldl push root) ↔
      ∃ file rest, (climb parts).2 =
        (root ++ ["softwares",n]).drop ((root ++ ["softwares",n]).length-(climb parts).1) ++ file :: rest := by
  have start : (("softwares" : Name) :: n :: parts).foldl push root = parts.foldl push (root ++ ["softwares",n]) := by
    rw [List.foldl_cons,List.foldl_cons,pushPlain (show Plain "softwares" by decide),pushPlain plain]
    simp
  rw [start,climbPush,arrive,Under]
  have whole := List.take_append_drop ((root ++ ["softwares",n]).length-(climb parts).1) (root ++ ["softwares",n])
  constructor
  · rintro ⟨file,rest,same⟩
    refine ⟨file,rest,?_⟩
    have after : (root ++ ["softwares",n]).take ((root ++ ["softwares",n]).length-(climb parts).1) ++ (climb parts).2 =
        (root ++ ["softwares",n]).take ((root ++ ["softwares",n]).length-(climb parts).1) ++
          ((root ++ ["softwares",n]).drop ((root ++ ["softwares",n]).length-(climb parts).1) ++ file :: rest) := by
      rw [same,← List.append_assoc,whole]
      simp
    exact List.append_cancel_left after
  · rintro ⟨file,rest,same⟩
    refine ⟨file,rest,?_⟩
    rw [same,← List.append_assoc,whole]
    simp

end

/- What stands after a separator. -/
theorem componentsAfter (s t : String) : components (s ++ ("/" ++ t)) = components s ++ components t := by
  rw [← String.append_assoc,componentsJoin]

theorem softwareParts {n : Name} (one : '/' ∉ n.toList) : components ("softwares/" ++ n) = ["softwares",n] := by
  have first : components "softwares" = ["softwares"] := by decide
  rw [show "softwares/" = "softwares" ++ "/" by decide,componentsJoin,first,componentsFree one]
  rfl

theorem metaParts {n : Name} (one : '/' ∉ n.toList) : components (metaPath n) = ["softwares",n,"package.json"] := by
  have last : components "package.json" = ["package.json"] := by decide
  rw [metaPath,show "/package.json" = "/" ++ "package.json" by decide,componentsAfter,softwareParts one,last]
  rfl

theorem defaultParts {n : Name} (one : '/' ∉ n.toList) :
    components (defaultPath n) = ["softwares",n,"default","install.json"] := by
  have last : components "default/install.json" = ["default","install.json"] := by decide
  rw [defaultPath,show "/default/install.json" = "/" ++ "default/install.json" by decide,componentsAfter,
    softwareParts one,last]
  rfl

theorem installParts {n : Name} (one : '/' ∉ n.toList) (distro ver arch : String) :
    components (installPath n distro ver arch) =
      "softwares" :: n :: (components distro ++ components ver ++ components arch ++ ["install.json"]) := by
  have last : components "install.json" = ["install.json"] := by decide
  delta installPath
  rw [show "/install.json" = "/" ++ "install.json" by decide,componentsAfter,componentsJoin,componentsJoin,
    componentsJoin,softwareParts one,last]
  simp

/- The paths of a target. -/
theorem targetParts {n : Name} (one : '/' ∉ n.toList) (t : DistroTarget) :
    components (installRelPath n t) = "softwares" :: n :: below t := by
  unfold installRelPath below
  split
  · exact defaultParts one
  · exact installParts one _ _ _

section
variable {root : Path} {n : Name}

theorem targetUnder (plain : Plain n) (t : DistroTarget) :
    Under root n (join root (installRelPath n t)) ↔ Inside (root ++ ["softwares",n]) t := by
  rw [join,targetParts plain.one,underArrive plain,Inside]

/- A path without `..` below the folder whose last component names a file. -/
theorem forwardUnder (plain : Plain n) {parts : List Name} (forward : ∀ c ∈ parts, c ≠ "..") {last : Name}
    (named : last ∈ parts) (file : Plain last) : Under root n ((("softwares" : Name) :: n :: parts).foldl push root) := by
  rw [underArrive plain,climbForward forward]
  have some : parts.filter (fun c => decide ¬(c = "" ∨ c = ".")) ≠ [] := by
    apply List.ne_nil_of_mem (List.mem_filter.mpr ⟨named,_⟩)
    simp [file.filled,file.here]
  obtain ⟨first,rest,whole⟩ := List.exists_cons_of_ne_nil some
  exact ⟨first,rest,by simpa using whole⟩

theorem segmentsStay (plain : Plain n) {p : String} {parts : List Name} (whole : components p = "softwares" :: n :: parts)
    (safe : ∀ c ∈ parts, c ≠ "" ∧ c ≠ "..") {last : Name} (named : last ∈ parts) (file : Plain last) : Stays root n p := by
  refine ⟨?_,?_⟩
  · rw [whole]
    intro c mem
    rcases List.mem_cons.mp mem with rfl | mem
    · decide
    · rcases List.mem_cons.mp mem with rfl | mem
      · exact ⟨plain.filled,plain.up⟩
      · exact safe c mem
  · rw [join,whole]
    exact forwardUnder plain (fun c mem => (safe c mem).2) named file

end

section
variable (m : LetterMap)

theorem sanitizeOne (s : String) : '/' ∉ (sanitizeSegment m.toCaseMap s).toList := fun mem =>
  absurd (sanitizeInside m s '/' mem) (by decide)

theorem addOnceMem {out : List String} {p q : String} : q ∈ addOnce out p ↔ q ∈ out ∨ q = p := by
  unfold addOnce
  split
  · rename_i old
    exact ⟨.inl,fun either => either.elim id (fun same => same ▸ old)⟩
  · simp

theorem addWhenMem {c : Prop} [Decidable c] {out : List String} {p q : String} :
    q ∈ (if c then addOnce out p else out) ↔ q ∈ out ∨ c ∧ q = p := by
  split <;> rename_i here <;> simp [here,addOnceMem]

/- The distribution in the given version or in any, for the given processor or for any. -/
theorem resolveMem {softwareName : String} {host : HostFacts} {p : String} :
    p ∈ ResolveInstallPaths m.toCaseMap softwareName host ↔
      sanitizeSegment m.toCaseMap softwareName ≠ "" ∧
      (p = defaultPath (sanitizeSegment m.toCaseMap softwareName) ∨
        sanitizeSegment m.toCaseMap host.distroID ≠ "" ∧ ∃ ver arch,
          (ver = "any" ∨ ver = sanitizeSegment m.toCaseMap host.distroVersion ∧ ver ≠ "") ∧
          (arch = "any" ∨ arch = sanitizeSegment m.toCaseMap (NormalizeArch m.toCaseMap host.arch) ∧ arch ≠ "") ∧
          p = installPath (sanitizeSegment m.toCaseMap softwareName) (sanitizeSegment m.toCaseMap host.distroID) ver arch) := by
  unfold ResolveInstallPaths
  generalize sanitizeSegment m.toCaseMap softwareName = name
  generalize sanitizeSegment m.toCaseMap host.distroID = distro
  generalize sanitizeSegment m.toCaseMap host.distroVersion = version
  generalize sanitizeSegment m.toCaseMap (NormalizeArch m.toCaseMap host.arch) = processor
  by_cases lost : name = ""
  · simp [lost]
  · simp only [if_neg lost,addOnceMem,addWhenMem,List.mem_ite_nil_right,List.mem_singleton]
    have used : ∃ arch, (if processor = "" then "any" else processor) = arch ∧ arch ≠ "" ∧
        (arch = "any" ∨ arch = processor ∧ arch ≠ "") ∧ (processor ≠ "" → processor = arch) := by
      by_cases free : processor = ""
      · exact ⟨"any",if_pos free,by decide,.inl rfl,fun some => absurd free some⟩
      · exact ⟨processor,if_neg free,free,.inr ⟨rfl,free⟩,fun _ => rfl⟩
    obtain ⟨arch,same,filled,known,given⟩ := used
    simp only [same]
    constructor
    · rintro ((((⟨⟨some,ver,_⟩,here⟩ | ⟨⟨some,ver⟩,here⟩) | ⟨⟨some,_⟩,here⟩) | ⟨some,here⟩) | here)
      · exact ⟨lost,.inr ⟨some,version,arch,.inr ⟨rfl,ver⟩,known,here⟩⟩
      · exact ⟨lost,.inr ⟨some,version,"any",.inr ⟨rfl,ver⟩,.inl rfl,here⟩⟩
      · exact ⟨lost,.inr ⟨some,"any",arch,.inl rfl,known,here⟩⟩
      · exact ⟨lost,.inr ⟨some,"any","any",.inl rfl,.inl rfl,here⟩⟩
      · exact ⟨lost,.inl here⟩
    · rintro ⟨_,here | ⟨some,ver,proc,versions,procs,here⟩⟩
      · exact .inr here
      · rcases versions with rfl | ⟨rfl,ver⟩ <;> rcases procs with rfl | ⟨rfl,proc⟩
        · exact .inl (.inr ⟨some,here⟩)
        · exact .inl (.inl (.inr ⟨⟨some,filled⟩,given proc ▸ here⟩))
        · exact .inl (.inl (.inl (.inr ⟨⟨some,ver⟩,here⟩)))
        · exact .inl (.inl (.inl (.inl ⟨⟨some,ver,filled⟩,given proc ▸ here⟩)))

theorem pathsMem {softwareName : String} {host : HostFacts} {p : String} :
    p ∈ pathsOf m.toCaseMap softwareName host ↔
      (sanitizeSegment m.toCaseMap softwareName ≠ "" ∧ p = metaPath (sanitizeSegment m.toCaseMap softwareName)) ∨
      p ∈ ResolveInstallPaths m.toCaseMap softwareName host := by
  have filled : metaPath (sanitizeSegment m.toCaseMap softwareName) ≠ "" := by
    rw [Ne,← String.toList_inj]
    simp [metaPath]
  rw [pathsOf,List.mem_append,PackageMetaPath]
  by_cases lost : sanitizeSegment m.toCaseMap softwareName = ""
  · simp [lost]
  · simp [lost,filled]

theorem plainSegment {s : String} (filled : ¬Vanishes (trimSpace s).toList) (lone : ¬Lone (trimSpace s).toList)
    (twin : ¬Twin (trimSpace s).toList) : Plain (sanitizeSegment m.toCaseMap s) where
  filled := fun same => filled ((sanitizeNone m s).mp same)
  here := fun same => lone ((sanitizeLone m s).mp same)
  up := fun same => twin ((sanitizeTwin m s).mp same)
  one := sanitizeOne m s

/- The folder that the metadata and the specifications of a software are looked for in is its own. -/
theorem pathsStay (softwareName : String) (host : HostFacts) :
    (∀ root, ∀ p ∈ pathsOf m.toCaseMap softwareName host, Stays root (sanitizeSegment m.toCaseMap softwareName) p) ↔
      Hosted m.toCaseMap softwareName host := by
  have one := sanitizeOne m softwareName
  constructor
  · intro stays
    by_cases lost : Vanishes (trimSpace softwareName).toList
    · exact .inl lost
    have filled : sanitizeSegment m.toCaseMap softwareName ≠ "" := fun same => lost ((sanitizeNone m _).mp same)
    have about := stays [] _ ((pathsMem m).mpr (.inl ⟨filled,rfl⟩))
    have up : sanitizeSegment m.toCaseMap softwareName ≠ ".." := by
      apply (about.segments _ _).2
      rw [metaParts one]
      simp
    refine .inr ⟨?_,fun twin => up ((sanitizeTwin m _).mpr twin),?_⟩
    · intro lone
      obtain ⟨file,rest,whole⟩ := about.under
      rw [(sanitizeLone m _).mpr lone] at whole
      have short : join [] (metaPath ".") = ["softwares","package.json"] := by decide
      rw [short] at whole
      simp at whole
    · by_cases gone : Vanishes (trimSpace host.distroID).toList
      · exact .inl gone
      have some : sanitizeSegment m.toCaseMap host.distroID ≠ "" := fun same => gone ((sanitizeNone m _).mp same)
      -- the version and the processor are each tried with any of the other
      have each : ∀ ver arch, (ver = "any" ∨ ver = sanitizeSegment m.toCaseMap host.distroVersion ∧ ver ≠ "") →
          (arch = "any" ∨ arch = sanitizeSegment m.toCaseMap (NormalizeArch m.toCaseMap host.arch) ∧ arch ≠ "") →
          ∀ c ∈ components (sanitizeSegment m.toCaseMap host.distroID) ++ components ver ++ components arch, c ≠ ".." := by
        intro ver arch versions procs c mem
        have tried := stays [] _ ((pathsMem m).mpr (.inr ((resolveMem m).mpr
          ⟨filled,.inr ⟨some,ver,arch,versions,procs,rfl⟩⟩)))
        apply (tried.segments c _).2
        rw [installParts one]
        exact List.mem_cons_of_mem _ (List.mem_cons_of_mem _ (List.mem_append_left _ mem))
      refine .inr ⟨?_,?_,?_⟩
      · intro twin
        apply each "any" "any" (.inl rfl) (.inl rfl) ".." _ rfl
        rw [(sanitizeTwin m _).mpr twin]
        decide
      · intro twin
        have same := (sanitizeTwin m _).mpr twin
        apply each ".." "any" (.inr ⟨same.symm,by decide⟩) (.inl rfl) ".." _ rfl
        exact List.mem_append_left _ (List.mem_append_right _ (by decide))
      · intro twin
        have same := (sanitizeTwin m _).mpr twin
        apply each "any" ".." (.inl rfl) (.inr ⟨same.symm,by decide⟩) ".." _ rfl
        exact List.mem_append_right _ (by decide)
  · intro safe root p mem
    rw [pathsMem m,resolveMem m] at mem
    rcases safe with lost | ⟨lone,twin,distro⟩
    · have none := (sanitizeNone m _).mpr lost
      rcases mem with ⟨filled,_⟩ | ⟨filled,_⟩
      · exact absurd none filled
      · exact absurd none filled
    have filled : sanitizeSegment m.toCaseMap softwareName ≠ "" := by
      rcases mem with ⟨filled,_⟩ | ⟨filled,_⟩
      · exact filled
      · exact filled
    have plain := plainSegment m (fun gone => filled ((sanitizeNone m _).mpr gone)) lone twin
    rcases mem with ⟨_,rfl⟩ | ⟨_,rfl | ⟨some,ver,arch,versions,procs,rfl⟩⟩
    · exact segmentsStay plain (metaParts one) (by decide) (List.mem_singleton_self _) (by decide)
    · exact segmentsStay plain (defaultParts one) (by decide)
        (List.mem_cons_of_mem _ (List.mem_singleton_self _)) (by decide)
    · rcases distro with gone | ⟨twinDistro,twinVersion,twinArch⟩
      · exact absurd ((sanitizeNone m _).mpr gone) some
      have version : ver ≠ "" ∧ ver ≠ ".." ∧ '/' ∉ ver.toList := by
        rcases versions with rfl | ⟨rfl,filled⟩
        · decide
        · exact ⟨filled,fun up => twinVersion ((sanitizeTwin m _).mp up),sanitizeOne m _⟩
      have processor : arch ≠ "" ∧ arch ≠ ".." ∧ '/' ∉ arch.toList := by
        rcases procs with rfl | ⟨rfl,filled⟩
        · decide
        · exact ⟨filled,fun up => twinArch ((sanitizeTwin m _).mp up),sanitizeOne m _⟩
      have up : sanitizeSegment m.toCaseMap host.distroID ≠ ".." := fun up => twinDistro ((sanitizeTwin m _).mp up)
      refine segmentsStay plain (installParts one _ _ _) ?_
        (List.mem_append_right _ (List.mem_singleton_self "install.json")) (by decide)
      rw [componentsFree (sanitizeOne m _),componentsFree version.2.2,componentsFree processor.2.2]
      intro c mem
      simp only [List.cons_append,List.nil_append,List.mem_cons,List.not_mem_nil,or_false] at mem
      rcases mem with rfl | rfl | rfl | rfl
      · exact ⟨some,up⟩
      · exact ⟨version.1,version.2.1⟩
      · exact ⟨processor.1,processor.2.1⟩
      · decide

theorem writeAllMem {written : Path → Bool} {ps : List Path} {p : Path} (mem : p ∈ (writeAll written ps).1) : p ∈ ps := by
  induction ps with
  | nil => exact mem
  | cons q ps ih =>
    rw [writeAll] at mem
    split at mem
    · rcases List.mem_cons.mp mem with same | mem
      · exact List.mem_cons.mpr (.inl same)
      · exact List.mem_cons_of_mem q (ih mem)
    · exact List.mem_cons.mpr (.inl (List.mem_singleton.mp mem))

theorem writeAllOk (ps : List Path) : writeAll (fun _ => true) ps = (ps,none) := by
  induction ps with
  | nil => rfl
  | cons p ps ih => rw [writeAll,if_pos rfl,ih]

/- The metadata is written where the name says when a second pass keeps the name. -/
theorem packageUnder {root : Path} {n : Name} (plain : Plain n) :
    Under root n (join root (PackageMetaPath m.toCaseMap n)) ↔ sanitizeSegment m.toCaseMap n = n := by
  constructor
  · rintro ⟨file,rest,whole⟩
    by_cases lost : sanitizeSegment m.toCaseMap n = ""
    · have none : join root "" = root := rfl
      rw [PackageMetaPath,if_pos lost,none] at whole
      simpa using congrArg List.length whole
    rw [PackageMetaPath,if_neg lost,join,metaParts (sanitizeOne m n)] at whole
    have steps : (["softwares",sanitizeSegment m.toCaseMap n,"package.json"] : List Name).foldl push root =
        push (root ++ ["softwares"]) (sanitizeSegment m.toCaseMap n) ++ ["package.json"] := by
      rw [List.foldl_cons,List.foldl_cons,List.foldl_cons,List.foldl_nil,pushPlain (show Plain "softwares" by decide),
        pushPlain (show Plain "package.json" by decide)]
    rw [steps,push] at whole
    split at whole
    · simpa using congrArg List.length whole
    · split at whole
      · simpa using congrArg List.length whole
      · simp only [List.append_assoc,List.append_cancel_left_eq,List.cons_append,List.nil_append,List.cons.injEq] at whole
        exact whole.2.1
  · intro same
    rw [PackageMetaPath,same,if_neg plain.filled,join,metaParts plain.one]
    exact forwardUnder plain (by decide) (List.mem_singleton_self _) (by decide)

section
variable {cwd : Path} {tags : Option (List HubTag)} {req : ScaffoldRequest}

/- The files that a request stands for. -/
def scaffoldFiles (cwd : Path) (req : ScaffoldRequest) (targets : List DistroTarget) : List Path :=
  let name := sanitizeSegment m.toCaseMap req.name
  join (outputRoot cwd req) (PackageMetaPath m.toCaseMap name) ::
    targets.map (fun t => join (outputRoot cwd req) (installRelPath name t))

theorem scaffoldFolder (filled : sanitizeSegment m.toCaseMap req.name ≠ "") (out : trimSpace req.outputDir ≠ "")
    (made merged : Bool) (written : Path → Bool) :
    (Scaffold m.toCaseMap cwd tags made written merged req).folder =
      some (join (join (outputRoot cwd req) "softwares") (sanitizeSegment m.toCaseMap req.name)) := by
  unfold Scaffold
  grind

theorem scaffoldStarted {made merged : Bool} {written : Path → Bool} {p : Path}
    (folder : (Scaffold m.toCaseMap cwd tags made written merged req).folder = some p) :
    sanitizeSegment m.toCaseMap req.name ≠ "" ∧ trimSpace req.outputDir ≠ "" := by
  unfold Scaffold at folder
  grind

/- The files of a run are those of the request until one cannot be written. -/
theorem scaffoldWrites (filled : sanitizeSegment m.toCaseMap req.name ≠ "") (out : trimSpace req.outputDir ≠ "")
    {targets : List DistroTarget} (known : resolveScaffoldTargets m.toCaseMap tags req = .ok targets)
    (some : targets ≠ []) (written : Path → Bool) (merged : Bool) :
    (Scaffold m.toCaseMap cwd tags true written merged req).files =
      (writeAll written (scaffoldFiles m cwd req targets)).1 := by
  unfold Scaffold
  rw [if_neg filled,if_neg out]
  simp only [Bool.not_true,known,if_neg some]
  rw [if_neg (by decide),scaffoldFiles]
  split
  · rfl
  · split <;> rfl

theorem scaffoldMem {made merged : Bool} {written : Path → Bool} {p : Path}
    (mem : p ∈ (Scaffold m.toCaseMap cwd tags made written merged req).files) :
    sanitizeSegment m.toCaseMap req.name ≠ "" ∧ trimSpace req.outputDir ≠ "" ∧
    ∃ targets, resolveScaffoldTargets m.toCaseMap tags req = .ok targets ∧ targets ≠ [] ∧
      p ∈ scaffoldFiles m cwd req targets := by
  by_cases filled : sanitizeSegment m.toCaseMap req.name = ""
  · exact absurd mem (by simp [Scaffold,filled])
  by_cases out : trimSpace req.outputDir = ""
  · exact absurd mem (by simp [Scaffold,filled,out])
  cases made with
  | false => exact absurd mem (by simp [Scaffold,filled,out])
  | true =>
    cases known : resolveScaffoldTargets m.toCaseMap tags req with
    | error e => exact absurd mem (by simp [Scaffold,filled,out,known])
    | ok targets =>
      by_cases lost : targets = []
      · exact absurd mem (by simp [Scaffold,filled,out,known,lost])
      · rw [scaffoldWrites m filled out known lost] at mem
        exact ⟨filled,out,targets,rfl,lost,writeAllMem mem⟩

/- A request puts everything below the folder of its software. -/
theorem scaffoldPlaced :
    (∀ made written merged, Placed (outputRoot cwd req) (sanitizeSegment m.toCaseMap req.name)
      (Scaffold m.toCaseMap cwd tags made written merged req)) ↔ Sheltered m.toCaseMap cwd tags req := by
  have one := sanitizeOne m req.name
  constructor
  · intro placed
    by_cases lost : Vanishes (trimSpace req.name).toList
    · exact .inl lost
    by_cases out : trimSpace req.outputDir = ""
    · exact .inr (.inl out)
    have filled : sanitizeSegment m.toCaseMap req.name ≠ "" := fun same => lost ((sanitizeNone m _).mp same)
    have run := placed true (fun _ => true) true
    have folder := run.folder (join (join (outputRoot cwd req) "softwares") (sanitizeSegment m.toCaseMap req.name))
      (scaffoldFolder m filled out _ _ _)
    rw [joinPlain (show Plain "softwares" by decide),join,componentsFree one,List.foldl_cons,List.foldl_nil,push] at folder
    have lone : ¬Lone (trimSpace req.name).toList := by
      intro lone
      rw [if_pos (.inr ((sanitizeLone m _).mpr lone))] at folder
      simpa using congrArg List.length folder
    have twin : ¬Twin (trimSpace req.name).toList := by
      intro twin
      rw [(sanitizeTwin m _).mpr twin,if_neg (by decide),if_pos rfl] at folder
      simpa using congrArg List.length folder
    have plain := plainSegment m lost lone twin
    refine .inr (.inr ⟨lone,twin,?_⟩)
    intro targets known some
    have files := run.files
    rw [scaffoldWrites m filled out known some,writeAllOk] at files
    refine ⟨?_,?_⟩
    · rw [← segmentIff m]
      refine ⟨filled,plain.up,sanitizeInside m _,?_⟩
      exact (packageUnder m plain).mp (files _ List.mem_cons_self)
    · intro t mem
      rw [← targetUnder plain]
      exact files _ (List.mem_cons_of_mem _ (List.mem_map_of_mem mem))
  · intro safe made written merged
    refine ⟨?_,?_⟩
    · intro p folder
      obtain ⟨filled,out⟩ := scaffoldStarted m folder
      rw [scaffoldFolder m filled out] at folder
      cases Option.some.inj folder
      rcases safe with lost | lost | ⟨lone,twin,_⟩
      · exact absurd ((sanitizeNone m _).mpr lost) filled
      · exact absurd lost out
      · have plain := plainSegment m (fun gone => filled ((sanitizeNone m _).mpr gone)) lone twin
        rw [joinPlain (show Plain "softwares" by decide),joinPlain plain,List.append_assoc]
        rfl
    · intro p mem
      obtain ⟨filled,out,targets,known,some,mem⟩ := scaffoldMem m mem
      rcases safe with lost | lost | ⟨lone,twin,safe⟩
      · exact absurd ((sanitizeNone m _).mpr lost) filled
      · exact absurd lost out
      have plain := plainSegment m (fun gone => filled ((sanitizeNone m _).mpr gone)) lone twin
      obtain ⟨firm,inside⟩ := safe targets known some
      rw [scaffoldFiles] at mem
      rcases List.mem_cons.mp mem with same | mem
      · rw [same]
        exact (packageUnder m plain).mpr ((segmentIff m _).mpr firm).twice
      · obtain ⟨t,here,rfl⟩ := List.mem_map.mp mem
        exact (targetUnder plain t).mpr (inside t here)


theorem insideForward {t : DistroTarget} (forward : ∀ c ∈ below t, c ≠ "..") (folder : Path) : Inside folder t := by
  have last : "install.json" ∈ below t := by
    unfold below
    split <;> simp
  rw [Inside,climbForward forward]
  have some : (below t).filter (fun c => decide ¬(c = "" ∨ c = ".")) ≠ [] :=
    List.ne_nil_of_mem (List.mem_filter.mpr ⟨last,by decide⟩)
  obtain ⟨file,rest,whole⟩ := List.exists_cons_of_ne_nil some
  exact ⟨file,rest,by simpa using whole⟩

/- The distributions that can be named. -/
theorem namedTarget {raw : String} {t : DistroTarget} (named : resolveDistroTarget m.toCaseMap raw = some t) :
    t = ⟨"default","",""⟩ ∨ ∃ id ∈ ["ubuntu","debian","kali","fedora","rhel","centos","rocky","almalinux","alpine","arch","manjaro"],
      t = ⟨id,"any","any"⟩ := by
  unfold resolveDistroTarget at named
  generalize String.ofList (dropAll ' ' (m.toLower (trimSpace raw)).toList) = id at named
  dsimp only at named
  split at named
  · rename_i here
    cases Option.some.inj named
    exact .inr ⟨id,by grind,rfl⟩
  · split at named
    · rename_i here
      cases Option.some.inj named
      split
      · exact .inr ⟨"almalinux",by decide,rfl⟩
      · exact .inr ⟨id,by grind,rfl⟩
    · split at named
      · cases Option.some.inj named
        exact .inr ⟨id,by grind,rfl⟩
      · split at named
        · cases Option.some.inj named
          exact .inr ⟨id,by grind,rfl⟩
        · split at named
          · exact .inl (Option.some.inj named).symm
          · contradiction

/- Distributions that are named put nothing elsewhere. -/
theorem namedInside {targets : List DistroTarget} (own : req.targets = []) (offline : req.fromHub = false)
    (known : resolveScaffoldTargets m.toCaseMap tags req = .ok targets) (folder : Path) : ∀ t ∈ targets, Inside folder t := by
  intro t mem
  simp only [resolveScaffoldTargets,own,offline,ne_eq,not_true_eq_false,if_false,Bool.false_eq_true,Except.ok.injEq] at known
  rw [← known] at mem
  obtain ⟨raw,_,named⟩ := List.mem_filterMap.mp mem
  apply insideForward
  rcases namedTarget m named with rfl | ⟨id,listed,rfl⟩
  · decide
  · have each : ∀ id ∈ ["ubuntu","debian","kali","fedora","rhel","centos","rocky","almalinux","alpine","arch","manjaro"],
        ∀ c ∈ below ⟨id,"any","any"⟩, c ≠ ".." := by decide
    exact each id listed

end

end

/- The segments, the paths and the folders of softwares: each is as it has to be exactly for the texts
that leave no dots that met and nothing blank at an end. -/
theorem segmentsHold (m : LetterMap) :
    (∀ s, Segment m s ↔ Firm (trimSpace s).toList) ∧
    (∀ softwareName host,
      (∀ root, ∀ p ∈ pathsOf m.toCaseMap softwareName host, Stays root (sanitizeSegment m.toCaseMap softwareName) p) ↔
        Hosted m.toCaseMap softwareName host) ∧
    ∀ cwd tags req,
      ((∀ made written merged, Placed (outputRoot cwd req) (sanitizeSegment m.toCaseMap req.name)
        (Scaffold m.toCaseMap cwd tags made written merged req)) ↔ Sheltered m.toCaseMap cwd tags req) ∧
      (req.targets = [] → req.fromHub = false → ∀ targets, resolveScaffoldTargets m.toCaseMap tags req = .ok targets →
        ∀ folder, ∀ t ∈ targets, Inside folder t) :=
  ⟨segmentIff m,pathsStay m,fun _ _ _ => ⟨scaffoldPlaced m,fun own offline _ known => namedInside m own offline known⟩⟩

/- `./.` is left with two dots, and what belongs to it is looked for beside the softwares. -/
theorem dotsMeet :
    sanitizeSegment asciiLetters.toCaseMap "./." = ".." ∧
    "softwares/../package.json" ∈ pathsOf asciiLetters.toCaseMap "./." ⟨"debian","12","amd64"⟩ ∧
    join [] "softwares/../package.json" = ["package.json"] ∧
    ¬Stays [] (sanitizeSegment asciiLetters.toCaseMap "./.") "softwares/../package.json" ∧
    sanitizeSegment asciiLetters.toCaseMap (sanitizeSegment asciiLetters.toCaseMap "./.") ≠
      sanitizeSegment asciiLetters.toCaseMap "./." := by
  refine ⟨by decide,by decide,by decide,?_,by decide⟩
  intro stays
  exact (stays.segments ".." (by decide)).2 rfl

end ContainerWS.SoftwarePkg
