import ContainerWS.GoClean

/-! The folder picker of the code server, modules/vscode/list/paths.go: which directories a user who is not an
administrator is shown. A path is a text, and what it leads to is told by the disk. -/
namespace ContainerWS.CodeServer
open GoPath GoStrings

structure PathRoot where
  path : String
  label : String
  deriving DecidableEq, Repr

structure PathEntry where
  name : String
  path : String
  hasChildren : Bool
  deriving DecidableEq, Repr

structure PathBrowseResult where
  path : String
  parent : String
  existing : Bool
  isDir : Bool
  willCreate : Bool
  typed : String
  entries : List PathEntry
  roots : List PathRoot
  admin : Bool
  deriving DecidableEq, Repr

/- An entry of a directory; its mode may be out of reach. -/
structure DirEntry where
  name : String
  isDir : Bool
  symlink : Option Bool
  deriving DecidableEq

/- `os.Stat`, which follows links, tells a directory from a file. -/
structure Disk where
  stat : String → Option Bool
  readDir : String → Option (List DirEntry)

def Disk.dirAt (d : Disk) (path : String) : Bool := d.stat path == some true

/- What `sort.Slice` promises: the same elements, in order; which of two equal ones comes first is open. -/
structure Slice (α : Type) (less : α → α → Bool) where
  sort : List α → List α
  perm : ∀ l, (sort l).Perm l
  ordered : ∀ l, (sort l).Pairwise fun a b => less b a = false

section
variable (m : CaseMap)

def byName (a b : PathEntry) : Bool := decide (m.toLower a.name < m.toLower b.name)

def isPathAllowed (path : String) (roots : List PathRoot) (isAdmin : Bool) : Bool :=
  let path := cleanText path
  if path = "" then false
  else if isAdmin then hasPrefix path "/"
  else roots.any fun root =>
    let rootPath := cleanText root.path
    path == rootPath || hasPrefix path (rootPath ++ "/") || (rootPath != "/" && dirText rootPath == path)

def splitBrowsePath (clean : String) (trailingSlash : Bool) : String × String :=
  if trailingSlash ∨ clean = "/" then (clean,"")
  else
    let dir := dirText clean
    (if dir = "" then "/" else dir,baseText clean)

/- The loop of deepestExistingDir. -/
def climb (d : Disk) : Nat → String → List String → String × String
  | 0, _, _ => ("","")
  | n+1, cur, missing =>
    if d.dirAt cur then (cur,joined missing.reverse)
    else if cur = "/" then ("/",joined missing.reverse)
    else
      let next := dirText cur
      if next = cur then ("","") else climb d n next (missing ++ [baseText cur])

/- A path has no more directories above it than components. -/
def deepestExistingDir (d : Disk) (path : String) : String × String :=
  climb d (components (cleanText path)).length (cleanText path) []

/- `strings.Trim` of the separator. -/
def trimSlashes (s : String) : String := trimRight '/' (String.ofList (s.toList.dropWhile (fun c => c == '/')))

def firstSegment (rest : String) : String := before '/' (trimSlashes rest)

/- A directory, or a link to one. -/
def leadsOn (d : Disk) (dir : String) (e : DirEntry) : Bool :=
  !hasPrefix e.name "." && (e.isDir || (e.symlink == some true && d.dirAt (joinTwo dir e.name)))

def dirHasChildDirs (d : Disk) (dir : String) : Bool :=
  match d.readDir dir with
  | none => false
  | some entries => entries.any (leadsOn d dir)

def listed (dir typed : String) (roots : List PathRoot) (isAdmin : Bool) (name : String) : Bool :=
  let full := joinTwo dir name
  (m.toLower typed == "" || hasPrefix (m.toLower name) (m.toLower typed)) &&
  (isPathAllowed full roots isAdmin || roots.any fun root => cleanText root.path == full)

def listChildDirs (d : Disk) (order : Slice PathEntry (byName m)) (dir typed : String) (roots : List PathRoot) (isAdmin : Bool) : List PathEntry :=
  match d.readDir dir with
  | none => []
  | some entries =>
    let out := (entries.filter fun e => leadsOn d dir e && listed m dir typed roots isAdmin e.name).map fun e =>
      ⟨e.name,joinTwo dir e.name,dirHasChildDirs d (joinTwo dir e.name)⟩
    (order.sort out).take 200

/- The typed path: from the root, and the workspace when there is none. -/
def typedPath (query : String) : String :=
  let raw := trimSpace query
  let raw := if raw = "" then "/workspace" else raw
  if hasPrefix raw "/" then raw else "/" ++ raw

def requested (query : String) : String :=
  let clean := cleanText (typedPath query)
  if clean = "." then "/" else clean

def browsePath (query : String) : String × String :=
  splitBrowsePath (requested query) ((typedPath query).toList.getLast? == some '/')

/- The directory that is listed and what is listed of it. -/
def browseEntries (d : Disk) (order : Slice PathEntry (byName m)) (roots : List PathRoot) (isAdmin : Bool) (listDir typed : String) :
    String × List PathEntry :=
  match d.stat listDir with
  | some true => (listDir,listChildDirs m d order listDir typed roots isAdmin)
  | some false => (listDir,[])
  | none =>
    let (ancestor,rest) := deepestExistingDir d listDir
    if ancestor ≠ "" ∧ isPathAllowed ancestor roots isAdmin then
      let filter := if typed ≠ "" ∧ rest = "" then typed else rest
      (ancestor,listChildDirs m d order ancestor (firstSegment filter) roots isAdmin)
    else (listDir,[])

def browse (d : Disk) (order : Slice PathEntry (byName m)) (roots : List PathRoot) (isAdmin : Bool) (query : String) : PathBrowseResult :=
  let (listDir,typed) := browsePath query
  if isPathAllowed listDir roots isAdmin = false then
    ⟨requested query,"",false,false,true,typed,[],roots,isAdmin⟩
  else
    let (shown,entries) := browseEntries m d order roots isAdmin listDir typed
    let isDir := d.dirAt listDir
    ⟨shown,if shown = "/" then "" else dirText shown,isDir,isDir,!d.dirAt (requested query),typed,entries,roots,isAdmin⟩

end

def buildPathRoots (isAdmin : Bool) (home linuxName : String) : List PathRoot :=
  let roots := [PathRoot.mk "/workspace" "Workspace"]
  let roots :=
    if home = "" then roots
    else roots ++ [⟨cleanText home,if linuxName = "" then "Home" else "Home (" ++ linuxName ++ ")"⟩]
  if isAdmin then
    [PathRoot.mk "/" "Root",⟨"/home","Homes"⟩,⟨"/tmp","Temp"⟩,⟨"/opt","Opt"⟩,⟨"/var","Var"⟩].foldl
      (fun roots r => if (roots.map PathRoot.path).contains r.path then roots else roots ++ [r]) roots
  else roots

structure User where
  username : String
  ldapUsername : String
  deriving DecidableEq

structure LinuxAccount where
  present : Bool
  homeDir : String
  deriving DecidableEq

/- The rows of the users and the accounts of the system. -/
structure Directory where
  user : String → Option User
  lookup : String → Option LinuxAccount

def linuxNameOf (u : User) : String := if trimSpace u.username = "" then trimSpace u.ldapUsername else trimSpace u.username

def resolveLinuxHome (dir : Directory) (userID : String) : String × String :=
  if trimSpace userID = "" then ("","")
  else
    match dir.user userID with
    | none => ("","")
    | some u =>
      let linuxName := linuxNameOf u
      if linuxName = "" then ("","")
      else
        match dir.lookup linuxName with
        | none => (joinTwo "/home" linuxName,linuxName)
        | some acc =>
          if acc.present = false then (joinTwo "/home" linuxName,linuxName)
          else if trimSpace acc.homeDir = "" then (joinTwo "/home" linuxName,linuxName)
          else (trimSpace acc.homeDir,linuxName)

structure Caller where
  userID : String
  admin : Bool
  deriving DecidableEq

def GetCodeserverPathsAPI (m : CaseMap) (d : Disk) (order : Slice PathEntry (byName m)) (dir : Directory) (caller : Option Caller)
    (userID query : String) : Except Nat PathBrowseResult :=
  match caller with
  | none => .error 401
  | some user =>
    if user.userID = "" then .error 401
    else
      let target := if trimSpace userID = "" then user.userID else trimSpace userID
      if user.admin = false ∧ target ≠ user.userID then .error 403
      else
        let (home,linuxName) := resolveLinuxHome dir target
        .ok (browse m d order (buildPathRoots user.admin home linuxName) user.admin query)

/- A root, what is below it, or a directory that leads to it. -/
def Placed (roots : List PathRoot) (path : String) : Prop :=
  hasPrefix path "/" = true ∧ ∃ root ∈ roots, hasPrefix root.path "/" = true ∧ (dirs root.path <+: dirs path ∨ dirs path <+: dirs root.path)

instance (roots : List PathRoot) (path : String) : Decidable (Placed roots path) := by
  unfold Placed
  infer_instance

/- A path that begins at the root, and is clean. -/
def Clean (path : String) : Prop := ∃ p : Path, (∀ n ∈ p, Plain n) ∧ path = render p

theorem cleanClean {s : String} (start : hasPrefix s "/" = true) : Clean (cleanText s) :=
  ⟨dirs s,dirsPlain s,cleanAbsolute start⟩

theorem dirClean {path : String} (clean : Clean path) : Clean (dirText path) := by
  obtain ⟨p,named,rfl⟩ := clean
  exact ⟨p.dropLast,fun n mem => named n (List.dropLast_subset p mem),dirRender named⟩

theorem joinClean {path : String} (clean : Clean path) (name : String) : Clean (joinTwo path name) := by
  obtain ⟨p,named,rfl⟩ := clean
  have start := (slashHead _).mp (renderStart p)
  have filled : render p ≠ "" := by
    intro none
    rw [none] at start
    exact absurd start (by decide)
  unfold joinTwo
  rw [if_neg filled]
  split
  · exact cleanClean (renderStart p)
  · refine cleanClean ((slashHead _).mpr ?_)
    rw [String.toList_append,String.toList_append,List.append_assoc,List.head?_append,start]
    rfl

theorem typedStart (query : String) : hasPrefix (typedPath query) "/" = true := by
  unfold typedPath
  dsimp only
  generalize (if trimSpace query = "" then "/workspace" else trimSpace query) = raw
  split
  · assumption
  · rw [slashHead,String.toList_append]
    rfl

theorem rootClean : Clean "/" := ⟨[],by simp,by decide⟩

theorem requestedClean (query : String) : Clean (requested query) := by
  unfold requested
  dsimp only
  split
  · exact rootClean
  · exact cleanClean (typedStart query)

theorem splitClean {path : String} (clean : Clean path) (trailing : Bool) : Clean (splitBrowsePath path trailing).1 := by
  unfold splitBrowsePath
  split
  · exact clean
  · dsimp only
    split
    · exact rootClean
    · exact dirClean clean

theorem browseClean (query : String) : Clean (browsePath query).1 := splitClean (requestedClean query) _

/- The loop ends at the deepest directory there is, or at the root. -/
theorem climbFound (d : Disk) {p : Path} {fuel : Nat} (missing : List String) (named : ∀ n ∈ p, Plain n) (enough : p.length < fuel) :
    ∃ q, q <+: p ∧ (climb d fuel (render p) missing).1 = render q ∧
      ∀ r, r <+: p → q.length < r.length → d.dirAt (render r) = false := by
  induction p using List.reverseRecOn generalizing fuel missing with
  | nil =>
    obtain ⟨fuel,rfl⟩ := Nat.exists_eq_succ_of_ne_zero (Nat.ne_zero_of_lt enough)
    have top : render [] = "/" := by decide
    refine ⟨[],List.prefix_rfl,?_,fun r below long => ?_⟩
    · rw [top,climb]
      split <;> simp
    · rw [List.prefix_nil.mp below] at long
      cases long
  | append_singleton p n ih =>
    obtain ⟨fuel,rfl⟩ := Nat.exists_eq_succ_of_ne_zero (Nat.ne_zero_of_lt enough)
    have above : ∀ m ∈ p, Plain m := fun m mem => named m (by simp [mem])
    rw [List.length_append,List.length_singleton] at enough
    by_cases here : d.dirAt (render (p ++ [n])) = true
    · refine ⟨p ++ [n],List.prefix_rfl,?_,fun r below long => absurd below.length_le (Nat.not_le_of_lt long)⟩
      rw [climb,if_pos here]
    · have up : dirText (render (p ++ [n])) = render p := by rw [dirRender named,List.dropLast_concat]
      have other : render (p ++ [n]) ≠ "/" := by
        intro same
        have empty := renderInj named (q := []) (by simp) same
        simp at empty
      have moves : render p ≠ render (p ++ [n]) := by
        intro same
        have equal := congrArg List.length (renderInj above named same)
        simp at equal
      obtain ⟨q,below,found,deepest⟩ := ih (missing ++ [baseText (render (p ++ [n]))]) above (Nat.lt_of_succ_lt_succ enough)
      refine ⟨q,below.trans (List.prefix_append _ _),?_,?_⟩
      · rw [climb,if_neg here,if_neg other]
        dsimp only
        rw [up,if_neg moves,found]
      · intro r inside long
        rcases List.prefix_concat_iff.mp inside with rfl | shorter
        · exact Bool.eq_false_iff.mpr here
        · exact deepest r shorter long

theorem deepestFound (d : Disk) {p : Path} (named : ∀ n ∈ p, Plain n) :
    ∃ q, q <+: p ∧ (deepestExistingDir d (render p)).1 = render q ∧
      ∀ r, r <+: p → q.length < r.length → d.dirAt (render r) = false := by
  unfold deepestExistingDir
  rw [cleanRender named]
  refine climbFound d [] named ?_
  rw [componentsRender named]
  split
  · rename_i empty
    simp [empty]
  · simp

/- What is let through is at a root, below it, or the directory that a root is in. -/
theorem allowedPlaced {path : String} {roots : List PathRoot} (clean : Clean path) (allowed : isPathAllowed path roots false = true) :
    Placed roots path := by
  obtain ⟨p,named,rfl⟩ := clean
  unfold isPathAllowed at allowed
  dsimp only at allowed
  rw [cleanRender named] at allowed
  split at allowed
  · contradiction
  rw [if_neg (by decide),List.any_eq_true] at allowed
  obtain ⟨root,mem,way⟩ := allowed
  simp only [Bool.or_eq_true,Bool.and_eq_true,beq_iff_eq] at way
  have pStart := renderStart p
  have start : hasPrefix root.path "/" = true := by
    rw [← cleanStart]
    rcases way with (same | below) | ⟨_,parent⟩
    · rwa [← same]
    · rw [slashHead] at pStart ⊢
      obtain ⟨rest,whole⟩ := List.isPrefixOf_iff_prefix.mp below
      rw [← whole,String.toList_append] at pStart
      cases chars : (cleanText root.path).toList with
      | nil => exact absurd (String.toList_inj.mp chars) (cleanFilled _)
      | cons c cs =>
        rw [chars] at pStart
        exact pStart
    · rw [← parent] at pStart
      exact dirStart pStart
  have rNamed := dirsPlain root.path
  rw [cleanAbsolute start] at way
  refine ⟨pStart,root,mem,start,?_⟩
  rw [dirsRender named]
  rcases way with (same | below) | ⟨_,parent⟩
  · rw [renderInj named rNamed same]
    exact .inl List.prefix_rfl
  · exact .inl (renderPrefix named rNamed below)
  · rw [dirRender rNamed] at parent
    have above : ∀ n ∈ (dirs root.path).dropLast, Plain n := fun n mem => rNamed n (List.dropLast_subset _ mem)
    rw [renderInj named above parent.symm]
    exact .inr (List.dropLast_prefix _)

/- The directory that a placed path is in is placed. -/
theorem parentPlaced {path : String} {roots : List PathRoot} (clean : Clean path) (placed : Placed roots path) : Placed roots (dirText path) := by
  obtain ⟨p,named,rfl⟩ := clean
  obtain ⟨_,root,mem,start,near⟩ := placed
  have above : ∀ n ∈ p.dropLast, Plain n := fun n mem => named n (List.dropLast_subset p mem)
  rw [dirRender named]
  refine ⟨renderStart _,root,mem,start,?_⟩
  rw [dirsRender named] at near
  rw [dirsRender above]
  rcases near with below | upward
  · rcases Nat.lt_or_ge (dirs root.path).length p.length with short | long
    · refine .inl (List.prefix_of_prefix_length_le below (List.dropLast_prefix p) ?_)
      rw [List.length_dropLast]
      exact Nat.le_sub_one_of_lt short
    · rw [below.eq_of_length_le long]
      exact .inr (List.dropLast_prefix _)
  · exact .inr ((List.dropLast_prefix p).trans upward)

section
variable {m : CaseMap} {d : Disk} {order : Slice PathEntry (byName m)} {roots : List PathRoot}

/- A directory's entries are let through, or they are roots. -/
theorem childrenPlaced {dir typed : String} (clean : Clean dir) :
    ∀ e ∈ listChildDirs m d order dir typed roots false, Placed roots e.path := by
  intro e mem
  unfold listChildDirs at mem
  split at mem
  · cases mem
  · rename_i entries _
    have inside := (order.perm _).mem_iff.mp (List.mem_of_mem_take mem)
    obtain ⟨entry,kept,rfl⟩ := List.mem_map.mp inside
    simp only [List.mem_filter,listed,Bool.and_eq_true,Bool.or_eq_true] at kept
    dsimp only
    have full := joinClean clean entry.name
    rcases kept.2.2.2 with allowed | isRoot
    · exact allowedPlaced full allowed
    · obtain ⟨root,rootMem,same⟩ := List.any_eq_true.mp isRoot
      rw [beq_iff_eq] at same
      obtain ⟨p,named,shape⟩ := full
      have start : hasPrefix root.path "/" = true := by
        rw [← cleanStart,same,shape]
        exact renderStart p
      rw [cleanAbsolute start] at same
      refine ⟨(congrArg (hasPrefix · "/") shape).trans (renderStart p),root,rootMem,start,.inl ?_⟩
      have whole : dirs root.path = p := renderInj (dirsPlain _) named (same.trans shape)
      rw [shape,dirsRender named]
      exact ⟨[],(List.append_nil _).trans whole⟩

theorem entriesPlaced {listDir typed : String} (clean : Clean listDir) (allowed : isPathAllowed listDir roots false = true) :
    let out := browseEntries m d order roots false listDir typed
    Clean out.1 ∧ Placed roots out.1 ∧ ∀ e ∈ out.2, Placed roots e.path := by
  have here := allowedPlaced clean allowed
  have none : ∀ e ∈ ([] : List PathEntry), Placed roots e.path := by simp
  unfold browseEntries
  split
  · exact ⟨clean,here,childrenPlaced clean⟩
  · exact ⟨clean,here,none⟩
  · obtain ⟨p,named,rfl⟩ := clean
    obtain ⟨q,above,found,_⟩ := deepestFound d named
    have ancestor : Clean (deepestExistingDir d (render p)).1 := ⟨q,fun n mem => named n (above.subset mem),found⟩
    generalize deepestExistingDir d (render p) = deepest at ancestor
    dsimp only
    split
    · rename_i held
      exact ⟨ancestor,allowedPlaced ancestor held.2,childrenPlaced ancestor⟩
    · exact ⟨⟨p,named,rfl⟩,here,none⟩

end

/- What a user who is not an administrator is shown is at a root, below it or on the way to it. A request for what is not gets its
own path back, and nothing with it. -/
theorem browsePlaced (m : CaseMap) (d : Disk) (order : Slice PathEntry (byName m)) (roots : List PathRoot) (query : String) :
    let out := browse m d order roots false query
    out.roots = roots ∧ (∀ e ∈ out.entries, Placed roots e.path) ∧ (out.parent ≠ "" → Placed roots out.parent) ∧
    (isPathAllowed (browsePath query).1 roots false = true → Placed roots out.path) ∧
    (isPathAllowed (browsePath query).1 roots false = false → out.path = requested query ∧ out.entries = [] ∧ out.parent = "") := by
  have clean := browseClean query
  dsimp only
  unfold browse
  generalize browsePath query = path at clean
  dsimp only
  cases allowed : isPathAllowed path.1 roots false with
  | false =>
    rw [if_pos rfl]
    have none : ∀ e ∈ ([] : List PathEntry), Placed roots e.path := by simp
    refine ⟨rfl,none,fun some => absurd rfl some,nofun,fun _ => ⟨?_,rfl,rfl⟩⟩
    dsimp only
  | true =>
    obtain ⟨shown,placed,entries⟩ := @entriesPlaced m d order roots path.1 path.2 clean allowed
    rw [if_neg (by simp)]
    refine ⟨rfl,entries,?_,fun _ => placed,nofun⟩
    dsimp only
    split
    · exact fun some => absurd rfl some
    · exact fun _ => parentPlaced shown placed

/- A caller who is not an administrator is shown what the workspace and the own home let through. -/
theorem ownRoots {m : CaseMap} {d : Disk} {order : Slice PathEntry (byName m)} {dir : Directory} {user : Caller} {userID query : String}
    {out : PathBrowseResult} (plain : user.admin = false)
    (answer : GetCodeserverPathsAPI m d order dir (some user) userID query = .ok out) :
    let home := resolveLinuxHome dir user.userID
    out = browse m d order (buildPathRoots false home.1 home.2) false query := by
  unfold GetCodeserverPathsAPI at answer
  dsimp only at answer
  rw [plain] at answer
  split at answer
  · cases answer
  generalize (if trimSpace userID = "" then user.userID else trimSpace userID) = target at answer
  split at answer
  · cases answer
  · rename_i own
    have same := not_not.mp (not_and.mp own rfl)
    rw [same] at answer
    exact (Except.ok.inj answer).symm

/- The order of a merge sort. -/
def byMerge (m : CaseMap) : Slice PathEntry (byName m) where
  sort l := l.mergeSort fun a b => !byName m b a
  perm l := List.mergeSort_perm l _
  ordered l := by
    refine (List.pairwise_mergeSort ?_ ?_ l).imp ?_
    · intro a b c
      simp only [byName,Bool.not_eq_true',decide_eq_false_iff_not,not_lt]
      exact le_trans
    · intro a b
      simp only [byName,Bool.or_eq_true,Bool.not_eq_true',decide_eq_false_iff_not,not_lt]
      exact le_total _ _
    · exact fun {a b} held => (Bool.not_eq_true' _).mp held

/- Who may look into the workspace only and asks for another directory gets its path back. -/
theorem refusedEchoed :
    let roots := buildPathRoots false "" ""
    let out := browse ascii ⟨fun _ => none,fun _ => none⟩ (byMerge ascii) roots false "/etc/"
    out.path = "/etc" ∧ ¬ Placed roots out.path := by
  decide

end ContainerWS.CodeServer
