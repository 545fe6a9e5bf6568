import ContainerWS.Programs

/-! Copying in modules/filemanager/fsutil/helpers.go and, with directories of one
mode, in modules/mcp/tools/filesystem/ops.go. The walk lists a directory when it has
entered it, so it sees what it has itself put there; its fuel is the depth down to
which it is followed. The count of bytes, which only the answers show, is left out. -/
namespace ContainerWS.Files
open GoPath FileTree

/- `FileInfo.Mode`; a link has all permission bits. -/
def mode : Entry → Nat
  | .file mode _ => mode
  | .link _ => 0o777
  | .dir mode => mode

structure DirEntry where
  isDir : Bool
  known : Option Entry

/- `d.Info`: a call of its own, save at the root of a walk. -/
def DirEntry.info (d : DirEntry) (p : Path) : Sys Entry :=
  match d.known with
  | some e => pure e
  | none => do Os.lstat (← Sys.next) p

/- The loop of `filepath.walkDir` over a directory, which is listed when the walk has
entered it. -/
def walkEntries (walk : Path → DirEntry → Sys Unit) (p : Path) : Sys Unit := do
  let dirs ← Os.readDir (← Sys.next) p
  dirs.forM (fun d1 => walk (p ++ [d1.1]) ⟨d1.2,none⟩)

/- `filepath.walkDir`. -/
def walkDir (fn : Path → DirEntry → Sys Unit) : Nat → Path → DirEntry → Sys Unit
  | 0, _, _ => Sys.diverge
  | fuel+1, p, d => do
    fn p d
    if d.isDir then walkEntries (walkDir fn fuel) p

/- `filepath.WalkDir`. -/
def WalkDir (fn : Path → DirEntry → Sys Unit) (fuel : Nat) (root : Path) : Sys Unit := do
  let e ← Os.lstat (← Sys.next) root
  walkDir fn fuel root ⟨e.isDir,some e⟩

def ensureParentDir (umask : Nat) (path : List Name) : Sys Unit := do
  Os.mkdirAll umask (← Sys.next) (dir path) 0o755

def copyFile (umask : Nat) (src dst : List Name) (mode : Nat) : Sys Unit := do
  ensureParentDir umask dst
  let r ← Os.openFile (← Sys.next) src
  let l ← Os.create umask (← Sys.next) dst mode
  Os.copy (← Sys.next) r l

/- The permissions of a directory: its own, or the usual ones when they cannot be had. -/
def ownPerm (p : Path) (d : DirEntry) : Sys Nat := do
  match ← Sys.attempt (d.info p) with
  | .ok info => pure (mode info)
  | .error _ => pure 0o755

def usualPerm (_ : Path) (_ : DirEntry) : Sys Nat := pure 0o755

/- One entry of the walk. -/
def copyEntry (umask : Nat) (perm : Path → DirEntry → Sys Nat) (src dst : List Name) (p : Path) (d : DirEntry) :
    Sys Unit := do
  let target := clean (dst ++ rel src p)
  if d.isDir then
    let m ← perm p d
    Os.mkdirAll umask (← Sys.next) target m
  else
    let info ← d.info p
    copyFile umask p target (mode info)

def copyTree (umask : Nat) (perm : Path → DirEntry → Sys Nat) (fuel : Nat) (src dst : List Name) : Sys Unit :=
  WalkDir (copyEntry umask perm src dst) fuel src

/- `CopyDir` of fsutil. -/
def CopyDir (umask fuel : Nat) (src dst : List Name) : Sys Unit := copyTree umask ownPerm fuel src dst

/- `copyDir` of the MCP tools. -/
def mcpCopyDir (umask fuel : Nat) (src dst : List Name) : Sys Unit := copyTree umask usualPerm fuel src dst

/- Existing entries but one are as they were. -/
def Spares (l : Path) (t t' : Tree) : Prop := ∀ q e, t.get q = some e → q ≠ l → t'.get q = some e

theorem keepsSpares {t t' : Tree} (keeps : Keeps t t') (l : Path) : Spares l t t' := fun q e here _ => keeps q e here

theorem cleanNamed {p : Path} (named : ∀ n ∈ p, Plain n) : clean p = p := by
  rw [clean,pushAll named,List.nil_append]

theorem dirNamed {p : Path} {n : Name} (named : ∀ m ∈ p ++ [n], Plain m) : dir (p ++ [n]) = p := by
  rw [dir,List.dropLast_concat]
  exact cleanNamed (fun m mem => named m (List.mem_append_left _ mem))

/- What copyFile leaves at the target: a file of the mode it has got, with what the
source held; nothing, when the source is the target. -/
def Filled (t : Tree) (r l : Path) (perm : Nat) (t' : Tree) : Prop :=
  (∀ q, q ≠ l → t'.get q = t.get q) ∧
  ∃ mode data, t'.get l = some (.file mode data) ∧
    ((∃ old, t.get l = some (.file mode old)) ∨ t.get l = none ∧ mode = perm) ∧
    (r = l ∧ data = [] ∨ r ≠ l ∧ ∃ m, t.get r = some (.file m data))

/- The path leads to a file that can be read. -/
def Readable (t : Tree) (src : List Name) : Prop := ∃ r m data, t.follow src = .found r ∧ t.get r = some (.file m data)

theorem copyWrote {t t' : Tree} {r l : Path} {u : Unit}
    (wrote : (do .ok ((),t.write l (← t.read r)) : Except Errno (Unit × Tree)) = .ok (u,t')) :
    ∃ data, t.read r = .ok data ∧ t' = t.write l data := by
  cases read : t.read r with
  | error e =>
    rw [read] at wrote
    cases wrote
  | ok data =>
    rw [read] at wrote
    cases wrote
    exact ⟨data,rfl,rfl⟩

theorem createSpares {c t : Tree} {l : Path} {mode : Nat}
    (gets : ∀ q, t.get q = if q = l then some (.file mode []) else c.get q) : Spares l c t := by
  intro q e here other
  rw [gets,if_neg other,here]

/- What a copy that fails leaves: all else, and it does not fail for nothing. -/
def Missed (calm : Prop) (c : Tree) (src : List Name) (l : Path) (t : Tree) : Prop :=
  Spares l c t ∧ ¬(calm ∧ Readable c src ∧ c.isDirAt l = false)

theorem copyFileFills {halts calm : Prop} {umask perm : Nat} {c : Tree} {src d : List Name} {n : Name} {p : Path}
    (named : ∀ m ∈ d ++ [n], Plain m) (found : c.follow d = .found p) (inside : c.isDirAt p = true)
    (solid : c.isLinkAt (p ++ [n]) = false) :
    Ensures halts (Quietly calm (fun t => t = c)) (copyFile umask src (d ++ [n]) perm)
      (fun _ => Quietly calm (fun t => ∃ r, c.follow src = .found r ∧
        Filled c r (p ++ [n]) (Os.masked umask perm) t))
      (fun _ => Quietly calm (Missed calm c src (p ++ [n]))) := by
  have plain := named n (by simp)
  obtain ⟨lands,creates⟩ := createBelow (Os.masked umask perm) plain found inside solid
  have still : Spares (p ++ [n]) c c := fun _ _ here _ => here
  have broken {t : Tree} (noisy : ¬calm) (spares : Spares (p ++ [n]) c t) : Missed calm c src (p ++ [n]) t :=
    ⟨spares,fun ⟨peace,_⟩ => noisy peace⟩
  unfold copyFile ensureParentDir
  rw [dirNamed named]
  -- The directory of the target is there.
  refine ensuresBind (Q := fun _ => Quietly calm (fun t => t = c)) ?_ (fun _ => ?_)
  · refine ensuresPlanned (fun f quiet => ensuresChanged quiet ?_ ?_ ?_)
    · rintro t a t' rfl made
      rw [mkdirAllStays _ found inside] at made
      cases made
      rfl
    · rintro t e rfl made
      rw [mkdirAllStays _ found inside] at made
      cases made
    · rintro noisy fault t rfl
      exact broken noisy (keepsSpares (Os.mkdirHalfKeeps _ _ _) _)
  refine ensuresPlanned (fun f quiet =>
    ensuresBind (Q := fun r => Quietly calm (fun t => t = c ∧ c.follow src = .found r)) ?_ (fun r => ?_))
  · refine ensuresAsked quiet ?_ ?_ ?_
    · rintro t r rfl opened
      exact ⟨rfl,openFound.mp opened⟩
    · rintro t e rfl lost
      refine ⟨still,?_⟩
      rintro ⟨_,⟨r,_,_,here,_⟩,_⟩
      rw [openFound.mpr here] at lost
      contradiction
    · rintro noisy t rfl
      exact broken noisy still
  refine ensuresPlanned (fun f' quiet' => ensuresBind (Q := fun l => Quietly calm (fun t => c.follow src = .found r ∧
    l = p ++ [n] ∧ c.create (d ++ [n]) (Os.masked umask perm) = .ok (p ++ [n],t))) ?_ (fun l => ?_))
  · refine ensuresChanged quiet' ?_ ?_ ?_
    · rintro t l t' ⟨rfl,opened⟩ made
      have same := lands l t' made
      subst same
      exact ⟨opened,rfl,made⟩
    · rintro t e ⟨rfl,opened⟩ made
      refine ⟨still,?_⟩
      rintro ⟨_,_,file⟩
      obtain ⟨t',ok⟩ := creates file
      rw [made] at ok
      contradiction
    · rintro noisy fault t ⟨rfl,_⟩
      exact broken noisy still
  · refine ensuresPlanned (fun f'' quiet'' => ensuresChanged quiet'' ?_ ?_ ?_)
    · rintro t u t' ⟨opened,rfl,made⟩ wrote
      obtain ⟨mode,gets,fresh,_⟩ := createMade made
      obtain ⟨data,read,wrote⟩ := copyWrote wrote
      have empty : t.get (p ++ [n]) = some (.file mode []) := by rw [gets,if_pos rfl]
      have after := getWrite data empty
      refine ⟨r,opened,?_,mode,data,?_,fresh,?_⟩
      · intro q other
        rw [wrote,after,if_neg other,gets,if_neg other]
      · rw [wrote,after,if_pos rfl]
      · obtain ⟨m,there⟩ := readFound.mp read
        rw [gets] at there
        split at there
        · rename_i same
          cases there
          exact .inl ⟨same,rfl⟩
        · rename_i other
          exact .inr ⟨other,m,there⟩
    · rintro t e ⟨opened,rfl,made⟩ wrote
      obtain ⟨mode,gets,_,_⟩ := createMade made
      refine ⟨createSpares gets,?_⟩
      rintro ⟨_,⟨r',m,data,here,there⟩,_⟩
      rw [opened] at here
      cases here
      have read : ∃ data', t.read r = .ok data' := by
        by_cases same : r = p ++ [n]
        · exact ⟨[],readFound.mpr ⟨mode,by rw [gets,if_pos same]⟩⟩
        · exact ⟨data,readFound.mpr ⟨m,by rw [gets,if_neg same,there]⟩⟩
      obtain ⟨data',read⟩ := read
      rw [read] at wrote
      cases wrote
    · rintro noisy fault t ⟨opened,rfl,made⟩
      obtain ⟨mode,gets,_,_⟩ := createMade made
      have empty : t.get (p ++ [n]) = some (.file mode []) := by rw [gets,if_pos rfl]
      refine broken noisy ?_
      split
      · intro q e here other
        rw [getWrite _ empty,if_neg other,gets,if_neg other,here]
      · exact createSpares gets

end ContainerWS.Files
