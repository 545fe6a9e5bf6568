import ContainerWS.Fallible
import ContainerWS.Files.Members
import ContainerWS.Files.Walk

/-! writeZipArchive and extractZip of modules/filemanager/ops/archive.go: a list of paths as an archive, and the
archive in a directory again. The time stamps of the members and the count of the answer are left out. -/
namespace ContainerWS.Files
open GoPath GoStrings FileTree Fallible

def hasSuffix (s last : String) : Bool := last.toList.isSuffixOf s.toList

/- A header with what is behind it. -/
structure Member where
  name : String
  isDir : Bool
  mode : Nat
  data : Bytes
  deriving DecidableEq, Repr

def addFile (t : Tree) (absPath : Path) (nameInZip : String) (info : Entry) : Except Errno Member :=
  if info.isDir then .ok ⟨if hasSuffix nameInZip "/" then nameInZip else nameInZip ++ "/",true,mode info,[]⟩
  else do
    let r ← t.openFile absPath
    let data ← t.read r
    .ok ⟨nameInZip,false,mode info,data⟩

/- `filepath.Walk`: a directory before what is in it, by name. -/
def walkMembers (t : Tree) (fn : Path → Entry → Except Errno Member) : Nat → Path → Entry → Except Errno (List Member)
  | 0, _, _ => .error .loop
  | fuel+1, p, info =>
    if info.isDir then do
      let dirs ← t.readDir p
      let first ← fn p info
      let below ← dirs.mapM (fun d => do walkMembers t fn fuel (p ++ [d.1]) (← t.lstat (p ++ [d.1])))
      .ok (first :: below.flatten)
    else do
      .ok [← fn p info]

def nameInZip (root p : Path) : String :=
  if rel root p = [] then base root else cleanText (base root ++ "/" ++ joined (rel root p))

/- No path is deeper than the tree. -/
def archiveRoot (t : Tree) (root : Path) : Except Errno (List Member) := do
  let info ← t.lstat root
  if info.isDir then walkMembers t (fun p e => addFile t p (nameInZip root p) e) (t.depth+1) root info
  else
    .ok [← addFile t root (base root) info]

def writeZipArchive (t : Tree) (paths : List Path) : Except Errno (List Member) := do
  .ok (← paths.mapM (archiveRoot t)).flatten

def extractMember (umask : Nat) (destDir : Path) (c : Tree) (f : Member) : Except Errno Tree :=
  match safeUnzipPath destDir f.name with
  | .error e => .error (.refused e.text)
  | .ok target =>
    if f.isDir ∨ hasSuffix f.name "/" then c.mkdirAll target (Os.masked umask 0o755)
    else do
      let c ← c.mkdirAll (dir target) (Os.masked umask 0o755)
      let (l,c) ← c.create target (Os.masked umask f.mode)
      .ok (c.write l f.data)

def extractZip (umask : Nat) (destDir : Path) (members : List Member) (c : Tree) : Except Errno Tree := do
  members.foldlM (extractMember umask destDir) (← c.mkdirAll destDir (Os.masked umask 0o755))

/- An entry without its permissions. -/
def content : Entry → Entry
  | .file _ data => .file 0 data
  | .link target => .link target
  | .dir _ => .dir 0

/- Resolved paths that are there. -/
structure Handed (t : Tree) where
  paths : List Path
  distinct : paths.Nodup
  named : ∀ r ∈ paths, ∀ n ∈ r, Plain n
  there : ∀ r ∈ paths, ∃ s, t.locate r = .found s

structure EmptyDir (c : Tree) where
  destDir : Path
  place : Path
  named : ∀ n ∈ destDir, Plain n
  found : c.follow destDir = .found place
  dir : c.isDirAt place = true
  empty : ∀ n, c.get (place ++ [n]) = none

/- What stands below a root is there under the name of the root, and no other root has this name. -/
def Reproduced (t c : Tree) (paths : List Path) (d : Path) : Prop :=
  (∀ r ∈ paths, ∀ s, t.locate r = .found s → ∀ q, (c.get (d ++ base r :: q)).map content = (t.get (s ++ q)).map content) ∧
    ∀ r ∈ paths, ∀ r' ∈ paths, base r = base r' → r = r'

def RoundTrip (umask : Nat) {t c : Tree} (roots : Handed t) (d : EmptyDir c) : Prop :=
  ∃ members c', writeZipArchive t roots.paths = .ok members ∧ extractZip umask d.destDir members c = .ok c' ∧
    Reproduced t c' roots.paths d.place

/- No root is the root of the tree, is named like a parent or holds a link, and no two have one name. -/
def Separable (t : Tree) (paths : List Path) : Prop :=
  (∀ r ∈ paths, r ≠ [] ∧ hasPrefix (base r) ".." = false ∧ ∀ s, t.locate r = .found s → ∀ q, t.isLinkAt (s ++ q) = false) ∧
    ∀ r ∈ paths, ∀ r' ∈ paths, base r = base r' → r = r'

theorem baseLast {r : Path} {n : Name} (plain : Plain n) : base (r ++ [n]) = n := by
  unfold base stripped
  rw [List.rdropWhile_concat_neg _ _ _ (by simpa using plain.filled)]
  simp

theorem joinedLoose {parts : List Name} (plain : ∀ n ∈ parts, Plain n) (filled : parts ≠ []) (tail : String) :
    hasPrefix (joined parts ++ tail) "/" = false := by
  obtain ⟨n,rest,rfl⟩ := List.exists_cons_of_ne_nil filled
  have name := plain n List.mem_cons_self
  obtain ⟨c,cs,chars⟩ := List.exists_cons_of_ne_nil (fun none => name.filled (String.toList_eq_nil_iff.mp none))
  have head : (joined (n :: rest) ++ tail).toList.head? = some c := by
    cases rest with
    | nil =>
      rw [joinedOne,String.toList_append,chars]
      rfl
    | cons m rest =>
      rw [joinedCons n (List.cons_ne_nil _ _),String.toList_append,String.toList_append,String.toList_append,chars]
      rfl
  rw [Bool.eq_false_iff]
  intro start
  obtain ⟨more,whole⟩ := List.isPrefixOf_iff_prefix.mp start
  rw [← whole] at head
  apply name.one
  rw [chars]
  exact List.mem_cons.mpr (.inl (Option.some.inj head))

theorem cleanedJoined {parts : List Name} (plain : ∀ n ∈ parts, Plain n) (filled : parts ≠ []) :
    cleaned (joined parts) = ⟨false,0,parts⟩ := by
  have fold : ∀ (parts : List Name) (p : Path), (∀ n ∈ parts, Plain n) →
      parts.foldl Cleaned.push ⟨false,0,p⟩ = ⟨false,0,p ++ parts⟩ := by
    intro parts
    induction parts with
    | nil => exact fun p _ => by simp
    | cons n parts ih =>
      intro p plain
      have name := plain n List.mem_cons_self
      have step : Cleaned.push ⟨false,0,p⟩ n = ⟨false,0,p ++ [n]⟩ := by
        unfold Cleaned.push
        rw [if_neg (by simp [name.filled,name.here]),if_neg name.up]
      rw [List.foldl_cons,step,ih _ (fun m inside => plain m (List.mem_cons_of_mem _ inside)),List.append_assoc]
      rfl
  have loose : hasPrefix (joined parts) "/" = false := by
    have bare := joinedLoose plain filled ""
    rwa [String.append_empty] at bare
  unfold cleaned
  rw [loose,joinedComponents (fun n inside => (plain n inside).one) filled,fold parts [] plain]
  rfl

/- The name of an entry below a root, and where it goes. -/
theorem nameBelow {r : Path} {n : Name} {x : Path} (plain : ∀ m ∈ n :: x, Plain m) :
    nameInZip (r ++ [n]) (r ++ [n] ++ x) = joined (n :: x) := by
  have name := plain n List.mem_cons_self
  unfold nameInZip
  rw [rel,List.drop_left,baseLast name]
  by_cases empty : x = []
  · rw [if_pos empty,empty,joinedOne]
  · have shape := cleanedJoined plain (List.cons_ne_nil _ _)
    rw [if_neg empty,← joinedCons n empty,cleanText,shape]
    rfl

theorem suffixClean {parts : List Name} (plain : ∀ n ∈ parts, Plain n) (filled : parts ≠ []) :
    cleaned (joined parts ++ "/") = ⟨false,0,parts⟩ := by
  have same := cleanedJoined plain filled
  have bare := joinedLoose plain filled ""
  rw [String.append_empty] at bare
  unfold cleaned at same ⊢
  rw [bare] at same
  rw [joinedLoose plain filled]
  rw [show joined parts ++ "/" = joined parts ++ "/" ++ "" from (String.append_empty).symm]
  rw [componentsJoin,List.foldl_append,same]
  rfl

theorem goesTo {destDir x : Path} {n : Name} {name : String} (bare : hasPrefix n ".." = false)
    (shape : cleaned name = ⟨false,0,n :: x⟩) : safeUnzipPath destDir name = .ok (destDir ++ n :: x) := by
  refine (safeIff _ _ _).mpr ⟨(leadsIff name).mpr ⟨?_,by rw [shape]⟩,?_,by rw [shape]⟩
  · intro dot
    have empty := ((dotText (cleanedProper name)).mp dot).2
    rw [shape] at empty
    cases empty
  · rintro ⟨_,m,head,dots⟩
    rw [shape] at head
    cases head
    rw [bare] at dots
    cases dots

/- A name of plain components does not end with the separator. -/
theorem joinedEnd {parts : List Name} (plain : ∀ n ∈ parts, Plain n) (filled : parts ≠ []) : hasSuffix (joined parts) "/" = false := by
  rw [Bool.eq_false_iff]
  intro ends
  obtain ⟨start,whole⟩ := List.isSuffixOf_iff_suffix.mp ends
  have text : joined parts = String.ofList start ++ "/" ++ "" := by
    apply String.toList_inj.mp
    rw [← whole]
    simp
  have cut := joinedComponents (fun n inside => (plain n inside).one) filled
  rw [text,componentsJoin,show components "" = [""] from by decide] at cut
  have last : "" ∈ parts := by simp [← cut]
  exact (plain "" last).filled rfl

section
variable {t c : Tree} {umask : Nat} {destDir d : Path}

/- What a member of an entry is. -/
theorem addsMember {p s : Path} {e : Entry} (name : String) (followed : t.follow p = .found s) (here : t.get s = some e)
    (solid : e.isLink = false) :
    ∃ data, addFile t p name e =
      .ok ⟨if e.isDir then (if hasSuffix name "/" then name else name ++ "/") else name,e.isDir,mode e,data⟩ ∧
      (∀ m old, e = .file m old → data = old) := by
  cases e with
  | dir m => exact ⟨[],rfl,by rintro _ _ same; cases same⟩
  | link target => cases solid
  | file m data =>
    refine ⟨data,?_,by rintro _ _ same; cases same; rfl⟩
    unfold addFile
    rw [if_neg (by simp [Entry.isDir]),openFound.mpr followed]
    simp only [bind,Except.bind,readFound.mpr ⟨m,here⟩]
    rfl

/- A member whose place is free, in a directory that is there. -/
theorem extractsMember {c : Tree} {x y : Path} {n m : Name} {name : String} {b : Bool} {perm : Nat} {data : Bytes}
    (named : ∀ k ∈ destDir, Plain k) (found : c.follow destDir = .found d) (plain : ∀ k ∈ n :: x, Plain k) (split : n :: x = y ++ [m])
    (bare : hasPrefix n ".." = false) (shape : cleaned name = ⟨false,0,n :: x⟩) (ends : b = false → hasSuffix name "/" = false)
    (inside : c.isDirAt (d ++ y) = true) (free : c.get (d ++ n :: x) = none) :
    ∃ c' e, extractMember umask destDir c ⟨name,b,perm,data⟩ = .ok c' ∧ content e = (if b then .dir 0 else .file 0 data) ∧
      ∀ q, c'.get q = if q = d ++ n :: x then some e else c.get q := by
  have spot : d ++ n :: x = (d ++ y) ++ [m] := by rw [split,List.append_assoc]
  have target : destDir ++ n :: x = (destDir ++ y) ++ [m] := by rw [split,List.append_assoc]
  have parent : c.follow (destDir ++ y) = .found (d ++ y) := followInside found inside
  have all : ∀ k ∈ (destDir ++ y) ++ [m], Plain k := by
    rw [← target]
    intro k mem
    rcases List.mem_append.mp mem with old | new
    · exact named k old
    · exact plain k new
  have last : Plain m := all m (List.mem_append_right _ List.mem_cons_self)
  rw [spot] at free ⊢
  have solid : c.isLinkAt ((d ++ y) ++ [m]) = false := by
    rw [Tree.isLinkAt,free]
    rfl
  unfold extractMember
  dsimp only
  rw [goesTo bare shape,target]
  dsimp only
  cases b with
  | true =>
    obtain ⟨c',made⟩ := mkdirAllWorks (Os.masked umask 0o755) last parent inside (.inl free)
    obtain ⟨same,new,_⟩ := mkdirAllBelow all parent inside solid made
    refine ⟨c',.dir (Os.masked umask 0o755),by rw [if_pos (.inl rfl)]; exact made,rfl,?_⟩
    intro q
    split
    · rename_i here
      rw [here,new,free]
      rfl
    · rename_i other
      exact same q other
  | false =>
    have file : c.isDirAt ((d ++ y) ++ [m]) = false := by
      rw [Tree.isDirAt,free]
      rfl
    obtain ⟨c1,made⟩ := (createBelow (Os.masked umask perm) last parent inside solid).2 file
    obtain ⟨mode,gets,_⟩ := createMade made
    have empty : c1.get ((d ++ y) ++ [m]) = some (.file mode []) := by rw [gets,if_pos rfl]
    refine ⟨c1.write ((d ++ y) ++ [m]) data,.file mode data,?_,rfl,?_⟩
    · rw [if_neg (by simp [ends rfl]),dirNamed all,mkdirAllStays _ parent inside]
      simp only [bind,Except.bind,made]
    · intro q
      rw [getWrite data empty,gets]
      split <;> rfl

/- The members that make a subtree of the destination like one of the source, and change nothing else. -/
def Lands (t : Tree) (umask : Nat) (destDir d p s : Path) (ms : List Member) : Prop :=
  ∀ c : Tree, c.follow destDir = .found d → c.isDirAt p.dropLast = true → c.get p = none →
    ∃ c', ms.foldlM (extractMember umask destDir) c = .ok c' ∧ Grows c c' ∧ (∀ q, ¬ p <+: q → c'.get q = c.get q) ∧
      ∀ q, (c'.get (p ++ q)).map content = (t.get (s ++ q)).map content

/- Places side by side are made one after the other. -/
theorem landsAll {α : Type} {l : List α} {name : α → Name} {src : α → Path} {ms : α → List Member} {p : Path} (nodup : (l.map name).Nodup)
    (each : ∀ a ∈ l, Lands t umask destDir d (p ++ [name a]) (src a) (ms a)) :
    ∀ c : Tree, c.follow destDir = .found d → c.isDirAt p = true → (∀ a ∈ l, c.get (p ++ [name a]) = none) →
      ∃ c', (l.flatMap ms).foldlM (extractMember umask destDir) c = .ok c' ∧ Grows c c' ∧
        (∀ q, (∀ a ∈ l, ¬ p ++ [name a] <+: q) → c'.get q = c.get q) ∧
        ∀ a ∈ l, ∀ q, (c'.get (p ++ [name a] ++ q)).map content = (t.get (src a ++ q)).map content := by
  induction l with
  | nil => exact fun c _ _ _ => ⟨c,rfl,growsSelf c,fun _ _ => rfl,fun _ none => absurd none List.not_mem_nil⟩
  | cons a l ih =>
    intro c found inside free
    obtain ⟨fresh,rest⟩ := List.nodup_cons.mp nodup
    have apart : ∀ b ∈ l, ∀ q, ¬ p ++ [name a] <+: p ++ [name b] ++ q := by
      intro b mem q below
      rw [List.append_assoc,List.prefix_append_right_inj] at below
      obtain ⟨same,_⟩ := List.cons_prefix_cons.mp below
      exact fresh (List.mem_map.mpr ⟨b,mem,same.symm⟩)
    obtain ⟨c1,done,grows,outside,image⟩ := each a List.mem_cons_self c found (by rwa [List.dropLast_concat]) (free a List.mem_cons_self)
    have free1 : ∀ b ∈ l, c1.get (p ++ [name b]) = none := by
      intro b mem
      rw [outside _ (by have := apart b mem []; rwa [List.append_nil] at this)]
      exact free b (List.mem_cons_of_mem _ mem)
    obtain ⟨c2,done2,grows2,outside2,image2⟩ := ih rest (fun b mem => each b (List.mem_cons_of_mem _ mem)) c1
      (followGrows grows found) (growsDir grows inside) free1
    refine ⟨c2,?_,growsTrans grows grows2,?_,?_⟩
    · rw [List.flatMap_cons,List.foldlM_append,done]
      exact done2
    · intro q away
      rw [outside2 q (fun b mem => away b (List.mem_cons_of_mem _ mem)),outside q (away a List.mem_cons_self)]
    · intro b mem q
      rcases List.mem_cons.mp mem with rfl | later
      · rw [outside2,image]
        intro k there below
        -- the later places are not below this one
        rw [List.append_assoc,List.prefix_append_right_inj] at below
        obtain ⟨same,_⟩ := List.cons_prefix_cons.mp below
        exact fresh (List.mem_map.mpr ⟨k,there,same⟩)
      · exact image2 b later q

/- A new entry in a free place. -/
theorem madeOnly {c c' : Tree} {p : Path} {e : Entry} (free : c.get p = none)
    (gets : ∀ q, c'.get q = if q = p then some e else c.get q) : Grows c c' ∧ ∀ q, ¬ p <+: q → c'.get q = c.get q := by
  constructor
  · intro q e' here
    refine ⟨e',?_,alikeSelf e'⟩
    rw [gets,if_neg,here]
    rintro rfl
    rw [free] at here
    cases here
  · intro q away
    rw [gets,if_neg]
    rintro rfl
    exact away (List.prefix_refl _)

theorem namesNodup (t : Tree) (p : Path) : (t.names p).Nodup :=
  (List.mergeSort_perm _ _).nodup_iff.mpr (List.nodup_dedup _)

/- A subtree without links, under a name. -/
structure Anchored (t : Tree) (destDir d r : Path) (n : Name) (s : Path) : Prop where
  destNamed : ∀ k ∈ destDir, Plain k
  plain : Plain n
  bare : hasPrefix n ".." = false
  located : t.locate (r ++ [n]) = .found s
  solid : ∀ q, t.isLinkAt (s ++ q) = false

section
variable {r : Path} {n : Name} {s : Path}

theorem anchorItself (anchored : Anchored t destDir d r n s) : t.follow (r ++ [n]) = .found s := by
  have solid := anchored.solid []
  rw [List.append_nil] at solid
  exact followLocated anchored.located solid

theorem anchorFollowed (anchored : Anchored t destDir d r n s) {x : Path} {e : Entry} (here : t.get (s ++ x) = some e) :
    t.follow (r ++ [n] ++ x) = .found (s ++ x) := by
  cases x with
  | nil => simpa using anchorItself anchored
  | cons k x =>
    exact followBelow (anchorItself anchored) (List.cons_ne_nil _ _) (Option.ne_none_iff_exists'.mpr ⟨e,here⟩) (anchored.solid _)

theorem belowPlain (anchored : Anchored t destDir d r n s) {x : Path} {e : Entry} (here : t.get (s ++ x) = some e) :
    ∀ m ∈ n :: x, Plain m := by
  intro m mem
  rcases List.mem_cons.mp mem with rfl | inside
  · exact anchored.plain
  · exact getNamed (Option.ne_none_iff_exists'.mpr ⟨e,here⟩) m (List.mem_append_right _ inside)

/- One entry as a member, which makes an entry like it. -/
theorem entryLands (umask : Nat) (anchored : Anchored t destDir d r n s) {x : Path} {e : Entry} (here : t.get (s ++ x) = some e) :
    ∃ f, addFile t (r ++ [n] ++ x) (nameInZip (r ++ [n]) (r ++ [n] ++ x)) e = .ok f ∧
      ∀ c : Tree, c.follow destDir = .found d → c.isDirAt (d ++ n :: x).dropLast = true → c.get (d ++ n :: x) = none →
        ∃ c' e', extractMember umask destDir c f = .ok c' ∧ content e' = content e ∧
          ∀ q, c'.get q = if q = d ++ n :: x then some e' else c.get q := by
  have plain := belowPlain anchored here
  have link : e.isLink = false := by
    have solid := anchored.solid x
    rwa [Tree.isLinkAt,here] at solid
  have ends := joinedEnd plain (List.cons_ne_nil _ _)
  obtain ⟨y,m,split⟩ : ∃ y m, n :: x = y ++ [m] := ⟨_,_,(List.dropLast_append_getLast (List.cons_ne_nil n x)).symm⟩
  obtain ⟨data,added,own⟩ := addsMember (nameInZip (r ++ [n]) (r ++ [n] ++ x)) (anchorFollowed anchored here) here link
  refine ⟨_,added,?_⟩
  intro c found inside free
  rw [nameBelow plain,ends]
  rw [split,← List.append_assoc,List.dropLast_concat] at inside
  cases e with
  | dir mode =>
    obtain ⟨c',e',done,same,gets⟩ := extractsMember (b := true) anchored.destNamed found plain split anchored.bare
      (suffixClean plain (List.cons_ne_nil _ _)) (by rintro ⟨⟩) inside free
    exact ⟨c',e',done,same,gets⟩
  | file mode old =>
    obtain ⟨c',e',done,same,gets⟩ := extractsMember (b := false) anchored.destNamed found plain split anchored.bare
      (cleanedJoined plain (List.cons_ne_nil _ _)) (fun _ => ends) inside free
    rw [own mode old rfl]
    exact ⟨c',e',done,same,gets⟩
  | link target => cases link

/- A subtree as a list of members makes one like it. -/
theorem walkLands (umask : Nat) (anchored : Anchored t destDir d r n s) (fuel : Nat) :
    ∀ x e, t.get (s ++ x) = some e → t.depth < fuel + (s ++ x).length →
      ∃ ms, walkMembers t (fun p e => addFile t p (nameInZip (r ++ [n]) p) e) fuel (r ++ [n] ++ x) e = .ok ms ∧
        Lands t umask destDir d (d ++ n :: x) (s ++ x) ms := by
  induction fuel with
  | zero =>
    intro x e here deep
    have short := lengthLe (Option.ne_none_iff_exists'.mpr ⟨e,here⟩)
    omega
  | succ fuel ih =>
    intro x e here deep
    obtain ⟨f,added,makes⟩ := entryLands umask anchored here
    unfold walkMembers
    cases kind : e.isDir with
    | false =>
      refine ⟨[f],?_,?_⟩
      · rw [if_neg (by simp)]
        simp only [added,bind,Except.bind]
      · intro c found inside free
        obtain ⟨c',e',done,same,gets⟩ := makes c found inside free
        obtain ⟨grows,outside⟩ := madeOnly free gets
        refine ⟨c',by simp only [List.foldlM_cons,List.foldlM_nil,done]; rfl,grows,outside,?_⟩
        intro q
        cases q with
        | nil => rw [List.append_nil,List.append_nil,gets,if_pos rfl,here,Option.map_some,Option.map_some,same]
        | cons k q =>
          rw [gets,if_neg (by simp),getBelow free]
          cases below : t.get (s ++ x ++ k :: q) with
          | none => rfl
          | some other =>
            obtain ⟨mode,dir⟩ := getAbove (Option.ne_none_iff_exists'.mpr ⟨other,below⟩) (List.cons_ne_nil _ _)
            rw [here] at dir
            cases dir
            cases kind
    | true =>
      have listed : t.readDir (r ++ [n] ++ x) = .ok ((t.names (s ++ x)).map (fun k => (k,t.isDirAt (s ++ x ++ [k])))) := by
        unfold Tree.readDir
        rw [anchorFollowed anchored here]
        dsimp only
        rw [if_pos (by rw [Tree.isDirAt,here]; exact kind)]
      have each : ∀ k, ∃ ms, k ∈ t.names (s ++ x) →
          (do walkMembers t (fun p e => addFile t p (nameInZip (r ++ [n]) p) e) fuel (r ++ [n] ++ x ++ [k]) (← t.lstat (r ++ [n] ++ x ++ [k]))) = .ok ms ∧
            Lands t umask destDir d (d ++ n :: x ++ [k]) (s ++ x ++ [k]) ms := by
        intro k
        by_cases mem : k ∈ t.names (s ++ x)
        · obtain ⟨e',there⟩ := Option.ne_none_iff_exists'.mp (memNames.mp mem)
          have spot : s ++ x ++ [k] = s ++ (x ++ [k]) := List.append_assoc _ _ _
          rw [spot] at there
          obtain ⟨ms,walked,lands⟩ := ih (x ++ [k]) e' there (by simp only [List.length_append,List.length_singleton] at deep ⊢; omega)
          refine ⟨ms,fun _ => ⟨?_,?_⟩⟩
          · have found : t.locate (r ++ [n] ++ (x ++ [k])) = .found (s ++ (x ++ [k])) := by
              exact locateBelow (anchorItself anchored) (by simp) (Option.ne_none_iff_exists'.mpr ⟨e',there⟩)
            rw [List.append_assoc,lstatFound found there]
            exact walked
          · rw [spot,List.append_assoc]
            exact lands
        · exact ⟨[],fun inside => absurd inside mem⟩
      choose ms members using each
      have looped : ((t.names (s ++ x)).map (fun k => (k,t.isDirAt (s ++ x ++ [k])))).mapM (fun q => do
          walkMembers t (fun p e => addFile t p (nameInZip (r ++ [n]) p) e) fuel (r ++ [n] ++ x ++ [q.1]) (← t.lstat (r ++ [n] ++ x ++ [q.1]))) =
            .ok ((t.names (s ++ x)).map ms) := by
        rw [mapMOk,List.map_map,List.map_map]
        exact List.map_congr_left (fun k mem => (members k mem).1)
      refine ⟨f :: (t.names (s ++ x)).flatMap ms,?_,?_⟩
      · rw [if_pos rfl,listed,List.flatMap_def]
        simp only [bind,Except.bind,added] at looped ⊢
        rw [looped]
      · intro c found inside free
        obtain ⟨c1,e',done,same,gets⟩ := makes c found inside free
        obtain ⟨grows,outside⟩ := madeOnly free gets
        have dir1 : c1.isDirAt (d ++ n :: x) = true := by
          rw [Tree.isDirAt,gets,if_pos rfl]
          cases e with
          | dir mode =>
            cases e' with
            | dir mode' => rfl
            | file mode' data => cases same
            | link target => cases same
          | file mode data => cases kind
          | link target => cases kind
        have below : ∀ k q, c1.get (d ++ n :: x ++ k :: q) = none := by
          intro k q
          rw [gets,if_neg (by simp),getBelow free]
        obtain ⟨c2,done2,grows2,outside2,image2⟩ := @landsAll t umask destDir d _ (t.names (s ++ x)) id _ ms (d ++ n :: x)
          (by rw [List.map_id]; exact namesNodup t (s ++ x)) (fun k mem => (members k mem).2) c1 (followGrows grows found) dir1
          (fun k _ => below k [])
        refine ⟨c2,?_,growsTrans grows grows2,?_,?_⟩
        · simp only [List.foldlM_cons,done]
          exact done2
        · intro q away
          rw [outside2 q (fun k _ inner => away ((List.prefix_append _ _).trans inner)),outside q away]
        · intro q
          cases q with
          | nil =>
            have self : c2.get (d ++ n :: x) = c1.get (d ++ n :: x) := by
              refine outside2 _ (fun k _ inner => ?_)
              have long := inner.length_le
              simp at long
            rw [List.append_nil,List.append_nil,self,gets,if_pos rfl,here,Option.map_some,Option.map_some,same]
          | cons k q =>
            have source : s ++ x ++ k :: q = s ++ x ++ [k] ++ q := by simp
            have copied : d ++ n :: x ++ k :: q = d ++ n :: x ++ [k] ++ q := by simp
            by_cases mem : k ∈ t.names (s ++ x)
            · rw [source,copied]
              exact image2 k mem q
            · have none : t.get (s ++ x ++ [k]) = none := not_not.mp (fun there => mem (memNames.mpr there))
              rw [outside2,below,source,getBelow none]
              intro k' there inner
              rw [copied,List.append_assoc (d ++ n :: x) [k] q,List.prefix_append_right_inj] at inner
              obtain ⟨rfl,_⟩ := List.cons_prefix_cons.mp inner
              exact mem there

end

theorem nameSelf (root : Path) : nameInZip root root = base root := by
  unfold nameInZip
  rw [if_pos (by simp [rel])]

/- A root that is no directory is walked through as well. -/
theorem archiveWalk {root : Path} {info : Entry} (asked : t.lstat root = .ok info) :
    archiveRoot t root = walkMembers t (fun p e => addFile t p (nameInZip root p) e) (t.depth+1) root info := by
  unfold archiveRoot walkMembers
  rw [asked]
  simp only [bind,Except.bind]
  cases info.isDir with
  | true => rfl
  | false => rw [nameSelf]; rfl

theorem extractStarts (e : EmptyDir c) (members : List Member) :
    extractZip umask e.destDir members c = members.foldlM (extractMember umask e.destDir) c := by
  unfold extractZip
  rw [mkdirAllStays _ e.found e.dir]
  rfl

/- Roots of different names come back side by side. -/
theorem separableTrip {roots : Handed t} {e : EmptyDir c} (apart : Separable t roots.paths) : RoundTrip umask roots e := by
  obtain ⟨each,names⟩ := apart
  have lands : ∀ r, ∃ s ms, r ∈ roots.paths → t.locate r = .found s ∧ archiveRoot t r = .ok ms ∧
      Lands t umask e.destDir e.place (e.place ++ [base r]) s ms := by
    intro r
    by_cases mem : r ∈ roots.paths
    · obtain ⟨some,bare,solid⟩ := each r mem
      obtain ⟨s,located⟩ := roots.there r mem
      obtain ⟨r',n,rfl⟩ : ∃ r' n, r = r' ++ [n] := ⟨_,_,(List.dropLast_append_getLast some).symm⟩
      have plain := roots.named _ mem n (List.mem_append_right _ List.mem_cons_self)
      rw [baseLast plain] at bare ⊢
      have anchored : Anchored t e.destDir e.place r' n s := ⟨e.named,plain,bare,located,solid s located⟩
      obtain ⟨info,here⟩ := Option.ne_none_iff_exists'.mp (resolveThere located)
      obtain ⟨ms,walked,lands⟩ := walkLands umask anchored (t.depth+1) [] info (by rwa [List.append_nil]) (by omega)
      rw [List.append_nil] at walked lands
      refine ⟨s,ms,fun _ => ⟨located,?_,lands⟩⟩
      rw [archiveWalk (lstatFound located here)]
      exact walked
    · exact ⟨[],[],fun inside => absurd inside mem⟩
  choose src ms held using lands
  have nodup : (roots.paths.map base).Nodup := roots.distinct.map_on (fun r mem r' mem' same => names r mem r' mem' same)
  obtain ⟨c',done,_,_,image⟩ := landsAll nodup (fun r mem => (held r mem).2.2) c e.found e.dir (fun r _ => e.empty (base r))
  refine ⟨roots.paths.flatMap ms,c',?_,?_,?_,names⟩
  · have looped : roots.paths.mapM (archiveRoot t) = .ok (roots.paths.map ms) := by
      rw [mapMOk,List.map_map]
      exact List.map_congr_left (fun r mem => (held r mem).2.1)
    unfold writeZipArchive
    rw [looped,List.flatMap_def]
    rfl
  · rw [extractStarts]
    exact done
  · intro r mem s located q
    have same := (held r mem).1
    rw [located] at same
    cases same
    have spot : e.place ++ base r :: q = e.place ++ [base r] ++ q := by simp
    rw [spot]
    exact image r mem q

/- Extraction makes no links. -/
theorem extractSolid {c1 c2 : Tree} {f : Member} (named : ∀ k ∈ destDir, Plain k) (done : extractMember umask destDir c1 f = .ok c2) (q : Path)
    (link : c2.isLinkAt q = true) : c1.isLinkAt q = true := by
  have kept {a b : Tree} {parts : List Name} {perm : Nat} (plain : ∀ n ∈ parts, Plain n) (made : a.mkdirAll parts perm = .ok b)
      (link : b.isLinkAt q = true) : a.isLinkAt q = true := by
    obtain ⟨_,_,_,adds⟩ := mkdirAllMade plain made
    rcases adds q with same | ⟨_,new,_⟩
    · rwa [Tree.isLinkAt,same] at link
    · rw [Tree.isLinkAt,new] at link
      cases link
  unfold extractMember at done
  split at done
  · cases done
  · rename_i target safe
    have plain : ∀ k ∈ target, Plain k := by
      rw [← ((safeIff _ _ _).mp safe).2.2]
      intro k mem
      rcases List.mem_append.mp mem with old | new
      · exact named k old
      · exact (cleanedProper f.name).named k new
    split at done
    · exact kept plain done link
    · have above : ∀ k ∈ dir target, Plain k := by
        rw [dir,cleanNamed (fun k mem => plain k (List.dropLast_subset _ mem))]
        exact fun k mem => plain k (List.dropLast_subset _ mem)
      obtain ⟨b,made,later⟩ := bindOk.mp done
      obtain ⟨⟨l,b'⟩,created,wrote⟩ := bindOk.mp later
      obtain ⟨mode,gets,_⟩ := createMade created
      have empty : b'.get l = some (.file mode []) := by rw [gets,if_pos rfl]
      rw [← Except.ok.inj wrote,Tree.isLinkAt,getWrite f.data empty] at link
      split at link
      · cases link
      · rename_i other
        rw [gets,if_neg other] at link
        exact kept above made link

theorem extractAllSolid {ms : List Member} (named : ∀ k ∈ destDir, Plain k) {c1 c2 : Tree}
    (done : ms.foldlM (extractMember umask destDir) c1 = .ok c2) (q : Path) (link : c2.isLinkAt q = true) : c1.isLinkAt q = true := by
  induction ms generalizing c1 with
  | nil =>
    cases done
    exact link
  | cons f ms ih =>
    rw [List.foldlM_cons] at done
    obtain ⟨b,first,rest⟩ := bindOk.mp done
    exact extractSolid named first q (ih rest)

/- Every member of an archive that is extracted has had a place. -/
theorem extractAllSafe {ms : List Member} {c1 c2 : Tree} (done : ms.foldlM (extractMember umask destDir) c1 = .ok c2) :
    ∀ f ∈ ms, ∃ p, safeUnzipPath destDir f.name = .ok p := by
  induction ms generalizing c1 with
  | nil => exact fun _ none => absurd none List.not_mem_nil
  | cons f ms ih =>
    rw [List.foldlM_cons] at done
    obtain ⟨b,first,rest⟩ := bindOk.mp done
    intro g mem
    rcases List.mem_cons.mp mem with rfl | later
    · unfold extractMember at first
      split at first
      · cases first
      · rename_i p safe
        exact ⟨p,safe⟩
    · exact ih rest g later

theorem addFileName {p : Path} {name : String} {e : Entry} {f : Member} (added : addFile t p name e = .ok f) :
    f.name = name ∨ f.name = name ++ "/" := by
  unfold addFile at added
  split at added
  · rw [← Except.ok.inj added]
    dsimp only
    split
    · exact .inl rfl
    · exact .inr rfl
  · obtain ⟨l,_,later⟩ := bindOk.mp added
    obtain ⟨data,_,last⟩ := bindOk.mp later
    rw [← Except.ok.inj last]
    exact .inl rfl

/- An archive has a member for each of its roots. -/
theorem archiveOwn {r : Path} {n : Name} (plain : Plain n) {ms : List Member} (archived : archiveRoot t (r ++ [n]) = .ok ms) :
    ∃ f ∈ ms, cleaned f.name = ⟨false,0,[n]⟩ := by
  obtain ⟨info,asked,_⟩ := bindOk.mp archived
  rw [archiveWalk asked] at archived
  have own : ∃ f ∈ ms, f.name = n ∨ f.name = n ++ "/" := by
    unfold walkMembers at archived
    split at archived
    · obtain ⟨dirs,_,later⟩ := bindOk.mp archived
      obtain ⟨first,added,later⟩ := bindOk.mp later
      obtain ⟨below,_,last⟩ := bindOk.mp later
      rw [nameSelf,baseLast plain] at added
      rw [← Except.ok.inj last]
      exact ⟨first,List.mem_cons_self,addFileName added⟩
    · obtain ⟨first,added,last⟩ := bindOk.mp archived
      rw [nameSelf,baseLast plain] at added
      rw [← Except.ok.inj last]
      exact ⟨first,List.mem_cons_self,addFileName added⟩
  have one : ∀ m ∈ [n], Plain m := by
    intro m mem
    rw [List.mem_singleton.mp mem]
    exact plain
  obtain ⟨f,mem,name | name⟩ := own
  · refine ⟨f,mem,?_⟩
    rw [name,← cleanedJoined one (List.cons_ne_nil _ _),joinedOne]
  · refine ⟨f,mem,?_⟩
    rw [name,← suffixClean one (List.cons_ne_nil _ _),joinedOne]

theorem tripSeparable {roots : Handed t} {e : EmptyDir c} (trip : RoundTrip umask roots e) : Separable t roots.paths := by
  obtain ⟨members,c',written,extracted,same,names⟩ := trip
  rw [extractStarts] at extracted
  refine ⟨?_,names⟩
  intro r mem
  obtain ⟨s,located⟩ := roots.there r mem
  have some : r ≠ [] := by
    rintro rfl
    obtain ⟨mode,root⟩ := t.root
    have here := same [] mem [] rfl []
    rw [List.append_nil,show t.get [] = some (.dir mode) from root] at here
    have there : c'.get (e.place ++ [base []]) ≠ none := by
      intro free
      rw [free] at here
      cases here
    exact (getNamed there (base []) (List.mem_append_right _ List.mem_cons_self)).one (by decide)
  obtain ⟨r',n,rfl⟩ : ∃ r' n, r = r' ++ [n] := ⟨_,_,(List.dropLast_append_getLast some).symm⟩
  have plain := roots.named _ mem n (List.mem_append_right _ List.mem_cons_self)
  refine ⟨some,?_,?_⟩
  · rw [baseLast plain]
    obtain ⟨mss,looped,last⟩ := bindOk.mp written
    have one : archiveRoot t (r' ++ [n]) ∈ mss.map .ok := by
      rw [← mapMOk.mp looped]
      exact List.mem_map_of_mem mem
    obtain ⟨ms,inside,archived⟩ := List.mem_map.mp one
    obtain ⟨f,own,shape⟩ := archiveOwn plain archived.symm
    obtain ⟨p,safe⟩ := extractAllSafe extracted f (by
      rw [← Except.ok.inj last]
      exact List.mem_flatten.mpr ⟨ms,inside,own⟩)
    rw [Bool.eq_false_iff]
    intro dots
    exact ((safeIff _ _ _).mp safe).2.1 ⟨by rw [shape],n,by rw [shape]; rfl,dots⟩
  · intro s' located' q
    rw [Bool.eq_false_iff]
    intro link
    obtain ⟨target,here⟩ := isLinkAtIff.mp link
    have copied := same _ mem s' located' q
    rw [here] at copied
    obtain ⟨x,there,kind⟩ := Option.map_eq_some_iff.mp copied
    have new : c'.isLinkAt (e.place ++ base (r' ++ [n]) :: q) = true := by
      rw [Tree.isLinkAt,there]
      cases x with
      | link other => rfl
      | dir mode => cases kind
      | file mode data => cases kind
    have old := extractAllSolid e.named extracted _ new
    have spot : e.place ++ base (r' ++ [n]) :: q = e.place ++ [base (r' ++ [n])] ++ q := by simp
    rw [Tree.isLinkAt,spot,getBelow (e.empty _)] at old
    cases old

end

/- Two directories with a file of one name in each. -/
def twoNames : Tree :=
  (((Tree.bare.put ["a"] (.dir 0o755)).put ["a","x"] (.file 0o644 [1])).put ["b"] (.dir 0o755)).put ["b","x"] (.file 0o644 [2])

theorem twoNamed : ∀ r ∈ ([["a","x"],["b","x"]] : List Path), ∀ n ∈ r, Plain n := by decide

theorem twoThere : ∀ r ∈ ([["a","x"],["b","x"]] : List Path), ∃ s, twoNames.locate r = .found s := by
  intro r mem
  rcases List.mem_cons.mp mem with rfl | mem
  · exact ⟨["a","x"],by decide⟩
  · rw [List.mem_singleton.mp mem]
    exact ⟨["b","x"],by decide⟩

def twoRoots : Handed twoNames := ⟨[["a","x"],["b","x"]],by decide,twoNamed,twoThere⟩

theorem bareEmpty : ∀ n, Tree.bare.get ([] ++ [n]) = none := fun _ => rfl

def bareDir : EmptyDir Tree.bare := ⟨[],[],fun _ none => absurd none List.not_mem_nil,rfl,rfl,bareEmpty⟩

end ContainerWS.Files

