import ContainerWS.Resolve

/-! The calls of Go's `os` as functions of a file tree, with what each of them finds
and changes. -/
namespace FileTree
open GoPath

def Tree.lstat (t : Tree) (parts : List Name) : Except Errno Entry :=
  match t.locate parts with
  | .found l => match t.get l with
    | some e => .ok e
    | none => .error .notExist
  | .missing _ _ => .error .notExist
  | .failed e => .error e

def Tree.stat (t : Tree) (parts : List Name) : Except Errno Entry :=
  match t.follow parts with
  | .found l => match t.get l with
    | some e => .ok e
    | none => .error .notExist
  | .missing _ _ => .error .notExist
  | .failed e => .error e

/- `os.Mkdir`, or nothing where a directory stands. -/
def Tree.mkdir (t : Tree) (parts : List Name) (perm : Nat) : Except Errno Tree :=
  match t.locate parts with
  | .found l => if t.isDirAt l then .ok t else .error .exist
  | .missing q [n] => if Plain n then .ok (t.put (q ++ [n]) (.dir perm)) else .error .invalid
  | .missing _ _ => .error .notExist
  | .failed e => .error e

/- `os.MkdirAll`, on the names from the last to the first. -/
def Tree.mkdirUp (t : Tree) (perm : Nat) : List Name → Except Errno Tree
  | [] => .ok t
  | n :: up =>
    match t.stat (n :: up).reverse with
    | .ok e => if e.isDir then .ok t else .error .notDir
    | .error _ => do (← t.mkdirUp perm up).mkdir (n :: up).reverse perm

def Tree.mkdirAll (t : Tree) (parts : List Name) (perm : Nat) : Except Errno Tree := t.mkdirUp perm parts.reverse

/- `os.Rename`: a directory is not replaced, a file is. -/
def Tree.rename (t : Tree) (p q : List Name) : Except Errno Tree :=
  match t.locate p with
  | .found s =>
    match t.locate q with
    | .found d =>
      if t.isDirAt d then (if s = d ∧ p ≠ q then .ok t else .error .exist)
      else if s = d then .ok t
      else if t.isDirAt s then .error .notDir
      else .ok ((t.remove d).move s d)
    | .missing r [n] =>
      if s = [] then .error .busy
      else if s <+: r ++ [n] then .error .invalid
      else if Plain n then .ok (t.move s (r ++ [n])) else .error .invalid
    | .missing _ _ => .error .notExist
    | .failed e => .error e
  | .missing _ _ => .error .notExist
  | .failed e => .error e

/- `os.RemoveAll`: what is not there is no error, and the root stays. -/
def Tree.removeAll (t : Tree) (parts : List Name) : Except Errno Unit × Tree :=
  match t.locate parts with
  | .found [] => (.error .busy,t.remove [])
  | .found l => (.ok (),t.remove l)
  | .missing _ _ => (.ok (),t)
  | .failed e => (.error e,t)

/- Some of it removed. -/
def Tree.removeSome (t : Tree) (parts : List Name) (gone : List Path) : Tree :=
  match t.locate parts with
  | .found l => t.restrict (fun q => !(l.isPrefixOf q && gone.contains (rel l q)))
  | _ => t

def Tree.readDir (t : Tree) (parts : List Name) : Except Errno (List (Name × Bool)) :=
  match t.follow parts with
  | .found l => if t.isDirAt l then .ok ((t.names l).map (fun n => (n,t.isDirAt (l ++ [n])))) else .error .notDir
  | .missing _ _ => .error .notExist
  | .failed e => .error e

/- `os.Open`: the file that the path leads to. -/
def Tree.openFile (t : Tree) (parts : List Name) : Except Errno Path :=
  match t.follow parts with
  | .found l => .ok l
  | .missing _ _ => .error .notExist
  | .failed e => .error e

/- `os.OpenFile` with O_CREATE, O_WRONLY and O_TRUNC. -/
def Tree.create (t : Tree) (parts : List Name) (perm : Nat) : Except Errno (Path × Tree) :=
  match t.follow parts with
  | .found l =>
    match t.get l with
    | some (.file mode _) => .ok (l,t.put l (.file mode []))
    | _ => .error .isDir
  | .missing q [n] => if Plain n then .ok (q ++ [n],t.put (q ++ [n]) (.file perm [])) else .error .invalid
  | .missing _ _ => .error .notExist
  | .failed e => .error e

def Tree.write (t : Tree) (l : Path) (data : Bytes) : Tree :=
  match t.get l with
  | some (.file mode _) => t.put l (.file mode data)
  | _ => t

def Tree.read (t : Tree) (l : Path) : Except Errno Bytes :=
  match t.get l with
  | some (.file _ data) => .ok data
  | _ => .error .isDir

theorem statSome {t : Tree} {parts : List Name} {e : Entry} (here : t.stat parts = .ok e) :
    ∃ l, t.follow parts = .found l ∧ t.get l = some e := by
  unfold Tree.stat at here
  split at here <;> try contradiction
  rename_i l found
  split at here <;> try contradiction
  rename_i e' there
  cases here
  exact ⟨l,found,there⟩

theorem statFound {t : Tree} {parts : List Name} {l : Path} {e : Entry} (found : t.follow parts = .found l)
    (there : t.get l = some e) : t.stat parts = .ok e := by
  unfold Tree.stat
  rw [found]
  dsimp only
  rw [there]

theorem lstatSome {t : Tree} {parts : List Name} {e : Entry} (here : t.lstat parts = .ok e) :
    ∃ l, t.locate parts = .found l ∧ t.get l = some e := by
  unfold Tree.lstat at here
  split at here <;> try contradiction
  rename_i l found
  split at here <;> try contradiction
  rename_i e' there
  cases here
  exact ⟨l,found,there⟩

theorem lstatFound {t : Tree} {parts : List Name} {l : Path} {e : Entry} (found : t.locate parts = .found l)
    (there : t.get l = some e) : t.lstat parts = .ok e := by
  unfold Tree.lstat
  rw [found]
  dsimp only
  rw [there]

/- The tree has new directories, none of them below the last one. -/
def Adds (perm : Nat) (l : Path) (t t' : Tree) : Prop :=
  ∀ q, t'.get q = t.get q ∨ (t.get q = none ∧ t'.get q = some (.dir perm) ∧ q <+: l)

theorem addsGrows {perm : Nat} {l : Path} {t t' : Tree} (adds : Adds perm l t t') : Grows t t' := by
  intro q e here
  rcases adds q with same | ⟨free,_⟩
  · exact ⟨e,same.trans here,alikeSelf e⟩
  · rw [free] at here
    contradiction

theorem fitsDir {t : Tree} {q : Path} {n : Name} (perm : Nat) (plain : Plain n) (dir : t.isDirAt q = true) :
    t.fits (q ++ [n]) (.dir perm) = true := fitsIff.mpr ⟨plain,dir,.inl rfl⟩

theorem mkdirMade {t t' : Tree} {d : List Name} {n : Name} {l : Path} {perm : Nat} (plain : Plain n)
    (found : t.follow d = .found l) (made : t.mkdir (d ++ [n]) perm = .ok t') :
    t'.follow (d ++ [n]) = .found (l ++ [n]) ∧ t'.isDirAt (l ++ [n]) = true ∧ Adds perm (l ++ [n]) t t' := by
  obtain ⟨again,through⟩ := resolveThrough false [n] (by simp) found
  have place : t.locate (d ++ [n]) = t.descend again false l [n] := through
  rw [descendStep] at place
  unfold Tree.mkdir at made
  split at made <;> try contradiction
  · rename_i l' here
    split at made <;> try contradiction
    rename_i dir
    cases made
    rw [here] at place
    split at place <;> try contradiction
    rw [if_neg (by simp [plain.filled,plain.here]),if_neg plain.up] at place
    have same : l' = l ++ [n] := by
      split at place <;> try contradiction
      · rw [if_pos ⟨rfl,rfl⟩] at place
        cases place
        rfl
      · cases place
        rfl
    subst same
    exact ⟨followLocated here (dirSolid dir),dir,fun _ => .inl rfl⟩
  · rename_i q m missing
    split at made <;> try contradiction
    cases made
    obtain ⟨k,more,shape,dir,free⟩ := missingShape missing
    cases shape
    rw [missing] at place
    split at place <;> try contradiction
    rw [if_neg (by simp [plain.filled,plain.here]),if_neg plain.up] at place
    have same : q = l ∧ m = n := by
      split at place <;> try contradiction
      cases place
      exact ⟨rfl,rfl⟩
    obtain ⟨rfl,rfl⟩ := same
    have fits := fitsDir perm plain dir
    have there : (t.put (q ++ [m]) (.dir perm)).get (q ++ [m]) = some (.dir perm) := by rw [getPut fits,if_pos rfl]
    have adds : Adds perm (q ++ [m]) t (t.put (q ++ [m]) (.dir perm)) := by
      intro r
      rw [getPut fits]
      split
      · rename_i same
        subst same
        exact .inr ⟨free,rfl,List.prefix_refl _⟩
      · exact .inl rfl
    have dir' := isDirAtIff.mpr ⟨perm,there⟩
    exact ⟨followBelow (followGrows (addsGrows adds) found) (by simp) (dirThere dir') (dirSolid dir'),dir',adds⟩

theorem mkdirAllMade {t t' : Tree} {parts : List Name} {perm : Nat} (plain : ∀ n ∈ parts, Plain n)
    (made : t.mkdirAll parts perm = .ok t') :
    ∃ l, t'.follow parts = .found l ∧ t'.isDirAt l = true ∧ Adds perm l t t' := by
  unfold Tree.mkdirAll at made
  have each : ∀ up t', (∀ n ∈ up, Plain n) → t.mkdirUp perm up = .ok t' →
      ∃ l, t'.follow up.reverse = .found l ∧ t'.isDirAt l = true ∧ Adds perm l t t' := by
    intro up
    induction up with
    | nil =>
      intro t' _ made
      cases made
      exact ⟨[],rfl,isDirAtIff.mpr t.root,fun _ => .inl rfl⟩
    | cons n up ih =>
      intro t' plain made
      unfold Tree.mkdirUp at made
      split at made
      · rename_i e here
        split at made <;> try contradiction
        rename_i dir
        cases made
        obtain ⟨l,found,there⟩ := statSome here
        refine ⟨l,found,?_,fun _ => .inl rfl⟩
        rw [Tree.isDirAt,there]
        exact dir
      · cases first : t.mkdirUp perm up with
        | error e =>
          rw [first] at made
          contradiction
        | ok t1 =>
          rw [first] at made
          obtain ⟨l,found,_,adds⟩ := ih t1 (fun m mem => plain m (by simp [mem])) first
          have last : t1.mkdir (up.reverse ++ [n]) perm = .ok t' := by
            rw [← List.reverse_cons]
            exact made
          obtain ⟨found',dir,adds'⟩ := mkdirMade (plain n (by simp)) found last
          rw [List.reverse_cons]
          refine ⟨l ++ [n],found',dir,?_⟩
          intro q
          rcases adds' q with same | new
          · rw [same]
            rcases adds q with old | ⟨free,here,before⟩
            · exact .inl old
            · exact .inr ⟨free,here,before.trans (List.prefix_append _ _)⟩
          · rcases adds q with old | ⟨free,here,before⟩
            · exact .inr ⟨old ▸ new.1,new.2⟩
            · rw [new.1] at here
              contradiction
  have shown := each parts.reverse t' (fun n mem => plain n (List.mem_reverse.mp mem)) made
  rwa [List.reverse_reverse] at shown

theorem mkdirAllStays {t : Tree} {parts : List Name} (perm : Nat) {l : Path} (found : t.follow parts = .found l)
    (dir : t.isDirAt l = true) : t.mkdirAll parts perm = .ok t := by
  unfold Tree.mkdirAll
  obtain ⟨mode,there⟩ := isDirAtIff.mp dir
  cases up : parts.reverse with
  | nil => rfl
  | cons n rest =>
    unfold Tree.mkdirUp
    rw [← up,List.reverse_reverse,statFound found there]
    rfl

/- Where a name in a directory leads, when it is no link. -/
theorem followName {t : Tree} {d : List Name} {n : Name} {l : Path} (plain : Plain n) (found : t.follow d = .found l)
    (dir : t.isDirAt l = true) (solid : t.isLinkAt (l ++ [n]) = false) :
    t.follow (d ++ [n]) = if t.get (l ++ [n]) = none then .missing l [n] else .found (l ++ [n]) := by
  obtain ⟨again,through⟩ := resolveThrough true [n] (by simp) found
  refine through.trans ?_
  rw [descendStep,dir,if_neg (by simp),if_neg (by simp [plain.filled,plain.here]),if_neg plain.up]
  split
  · rename_i free
    rw [if_pos free]
  · rename_i target here
    simp [Tree.isLinkAt,here,Entry.isLink] at solid
  · rename_i e other here
    rw [if_neg (by simp [here])]
    rfl

theorem locateFree {t : Tree} {d : List Name} {n : Name} {l : Path} (plain : Plain n) (found : t.follow d = .found l)
    (dir : t.isDirAt l = true) (free : t.get (l ++ [n]) = none) : t.locate (d ++ [n]) = .missing l [n] := by
  obtain ⟨again,through⟩ := resolveThrough false [n] (by simp) found
  refine through.trans ?_
  rw [descendStep,dir,if_neg (by simp),if_neg (by simp [plain.filled,plain.here]),if_neg plain.up,free]

theorem mkdirAllBelow {t t' : Tree} {d : List Name} {n : Name} {l : Path} {perm : Nat} (plain : ∀ m ∈ d ++ [n], Plain m)
    (found : t.follow d = .found l) (inside : t.isDirAt l = true) (solid : t.isLinkAt (l ++ [n]) = false)
    (made : t.mkdirAll (d ++ [n]) perm = .ok t') :
    (∀ q, q ≠ l ++ [n] → t'.get q = t.get q) ∧
    t'.get (l ++ [n]) = (t.get (l ++ [n])).or (some (.dir perm)) ∧ t'.isDirAt (l ++ [n]) = true := by
  have name := plain n (by simp)
  obtain ⟨l',found',dir',adds⟩ := mkdirAllMade plain made
  -- The path ends at the directory, which is all that can be new.
  have solid' : t'.isLinkAt (l ++ [n]) = false := by
    rcases adds (l ++ [n]) with old | ⟨_,new,_⟩
    · rw [Tree.isLinkAt,old]
      exact solid
    · simp [Tree.isLinkAt,new,Entry.isLink]
  have place := followName name (followGrows (addsGrows adds) found) (growsDir (addsGrows adds) inside) solid'
  rw [found'] at place
  split at place <;> try contradiction
  cases place
  obtain ⟨mode,there⟩ := isDirAtIff.mp dir'
  refine ⟨?_,?_,dir'⟩
  · intro q other
    rcases adds q with old | ⟨gone,_,before⟩
    · exact old
    · rcases List.prefix_concat_iff.mp before with same | above
      · exact absurd same other
      · obtain ⟨x,rfl⟩ := above
        exact absurd (getBelow gone) (resolveThere found)
  · rcases adds (l ++ [n]) with old | ⟨free,new,_⟩
    · rw [← old,there]
      rfl
    · rw [free,new]
      rfl

theorem mkdirAllWorks {t : Tree} {d : List Name} {n : Name} {l : Path} (perm : Nat) (plain : Plain n)
    (found : t.follow d = .found l) (inside : t.isDirAt l = true)
    (place : t.get (l ++ [n]) = none ∨ t.isDirAt (l ++ [n]) = true) : ∃ t', t.mkdirAll (d ++ [n]) perm = .ok t' := by
  rcases place with free | dir
  · have missing := locateFree plain found inside free
    have lost := followMissing missing
    have up : t.mkdirUp perm d.reverse = .ok t := by
      have stays := mkdirAllStays perm found inside
      exact stays
    refine ⟨t.put (l ++ [n]) (.dir perm),?_⟩
    unfold Tree.mkdirAll
    rw [List.reverse_concat]
    unfold Tree.mkdirUp
    have ask : t.stat (n :: d.reverse).reverse = .error .notExist := by
      rw [List.reverse_cons,List.reverse_reverse,Tree.stat,lost]
    rw [ask,up]
    show t.mkdir (n :: d.reverse).reverse perm = _
    rw [List.reverse_cons,List.reverse_reverse,Tree.mkdir,missing]
    exact if_pos plain
  · exact ⟨t,mkdirAllStays perm (followBelow found (by simp) (dirThere dir) (dirSolid dir)) dir⟩

theorem fitsFile {t : Tree} {l : Path} {mode mode' : Nat} {data data' : Bytes}
    (here : t.get l = some (.file mode data)) : t.fits l (.file mode' data') = true := by
  cases l using List.reverseRecOn with
  | nil =>
    obtain ⟨rootMode,root⟩ := t.root
    rw [Tree.get,root] at here
    cases here
  | append_singleton p n =>
    refine fitsIff.mpr ⟨t.named p n _ here,isDirAtIff.mpr (t.above p n _ here),.inr ?_⟩
    simp [Tree.isDirAt,here,Entry.isDir]

theorem createMade {t t' : Tree} {parts : List Name} {perm : Nat} {l : Path}
    (made : t.create parts perm = .ok (l,t')) :
    ∃ mode, (∀ q, t'.get q = if q = l then some (.file mode []) else t.get q) ∧
      ((∃ data, t.get l = some (.file mode data)) ∨ t.get l = none ∧ mode = perm) ∧
      (t.follow parts = .found l ∨ ∃ q n, l = q ++ [n] ∧ t.follow parts = .missing q [n]) := by
  unfold Tree.create at made
  split at made <;> try contradiction
  · rename_i l' found
    split at made <;> try contradiction
    rename_i mode data here
    cases made
    exact ⟨mode,fun q => getPut (fitsFile here),.inl ⟨data,here⟩,.inl found⟩
  · rename_i q n missing
    split at made <;> try contradiction
    rename_i plain
    cases made
    obtain ⟨m,more,shape,dir,free⟩ := missingShape missing
    cases shape
    have fits : t.fits (q ++ [n]) (.file perm []) = true := by
      refine fitsIff.mpr ⟨plain,dir,.inr ?_⟩
      simp [Tree.isDirAt,free]
    exact ⟨perm,fun r => getPut fits,.inr ⟨free,rfl⟩,.inr ⟨q,n,rfl,missing⟩⟩

theorem createFar {t : Tree} {parts rest : List Name} {perm : Nat} {q : Path} (lost : t.follow parts = .missing q rest)
    (long : 1 < rest.length) : t.create parts perm = .error .notExist := by
  unfold Tree.create
  rw [lost]
  cases rest with
  | nil => simp at long
  | cons a rest =>
    cases rest with
    | nil => simp at long
    | cons a' rest => rfl

theorem createBelow {t : Tree} {d : List Name} {n : Name} {l : Path} (perm : Nat) (plain : Plain n)
    (found : t.follow d = .found l) (dir : t.isDirAt l = true) (solid : t.isLinkAt (l ++ [n]) = false) :
    (∀ l' t', t.create (d ++ [n]) perm = .ok (l',t') → l' = l ++ [n]) ∧
    (t.isDirAt (l ++ [n]) = false → ∃ t', t.create (d ++ [n]) perm = .ok (l ++ [n],t')) := by
  have place := followName plain found dir solid
  constructor
  · intro l' t' made
    obtain ⟨_,_,_,here | ⟨q,m,same,here⟩⟩ := createMade made
    · rw [place] at here
      split at here <;> try contradiction
      cases here
      rfl
    · rw [place] at here
      split at here <;> try contradiction
      cases here
      exact same
  · intro file
    unfold Tree.create
    rw [place]
    by_cases free : t.get (l ++ [n]) = none
    · rw [if_pos free]
      dsimp only
      rw [if_pos plain]
      exact ⟨_,rfl⟩
    · rw [if_neg free]
      dsimp only
      obtain ⟨e,here⟩ := Option.ne_none_iff_exists'.mp free
      cases e with
      | file mode data =>
        rw [here]
        exact ⟨_,rfl⟩
      | link target => simp [Tree.isLinkAt,here,Entry.isLink] at solid
      | dir mode => simp [Tree.isDirAt,here,Entry.isDir] at file

theorem openFound {t : Tree} {parts : List Name} {l : Path} : t.openFile parts = .ok l ↔ t.follow parts = .found l := by
  unfold Tree.openFile
  cases t.follow parts <;> simp

theorem readFound {t : Tree} {l : Path} {data : Bytes} : t.read l = .ok data ↔ ∃ mode, t.get l = some (.file mode data) := by
  unfold Tree.read
  cases t.get l with
  | none => simp
  | some e => cases e <;> simp

theorem getWrite {t : Tree} {l : Path} {mode : Nat} {data : Bytes} (data' : Bytes) (here : t.get l = some (.file mode data))
    (q : Path) : (t.write l data').get q = if q = l then some (.file mode data') else t.get q := by
  unfold Tree.write
  rw [here]
  exact getPut (fitsFile here)

theorem movableNew {t : Tree} {q : List Name} {s r : Path} {n : Name} (target : t.locate q = .missing r [n]) (filled : s ≠ [])
    (apart : ¬s <+: r ++ [n]) (plain : Plain n) : Movable t s (r ++ [n]) := by
  obtain ⟨m,more,shape,dir,free⟩ := missingShape target
  cases shape
  exact ⟨filled,free,apart,r,n,rfl,plain,dir⟩

/- A rename to a free name has moved the entry, or changed nothing. -/
theorem renameNew {t : Tree} {p q : List Name} {s r : Path} {n : Name} (source : t.locate p = .found s)
    (target : t.locate q = .missing r [n]) (plain : Plain n) (filled : s ≠ []) :
    t.rename p q = if s <+: r ++ [n] then .error .invalid else .ok (t.move s (r ++ [n])) := by
  unfold Tree.rename
  rw [source]
  dsimp only
  rw [target]
  dsimp only
  rw [if_neg filled]
  rw [if_pos plain]

theorem renameLost {t : Tree} {p q : List Name} (lost : ∀ s, t.locate p ≠ .found s) : ∃ e, t.rename p q = .error e := by
  unfold Tree.rename
  split
  · rename_i s found
    exact absurd found (lost s)
  · exact ⟨_,rfl⟩
  · exact ⟨_,rfl⟩

theorem renameFar {t : Tree} {p q : List Name} {s r : Path} {rest : List Name} (source : t.locate p = .found s)
    (lost : t.locate q = .missing r rest) (long : 1 < rest.length) : t.rename p q = .error .notExist := by
  unfold Tree.rename
  rw [source]
  dsimp only
  rw [lost]
  cases rest with
  | nil => simp at long
  | cons a rest =>
    cases rest with
    | nil => simp at long
    | cons a' rest => rfl

theorem removeFound {t : Tree} {parts : List Name} {l : Path} (found : t.locate parts = .found l) (filled : l ≠ []) :
    t.removeAll parts = (.ok (),t.remove l) := by
  unfold Tree.removeAll
  split
  · rename_i root
    rw [found] at root
    cases root
    exact absurd rfl filled
  · rename_i l' other found'
    rw [found] at found'
    cases found'
    rfl
  · rename_i missing
    rw [found] at missing
    contradiction
  · rename_i failed
    rw [found] at failed
    contradiction

theorem goneHere {l q : Path} {gone : List Path} :
    (!(l.isPrefixOf q && gone.contains (rel l q))) = true ↔ ¬(l <+: q ∧ rel l q ∈ gone) := by
  by_cases below : l <+: q
  · simp [below,List.isPrefixOf_iff_prefix.mpr below]
  · simp [below,mt List.isPrefixOf_iff_prefix.mp below]

/- What is left when some of an entry is removed. -/
theorem getRemoveSome {t : Tree} {parts : List Name} (gone : List Path) {l : Path} (found : t.locate parts = .found l)
    (filled : l ≠ []) (q : Path) :
    (t.removeSome parts gone).get q = if ∃ y ∈ gone, l ++ y <+: q then none else t.get q := by
  unfold Tree.removeSome
  rw [found]
  dsimp only
  rw [getRestrict]
  have same : passes (fun q => !(l.isPrefixOf q && gone.contains (rel l q))) q = true ↔ ¬∃ y ∈ gone, l ++ y <+: q := by
    rw [passesIff]
    constructor
    · rintro all ⟨y,mem,before⟩
      refine goneHere.mp (all (l ++ y) before (by simp [filled])) ⟨List.prefix_append _ _,?_⟩
      rwa [rel,List.drop_left]
    · intro never r before _
      refine goneHere.mpr ?_
      rintro ⟨⟨y,rfl⟩,mem⟩
      rw [rel,List.drop_left] at mem
      exact never ⟨y,mem,before⟩
  by_cases removed : ∃ y ∈ gone, l ++ y <+: q
  · rw [if_pos removed,if_neg (same.not.mpr (not_not.mpr removed))]
  · rw [if_neg removed,if_pos (same.mpr removed)]

/- A removal takes away only from the entry that the path leads to. -/
def Pruned (parts : List Name) (t t' : Tree) : Prop :=
  ∀ q, t'.get q = t.get q ∨ t'.get q = none ∧ ∃ l, t.locate parts = .found l ∧ l <+: q

theorem removeAllPrunes (t : Tree) (parts : List Name) : Pruned parts t (t.removeAll parts).2 := by
  intro q
  unfold Tree.removeAll
  split
  · rename_i found
    rw [getRemove]
    split
    · exact .inr ⟨rfl,[],found,List.nil_prefix⟩
    · exact .inl rfl
  · rename_i l _ found
    rw [getRemove]
    split
    · rename_i below
      exact .inr ⟨rfl,l,found,below.1⟩
    · exact .inl rfl
  · exact .inl rfl
  · exact .inl rfl

theorem removeSomePrunes (t : Tree) (parts : List Name) (gone : List Path) : Pruned parts t (t.removeSome parts gone) := by
  intro q
  unfold Tree.removeSome
  split
  · rename_i l found
    rw [getRestrict]
    split
    · exact .inl rfl
    · rename_i stays
      by_cases below : l <+: q
      · exact .inr ⟨rfl,l,found,below⟩
      · refine absurd ?_ stays
        rw [passesIff]
        intro r before _
        exact goneHere.mpr (fun above => below (above.1.trans before))
  · exact .inl rfl

end FileTree
