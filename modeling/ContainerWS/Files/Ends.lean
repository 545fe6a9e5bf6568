import ContainerWS.Files.Across

/-! Whether the copy of a directory comes to an end. The walk sees what the copy puts
below its source, so it ends when nothing new can stand there deeper than the entry it
is the copy of. -/
namespace ContainerWS.Files
open GoPath FileTree

/- Entries that have been added or written, and no links among them. -/
structure Fills (o c : Tree) : Prop where
  grows : Grows o c
  links : ∀ q, c.isLinkAt q = true → o.isLinkAt q = true

theorem fillsSelf (o : Tree) : Fills o o := ⟨growsSelf o,fun _ link => link⟩

theorem fillsTrans {a b c : Tree} (first : Fills a b) (second : Fills b c) : Fills a c :=
  ⟨growsTrans first.grows second.grows,fun q link => first.links q (second.links q link)⟩

theorem addsFills {t t' : Tree} {perm : Nat} {l : Path} (adds : Adds perm l t t') : Fills t t' := by
  refine ⟨addsGrows adds,?_⟩
  intro q link
  rcases adds q with same | ⟨_,new,_⟩
  · rw [Tree.isLinkAt,← same]
    exact link
  · simp [Tree.isLinkAt,new,Entry.isLink] at link

/- Whatever is filled in, no path below the destination leads deeper into the source
than it is long. -/
def Surfaces (o : Tree) (src dst : List Name) : Prop :=
  ∀ s, o.locate src = .found s → o.isDirAt s = true → ∀ c, Fills o c → ∀ w y, (∀ n ∈ w, Plain n) →
    c.follow (dst ++ w) = .found (s ++ y) → y.length ≤ w.length

/- The tree during the copy: the directories of the source are no deeper than they were. -/
structure Shallow (o : Tree) (s : Path) (c : Tree) : Prop where
  fills : Fills o c
  low : ∀ y, c.isDirAt (s ++ y) = true → y.length ≤ o.depth

theorem shallowStart (o : Tree) (s : Path) : Shallow o s o := by
  refine ⟨fillsSelf o,?_⟩
  intro y dir
  have bound := lengthLe (dirThere dir)
  rw [List.length_append] at bound
  omega

section Ending
variable {o : Tree} {src dst s : Path} {umask : Nat}

/- A directory that is made for an entry of the source lies no deeper than that. -/
theorem madeShallow (surfaces : Surfaces o src dst) (source : o.locate src = .found s) (root : o.isDirAt s = true)
    (named : ∀ n ∈ dst, Plain n) {x : Path} (plain : ∀ n ∈ x, Plain n) (short : x.length ≤ o.depth) {c c' : Tree} {perm : Nat}
    (shallow : Shallow o s c) (made : c.mkdirAll (dst ++ x) perm = .ok c') : Fills c c' ∧ Shallow o s c' := by
  have names : ∀ n ∈ dst ++ x, Plain n := by
    intro n mem
    rcases List.mem_append.mp mem with old | new
    · exact named n old
    · exact plain n new
  obtain ⟨l,leads,_,adds⟩ := mkdirAllMade names made
  have fills := addsFills adds
  refine ⟨fills,fillsTrans shallow.fills fills,?_⟩
  intro y dir
  rcases adds (s ++ y) with same | ⟨_,_,more,above⟩
  · refine shallow.low y ?_
    rw [Tree.isDirAt,← same]
    exact dir
  · rw [← above,List.append_assoc] at leads
    have deep := surfaces s source root c' (fillsTrans shallow.fills fills) x _ plain leads
    rw [List.length_append] at deep
    omega

/- A file brings no directory. -/
theorem leafShallow {c c' : Tree} (fills : Fills c c') (dirs : ∀ q, c'.isDirAt q = true → c.isDirAt q = true)
    (shallow : Shallow o s c) : Shallow o s c' :=
  ⟨fillsTrans shallow.fills fills,fun y dir => shallow.low y (dirs _ dir)⟩

theorem createFills {c c' : Tree} {parts : List Name} {perm : Nat} {l : Path} (made : c.create parts perm = .ok (l,c')) :
    Fills c c' ∧ ∀ q, c'.isDirAt q = true → c.isDirAt q = true := by
  obtain ⟨mode,gets,old,_⟩ := createMade made
  refine ⟨⟨?_,?_⟩,?_⟩
  · intro q e here
    rw [gets]
    split
    · rename_i same
      subst same
      rcases old with ⟨data,there⟩ | ⟨free,_⟩
      · rw [here] at there
        cases there
        exact ⟨_,rfl,rfl⟩
      · rw [here] at free
        contradiction
    · exact ⟨e,here,alikeSelf e⟩
  · intro q link
    rw [Tree.isLinkAt,gets] at link
    split at link
    · simp [Entry.isLink] at link
    · exact link
  · intro q dir
    rw [Tree.isDirAt,gets] at dir
    split at dir
    · simp [Entry.isDir] at dir
    · exact dir

theorem writeFills {c : Tree} {l : Path} {data : Bytes} : Fills c (c.write l data) ∧
    ∀ q, (c.write l data).isDirAt q = true → c.isDirAt q = true := by
  unfold Tree.write
  split
  · rename_i mode old here
    have gets (q : Path) := getPut (q := q) (show c.fits l (.file mode data) = true from fitsFile here)
    refine ⟨⟨?_,?_⟩,?_⟩
    · intro q e there
      rw [gets]
      split
      · rename_i same
        rw [same,here] at there
        cases there
        exact ⟨_,rfl,rfl⟩
      · exact ⟨e,there,alikeSelf e⟩
    · intro q link
      rw [Tree.isLinkAt,gets] at link
      split at link
      · simp [Entry.isLink] at link
      · exact link
    · intro q dir
      rw [Tree.isDirAt,gets] at dir
      split at dir
      · simp [Entry.isDir] at dir
      · exact dir
  · exact ⟨fillsSelf c,fun _ dir => dir⟩

/- What has come to the tree since then. -/
def Since (o : Tree) (s : Path) (b c : Tree) : Prop := Fills b c ∧ Shallow o s c

theorem sinceTrans {a b c : Tree} (first : Since o s a b) (second : Since o s b c) : Since o s a c :=
  ⟨fillsTrans first.1 second.1,second.2⟩

/- A loop over a directory ends when its rounds do. -/
theorem entriesEnd {walk : Path → DirEntry → Sys Unit} {b : Tree} {x : Path} (source : b.follow src = .found s)
    (inside : b.isDirAt (s ++ x) = true)
    (round : ∀ c n flag, Since o s b c → Plain n → (flag = true → c.isDirAt (s ++ (x ++ [n])) = true) →
      Ensures True (Quietly False (Since o s c)) (walk (src ++ (x ++ [n])) ⟨flag,none⟩)
        (fun _ => Quietly False (Since o s c)) (fun _ => Quietly False (fun _ => True))) :
    Ensures True (Quietly False (Since o s b)) (walkEntries walk (src ++ x)) (fun _ => Quietly False (Since o s b))
      (fun _ => Quietly False (fun _ => True)) := by
  unfold walkEntries
  refine ensuresPlanned (fun f quiet => ensuresBind (Q := fun dirs => Quietly False (fun c => Since o s b c ∧
    ∀ d1 ∈ dirs, Plain d1.1 ∧ (d1.2 = true → c.isDirAt (s ++ (x ++ [d1.1])) = true))) ?_ (fun dirs => ?_))
  · refine ensuresAsked quiet ?_ (fun _ _ _ _ => trivial) (fun _ _ _ => trivial)
    intro c dirs since listed
    refine ⟨since,?_⟩
    obtain ⟨l,found,_,rfl⟩ := readDirNames listed
    have here := followInside (followGrows since.1.grows source) (growsDir since.1.grows inside)
    rw [found] at here
    cases here
    intro d1 mem
    obtain ⟨n,there,rfl⟩ := List.mem_map.mp mem
    refine ⟨getNamed (memNames.mp there) n (by simp),?_⟩
    intro flag
    rw [← List.append_assoc]
    exact flag
  · refine ensuresFix ?_
    rintro c ⟨since,kinds⟩
    refine ensuresWeaken (ensuresEach (I := fun _ => Quietly False (Since o s c))
      (E := fun _ => Quietly False (fun _ => True)) ?_) ?_ ?_ (fun _ _ failed => failed)
    · rintro before ⟨n,flag⟩ after split
      obtain ⟨plain,dir⟩ := kinds (n,flag) (by simp [split])
      rw [List.append_assoc]
      exact round c n flag since plain dir
    · rintro w ⟨quiet,rfl⟩
      exact ⟨quiet,fillsSelf _,since.2⟩
    · rintro _ w ⟨quiet,later⟩
      exact ⟨quiet,sinceTrans since later⟩

/- One entry is copied and the walk goes on, or it ends with an error. -/
theorem entryEnds (surfaces : Surfaces o src dst) (source : o.locate src = .found s) (root : o.isDirAt s = true)
    (named : ∀ n ∈ dst, Plain n) {b : Tree} {x : Path} {n : Name} {flag : Bool} (plain : ∀ m ∈ x ++ [n], Plain m)
    (short : x.length ≤ o.depth) (deep : flag = true → (x ++ [n]).length ≤ o.depth) :
    Ensures True (Quietly False (Since o s b)) (copyEntry umask ownPerm src dst (src ++ (x ++ [n])) ⟨flag,none⟩)
      (fun _ => Quietly False (Since o s b)) (fun _ => Quietly False (fun _ => True)) := by
  have names : ∀ m ∈ dst ++ x ++ [n], Plain m := by
    intro m mem
    rw [List.append_assoc] at mem
    rcases List.mem_append.mp mem with old | new
    · exact named m old
    · exact plain m new
  have target : clean (dst ++ rel src (src ++ (x ++ [n]))) = dst ++ x ++ [n] := by
    rw [rel,List.drop_left,← List.append_assoc]
    exact cleanNamed names
  unfold copyEntry
  rw [target]
  refine ensuresFix ?_
  intro c since
  dsimp only
  cases flag with
  | true =>
    rw [if_pos rfl]
    refine ensuresBind (@ownAsks False _ False _ _ _ _ False.elim (fun _ none => absurd none (by simp))) (fun m => ?_)
    refine ensuresPlanned (fun f quiet => ensuresChanged quiet ?_ (fun _ _ _ _ => trivial) (fun _ _ _ _ => trivial))
    rintro t u t' ⟨rfl,_⟩ made
    have made := plainlyOk.mp made
    rw [List.append_assoc] at made
    exact sinceTrans since (madeShallow surfaces source root named plain (deep rfl) since.2 made)
  | false =>
    rw [if_neg (by simp)]
    refine ensuresBind (ensuresWeaken (infoAsked (d := ⟨false,none⟩) (fun _ none => absurd none (by simp))) (fun _ before => before)
      (fun _ _ after => after) (fun _ _ failed => ⟨failed.1,trivial⟩)) (fun e => ?_)
    unfold copyFile ensureParentDir
    rw [dirNamed names]
    refine ensuresBind (Q := fun _ => Quietly False (Since o s b)) ?_ (fun _ => ?_)
    · refine ensuresPlanned (fun f quiet => ensuresChanged quiet ?_ (fun _ _ _ _ => trivial) (fun _ _ _ _ => trivial))
      rintro t u t' ⟨rfl,_⟩ made
      have above : ∀ m ∈ x, Plain m := fun m mem => plain m (by simp [mem])
      exact sinceTrans since (madeShallow surfaces source root named above short since.2 (plainlyOk.mp made))
    refine ensuresPlanned (fun f quiet => ensuresBind (Q := fun _ => Quietly False (Since o s b)) ?_ (fun r => ?_))
    · exact ensuresAsked quiet (fun _ _ since _ => since) (fun _ _ _ _ => trivial) (fun _ _ _ => trivial)
    refine ensuresPlanned (fun f quiet => ensuresBind (Q := fun _ => Quietly False (Since o s b)) ?_ (fun l => ?_))
    · refine ensuresChanged quiet ?_ (fun _ _ _ _ => trivial) (fun _ _ _ _ => trivial)
      intro t l t' since made
      obtain ⟨fills,dirs⟩ := createFills made
      exact sinceTrans since ⟨fills,leafShallow fills dirs since.2⟩
    · refine ensuresPlanned (fun f quiet => ensuresChanged quiet ?_ (fun _ _ _ _ => trivial) (fun _ _ _ _ => trivial))
      intro t u t' since wrote
      obtain ⟨data,_,rfl⟩ := copyWrote wrote
      obtain ⟨fills,dirs⟩ := @writeFills t l data
      exact sinceTrans since ⟨fills,leafShallow fills dirs since.2⟩

theorem leafEnds {d : List Name} {perm : Nat} : Ensures True (Quietly False (fun _ => True)) (copyFile umask src d perm)
    (fun _ => Quietly False (fun _ => True)) (fun _ => Quietly False (fun _ => True)) := by
  have asked {α : Type} {f : Option Fault} (ask : Tree → Except Errno α) :
      Ensures True (Quietly False (fun _ => True)) (asking f ask) (fun _ => Quietly False (fun _ => True))
        (fun _ => Quietly False (fun _ => True)) :=
    ensuresAsked False.elim (fun _ _ _ _ => trivial) (fun _ _ _ _ => trivial) (fun _ _ _ => trivial)
  have changed {α : Type} {f : Option Fault} (change : Tree → Except Errno (α × Tree)) (broken : Fault → Tree → Tree) :
      Ensures True (Quietly False (fun _ => True)) (changing f change broken) (fun _ => Quietly False (fun _ => True))
        (fun _ => Quietly False (fun _ => True)) :=
    ensuresChanged False.elim (fun _ _ _ _ _ => trivial) (fun _ _ _ _ => trivial) (fun _ _ _ _ => trivial)
  unfold copyFile ensureParentDir
  refine ensuresBind (ensuresPlanned (fun f _ => changed _ _)) (fun _ => ?_)
  refine ensuresPlanned (fun f _ => ensuresBind (asked _) (fun r => ?_))
  refine ensuresPlanned (fun f _ => ensuresBind (changed _ _) (fun l => ?_))
  exact ensuresPlanned (fun f _ => changed _ _)

/- The walk from an entry ends: below the depth of the tree there is nothing to go
down to. -/
theorem walkEnds (surfaces : Surfaces o src dst) (source : o.locate src = .found s) (root : o.isDirAt s = true)
    (named : ∀ n ∈ dst, Plain n) {fuel : Nat} : ∀ {b : Tree} {x : Path} {n : Name} {flag : Bool}, Shallow o s b →
    (∀ m ∈ x ++ [n], Plain m) → b.isDirAt (s ++ x) = true → (flag = true → b.isDirAt (s ++ (x ++ [n])) = true) →
    o.depth < fuel + x.length →
    Ensures True (Quietly False (Since o s b)) (walkDir (copyEntry umask ownPerm src dst) fuel (src ++ (x ++ [n])) ⟨flag,none⟩)
      (fun _ => Quietly False (Since o s b)) (fun _ => Quietly False (fun _ => True)) := by
  induction fuel with
  | zero =>
    intro b x n flag shallow _ inside _ enough
    have low := shallow.low x inside
    omega
  | succ fuel ih =>
    intro b x n flag shallow plain inside dir enough
    unfold walkDir
    refine ensuresBind (entryEnds surfaces source root named plain (shallow.low x inside)
      (fun yes => shallow.low _ (dir yes))) (fun _ => ?_)
    cases flag with
    | false =>
      rw [if_neg (by simp)]
      exact ensuresPure (fun _ since => since)
    | true =>
      rw [if_pos rfl]
      have leads : b.follow src = .found s := followGrows shallow.fills.grows (followLocated source (dirSolid root))
      refine entriesEnd leads (dir rfl) ?_
      intro c m flag' since name dir'
      refine ih since.2 ?_ (growsDir since.1.grows (dir rfl)) dir' ?_
      · intro k mem
        rcases List.mem_append.mp mem with old | new
        · exact plain k old
        · rw [List.mem_singleton.mp new]
          exact name
      · rw [List.length_append,List.length_singleton]
        omega

theorem copyEnds (surfaces : Surfaces o src dst) (named : ∀ n ∈ dst, Plain n) :
    Ensures True (Quietly False (fun c => c = o)) (CopyDir umask (o.depth+2) src dst) (fun _ _ => True) (fun _ _ => True) := by
  unfold CopyDir
  cases found : o.lstat src with
  | error e =>
    unfold copyTree WalkDir
    refine ensuresPlanned (fun f quiet => ensuresBind (Q := fun _ _ => False) ?_ (fun _ _ never => never.elim))
    refine ensuresWeaken (ensuresAsked (S := fun _ _ => False) (F := fun _ => True) quiet ?_ (fun _ _ _ _ => trivial)
      (fun _ _ _ => trivial)) (fun _ before => before) (fun _ _ after => after.2) (fun _ _ _ => trivial)
    rintro c e' rfl asked
    rw [found] at asked
    contradiction
  | ok e =>
    obtain ⟨s,source,here⟩ := lstatSome found
    cases kind : e.isDir with
    | true =>
      have root : o.isDirAt s = true := by
        rw [Tree.isDirAt,here]
        exact kind
      refine ensuresWeaken (copyTreeStarts False ownAsks False.elim named source here kind
        (Q := fun _ => Quietly False (fun _ => True)) (F := fun _ => True) ?_ (fun _ _ _ => trivial))
        (fun _ before => before) (fun _ _ _ => trivial) (fun _ _ _ => trivial)
      intro m b made _
      rw [← List.append_nil dst] at made
      obtain ⟨fills,shallow⟩ := madeShallow (x := []) surfaces source root named (by simp) (Nat.zero_le _)
        (shallowStart o s) made
      have leads : b.follow src = .found s := followGrows fills.grows (followLocated source (dirSolid root))
      have inside : b.isDirAt (s ++ []) = true := by
        rw [List.append_nil]
        exact growsDir fills.grows root
      have loop := @entriesEnd o src s (walkDir (copyEntry umask ownPerm src dst) (o.depth+1)) _ _ leads inside (by
        intro c n flag since name dir
        refine walkEnds surfaces source root named since.2 ?_ (growsDir since.1.grows inside) dir (by simp)
        simpa using name)
      rw [List.append_nil] at loop
      refine ensuresWeaken loop ?_ (fun _ _ after => ⟨after.1,trivial⟩) (fun _ _ failed => failed)
      rintro w ⟨quiet,rfl⟩
      exact ⟨quiet,fillsSelf _,shallow⟩
    | false =>
      unfold copyTree WalkDir
      refine ensuresPlanned (fun f quiet => ensuresBind (Q := fun e' => Quietly False (fun _ => e' = e)) ?_ (fun e' => ?_))
      · refine ensuresWeaken (ensuresAsked (S := fun e' _ => e' = e) (F := fun _ => True) quiet ?_ (fun _ _ _ _ => trivial)
          (fun _ _ _ => trivial)) (fun _ before => before) (fun _ _ after => after) (fun _ _ _ => trivial)
        rintro c e' rfl asked
        rw [found] at asked
        cases asked
        rfl
      · refine ensuresFix ?_
        rintro c rfl
        unfold walkDir copyEntry
        dsimp only
        rw [kind,if_neg (by simp),if_neg (by simp)]
        refine ensuresBind (Q := fun _ _ => True) (ensuresBind (Q := fun _ => Quietly False (fun _ => True)) ?_ (fun _ => ?_))
          (fun _ => ensuresPure (fun _ _ => trivial))
        · exact ensuresPure (fun _ before => ⟨before.1,trivial⟩)
        · exact ensuresWeaken leafEnds (fun _ before => before) (fun _ _ _ => trivial) (fun _ _ _ => trivial)

end Ending

section Inside
variable {o : Tree} {src d : List Name} {n : Name} {s q z : Path} {umask fuel : Nat} {calm : Prop}

/- Nothing but directories. -/
def Folders (t : Tree) : Prop := ∀ p e, t.get p = some e → e.isDir = true

theorem foldersAdds {t t' : Tree} {perm : Nat} {l : Path} (folders : Folders t) (adds : Adds perm l t t') : Folders t' := by
  intro p e here
  rcases adds p with same | ⟨_,new,_⟩
  · exact folders p e (same ▸ here)
  · rw [new] at here
    cases here
    rfl

/- Where there are only directories, another one can always be made. -/
theorem mkdirAllFolders {t : Tree} (folders : Folders t) {parts : List Name} (perm : Nat) (plain : ∀ m ∈ parts, Plain m) :
    ∃ t', t.mkdirAll parts perm = .ok t' := by
  unfold Tree.mkdirAll
  have each : ∀ up, (∀ m ∈ up, Plain m) → ∃ t', t.mkdirUp perm up = .ok t' := by
    intro up
    induction up with
    | nil => exact fun _ => ⟨t,rfl⟩
    | cons m up ih =>
      intro plain
      unfold Tree.mkdirUp
      cases asked : t.stat (m :: up).reverse with
      | ok e =>
        obtain ⟨l,_,here⟩ := statSome asked
        exact ⟨t,if_pos (folders l e here)⟩
      | error e =>
        obtain ⟨t1,first⟩ := ih (fun k mem => plain k (by simp [mem]))
        have made : t.mkdirAll up.reverse perm = .ok t1 := by
          rw [Tree.mkdirAll,List.reverse_reverse]
          exact first
        obtain ⟨l,found,dir,adds⟩ := mkdirAllMade (fun k mem => plain k (by simp [List.mem_reverse.mp mem])) made
        have name := plain m (by simp)
        dsimp only
        rw [first,List.reverse_cons]
        show ∃ t', t1.mkdir (up.reverse ++ [m]) perm = .ok t'
        unfold Tree.mkdir
        cases there : t1.get (l ++ [m]) with
        | none =>
          rw [locateFree name found dir there]
          exact ⟨_,if_pos name⟩
        | some e' =>
          have inside : t1.isDirAt (l ++ [m]) = true := by
            rw [Tree.isDirAt,there]
            exact foldersAdds folders adds _ _ there
          rw [locateBelow found (by simp) (dirThere inside)]
          exact ⟨t1,if_pos inside⟩
  exact each parts.reverse (fun m mem => plain m (List.mem_reverse.mp mem))

/- Later than a tree, and with directories only. -/
def Later (b c : Tree) : Prop := Grows b c ∧ Folders c

/- Among directories a round of the walk meets no error. -/
theorem folderEnters (named : ∀ m ∈ d, Plain m) {b : Tree} {x : Path} (plain : ∀ m ∈ x, Plain m) :
    Ensures False (Quietly True (Later b)) (copyEntry umask ownPerm src d (src ++ x) ⟨true,none⟩)
      (fun _ => Quietly True (Later b)) (fun _ => Quietly True (fun _ => False)) := by
  have names : ∀ m ∈ d ++ x, Plain m := by
    intro m mem
    rcases List.mem_append.mp mem with old | new
    · exact named m old
    · exact plain m new
  have target : clean (d ++ rel src (src ++ x)) = d ++ x := by
    rw [rel,List.drop_left]
    exact cleanNamed names
  unfold copyEntry
  rw [target]
  dsimp only
  rw [if_pos rfl]
  refine ensuresFix ?_
  rintro c ⟨grows,folders⟩
  refine ensuresBind (@ownAsks False _ True _ _ _ _ False.elim (fun _ none => absurd none (by simp))) (fun m => ?_)
  refine ensuresPlanned (fun f quiet => ensuresChanged quiet ?_ ?_ (fun noisy _ _ _ => noisy trivial))
  · rintro t u t' ⟨rfl,_⟩ made
    obtain ⟨l,_,_,adds⟩ := mkdirAllMade names (plainlyOk.mp made)
    exact ⟨growsTrans grows (addsGrows adds),foldersAdds folders adds⟩
  · rintro t e ⟨rfl,_⟩ made
    obtain ⟨t',ok⟩ := mkdirAllFolders folders (Os.masked umask m) names
    rw [plainlyError.mp made] at ok
    contradiction

theorem foldersLoop {walk : Path → DirEntry → Sys Unit} {b : Tree} {x : Path} (source : b.follow src = .found s)
    (inside : b.isDirAt (s ++ x) = true)
    (round : ∀ c n, Later b c → Plain n → c.isDirAt (s ++ (x ++ [n])) = true →
      Ensures False (Quietly True (Later c)) (walk (src ++ (x ++ [n])) ⟨true,none⟩)
        (fun _ => Quietly True (Later c)) (fun _ => Quietly True (fun _ => False))) :
    Ensures False (Quietly True (Later b)) (walkEntries walk (src ++ x)) (fun _ => Quietly True (Later b))
      (fun _ => Quietly True (fun _ => False)) := by
  unfold walkEntries
  have leads {c : Tree} (later : Later b c) : c.follow (src ++ x) = .found (s ++ x) :=
    followInside (followGrows later.1 source) (growsDir later.1 inside)
  refine ensuresPlanned (fun f quiet => ensuresBind (Q := fun dirs => Quietly True (fun c => Later b c ∧
    ∀ d1 ∈ dirs, Plain d1.1 ∧ d1.2 = true ∧ c.isDirAt (s ++ (x ++ [d1.1])) = true)) ?_ (fun dirs => ?_))
  · refine ensuresAsked quiet ?_ ?_ (fun noisy _ _ => noisy trivial)
    · intro c dirs later listed
      refine ⟨later,?_⟩
      obtain ⟨l,found,_,rfl⟩ := readDirNames listed
      rw [leads later] at found
      cases found
      intro d1 mem
      obtain ⟨n,there,rfl⟩ := List.mem_map.mp mem
      have dir : c.isDirAt (s ++ x ++ [n]) = true := by
        obtain ⟨e,here⟩ := Option.ne_none_iff_exists'.mp (memNames.mp there)
        rw [Tree.isDirAt,here]
        exact later.2 _ e here
      refine ⟨getNamed (memNames.mp there) n (by simp),dir,?_⟩
      rw [← List.append_assoc]
      exact dir
    · intro c e later listed
      rw [Tree.readDir,leads later] at listed
      dsimp only at listed
      rw [growsDir later.1 inside,if_pos rfl] at listed
      contradiction
  · refine ensuresFix ?_
    rintro c ⟨later,kinds⟩
    refine ensuresWeaken (ensuresEach (I := fun _ => Quietly True (Later c))
      (E := fun _ => Quietly True (fun _ => False)) ?_) ?_ ?_ (fun _ _ failed => failed)
    · rintro before ⟨n,flag⟩ after split
      obtain ⟨plain,up,dir⟩ := kinds (n,flag) (by simp [split])
      dsimp only at up
      subst up
      rw [List.append_assoc]
      exact round c n later plain dir
    · rintro w ⟨quiet,rfl⟩
      exact ⟨quiet,growsSelf _,later.2⟩
    · rintro _ w ⟨quiet,grows,folders⟩
      exact ⟨quiet,growsTrans later.1 grows,folders⟩

theorem foldersGoOn (named : ∀ m ∈ d, Plain m) {fuel : Nat} : ∀ {b : Tree} {x : Path}, b.follow src = .found s →
    b.isDirAt (s ++ x) = true → (∀ m ∈ x, Plain m) →
    Ensures False (Quietly True (Later b)) (walkDir (copyEntry umask ownPerm src d) fuel (src ++ x) ⟨true,none⟩)
      (fun _ => Quietly True (Later b)) (fun _ => Quietly True (fun _ => False)) := by
  induction fuel with
  | zero => exact fun _ _ _ => ensuresDiverge (fun _ _ => id)
  | succ fuel ih =>
    intro b x source inside plain
    unfold walkDir
    refine ensuresBind (folderEnters named plain) (fun _ => ?_)
    rw [if_pos rfl]
    refine foldersLoop source inside ?_
    intro c n later name dir
    refine ih (followGrows later.1 source) dir ?_
    intro m mem
    rcases List.mem_append.mp mem with old | new
    · exact plain m old
    · rw [List.mem_singleton.mp new]
      exact name

/- Among directories only, and without faults, it does not end at all. -/
theorem nestedForEver (nested : Nested o src d n s q z) (folders : Folders o) {w : World} (same : w.tree = o) (still : Calm w) :
    CopyDir umask fuel src (d ++ [n]) w = none := by
  have never := @nestedNever o src d n s q z umask fuel True nested w ⟨fun _ => still,same⟩
  have works : Ensures False (Quietly True (fun c => c = o)) (CopyDir umask fuel src (d ++ [n])) (fun _ _ => True)
      (fun _ => Quietly True (fun _ => False)) := by
    obtain ⟨m,here⟩ := isDirAtIff.mp nested.root
    unfold CopyDir
    cases fuel with
    | zero =>
      unfold copyTree WalkDir
      refine ensuresPlanned (fun f quiet => ensuresBind (Q := fun _ _ => True) ?_
        (fun _ => ensuresDiverge (fun _ _ => id)))
      refine ensuresWeaken (ensuresAsked (S := fun _ _ => True) (F := fun _ => False) quiet (fun _ _ _ _ => trivial)
        ?_ (fun noisy _ _ => noisy trivial)) (fun _ before => before) (fun _ _ _ => trivial) (fun _ _ failed => failed)
      rintro c e rfl asked
      rw [lstatFound nested.source here] at asked
      contradiction
    | succ fuel =>
      refine ensuresWeaken (copyTreeStarts False ownAsks False.elim nested.named nested.source here rfl
        (Q := fun _ _ => True) (F := fun _ => False) ?_ ?_) (fun _ before => before) (fun _ _ _ => trivial)
        (fun _ _ failed => failed)
      · intro m' o' made _
        obtain ⟨l,_,_,adds⟩ := mkdirAllMade nested.named made
        have grows := addsGrows adds
        have source : o'.follow src = .found s := followGrows grows (followLocated nested.source (dirSolid nested.root))
        have loop := @foldersLoop src s (walkDir (copyEntry umask ownPerm src (d ++ [n])) fuel) _ [] source (by
            rw [List.append_nil]
            exact growsDir grows nested.root) (by
            intro c k later name dir
            exact foldersGoOn nested.named (followGrows later.1 source) dir (by simpa using name))
        rw [List.append_nil] at loop
        refine ensuresWeaken loop ?_ (fun _ _ _ => trivial) (fun _ _ failed => failed)
        rintro w' ⟨quiet,rfl⟩
        exact ⟨quiet,growsSelf _,foldersAdds folders adds⟩
      · intro c _ fails
        obtain ⟨perm,e,lost⟩ := fails trivial
        obtain ⟨t',ok⟩ := mkdirAllFolders folders perm nested.named
        rw [lost] at ok
        contradiction
  have goes := works w ⟨fun _ => still,same⟩
  cases ran : CopyDir umask fuel src (d ++ [n]) w with
  | none => rfl
  | some result =>
    obtain ⟨r,w'⟩ := result
    rw [ran] at never goes
    cases r with
    | ok u => exact never.elim
    | error e => exact goes.2.elim

end Inside
section Callers
variable {o : Tree} {src dst d : List Name} {n : Name} {s q z : Path} {umask fuel : Nat}

/- A destination in a directory, with no links at or below it, surfaces unless it is
inside the source. -/
theorem apartSurfaces (folder : o.follow d = .found q) (plain : Plain n) (solid : ∀ x, o.isLinkAt (q ++ [n] ++ x) = false)
    (apart : ∀ s z, o.locate src = .found s → z ≠ [] → q ++ [n] ≠ s ++ z) : Surfaces o src (d ++ [n]) := by
  intro s source _ c fills w y names found
  have bare : ∀ x, c.isLinkAt (q ++ [n] ++ x) = false := by
    intro x
    rw [Bool.eq_false_iff]
    intro link
    have old := fills.links _ link
    rw [solid] at old
    contradiction
  have leads : ∀ w again p, (∀ m ∈ w, Plain m) → (∀ x, x <+: w → x ≠ [] → c.isLinkAt (p ++ x) = false) →
      ∀ l, c.descend again true p w = .found l → l = p ++ w := by
    intro w
    induction w with
    | nil =>
      intro again p _ _ l found
      cases found
      exact (List.append_nil p).symm
    | cons m w ih =>
      intro again p names bare l found
      have name := names m (by simp)
      rw [descendStep] at found
      split at found <;> try contradiction
      rw [if_neg (by simp [name.filled,name.here]),if_neg name.up] at found
      split at found <;> try contradiction
      · rename_i target here
        have link := bare [m] (by simp) (by simp)
        simp [Tree.isLinkAt,here,Entry.isLink] at link
      · have next := ih again (p ++ [m]) (fun k mem => names k (by simp [mem])) ?_ l found
        · simpa using next
        · intro x before filled
          have link := bare (m :: x) (by simpa using before) (by simp)
          simpa using link
  obtain ⟨again,through⟩ := resolveThrough true ([n] ++ w) (by simp) (followGrows fills.grows folder)
  rw [List.append_assoc,Tree.follow,through] at found
  have place : s ++ y = q ++ ([n] ++ w) := by
    refine leads ([n] ++ w) again q ?_ ?_ _ found
    · intro m mem
      rcases List.mem_append.mp mem with first | more
      · rw [List.mem_singleton.mp first]
        exact plain
      · exact names m more
    · intro x before filled
      obtain ⟨m,x,rfl⟩ := List.exists_cons_of_ne_nil filled
      obtain ⟨rfl,_⟩ := List.cons_prefix_cons.mp before
      have link := bare x
      simpa using link
  by_contra deep
  -- The source then lies above the destination.
  have counts := congrArg List.length place
  simp only [List.length_append,List.length_singleton] at counts
  have above : s <+: q ++ [n] := by
    have whole : q ++ [n] <+: s ++ y := by
      rw [place,← List.append_assoc]
      exact List.prefix_append _ _
    refine List.prefix_of_prefix_length_le (List.prefix_append s y) whole ?_
    · simp only [List.length_append,List.length_singleton]
      omega
  obtain ⟨z,same⟩ := above
  refine apart s z source ?_ same.symm
  rintro rfl
  have counts' := congrArg List.length same
  simp only [List.length_append,List.length_singleton,List.length_nil] at counts'
  omega

end Callers

/- Where CopyAPI and MoveAPI place the source: in the destination when that is a
directory, and in a new one when there is nothing. -/
def placeInside (umask : Nat) (src dst : List Name) : Sys (List Name) := do
  match ← Sys.attempt (do Os.stat (← Sys.next) dst) with
  | .ok st => if st.isDir then pure (join dst (base src)) else pure dst
  | .error err =>
    if err.isNotExist then
      Os.mkdirAll umask (← Sys.next) dst 0o755
      pure (join dst (base src))
    else Sys.fail err

/- The run of CopyAPI. -/
def copyTo (umask fuel : Nat) (src dst : List Name) : Sys Unit := do
  let info ← Os.lstat (← Sys.next) src
  let d ← placeInside umask src dst
  copyAcross umask fuel info src d

/- The run of MoveAPI. -/
def moveTo (umask fuel : Nat) (src dst : List Name) : Sys Unit := do
  let d ← placeInside umask src dst
  ensureParentDir umask d
  match ← Sys.attempt (do Os.rename (← Sys.next) src d) with
  | .ok _ => pure ()
  | .error err =>
    match ← Sys.attempt (do Os.lstat (← Sys.next) src) with
    | .error _ => Sys.fail err
    | .ok info =>
      copyAcross umask fuel info src d
      Os.removeAll (← Sys.next) src

/- One directory. -/
def lone : Tree := Tree.bare.put ["a"] (.dir 0o755)

theorem loneFolders : Folders lone := by
  intro p e here
  rw [lone,getPut (by decide)] at here
  split at here
  · cases here
    rfl
  · rw [FileTree.Tree.get,FileTree.Tree.bare,lookupPut] at here
    split at here
    · cases here
      rfl
    · contradiction

theorem loneNested : Nested lone ["a"] ["a"] "a" ["a"] ["a"] ["a"] where
  source := by decide
  root := by decide
  folder := by decide
  inside := by decide
  named := by decide
  below := rfl
  strict := by simp
  solid x := by
    rw [Bool.eq_false_iff]
    intro link
    obtain ⟨target,here⟩ := isLinkAtIff.mp link
    have dir := loneFolders _ _ here
    contradiction

end ContainerWS.Files
