import ContainerWS.Files.Copy

/-! What the walk of a copy does. Each step of it changes one entry of the target;
what one step keeps, the walk keeps. -/
namespace ContainerWS.Files
open GoPath FileTree

variable {halts calm exact : Prop} {umask fuel : Nat} {perm : Path → DirEntry → Sys Nat}

/- What is known of an entry is what stands there. -/
def Known (c : Tree) (p : Path) (d : DirEntry) : Prop :=
  ∀ e, d.known = some e → ∃ s, c.locate p = .found s ∧ c.get s = some e

/- The permissions of a directory are found out without changing anything, and where
that is asked for they are its own. -/
def Asks (exact : Prop) (perm : Path → DirEntry → Sys Nat) : Prop :=
  ∀ {halts calm : Prop} {c : Tree} {p : Path} {d : DirEntry} {E : Errno → World → Prop}, (exact → calm) → Known c p d →
    Ensures halts (Quietly calm (fun t => t = c)) (perm p d)
      (fun m => Quietly calm (fun t => t = c ∧
        (exact → ∀ s e, c.locate p = .found s → c.get s = some e → m = mode e))) E

theorem infoAsked {c : Tree} {p : Path} {d : DirEntry} (known : Known c p d) :
    Ensures halts (Quietly calm (fun t => t = c)) (d.info p)
      (fun e => Quietly calm (fun t => t = c ∧ ∃ s, c.locate p = .found s ∧ c.get s = some e))
      (fun _ => Quietly calm (fun t => t = c ∧ ¬(calm ∧ ∃ s, c.locate p = .found s))) := by
  unfold DirEntry.info
  cases here : d.known with
  | some e =>
    refine ensuresPure ?_
    rintro w ⟨quiet,same⟩
    exact ⟨quiet,same,known e here⟩
  | none =>
    refine ensuresPlanned (fun f quiet => ensuresAsked quiet ?_ ?_ ?_)
    · rintro t e rfl asked
      exact ⟨rfl,lstatSome asked⟩
    · rintro t e rfl asked
      refine ⟨rfl,?_⟩
      rintro ⟨_,s,found⟩
      obtain ⟨e',there⟩ := Option.ne_none_iff_exists'.mp (resolveThere found)
      rw [lstatFound found there] at asked
      contradiction
    · rintro noisy t rfl
      exact ⟨rfl,fun ⟨peace,_⟩ => noisy peace⟩

theorem ownAsks : Asks exact ownPerm := by
  intro halts calm c p d E peace known
  unfold ownPerm
  refine ensuresBind (Q := fun r => Quietly calm (fun t => t = c ∧ (calm → ∀ s e, c.locate p = .found s →
    c.get s = some e → r = .ok e))) ?_ (fun r => ?_)
  · refine ensuresAttempt (ensuresWeaken (infoAsked known) (fun _ before => before) ?_ ?_)
    · rintro e w ⟨quiet,same,s,found,there⟩
      refine ⟨quiet,same,?_⟩
      intro _ s' e' found' there'
      rw [found] at found'
      cases found'
      rw [there] at there'
      cases there'
      rfl
    · rintro e w ⟨quiet,same,never⟩
      exact ⟨quiet,same,fun still s _ found _ => absurd ⟨still,s,found⟩ never⟩
  · cases r with
    | ok info =>
      refine ensuresPure ?_
      rintro w ⟨quiet,same,own⟩
      refine ⟨quiet,same,?_⟩
      intro sure s e found there
      cases own (peace sure) s e found there
      rfl
    | error e =>
      refine ensuresPure ?_
      rintro w ⟨quiet,same,own⟩
      refine ⟨quiet,same,?_⟩
      intro sure s e found there
      cases own (peace sure) s e found there

/- What a step leaves at its target: a directory, or the copy of a file. -/
def Stepped (umask : Nat) (exact : Prop) (c : Tree) (p : Path) (l : Path) : Bool → Tree → Prop
  | true, t => (∀ q, q ≠ l → t.get q = c.get q) ∧ t.isDirAt l = true ∧
    ∃ m, t.get l = (c.get l).or (some (.dir (Os.masked umask m))) ∧
      (exact → ∀ s e, c.locate p = .found s → c.get s = some e → m = mode e)
  | false, t => ∃ s e r, c.locate p = .found s ∧ c.get s = some e ∧ c.follow p = .found r ∧
    Filled c r l (Os.masked umask (mode e)) t

/- When nothing stands in the way of a step. -/
def Possible (c : Tree) (p : Path) (l : Path) : Bool → Prop
  | true => c.get l = none ∨ c.isDirAt l = true
  | false => Readable c p ∧ c.isDirAt l = false ∧ ∃ s, c.locate p = .found s

def Stalled (calm : Prop) (c : Tree) (p : Path) (l : Path) (isDir : Bool) (t : Tree) : Prop :=
  Spares l c t ∧ ¬(calm ∧ Possible c p l isDir)

theorem entrySteps {c : Tree} {src dst x : Path} {n : Name} {t : Path} {d : DirEntry} (asks : Asks exact perm)
    (peace : exact → calm) (named : ∀ m ∈ dst ++ x ++ [n], Plain m) (found : c.follow (dst ++ x) = .found (t ++ x))
    (inside : c.isDirAt (t ++ x) = true) (solid : c.isLinkAt (t ++ x ++ [n]) = false)
    (known : Known c (src ++ (x ++ [n])) d) :
    Ensures halts (Quietly calm (fun t' => t' = c)) (copyEntry umask perm src dst (src ++ (x ++ [n])) d)
      (fun _ => Quietly calm (Stepped umask exact c (src ++ (x ++ [n])) (t ++ x ++ [n]) d.isDir))
      (fun _ => Quietly calm (Stalled calm c (src ++ (x ++ [n])) (t ++ x ++ [n]) d.isDir)) := by
  have target : clean (dst ++ rel src (src ++ (x ++ [n]))) = dst ++ x ++ [n] := by
    rw [rel,List.drop_left,← List.append_assoc]
    exact cleanNamed named
  have still : Spares (t ++ x ++ [n]) c c := fun _ _ here _ => here
  unfold copyEntry
  rw [target]
  dsimp only
  cases kind : d.isDir with
  | true =>
    rw [if_pos rfl]
    refine ensuresBind (asks peace known) (fun m => ?_)
    refine ensuresPlanned (fun f quiet => ensuresChanged quiet ?_ ?_ ?_)
    · rintro t1 u t2 ⟨rfl,own⟩ made
      obtain ⟨same,new,dir⟩ := mkdirAllBelow named found inside solid (plainlyOk.mp made)
      exact ⟨same,dir,m,new,own⟩
    · rintro t1 e ⟨rfl,own⟩ made
      refine ⟨still,?_⟩
      rintro ⟨_,place⟩
      obtain ⟨t',ok⟩ := mkdirAllWorks (Os.masked umask m) (named n (by simp)) found inside place
      rw [plainlyError.mp made] at ok
      contradiction
    · rintro noisy fault t1 ⟨rfl,_⟩
      exact ⟨keepsSpares (Os.mkdirHalfKeeps _ _ _) _,fun works => noisy works.1⟩
  | false =>
    rw [if_neg (by simp)]
    refine ensuresBind (ensuresWeaken (infoAsked known) (fun _ before => before) (fun _ _ after => after) ?_)
      (fun e => ?_)
    · rintro e w ⟨quiet,same,never⟩
      refine ⟨quiet,?_,?_⟩
      · rw [same]
        exact still
      · rintro ⟨still',_,_,s,found'⟩
        exact never ⟨still',s,found'⟩
    · refine ensuresFix ?_
      rintro c' ⟨rfl,s,located,there⟩
      refine ensuresWeaken (copyFileFills named found inside solid) (fun _ before => before) ?_ ?_
      · rintro u w ⟨quiet,r,leads,filled⟩
        exact ⟨quiet,s,e,r,located,there,leads,filled⟩
      · rintro e' w ⟨quiet,spares,never⟩
        refine ⟨quiet,spares,?_⟩
        rintro ⟨still',readable,file,_⟩
        exact never ⟨still',readable,file⟩

theorem solidIff {c : Tree} {l : Path} : c.isLinkAt l = false ↔ ∀ target, c.get l ≠ some (.link target) := by
  rw [Bool.eq_false_iff,ne_eq,isLinkAtIff]
  simp

theorem steppedOnly {c t : Tree} {p l : Path} {isDir : Bool} (stepped : Stepped umask exact c p l isDir t) :
    (∀ q, q ≠ l → t.get q = c.get q) ∧ t.isLinkAt l = false ∧ (c.isLinkAt l = false → Grows c t) := by
  cases isDir with
  | true =>
    obtain ⟨same,dir,m,new,_⟩ := stepped
    refine ⟨same,?_,?_⟩
    · exact dirSolid dir
    · intro _ q e here
      by_cases at' : q = l
      · subst at'
        rw [here] at new
        exact ⟨e,new,alikeSelf e⟩
      · exact ⟨e,(same q at').trans here,alikeSelf e⟩
  | false =>
    obtain ⟨s,e0,r,_,_,_,same,mode,data,new,old,_⟩ := stepped
    refine ⟨same,by simp [Tree.isLinkAt,new,Entry.isLink],?_⟩
    intro _ q e here
    by_cases at' : q = l
    · subst at'
      rcases old with ⟨data',there⟩ | ⟨free,_⟩
      · rw [here] at there
        cases there
        exact ⟨_,new,rfl⟩
      · rw [free] at here
        contradiction
    · exact ⟨e,(same q at').trans here,alikeSelf e⟩

/- The copy has only worked below its target, where there are no links. -/
structure Held (o : Tree) (t : Path) (c : Tree) : Prop where
  grows : Grows o c
  outside : ∀ q, ¬t <+: q → c.get q = o.get q
  solid : ∀ x, c.isLinkAt (t ++ x) = false

/- All that was there outside the target still is. -/
def Kept (o : Tree) (t : Path) (c : Tree) : Prop := ∀ q e, o.get q = some e → ¬t <+: q → c.get q = some e

theorem heldKept {o c : Tree} {t : Path} (held : Held o t c) : Kept o t c :=
  fun q _ here apart => (held.outside q apart).trans here

theorem keptSpares {o c c' : Tree} {t x : Path} (held : Held o t c) (spares : Spares (t ++ x) c c') : Kept o t c' := by
  intro q e here apart
  refine spares q e ((held.outside q apart).trans here) ?_
  rintro rfl
  exact apart (List.prefix_append _ _)

theorem heldStepped {o c c' : Tree} {t x : Path} {p : Path} {isDir : Bool} (held : Held o t c)
    (stepped : Stepped umask exact c p (t ++ x) isDir c') : Held o t c' := by
  obtain ⟨same,solid,grows⟩ := steppedOnly stepped
  refine ⟨growsTrans held.grows (grows (held.solid x)),?_,?_⟩
  · intro q apart
    rw [same q (by rintro rfl; exact apart (List.prefix_append _ _))]
    exact held.outside q apart
  · intro y
    by_cases here : t ++ y = t ++ x
    · rw [here]
      exact solid
    · rw [Tree.isLinkAt,same _ here]
      exact held.solid y

theorem followInside {c : Tree} {dst : List Name} {t x : Path} (found : c.follow dst = .found t)
    (inside : c.isDirAt (t ++ x) = true) : c.follow (dst ++ x) = .found (t ++ x) := by
  cases x with
  | nil => simpa using found
  | cons n x => exact followBelow found (by simp) (dirThere inside) (dirSolid inside)

theorem readDirNames {c : Tree} {p : Path} {dirs : List (Name × Bool)} (listed : c.readDir p = .ok dirs) :
    ∃ l, c.follow p = .found l ∧ c.isDirAt l = true ∧ dirs = (c.names l).map (fun n => (n,c.isDirAt (l ++ [n]))) := by
  unfold Tree.readDir at listed
  split at listed <;> try contradiction
  rename_i l found
  split at listed <;> try contradiction
  rename_i dir
  cases listed
  exact ⟨l,found,dir,rfl⟩

/- What every round of a loop over a directory keeps, the loop keeps. -/
theorem entriesHeld {walk : Path → DirEntry → Sys Unit} {p : Path} {P F : Tree → Prop} (fails : ∀ c, P c → F c)
    (round : ∀ n b, Plain n → Ensures False (Quietly calm P) (walk (p ++ [n]) ⟨b,none⟩) (fun _ => Quietly calm P)
      (fun _ => Quietly calm F)) :
    Ensures False (Quietly calm P) (walkEntries walk p) (fun _ => Quietly calm P) (fun _ => Quietly calm F) := by
  unfold walkEntries
  refine ensuresPlanned (fun f quiet => ensuresBind (Q := fun dirs => Quietly calm (fun c => P c ∧
    ∀ d1 ∈ dirs, Plain d1.1)) ?_ (fun dirs => ?_))
  · refine ensuresAsked quiet ?_ (fun c _ held _ => fails c held) (fun _ c held => fails c held)
    intro c dirs held listed
    refine ⟨held,?_⟩
    obtain ⟨l,_,_,rfl⟩ := readDirNames listed
    intro d1 mem
    obtain ⟨n,inside,rfl⟩ := List.mem_map.mp mem
    exact getNamed (memNames.mp inside) n (by simp)
  · refine ensuresFix ?_
    rintro c ⟨held,plain⟩
    refine ensuresStronger (ensuresEach (I := fun _ => Quietly calm P) ?_) ?_
    · rintro before ⟨n,b⟩ after split
      exact round n b (plain (n,b) (by simp [split]))
    · rintro w ⟨quiet,rfl⟩
      exact ⟨quiet,held⟩

/- A loop with a round that never ends does not end either. -/
theorem entriesNever {walk : Path → DirEntry → Sys Unit} {p : Path} {n : Name} {P F : Tree → Prop}
    (fails : ∀ c, P c → F c) (lists : ∀ c, P c → ∃ l, c.follow p = .found l ∧ c.isDirAt (l ++ [n]) = true)
    (others : ∀ m b, Plain m → Ensures False (Quietly calm P) (walk (p ++ [m]) ⟨b,none⟩) (fun _ => Quietly calm P)
      (fun _ => Quietly calm F))
    (never : Ensures False (Quietly calm P) (walk (p ++ [n]) ⟨true,none⟩) (fun _ _ => False) (fun _ => Quietly calm F)) :
    Ensures False (Quietly calm P) (walkEntries walk p) (fun _ _ => False) (fun _ => Quietly calm F) := by
  unfold walkEntries
  refine ensuresPlanned (fun f quiet => ensuresBind (Q := fun dirs => Quietly calm (fun c => P c ∧ (n,true) ∈ dirs ∧
    ∀ d1 ∈ dirs, Plain d1.1)) ?_ (fun dirs => ?_))
  · refine ensuresAsked quiet ?_ (fun c _ held _ => fails c held) (fun _ c held => fails c held)
    intro c dirs held listed
    obtain ⟨l,found,inside⟩ := lists c held
    obtain ⟨l',found',_,rfl⟩ := readDirNames listed
    rw [found] at found'
    cases found'
    refine ⟨held,?_,?_⟩
    · refine List.mem_map.mpr ⟨n,memNames.mpr (dirThere inside),?_⟩
      rw [inside]
    · intro d1 mem
      obtain ⟨m,there,rfl⟩ := List.mem_map.mp mem
      exact getNamed (memNames.mp there) m (by simp)
  · refine ensuresFix ?_
    rintro c ⟨held,mem,plain⟩
    refine ensuresWeaken (ensuresEach (I := fun before w => Quietly calm P w ∧ (n,true) ∉ before) ?_) ?_ ?_
      (fun _ _ failed => failed)
    · rintro before ⟨m,b⟩ after split
      by_cases here : (m,b) = (n,true)
      · cases here
        exact ensuresWeaken never (fun _ held => held.1) (fun _ _ held => held.elim) (fun _ _ failed => failed)
      · refine ensuresWeaken (P := fun w => Quietly calm P w ∧ (n,true) ∉ before) (Q := fun _ w => Quietly calm P w ∧
          (n,true) ∉ before) ?_ (fun _ held => held) ?_ (fun _ _ failed => failed)
        · intro w ⟨start,apart⟩
          have kept := others m b (plain (m,b) (by simp [split])) w start
          cases ran : walk (p ++ [m]) ⟨b,none⟩ w with
          | none => exact id
          | some result =>
            obtain ⟨r,w'⟩ := result
            rw [ran] at kept
            cases r with
            | error e => exact kept
            | ok u => exact ⟨kept,apart⟩
        · intro _ w ⟨start,apart⟩
          exact ⟨start,by simp [apart,Ne.symm here]⟩
    · rintro w ⟨quiet,rfl⟩
      exact ⟨⟨quiet,held⟩,by simp⟩
    · exact fun _ w ⟨_,apart⟩ => absurd mem apart

/- What the walk keeps of a directory of the target. -/
def Entered (o : Tree) (t x : Path) (c : Tree) : Prop := Held o t c ∧ c.isDirAt (t ++ x) = true

theorem enteredAbove {o c : Tree} {t x : Path} {n : Name} (entered : Entered o t (x ++ [n]) c) : Entered o t x c := by
  have above := dirAbove entered.2
  rw [← List.append_assoc,List.dropLast_concat] at above
  exact ⟨entered.1,above⟩

section Targeted
variable {o : Tree} {src dst t : Path}

theorem entryHolds (asks : Asks False perm) (found : o.follow dst = .found t) (named : ∀ m ∈ dst, Plain m) {x : Path}
    {n : Name} {b : Bool} (plain : ∀ m ∈ x ++ [n], Plain m) :
    Ensures halts (Quietly calm (Entered o t x)) (copyEntry umask perm src dst (src ++ (x ++ [n])) ⟨b,none⟩)
      (fun _ => Quietly calm (fun c => Entered o t x c ∧ (b = true → Entered o t (x ++ [n]) c)))
      (fun _ => Quietly calm (Kept o t)) := by
  refine ensuresFix ?_
  rintro c ⟨held,inside⟩
  have below : c.follow (dst ++ x) = .found (t ++ x) := followInside (followGrows held.grows found) inside
  have names : ∀ m ∈ dst ++ x ++ [n], Plain m := by
    intro m mem
    rw [List.append_assoc] at mem
    rcases List.mem_append.mp mem with first | second
    · exact named m first
    · exact plain m second
  have solid : c.isLinkAt (t ++ x ++ [n]) = false := List.append_assoc t x [n] ▸ held.solid (x ++ [n])
  refine ensuresWeaken (entrySteps asks False.elim names below inside solid nofun) (fun _ before => before) ?_ ?_
  · rintro _ w ⟨quiet,stepped⟩
    rw [List.append_assoc] at stepped
    have held' := heldStepped held stepped
    refine ⟨quiet,⟨held',growsDir ((steppedOnly stepped).2.2 (held.solid _)) inside⟩,?_⟩
    rintro rfl
    exact ⟨held',stepped.2.1⟩
  · rintro _ w ⟨quiet,spares,_⟩
    rw [List.append_assoc] at spares
    exact ⟨quiet,keptSpares held spares⟩

/- Wherever the walk goes, it works below the target. -/
theorem walkHolds (asks : Asks False perm) (found : o.follow dst = .found t) (named : ∀ m ∈ dst, Plain m) :
    ∀ {x : Path} {n : Name} {b : Bool}, (∀ m ∈ x ++ [n], Plain m) →
    Ensures False (Quietly calm (Entered o t x)) (walkDir (copyEntry umask perm src dst) fuel (src ++ (x ++ [n])) ⟨b,none⟩)
      (fun _ => Quietly calm (Entered o t x)) (fun _ => Quietly calm (Kept o t)) := by
  induction fuel with
  | zero => exact fun _ => ensuresDiverge (fun _ _ => id)
  | succ fuel ih =>
    intro x n b plain
    unfold walkDir
    refine ensuresBind (entryHolds asks found named plain) (fun _ => ?_)
    cases b with
    | false =>
      rw [if_neg (by simp)]
      exact ensuresPure (fun _ ⟨quiet,entered,_⟩ => ⟨quiet,entered⟩)
    | true =>
      rw [if_pos rfl]
      -- The rounds keep the directory just entered, and so the one above it.
      refine ensuresWeaken (entriesHeld (P := Entered o t (x ++ [n])) (F := Kept o t) (fun c entered => heldKept entered.1) ?_)
        (fun _ ⟨quiet,_,entered⟩ => ⟨quiet,entered rfl⟩) (fun _ _ ⟨quiet,entered⟩ => ⟨quiet,enteredAbove entered⟩)
        (fun _ _ failed => failed)
      intro m b' name
      rw [List.append_assoc]
      refine ih ?_
      intro k mem
      rcases List.mem_append.mp mem with old | new
      · exact plain k old
      · rw [List.mem_singleton.mp new]
        exact name

/- A copy into its own source goes on for ever: below every directory that it has
entered lies the one that it has made for it. -/
theorem nestedNeverEnds {s z : Path} (asks : Asks False perm) (found : o.follow dst = .found t)
    (source : o.follow src = .found s) (named : ∀ m ∈ dst, Plain m) (nested : t = s ++ z) :
    ∀ {u v : Path} {n : Name} {rest : Path}, z = v ++ n :: rest → z ++ u = u ++ z → (∀ m ∈ u ++ v, Plain m) →
    Ensures False (Quietly calm (Entered o t (u ++ v)))
      (walkEntries (walkDir (copyEntry umask perm src dst) fuel) (src ++ (u ++ v)))
      (fun _ _ => False) (fun _ => Quietly calm (Kept o t)) := by
  have ahead {c : Tree} {u v : Path} {n : Name} {rest : Path} (shape : z = v ++ n :: rest) (turn : z ++ u = u ++ z)
      (entered : Entered o t (u ++ v) c) : c.isDirAt (s ++ (u ++ v) ++ n :: rest) = true := by
    have made : t ++ u = s ++ (u ++ v) ++ n :: rest := by
      rw [nested,List.append_assoc,turn,shape]
      simp
    rw [← made]
    have inside := entered.2
    rw [← List.append_assoc] at inside
    exact dirPrefix inside
  have plainly {u v : Path} {n : Name} (plain : ∀ m ∈ u ++ v, Plain m) (name : Plain n) : ∀ m ∈ (u ++ v) ++ [n], Plain m := by
    intro m mem
    rcases List.mem_append.mp mem with old | new
    · exact plain m old
    · rw [List.mem_singleton.mp new]
      exact name
  have loop {u v : Path} {n : Name} {rest : Path} (shape : z = v ++ n :: rest) (turn : z ++ u = u ++ z)
      (plain : ∀ m ∈ u ++ v, Plain m) {walk : Path → DirEntry → Sys Unit}
      (others : ∀ m b, Plain m → Ensures False (Quietly calm (Entered o t (u ++ v)))
        (walk (src ++ (u ++ v) ++ [m]) ⟨b,none⟩) (fun _ => Quietly calm (Entered o t (u ++ v)))
        (fun _ => Quietly calm (Kept o t)))
      (inner : Ensures False (Quietly calm (Entered o t (u ++ v))) (walk (src ++ (u ++ v) ++ [n]) ⟨true,none⟩)
        (fun _ _ => False) (fun _ => Quietly calm (Kept o t))) :
      Ensures False (Quietly calm (Entered o t (u ++ v))) (walkEntries walk (src ++ (u ++ v))) (fun _ _ => False)
        (fun _ => Quietly calm (Kept o t)) := by
    refine entriesNever (fun c entered => heldKept entered.1) ?_ others inner
    intro c entered
    have inside := ahead shape turn entered
    refine ⟨s ++ (u ++ v),followInside (followGrows entered.1.grows source) (dirPrefix inside),?_⟩
    rw [show s ++ (u ++ v) ++ n :: rest = s ++ (u ++ v) ++ [n] ++ rest by simp] at inside
    exact dirPrefix inside
  induction fuel with
  | zero =>
    intro u v n rest shape turn plain
    exact loop shape turn plain (fun _ _ _ => ensuresDiverge (fun _ _ => id)) (ensuresDiverge (fun _ _ => id))
  | succ fuel ih =>
    intro u v n rest shape turn plain
    refine loop shape turn plain ?_ ?_
    · intro m b name
      rw [List.append_assoc]
      exact walkHolds asks found named (plainly plain name)
    · unfold walkDir
      refine ensuresFix ?_
      intro c entered
      have name : Plain n := getNamed (dirThere (ahead shape turn entered)) n (by simp)
      rw [List.append_assoc]
      refine ensuresBind (ensuresStronger (entryHolds asks found named (plainly plain name)) ?_) (fun _ => ?_)
      · rintro w ⟨quiet,rfl⟩
        exact ⟨quiet,entered⟩
      · rw [if_pos rfl]
        -- At the end of the way down the next turn begins.
        cases rest with
        | nil =>
          have whole : u ++ z ++ [] = u ++ v ++ [n] := by
            rw [shape]
            simp
          obtain ⟨first,more,again⟩ : ∃ first more, z = [] ++ first :: more := by
            cases v with
            | nil => exact ⟨n,[],shape⟩
            | cons first v => exact ⟨first,v ++ [n],by simpa using shape⟩
          have next := ih (u := u ++ z) (v := []) again (by rw [← List.append_assoc,turn]) (by
            rw [whole]
            exact plainly plain name)
          rw [whole] at next
          exact ensuresStronger next (fun _ ⟨quiet,_,entered⟩ => ⟨quiet,entered rfl⟩)
        | cons k rest =>
          have whole : u ++ (v ++ [n]) = u ++ v ++ [n] := by simp
          have next := ih (u := u) (v := v ++ [n]) (n := k) (by simpa using shape) turn (by
            rw [whole]
            exact plainly plain name)
          rw [whole] at next
          exact ensuresStronger next (fun _ ⟨quiet,_,entered⟩ => ⟨quiet,entered rfl⟩)

end Targeted

end ContainerWS.Files
