import ContainerWS.FileTree

/-! How a path is followed through the symbolic links of a tree: what it leads to,
and that it leads there in every tree that has the same directories and links. -/
namespace FileTree
open GoPath

inductive Trouble where
  | permission
  | crossDevice
  | noSpace
  | io
  deriving DecidableEq, Repr

inductive Errno where
  | notExist
  | exist
  | notDir
  | isDir
  | notEmpty
  | invalid
  | busy
  | loop
  | refused (message : String)
  | trouble (t : Trouble)
  deriving DecidableEq, Repr

/- `os.IsNotExist`. -/
def Errno.isNotExist : Errno → Bool
  | .notExist => true
  | _ => false

inductive Resolution where
  | found (p : Path)
  | missing (p : Path) (rest : List Name)
  | failed (e : Errno)
  deriving DecidableEq, Repr

/- From a directory on along the names. A link is followed by starting again, the
last one only when asked for. -/
def Tree.descend (t : Tree) (again : List Name → Resolution) (last : Bool) : Path → List Name → Resolution
  | p, [] => .found p
  | p, n :: rest =>
    if t.isDirAt p = false then .failed .notDir
    else if n = "" ∨ n = "." then t.descend again last p rest
    else if n = ".." then t.descend again last p.dropLast rest
    else match t.get (p ++ [n]) with
      | none => .missing p (n :: rest)
      | some (.link target) =>
        if rest = [] ∧ last = false then .found (p ++ [n]) else again (raw p target ++ rest)
      | some _ => t.descend again last (p ++ [n]) rest

def Tree.resolve (t : Tree) (last : Bool) : Nat → List Name → Resolution
  | 0, _ => .failed .loop
  | links+1, parts => t.descend (t.resolve last links) last [] parts

/- The number of links that the system follows. -/
def maxLinks : Nat := 40

/- The entry itself, a link as such. -/
def Tree.locate (t : Tree) (parts : List Name) : Resolution := t.resolve false maxLinks parts

/- What the entry leads to. -/
def Tree.follow (t : Tree) (parts : List Name) : Resolution := t.resolve true maxLinks parts

/- The same kind of entry, and the same target of a link. -/
def Entry.alike : Entry → Entry → Bool
  | .file _ _, .file _ _ => true
  | .link a, .link b => a = b
  | .dir _, .dir _ => true
  | _, _ => false

/- Everything is still there, of its kind. -/
def Grows (t t' : Tree) : Prop := ∀ p e, t.get p = some e → ∃ e', t'.get p = some e' ∧ e.alike e' = true

theorem alikeSelf (e : Entry) : e.alike e = true := by cases e <;> simp [Entry.alike]

theorem alikeTrans {a b c : Entry} (first : a.alike b = true) (second : b.alike c = true) : a.alike c = true := by
  cases a <;> cases b <;> try contradiction
  all_goals cases c <;> try contradiction
  all_goals simp_all [Entry.alike]

theorem alikeDir {e : Entry} {mode : Nat} (same : Entry.alike (.dir mode) e = true) : ∃ mode', e = .dir mode' := by
  cases e <;> try contradiction
  exact ⟨_,rfl⟩

theorem alikeFile {e : Entry} {mode : Nat} {data : Bytes} (same : Entry.alike (.file mode data) e = true) :
    ∃ mode' data', e = .file mode' data' := by
  cases e <;> try contradiction
  exact ⟨_,_,rfl⟩

theorem growsSelf (t : Tree) : Grows t t := fun _ e here => ⟨e,here,alikeSelf e⟩

theorem growsTrans {a b c : Tree} (first : Grows a b) (second : Grows b c) : Grows a c := by
  intro p e here
  obtain ⟨e',next,same⟩ := first p e here
  obtain ⟨e'',last,same'⟩ := second p e' next
  exact ⟨e'',last,alikeTrans same same'⟩

theorem growsDir {t t' : Tree} (grows : Grows t t') {p : Path} (dir : t.isDirAt p = true) : t'.isDirAt p = true := by
  obtain ⟨mode,here⟩ := isDirAtIff.mp dir
  obtain ⟨e,there,same⟩ := grows p _ here
  obtain ⟨mode',rfl⟩ := alikeDir same
  exact isDirAtIff.mpr ⟨mode',there⟩

theorem descendStep (t : Tree) (again : List Name → Resolution) (last : Bool) (p : Path) (n : Name) (rest : List Name) :
    t.descend again last p (n :: rest) =
      if t.isDirAt p = false then .failed .notDir
      else if n = "" ∨ n = "." then t.descend again last p rest
      else if n = ".." then t.descend again last p.dropLast rest
      else match t.get (p ++ [n]) with
        | none => .missing p (n :: rest)
        | some (.link target) =>
          if rest = [] ∧ last = false then .found (p ++ [n]) else again (raw p target ++ rest)
        | some _ => t.descend again last (p ++ [n]) rest := rfl

theorem descendGrows {t t' : Tree} (grows : Grows t t') {again again' : List Name → Resolution} {last : Bool}
    (agree : ∀ parts l, again parts = .found l → again' parts = .found l) {parts : List Name} {p l : Path}
    (found : t.descend again last p parts = .found l) : t'.descend again' last p parts = .found l := by
  induction parts generalizing p with
  | nil => exact found
  | cons n rest ih =>
    rw [descendStep] at found ⊢
    split at found <;> try contradiction
    rename_i dir
    rw [Bool.not_eq_false] at dir
    rw [growsDir grows dir,if_neg (by simp)]
    split at found
    · rename_i skip
      rw [if_pos skip]
      exact ih found
    · rename_i name
      rw [if_neg name]
      split at found
      · rename_i up
        rw [if_pos up]
        exact ih found
      · rename_i name'
        rw [if_neg name']
        split at found <;> try contradiction
        · rename_i target here
          obtain ⟨e,there,same⟩ := grows _ _ here
          cases e <;> try contradiction
          rename_i target'
          simp only [Entry.alike,decide_eq_true_eq] at same
          subst same
          rw [there]
          dsimp only
          split at found
          · rename_i stop
            rw [if_pos stop]
            exact found
          · rename_i go
            rw [if_neg go]
            exact agree _ _ found
        · rename_i e plain here
          obtain ⟨e',there,same⟩ := grows _ _ here
          rw [there]
          cases e' with
          | link target =>
            cases e <;> try contradiction
            rename_i target'
            exact (plain _ rfl).elim
          | _ => exact ih found

theorem resolveGrows {t t' : Tree} (grows : Grows t t') {last : Bool} {links : Nat} {parts : List Name} {l : Path}
    (found : t.resolve last links parts = .found l) : t'.resolve last links parts = .found l := by
  induction links generalizing parts l with
  | zero => contradiction
  | succ links ih => exact descendGrows grows (fun _ _ => ih) found

theorem locateGrows {t t' : Tree} (grows : Grows t t') {parts : List Name} {l : Path}
    (found : t.locate parts = .found l) : t'.locate parts = .found l := resolveGrows grows found

theorem followGrows {t t' : Tree} (grows : Grows t t') {parts : List Name} {l : Path}
    (found : t.follow parts = .found l) : t'.follow parts = .found l := resolveGrows grows found

theorem dirAbove {t : Tree} {p : Path} (dir : t.isDirAt p = true) : t.isDirAt p.dropLast = true := by
  cases p using List.reverseRecOn with
  | nil => exact dir
  | append_singleton p n =>
    obtain ⟨mode,here⟩ := isDirAtIff.mp dir
    rw [List.dropLast_concat]
    exact isDirAtIff.mpr (t.above p n _ here)

theorem descendThere {t : Tree} {again : List Name → Resolution} {last : Bool}
    (ends : ∀ parts l, again parts = .found l → t.get l ≠ none) {parts : List Name} {p l : Path}
    (there : t.get p ≠ none) (found : t.descend again last p parts = .found l) : t.get l ≠ none := by
  induction parts generalizing p with
  | nil =>
    cases found
    exact there
  | cons n rest ih =>
    rw [descendStep] at found
    split at found <;> try contradiction
    rename_i dir
    rw [Bool.not_eq_false] at dir
    split at found
    · exact ih there found
    · split at found
      · exact ih (dirThere (dirAbove dir)) found
      · split at found <;> try contradiction
        · rename_i target here
          split at found
          · cases found
            exact Option.ne_none_iff_exists'.mpr ⟨_,here⟩
          · exact ends _ _ found
        · rename_i e plain here
          exact ih (Option.ne_none_iff_exists'.mpr ⟨_,here⟩) found

theorem rootThere (t : Tree) : t.get [] ≠ none := by
  obtain ⟨mode,here⟩ := t.root
  exact Option.ne_none_iff_exists'.mpr ⟨_,here⟩

/- What a path leads to is there. -/
theorem resolveThere {t : Tree} {last : Bool} {links : Nat} {parts : List Name} {l : Path}
    (found : t.resolve last links parts = .found l) : t.get l ≠ none := by
  induction links generalizing parts l with
  | zero => contradiction
  | succ links ih => exact descendThere (fun _ _ => ih) (rootThere t) found

def Tree.isLinkAt (t : Tree) (p : Path) : Bool := (t.get p).any Entry.isLink

theorem isLinkAtIff {t : Tree} {p : Path} : t.isLinkAt p = true ↔ ∃ target, t.get p = some (.link target) := by
  unfold Tree.isLinkAt
  cases t.get p with
  | none => simp
  | some e => cases e <;> simp [Entry.isLink]

theorem dirSolid {t : Tree} {p : Path} (dir : t.isDirAt p = true) : t.isLinkAt p = false := by
  obtain ⟨mode,here⟩ := isDirAtIff.mp dir
  simp [Tree.isLinkAt,here,Entry.isLink]

/- Real directories and a last entry are walked through as they are. -/
theorem descendStraight {t : Tree} {again : List Name → Resolution} {last : Bool} {p rest : List Name}
    (there : t.get (p ++ rest) ≠ none) (ends : last = true → t.isLinkAt (p ++ rest) = false) :
    t.descend again last p rest = .found (p ++ rest) := by
  induction rest generalizing p with
  | nil => rw [List.append_nil]; rfl
  | cons n rest ih =>
    have dir := isDirAtIff.mpr (getAbove there (by simp))
    have plain := getNamed there n (by simp)
    have same : p ++ n :: rest = (p ++ [n]) ++ rest := by simp
    rw [same] at there ends ⊢
    have step := ih there ends
    rw [descendStep,dir,if_neg (by simp),if_neg (by simp [plain.filled,plain.here]),if_neg plain.up]
    split
    · rename_i free
      exact absurd (getBelow free) there
    · rename_i target here
      -- A link has nothing below it, so it is the last one.
      have stop : rest = [] := by
        by_contra more
        obtain ⟨mode,dir'⟩ := getAbove there more
        rw [here] at dir'
        cases dir'
      subst stop
      rw [List.append_nil] at ends ⊢
      have closed : last = false := by
        by_contra open'
        have none := ends (by simpa using open')
        simp [Tree.isLinkAt,here,Entry.isLink] at none
      rw [closed,List.append_nil]
      rfl
    · exact step

theorem descendThrough {t : Tree} {again again' : List Name → Resolution} {last : Bool} {rest : List Name}
    (filled : rest ≠ []) {l : Path}
    (agree : ∀ parts, again parts = .found l → ∃ again'', again' (parts ++ rest) = t.descend again'' last l rest)
    {parts : List Name} {p : Path} (found : t.descend again true p parts = .found l) :
    ∃ again'', t.descend again' last p (parts ++ rest) = t.descend again'' last l rest := by
  induction parts generalizing p with
  | nil =>
    cases found
    exact ⟨again',rfl⟩
  | cons n parts ih =>
    rw [descendStep] at found
    rw [List.cons_append,descendStep]
    split at found <;> try contradiction
    rename_i dir
    rw [if_neg dir]
    split at found
    · rename_i skip
      rw [if_pos skip]
      exact ih found
    · rename_i name
      rw [if_neg name]
      split at found
      · rename_i up
        rw [if_pos up]
        exact ih found
      · rename_i name'
        rw [if_neg name']
        split at found <;> try contradiction
        · rename_i target here
          rw [if_neg (by simp)] at found
          rw [if_neg (by simp [filled]),← List.append_assoc]
          exact agree _ found
        · exact ih found

/- Names after a path that leads somewhere are looked for from there. -/
theorem resolveThrough {t : Tree} (last : Bool) {links : Nat} {parts : List Name} (rest : List Name) {l : Path} (filled : rest ≠ [])
    (found : t.resolve true links parts = .found l) :
    ∃ again, t.resolve last links (parts ++ rest) = t.descend again last l rest := by
  induction links generalizing parts with
  | zero => contradiction
  | succ links ih => exact descendThrough filled (fun parts found => ih found) found

theorem locateBelow {t : Tree} {parts rest : List Name} {l : Path} (found : t.follow parts = .found l)
    (filled : rest ≠ []) (there : t.get (l ++ rest) ≠ none) : t.locate (parts ++ rest) = .found (l ++ rest) := by
  obtain ⟨again,same⟩ := resolveThrough false rest filled found
  exact same.trans (descendStraight there nofun)

theorem followBelow {t : Tree} {parts rest : List Name} {l : Path} (found : t.follow parts = .found l)
    (filled : rest ≠ []) (there : t.get (l ++ rest) ≠ none) (plain : t.isLinkAt (l ++ rest) = false) :
    t.follow (parts ++ rest) = .found (l ++ rest) := by
  obtain ⟨again,same⟩ := resolveThrough true rest filled found
  exact same.trans (descendStraight there (fun _ => plain))

/- What a path that leads nowhere ends with when there is more of it. -/
def Resolution.extend (more : List Name) : Resolution → Resolution
  | .missing q rest => .missing q (rest ++ more)
  | r => r

/- A path that leads nowhere does not lead anywhere with more names behind it. -/
theorem resolveStops {t : Tree} (last : Bool) {links : Nat} {parts : List Name} (more : List Name) {r : Resolution} (filled : more ≠ [])
    (stops : ∀ l, r ≠ .found l) (ends : t.resolve true links parts = r) :
    t.resolve last links (parts ++ more) = r.extend more := by
  have step : ∀ again again' : List Name → Resolution, (∀ parts, again parts = r → again' (parts ++ more) = r.extend more) →
      ∀ parts p, t.descend again true p parts = r → t.descend again' last p (parts ++ more) = r.extend more := by
    intro again again' agree parts
    induction parts with
    | nil => exact fun p ends => absurd ends.symm (stops p)
    | cons n parts ih =>
      intro p ends
      rw [descendStep] at ends
      rw [List.cons_append,descendStep]
      split at ends
      · rename_i dir
        rw [if_pos dir,← ends]
        rfl
      · rename_i dir
        rw [if_neg dir]
        split at ends
        · rename_i skip
          rw [if_pos skip]
          exact ih p ends
        · rename_i name
          rw [if_neg name]
          split at ends
          · rename_i up
            rw [if_pos up]
            exact ih _ ends
          · rename_i name'
            rw [if_neg name']
            split at ends
            · rw [← ends]
              rfl
            · rename_i target here
              rw [if_neg (by simp)] at ends
              rw [if_neg (by simp [filled]),← List.append_assoc]
              exact agree _ ends
            · exact ih _ ends
  induction links generalizing parts with
  | zero =>
    have loop : r = .failed .loop := ends.symm
    rw [loop]
    rfl
  | succ links ih => exact step _ _ (fun _ => ih) parts [] ends

theorem locateName {t : Tree} {d : List Name} {n : Name} {s : Path} (plain : Plain n)
    (found : t.locate (d ++ [n]) = .found s) : ∃ l, t.follow d = .found l ∧ s = l ++ [n] := by
  cases first : t.follow d with
  | found l =>
    obtain ⟨again,through⟩ := resolveThrough false [n] (by simp) first
    have place : t.descend again false l [n] = .found s := through.symm.trans found
    rw [descendStep] at place
    split at place <;> try contradiction
    rw [if_neg (by simp [plain.filled,plain.here]),if_neg plain.up] at place
    refine ⟨l,rfl,?_⟩
    split at place <;> try contradiction
    · rw [if_pos ⟨rfl,rfl⟩] at place
      cases place
      rfl
    · cases place
      rfl
  | missing q rest =>
    have ends := resolveStops false [n] (by simp) (by simp) first
    rw [Tree.locate,ends] at found
    cases found
  | failed e =>
    have ends := resolveStops false [n] (by simp) (by simp) first
    rw [Tree.locate,ends] at found
    cases found

/- When an entry and all that is below it have gone, a path leads where it led, or it
stops in front of that entry. -/
theorem resolveGone {t t' : Tree} {l : Path} {n : Name} (keeps : ∀ q e, t.get q = some e → ¬l ++ [n] <+: q → t'.get q = some e)
    (gone : t'.get (l ++ [n]) = none) {last : Bool} {links : Nat} {parts : List Name} {r : Path}
    (found : t.resolve last links parts = .found r) :
    t'.resolve last links parts = .found r ∨ ∃ rest, t'.resolve last links parts = .missing l (n :: rest) := by
  have step : ∀ again again' : List Name → Resolution, (∀ parts, again parts = .found r →
        again' parts = .found r ∨ ∃ rest, again' parts = .missing l (n :: rest)) →
      ∀ parts p, ¬l ++ [n] <+: p → t.descend again last p parts = .found r →
        t'.descend again' last p parts = .found r ∨ ∃ rest, t'.descend again' last p parts = .missing l (n :: rest) := by
    intro again again' agree parts
    induction parts with
    | nil => exact fun _ _ found => .inl found
    | cons m parts ih =>
      intro p outside found
      rw [descendStep] at found
      rw [descendStep]
      split at found <;> try contradiction
      rename_i dir
      rw [Bool.not_eq_false] at dir
      obtain ⟨mode,above⟩ := isDirAtIff.mp dir
      rw [isDirAtIff.mpr ⟨mode,keeps p _ above outside⟩,if_neg (by simp)]
      split at found
      · rename_i skip
        rw [if_pos skip]
        exact ih p outside found
      · rename_i name
        rw [if_neg name]
        split at found
        · rename_i up
          rw [if_pos up]
          exact ih _ (fun below => outside (below.trans (List.dropLast_prefix p))) found
        · rename_i name'
          rw [if_neg name']
          by_cases here : l ++ [n] <+: p ++ [m]
          · -- The entry that has gone is the next one.
            rcases List.prefix_concat_iff.mp here with same | below
            · obtain ⟨rfl,last⟩ := List.append_inj' same rfl
              simp only [List.cons.injEq,and_true] at last
              subst last
              rw [gone]
              exact .inr ⟨parts,rfl⟩
            · exact absurd below outside
          · split at found <;> try contradiction
            · rename_i target there
              rw [keeps _ _ there here]
              dsimp only
              split at found
              · rename_i stop
                rw [if_pos stop]
                exact .inl found
              · rename_i go
                rw [if_neg go]
                exact agree _ found
            · rename_i e plain there
              rw [keeps _ _ there here]
              cases e with
              | link target => exact (plain _ rfl).elim
              | _ => exact ih _ here found
  induction links generalizing parts with
  | zero => contradiction
  | succ links ih =>
    refine step _ _ (fun _ => ih) parts [] ?_ found
    intro below
    simpa using List.prefix_nil.mp below

theorem missingShape {t : Tree} {last : Bool} {links : Nat} {parts rest : List Name} {q : Path}
    (missing : t.resolve last links parts = .missing q rest) :
    ∃ n more, rest = n :: more ∧ t.isDirAt q = true ∧ t.get (q ++ [n]) = none := by
  have step : ∀ again : List Name → Resolution,
      (∀ parts, again parts = .missing q rest →
        ∃ n more, rest = n :: more ∧ t.isDirAt q = true ∧ t.get (q ++ [n]) = none) →
      ∀ parts p, t.descend again last p parts = .missing q rest →
        ∃ n more, rest = n :: more ∧ t.isDirAt q = true ∧ t.get (q ++ [n]) = none := by
    intro again ends parts
    induction parts with
    | nil => exact fun _ missing => by contradiction
    | cons n parts ih =>
      intro p missing
      rw [descendStep] at missing
      split at missing <;> try contradiction
      rename_i dir
      rw [Bool.not_eq_false] at dir
      split at missing
      · exact ih p missing
      · split at missing
        · exact ih _ missing
        · split at missing
          · rename_i free
            cases missing
            exact ⟨n,parts,rfl,dir,free⟩
          · split at missing <;> try contradiction
            exact ends _ missing
          · exact ih _ missing
  induction links generalizing parts with
  | zero => contradiction
  | succ links ih => exact step _ (fun _ => ih) parts [] missing

/- Following makes a difference only for a link at the end. -/
theorem resolveLast {t : Tree} {links : Nat} {parts : List Name} {r : Resolution}
    (ends : t.resolve false links parts = r) (plain : ∀ l, r = .found l → t.isLinkAt l = false) :
    t.resolve true links parts = r := by
  have step : ∀ again again' : List Name → Resolution, (∀ parts, again parts = r → again' parts = r) →
      ∀ parts p, t.descend again false p parts = r → t.descend again' true p parts = r := by
    intro again again' agree parts
    induction parts with
    | nil => exact fun _ ends => ends
    | cons n parts ih =>
      intro p ends
      rw [descendStep] at ends ⊢
      split at ends
      · rename_i dir
        rw [if_pos dir]
        exact ends
      · rename_i dir
        rw [if_neg dir]
        split at ends
        · rename_i skip
          rw [if_pos skip]
          exact ih p ends
        · rename_i name
          rw [if_neg name]
          split at ends
          · rename_i up
            rw [if_pos up]
            exact ih _ ends
          · rename_i name'
            rw [if_neg name']
            split at ends
            · exact ends
            · rename_i target here
              rw [if_neg (by simp)]
              split at ends
              · have link := plain _ ends.symm
                simp [Tree.isLinkAt,here,Entry.isLink] at link
              · exact agree _ ends
            · exact ih _ ends
  induction links generalizing parts with
  | zero => exact ends
  | succ links ih => exact step _ _ (fun parts => ih) parts [] ends

theorem followLocated {t : Tree} {parts : List Name} {l : Path} (found : t.locate parts = .found l)
    (plain : t.isLinkAt l = false) : t.follow parts = .found l := by
  refine resolveLast found ?_
  intro l' same
  cases same
  exact plain

theorem followMissing {t : Tree} {parts rest : List Name} {q : Path} (missing : t.locate parts = .missing q rest) :
    t.follow parts = .missing q rest := resolveLast missing nofun

/- Where a path is, or will be once what is missing has been made. -/
def Tree.landing (t : Tree) (parts : List Name) : Option Path :=
  match t.locate parts with
  | .found l => some l
  | .missing q rest => some (q ++ rest)
  | .failed _ => none

end FileTree
