import ContainerWS.GoPath
import Mathlib.Data.List.Dedup
import Mathlib.Data.List.Infix
import Mathlib.Data.List.Sort

/-! A file tree as the table of what stands at each path. The directory above an
entry is always there, and a path holds names only. -/
namespace FileTree
open GoPath

abbrev Bytes := List UInt8

inductive Entry where
  | file (mode : Nat) (data : Bytes)
  | link (target : String)
  | dir (mode : Nat)
  deriving DecidableEq, Repr

def Entry.isDir : Entry → Bool
  | .dir _ => true
  | _ => false

def Entry.isLink : Entry → Bool
  | .link _ => true
  | _ => false

structure Tree where
  entries : List (Path × Entry)
  root : ∃ mode, entries.lookup [] = some (.dir mode)
  above : ∀ p n e, entries.lookup (p ++ [n]) = some e → ∃ mode, entries.lookup p = some (.dir mode)
  named : ∀ p n e, entries.lookup (p ++ [n]) = some e → Plain n

def Tree.get (t : Tree) (p : Path) : Option Entry := t.entries.lookup p

/- The name of a path directly below the directory. -/
def childName (p q : Path) : Option Name :=
  match q.getLast? with
  | some n => if q = p ++ [n] then some n else none
  | none => none

/- `os.ReadDir`: the names in a directory, sorted. -/
def Tree.names (t : Tree) (p : Path) : List Name :=
  ((t.entries.filterMap (fun e => childName p e.1)).dedup).mergeSort (fun a b => decide (a ≤ b))

theorem childNameSome {p q : Path} {n : Name} : childName p q = some n ↔ q = p ++ [n] := by
  unfold childName
  split
  · rename_i m last
    split
    · rename_i same
      subst same
      simp
    · rename_i other
      simp only [reduceCtorEq,false_iff]
      intro same
      subst same
      simp only [List.getLast?_append,List.getLast?_singleton,Option.some_or,Option.some.injEq] at last
      exact other (last ▸ rfl)
  · rename_i empty
    rw [List.getLast?_eq_none_iff.mp empty]
    simp

theorem lookupMem {l : List (Path × Entry)} {p : Path} : l.lookup p ≠ none ↔ ∃ e, (p,e) ∈ l := by
  induction l with
  | nil => simp
  | cons head l ih =>
    obtain ⟨q,e⟩ := head
    rw [List.lookup_cons]
    split
    · rename_i same
      simp only [beq_iff_eq] at same
      subst same
      simp
    · rename_i other
      have apart : p ≠ q := by simpa using other
      simp [ih,apart]

theorem getSome {t : Tree} {p : Path} : t.get p ≠ none ↔ ∃ e, (p,e) ∈ t.entries := lookupMem

theorem memNames {t : Tree} {p : Path} {n : Name} : n ∈ t.names p ↔ t.get (p ++ [n]) ≠ none := by
  unfold Tree.names
  rw [List.mem_mergeSort,List.mem_dedup,List.mem_filterMap,getSome]
  constructor
  · rintro ⟨⟨q,e⟩,mem,child⟩
    exact ⟨e,childNameSome.mp child ▸ mem⟩
  · rintro ⟨e,mem⟩
    exact ⟨_,mem,childNameSome.mpr rfl⟩

/- What is above an entry are directories. -/
theorem getAbove {t : Tree} {p : Path} : ∀ {q : Path}, t.get (p ++ q) ≠ none → q ≠ [] → ∃ mode, t.get p = some (.dir mode) := by
  intro q
  induction q using List.reverseRecOn with
  | nil => exact fun _ filled => absurd rfl filled
  | append_singleton q n ih =>
    intro there _
    obtain ⟨e,here⟩ := Option.ne_none_iff_exists'.mp there
    rw [← List.append_assoc] at here
    obtain ⟨mode,parent⟩ := t.above _ n e here
    cases q with
    | nil =>
      rw [List.append_nil] at parent
      exact ⟨mode,parent⟩
    | cons m q =>
      refine ih ?_ (by simp)
      exact Option.ne_none_iff_exists'.mpr ⟨_,parent⟩

theorem getNamed {t : Tree} {p : Path} (there : t.get p ≠ none) : ∀ n ∈ p, Plain n := by
  induction p using List.reverseRecOn with
  | nil => exact nofun
  | append_singleton p n ih =>
    obtain ⟨e,here⟩ := Option.ne_none_iff_exists'.mp there
    obtain ⟨mode,parent⟩ := t.above _ n e here
    have plain := t.named _ n e here
    intro m mem
    rcases List.mem_append.mp mem with before | last
    · exact ih (Option.ne_none_iff_exists'.mpr ⟨_,parent⟩) m before
    · rw [List.mem_singleton.mp last]
      exact plain

theorem getBelow {t : Tree} {p q : Path} (free : t.get p = none) : t.get (p ++ q) = none := by
  cases q with
  | nil => simpa using free
  | cons n q =>
    by_contra there
    obtain ⟨mode,here⟩ := getAbove there (by simp)
    rw [free] at here
    contradiction

def Tree.isDirAt (t : Tree) (p : Path) : Bool := (t.get p).any Entry.isDir

theorem isDirAtIff {t : Tree} {p : Path} : t.isDirAt p = true ↔ ∃ mode, t.get p = some (.dir mode) := by
  unfold Tree.isDirAt
  cases t.get p with
  | none => simp
  | some e => cases e <;> simp [Entry.isDir]

theorem dirThere {t : Tree} {p : Path} (dir : t.isDirAt p = true) : t.get p ≠ none := by
  obtain ⟨mode,here⟩ := isDirAtIff.mp dir
  exact Option.ne_none_iff_exists'.mpr ⟨_,here⟩

theorem dirPrefix {t : Tree} {p q : Path} (dir : t.isDirAt (p ++ q) = true) : t.isDirAt p = true := by
  cases q with
  | nil => rwa [List.append_nil] at dir
  | cons n q => exact isDirAtIff.mpr (getAbove (dirThere dir) (by simp))

/- An entry may stand at a path below a directory, and only a directory in the place
of one. -/
def Tree.fits (t : Tree) (p : Path) (e : Entry) : Bool :=
  match p.getLast? with
  | none => false
  | some n => decide (Plain n) && t.isDirAt p.dropLast && (e.isDir || !t.isDirAt p)

theorem fitsIff {t : Tree} {p : Path} {n : Name} {e : Entry} : t.fits (p ++ [n]) e = true ↔
    Plain n ∧ t.isDirAt p = true ∧ (e.isDir = true ∨ t.isDirAt (p ++ [n]) = false) := by
  simp [Tree.fits,and_assoc]

theorem fitsSplit {t : Tree} {p : Path} {e : Entry} (fits : t.fits p e = true) : ∃ q n, p = q ++ [n] := by
  cases p using List.reverseRecOn with
  | nil => simp [Tree.fits] at fits
  | append_singleton q n => exact ⟨q,n,rfl⟩

theorem lookupPut {l : List (Path × Entry)} {p q : Path} {e : Entry} :
    ((p,e) :: l).lookup q = if q = p then some e else l.lookup q := by
  rw [List.lookup_cons]
  by_cases same : q = p
  · simp [same]
  · simp [same,beq_eq_false_iff_ne.mpr same]

/- A new entry, or a new version of one. -/
def Tree.put (t : Tree) (p : Path) (e : Entry) : Tree :=
  if fits : t.fits p e = true then
    ⟨(p,e) :: t.entries,by
      obtain ⟨q,n,rfl⟩ := fitsSplit fits
      obtain ⟨mode,root⟩ := t.root
      exact ⟨mode,by rw [lookupPut,if_neg (by simp),root]⟩,by
      obtain ⟨q,n,rfl⟩ := fitsSplit fits
      obtain ⟨plain,parent,kind⟩ := fitsIff.mp fits
      obtain ⟨mode,parent⟩ := isDirAtIff.mp parent
      intro r m e' there
      -- The directory above stays one, whether the entry is put there or elsewhere.
      have held : ∃ mode, t.get r = some (.dir mode) := by
        rw [lookupPut] at there
        split at there
        · rename_i same
          rw [(List.append_inj' same rfl).1]
          exact ⟨mode,parent⟩
        · exact t.above r m e' there
      rw [lookupPut]
      split
      · rename_i same
        subst same
        rcases kind with dir | file
        · cases e with
          | dir mode => exact ⟨mode,rfl⟩
          | _ => contradiction
        · rw [isDirAtIff.mpr held] at file
          contradiction
      · exact held,by
      obtain ⟨q,n,rfl⟩ := fitsSplit fits
      obtain ⟨plain,_,_⟩ := fitsIff.mp fits
      intro r m e' there
      rw [lookupPut] at there
      split at there
      · rename_i same
        obtain ⟨_,last⟩ := List.append_inj' same rfl
        simp only [List.cons.injEq,and_true] at last
        exact last ▸ plain
      · exact t.named r m e' there⟩
  else t

theorem getPut {t : Tree} {p q : Path} {e : Entry} (fits : t.fits p e = true) :
    (t.put p e).get q = if q = p then some e else t.get q := by
  unfold Tree.put Tree.get
  rw [dif_pos fits]
  exact lookupPut

/- All names on the way down are kept. -/
def passes (kept : Path → Bool) (p : Path) : Bool := p.inits.all (fun q => q.isEmpty || kept q)

theorem passesIff {kept : Path → Bool} {p : Path} :
    passes kept p = true ↔ ∀ q, q <+: p → q ≠ [] → kept q = true := by
  simp only [passes,List.all_eq_true,List.mem_inits,Bool.or_eq_true,List.isEmpty_iff]
  constructor
  · intro all q before filled
    exact (all q before).resolve_left filled
  · intro all q before
    by_cases filled : q = []
    · exact .inl filled
    · exact .inr (all q before filled)

theorem passesPrefix {kept : Path → Bool} {p q : Path} (before : p <+: q) (passed : passes kept q = true) :
    passes kept p = true :=
  passesIff.mpr (fun r first filled => passesIff.mp passed r (first.trans before) filled)

theorem lookupFilter {l : List (Path × Entry)} {p : Path} {kept : Path → Bool} :
    (l.filter (fun e => kept e.1)).lookup p = if kept p = true then l.lookup p else none := by
  induction l with
  | nil => simp
  | cons head l ih =>
    obtain ⟨q,e⟩ := head
    rw [List.filter_cons]
    split
    · rename_i keep
      rw [lookupPut,lookupPut,ih]
      by_cases same : p = q
      · subst same
        simp [show kept p = true from keep]
      · simp [same]
    · rename_i drop
      rw [lookupPut,ih]
      by_cases same : p = q
      · subst same
        simp [show ¬kept p = true from drop]
      · simp [same]

/- What stays when the other paths go, each with all that is below it. -/
def Tree.restrict (t : Tree) (kept : Path → Bool) : Tree :=
  ⟨t.entries.filter (fun e => passes kept e.1),by
    obtain ⟨mode,root⟩ := t.root
    refine ⟨mode,?_⟩
    rw [lookupFilter,root,if_pos]
    rw [passesIff]
    intro q before filled
    exact absurd (List.prefix_nil.mp before) filled,by
    intro p n e there
    rw [lookupFilter] at there
    split at there <;> try contradiction
    rename_i passed
    obtain ⟨mode,parent⟩ := t.above p n e there
    refine ⟨mode,?_⟩
    rw [lookupFilter,if_pos (passesPrefix (List.prefix_append _ _) passed),parent],by
    intro p n e there
    rw [lookupFilter] at there
    split at there <;> try contradiction
    exact t.named p n e there⟩

theorem getRestrict {t : Tree} {p : Path} {kept : Path → Bool} :
    (t.restrict kept).get p = if passes kept p = true then t.get p else none := lookupFilter

/- The tree without what is at the path and below. -/
def Tree.remove (t : Tree) (p : Path) : Tree := t.restrict (fun q => !p.isPrefixOf q)

theorem getRemove {t : Tree} {p q : Path} :
    (t.remove p).get q = if p <+: q ∧ q ≠ [] then none else t.get q := by
  unfold Tree.remove
  rw [getRestrict]
  have same : passes (fun q => !p.isPrefixOf q) q = true ↔ ¬(p <+: q ∧ q ≠ []) := by
    rw [passesIff]
    constructor
    · rintro all ⟨below,filled⟩
      have gone := all q (List.prefix_refl q) filled
      simp [List.isPrefixOf_iff_prefix.mpr below] at gone
    · intro apart r before filled
      simp only [Bool.not_eq_true',Bool.eq_false_iff,ne_eq,List.isPrefixOf_iff_prefix]
      intro below
      refine apart ⟨below.trans before,?_⟩
      rintro rfl
      exact filled (List.prefix_nil.mp before)
  by_cases gone : p <+: q ∧ q ≠ []
  · rw [if_pos gone,if_neg (same.not.mpr (not_not.mpr gone))]
  · rw [if_neg gone,if_pos (same.mpr gone)]

/- Where a path goes when the first one is renamed to the second. -/
def shift (p q r : Path) : Path := if p.isPrefixOf r then q ++ r.drop p.length else r

theorem shiftBelow (p q r : Path) : shift p q (p ++ r) = q ++ r := by
  unfold shift
  rw [if_pos (List.isPrefixOf_iff_prefix.mpr (List.prefix_append _ _)),List.drop_left]

theorem shiftApart {p q r : Path} (apart : ¬p <+: r) : shift p q r = r := by
  unfold shift
  rw [if_neg (fun below => apart (List.isPrefixOf_iff_prefix.mp below))]

theorem lookupMap {l : List (Path × Entry)} {f : Path → Path} {p q : Path}
    (only : ∀ r e, (r,e) ∈ l → (f r = p ↔ r = q)) :
    (l.map (fun e => (f e.1,e.2))).lookup p = l.lookup q := by
  induction l with
  | nil => rfl
  | cons head l ih =>
    obtain ⟨r,e⟩ := head
    have here := only r e (by simp)
    rw [List.map_cons,lookupPut,lookupPut,ih (fun r e mem => only r e (by simp [mem]))]
    by_cases same : q = r
    · rw [if_pos same,if_pos (here.mpr same.symm).symm]
    · rw [if_neg same,if_neg (fun moved => same (here.mp moved.symm).symm)]

/- The second path is free, below a directory and not below the first. -/
structure Movable (t : Tree) (p q : Path) : Prop where
  filled : p ≠ []
  free : t.get q = none
  apart : ¬p <+: q
  parent : ∃ r n, q = r ++ [n] ∧ Plain n ∧ t.isDirAt r = true

def Tree.movable (t : Tree) (p q : Path) : Bool :=
  !p.isEmpty && (t.get q).isNone && !p.isPrefixOf q &&
  match q.getLast? with
  | none => false
  | some n => decide (Plain n) && t.isDirAt q.dropLast

theorem movableIff {t : Tree} {p q : Path} : t.movable p q = true ↔ Movable t p q := by
  have above : (match q.getLast? with
      | none => false
      | some n => decide (Plain n) && t.isDirAt q.dropLast) = true ↔
      ∃ r n, q = r ++ [n] ∧ Plain n ∧ t.isDirAt r = true := by
    cases q using List.reverseRecOn with
    | nil => simp
    | append_singleton r n =>
      simp only [List.getLast?_append,List.getLast?_singleton,Option.some_or,List.dropLast_concat,
        Bool.and_eq_true,decide_eq_true_eq]
      constructor
      · exact fun held => ⟨r,n,rfl,held⟩
      · rintro ⟨r',n',same,held⟩
        obtain ⟨rfl,last⟩ := List.append_inj' same rfl
        simp only [List.cons.injEq,and_true] at last
        exact last ▸ held
  unfold Tree.movable
  rw [Bool.and_eq_true,above]
  simp only [Bool.and_eq_true,Bool.not_eq_true',List.isEmpty_eq_false_iff,Option.isNone_iff_eq_none]
  constructor
  · rintro ⟨⟨⟨filled,free⟩,apart⟩,parent⟩
    refine ⟨filled,free,?_,parent⟩
    intro below
    rw [List.isPrefixOf_iff_prefix.mpr below] at apart
    contradiction
  · rintro ⟨filled,free,apart,parent⟩
    refine ⟨⟨⟨filled,free⟩,?_⟩,parent⟩
    rw [Bool.eq_false_iff,ne_eq,List.isPrefixOf_iff_prefix]
    exact apart

theorem lookupMove {t : Tree} {p q : Path} (movable : Movable t p q) (r : Path) :
    (t.entries.map (fun e => (shift p q e.1,e.2))).lookup r =
      if q <+: r then t.get (p ++ r.drop q.length) else if p <+: r then none else t.get r := by
  have vacant : ∀ k e, (k,e) ∈ t.entries → ¬q <+: k := by
    rintro k e mem ⟨x,rfl⟩
    exact getSome.mpr ⟨e,mem⟩ (getBelow movable.free)
  split
  · rename_i below
    obtain ⟨x,rfl⟩ := below
    rw [List.drop_left]
    apply lookupMap
    intro k e mem
    by_cases moved : p <+: k
    · obtain ⟨y,rfl⟩ := moved
      rw [shiftBelow,List.append_cancel_left_eq,List.append_cancel_left_eq]
    · rw [shiftApart moved]
      constructor
      · rintro rfl
        exact absurd (List.prefix_append q x) (vacant _ e mem)
      · rintro rfl
        exact absurd (List.prefix_append p x) moved
  · rename_i outside
    split
    · rename_i gone
      by_contra there
      obtain ⟨e,mem⟩ := FileTree.lookupMem.mp there
      obtain ⟨⟨k,e'⟩,inside,same⟩ := List.mem_map.mp mem
      simp only [Prod.mk.injEq] at same
      by_cases moved : p <+: k
      · obtain ⟨y,rfl⟩ := moved
        rw [shiftBelow] at same
        exact outside ⟨y,same.1⟩
      · rw [shiftApart moved] at same
        exact moved (same.1 ▸ gone)
    · rename_i stays
      apply lookupMap
      intro k e mem
      by_cases moved : p <+: k
      · obtain ⟨y,rfl⟩ := moved
        rw [shiftBelow]
        constructor
        · exact fun same => absurd ⟨y,same⟩ outside
        · exact fun same => absurd ⟨y,same⟩ stays
      · rw [shiftApart moved]

/- The entry at the first path, with all that is below it, stands at the second. -/
def Tree.move (t : Tree) (p q : Path) : Tree :=
  if legal : t.movable p q = true then
    ⟨t.entries.map (fun e => (shift p q e.1,e.2)),by
      have movable := movableIff.mp legal
      obtain ⟨r,n,target,_⟩ := movable.parent
      obtain ⟨mode,root⟩ := t.root
      refine ⟨mode,?_⟩
      rw [lookupMove movable,if_neg,if_neg]
      · exact root
      · exact fun below => movable.filled (List.prefix_nil.mp below)
      · intro below
        rw [List.prefix_nil.mp below] at target
        simp at target,by
      have movable := movableIff.mp legal
      obtain ⟨r,n,target,plain,parent⟩ := movable.parent
      obtain ⟨mode,parent⟩ := isDirAtIff.mp parent
      intro s m e there
      rw [lookupMove movable] at there
      rw [lookupMove movable]
      by_cases below : q <+: s
      · obtain ⟨x,rfl⟩ := below
        rw [if_pos ⟨x ++ [m],by simp⟩,List.append_assoc,List.drop_left,← List.append_assoc] at there
        rw [if_pos (List.prefix_append _ _),List.drop_left]
        exact t.above _ m e there
      · have stays : ¬p <+: s := by
          intro gone
          by_cases target' : q <+: s ++ [m]
          · rcases List.prefix_concat_iff.mp target' with same | inside
            · exact movable.apart (same ▸ gone.trans (List.prefix_append _ _))
            · exact below inside
          · rw [if_neg target',if_pos (gone.trans (List.prefix_append _ _))] at there
            contradiction
        rw [if_neg below,if_neg stays]
        by_cases target' : q <+: s ++ [m]
        · rcases List.prefix_concat_iff.mp target' with same | inside
          · rw [target] at same
            exact ⟨mode,(List.append_inj' same rfl).1 ▸ parent⟩
          · exact absurd inside below
        · rw [if_neg target'] at there
          split at there <;> try contradiction
          exact t.above s m e there,by
      have movable := movableIff.mp legal
      obtain ⟨r,n,target,plain,_⟩ := movable.parent
      intro s m e there
      rw [lookupMove movable] at there
      split at there
      · rename_i below
        rcases List.prefix_concat_iff.mp below with same | inside
        · rw [target] at same
          have last := (List.append_inj' same rfl).2
          simp only [List.cons.injEq,and_true] at last
          exact last ▸ plain
        · obtain ⟨x,rfl⟩ := inside
          rw [List.append_assoc,List.drop_left,← List.append_assoc] at there
          exact t.named _ m e there
      · split at there <;> try contradiction
        exact t.named s m e there⟩
  else t

theorem getMove {t : Tree} {p q : Path} (movable : Movable t p q) (r : Path) :
    (t.move p q).get r =
      if q <+: r then t.get (p ++ r.drop q.length) else if p <+: r then none else t.get r := by
  unfold Tree.move Tree.get
  rw [dif_pos (movableIff.mpr movable)]
  exact lookupMove movable r

/- No path is longer than the longest one. -/
def Tree.depth (t : Tree) : Nat := t.entries.foldr (fun e d => max e.1.length d) 0

theorem lengthLe {t : Tree} {p : Path} (there : t.get p ≠ none) : p.length ≤ t.depth := by
  obtain ⟨e,mem⟩ := getSome.mp there
  unfold Tree.depth
  generalize t.entries = l at mem
  induction l with
  | nil => simp at mem
  | cons head l ih =>
    rw [List.foldr_cons]
    rcases List.mem_cons.mp mem with same | rest
    · rw [← same]
      exact Nat.le_max_left _ _
    · exact Nat.le_trans (ih rest) (Nat.le_max_right _ _)

/- Nothing but the root. -/
def Tree.bare : Tree :=
  ⟨[([],.dir 0o755)],⟨_,rfl⟩,by
    intro p n e there
    rw [lookupPut,if_neg (by simp)] at there
    contradiction,by
    intro p n e there
    rw [lookupPut,if_neg (by simp)] at there
    contradiction⟩

end FileTree
