import ContainerWS.Files.Copied
import ContainerWS.Files.Trash

/-! What the copy in place of a rename brings to a free name. -/
namespace ContainerWS.Files
open GoPath FileTree

/- The target is a copy of the source, and nothing else has changed. -/
structure Brought (umask : Nat) (exact : Prop) (o : Tree) (s t : Path) (c : Tree) : Prop where
  outside : ∀ q, ¬t <+: q → c.get q = o.get q
  copies : ∀ x, Option.Rel (CopyOf umask exact False) (o.get (s ++ x)) (c.get (t ++ x))

theorem apartNe {s t : Path} (apart : ¬s <+: t) : s ≠ t := by
  rintro rfl
  exact apart (List.prefix_refl s)

/- A file or a link has nothing below it. -/
theorem leafBelow {t : Tree} {p x : Path} {e : Entry} (here : t.get p = some e) (leaf : e.isDir = false) (filled : x ≠ []) :
    t.get (p ++ x) = none := by
  by_contra there
  obtain ⟨m,dir⟩ := getAbove there filled
  rw [here] at dir
  cases dir
  contradiction

/- The destination is, or will be, strictly inside the source, and there are no links
at it or below. -/
structure Nested (o : Tree) (src d : List Name) (n : Name) (s q z : Path) : Prop where
  source : o.locate src = .found s
  root : o.isDirAt s = true
  folder : o.follow d = .found q
  inside : o.isDirAt q = true
  named : ∀ m ∈ d ++ [n], Plain m
  below : q ++ [n] = s ++ z
  strict : z ≠ []
  solid : ∀ x, o.isLinkAt (q ++ [n] ++ x) = false

section Inside
variable {o : Tree} {src d : List Name} {n : Name} {s q z : Path} {umask fuel : Nat} {calm : Prop}

theorem nestedSolid (nested : Nested o src d n s q z) : o.isLinkAt (q ++ [n]) = false := by
  have here := nested.solid []
  rwa [List.append_nil] at here

/- Such a copy does not end with success. -/
theorem nestedNever (nested : Nested o src d n s q z) :
    Ensures False (Quietly calm (fun c => c = o)) (CopyDir umask fuel src (d ++ [n])) (fun _ _ => False)
      (fun _ => Quietly calm (Kept o (q ++ [n]))) := by
  obtain ⟨m,here⟩ := isDirAtIff.mp nested.root
  unfold CopyDir
  cases fuel with
  | zero =>
    unfold copyTree WalkDir
    refine ensuresPlanned (fun f quiet => ensuresBind (Q := fun _ => Quietly calm (fun c => c = o)) ?_
      (fun _ => ensuresDiverge (fun _ _ => id)))
    refine ensuresAsked quiet (fun _ _ same _ => same) ?_ ?_
    · rintro c e' rfl asked
      exact fun _ _ here _ => here
    · rintro noisy c rfl
      exact fun _ _ here _ => here
  | succ fuel =>
    refine copyTreeStarts False ownAsks False.elim nested.named nested.source here rfl ?_ ?_
    · intro m o' made _
      obtain ⟨same,_,dir⟩ := mkdirAllBelow nested.named nested.folder nested.inside (nestedSolid nested) made
      have keeps := mkdirAllKeeps made
      have grows := keepsGrows keeps
      have leads := followBelow (followGrows grows nested.folder) (by simp) (dirThere dir) (dirSolid dir)
      have source : o'.follow src = .found s := followGrows grows (followLocated nested.source (dirSolid nested.root))
      obtain ⟨first,rest,shape⟩ := List.exists_cons_of_ne_nil nested.strict
      have loop : Ensures False (Quietly calm (Entered o' (q ++ [n]) ([] ++ [])))
          (walkEntries (walkDir (copyEntry umask ownPerm src (d ++ [n])) fuel) (src ++ ([] ++ [])))
          (fun _ _ => False) (fun _ => Quietly calm (Kept o' (q ++ [n]))) :=
        nestedNeverEnds ownAsks leads source nested.named nested.below (u := []) (v := []) shape (by simp) nofun
      rw [List.append_nil,List.append_nil] at loop
      refine ensuresWeaken loop ?_ (fun _ _ never => never) ?_
      · rintro w ⟨quiet,rfl⟩
        refine ⟨quiet,⟨growsSelf _,fun _ _ => rfl,?_⟩,?_⟩
        · intro x
          by_cases at' : q ++ [n] ++ x = q ++ [n]
          · rw [at']
            exact dirSolid dir
          · rw [Tree.isLinkAt,same _ at']
            exact nested.solid x
        · rw [List.append_nil]
          exact dir
      · rintro _ w ⟨quiet,kept⟩
        exact ⟨quiet,fun r e' there outside => kept r e' (keeps r e' there) outside⟩
    · intro c keeps _
      exact fun r e' there _ => keeps r e' there

end Inside

/- The source of a copy and the free name that it goes to. -/
structure Across (o : Tree) (path d : List Name) (n : Name) (s q : Path) (e : Entry) : Prop where
  source : o.locate path = .found s
  here : o.get s = some e
  folder : o.follow d = .found q
  inside : o.isDirAt q = true
  named : ∀ m ∈ d ++ [n], Plain m
  free : o.get (q ++ [n]) = none

namespace Across
variable {o : Tree} {path d : List Name} {n : Name} {s q : Path} {e : Entry} {umask fuel : Nat}
variable {halts calm exact smooth : Prop}

theorem solid (a : Across o path d n s q e) : o.isLinkAt (q ++ [n]) = false := by
  rw [Tree.isLinkAt,a.free]
  rfl

theorem sourceAbove (a : Across o path d n s q e) : ¬q ++ [n] <+: s := by
  rintro ⟨x,rfl⟩
  have gone := getBelow (q := x) a.free
  rw [a.here] at gone
  contradiction

/- The directory of the target, made. -/
theorem targetMade (a : Across o path d n s q e) {m : Nat} {o' : Tree}
    (made : o.mkdirAll (d ++ [n]) (Os.masked umask m) = .ok o') :
    (∀ r, r ≠ q ++ [n] → o'.get r = o.get r) ∧ o'.get (q ++ [n]) = some (.dir (Os.masked umask m)) ∧
    o'.follow (d ++ [n]) = .found (q ++ [n]) ∧ Grows o o' := by
  obtain ⟨same,new,dir⟩ := mkdirAllBelow a.named a.folder a.inside a.solid made
  rw [a.free] at new
  have keeps := mkdirAllKeeps made
  refine ⟨same,new,?_,keepsGrows keeps⟩
  exact followBelow (followGrows (keepsGrows keeps) a.folder) (by simp) (dirThere dir) (dirSolid dir)

theorem targetWorks (a : Across o path d n s q e) (perm : Nat) : ∃ o', o.mkdirAll (d ++ [n]) perm = .ok o' :=
  mkdirAllWorks _ (a.named n (by simp)) a.folder a.inside (.inl a.free)

theorem targetEmpty (a : Across o path d n s q e) {o' : Tree} (same : ∀ r, r ≠ q ++ [n] → o'.get r = o.get r) {x : Path}
    (filled : x ≠ []) : o'.get (q ++ [n] ++ x) = none := by
  rw [same _ (by simpa using filled)]
  exact getBelow a.free

/- What the copy of a directory starts from once its target has been made. -/
def copying (a : Across o path d n s q e) (dir : e.isDir = true) {o' : Tree}
    (same : ∀ r, r ≠ q ++ [n] → o'.get r = o.get r) {m : Nat} (new : o'.get (q ++ [n]) = some (.dir m))
    (target : o'.follow (d ++ [n]) = .found (q ++ [n])) (grows : Grows o o') (apart : ¬s <+: q ++ [n]) : Copying where
  origin := o'
  src := path
  dst := d ++ [n]
  s := s
  t := q ++ [n]
  source := by
    refine followGrows grows (followLocated a.source ?_)
    rw [Tree.isLinkAt,a.here]
    cases e <;> first | rfl | contradiction
  target := target
  named := a.named
  fits := by
    intro x e' there
    by_cases root : x = []
    · subst root
      rw [List.append_nil,new] at there
      cases there
      rw [List.append_nil,same s (fun same => apart (same ▸ List.prefix_refl _)),a.here]
      cases e <;> first | exact ⟨_,rfl,rfl,rfl⟩ | contradiction
    · rw [targetEmpty a same root] at there
      contradiction
  apart := by
    refine .inl (fun x y same => ?_)
    rcases List.append_eq_append_iff.mp same with ⟨z,target,_⟩ | ⟨z,source,_⟩
    · exact apart ⟨z,target.symm⟩
    · exact sourceAbove a ⟨z,source.symm⟩

/- A copy of a directory that ends has brought all of it. -/
theorem completeBrings (a : Across o path d n s q e) (dir : e.isDir = true) {o' c : Tree}
    (same : ∀ r, r ≠ q ++ [n] → o'.get r = o.get r) {m : Nat} (new : o'.get (q ++ [n]) = some (.dir m))
    (target : o'.follow (d ++ [n]) = .found (q ++ [n])) (grows : Grows o o') (apart : ¬s <+: q ++ [n])
    (complete : (a.copying dir same new target grows apart).Complete umask exact c) : Brought umask exact o s (q ++ [n]) c := by
  have clear (x : Path) : s ++ x ≠ q ++ [n] := fun same => apart ⟨x,same⟩
  refine ⟨?_,?_⟩
  · intro r outside
    rw [complete.held.outside r outside]
    exact same r (apartNe outside).symm
  · intro x
    cases there : o.get (s ++ x) with
    | none =>
      have gone : c.get (q ++ [n] ++ x) = none := by
        by_contra inside
        obtain ⟨e',now⟩ := Option.ne_none_iff_exists'.mp inside
        obtain ⟨e0,source,_⟩ := Copying.targetKind complete now
        have before : o'.get (s ++ x) = some e0 := source
        rw [same _ (clear x),there] at before
        contradiction
      rw [gone]
      exact .none
    | some e0 =>
      have origin : o'.get (s ++ x) = some e0 := (same _ (clear x)).trans there
      obtain ⟨e1,e',source,now,copy⟩ := complete.finished x (Option.ne_none_iff_exists'.mpr ⟨e0,origin⟩)
      have copied : CopyOf umask exact (s = q ++ [n]) e1 e' := copy
      have before : o'.get (s ++ x) = some e1 := source
      have now' : c.get (q ++ [n] ++ x) = some e' := now
      rw [origin] at before
      cases before
      rw [now']
      rw [eq_false (apartNe apart)] at copied
      exact .some copied

/- Where a copy has to succeed nothing below its source is a link, and where it has to
end its fuel is more than the depth of its source. -/
def Easy (o : Tree) (s : Path) : Prop := ∀ x e, o.get (s ++ x) = some e → e.isLink = false

def Within (o : Tree) (s : Path) (bound : Nat) : Prop := ∀ x, o.get (s ++ x) ≠ none → x.length < bound

section Copies
variable (a : Across o path d n s q e) (peace : exact → calm) (still : smooth → calm) (easy : smooth → Easy o s)
  (enough : halts → Within o s fuel)
include a peace still easy enough

theorem dirBrings (dir : e.isDir = true) (apart : ¬s <+: q ++ [n]) :
    Ensures halts (Quietly calm (fun c => c = o)) (CopyDir umask fuel path (d ++ [n]))
      (fun _ => Quietly calm (Brought umask exact o s (q ++ [n])))
      (fun _ => Quietly calm (fun c => Kept o (q ++ [n]) c ∧ ¬smooth)) := by
  unfold CopyDir
  cases fuel with
  | zero =>
    unfold copyTree WalkDir
    have never : ¬halts := by
      intro ends
      have bound := enough ends [] (by simp [a.here])
      simp at bound
    refine ensuresPlanned (fun f quiet => ensuresBind (Q := fun _ => Quietly calm (fun c => c = o)) ?_
      (fun _ => ensuresDiverge (fun _ _ => never)))
    refine ensuresAsked quiet (fun _ _ same _ => same) ?_ ?_
    · rintro c e' rfl asked
      rw [lstatFound a.source a.here] at asked
      contradiction
    · rintro noisy c rfl
      exact ⟨fun _ _ here _ => here,fun sure => noisy (still sure)⟩
  | succ fuel =>
    refine copyTreeStarts exact ownAsks peace a.named a.source a.here dir ?_ ?_
    · intro m o' made own
      obtain ⟨same,new,target,grows⟩ := targetMade a made
      have clear (x : Path) : s ++ x ≠ q ++ [n] := fun same => apart ⟨x,same⟩
      have loop : Ensures halts (Quietly calm (fun c => c = o'))
          (walkEntries (walkDir (copyEntry umask ownPerm path (d ++ [n])) fuel) path)
          (fun _ => Quietly calm ((a.copying dir same new target grows apart).Complete umask exact))
          (fun _ => Quietly calm ((a.copying dir same new target grows apart).Failed smooth)) :=
        Copying.rootCopies (k := a.copying dir same new target grows apart) (m := mode e) ownAsks peace
        (by
          intro sure
          refine ⟨?_,fun x filled => targetEmpty a same filled⟩
          exact (a.copying dir same new target grows apart).apart.resolve_right (apartNe apart))
        still
        (by
          intro sure x e' there
          exact easy sure x e' ((same _ (clear x)).symm.trans there))
        (by
          show o'.get s = some (.dir (mode e))
          have still := clear []
          rw [List.append_nil] at still
          rw [same s still,a.here]
          cases e <;> first | rfl | contradiction)
        (isDirAtIff.mpr ⟨_,new⟩)
        (by
          intro sure
          exact own sure ▸ new)
        (by
          intro ends y there
          refine Nat.le_of_lt_succ (enough ends y ?_)
          rw [← same _ (clear y)]
          exact there)
      refine ensuresWeaken loop (fun _ before => before) ?_ ?_
      · rintro _ w ⟨quiet,complete⟩
        exact ⟨quiet,completeBrings a dir same new target grows apart complete⟩
      · rintro _ w ⟨quiet,kept,rough⟩
        refine ⟨quiet,?_,rough⟩
        intro r e' there outside
        exact kept r e' ((same r (apartNe outside).symm).trans there) outside
    · intro c keeps refused
      refine ⟨fun r e' there _ => keeps r e' there,?_⟩
      intro sure
      obtain ⟨perm,e',failed⟩ := refused (still sure)
      obtain ⟨o',works⟩ := targetWorks a perm
      rw [failed] at works
      contradiction

omit peace enough in
theorem fileBrings (leaf : e.isDir = false) :
    Ensures halts (Quietly calm (fun c => c = o)) (copyFile umask path (d ++ [n]) (mode e))
      (fun _ => Quietly calm (Brought umask exact o s (q ++ [n])))
      (fun _ => Quietly calm (fun c => Kept o (q ++ [n]) c ∧ ¬smooth)) := by
  refine ensuresWeaken (copyFileFills a.named a.folder a.inside a.solid) (fun _ before => before) ?_ ?_
  · rintro _ w ⟨quiet,r,leads,outside,m,data,now,fresh,read⟩
    refine ⟨quiet,?_,?_⟩
    · intro p apart
      exact outside p (apartNe apart).symm
    · intro x
      by_cases root : x = []
      · subst root
        rw [List.append_nil,List.append_nil,a.here,now]
        have own : m = Os.masked umask (mode e) := by
          rcases fresh with ⟨old,there⟩ | ⟨_,own⟩
          · rw [a.free] at there
            contradiction
          · exact own
        cases e with
        | file m0 data0 =>
          have straight := followLocated a.source (by rw [Tree.isLinkAt,a.here]; rfl)
          rw [straight] at leads
          cases leads
          rcases read with ⟨same,_⟩ | ⟨_,m1,there⟩
          · exact absurd (same ▸ List.prefix_refl _) (sourceAbove a)
          · rw [a.here] at there
            cases there
            exact .some (.file (fun _ => own) (fun _ => rfl) False.elim)
        | link target => exact .some (.link (fun _ => own))
        | dir m0 => contradiction
      · rw [leafBelow a.here leaf root,leafBelow now rfl root]
        exact .none
  · rintro _ w ⟨quiet,spares,never⟩
    refine ⟨quiet,?_,?_⟩
    · intro p e' there apart
      exact spares p e' there (apartNe apart).symm
    · intro sure
      have solid := easy sure [] e (by rw [List.append_nil]; exact a.here)
      refine never ⟨still sure,?_,?_⟩
      · cases e with
        | file m data => exact ⟨s,m,data,followLocated a.source (by rw [Tree.isLinkAt,a.here]; rfl),a.here⟩
        | _ => contradiction
      · rw [Tree.isDirAt,a.free]
        rfl

/- The copy of a node to a free name that is not below it. -/
theorem acrossBrings (apart : ¬s <+: q ++ [n]) :
    Ensures halts (Quietly calm (fun c => c = o)) (copyAcross umask fuel e path (d ++ [n]))
      (fun _ => Quietly calm (Brought umask exact o s (q ++ [n])))
      (fun _ => Quietly calm (fun c => Kept o (q ++ [n]) c ∧ ¬smooth)) := by
  unfold copyAcross
  split
  · rename_i dir
    exact dirBrings a peace still easy enough dir apart
  · rename_i leaf
    exact fileBrings a still easy (by simpa using leaf)

end Copies

/- A directory that is copied into itself. -/
theorem acrossNever (a : Across o path d n s q e) (nested : s <+: q ++ [n]) :
    Ensures False (Quietly calm (fun c => c = o)) (copyAcross umask fuel e path (d ++ [n])) (fun _ _ => False)
      (fun _ => Quietly calm (Kept o (q ++ [n]))) := by
  obtain ⟨z,target⟩ := nested
  have strict : z ≠ [] := by
    rintro rfl
    have free := a.free
    rw [← target,List.append_nil,a.here] at free
    contradiction
  have dir : e.isDir = true := by
    cases z using List.reverseRecOn with
    | nil => exact absurd rfl strict
    | append_singleton z m =>
      rw [← List.append_assoc] at target
      have above : q = s ++ z := (List.append_inj' target rfl).1.symm
      obtain ⟨mode,there⟩ := isDirAtIff.mp (dirPrefix (above ▸ a.inside))
      rw [a.here] at there
      cases there
      rfl
  have free {x : Path} : o.isLinkAt (q ++ [n] ++ x) = false := by
    rw [Tree.isLinkAt,getBelow a.free]
    rfl
  have root : o.isDirAt s = true := by
    rw [Tree.isDirAt,a.here]
    exact dir
  unfold copyAcross
  rw [if_pos dir]
  exact nestedNever ⟨a.source,root,a.folder,a.inside,a.named,target.symm,strict,fun _ => free⟩

end Across

end ContainerWS.Files
