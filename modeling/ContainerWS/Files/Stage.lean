import ContainerWS.Files.Across

/-! MoveToTrash up to the point where the node is in the trash: what an item looks
like then, and that a stage that fails has taken nothing away. -/
namespace ContainerWS.Files
open GoPath FileTree

theorem trashRootNamed (home : Path) : trashRoot home = home ++ [".containerws"] ++ ["trash"] := by
  rw [trashRoot,joinPlain (by decide),joinPlain (by decide)]

theorem trashRootPlain {home : Path} (named : ∀ m ∈ home, Plain m) : ∀ m ∈ trashRoot home, Plain m := by
  rw [trashRootNamed]
  intro m mem
  rcases List.mem_append.mp mem with first | last
  · rcases List.mem_append.mp first with old | middle
    · exact named m old
    · rw [List.mem_singleton.mp middle]
      decide
  · rw [List.mem_singleton.mp last]
    decide

theorem itemDirNamed {home : Path} {id : String} (plain : Plain id) : trashItemDir home id = trashRoot home ++ [id] :=
  joinPlain plain _

theorem infoPathNamed {home : Path} {id : String} (plain : Plain id) :
    trashInfoPath home id = trashRoot home ++ [id] ++ ["info.json"] := by
  rw [trashInfoPath,itemDirNamed plain,joinPlain (by decide)]

theorem contentNamed {home : Path} {id : String} (plain : Plain id) :
    join (trashItemDir home id) "content" = trashRoot home ++ [id] ++ ["content"] := by
  rw [itemDirNamed plain,joinPlain (by decide)]

theorem contentPathNamed {home : Path} {id : String} {n : Name} (plain : Plain id) (name : Plain n) :
    trashContentPath home id n = trashRoot home ++ [id] ++ ["content"] ++ [n] := by
  rw [trashContentPath,contentNamed plain,joinPlain name]

theorem plainConcat {p : Path} {n : Name} (named : ∀ m ∈ p, Plain m) (plain : Plain n) : ∀ m ∈ p ++ [n], Plain m := by
  intro m mem
  rcases List.mem_append.mp mem with old | new
  · exact named m old
  · exact List.mem_singleton.mp new ▸ plain

theorem baseNamed {d : Path} {n : Name} (plain : Plain n) : base (d ++ [n]) = n := by
  rw [base,stripped,List.rdropWhile_concat_neg _ _ _ (by simp [plain.filled])]
  simp

/- No item of the trash has that name yet. -/
def Unused (b : Tree) (home : Path) (id : String) : Prop :=
  ∀ area, b.follow (trashRoot home) = .found area → b.get (area ++ [id]) = none

/- The trash is there, and no item of that name in it. -/
structure Rooted (b b1 : Tree) (home : Path) (id : String) (area : Path) : Prop where
  keeps : Keeps b b1
  only : ∀ q, b1.get q = b.get q ∨ q <+: area
  found : b1.follow (trashRoot home) = .found area
  dir : b1.isDirAt area = true
  fresh : b1.get (area ++ [id]) = none

theorem rootMade {b b1 : Tree} {home : Path} {id : String} {perm : Nat} (named : ∀ m ∈ home, Plain m)
    (unused : Unused b home id) (made : b.mkdirAll (trashRoot home) perm = .ok b1) : ∃ area, Rooted b b1 home id area := by
  obtain ⟨area,found,dir,adds⟩ := mkdirAllMade (trashRootPlain named) made
  refine ⟨area,mkdirAllKeeps made,fun q => (adds q).imp (fun same => same) (fun new => new.2.2),found,dir,?_⟩
  rcases adds (area ++ [id]) with same | ⟨_,_,below⟩
  · rw [same]
    by_contra there
    -- Then nothing has been made, and the trash was where it is now.
    obtain ⟨mode,before⟩ := getAbove there (by simp)
    have still : Keeps b1 b := by
      intro q e here
      rcases adds q with old | ⟨free,_,rest,whole⟩
      · rwa [← old]
      · rw [← whole,getBelow free] at before
        contradiction
    exact there (unused area (followGrows (keepsGrows still) found))
  · simpa using below.length_le

/- The directory of the item is there, with one for its content. -/
structure Opened (b1 o : Tree) (home : Path) (id : String) (area : Path) : Prop where
  outside : ∀ q, ¬area ++ [id] <+: q → o.get q = b1.get q
  content : o.isDirAt (area ++ [id] ++ ["content"]) = true
  only : ∀ y, o.get (area ++ [id] ++ y) ≠ none → y = [] ∨ y = ["content"]
  found : o.follow (trashRoot home ++ [id] ++ ["content"]) = .found (area ++ [id] ++ ["content"])

theorem itemMade {b b1 o : Tree} {home area : Path} {id : String} {perm : Nat} (named : ∀ m ∈ home, Plain m)
    (plain : Plain id) (rooted : Rooted b b1 home id area)
    (made : b1.mkdirAll (trashRoot home ++ [id] ++ ["content"]) perm = .ok o) : Opened b1 o home id area := by
  have word : Plain "content" := by decide
  have empty (y : Path) : b1.get (area ++ [id] ++ y) = none := getBelow rooted.fresh
  obtain ⟨l,found,dir,adds⟩ := mkdirAllMade (plainConcat (plainConcat (trashRootPlain named) plain) word) made
  have grows := addsGrows adds
  have solid (y : Path) : o.isLinkAt (area ++ [id] ++ y) = false := by
    rcases adds (area ++ [id] ++ y) with same | ⟨_,new,_⟩
    · rw [Tree.isLinkAt,same,empty]
      rfl
    · rw [Tree.isLinkAt,new]
      rfl
  have kind {y : Path} (there : o.get (area ++ [id] ++ y) ≠ none) :
      o.isDirAt (area ++ [id] ++ y) = true ∧ area ++ [id] ++ y <+: l := by
    rcases adds (area ++ [id] ++ y) with same | ⟨_,new,below⟩
    · rw [same,empty] at there
      contradiction
    · exact ⟨isDirAtIff.mpr ⟨_,new⟩,below⟩
  have item := followName plain (followGrows grows rooted.found) (growsDir grows rooted.dir)
    (by simpa using solid [])
  split at item
  · have stops := resolveStops true ["content"] (by simp) (by simp) item
    rw [Tree.follow,stops] at found
    contradiction
  rename_i there
  have inside := kind (y := []) (by simpa using there)
  rw [List.append_nil] at inside
  have place := followName word item inside.1 (solid ["content"])
  rw [place] at found
  split at found <;> try contradiction
  cases found
  refine ⟨?_,dir,?_,?_⟩
  · intro q apart
    rcases adds q with same | ⟨free,_,below⟩
    · exact same
    · rcases List.prefix_concat_iff.mp below with whole | upper
      · exact absurd (whole ▸ List.prefix_append _ _) apart
      · rcases List.prefix_concat_iff.mp upper with whole | above
        · exact absurd (whole ▸ List.prefix_refl _) apart
        · obtain ⟨x,shape⟩ := above
          have gone := getBelow (q := x) free
          rw [shape] at gone
          exact absurd gone (dirThere rooted.dir)
  · intro y there
    have below := (kind there).2
    rw [List.prefix_append_right_inj] at below
    rcases List.prefix_concat_iff.mp (show y <+: [] ++ ["content"] from below) with whole | empty
    · exact .inr whole
    · exact .inl (List.prefix_nil.mp empty)
  · rw [place,if_neg (dirThere dir)]

/- The way in which a node has come into the trash decides how close the content of
the item is to it. -/
def Carried (umask : Nat) (exact : Prop) : Way → Option Entry → Option Entry → Prop
  | .renamed, a, b => b = a
  | .copied, a, b => Option.Rel (CopyOf umask exact False) a b

/- The node is in the trash; where it has left its place, nothing is there any more. -/
structure Stowed (umask : Nat) (exact leaves : Prop) (b1 : Tree) (item s : Path) (n : Name) (way : Way) (c : Tree) : Prop where
  apart : ¬s <+: item
  outside : ∀ q, ¬item <+: q → (leaves → ¬s <+: q) → c.get q = b1.get q
  left : leaves → ∀ x, c.get (s ++ x) = none
  content : c.isDirAt (item ++ ["content"]) = true
  only : ∀ y, c.get (item ++ y) ≠ none → y = [] ∨ ["content"] <+: y
  carried : ∀ x, Carried umask exact way (b1.get (s ++ x)) (c.get (item ++ ["content"] ++ [n] ++ x))

/- The end of a stage: where the node was, and what has become of it. -/
structure Staged (umask : Nat) (exact leaves : Prop) (b : Tree) (home : Path) (id : String) (path : Path) (e : Entry) (way : Way)
    (b1 : Tree) (area s : Path) (c : Tree) : Prop where
  rooted : Rooted b b1 home id area
  source : b.locate path = .found s
  here : b.get s = some e
  stowed : Stowed umask exact leaves b1 (area ++ [id]) s (base path) way c

theorem belowApart {s t x : Path} (left : ¬s <+: t) (right : ¬t <+: s) : ¬s <+: t ++ x := by
  intro below
  rcases List.prefix_or_prefix_of_prefix below (List.prefix_append t x) with first | second
  · exact left first
  · exact right second

section Stage
variable {b : Tree} {home path d : Path} {id : String} {n : Name}

section Ready
variable {b1 o : Tree} {area s : Path} {e : Entry} (rooted : Rooted b b1 home id area) (here : b.get s = some e)
include rooted here

theorem itemFree : b1.get s = some e ∧ ¬area ++ [id] <+: s := by
  have there := rooted.keeps s e here
  refine ⟨there,?_⟩
  rintro ⟨x,rfl⟩
  rw [getBelow rooted.fresh] at there
  contradiction

variable (opened : Opened b1 o home id area)
include opened

omit here in
theorem openedKeeps : Keeps b1 o := by
  intro q e' there
  rw [opened.outside q ?_,there]
  rintro ⟨x,rfl⟩
  rw [getBelow rooted.fresh] at there
  contradiction

/- Beside the new content nothing has changed. -/
theorem stowedOf {umask : Nat} {exact leaves : Prop} {way : Way} {c : Tree} (apart : ¬s <+: area ++ [id] ++ ["content"] ++ [n])
    (outside : ∀ q, ¬area ++ [id] ++ ["content"] ++ [n] <+: q → (leaves → ¬s <+: q) → c.get q = o.get q)
    (left : leaves → ∀ x, c.get (s ++ x) = none)
    (carried : ∀ x, Carried umask exact way (o.get (s ++ x)) (c.get (area ++ [id] ++ ["content"] ++ [n] ++ x))) :
    Stowed umask exact leaves b1 (area ++ [id]) s n way c := by
  have clear : ¬s <+: area ++ [id] := fun above => apart (above.trans (by simp))
  have free := (itemFree rooted here).2
  refine ⟨clear,?_,left,?_,?_,?_⟩
  · intro q below gone
    rw [outside q (fun inside => below (List.IsPrefix.trans (by simp) inside)) gone]
    exact opened.outside q below
  · rw [Tree.isDirAt,outside _ ?_ (fun _ => belowApart clear free)]
    · exact opened.content
    · intro above
      have long := above.length_le
      simp at long
  · intro y there
    by_cases inside : area ++ [id] ++ ["content"] ++ [n] <+: area ++ [id] ++ y
    · rw [List.append_assoc,List.prefix_append_right_inj] at inside
      exact .inr (List.IsPrefix.trans (by simp) inside)
    · rw [outside _ inside (fun _ => belowApart clear free)] at there
      rcases opened.only y there with none | one
      · exact .inl none
      · exact .inr (one ▸ List.prefix_refl _)
  · intro x
    have same := opened.outside (s ++ x) (belowApart free clear)
    rw [← same]
    exact carried x

variable (named : ∀ m ∈ home, Plain m) (name : Plain n) (plain : Plain id) (source : b.locate (d ++ [n]) = .found s)
include named name plain source

theorem stageAcross :
    Across o (d ++ [n]) (trashRoot home ++ [id] ++ ["content"]) n s (area ++ [id] ++ ["content"]) e := by
  have keeps := openedKeeps rooted opened
  refine ⟨locateGrows (keepsGrows (keepsTrans rooted.keeps keeps)) source,keeps s e (itemFree rooted here).1,opened.found,
    opened.content,?_,?_⟩
  · exact plainConcat (plainConcat (plainConcat (trashRootPlain named) plain) (by decide)) name
  · by_contra there
    rw [List.append_assoc] at there
    rcases opened.only _ there with none | one
    · simp at none
    · simp at one

end Ready

/- A rename into the trash, tried. -/
theorem renameTried {halts calm : Prop} {E : Errno → World → Prop} {o : Tree} {q : Path} {s : Path} {e : Entry} {f : Option Fault}
    (a : Across o path d n s q e) (filled : s ≠ []) :
    Ensures halts (Quietly calm (fun c => c = o)) (Sys.attempt (Os.rename f path (d ++ [n])))
      (fun r => Quietly calm (Tried
        (fun _ c => ¬s <+: q ++ [n] ∧ c = o.move s (q ++ [n]) ∧ Movable o s (q ++ [n]) ∧ f = none)
        (fun c => c = o ∧ (f = none → s <+: q ++ [n])) r)) E := by
  have target := locateFree (a.named n (by simp)) a.folder a.inside a.free
  have same := renameNew a.source target (a.named n (by simp)) filled
  refine ensuresTried (ensuresTurned ?_ ?_ ?_)
  · rintro t _ t' clear rfl made
    have made := plainlyOk.mp made
    rw [same] at made
    split at made <;> try contradiction
    rename_i apart
    cases made
    exact ⟨apart,rfl,movableNew target filled apart (a.named n (by simp)),clear⟩
  · rintro t e clear rfl failed
    have failed := plainlyError.mp failed
    rw [same] at failed
    split at failed <;> try contradiction
    exact ⟨rfl,fun _ => by assumption⟩
  · rintro fault t met rfl
    refine ⟨rfl,?_⟩
    intro clear
    rw [clear] at met
    contradiction

/- A clean-up removes some of what its path leads to, or nothing. -/
theorem cleanupPrunes {halts calm : Prop} {E : Errno → World → Prop} {c : Tree} (cleanup : Option Fault) (parts : List Name) :
    Ensures halts (Quietly calm (fun t => t = c)) (Sys.attempt (Os.removeAll cleanup parts))
      (fun _ => Quietly calm (Pruned parts c)) E := by
  refine ensuresAttempt (ensuresMet ?_ ?_ ?_)
  · rintro t _ t' _ rfl result
    have prunes := removeAllPrunes t parts
    rwa [result] at prunes
  · rintro t e t' _ rfl result
    have prunes := removeAllPrunes t parts
    rwa [result] at prunes
  · rintro fault t _ rfl
    exact removeSomePrunes t _ _

/- The removal of an item takes nothing of what was there before it. -/
theorem prunedKeeps {b1 c c' : Tree} {area : Path} (plain : Plain id) (found : b1.follow (trashRoot home) = .found area)
    (fresh : b1.get (area ++ [id]) = none) (keeps : Keeps b1 c) (cut : Pruned (trashItemDir home id) c c') : Keeps b1 c' := by
  intro q e here
  rcases cut q with same | ⟨_,l,located,below⟩
  · rw [same]
    exact keeps q e here
  · rw [itemDirNamed plain] at located
    obtain ⟨area',found',rfl⟩ := locateName plain located
    rw [followGrows (keepsGrows keeps) found] at found'
    cases found'
    obtain ⟨x,rfl⟩ := below
    rw [getBelow fresh] at here
    contradiction

theorem cleanupKeeps {halts calm : Prop} {E : Errno → World → Prop} {f : Option Fault} {b1 : Tree} {area : Path} (plain : Plain id)
    (found : b1.follow (trashRoot home) = .found area) (fresh : b1.get (area ++ [id]) = none) :
    Ensures halts (Quietly calm (Keeps b1)) (Sys.attempt (Os.removeAll f (trashItemDir home id)))
      (fun _ => Quietly calm (Keeps b1)) E := by
  refine ensuresFix (fun c keeps => ensuresWeaken (cleanupPrunes f _) (fun _ before => before) ?_ (fun _ _ failed => failed))
  exact fun _ w ⟨quiet,cut⟩ => ⟨quiet,prunedKeeps plain found fresh keeps cut⟩

section Ends
variable (p : Setting) (f : MoveFaults) (fuel : Nat) {calm exact : Prop} (peace : exact → calm)
  (named : ∀ m ∈ home, Plain m) (plain : Plain id) (names : ∀ m ∈ path, Plain m) (unused : Unused b home id)
include peace named plain

/- The copy in place of the rename, and what is cleaned up when it fails. -/
theorem copyStages {b1 o : Tree} {area s : Path} {e : Entry} (path' : ∀ m ∈ d ++ [n], Plain m)
    (rooted : Rooted b b1 home id area) (here : b.get s = some e) (opened : Opened b1 o home id area)
    (source : b.locate (d ++ [n]) = .found s) (blocked : f.rename = none → s <+: area ++ [id] ++ ["content"] ++ [n]) :
    Ensures False (Quietly calm (fun c => c = o))
      (do match ← Sys.attempt (copyAcross p.umask fuel e (d ++ [n]) (trashContentPath home id n)) with
        | .ok _ => pure (e,Way.copied)
        | .error cerr =>
          let _ ← Sys.attempt (Os.removeAll f.cleanup (trashItemDir home id))
          Sys.fail cerr)
      (fun r => Quietly calm (fun c => r.1 = e ∧ r.2 = .copied ∧ f.rename ≠ none ∧
        Stowed p.umask exact False b1 (area ++ [id]) s n .copied c))
      (fun _ => Quietly calm (Keeps b)) := by
  have name := path' n (by simp)
  have a := stageAcross rooted here opened named name plain source
  rw [contentPathNamed plain name]
  have keeps {c : Tree} (kept : Kept o (area ++ [id] ++ ["content"] ++ [n]) c) : Keeps b1 c := by
    intro q e' there
    refine kept q e' (openedKeeps rooted opened q e' there) ?_
    rintro ⟨x,rfl⟩
    rw [List.append_assoc,List.append_assoc,getBelow rooted.fresh] at there
    contradiction
  refine ensuresBind (Q := fun r => Quietly calm (Tried (fun _ c => f.rename ≠ none ∧
    Stowed p.umask exact False b1 (area ++ [id]) s n .copied c) (Keeps b1) r)) ?_ (fun r => ?_)
  · refine ensuresTried ?_
    by_cases apart : s <+: area ++ [id] ++ ["content"] ++ [n]
    · exact ensuresWeaken (a.acrossNever apart) (fun _ before => before) (fun _ _ never => never.elim)
        (fun _ _ ⟨quiet,kept⟩ => ⟨quiet,keeps kept⟩)
    · have easy : False → Across.Easy o s := False.elim
      have enough : False → Across.Within o s fuel := False.elim
      refine ensuresWeaken (a.acrossBrings peace False.elim easy enough apart) (fun _ before => before) ?_ (fun _ _ ⟨quiet,kept,_⟩ => ⟨quiet,keeps kept⟩)
      rintro _ w ⟨quiet,brought⟩
      refine ⟨quiet,fun clear => apart (blocked clear),?_⟩
      exact stowedOf rooted here opened apart (fun q outside _ => brought.outside q outside) False.elim brought.copies
  · cases r with
    | ok _ => exact ensuresPure (fun w ⟨quiet,met,stowed⟩ => ⟨quiet,rfl,rfl,met,stowed⟩)
    | error cerr =>
      refine ensuresBind (cleanupKeeps plain rooted.found rooted.fresh) (fun _ => ensuresFail ?_)
      exact fun w ⟨quiet,kept⟩ => ⟨quiet,keepsTrans rooted.keeps kept⟩

include names unused

/- A stage that fails has left everything where it was, whatever has gone wrong. -/
theorem stageEnds :
    Ensures False (Quietly calm (fun c => c = b)) (stageTrash p f fuel home id path)
      (fun r => Quietly calm (fun c => (r.2 = .renamed ↔ f.rename = none) ∧
        ∃ b1 area s, Staged p.umask exact (r.2 = .renamed) b home id path r.1 r.2 b1 area s c))
      (fun _ => Quietly calm (Keeps b)) := by
  have self : Keeps b b := fun _ _ here => here
  unfold stageTrash
  refine ensuresBind (Q := fun e => Quietly calm (fun c => c = b ∧ b.lstat path = .ok e)) ?_ (fun e => ?_)
  · refine ensuresInquired ?_ ?_ ?_
    · rintro t e _ rfl asked
      exact ⟨rfl,asked⟩
    · rintro t e _ rfl _
      exact self
    · rintro fault t _ rfl
      exact self
  split
  · exact ensuresFail (fun w ⟨quiet,same,_⟩ => ⟨quiet,same.symm ▸ self⟩)
  rename_i filled
  split
  · exact ensuresFail (fun w ⟨quiet,same,_⟩ => ⟨quiet,same.symm ▸ self⟩)
  obtain ⟨d,n,rfl⟩ : ∃ d n, path = d ++ [n] := by
    cases path using List.reverseRecOn with
    | nil => exact absurd rfl filled
    | append_singleton d n => exact ⟨d,n,rfl⟩
  have name := names n (by simp)
  rw [baseNamed name,contentNamed plain]
  refine ensuresFix ?_
  rintro b' ⟨rfl,asked⟩
  obtain ⟨s,source,here⟩ := lstatSome asked
  -- The trash and the directory of the item.
  refine ensuresBind (Q := fun _ => Quietly calm (fun c => ∃ area, Rooted b' c home id area)) ?_ (fun _ => ?_)
  · refine ensuresTurned ?_ ?_ ?_
    · rintro t _ t' _ rfl made
      exact rootMade named unused (plainlyOk.mp made)
    · rintro t e' _ rfl _
      exact self
    · rintro fault t _ rfl
      exact Os.mkdirHalfKeeps _ _ _
  refine ensuresFix ?_
  rintro b1 ⟨area,rooted⟩
  refine ensuresBind (Q := fun _ => Quietly calm (fun c => Opened b1 c home id area)) ?_ (fun _ => ?_)
  · refine ensuresTurned ?_ ?_ ?_
    · rintro t _ t' _ rfl made
      exact itemMade named plain rooted (plainlyOk.mp made)
    · rintro t e' _ rfl _
      exact rooted.keeps
    · rintro fault t _ rfl
      exact keepsTrans rooted.keeps (Os.mkdirHalfKeeps _ _ _)
  refine ensuresFix ?_
  intro o opened
  have a := stageAcross rooted here opened named name plain source
  have nonempty : s ≠ [] := by
    obtain ⟨l,_,rfl⟩ := locateName name source
    simp
  dsimp only
  have tried : Ensures False (Quietly calm (fun c => c = o)) (Sys.attempt (Os.rename f.rename _ _)) _
      (fun _ => Quietly calm (Keeps b')) := renameTried a nonempty
  rw [← contentPathNamed plain name] at tried
  refine ensuresBind tried (fun r => ?_)
  · cases r with
    | ok _ =>
      refine ensuresPure ?_
      rintro w ⟨quiet,apart,moved,movable,clear⟩
      refine ⟨quiet,⟨fun _ => clear,fun _ => rfl⟩,b1,area,s,rooted,source,here,?_⟩
      rw [baseNamed name,moved]
      have gets := getMove movable
      refine stowedOf rooted here opened apart ?_ ?_ ?_
      · intro q outside gone
        rw [gets,if_neg outside,if_neg (gone rfl)]
      · intro _ x
        rw [gets,if_neg (belowApart (Across.sourceAbove a) apart),if_pos (List.prefix_append _ _)]
      · intro x
        rw [gets,if_pos (List.prefix_append _ _),List.drop_left]
        rfl
    | error _ =>
      refine ensuresFix ?_
      rintro o' ⟨rfl,blocked⟩
      refine ensuresWeaken (copyStages p f fuel peace named plain names rooted here opened source blocked)
        (fun _ before => before) ?_ (fun _ _ failed => failed)
      rintro ⟨e',way⟩ w ⟨quiet,same,copied,met,stowed⟩
      dsimp only at same copied
      subst same copied
      refine ⟨quiet,⟨fun wrong => by contradiction,fun clear => absurd clear met⟩,b1,area,s,rooted,source,here,?_⟩
      rw [baseNamed name]
      have leaves : (Way.copied = Way.renamed) = False := eq_false (by simp)
      rw [leaves]
      exact stowed

end Ends

end Stage

end ContainerWS.Files
