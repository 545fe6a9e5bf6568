import ContainerWS.Files.Stage

/-! MoveToTrash once the node is in the trash: the original goes, and the item is
described or given back. -/
namespace ContainerWS.Files
open GoPath FileTree

/- The tree without the original. -/
def departed (way : Way) (path : List Name) (c : Tree) : Tree :=
  match way with
  | .renamed => c
  | .copied => (c.removeAll path).2

variable {umask : Nat} {exact : Prop} {b b1 c c' : Tree} {home path area s : Path} {id : String} {e : Entry} {way : Way}

section Parted

theorem stagedName (names : ∀ m ∈ path, Plain m) (filled : path ≠ []) (located : b.locate path = .found s) :
    ∃ d l, path = d ++ [base path] ∧ s = l ++ [base path] ∧ Plain (base path) ∧ b.follow d = .found l := by
  cases path using List.reverseRecOn with
  | nil => exact absurd rfl filled
  | append_singleton d n =>
    have name := names n (by simp)
    obtain ⟨l,found,rfl⟩ := locateName name located
    rw [baseNamed name]
    exact ⟨d,l,rfl,rfl,name,found⟩

theorem copiedKeeps (staged : Staged umask exact (Way.copied = .renamed) b home id path e .copied b1 area s c) : Keeps b1 c := by
  intro q e' there
  rw [staged.stowed.outside q ?_ (fun wrong => by contradiction),there]
  rintro ⟨x,rfl⟩
  rw [getBelow staged.rooted.fresh] at there
  contradiction

/- The removal of the original after a copy. -/
theorem copiedRemoves (names : ∀ m ∈ path, Plain m) (filled : path ≠ [])
    (staged : Staged umask exact (Way.copied = .renamed) b home id path e .copied b1 area s c) :
    c.locate path = .found s ∧ s ≠ [] ∧ c.removeAll path = (.ok (),c.remove s) := by
  have located := locateGrows (keepsGrows (keepsTrans staged.rooted.keeps (copiedKeeps staged))) staged.source
  obtain ⟨d,l,_,shape,_⟩ := stagedName names filled staged.source
  have nonempty : s ≠ [] := by
    rw [shape]
    simp
  exact ⟨located,nonempty,removeFound located nonempty⟩

theorem itemApart (staged : Staged umask exact leaves b home id path e way b1 area s c) (x : Path) : ¬s <+: area ++ [id] ++ x :=
  belowApart staged.stowed.apart (itemFree staged.rooted staged.here).2

theorem departedStaged (names : ∀ m ∈ path, Plain m) (filled : path ≠ [])
    (staged : Staged umask exact (way = .renamed) b home id path e way b1 area s c) :
    Staged umask exact True b home id path e way b1 area s (departed way path c) := by
  cases way with
  | renamed =>
    refine ⟨staged.rooted,staged.source,staged.here,?_⟩
    have same : (Way.renamed = Way.renamed) = True := eq_true rfl
    rw [← same]
    exact staged.stowed
  | copied =>
    obtain ⟨_,nonempty,removed⟩ := copiedRemoves names filled staged
    have gets (q : Path) (apart : ¬s <+: q) : (c.remove s).get q = c.get q := by
      rw [getRemove,if_neg (fun gone => apart gone.1)]
    unfold departed
    dsimp only
    rw [removed]
    refine ⟨staged.rooted,staged.source,staged.here,staged.stowed.apart,?_,?_,?_,?_,?_⟩
    · intro q outside gone
      rw [gets q (gone trivial)]
      exact staged.stowed.outside q outside (fun wrong => by contradiction)
    · intro _ x
      rw [getRemove,if_pos ⟨List.prefix_append _ _,by simp [nonempty]⟩]
    · rw [Tree.isDirAt,gets _ (itemApart staged _)]
      exact staged.stowed.content
    · intro y there
      rw [gets _ (itemApart staged y)] at there
      exact staged.stowed.only y there
    · intro x
      rw [gets _ (by simpa using itemApart staged (["content"] ++ [base path] ++ x))]
      exact staged.stowed.carried x

section Left
variable (staged : Staged umask exact True b home id path e way b1 area s c)
include staged

/- Everything but the original is where it was. -/
theorem partedKeeps {q : Path} {e' : Entry} (there : b1.get q = some e') (apart : ¬s <+: q) : c.get q = some e' := by
  rw [staged.stowed.outside q ?_ (fun _ => apart),there]
  rintro ⟨x,rfl⟩
  rw [getBelow staged.rooted.fresh] at there
  contradiction

/- A path leads where it led, or to the place of the original and nowhere now. -/
theorem partedResolve (names : ∀ m ∈ path, Plain m) (filled : path ≠ []) {parts : List Name} {r : Path}
    (found : b1.follow parts = .found r) :
    c.follow parts = .found r ∨ ∃ l rest, s = l ++ [base path] ∧ c.follow parts = .missing l (base path :: rest) := by
  obtain ⟨d,l,_,shape,_⟩ := stagedName names filled staged.source
  subst shape
  have gone := staged.stowed.left trivial []
  rw [List.append_nil] at gone
  rcases resolveGone (fun q e' there apart => partedKeeps staged there apart) gone found with same | ⟨rest,lost⟩
  · exact .inl same
  · exact .inr ⟨l,rest,rfl,lost⟩

theorem itemDir : c.isDirAt (area ++ [id]) = true := dirPrefix staged.stowed.content

theorem partedReach (plain : Plain id) (names : ∀ m ∈ path, Plain m) (filled : path ≠ []) :
    c.follow (trashItemDir home id) = .found (area ++ [id]) ∨
    ∃ q rest, c.follow (trashItemDir home id) = .missing q rest ∧ 1 < rest.length := by
  rw [itemDirNamed plain]
  rcases partedResolve staged names filled staged.rooted.found with found | ⟨l,rest,_,lost⟩
  · exact .inl (followBelow found (by simp) (dirThere (itemDir staged)) (dirSolid (itemDir staged)))
  · exact .inr ⟨l,base path :: rest ++ [id],resolveStops _ _ (by simp) (by simp) lost,by simp⟩

end Left

end Parted

/- What is left behind a write of info.json, finished or not. -/
def Noted (item : Path) (t t' : Tree) : Prop := ∀ q, q ≠ item ++ ["info.json"] → t'.get q = t.get q

/- The writing of info.json, tried: it works where the item can still be reached. -/
theorem noteTried {halts calm : Prop} {E : Errno → World → Prop} (p : Setting) (f : Option Fault) (plain : Plain id)
    (names : ∀ m ∈ path, Plain m) (filled : path ≠ []) (staged : Staged umask exact True b home id path e way b1 area s c)
    (info : TrashInfo) (own : info.id = id) :
    Ensures halts (Quietly calm (fun t => t = c)) (Sys.attempt (writeTrashInfo p f home info))
      (fun r => Quietly calm (Tried
        (fun _ t => f = none ∧ c.follow (trashItemDir home id) = .found (area ++ [id]) ∧ Noted (area ++ [id]) c t ∧
          ∃ m, t.get (area ++ [id] ++ ["info.json"]) = some (.file m (p.json.marshalIndent info)))
        (fun t => ¬(f = none ∧ c.follow (trashItemDir home id) = .found (area ++ [id])) ∧ Noted (area ++ [id]) c t) r)) E := by
  subst own
  have word : Plain "info.json" := by decide
  have free : c.get (area ++ [info.id] ++ ["info.json"]) = none := by
    by_contra there
    rcases staged.stowed.only ["info.json"] there with none | other
    · simp at none
    · simp at other
  have solid : c.isLinkAt (area ++ [info.id] ++ ["info.json"]) = false := by
    rw [Tree.isLinkAt,free]
    rfl
  -- Where the file goes, if it can be created at all.
  have places {l : Path} {t : Tree} {perm : Nat} (made : c.create (trashInfoPath home info.id) perm = .ok (l,t)) :
      c.follow (trashItemDir home info.id) = .found (area ++ [info.id]) ∧ l = area ++ [info.id] ++ ["info.json"] := by
    rw [infoPathNamed plain,← itemDirNamed plain] at made
    rcases partedReach staged plain names filled with found | ⟨q,rest,lost,long⟩
    · exact ⟨found,(createBelow _ word found (itemDir staged) solid).1 l t made⟩
    · have stops := resolveStops true ["info.json"] (by simp) (by simp) lost
      have far : c.follow (trashItemDir home info.id ++ ["info.json"]) = .missing q (rest ++ ["info.json"]) := stops
      rw [createFar far (by simp; omega)] at made
      contradiction
  have wrote {l : Path} {t : Tree} {perm : Nat} (made : c.create (trashInfoPath home info.id) perm = .ok (l,t)) (data : Bytes) :
      Noted (area ++ [info.id]) c (t.write l data) ∧
      ∃ m, (t.write l data).get (area ++ [info.id] ++ ["info.json"]) = some (.file m data) := by
    obtain ⟨_,rfl⟩ := places made
    obtain ⟨m,gets,_,_⟩ := createMade made
    have empty : t.get (area ++ [info.id] ++ ["info.json"]) = some (.file m []) := by rw [gets,if_pos rfl]
    have after := getWrite data empty
    refine ⟨?_,m,by rw [after,if_pos rfl]⟩
    intro q other
    rw [after,if_neg other,gets,if_neg other]
  unfold writeTrashInfo Os.writeFile
  refine ensuresTried (ensuresTurned ?_ ?_ ?_)
  · rintro t u t' clear rfl written
    cases made : t.create (trashInfoPath home info.id) (Os.masked p.umask 0o600) with
    | error e' =>
      rw [made] at written
      cases written
    | ok found =>
      obtain ⟨l,t1⟩ := found
      rw [made] at written
      cases written
      obtain ⟨reach,_⟩ := places made
      exact ⟨clear,reach,wrote made _⟩
  · rintro t e' clear rfl failed
    refine ⟨?_,fun _ _ => rfl⟩
    rintro ⟨_,reach⟩
    obtain ⟨t',works⟩ := (createBelow (Os.masked p.umask 0o600) word reach (itemDir staged) solid).2
      (by rw [Tree.isDirAt,free]; rfl)
    rw [infoPathNamed plain,← itemDirNamed plain,works] at failed
    cases failed
  · rintro fault t met rfl
    refine ⟨?_,?_⟩
    · rintro ⟨clear,_⟩
      rw [met] at clear
      contradiction
    · split
      · rename_i l t1 n made cut
        exact (wrote made _).1
      · exact fun _ _ => rfl

end ContainerWS.Files
