import ContainerWS.Files.Settle

/-! No file is lost on the way to the trash while every call works that makes good for
another one. The two that do not: the removal of the item when the removal of the
original has broken off, and the rename back when info.json has not been written. -/
namespace ContainerWS.Files
open GoPath FileTree

/- Each file of the node is in its place, or in its place in the item. -/
def Safe (b : Tree) (home : Path) (id : String) (path : Path) (c : Tree) : Prop :=
  ∀ s x m data, b.locate path = .found s → b.get (s ++ x) = some (.file m data) →
    ∃ m', c.get (s ++ x) = some (.file m' data) ∨
      ∃ t, c.locate (trashContentPath home id (base path)) = .found t ∧ c.get (t ++ x) = some (.file m' data)

def Intact (b : Tree) (path : Path) (c : Tree) : Prop :=
  ∀ s x e, b.locate path = .found s → b.get (s ++ x) = some e → c.get (s ++ x) = some e

def KeptSafe (b : Tree) (home : Path) (id : String) (path : Path) (r : Except Errno TrashInfo) (c : Tree) : Prop :=
  Safe b home id path c ∧ ∀ err, r = .error err → Intact b path c

/- The original has gone. The item can be reached, and it can be described; or it can
be put back where it was, and it is what was there. -/
structure Described (f : MoveFaults) (b : Tree) (home : Path) (id : String) (path : Path) (c : Tree) : Prop where
  reach : ∃ item, c.follow (trashItemDir home id) = .found item
  note : f.write = none ∨ f.back = none ∧ (∃ l, c.follow path.dropLast = .found l) ∧
    ∀ s t x e, b.locate path = .found s → c.locate (trashContentPath home id (base path)) = .found t →
      b.get (s ++ x) = some e → c.get (t ++ x) = some e

/- What the rest of MoveToTrash needs to meet when the node is in the trash. A removal
after a copy that fails must not have taken away anything. -/
def Recovers (f : MoveFaults) (b : Tree) (home : Path) (id : String) (path : Path) (way : Way) (c : Tree) : Prop :=
  match way,f.removeAll with
  | .copied,some fault => ∀ s y, b.locate path = .found s → y ∈ fault.gone → b.get (s ++ y) = none
  | _,_ => Described f b home id path (departed way path c)

theorem intactSafe {b c : Tree} {home path : Path} {id : String} (intact : Intact b path c) : Safe b home id path c :=
  fun s x m _ found here => ⟨m,.inl (intact s x _ found here)⟩

theorem keepsIntact {b c : Tree} {path : Path} (keeps : Keeps b c) : Intact b path c := fun _ _ _ _ here => keeps _ _ here

/- What is not there does not come back with a removal. -/
theorem intactPruned {b c c' : Tree} {path : Path} {parts : List Name} (pruned : Pruned parts c c') (intact : Intact b path c') :
    Intact b path c := by
  intro s x e found here
  have there := intact s x e found here
  rcases pruned (s ++ x) with same | ⟨gone,_⟩
  · rw [← same,there]
  · rw [gone] at there
    contradiction

variable {umask : Nat} {exact : Prop} {b b1 c c' : Tree} {home path area s : Path} {id : String} {e : Entry} {way : Way}
variable {halts calm : Prop} (f : MoveFaults)

section Back
variable (staged : Staged umask exact True b home id path e way b1 area s c) (noted : Noted (area ++ [id]) c c')
include staged

theorem notFree : c.get (area ++ [id] ++ ["info.json"]) = none := by
  by_contra there
  rcases staged.stowed.only ["info.json"] there with none | other
  · simp at none
  · simp at other

include noted

theorem notedKeeps : Keeps c c' := by
  intro q e here
  rw [noted q ?_,here]
  rintro rfl
  rw [notFree staged] at here
  contradiction

theorem notedLeft (x : Path) : c'.get (s ++ x) = none := by
  rw [noted _ ?_]
  · exact staged.stowed.left trivial x
  · intro same
    exact belowApart (itemFree staged.rooted staged.here).2 staged.stowed.apart ⟨_,same.symm⟩

omit staged in
theorem notedContent (x : Path) :
    c'.get (area ++ [id] ++ ["content"] ++ [base path] ++ x) = c.get (area ++ [id] ++ ["content"] ++ [base path] ++ x) := by
  refine noted _ ?_
  simp

/- What led somewhere before the original went leads there now, or it stops, and
info.json has no part in it. -/
theorem notedResolve (names : ∀ m ∈ path, Plain m) (filled : path ≠ []) {parts : List Name} {r : Path}
    (found : b1.follow parts = .found r) :
    c.follow parts = .found r ∧ c'.follow parts = .found r ∨
    ∃ q rest q' rest', c.follow parts = .missing q (base path :: rest) ∧ c'.follow parts = .missing q' (base path :: rest') := by
  have keeps := notedKeeps staged noted
  rcases partedResolve staged names filled found with same | ⟨l,rest,shape,lost⟩
  · exact .inl ⟨same,followGrows (keepsGrows keeps) same⟩
  · refine .inr ⟨l,rest,l,?_⟩
    subst shape
    have vacant := notedLeft staged noted []
    rw [List.append_nil] at vacant
    rcases resolveGone (fun q e' there apart => keeps q e' (partedKeeps staged there apart)) vacant found with same | ⟨rest',lost'⟩
    · -- Then only info.json could have made the difference.
      have keeps : ∀ q e', c'.get q = some e' → ¬area ++ [id] ++ ["info.json"] <+: q → c.get q = some e' := by
        intro q e' there apart
        rw [← noted q (fun same => apart (same ▸ List.prefix_refl _))]
        exact there
      rcases resolveGone keeps (notFree staged) same with still | ⟨rest',other⟩
      · rw [Tree.follow,still] at lost
        contradiction
      · rw [Tree.follow,other] at lost
        have same := (Resolution.missing.inj lost).1
        exact absurd ⟨[base path],by rw [same]⟩ (itemFree staged.rooted staged.here).2
    · exact ⟨rest',lost,lost'⟩

/- When the rename back can find both of its paths. -/
def Opens (f : MoveFaults) (c : Tree) (home : Path) (id : String) (path : Path) : Prop :=
  f.back = none ∧ (∃ item, c.follow (trashItemDir home id) = .found item) ∧ ∃ l, c.follow path.dropLast = .found l

omit noted in
theorem contentThere : c.get (area ++ [id] ++ ["content"] ++ [base path]) ≠ none := by
  intro free
  have carried := staged.stowed.carried []
  rw [List.append_nil,List.append_nil,(itemFree staged.rooted staged.here).1,free] at carried
  cases way with
  | renamed => cases carried
  | copied => cases carried

omit noted in
/- Where the content of the item is found, if the item is. -/
theorem contentLocated (plain : Plain id) (name : Plain (base path)) (reach : c.follow (trashItemDir home id) = .found (area ++ [id])) :
    c.locate (trashContentPath home id (base path)) = .found (area ++ [id] ++ ["content"] ++ [base path]) := by
  have there := contentThere staged
  rw [List.append_assoc (area ++ [id])] at there
  rw [contentPathNamed plain name,← itemDirNamed plain,List.append_assoc,List.append_assoc (area ++ [id])]
  exact locateBelow reach (by simp) there

/- The rename back, when the system has no fault for it. -/
theorem backRenames (plain : Plain id) (names : ∀ m ∈ path, Plain m) (filled : path ≠ []) (clear : f.back = none) :
    (Opens f c home id path → c'.rename (trashContentPath home id (base path)) path =
      .ok (c'.move (area ++ [id] ++ ["content"] ++ [base path]) s) ∧
      Movable c' (area ++ [id] ++ ["content"] ++ [base path]) s) ∧
    (¬Opens f c home id path → ∃ e, c'.rename (trashContentPath home id (base path)) path = .error e) := by
  obtain ⟨d,l,shape,shape',name,folder⟩ := stagedName names filled staged.source
  have keeps := notedKeeps staged noted
  have drop : path.dropLast = d := by rw [shape,List.dropLast_concat]
  have free := (itemFree staged.rooted staged.here).2
  rcases notedResolve staged noted names filled staged.rooted.found with ⟨area',_⟩ | ⟨q,rest,q',rest',lost,lost'⟩
  · have reach : c.follow (trashItemDir home id) = .found (area ++ [id]) := by
      rw [itemDirNamed plain]
      exact followBelow area' (by simp) (dirThere (itemDir staged)) (dirSolid (itemDir staged))
    have content := locateGrows (keepsGrows keeps) (contentLocated staged plain name reach)
    rcases notedResolve staged noted names filled (followGrows (keepsGrows staged.rooted.keeps) folder) with
      ⟨found,found'⟩ | ⟨q,rest,q',rest',lost,lost'⟩
    · refine ⟨fun _ => ?_,fun shut => absurd ⟨clear,⟨_,reach⟩,l,drop ▸ found⟩ shut⟩
      have inside : c'.isDirAt l = true := by
        have there := staged.here
        rw [shape'] at there
        obtain ⟨m,dir⟩ := b.above l (base path) e there
        refine isDirAtIff.mpr ⟨m,keeps _ _ (partedKeeps staged (staged.rooted.keeps l _ dir) ?_)⟩
        rw [shape']
        intro below
        simpa using below.length_le
      have vacant := notedLeft staged noted []
      rw [List.append_nil,shape'] at vacant
      have target := locateFree name found' inside vacant
      rw [← shape] at target
      have apart : ¬area ++ [id] ++ ["content"] ++ [base path] <+: l ++ [base path] := by
        rw [← shape']
        exact fun above => free (List.IsPrefix.trans (by simp) above)
      rw [shape',renameNew content target name (by simp),if_neg apart]
      exact ⟨rfl,movableNew target (by simp) apart name⟩
    · refine ⟨fun ⟨_,_,l',found⟩ => ?_,fun _ => ⟨.notExist,?_⟩⟩
      · rw [drop,lost] at found
        contradiction
      · have stops := resolveStops false [base path] (by simp) (by simp) lost'
        rw [← shape] at stops
        exact renameFar content stops (by simp)
  · refine ⟨fun ⟨_,⟨item,found⟩,_⟩ => ?_,fun _ => renameLost (fun r found => ?_)⟩
    · have stops := resolveStops true [id] (by simp) (by simp) lost
      rw [itemDirNamed plain,Tree.follow,stops] at found
      contradiction
    · have stops := resolveStops false ([id] ++ ["content"] ++ [base path]) (by simp) (by simp) lost'
      rw [← List.append_assoc,← List.append_assoc,← contentPathNamed plain name] at stops
      rw [Tree.locate,stops] at found
      contradiction

theorem backTried {E : Errno → World → Prop} (plain : Plain id) (names : ∀ m ∈ path, Plain m) (filled : path ≠ []) :
    Ensures halts (Quietly calm (fun t => t = c')) (Sys.attempt (Os.rename f.back (trashContentPath home id (base path)) path))
      (fun _ => Quietly calm (fun t =>
        (Opens f c home id path → t = c'.move (area ++ [id] ++ ["content"] ++ [base path]) s ∧
          Movable c' (area ++ [id] ++ ["content"] ++ [base path]) s) ∧
        (¬Opens f c home id path → t = c'))) E := by
  refine ensuresAttempt (ensuresTurned ?_ ?_ ?_)
  · rintro t _ t' clear rfl renamed
    have renamed := plainlyOk.mp renamed
    obtain ⟨opens,shut⟩ := backRenames f staged noted plain names filled clear
    refine ⟨fun both => ?_,fun closed => ?_⟩
    · obtain ⟨works,movable⟩ := opens both
      rw [works] at renamed
      cases renamed
      exact ⟨rfl,movable⟩
    · obtain ⟨e',failed⟩ := shut closed
      rw [failed] at renamed
      contradiction
  · rintro t e' clear rfl failed
    have failed := plainlyError.mp failed
    refine ⟨fun both => ?_,fun _ => rfl⟩
    rw [((backRenames f staged noted plain names filled clear).1 both).1] at failed
    contradiction
  · rintro fault t met rfl
    refine ⟨fun ⟨clear,_⟩ => ?_,fun _ => rfl⟩
    rw [clear] at met
    contradiction

end Back

/- The trash has not been made below the node. -/
theorem rootedSame {leaves : Prop} (staged : Staged umask exact leaves b home id path e way b1 area s c) (x : Path) :
    b1.get (s ++ x) = b.get (s ++ x) := by
  rcases staged.rooted.only (s ++ x) with same | above
  · exact same
  · refine absurd ?_ staged.stowed.apart
    exact ((List.prefix_append s x).trans above).trans (List.prefix_append _ _)

/- The root is never staged. -/
theorem stagedFilled {leaves : Prop} (staged : Staged umask exact leaves b home id path e way b1 area s c) : path ≠ [] := by
  rintro rfl
  have root : s = [] := (Resolution.found.inj (show Resolution.found [] = .found s from staged.source)).symm
  exact staged.stowed.apart (root ▸ List.nil_prefix)

/- A copy keeps what a file holds, a rename everything. -/
theorem carriedFile {m : Nat} {data : Bytes} {r : Option Entry} (carried : Carried umask exact way (some (.file m data)) r) :
    ∃ m', r = some (.file m' data) := by
  cases way with
  | renamed => exact ⟨m,carried⟩
  | copied =>
    cases carried with
    | some copy =>
      cases copy with
      | file _ kept _ => exact ⟨_,by rw [kept id]⟩

section Ends
variable (p : Setting) (plain : Plain id) (names : ∀ m ∈ path, Plain m) (filled : path ≠ [])

include plain names filled

/- The end of MoveToTrash after the original has gone. -/
theorem describeEnds (calm : Prop) (staged : Staged umask exact True b home id path e way b1 area s c) (info : TrashInfo) (own : info.id = id) :
    Ensures False (Quietly calm (fun t => t = c)) (describeTrash p f home id path info)
      (fun _ => Quietly calm (fun t => Safe b home id path t ∧ Described f b home id path c))
      (fun _ => Quietly calm (fun t => Intact b path t ↔ Described f b home id path c)) := by
  obtain ⟨d,l,_,_,name,_⟩ := stagedName names filled staged.source
  unfold describeTrash
  refine ensuresBind (noteTried p f.write plain names filled staged info own) (fun r => ?_)
  cases r with
  | ok _ =>
    refine ensuresPure ?_
    rintro w ⟨quiet,clear,reach,noted,_⟩
    refine ⟨quiet,?_,⟨_,reach⟩,.inl clear⟩
    intro s' x m data found here
    rw [staged.source] at found
    cases found
    have carried := staged.stowed.carried x
    rw [staged.rooted.keeps _ _ here] at carried
    obtain ⟨m',there⟩ := carriedFile carried
    refine ⟨m',.inr ⟨_,locateGrows (keepsGrows (notedKeeps staged noted)) (contentLocated staged plain name reach),?_⟩⟩
    rw [notedContent noted,there]
  | error err =>
    refine ensuresFix ?_
    rintro c' ⟨stuck,noted⟩
    refine ensuresBind (backTried f staged noted plain names filled) (fun _ => ?_)
    refine ensuresFix ?_
    rintro t ⟨opens,shut⟩
    refine ensuresBind (cleanupPrunes f.cleanup _) (fun _ => ensuresFail ?_)
    rintro w ⟨quiet,cut⟩
    refine ⟨quiet,?_⟩
    by_cases both : Opens f c home id path
    · obtain ⟨moved,movable⟩ := opens both
      have gets := getMove movable
      rw [← moved] at gets
      have back (x : Path) : t.get (s ++ x) = c.get (area ++ [id] ++ ["content"] ++ [base path] ++ x) := by
        rw [gets,if_pos (List.prefix_append _ _),List.drop_left,notedContent noted]
      obtain ⟨clear,⟨item,reach⟩,returns⟩ := both
      have reach' : c.follow (trashItemDir home id) = .found (area ++ [id]) := by
        rcases partedReach staged plain names filled with found | ⟨q,rest,lost,_⟩
        · exact found
        · rw [lost] at reach
          contradiction
      constructor
      · intro intact
        refine ⟨⟨item,reach⟩,.inr ⟨clear,returns,?_⟩⟩
        intro s' t' x e' found located here
        rw [staged.source] at found
        cases found
        rw [contentLocated staged plain name reach'] at located
        cases located
        rw [← back]
        exact intactPruned cut intact s x e' staged.source here
      · rintro ⟨_,free | ⟨_,_,same⟩⟩
        · exact absurd ⟨free,reach'⟩ stuck
        · refine keepsIntact (keepsTrans staged.rooted.keeps (prunedKeeps plain staged.rooted.found staged.rooted.fresh ?_ cut))
          intro q e' there
          by_cases below : s <+: q
          · obtain ⟨x,rfl⟩ := below
            rw [back]
            rw [rootedSame staged] at there
            exact same s _ x e' staged.source (contentLocated staged plain name reach') there
          · rw [gets,if_neg below,if_neg]
            · exact notedKeeps staged noted q e' (partedKeeps staged there below)
            · rintro ⟨x,rfl⟩
              rw [List.append_assoc,List.append_assoc,getBelow staged.rooted.fresh] at there
              contradiction
    · rw [shut both] at cut
      refine iff_of_false ?_ ?_
      · intro intact
        have there := intactPruned cut intact s [] e staged.source (by rw [List.append_nil]; exact staged.here)
        rw [notedLeft staged noted] at there
        contradiction
      · rintro ⟨⟨item,reach⟩,free | ⟨clear,returns,_⟩⟩
        · rcases partedReach staged plain names filled with found | ⟨q,rest,lost,_⟩
          · exact stuck ⟨free,found⟩
          · rw [lost] at reach
            contradiction
        · exact both ⟨clear,⟨item,reach⟩,returns⟩

/- And with its removal. -/
theorem settleEnds (staged : Staged umask exact (way = .renamed) b home id path e way b1 area s c) (now : Nat) :
    Ensures False (Quietly calm (fun t => t = c)) (settleTrash p f home id now path e way)
      (fun _ => Quietly calm (fun t => Safe b home id path t ∧ Recovers f b home id path way c))
      (fun _ => Quietly calm (fun t => Intact b path t ↔ Recovers f b home id path way c)) := by
  have parted := departedStaged names filled staged
  have rest := describeEnds f p plain names filled calm parted
    ⟨id,render path,base path,e.isDir,now,if e.isDir then 0 else size e⟩ rfl
  unfold settleTrash
  cases way with
  | renamed => exact rest
  | copied =>
    obtain ⟨located,nonempty,removed⟩ := copiedRemoves names filled staged
    rw [if_pos rfl]
    cases fault : f.removeAll with
    | none =>
      have recovers : Recovers f b home id path .copied c = Described f b home id path (departed .copied path c) := by
        unfold Recovers
        rw [fault]
      rw [recovers]
      refine ensuresBind (Q := fun r => Quietly calm (Tried (fun _ t => t = departed .copied path c) (fun _ => False) r)) ?_
        (fun r => ?_)
      · refine ensuresTried (ensuresMet ?_ ?_ ?_)
        · rintro t u t' _ rfl result
          unfold departed
          dsimp only
          rw [result]
        · rintro t e' t' _ rfl result
          rw [removed] at result
          cases result
        · rintro _ t met
          contradiction
      · cases r with
        | error err => exact fun w ⟨_,never⟩ => never.elim
        | ok _ => exact ensuresFix (fun t gone => gone ▸ rest)
    | some fault' =>
      have recovers : Recovers f b home id path .copied c =
          ∀ s y, b.locate path = .found s → y ∈ fault'.gone → b.get (s ++ y) = none := by
        unfold Recovers
        rw [fault]
      rw [recovers]
      have gets := getRemoveSome fault'.gone located nonempty
      refine ensuresBind (Q := fun r => Quietly calm (Tried (fun _ _ => False) (fun t => t = c.removeSome path fault'.gone) r)) ?_
        (fun r => ?_)
      · refine ensuresTried (ensuresMet ?_ ?_ ?_)
        · rintro t u t' clear
          contradiction
        · rintro t e' t' clear
          contradiction
        · rintro _ t met rfl
          cases met
          rfl
      · cases r with
        | ok _ => exact fun w ⟨_,never⟩ => never.elim
        | error err =>
          refine ensuresFix ?_
          rintro t rfl
          refine ensuresBind (cleanupPrunes f.cleanup _) (fun _ => ensuresFail ?_)
          rintro w ⟨quiet,cut⟩
          refine ⟨quiet,?_,?_⟩
          · intro intact s' y found mem
            rw [staged.source] at found
            cases found
            by_contra there
            obtain ⟨e',here⟩ := Option.ne_none_iff_exists'.mp there
            have stays := intactPruned cut intact s y e' staged.source here
            rw [gets,if_pos ⟨y,mem,List.prefix_refl _⟩] at stays
            contradiction
          · intro spared
            refine keepsIntact (keepsTrans staged.rooted.keeps (prunedKeeps plain staged.rooted.found staged.rooted.fresh ?_ cut))
            intro q e' there
            rw [gets,if_neg]
            · exact copiedKeeps staged q e' there
            · rintro ⟨y,mem,x,rfl⟩
              have free := spared s y staged.source mem
              rw [← rootedSame staged] at free
              rw [getBelow free] at there
              contradiction

omit filled in
/- In every run that ends: all files are kept, and with an error the node is as it was,
exactly when the rest of the run recovers from what it meets. -/
theorem moveToTrashKeeps {fuel now : Nat} {w w' : World} {r : Except Errno TrashInfo} (named : ∀ m ∈ home, Plain m)
    (unused : Unused w.tree home id) (ran : moveToTrash p f fuel home id now path w = some (r,w')) :
    KeptSafe w.tree home id path r w'.tree ↔
      ∀ e way w1, stageTrash p f fuel home id path w = some (.ok (e,way),w1) → Recovers f w.tree home id path way w1.tree := by
  have stage := stageEnds p f fuel False.elim named plain names unused w ⟨False.elim,rfl⟩
  have whole : moveToTrash p f fuel home id now path w =
      (stageTrash p f fuel home id path >>= fun r => settleTrash p f home id now path r.1 r.2) w := rfl
  rw [whole] at ran
  change Sys.bind _ _ w = _ at ran
  unfold Sys.bind at ran
  cases first : stageTrash p f fuel home id path w with
  | none =>
    rw [first] at ran
    contradiction
  | some result =>
    obtain ⟨r1,w1⟩ := result
    rw [first] at ran stage
    cases r1 with
    | error err =>
      cases ran
      have intact : Intact w.tree path w'.tree := keepsIntact stage.2
      exact iff_of_true ⟨intactSafe intact,fun _ _ => intact⟩ (fun _ _ _ other => by cases other)
    | ok out =>
      obtain ⟨e,way⟩ := out
      obtain ⟨_,_,b1,area,s,staged⟩ := stage
      have settled := settleEnds f p plain names (stagedFilled staged) staged now w1 ⟨False.elim,rfl⟩
      dsimp only at ran
      rw [ran] at settled
      have only : (∀ e' way' w2, (some (.ok (e,way),w1) : Option (Except Errno (Entry × Way) × World)) = some (.ok (e',way'),w2) →
          Recovers f w.tree home id path way' w2.tree) ↔ Recovers f w.tree home id path way w1.tree := by
        refine ⟨fun all => all e way w1 rfl,?_⟩
        rintro recovers e' way' w2 same
        cases same
        exact recovers
      rw [only]
      cases r with
      | ok info =>
        refine iff_of_true ⟨settled.2.1,nofun⟩ settled.2.2
      | error err =>
        have same : Intact w.tree path w'.tree ↔ Recovers f w.tree home id path way w1.tree := settled.2
        rw [← same]
        exact ⟨fun kept => kept.2 err rfl,fun intact => ⟨intactSafe intact,fun _ _ => intact⟩⟩

end Ends

/- info.json of an item that is no directory of size zero and was deleted at the epoch. -/
def indented (info : TrashInfo) : String :=
  "\x7b\n  \"id\": \"" ++ info.id ++ "\",\n  \"original_path\": \"" ++ info.originalPath ++ "\",\n  \"name\": \"" ++
  info.name ++ "\",\n  \"is_dir\": " ++ toString info.isDir ++ ",\n  \"deleted_at\": \"1970-01-01T00:00:00Z\"\n\x7d"

def sampleInfo : TrashInfo := ⟨"7","/h/d","d",true,0,0⟩

def sampleSetting : Setting where
  umask := 0o022
  cwd := []
  json := ⟨fun info => (indented info).toUTF8.toList,
    fun raw => if raw = (indented sampleInfo).toUTF8.toList then .ok sampleInfo else .error "unexpected end of JSON input"⟩

def smooth : MoveFaults := ⟨none,none,none,none,none,none,none,none⟩

/- The trash is on another file system. -/
def crossing : MoveFaults := {smooth with rename := some ⟨.crossDevice,none,[]⟩}

def sampleTree : Tree := ((Tree.bare.put ["h"] (.dir 0o755)).put ["h","d"] (.dir 0o755)).put ["h","d","a"] (.file 0o644 [1])

theorem moveToTrashKeepsSample : ∃ r w', moveToTrash sampleSetting crossing 3 ["h"] "7" 0 ["h","d"] ⟨sampleTree,[]⟩ = some (r,w') ∧
    (KeptSafe sampleTree ["h"] "7" ["h","d"] r w'.tree ↔
      ∀ e way w1, stageTrash sampleSetting crossing 3 ["h"] "7" ["h","d"] ⟨sampleTree,[]⟩ = some (.ok (e,way),w1) →
        Recovers crossing sampleTree ["h"] "7" ["h","d"] way w1.tree) := by
  have ends : (moveToTrash sampleSetting crossing 3 ["h"] "7" 0 ["h","d"] ⟨sampleTree,[]⟩).isSome = true := by decide +kernel
  obtain ⟨⟨r,w'⟩,ran⟩ := Option.isSome_iff_exists.mp ends
  have nowhere : sampleTree.follow (trashRoot ["h"]) = .missing ["h"] [".containerws","trash"] := by decide
  have unused : Unused sampleTree ["h"] "7" := by
    intro area found
    cases nowhere.symm.trans found
  have plain : Plain "7" := by decide
  have names : ∀ m ∈ ["h","d"], Plain m := by decide
  have named : ∀ m ∈ ["h"], Plain m := by decide
  have holds := moveToTrashKeeps crossing sampleSetting plain names named unused ran
  exact ⟨r,w',ran,holds⟩

/- The removal of the original takes the file and stops; then the item goes as well. -/
def stopping : MoveFaults := {crossing with removeAll := some ⟨.io,none,[["a"]]⟩}

theorem stoppedRemovalLoses : ¬∀ r w', moveToTrash sampleSetting stopping 3 ["h"] "7" 0 ["h","d"] ⟨sampleTree,[]⟩ = some (r,w') →
    KeptSafe sampleTree ["h"] "7" ["h","d"] r w'.tree := by
  intro kept
  have ends : (moveToTrash sampleSetting stopping 3 ["h"] "7" 0 ["h","d"] ⟨sampleTree,[]⟩).any
      (fun out => decide (out.2.tree.get ["h","d","a"] = none ∧
        out.2.tree.lstat (trashContentPath ["h"] "7" "d") = .error .notExist)) = true := by decide +kernel
  obtain ⟨⟨r,w'⟩,ran,gone⟩ := (Option.any_eq_true _ _).mp ends
  obtain ⟨here,item⟩ := of_decide_eq_true gone
  have source : sampleTree.locate ["h","d"] = .found ["h","d"] := by decide
  have file : sampleTree.get (["h","d"] ++ ["a"]) = some (.file 0o644 [1]) := by decide
  obtain ⟨m,there | ⟨t,located,there⟩⟩ := (kept r w' ran).1 ["h","d"] ["a"] 0o644 [1] source file
  · cases here.symm.trans there
  · obtain ⟨e,root⟩ := Option.ne_none_iff_exists'.mp (resolveThere located)
    rw [show base ["h","d"] = "d" by decide] at located
    cases item.symm.trans (lstatFound located root)

end ContainerWS.Files
