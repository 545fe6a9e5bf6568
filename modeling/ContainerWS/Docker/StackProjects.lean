import Mathlib.Data.Set.Function
import Mathlib.Data.Set.Insert
import ContainerWS.Docker.StackWrites

/-! Who uses a project. Owners have a number each, and each project that is up has one of them. -/
namespace ContainerWS.Docker.Stacks
open GoStrings Numbered

section
variable {ι π : Type} {owners : Set (ι × π)} {up up' : Set π} {i : ι} {p q : π}

/- No two owners have one project, and what is up is owned. -/
def Sound (owners : Set (ι × π)) (up : Set π) : Prop := owners.InjOn Prod.snd ∧ up ⊆ Prod.snd '' owners

theorem soundFewer (sound : Sound owners up) (fewer : up' ⊆ up) : Sound owners up' := ⟨sound.1,fewer.trans sound.2⟩

theorem soundMore (owned : (i,p) ∈ owners) : Sound owners (insert p up) ↔ Sound owners up := by
  unfold Sound
  rw [Set.insert_subset_iff]
  exact and_congr_right (fun _ => and_iff_right ⟨(i,p),owned,rfl⟩)

theorem soundInsert (sound : Sound owners up) (fresh : ∀ q, (i,q) ∉ owners) :
    Sound (insert (i,p) owners) up ↔ ∀ x ∈ owners, x.2 ≠ p := by
  constructor
  · rintro ⟨apart,_⟩ x mem same
    have one := apart (.inr mem) (.inl rfl) same
    rw [one] at mem
    exact fresh p mem
  · intro free
    refine ⟨?_,sound.2.trans (Set.image_mono (Set.subset_insert _ _))⟩
    rintro x (rfl | left) y (rfl | right) same
    · rfl
    · exact absurd same.symm (free y right)
    · exact absurd same (free x left)
    · exact sound.1 left right same

/- An owner goes, and its project is not up. -/
theorem soundRemove (sound : Sound owners up) (only : ∀ q', (i,q') ∈ owners → q' = q) (down : ∀ p ∈ up', p ∈ up ∧ p ≠ q) :
    Sound {x ∈ owners | x.1 ≠ i} up' := by
  refine ⟨sound.1.mono (fun _ mem => mem.1),?_⟩
  intro p mem
  obtain ⟨⟨j,p⟩,inside,rfl⟩ := sound.2 (down p mem).1
  refine ⟨(j,p),⟨inside,?_⟩,rfl⟩
  rintro rfl
  exact (down p mem).2 (only p inside)

/- An owner takes another project: no other has it, and its own is not up. -/
theorem soundMove (sound : Sound owners up) (owned : (i,q) ∈ owners) (only : ∀ q', (i,q') ∈ owners → q' = q) :
    Sound (insert (i,p) {x ∈ owners | x.1 ≠ i}) up ↔ (∀ x ∈ owners, x.1 ≠ i → x.2 ≠ p) ∧ (p = q ∨ q ∉ up) := by
  constructor
  · rintro ⟨apart,covered⟩
    have free (x : ι × π) (mem : x ∈ owners) (other : x.1 ≠ i) : x.2 ≠ p := by
      intro same
      exact other (congrArg Prod.fst (apart (.inr ⟨mem,other⟩) (.inl rfl) same))
    refine ⟨free,?_⟩
    by_contra neither
    obtain ⟨moved,stays⟩ := not_or.mp neither
    obtain ⟨x,rfl | ⟨mem,other⟩,same⟩ := covered (not_not.mp stays)
    · exact moved same
    · exact other (congrArg Prod.fst (sound.1 mem owned same))
  · rintro ⟨free,own⟩
    refine ⟨?_,?_⟩
    · rintro x (rfl | ⟨left,other⟩) y (rfl | ⟨right,other'⟩) same
      · rfl
      · exact absurd same.symm (free y right other')
      · exact absurd same (free x left other)
      · exact sound.1 left right same
    · intro r mem
      obtain ⟨⟨j,r⟩,inside,rfl⟩ := sound.2 mem
      by_cases here : j = i
      · subst here
        cases only r inside
        rcases own with rfl | down
        · exact ⟨(j,p),.inl rfl,rfl⟩
        · exact absurd mem down
      · exact ⟨(j,r),.inr ⟨inside,here⟩,rfl⟩

end

variable {m : CaseMap} {k : Outcomes} {e : Nat} {s s' : Panel} {b : DockerStack}

/- The project that docker compose is run with for a stack. -/
@[irreducible] def DockerStack.project (m : CaseMap) (b : DockerStack) : String := sanitizeProject m b.name

/- In an environment no two stacks have one project, and one that was brought up and not taken down is
that of exactly one stack. -/
structure OneEach (m : CaseMap) (e : Nat) (s : Panel) : Prop where
  apart : ∀ a ∈ s.table.rows, ∀ b ∈ s.table.rows, live (some e) a = true → live (some e) b = true → a.project m = b.project m → a = b
  owned : ∀ p, (some e,p) ∈ s.up → ∃! b, b ∈ s.table.rows ∧ live (some e) b = true ∧ b.project m = p

def holders (m : CaseMap) (e : Nat) (l : List DockerStack) : Set (Nat × String) :=
  {x | ∃ b ∈ l, live (some e) b = true ∧ (b.id,b.project m) = x}

def ups (e : Nat) (s : Panel) : Set String := {p | (some e,p) ∈ s.up}

theorem holdersOnly (mem : b ∈ s.table.rows) : ∀ q, (b.id,q) ∈ holders m e s.table.rows → q = b.project m := by
  rintro q ⟨a,inside,_,same⟩
  obtain ⟨number,rfl⟩ := Prod.mk.inj same
  rw [Numbered.same s.table inside mem number]

theorem oneEachSound : OneEach m e s ↔ Sound (holders m e s.table.rows) (ups e s) := by
  constructor
  · rintro ⟨apart,owned⟩
    refine ⟨?_,?_⟩
    · rintro _ ⟨a,left,here,rfl⟩ _ ⟨b,right,there,rfl⟩ same
      rw [apart a left b right here there same]
    · intro p mem
      obtain ⟨b,⟨inside,here,same⟩,_⟩ := owned p mem
      exact ⟨_,⟨b,inside,here,rfl⟩,same⟩
  · rintro ⟨apart,owned⟩
    have alone : ∀ a ∈ s.table.rows, ∀ b ∈ s.table.rows, live (some e) a = true → live (some e) b = true → a.project m = b.project m → a = b := by
      intro a left b right here there same
      have pair := apart ⟨a,left,here,rfl⟩ ⟨b,right,there,rfl⟩ same
      exact Numbered.same s.table left right (congrArg Prod.fst pair)
    refine ⟨alone,?_⟩
    intro p mem
    obtain ⟨_,⟨b,inside,here,rfl⟩,same⟩ := owned mem
    refine ⟨b,⟨inside,here,same⟩,?_⟩
    rintro a ⟨left,there,other⟩
    exact alone a left b inside there here (other.trans same.symm)

theorem projectCore : (core b).project m = b.project m := by
  unfold DockerStack.project
  rfl

/- A holder is one whatever its status is. -/
theorem holdersCore (l : List DockerStack) : holders m e (l.map core) = holders m e l := by
  have same (b : DockerStack) : ((core b).id,(core b).project m) = (b.id,b.project m) := congrArg (Prod.mk b.id) projectCore
  ext x
  constructor
  · rintro ⟨_,mem,here,rfl⟩
    obtain ⟨b,inside,rfl⟩ := List.mem_map.mp mem
    exact ⟨b,inside,here,(same b).symm⟩
  · rintro ⟨b,mem,here,rfl⟩
    exact ⟨core b,List.mem_map_of_mem mem,here,same b⟩

theorem holdersRows (rows : cores s' = cores s) : holders m e s'.table.rows = holders m e s.table.rows := by
  rw [← holdersCore s'.table.rows,← holdersCore s.table.rows]
  exact congrArg (holders m e) rows

theorem quietOneEach (one : OneEach m e s) (quiet : Quiet s s') : OneEach m e s' := by
  rw [oneEachSound] at one ⊢
  rw [holdersRows quiet.rows]
  exact soundFewer one (fun p mem => quiet.up _ mem)

theorem broughtOneEach (mem : core b ∈ cores s) (here : live (some e) b = true) (brought : Brought m (some e) b s s') :
    OneEach m e s' ↔ OneEach m e s := by
  rw [oneEachSound,oneEachSound,holdersRows brought.rows]
  rcases brought.up with same | more
  · unfold ups
    rw [same]
  · have owned : (b.id,b.project m) ∈ holders m e s.table.rows := by
      rw [← holdersCore,← projectCore]
      exact ⟨core b,mem,here,rfl⟩
    have pushed : s'.up = (some e,b.project m) :: s.up := by
      unfold DockerStack.project
      exact more
    have grown : ups e s' = insert (b.project m) (ups e s) := by
      ext p
      unfold ups
      rw [pushed]
      constructor
      · intro here
        rcases List.mem_cons.mp here with new | old
        · exact .inl (Prod.mk.inj new).2
        · exact .inr old
      · rintro (rfl | old)
        · exact List.mem_cons_self
        · exact List.mem_cons_of_mem _ old
    rw [grown,soundMore owned]

/- A stack that comes in, or takes another name, uses no project of another one, and gives up none that is up. -/
def Separate (m : CaseMap) (e : Nat) (s : Panel) : Request → Prop
  | .create k body => ∀ e', Creates m k (some e) body s e' → ∀ a ∈ s.table.rows, live (some e) a = true →
      a.project m ≠ sanitizeProject m (composecliSanitize m body.name)
  | .update k id body => ∀ b, Updates m k (some e) id body s b →
      (∀ a ∈ s.table.rows, live (some e) a = true → a.id ≠ b.id → a.project m ≠ sanitizeProject m (renamed m body b)) ∧
        (sanitizeProject m (renamed m body b) = b.project m ∨ (some e,b.project m) ∉ s.up)
  | _ => True

theorem holdersInsert {r : DockerStack} (here : live (some e) r = true) :
    holders m e (s.table.insert r).rows = insert (s.table.drawn,r.project m) (holders m e s.table.rows) := by
  have same : ({r with id := s.table.drawn} : DockerStack).project m = r.project m := by
    unfold DockerStack.project
    rfl
  ext x
  constructor
  · rintro ⟨b,mem,there,rfl⟩
    rcases memInsert.mp mem with old | rfl
    · exact .inr ⟨b,old,there,rfl⟩
    · exact .inl (congrArg (Prod.mk s.table.drawn) same)
  · rintro (rfl | ⟨b,old,there,rfl⟩)
    · exact ⟨_,memInsert.mpr (.inr rfl),here,congrArg (Prod.mk s.table.drawn) same⟩
    · exact ⟨b,memInsert.mpr (.inl old),there,rfl⟩

theorem createOneEach {body : UpsertBody} (one : OneEach m e s) :
    OneEach m e (afterCreate m e body s) ↔
      ∀ a ∈ s.table.rows, live (some e) a = true → a.project m ≠ sanitizeProject m (composecliSanitize m body.name) := by
  have named : (newStack e (composecliSanitize m body.name) (trimSpace body.composeYAML) body).project m =
      sanitizeProject m (composecliSanitize m body.name) := by
    unfold DockerStack.project newStack DockerStack.Normalize
    dsimp only
    rw [sanitizeTrimmed]
  have here : live (some e) (newStack e (composecliSanitize m body.name) (trimSpace body.composeYAML) body) = true := by
    unfold live newStack DockerStack.Normalize
    simp
  have fresh (q : String) : (s.table.drawn,q) ∉ holders m e s.table.rows := by
    rintro ⟨a,mem,_,same⟩
    exact Nat.ne_of_lt (s.table.bounded a mem) (Prod.mk.inj same).1
  have whole := soundInsert (p := sanitizeProject m (composecliSanitize m body.name)) (oneEachSound.mp one) fresh
  rw [← named,← holdersInsert here,named] at whole
  rw [oneEachSound]
  refine whole.trans ?_
  constructor
  · intro free a mem live
    exact free _ ⟨a,mem,live,rfl⟩
  · rintro free _ ⟨a,mem,live,rfl⟩
    exact free a mem live

theorem holdersSave {r : DockerStack} (mem : b ∈ s.table.rows) (number : kind.ident b = kind.ident r) (here : live (some e) r = true) :
    holders m e (s.table.save r).rows = insert (b.id,r.project m) {x ∈ holders m e s.table.rows | x.1 ≠ b.id} := by
  have same : (b.id,r.project m) = (r.id,r.project m) := congrArg (fun id => (id,r.project m)) number
  ext x
  constructor
  · rintro ⟨a,inside,there,rfl⟩
    rcases (memSave mem number).mp inside with rfl | ⟨old,other⟩
    · exact .inl same.symm
    · exact .inr ⟨⟨a,old,there,rfl⟩,fun taken => other (taken.trans number)⟩
  · rintro (rfl | ⟨⟨a,old,there,rfl⟩,other⟩)
    · exact ⟨r,(memSave mem number).mpr (.inl rfl),here,same.symm⟩
    · exact ⟨a,(memSave mem number).mpr (.inr ⟨old,fun taken => other (taken.trans number.symm)⟩),there,rfl⟩

theorem updatedProject (trimmed : trimSpace b.name = b.name) (body : UpsertBody) :
    (b.updated m body).project m = sanitizeProject m (renamed m body b) := by
  unfold DockerStack.project DockerStack.updated DockerStack.Normalize
  dsimp only
  rw [renamedTrimmed trimmed]

theorem updatedLive (body : UpsertBody) : live (some e) (b.updated m body) = live (some e) b := by
  unfold live DockerStack.updated DockerStack.Normalize
  rfl

theorem afterUpdateUps (body : UpsertBody) : ups e (afterUpdate m body b s) = ups e s := by
  unfold afterUpdate
  dsimp only
  split
  · rfl
  · rfl

theorem updateOneEach {id : Nat} {body : UpsertBody} (trimmed : Trimmed s) (one : OneEach m e s) (u : Updates m k (some e) id body s b) :
    OneEach m e (afterUpdate m body b s) ↔
      (∀ a ∈ s.table.rows, live (some e) a = true → a.id ≠ b.id → a.project m ≠ sanitizeProject m (renamed m body b)) ∧
        (sanitizeProject m (renamed m body b) = b.project m ∨ (some e,b.project m) ∉ s.up) := by
  obtain ⟨mem,here,_⟩ := loaded u.found
  have named := updatedProject (m := m) (loadedHeld trimmed u.found).trimmed body
  have after := holdersSave (r := b.updated m body) (m := m) mem (updatedId body) ((updatedLive body).trans here)
  have whole := soundMove (p := sanitizeProject m (renamed m body b)) (oneEachSound.mp one) ⟨b,mem,here,rfl⟩ (holdersOnly mem)
  rw [oneEachSound,afterUpdateTable,after,afterUpdateUps,named]
  refine whole.trans (and_congr_left (fun _ => ?_))
  constructor
  · intro free a inside there other
    exact free _ ⟨a,inside,there,rfl⟩ other
  · rintro free _ ⟨a,inside,there,rfl⟩ other
    exact free a inside there other

theorem holdersGone (rows : cores s' = (cores s).map (gone b.id)) :
    holders m e s'.table.rows = {x ∈ holders m e s.table.rows | x.1 ≠ b.id} := by
  have same (a : DockerStack) : ((gone b.id a).id,(gone b.id a).project m) = (a.id,a.project m) := by
    unfold DockerStack.project
    rfl
  have stays (a : DockerStack) : live (some e) (gone b.id a) = true ↔ live (some e) a = true ∧ a.id ≠ b.id := by
    simp only [live,gone,Bool.and_eq_true,Bool.not_eq_true',Bool.or_eq_false_iff,beq_eq_false_iff_ne,beq_iff_eq]
    tauto
  rw [← holdersCore s'.table.rows,← holdersCore s.table.rows]
  change holders m e (cores s') = {x ∈ holders m e (cores s) | x.1 ≠ b.id}
  rw [rows]
  ext x
  constructor
  · rintro ⟨_,mem,there,rfl⟩
    obtain ⟨a,inside,rfl⟩ := List.mem_map.mp mem
    obtain ⟨here,other⟩ := (stays a).mp there
    exact ⟨⟨a,inside,here,(same a).symm⟩,other⟩
  · rintro ⟨⟨a,inside,here,rfl⟩,other⟩
    exact ⟨gone b.id a,List.mem_map_of_mem inside,(stays a).mpr ⟨here,other⟩,same a⟩

theorem removeOneEach (mem : b ∈ s.table.rows) (one : OneEach m e s) (removed : Removed m (some e) b s s') : OneEach m e s' := by
  rw [oneEachSound,holdersGone removed.rows]
  refine soundRemove (oneEachSound.mp one) (holdersOnly mem) ?_
  intro p inside
  obtain ⟨old,other⟩ := removed.up _ inside
  refine ⟨old,?_⟩
  rintro rfl
  unfold DockerStack.project at other
  exact other rfl

theorem stepOneEach {r : Request} (trimmed : Trimmed s) (one : OneEach m e s) (moved : step m s (some e,r) = some s') :
    OneEach m e s' ↔ Separate m e s r := by
  have whole : (r.answer m (some e) s).2 = s' := Option.some.inj moved
  subst whole
  cases r with
  | create k body =>
    rcases createCases m k (some e) body s with ⟨e',c,brought⟩ | ⟨none,quiet⟩
    · cases c.chosen
      have here : live (some e) (created m e body s) = true := by
        unfold live created newStack DockerStack.Normalize
        simp
      refine (broughtOneEach (createdHeld e body).row here brought).trans ((createOneEach one).trans ?_)
      constructor
      · intro free e' c'
        exact free
      · intro free
        exact free e c
    · exact iff_of_true (quietOneEach one quiet) (fun e' c => absurd c (none e'))
  | update k id body =>
    rcases updateCases m k (some e) id body s with ⟨b,u,brought⟩ | ⟨none,quiet⟩
    · have here : live (some e) (b.updated m body) = true := (updatedLive body).trans (loaded u.found).2.1
      refine (broughtOneEach (updatedHeld body u.found).row here brought).trans ((updateOneEach trimmed one u).trans ?_)
      constructor
      · intro apart b' u'
        cases Option.some.inj (u.found.symm.trans u'.found)
        exact apart
      · intro apart
        exact apart b u
    · exact iff_of_true (quietOneEach one quiet) (fun b u => absurd u (none b))
  | deploy k id =>
    refine iff_of_true ?_ trivial
    rcases deployCases m k (some e) trimmed id with ⟨b,found,brought⟩ | quiet
    · exact (broughtOneEach (loadedHeld trimmed found).row (loaded found).2.1 brought).mpr one
    · exact quietOneEach one quiet
  | stop k id => exact iff_of_true (quietOneEach one (stopQuiet m k (some e) trimmed id)) trivial
  | remove k id force =>
    refine iff_of_true ?_ trivial
    rcases removeCases m k (some e) trimmed id force with ⟨b,found,removed⟩ | quiet
    · exact removeOneEach (loaded found).1 one removed
    · exact quietOneEach one quiet

/- Requests in one environment: each project is that of one stack in every state, exactly as long as each
request is separate. -/
theorem projectsOneEach (m : CaseMap) (e : Nat) (rs : List Request) :
    (∀ n s, Runs.run (fun s r => step m s (some e,r)) opening (rs.take n) = some s → OneEach m e s) ↔
      Runs.Guided (fun s r => step m s (some e,r)) (Separate m e) opening rs := by
  refine Runs.guidedBeside stepTrimmed stepOneEach (by rintro _ _ ⟨⟩) openingTrimmed ⟨?_,?_⟩
  · rintro _ ⟨⟩
  · rintro _ ⟨⟩

/- A stack is created and deployed, and takes another name. -/
def newName : List Request := [.create {} {name := "web", composeYAML := "services:"},.update {} 0 {name := "site"}]

theorem renamedLeft : ¬∀ (m : CaseMap) (e : Nat) (rs : List Request) (n : Nat) (s : Panel),
    Runs.run (fun s r => step m s (some e,r)) opening (rs.take n) = some s → OneEach m e s := by
  intro always
  have ran : (Runs.run (fun s r => step ascii s (some 0,r)) opening (newName.take 2)).map
      (fun s => (s.table.rows.map (fun b => sanitizeProject ascii b.name),s.up)) = some (["site"],[(some 0,"site"),(some 0,"web")]) := by
    decide
  obtain ⟨s,ran,after⟩ := Option.map_eq_some_iff.mp ran
  obtain ⟨rows,up⟩ := Prod.mk.inj after
  have left : (some 0,"web") ∈ s.up := by
    rw [up]
    exact .tail _ (.head _)
  obtain ⟨b,⟨mem,_,named⟩,_⟩ := (always ascii 0 newName 2 s ran).owned "web" left
  have only : sanitizeProject ascii b.name ∈ ["site"] := by
    rw [← rows]
    exact List.mem_map_of_mem mem
  unfold DockerStack.project at named
  rw [named] at only
  exact absurd only (by decide)

end ContainerWS.Docker.Stacks
