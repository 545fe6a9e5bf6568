import ContainerWS.Docker.StackWrites

/-! Whether docker has accepted what a stack is stored with, and what is run. -/
namespace ContainerWS.Docker.Stacks
open GoStrings Numbered

/- Each row is stored, and each up run, with a combination that Config has accepted. -/
def Validated (s : Panel) : Prop := (∀ b ∈ s.table.rows, b.combination ∈ s.accepted) ∧ ∀ c ∈ s.ran, c.1 ∈ s.accepted

variable {m : CaseMap} {k : Outcomes} {env : Option Nat} {s s' : Panel} {b : DockerStack}

theorem coresAll {p : Combination → Prop} : (∀ b ∈ s.table.rows, p b.combination) ↔ ∀ b ∈ cores s, p b.combination := by
  unfold cores
  rw [List.forall_mem_map]
  rfl

theorem quietValidated (quiet : Quiet s s') (valid : Validated s) : Validated s' := by
  obtain ⟨rows,ran⟩ := valid
  refine ⟨?_,?_⟩
  · rw [coresAll,quiet.rows]
    intro b mem
    exact quiet.accepted _ (coresAll.mp rows b mem)
  · rw [quiet.ran]
    intro c mem
    exact quiet.accepted _ (ran c mem)

theorem broughtValidated (held : Held s b) (brought : Brought m env b s s') : Validated s' ↔ Validated s := by
  have rows : (∀ b ∈ s'.table.rows, b.combination ∈ s'.accepted) ↔ ∀ b ∈ s.table.rows, b.combination ∈ s.accepted := by
    rw [coresAll,coresAll,brought.rows,brought.accepted]
  constructor
  · rintro ⟨stored,ran⟩
    refine ⟨rows.mp stored,?_⟩
    rw [← brought.accepted]
    intro c mem
    exact ran c (brought.kept c mem)
  · rintro ⟨stored,ran⟩
    refine ⟨rows.mpr stored,?_⟩
    rw [brought.accepted]
    intro c mem
    rcases brought.ran c mem with old | new
    · exact ran c old
    · rw [new]
      exact coresAll.mp stored (core b) held.row

/- A row comes in with what has just been accepted. -/
theorem createdValidated {e : Nat} {body : UpsertBody} (valid : Validated s) : Validated (afterCreate m e body s) := by
  obtain ⟨rows,ran⟩ := valid
  refine ⟨?_,fun c mem => List.mem_cons_of_mem _ (ran c mem)⟩
  intro b mem
  rcases memInsert.mp mem with old | rfl
  · exact List.mem_cons_of_mem _ (rows b old)
  · refine List.mem_cons.mpr (.inl ?_)
    unfold DockerStack.combination newStack DockerStack.Normalize kind
    dsimp only
    rw [sanitizeTrimmed]

/- What UpdateAPI is going to store. -/
def wanted (m : CaseMap) (body : UpsertBody) (b : DockerStack) : Combination :=
  ⟨renamed m body b,if trimSpace body.composeYAML = "" then b.composeYAML else trimSpace body.composeYAML,body.envFile⟩

theorem updatedCombination (trimmed : trimSpace b.name = b.name) (body : UpsertBody) : (b.updated m body).combination = wanted m body b := by
  unfold DockerStack.combination DockerStack.updated DockerStack.Normalize wanted
  dsimp only
  rw [renamedTrimmed trimmed]

/- It is what docker has been asked about where no file of variables is cleared. -/
theorem wantedChecked (body : UpsertBody) (given : trimSpace body.composeYAML ≠ "") :
    wanted m body b = checked m body b ↔ body.envFile ≠ "" ∨ b.envFile = "" := by
  unfold wanted checked
  rw [if_neg given,Combination.mk.injEq]
  simp only [true_and]
  split
  · rename_i cleared
    rw [cleared]
    constructor
    · exact fun same => .inr same.symm
    · rintro (other | same)
      · exact absurd rfl other
      · exact same.symm
  · rename_i kept
    exact iff_of_true rfl (.inl kept)

/- The file of compose is given, and with it the file of variables unless there is none; or docker has
accepted the very combination before. -/
def Whole (m : CaseMap) (s : Panel) : Option Nat × Request → Prop
  | (env,.update k id body) => ∀ b, Updates m k env id body s b →
      (trimSpace body.composeYAML ≠ "" ∧ (body.envFile ≠ "" ∨ b.envFile = "")) ∨ wanted m body b ∈ s.accepted
  | _ => True

theorem afterUpdateAccepted (body : UpsertBody) (c : Combination) :
    c ∈ (afterUpdate m body b s).accepted ↔ (trimSpace body.composeYAML ≠ "" ∧ c = checked m body b) ∨ c ∈ s.accepted := by
  unfold afterUpdate
  dsimp only
  split
  · rename_i absent
    exact ⟨.inr,fun either => either.resolve_left (fun both => both.1 absent)⟩
  · rename_i given
    simp only [Panel.accept,List.mem_cons,given,ne_eq,not_false_eq_true,true_and]

theorem afterUpdateRan (body : UpsertBody) : (afterUpdate m body b s).ran = s.ran := by
  unfold afterUpdate
  dsimp only
  split
  · rfl
  · rfl

theorem updatedValidated {id : Nat} {body : UpsertBody} (trimmed : Trimmed s) (valid : Validated s) (u : Updates m k env id body s b) :
    Validated (afterUpdate m body b s) ↔
      (trimSpace body.composeYAML ≠ "" ∧ (body.envFile ≠ "" ∨ b.envFile = "")) ∨ wanted m body b ∈ s.accepted := by
  obtain ⟨rows,ran⟩ := valid
  have grows (c : Combination) (mem : c ∈ s.accepted) : c ∈ (afterUpdate m body b s).accepted :=
    (afterUpdateAccepted body c).mpr (.inr mem)
  have saved : Validated (afterUpdate m body b s) ↔ (b.updated m body).combination ∈ (afterUpdate m body b s).accepted := by
    constructor
    · rintro ⟨all,_⟩
      refine all _ ?_
      rw [afterUpdateTable]
      exact (memSave (loaded u.found).1 (updatedId body)).mpr (.inl rfl)
    · intro here
      refine ⟨?_,?_⟩
      · rw [afterUpdateTable]
        intro q mem
        rcases (memSave (loaded u.found).1 (updatedId body)).mp mem with rfl | ⟨old,_⟩
        · exact here
        · exact grows _ (rows q old)
      · rw [afterUpdateRan]
        exact fun c mem => grows _ (ran c mem)
  rw [saved,updatedCombination (loadedHeld trimmed u.found).trimmed,afterUpdateAccepted]
  constructor
  · rintro (⟨given,same⟩ | before)
    · exact .inl ⟨given,(wantedChecked body given).mp same⟩
    · exact .inr before
  · rintro (⟨given,kept⟩ | before)
    · exact .inl ⟨given,(wantedChecked body given).mpr kept⟩
    · exact .inr before

theorem removedValidated (removed : Removed m env b s s') (valid : Validated s) : Validated s' := by
  obtain ⟨rows,ran⟩ := valid
  refine ⟨?_,?_⟩
  · rw [coresAll,removed.rows,List.forall_mem_map]
    intro q mem
    exact removed.accepted _ (coresAll.mp rows q mem)
  · rw [removed.ran]
    exact fun c mem => removed.accepted _ (ran c mem)

theorem stepValidated {r : Option Nat × Request} (trimmed : Trimmed s) (valid : Validated s) (moved : step m s r = some s') :
    Validated s' ↔ Whole m s r := by
  obtain ⟨env,r⟩ := r
  have whole : (r.answer m env s).2 = s' := Option.some.inj moved
  subst whole
  cases r with
  | create k body =>
    refine iff_of_true ?_ trivial
    rcases createCases m k env body s with ⟨e,_,brought⟩ | ⟨_,quiet⟩
    · exact (broughtValidated (createdHeld e body) brought).mpr (createdValidated valid)
    · exact quietValidated quiet valid
  | update k id body =>
    rcases updateCases m k env id body s with ⟨b,u,brought⟩ | ⟨none,quiet⟩
    · refine (broughtValidated (updatedHeld body u.found) brought).trans ((updatedValidated trimmed valid u).trans ?_)
      constructor
      · intro kept b' u'
        cases u.found.symm.trans u'.found
        exact kept
      · intro kept
        exact kept b u
    · exact iff_of_true (quietValidated quiet valid) (fun b u => absurd u (none b))
  | deploy k id =>
    refine iff_of_true ?_ trivial
    rcases deployCases m k env trimmed id with ⟨b,found,brought⟩ | quiet
    · exact (broughtValidated (loadedHeld trimmed found) brought).mpr valid
    · exact quietValidated quiet valid
  | stop k id => exact iff_of_true (quietValidated (stopQuiet m k env trimmed id) valid) trivial
  | remove k id force =>
    refine iff_of_true ?_ trivial
    rcases removeCases m k env trimmed id force with ⟨b,_,removed⟩ | quiet
    · exact removedValidated removed valid
    · exact quietValidated quiet valid

/- In every state of a run all that is stored and run was accepted before, exactly as long as each update
is whole. -/
theorem storedValidated (m : CaseMap) (rs : List (Option Nat × Request)) :
    (∀ n s, Runs.run (step m) opening (rs.take n) = some s → Validated s) ↔ Runs.Guided (step m) (Whole m) opening rs := by
  refine Runs.guidedBeside stepTrimmed stepValidated (by rintro _ _ ⟨⟩) openingTrimmed ⟨?_,?_⟩
  · rintro _ ⟨⟩
  · rintro _ ⟨⟩

/- A stack that needs its file of variables, and an update that clears it. -/
def cleared : List (Option Nat × Request) :=
  [(some 0,.create {} {name := "web", composeYAML := "services:\n  web:\n    image: nginx:$TAG", envFile := "TAG=latest"}),
    (some 0,.update {} 0 {})]

theorem clearedUnchecked : ¬∀ (m : CaseMap) (rs : List (Option Nat × Request)) (n : Nat) (s : Panel),
    Runs.run (step m) opening (rs.take n) = some s → Validated s := by
  intro always
  have ran : (Runs.run (step ascii) opening (cleared.take 2)).map (fun s => (s.table.rows.map DockerStack.combination,s.accepted)) =
      some ([⟨"web","services:\n  web:\n    image: nginx:$TAG",""⟩],[⟨"web","services:\n  web:\n    image: nginx:$TAG","TAG=latest"⟩]) := by
    decide
  obtain ⟨s,ran,after⟩ := Option.map_eq_some_iff.mp ran
  obtain ⟨rows,accepted⟩ := Prod.mk.inj after
  have all := (always ascii cleared 2 s ran).1
  rw [← List.forall_mem_map (P := fun c => c ∈ s.accepted),rows,accepted] at all
  exact absurd (all _ (List.mem_singleton_self _)) (by decide)

end ContainerWS.Docker.Stacks
