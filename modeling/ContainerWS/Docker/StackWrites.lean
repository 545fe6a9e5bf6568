import ContainerWS.Docker.Stacks

/-! What the requests for stacks leave: a status that is written keeps all else of a row, and names are
stored as they are compared. -/
namespace ContainerWS.Docker.Stacks
open GoStrings Numbered

/- A row without its status. -/
def core (b : DockerStack) : DockerStack := {b with status := .created, message := ""}

def cores (s : Panel) : List DockerStack := s.table.rows.map core

def Trimmed (s : Panel) : Prop := ∀ b ∈ cores s, trimSpace b.name = b.name

/- A row as a handler holds it. -/
structure Held (s : Panel) (b : DockerStack) : Prop where
  row : core b ∈ cores s
  trimmed : trimSpace b.name = b.name

variable {m : CaseMap} {k : Outcomes} {env : Option Nat} {s s' : Panel} {b : DockerStack}

theorem sanitizeSolid (m : CaseMap) (name : String) : ∀ c ∈ (composecliSanitize m name).toList, isSpace c = false := by
  intro c mem
  have kept := TextRows.trimBothMem mem
  rw [String.toList_ofList,List.mem_filterMap] at kept
  obtain ⟨r,_,here⟩ := kept
  have printed : (c.toNat = 45 ∨ c.toNat = 95 ∨ (97 ≤ c.toNat ∧ c.toNat ≤ 122) ∨ (48 ≤ c.toNat ∧ c.toNat ≤ 57)) := by
    unfold projectRune at here
    split at here
    · rename_i letter
      cases Option.some.inj here
      rcases letter with ⟨low,high⟩ | ⟨low,high⟩ | rfl | rfl
      · exact .inr (.inr (.inl ⟨low,high⟩))
      · exact .inr (.inr (.inr ⟨low,high⟩))
      · exact .inl rfl
      · exact .inr (.inl rfl)
    · split at here
      · cases Option.some.inj here
        exact .inl rfl
      · cases here
  rw [← Bool.not_eq_true]
  intro blank
  simp only [isSpace,Bool.or_eq_true,Bool.and_eq_true,decide_eq_true_eq,beq_iff_eq] at blank
  omega

theorem sanitizeTrimmed (m : CaseMap) (name : String) : trimSpace (composecliSanitize m name) = composecliSanitize m name :=
  trimSpaceSelf (sanitizeSolid m name)

theorem renamedTrimmed (trimmed : trimSpace b.name = b.name) (body : UpsertBody) : trimSpace (renamed m body b) = renamed m body b := by
  unfold renamed
  dsimp only
  split
  · exact trimmed
  · exact sanitizeTrimmed m body.name

theorem loaded {id : Nat} (found : loadStack k env id s = some b) : b ∈ s.table.rows ∧ live env b = true ∧ b.id = id := by
  unfold loadStack at found
  split at found
  · cases found
  · have held := List.find?_some found
    simp only [Bool.and_eq_true,beq_iff_eq] at held
    exact ⟨List.mem_of_find?_eq_some found,held⟩

theorem loadedHeld {id : Nat} (trimmed : Trimmed s) (found : loadStack k env id s = some b) : Held s b := by
  have row := List.mem_map_of_mem (f := core) (loaded found).1
  exact ⟨row,trimmed (core b) row⟩

theorem statusCores (held : Held s b) (fails : Bool) (status : Status) (message : String) :
    cores (s.saveStatus fails b status message) = cores s := by
  unfold Panel.saveStatus
  split
  · rfl
  · obtain ⟨old,mem,same⟩ := List.mem_map.mp held.row
    have number : (core old).id = (core b).id := congrArg DockerStack.id same
    refine mapSave core mem number ?_
    rw [same]
    simp only [core,DockerStack.Normalize,held.trimmed]

/- What running an up leaves. -/
structure Brought (m : CaseMap) (env : Option Nat) (b : DockerStack) (s s' : Panel) : Prop where
  rows : cores s' = cores s
  accepted : s'.accepted = s.accepted
  ran : ∀ c ∈ s'.ran, c ∈ s.ran ∨ c.1 = b.combination
  kept : ∀ c ∈ s.ran, c ∈ s'.ran
  up : s'.up = s.up ∨ s'.up = (env,sanitizeProject m b.name) :: s.up

theorem broughtSame : Brought m env b s s := ⟨rfl,rfl,fun _ mem => .inl mem,fun _ mem => mem,.inl rfl⟩

theorem saveStatusBeside (fails : Bool) (status : Status) (message : String) :
    (s.saveStatus fails b status message).accepted = s.accepted ∧ (s.saveStatus fails b status message).ran = s.ran ∧
      (s.saveStatus fails b status message).up = s.up := by
  unfold Panel.saveStatus
  split <;> exact ⟨rfl,rfl,rfl⟩

theorem broughtStatus (held : Held s b) (brought : Brought m env b s s') (fails : Bool) (status : Status) (message : String) :
    Brought m env b s (s'.saveStatus fails b status message) := by
  obtain ⟨accepted,ran,up⟩ := saveStatusBeside (s := s') (b := b) fails status message
  have still : Held s' b := ⟨brought.rows ▸ held.row,held.trimmed⟩
  refine ⟨(statusCores still fails status message).trans brought.rows,accepted.trans brought.accepted,?_,?_,?_⟩
  · rw [ran]
    exact brought.ran
  · rw [ran]
    exact brought.kept
  · rw [up]
    exact brought.up

theorem bringUpBrought (held : Held s b) (o : RunOptions) (done : String) : Brought m env b s (bringUp m k env o b done s).2 := by
  have noted (up : List (Option Nat × String)) (either : up = s.up ∨ up = (env,sanitizeProject m b.name) :: s.up) :
      Brought m env b s {s with ran := (b.combination,o.upArgs) :: s.ran, up := up} := by
    refine ⟨rfl,rfl,?_,fun c mem => List.mem_cons_of_mem _ mem,either⟩
    intro c mem
    rcases List.mem_cons.mp mem with rfl | old
    · exact .inr rfl
    · exact .inl old
  unfold bringUp
  dsimp only
  split
  · refine broughtStatus held (noted _ ?_) _ _ _
    split
    · exact .inr rfl
    · exact .inl rfl
  · exact broughtStatus held (noted _ (.inr rfl)) _ _ _

theorem deployedBrought (held : Held s b) (body : UpsertBody) (done : String) : Brought m env b s (deployed m k env body b done s).2 := by
  unfold deployed
  split
  · exact broughtSame
  · exact bringUpBrought held _ _

/- A request that changes no row but in its status, and brings nothing up. -/
structure Quiet (s s' : Panel) : Prop where
  rows : cores s' = cores s
  accepted : ∀ c ∈ s.accepted, c ∈ s'.accepted
  ran : s'.ran = s.ran
  up : ∀ p ∈ s'.up, p ∈ s.up

theorem quietSame : Quiet s s := ⟨rfl,fun _ mem => mem,rfl,fun _ mem => mem⟩

theorem quietAccept (c : Combination) : Quiet s (s.accept c) := ⟨rfl,fun _ mem => List.mem_cons_of_mem _ mem,rfl,fun _ mem => mem⟩

theorem quietStatus (held : Held s b) (quiet : Quiet s s') (fails : Bool) (status : Status) (message : String) :
    Quiet s (s'.saveStatus fails b status message) := by
  obtain ⟨accepted,ran,up⟩ := saveStatusBeside (s := s') (b := b) fails status message
  have still : Held s' b := ⟨quiet.rows ▸ held.row,held.trimmed⟩
  refine ⟨(statusCores still fails status message).trans quiet.rows,?_,ran.trans quiet.ran,?_⟩
  · rw [accepted]
    exact quiet.accepted
  · rw [up]
    exact quiet.up

theorem quietDown : Quiet s (takenDown m env b s) := by
  refine ⟨rfl,fun _ mem => mem,rfl,?_⟩
  intro p mem
  exact List.mem_of_mem_filter mem

@[simp] theorem takenAccept (c : Combination) (e : Nat) (name : String) (p : DockerStack → Bool) :
    taken (s.accept c) e name p = taken s e name p := rfl

/- When CreateAPI comes to its row. -/
structure Creates (m : CaseMap) (k : Outcomes) (env : Option Nat) (body : UpsertBody) (s : Panel) (e : Nat) : Prop where
  chosen : env = some e
  named : composecliSanitize m body.name ≠ ""
  filled : trimSpace body.composeYAML ≠ ""
  valid : Config m k.config ⟨composecliSanitize m body.name,trimSpace body.composeYAML,body.envFile⟩ = none
  searched : k.lookup = false
  free : taken s e (composecliSanitize m body.name) (fun _ => true) = false
  written : k.write = false

/- The row it writes. -/
def created (m : CaseMap) (e : Nat) (body : UpsertBody) (s : Panel) : DockerStack :=
  {newStack e (composecliSanitize m body.name) (trimSpace body.composeYAML) body with id := s.table.drawn}

def afterCreate (m : CaseMap) (e : Nat) (body : UpsertBody) (s : Panel) : Panel :=
  {s.accept ⟨composecliSanitize m body.name,trimSpace body.composeYAML,body.envFile⟩ with
    table := s.table.insert (newStack e (composecliSanitize m body.name) (trimSpace body.composeYAML) body)}

theorem createdHeld (e : Nat) (body : UpsertBody) : Held (afterCreate m e body s) (created m e body s) := by
  refine ⟨List.mem_map_of_mem (memInsert.mpr (.inr rfl)),?_⟩
  exact trimSpaceTwice _

theorem createCases (m : CaseMap) (k : Outcomes) (env : Option Nat) (body : UpsertBody) (s : Panel) :
    (∃ e, Creates m k env body s e ∧ Brought m env (created m e body s) (afterCreate m e body s) (createAPI m k env body s).2) ∨
      (∀ e, ¬Creates m k env body s e) ∧ Quiet s (createAPI m k env body s).2 := by
  unfold createAPI
  cases chosen : env with
  | none =>
    refine .inr ⟨?_,quietSame⟩
    rintro e ⟨⟨⟩⟩
  | some e =>
    dsimp only
    by_cases named : composecliSanitize m body.name = ""
    · rw [if_pos named]
      exact .inr ⟨fun _ c => c.named named,quietSame⟩
    rw [if_neg named]
    by_cases filled : trimSpace body.composeYAML = ""
    · rw [if_pos filled]
      exact .inr ⟨fun _ c => c.filled filled,quietSame⟩
    rw [if_neg filled]
    cases valid : Config m k.config ⟨composecliSanitize m body.name,trimSpace body.composeYAML,body.envFile⟩ with
    | some text =>
      refine .inr ⟨fun _ c => ?_,quietSame⟩
      have other := c.valid
      rw [valid] at other
      cases other
    | none =>
      dsimp only
      cases searched : k.lookup with
      | true => exact .inr ⟨fun _ c => Bool.false_ne_true (c.searched.symm.trans searched),quietAccept _⟩
      | false =>
        rw [if_neg Bool.false_ne_true,takenAccept]
        cases free : taken s e (composecliSanitize m body.name) (fun _ => true) with
        | true =>
          rw [if_pos rfl]
          refine .inr ⟨?_,quietAccept _⟩
          intro e' c
          cases c.chosen
          exact Bool.false_ne_true (c.free.symm.trans free)
        | false =>
          rw [if_neg Bool.false_ne_true]
          cases written : k.write with
          | true => exact .inr ⟨fun _ c => Bool.false_ne_true (c.written.symm.trans written),quietAccept _⟩
          | false =>
            rw [if_neg Bool.false_ne_true]
            exact .inl ⟨e,⟨rfl,named,filled,valid,searched,free,written⟩,deployedBrought (createdHeld e body) body _⟩

/- When UpdateAPI comes to its row, and what it finds there. -/
structure Updates (m : CaseMap) (k : Outcomes) (env : Option Nat) (id : Nat) (body : UpsertBody) (s : Panel) (b : DockerStack) : Prop where
  found : loadStack k env id s = some b
  valid : refused m k body b = none
  free : clash m k body b s = false
  written : k.write = false

def afterUpdate (m : CaseMap) (body : UpsertBody) (b : DockerStack) (s : Panel) : Panel :=
  let s := if trimSpace body.composeYAML = "" then s else s.accept (checked m body b)
  {s with table := s.table.save (b.updated m body)}

theorem afterUpdateTable (body : UpsertBody) : (afterUpdate m body b s).table = s.table.save (b.updated m body) := by
  unfold afterUpdate
  dsimp only
  split
  · rfl
  · rfl

theorem updatedId (body : UpsertBody) : kind.ident b = kind.ident (b.updated m body) := by
  unfold DockerStack.updated DockerStack.Normalize kind
  dsimp only

theorem updatedHeld (body : UpsertBody) {id : Nat} (found : loadStack k env id s = some b) : Held (afterUpdate m body b s) (b.updated m body) := by
  refine ⟨?_,trimSpaceTwice _⟩
  unfold cores
  rw [afterUpdateTable]
  exact List.mem_map_of_mem ((memSave (loaded found).1 (updatedId body)).mpr (.inl rfl))

theorem updateCases (m : CaseMap) (k : Outcomes) (env : Option Nat) (id : Nat) (body : UpsertBody) (s : Panel) :
    (∃ b, Updates m k env id body s b ∧ Brought m env (b.updated m body) (afterUpdate m body b s) (updateAPI m k env id body s).2) ∨
      (∀ b, ¬Updates m k env id body s b) ∧ Quiet s (updateAPI m k env id body s).2 := by
  unfold updateAPI
  cases found : loadStack k env id s with
  | none =>
    refine .inr ⟨?_,quietSame⟩
    intro b u
    have other := u.found
    rw [found] at other
    cases other
  | some b =>
    have only (b' : DockerStack) (u : Updates m k env id body s b') : b' = b := Option.some.inj (u.found.symm.trans found)
    dsimp only
    cases valid : refused m k body b with
    | some text =>
      refine .inr ⟨?_,quietSame⟩
      intro b' u
      have other := u.valid
      rw [only b' u,valid] at other
      cases other
    | none =>
      dsimp only
      have same : clash m k body b (if trimSpace body.composeYAML = "" then s else s.accept (checked m body b)) = clash m k body b s := by
        split
        · rfl
        · rfl
      have quiet : Quiet s (if trimSpace body.composeYAML = "" then s else s.accept (checked m body b)) := by
        split
        · exact quietSame
        · exact quietAccept _
      rw [same]
      cases free : clash m k body b s with
      | true =>
        rw [if_pos rfl]
        refine .inr ⟨?_,quiet⟩
        intro b' u
        have other := u.free
        rw [only b' u,free] at other
        cases other
      | false =>
        rw [if_neg Bool.false_ne_true]
        cases written : k.write with
        | true => exact .inr ⟨fun _ u => Bool.false_ne_true (u.written.symm.trans written),quiet⟩
        | false =>
          rw [if_neg Bool.false_ne_true]
          exact .inl ⟨b,⟨found,valid,free,written⟩,deployedBrought (updatedHeld body found) body _⟩

theorem deployCases (m : CaseMap) (k : Outcomes) (env : Option Nat) (trimmed : Trimmed s) (id : Nat) :
    (∃ b, loadStack k env id s = some b ∧ Brought m env b s (deployAPI m k env id s).2) ∨ Quiet s (deployAPI m k env id s).2 := by
  unfold deployAPI
  cases found : loadStack k env id s with
  | none => exact .inr quietSame
  | some b => exact .inl ⟨b,rfl,bringUpBrought (loadedHeld trimmed found) _ _⟩

theorem stopQuiet (m : CaseMap) (k : Outcomes) (env : Option Nat) (trimmed : Trimmed s) (id : Nat) : Quiet s (stopAPI m k env id s).2 := by
  unfold stopAPI
  cases found : loadStack k env id s with
  | none => exact quietSame
  | some b =>
    have held := loadedHeld trimmed found
    dsimp only
    split
    · exact quietStatus held quietSame _ _ _
    · exact quietStatus held quietDown _ _ _

/- The row is marked, and its project is not up any more. -/
structure Removed (m : CaseMap) (env : Option Nat) (b : DockerStack) (s s' : Panel) : Prop where
  rows : cores s' = (cores s).map (gone b.id)
  accepted : ∀ c ∈ s.accepted, c ∈ s'.accepted
  ran : s'.ran = s.ran
  up : ∀ p ∈ s'.up, p ∈ s.up ∧ p ≠ (env,sanitizeProject m b.name)

theorem removeCases (m : CaseMap) (k : Outcomes) (env : Option Nat) (trimmed : Trimmed s) (id : Nat) (force : Bool) :
    (∃ b, loadStack k env id s = some b ∧ Removed m env b s (removeAPI m k env id force s).2) ∨ Quiet s (removeAPI m k env id force s).2 := by
  unfold removeAPI
  cases found : loadStack k env id s with
  | none => exact .inr quietSame
  | some b =>
    have held : Held s {b with status := .removing} := ⟨(loadedHeld trimmed found).row,(loadedHeld trimmed found).trimmed⟩
    have quiet := quietStatus held quietSame k.removing .removing b.message
    dsimp only
    generalize s.saveStatus k.removing {b with status := .removing} .removing b.message = u at quiet ⊢
    have down : Quiet s (takenDown m env {b with status := .removing} u) :=
      ⟨quiet.rows,quiet.accepted,quiet.ran,fun p mem => quiet.up p (quietDown.up p mem)⟩
    have deleted : (∃ b', some b = some b' ∧ Removed m env b' s (deleteRow k {b with status := .removing} (takenDown m env {b with status := .removing} u)).2) ∨
        Quiet s (deleteRow k {b with status := .removing} (takenDown m env {b with status := .removing} u)).2 := by
      unfold deleteRow
      split
      · exact .inr down
      · refine .inl ⟨b,rfl,?_,down.accepted,down.ran,?_⟩
        · rw [← down.rows]
          unfold cores Rows.change
          dsimp only
          rw [List.map_map,List.map_map]
          rfl
        · intro p mem
          refine ⟨down.up p mem,?_⟩
          have apart := List.of_mem_filter mem
          exact of_decide_eq_true apart
    split
    · exact deleted
    · split
      · exact deleted
      · exact .inr (quietStatus held quiet _ _ _)

/- Names are stored as they are compared, whatever is requested. -/
theorem stepTrimmed {r : Option Nat × Request} (trimmed : Trimmed s) (moved : step m s r = some s') : Trimmed s' := by
  have same {u v : Panel} (held : Trimmed u) (rows : cores v = cores u) : Trimmed v := by
    unfold Trimmed
    rwa [rows]
  obtain ⟨env,r⟩ := r
  have whole : (r.answer m env s).2 = s' := Option.some.inj moved
  subst whole
  cases r with
  | create k body =>
    rcases createCases m k env body s with ⟨e,_,brought⟩ | ⟨_,quiet⟩
    · refine same ?_ brought.rows
      intro b mem
      obtain ⟨row,inside,rfl⟩ := List.mem_map.mp mem
      rcases memInsert.mp inside with old | rfl
      · exact trimmed _ (List.mem_map_of_mem old)
      · exact trimSpaceTwice _
    · exact same trimmed quiet.rows
  | update k id body =>
    rcases updateCases m k env id body s with ⟨b,u,brought⟩ | ⟨_,quiet⟩
    · refine same ?_ brought.rows
      intro c mem
      obtain ⟨row,inside,rfl⟩ := List.mem_map.mp mem
      rw [afterUpdateTable] at inside
      rcases (memSave (loaded u.found).1 (updatedId body)).mp inside with rfl | ⟨old,_⟩
      · exact trimSpaceTwice _
      · exact trimmed _ (List.mem_map_of_mem old)
    · exact same trimmed quiet.rows
  | deploy k id =>
    rcases deployCases m k env trimmed id with ⟨b,_,brought⟩ | quiet
    · exact same trimmed brought.rows
    · exact same trimmed quiet.rows
  | stop k id => exact same trimmed (stopQuiet m k env trimmed id).rows
  | remove k id force =>
    rcases removeCases m k env trimmed id force with ⟨b,_,removed⟩ | quiet
    · intro c mem
      dsimp only [Request.answer] at mem
      rw [removed.rows] at mem
      obtain ⟨row,inside,rfl⟩ := List.mem_map.mp mem
      exact trimmed row inside
    · exact same trimmed quiet.rows

theorem openingTrimmed : Trimmed opening := by
  rintro _ ⟨⟩

end ContainerWS.Docker.Stacks
