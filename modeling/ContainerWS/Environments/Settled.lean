import ContainerWS.Environments.Sync

/-! What each variable of the process is after applySync of packages/environments/sync.go, and which of them
are managed from then on. -/
namespace ContainerWS.Environments
open GoStrings

variable {m : UpperMap}

/- The row of a variable. -/
def rowOf (m : UpperMap) (rows : List OsEnvironment) (name : String) : Option OsEnvironment :=
  if name = "" then none else rows.find? (fun row => normalizeName m row.name == name)

inductive Fate where
  | value (v : String)
  | unset
  | old
  deriving DecidableEq, Repr

def fate (c : Config m) (managedKeys : String → Bool) (rows : List OsEnvironment) (name : String) : Fate :=
  match c.shellOverrides.entries.lookup name with
  | some v => .value v
  | none =>
    match rowOf m rows name with
    | some row => if row.isDisabled then .unset else .value row.value
    | none => if managedKeys name then .unset else .old

def Fate.after (before : Option String) : Fate → Option String
  | .value v => some v
  | .unset => none
  | .old => before

/- Each variable has come to its fate, and the managed ones are those with an enabled row and no pin. -/
def Settled (c : Config m) (managedKeys : String → Bool) (env : Environ) (rows : List OsEnvironment) (s : Synced) : Prop :=
  (∀ name, s.env name = (fate c managedKeys rows name).after (env name)) ∧
  ∀ name, s.managedKeys name = true ↔ c.shellOverrides.entries.lookup name = none ∧
    ∃ row, rowOf m rows name = some row ∧ row.isDisabled = false

/- What `os.Setenv` takes. -/
def Settable (name value : String) : Prop := ¬(name = "" ∨ '=' ∈ name.toList ∨ '\x00' ∈ name.toList ∨ '\x00' ∈ value.toList)

/- Each value to be set is one that can be set, or is there already; and no name left over from before is pinned
in its normal form only. -/
def Takes (c : Config m) (managedKeys : String → Bool) (env : Environ) (rows : List OsEnvironment) : Prop :=
  (∀ name v, fate c managedKeys rows name = .value v → Settable name v ∨ env name = some v) ∧
  ∀ name, managedKeys name = true → c.isShellPinned name = true → c.shellOverrides.entries.lookup name = none → env name = none

theorem setenvHere (env : Environ) (name value : String) :
    setenv env name value name = some value ↔ Settable name value ∨ env name = some value := by
  unfold setenv Settable
  by_cases bad : name = "" ∨ '=' ∈ name.toList ∨ '\x00' ∈ name.toList ∨ '\x00' ∈ value.toList
  · rw [if_pos bad]
    exact ⟨.inr,fun either => either.resolve_left (fun good => good bad)⟩
  · rw [if_neg bad]
    exact iff_of_true (if_pos rfl) (.inl bad)

theorem setenvElsewhere (env : Environ) {name other : String} (value : String) (apart : other ≠ name) :
    setenv env name value other = env other := by
  unfold setenv
  split
  · rfl
  · exact if_neg apart

/- It depends on nothing but what the variable was. -/
theorem setenvSame {env env' : Environ} {name : String} (value : String) (same : env name = env' name) :
    setenv env name value name = setenv env' name value name := by
  unfold setenv
  split
  · exact same
  · exact (if_pos rfl).trans (if_pos rfl).symm

theorem pinnedEnvGet {entries : List (String × String)} (distinct : (entries.map Prod.fst).Nodup) (env : Environ) (name : String) :
    (entries.foldl (fun env e => setenv env e.1 e.2) env) name =
      match entries.lookup name with
      | some v => setenv env name v name
      | none => env name := by
  induction entries generalizing env with
  | nil => rfl
  | cons e rest ih =>
    obtain ⟨fresh,distinct⟩ := List.nodup_cons.mp distinct
    rw [List.foldl_cons,ih distinct,List.lookup_cons]
    by_cases here : name = e.1
    · have absent : rest.lookup name = none := by
        rw [List.lookup_eq_none_iff]
        intro other mem
        exact bne_iff_ne.mpr (fun same => fresh (List.mem_map.mpr ⟨other,mem,(here.symm.trans same).symm⟩))
      rw [absent,here,beq_self_eq_true]
    · rw [beq_false_of_ne here]
      cases rest.lookup name with
      | none => exact setenvElsewhere env e.2 here
      | some v => exact setenvSame v (setenvElsewhere env e.2 here)

/- A row that the plan takes in: it has a name, and no pin. -/
def taken (c : Config m) (name : String) (row : OsEnvironment) : Bool :=
  normalizeName m row.name == name && name != "" && !c.isShellPinned name

theorem planRowDesired (c : Config m) (plan : Plan) (row : OsEnvironment) (name : String) :
    (plan.row c row).desired name = (if taken c name row && !row.isDisabled then some row.value else plan.desired name) ∧
    (plan.row c row).disabled name = (taken c name row && row.isDisabled || plan.disabled name) := by
  unfold Plan.row taken
  by_cases empty : normalizeName m row.name = ""
  · rw [if_pos empty,empty]
    by_cases here : name = ""
    · simp [here]
    · simp [Ne.symm here]
  · rw [if_neg empty]
    by_cases here : normalizeName m row.name = name
    · subst here
      cases c.isShellPinned (normalizeName m row.name) <;> cases row.isDisabled <;> simp [empty]
    · have other : name ≠ normalizeName m row.name := fun same => here same.symm
      cases c.isShellPinned (normalizeName m row.name) <;> cases row.isDisabled <;>
        simp [beq_false_of_ne here,beq_false_of_ne other,other]

theorem planDesired (c : Config m) {rows : List OsEnvironment} (unique : (rows.map (fun row => normalizeName m row.name)).Nodup)
    (plan : Plan) {name : String} (filled : name ≠ "") (free : c.isShellPinned name = false) :
    (rows.foldl (Plan.row c) plan).desired name = (match rowOf m rows name with
      | some row => if row.isDisabled then plan.desired name else some row.value
      | none => plan.desired name) ∧
    (rows.foldl (Plan.row c) plan).disabled name = (match rowOf m rows name with
      | some row => row.isDisabled || plan.disabled name
      | none => plan.disabled name) := by
  unfold rowOf
  rw [if_neg filled]
  induction rows generalizing plan with
  | nil => exact ⟨rfl,rfl⟩
  | cons row rest ih =>
    rw [List.map_cons] at unique
    obtain ⟨fresh,unique⟩ := List.nodup_cons.mp unique
    obtain ⟨desired,disabled⟩ := planRowDesired c plan row name
    rw [List.foldl_cons,(ih unique (plan.row c row)).1,(ih unique (plan.row c row)).2]
    by_cases here : normalizeName m row.name = name
    · have absent : rest.find? (fun row => normalizeName m row.name == name) = none := by
        rw [List.find?_eq_none]
        intro other mem same
        exact fresh (List.mem_map.mpr ⟨other,mem,(beq_iff_eq.mp same).trans here.symm⟩)
      have takes : taken c name row = true := by simp [taken,here,filled,free]
      have found : (row :: rest).find? (fun row => normalizeName m row.name == name) = some row :=
        List.find?_cons_of_pos (beq_iff_eq.mpr here)
      rw [absent,found,desired,disabled,takes]
      dsimp only
      cases row.isDisabled <;> exact ⟨rfl,rfl⟩
    · have skips : taken c name row = false := by simp [taken,here]
      have past : (row :: rest).find? (fun row => normalizeName m row.name == name) =
          rest.find? (fun row => normalizeName m row.name == name) :=
        List.find?_cons_of_neg (fun same => here (beq_iff_eq.mp same))
      rw [past,desired,disabled,skips]
      exact ⟨rfl,rfl⟩

/- No row of a pinned variable, and none without a name, is taken in. -/
theorem planLeaves (c : Config m) (rows : List OsEnvironment) (plan : Plan) {name : String}
    (out : name = "" ∨ c.isShellPinned name = true) :
    (rows.foldl (Plan.row c) plan).desired name = plan.desired name ∧
    (rows.foldl (Plan.row c) plan).disabled name = plan.disabled name := by
  induction rows generalizing plan with
  | nil => exact ⟨rfl,rfl⟩
  | cons row rest ih =>
    obtain ⟨desired,disabled⟩ := planRowDesired c plan row name
    have skips : taken c name row = false := by
      unfold taken
      rcases out with rfl | pinned
      · simp
      · simp [pinned]
    rw [List.foldl_cons,(ih (plan.row c row)).1,(ih (plan.row c row)).2,desired,disabled,skips]
    exact ⟨rfl,rfl⟩

/- The variable that no row reaches. -/
theorem planLeft (c : Config m) (rows : List OsEnvironment) {name : String} (out : name = "" ∨ c.isShellPinned name = true) :
    (planOf c rows).desired name = none ∧ (planOf c rows).disabled name = false := planLeaves c rows _ out

theorem pinnedNormal (c : Config m) {name v : String} (pinned : c.shellOverrides.entries.lookup name = some v) :
    normalizeName m name = name := by
  obtain ⟨e,mem,same⟩ : ∃ e ∈ c.shellOverrides.entries, e.1 = name := by
    by_contra none
    have absent : c.shellOverrides.entries.lookup name = Option.none := by
      rw [List.lookup_eq_none_iff]
      intro e mem
      exact bne_iff_ne.mpr (fun same => none ⟨e,mem,same.symm⟩)
    rw [absent] at pinned
    cases pinned
  rw [← same]
  exact c.shellOverrides.normal e mem

theorem pinnedByName (c : Config m) {name v : String} (pinned : c.shellOverrides.entries.lookup name = some v) :
    c.isShellPinned name = true := by
  rw [Config.isShellPinned,Config.shellLookup,pinnedNormal c pinned,pinned]
  rfl

/- A variable with a row is in normal form, so it is pinned under its own name or not at all. -/
theorem rowPinned (c : Config m) {rows : List OsEnvironment} {name : String} {row : OsEnvironment}
    (found : rowOf m rows name = some row) (free : c.shellOverrides.entries.lookup name = none) :
    name ≠ "" ∧ c.isShellPinned name = false := by
  unfold rowOf at found
  split at found
  · cases found
  · rename_i filled
    have same : normalizeName m row.name = name := 
      beq_iff_eq.mp (List.find?_some (p := fun row : OsEnvironment => normalizeName m row.name == name) found)
    refine ⟨filled,?_⟩
    rw [Config.isShellPinned,Config.shellLookup,← same,normalizeTwice,same,free]
    rfl

/- What a variable is before the pins are set. -/
theorem syncedUnpinned (c : Config m) (managedKeys : String → Bool) (env : Environ) {rows : List OsEnvironment}
    (unique : (rows.map (fun row => normalizeName m row.name)).Nodup) {name : String}
    (free : c.shellOverrides.entries.lookup name = none) :
    unsetPrevious c (planOf c rows) managedKeys (unsetDisabled c (planOf c rows) (setDesired (planOf c rows) env)) name =
      match rowOf m rows name with
      | some row => if row.isDisabled then none else setenv env name row.value name
      | none => if managedKeys name && !c.isShellPinned name then none else env name := by
  unfold unsetPrevious unsetDisabled setDesired
  cases found : rowOf m rows name with
  | some row =>
    obtain ⟨filled,open'⟩ := rowPinned c found free
    have plan := planDesired c unique ⟨fun _ => none,fun _ => false,{}⟩ filled open'
    rw [found] at plan
    change (planOf c rows).desired name = _ ∧ (planOf c rows).disabled name = _ at plan
    dsimp only at plan ⊢
    rw [plan.1,plan.2,open']
    cases row.isDisabled <;> simp
  | none =>
    by_cases out : name = "" ∨ c.isShellPinned name = true
    · rw [(planLeft c rows out).1,(planLeft c rows out).2]
      simp
    · rw [not_or,Bool.not_eq_true] at out
      have plan := planDesired c unique ⟨fun _ => none,fun _ => false,{}⟩ out.1 out.2
      rw [found] at plan
      change (planOf c rows).desired name = _ ∧ (planOf c rows).disabled name = _ at plan
      rw [plan.1,plan.2,out.2]
      simp

theorem syncedPinned (c : Config m) (managedKeys : String → Bool) (env : Environ) (rows : List OsEnvironment) {name v : String}
    (pinned : c.shellOverrides.entries.lookup name = some v) :
    unsetPrevious c (planOf c rows) managedKeys (unsetDisabled c (planOf c rows) (setDesired (planOf c rows) env)) name =
      env name := by
  have byName := pinnedByName c pinned
  unfold unsetPrevious unsetDisabled setDesired
  rw [(planLeft c rows (.inr byName)).1,(planLeft c rows (.inr byName)).2,byName]
  simp

theorem syncedEnv (sha : List Entry → String) (c : Config m) (managedKeys : String → Bool) (env : Environ)
    {rows : List OsEnvironment} (unique : (rows.map (fun row => normalizeName m row.name)).Nodup) (name : String) :
    (applySync sha c managedKeys env rows).env name =
      match c.shellOverrides.entries.lookup name with
      | some v => setenv env name v name
      | none =>
        match rowOf m rows name with
        | some row => if row.isDisabled then none else setenv env name row.value name
        | none => if managedKeys name && !c.isShellPinned name then none else env name := by
  unfold applySync applyShellPinnedEnv
  dsimp only
  rw [pinnedEnvGet c.shellOverrides.distinct]
  cases pinned : c.shellOverrides.entries.lookup name with
  | some v => exact setenvSame v (syncedPinned c managedKeys env rows pinned)
  | none => exact syncedUnpinned c managedKeys env unique pinned

/- The managed variables, in any case. -/
theorem syncedKeys (sha : List Entry → String) (c : Config m) (managedKeys : String → Bool) (env : Environ)
    {rows : List OsEnvironment} (unique : (rows.map (fun row => normalizeName m row.name)).Nodup) (name : String) :
    (applySync sha c managedKeys env rows).managedKeys name = true ↔ c.shellOverrides.entries.lookup name = none ∧
      ∃ row, rowOf m rows name = some row ∧ row.isDisabled = false := by
  change ((planOf c rows).desired name).isSome = true ↔ _
  by_cases out : name = "" ∨ c.isShellPinned name = true
  · rw [(planLeft c rows out).1]
    refine iff_of_false Bool.false_ne_true ?_
    rintro ⟨free,row,found,_⟩
    obtain ⟨filled,open'⟩ := rowPinned c found free
    rcases out with empty | pinned
    · exact filled empty
    · exact Bool.false_ne_true (open'.symm.trans pinned)
  · rw [not_or,Bool.not_eq_true] at out
    have plan := (planDesired c unique ⟨fun _ => none,fun _ => false,{}⟩ out.1 out.2).1
    change (planOf c rows).desired name = _ at plan
    have free : c.shellOverrides.entries.lookup name = none := by
      cases pinned : c.shellOverrides.entries.lookup name with
      | none => rfl
      | some v => exact absurd ((pinnedByName c pinned).symm.trans out.2) (by decide)
    rw [plan,free]
    cases rowOf m rows name with
    | none => simp
    | some row => cases disabled : row.isDisabled <;> simp [disabled]

theorem settledIff (sha : List Entry → String) (c : Config m) (managedKeys : String → Bool) (env : Environ)
    {rows : List OsEnvironment} (unique : (rows.map (fun row => normalizeName m row.name)).Nodup) :
    Settled c managedKeys env rows (applySync sha c managedKeys env rows) ↔ Takes c managedKeys env rows := by
  have keys := syncedKeys sha c managedKeys env unique
  unfold Settled Takes
  rw [and_iff_left keys,← forall_and]
  refine forall_congr' fun name => ?_
  rw [syncedEnv sha c managedKeys env unique name]
  unfold fate
  cases pinned : c.shellOverrides.entries.lookup name with
  | some v =>
    dsimp only [Fate.after]
    rw [setenvHere]
    exact ⟨fun sets => ⟨fun w same => Fate.value.inj same ▸ sets,by rintro _ _ ⟨⟩⟩,fun both => both.1 v rfl⟩
  | none =>
    cases found : rowOf m rows name with
    | some row =>
      obtain ⟨_,open'⟩ := rowPinned c found pinned
      have free : managedKeys name = true → c.isShellPinned name = true →
          (none : Option String) = none → env name = none :=
        fun _ shell => absurd (open'.symm.trans shell) (by decide)
      dsimp only
      cases row.isDisabled
      · rw [if_neg Bool.false_ne_true,if_neg Bool.false_ne_true]
        dsimp only [Fate.after]
        rw [setenvHere]
        exact ⟨fun sets => ⟨fun w same => Fate.value.inj same ▸ sets,free⟩,fun both => both.1 row.value rfl⟩
      · rw [if_pos rfl,if_pos rfl]
        exact iff_of_true rfl ⟨by rintro _ ⟨⟩,free⟩
    | none =>
      dsimp only
      cases managedKeys name
      · exact iff_of_true rfl ⟨by rintro _ ⟨⟩,by rintro ⟨⟩⟩
      · rw [Bool.true_and,if_pos rfl]
        cases c.isShellPinned name
        · exact iff_of_true rfl ⟨by rintro _ ⟨⟩,by rintro _ ⟨⟩⟩
        · rw [Bool.not_true,if_neg Bool.false_ne_true]
          exact ⟨fun same => ⟨by rintro _ ⟨⟩,fun _ _ _ => same⟩,fun both => both.2 rfl rfl rfl⟩

/- applySync itself manages names in normal form only, and such a name is pinned under itself or not at all. -/
theorem managedNormal (sha : List Entry → String) (c : Config m) (managedKeys : String → Bool) (env : Environ)
    {rows : List OsEnvironment} (unique : (rows.map (fun row => normalizeName m row.name)).Nodup) {name : String}
    (managed : (applySync sha c managedKeys env rows).managedKeys name = true) : c.isShellPinned name = false := by
  obtain ⟨free,row,found,_⟩ := (syncedKeys sha c managedKeys env unique name).mp managed
  exact (rowPinned c found free).2

def noPins : Config asciiUpper := ⟨"",⟨[],List.nodup_nil,by rintro _ ⟨⟩,by rintro _ ⟨⟩⟩⟩

def rowA (value : String) : OsEnvironment := ⟨1,"A",value,"","",.env,false,false,false,false,false⟩

theorem normalA : normalizeName asciiUpper "A" = "A" := normalizeSelf asciiUpper (by decide)

theorem uniqueA (value : String) : ([rowA value].map (fun row => normalizeName asciiUpper row.name)).Nodup := List.nodup_singleton _

theorem settledIffA : Settled noPins (fun _ => false) (fun _ => none) [rowA "x"]
      (applySync (fun _ => "") noPins (fun _ => false) (fun _ => none) [rowA "x"]) ↔
    Takes noPins (fun _ => false) (fun _ => none) [rowA "x"] :=
  settledIff (fun _ => "") noPins (fun _ => false) (fun _ => none) (uniqueA "x")

/- A value that no variable can have. -/
def withNul : String := String.ofList ['a','\x00']

theorem nulNotSet : ¬ ∀ (m : UpperMap) (sha : List Entry → String) (c : Config m) (managedKeys : String → Bool) (env : Environ)
    (rows : List OsEnvironment), (rows.map (fun row => normalizeName m row.name)).Nodup →
      Settled c managedKeys env rows (applySync sha c managedKeys env rows) := by
  intro all
  have set := (all asciiUpper (fun _ => "") noPins (fun _ => false) (fun _ => none) [rowA withNul] (uniqueA withNul)).1 "A"
  have found : rowOf asciiUpper [rowA withNul] "A" = some (rowA withNul) := by
    rw [rowOf,if_neg (by decide)]
    exact List.find?_cons_of_pos (beq_iff_eq.mpr normalA)
  rw [syncedEnv (fun _ => "") noPins (fun _ => false) (fun _ => none) (uniqueA withNul) "A",fate,found] at set
  have refused : setenv (fun _ => none) "A" withNul "A" = none := by decide
  exact Option.some_ne_none _ (set.symm.trans refused)

end ContainerWS.Environments
