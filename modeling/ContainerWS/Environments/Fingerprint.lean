import ContainerWS.Environments.Settled

/-! The bytes that fingerprint of packages/environments/sync.go hashes, and what equal fingerprints say of two
sets of rows. -/
namespace ContainerWS.Environments
open GoStrings

variable {m : UpperMap}

/- A row in the hash: each of its parts is closed with a NUL. -/
def Entry.written (e : Entry) : List Char :=
  e.name.toList ++ '\x00' :: (e.value.toList ++ '\x00' :: (if e.isDisabled then '1' else '0') :: ['\x00'])

def hashed (entries : List Entry) : List Char := entries.flatMap Entry.written

def sha256 (hash : List Char → String) (entries : List Entry) : String := hash (hashed entries)

/- What a variable is told apart by. -/
def Clean (row : OsEnvironment) : Prop := '\x00' ∉ row.name.toList ∧ '\x00' ∉ row.value.toList

/- Rows in the order in which they are loaded, none with a NUL. -/
structure Readable (rows : List OsEnvironment) : Prop where
  ordered : rows.Pairwise byName
  clean : ∀ row ∈ rows, Clean row

def OsEnvironment.entry (row : OsEnvironment) : Entry := ⟨row.name,row.value,row.isDisabled⟩

/- What stands before the first of a mark is read back. -/
theorem markedApart {c : Char} {a b s t : List Char} (left : c ∉ a) (right : c ∉ b) (same : a ++ c :: s = b ++ c :: t) :
    a = b ∧ s = t := by
  induction a generalizing b with
  | nil =>
    cases b with
    | nil => exact ⟨rfl,(List.cons.inj same).2⟩
    | cons y b =>
      have here : c = y := (List.cons.inj same).1
      exact absurd (here ▸ List.mem_cons_self) right
  | cons x a ih =>
    cases b with
    | nil =>
      have here : x = c := (List.cons.inj same).1
      exact absurd (here ▸ List.mem_cons_self) left
    | cons y b =>
      obtain ⟨head,rest⟩ := List.cons.inj same
      obtain ⟨tail,after⟩ := ih (fun mem => left (List.mem_cons_of_mem _ mem)) (fun mem => right (List.mem_cons_of_mem _ mem)) rest
      exact ⟨by rw [head,tail],after⟩

theorem writtenApart {e f : Entry} {s t : List Char} (left : '\x00' ∉ e.name.toList ∧ '\x00' ∉ e.value.toList)
    (right : '\x00' ∉ f.name.toList ∧ '\x00' ∉ f.value.toList) (same : e.written ++ s = f.written ++ t) : e = f ∧ s = t := by
  simp only [Entry.written,List.append_assoc,List.cons_append] at same
  obtain ⟨names,rest⟩ := markedApart left.1 right.1 same
  obtain ⟨values,flags⟩ := markedApart left.2 right.2 rest
  obtain ⟨flag,after⟩ := List.cons.inj flags
  have off : e.isDisabled = f.isDisabled := by
    revert flag
    cases e.isDisabled <;> cases f.isDisabled <;> decide
  rw [String.toList_inj] at names values
  refine ⟨?_,(List.cons.inj after).2⟩
  cases e
  cases f
  simp only [Entry.mk.injEq]
  exact ⟨names,values,off⟩

theorem hashedApart {es fs : List Entry} (left : ∀ e ∈ es, '\x00' ∉ e.name.toList ∧ '\x00' ∉ e.value.toList)
    (right : ∀ f ∈ fs, '\x00' ∉ f.name.toList ∧ '\x00' ∉ f.value.toList) (same : hashed es = hashed fs) : es = fs := by
  have some (e : Entry) (rest : List Entry) : hashed (e :: rest) ≠ [] := by
    unfold hashed Entry.written
    rw [List.flatMap_cons]
    simp
  induction es generalizing fs with
  | nil =>
    cases fs with
    | nil => rfl
    | cons f fs => exact absurd same.symm (some f fs)
  | cons e es ih =>
    cases fs with
    | nil => exact absurd same (some e es)
    | cons f fs =>
      unfold hashed at same
      rw [List.flatMap_cons,List.flatMap_cons] at same
      obtain ⟨head,tail⟩ := writtenApart (left e List.mem_cons_self) (right f List.mem_cons_self) same
      rw [head,ih (fun e mem => left e (List.mem_cons_of_mem _ mem)) (fun f mem => right f (List.mem_cons_of_mem _ mem)) tail]

theorem contentOrdered {rows : List OsEnvironment} (ordered : rows.Pairwise byName) : content rows = rows.map OsEnvironment.entry := by
  rw [content,ordered.insertionSort_eq]
  rfl

/- A row as far as applySync reads it. -/
theorem planRowEntry (c : Config m) (plan : Plan) {row other : OsEnvironment} (same : row.entry = other.entry) :
    ∀ name core, ((plan.row c row).desired name,(plan.row c row).disabled name,(plan.row c row).config.get core) =
      ((plan.row c other).desired name,(plan.row c other).disabled name,(plan.row c other).config.get core) := by
  intro name core
  have parts : row.name = other.name ∧ row.value = other.value ∧ row.isDisabled = other.isDisabled := by
    simpa only [OsEnvironment.entry,Entry.mk.injEq] using same
  have takes : taken c name row = taken c name other := by rw [taken,taken,parts.1]
  have hit : hits c core row = hits c core other := by rw [hits,hits,parts.1,parts.2.2]
  rw [(planRowDesired c plan row name).1,(planRowDesired c plan row name).2,(planRowDesired c plan other name).1,
    (planRowDesired c plan other name).2,planRowGet,planRowGet,takes,hit,parts.2.1,parts.2.2]

theorem planEntries (c : Config m) {rows others : List OsEnvironment}
    (same : rows.map OsEnvironment.entry = others.map OsEnvironment.entry) (plan : Plan) :
    rows.foldl (Plan.row c) plan = others.foldl (Plan.row c) plan := by
  induction rows generalizing others plan with
  | nil =>
    cases others with
    | nil => rfl
    | cons _ _ => cases same
  | cons row rest ih =>
    cases others with
    | nil => cases same
    | cons other rest' =>
      obtain ⟨head,tail⟩ := List.cons.inj same
      have one : plan.row c row = plan.row c other := by
        have all := planRowEntry c plan head
        have desired : (plan.row c row).desired = (plan.row c other).desired := funext fun name => (Prod.mk.inj (all name .PORT)).1
        have disabled : (plan.row c row).disabled = (plan.row c other).disabled :=
          funext fun name => (Prod.mk.inj (Prod.mk.inj (all name .PORT)).2).1
        have config : (plan.row c row).config = (plan.row c other).config :=
          configExt.mpr fun core => (Prod.mk.inj (Prod.mk.inj (all "" core)).2).2
        cases row' : plan.row c row
        cases other' : plan.row c other
        rw [row',other'] at desired disabled config
        simp only [Plan.mk.injEq]
        exact ⟨desired,disabled,config⟩
      rw [List.foldl_cons,List.foldl_cons,one]
      exact ih tail _

theorem setenvTwice (env env' : Environ) (name value : String) (same : env' name = setenv env name value name) :
    setenv env' name value name = env' name := by
  rw [same]
  unfold setenv at same ⊢
  split
  · rename_i bad
    rw [if_pos bad] at same
    exact same
  · exact (if_pos rfl).trans (if_pos rfl).symm

/- A variable after applySync, by what the plan says of it. -/
theorem syncedAt (sha : List Entry → String) (c : Config m) (managedKeys : String → Bool) (env : Environ)
    (rows : List OsEnvironment) (name : String) : (applySync sha c managedKeys env rows).env name =
      match c.shellOverrides.entries.lookup name with
      | some v => setenv env name v name
      | none => unsetPrevious c (planOf c rows) managedKeys (unsetDisabled c (planOf c rows) (setDesired (planOf c rows) env)) name := by
  unfold applySync applyShellPinnedEnv
  dsimp only
  rw [pinnedEnvGet c.shellOverrides.distinct]
  cases pinned : c.shellOverrides.entries.lookup name with
  | some v => exact setenvSame v (syncedPinned c managedKeys env rows pinned)
  | none => rfl

/- Applied once more to what it has left, a plan changes nothing. -/
theorem syncedTwice (sha : List Entry → String) (c : Config m) (managedKeys : String → Bool) (env : Environ)
    (rows : List OsEnvironment) :
    applySync sha c (applySync sha c managedKeys env rows).managedKeys (applySync sha c managedKeys env rows).env rows =
      applySync sha c managedKeys env rows := by
  have envs : (applySync sha c (applySync sha c managedKeys env rows).managedKeys
      (applySync sha c managedKeys env rows).env rows).env = (applySync sha c managedKeys env rows).env := by
    funext name
    have left := syncedAt sha c managedKeys env rows name
    rw [syncedAt]
    cases pinned : c.shellOverrides.entries.lookup name with
    | some v =>
      rw [pinned] at left
      exact setenvTwice env _ name v left
    | none =>
      rw [pinned] at left
      change unsetPrevious c (planOf c rows) (fun name => ((planOf c rows).desired name).isSome) _ name = _
      unfold unsetPrevious unsetDisabled setDesired at left ⊢
      by_cases gone : ((planOf c rows).disabled name && !c.isShellPinned name) = true
      · rw [if_pos gone,ite_self] at left
        rw [if_pos gone,ite_self]
        exact left.symm
      · rw [if_neg gone] at left ⊢
        cases want : (planOf c rows).desired name with
        | none => simp only [want,Option.isSome_none,Bool.false_and,Bool.false_eq_true,if_false]
        | some v =>
          rw [want] at left
          simp only [Option.isNone_some,Bool.and_false,Bool.false_and,Bool.false_eq_true,if_false] at left ⊢
          exact setenvTwice env _ name v left
  unfold applySync at envs ⊢
  dsimp only at envs ⊢
  rw [envs]

theorem entriesSync (sha : List Entry → String) (c : Config m) (managedKeys : String → Bool) (env : Environ)
    {rows others : List OsEnvironment} (same : rows.map OsEnvironment.entry = others.map OsEnvironment.entry)
    (prints : fingerprint sha rows = fingerprint sha others) :
    applySync sha c managedKeys env rows = applySync sha c managedKeys env others := by
  unfold applySync planOf
  rw [planEntries c same,prints]

theorem readableEntries {hash : List Char → String} (injective : Function.Injective hash) {rows others : List OsEnvironment}
    (readable : Readable rows) (readableOther : Readable others)
    (same : fingerprint (sha256 hash) rows = fingerprint (sha256 hash) others) :
    rows.map OsEnvironment.entry = others.map OsEnvironment.entry := by
  have clean {l : List OsEnvironment} (ok : Readable l) :
      ∀ e ∈ l.map OsEnvironment.entry, '\x00' ∉ e.name.toList ∧ '\x00' ∉ e.value.toList := by
    intro e mem
    obtain ⟨row,there,rfl⟩ := List.mem_map.mp mem
    exact ok.clean row there
  have bytes := injective same
  rw [contentOrdered readable.ordered,contentOrdered readableOther.ordered] at bytes
  exact hashedApart (clean readable) (clean readableOther) bytes

theorem fingerprintTells {hash : List Char → String} (injective : Function.Injective hash) {rows others : List OsEnvironment}
    (readable : Readable rows) (readableOther : Readable others)
    (same : fingerprint (sha256 hash) rows = fingerprint (sha256 hash) others) (c : Config m) (managedKeys : String → Bool)
    (env : Environ) :
    let s := applySync (sha256 hash) c managedKeys env rows
    applySync (sha256 hash) c managedKeys env others = s ∧ applySync (sha256 hash) c s.managedKeys s.env others = s := by
  have entries := readableEntries injective readable readableOther same
  have one (managed : String → Bool) (env : Environ) :
      applySync (sha256 hash) c managed env others = applySync (sha256 hash) c managed env rows :=
    (entriesSync (sha256 hash) c managed env entries same).symm
  dsimp only
  rw [one,one]
  exact ⟨rfl,syncedTwice (sha256 hash) c managedKeys env rows⟩

theorem plainInjective : Function.Injective String.ofList := fun _ _ same => String.ofList_injective same

theorem readableA {value : String} (clean : '\x00' ∉ value.toList) (row : OsEnvironment) (named : row.name = "A")
    (valued : row.value = value) : Readable [row] := by
  refine ⟨List.pairwise_singleton _ _,fun other mem => ?_⟩
  rw [List.mem_singleton.mp mem]
  refine ⟨?_,?_⟩
  · rw [named]
    decide
  · rw [valued]
    exact clean

/- The same variable with other marks that the hash leaves out. -/
def remarkedA : OsEnvironment := {rowA "x" with id := 2, isCore := true}

theorem fingerprintTellsA :
    let s := applySync (sha256 String.ofList) noPins (fun _ => false) (fun _ => none) [rowA "x"]
    applySync (sha256 String.ofList) noPins (fun _ => false) (fun _ => none) [remarkedA] = s ∧
      applySync (sha256 String.ofList) noPins s.managedKeys s.env [remarkedA] = s :=
  @fingerprintTells asciiUpper String.ofList plainInjective [rowA "x"] [remarkedA] (@readableA "x" (by decide) _ rfl rfl)
    (@readableA "x" (by decide) _ rfl rfl) rfl noPins (fun _ => false) (fun _ => none)

/- One row whose value reads like the rest of two. -/
def swallowing : String := String.ofList ['x','\x00','0','\x00','B','\x00','y']

def rowB : OsEnvironment := {rowA "y" with id := 2, name := "B"}

theorem normalB : normalizeName asciiUpper "B" = "B" := normalizeSelf asciiUpper (by decide)

theorem rowsAB : ([rowA "x",rowB].map (fun row => normalizeName asciiUpper row.name)).Nodup := by
  change [normalizeName asciiUpper "A",normalizeName asciiUpper "B"].Nodup
  rw [normalA,normalB]
  decide

theorem swallowedSame : fingerprint (sha256 String.ofList) [rowA swallowing] = fingerprint (sha256 String.ofList) [rowA "x",rowB] := by
  unfold fingerprint
  rw [contentOrdered (List.pairwise_singleton _ _),contentOrdered (by
    rw [List.pairwise_pair]
    unfold byName
    decide)]
  exact congrArg String.ofList (by decide)

theorem fingerprintMisses : ¬ ∀ (m : UpperMap) (hash : List Char → String), Function.Injective hash →
    ∀ rows others : List OsEnvironment, fingerprint (sha256 hash) rows = fingerprint (sha256 hash) others →
      ∀ (c : Config m) (managedKeys : String → Bool) (env : Environ),
        (applySync (sha256 hash) c managedKeys env rows).env = (applySync (sha256 hash) c managedKeys env others).env ∧
        (applySync (sha256 hash) c managedKeys env rows).config = (applySync (sha256 hash) c managedKeys env others).config := by
  intro all
  have same := (all asciiUpper String.ofList plainInjective _ _ swallowedSame noPins (fun _ => false) (fun _ => none)).1
  have absent : rowOf asciiUpper [rowA swallowing] "B" = none := by
    rw [rowOf,if_neg (by decide)]
    refine List.find?_cons_of_neg ?_
    change ¬ (normalizeName asciiUpper "A" == "B") = true
    rw [normalA]
    decide
  have present : rowOf asciiUpper [rowA "x",rowB] "B" = some rowB := by
    rw [rowOf,if_neg (by decide)]
    refine (List.find?_cons_of_neg ?_).trans (List.find?_cons_of_pos ?_)
    · change ¬ (normalizeName asciiUpper "A" == "B") = true
      rw [normalA]
      decide
    · exact beq_iff_eq.mpr normalB
  have atB := congrFun same "B"
  rw [syncedEnv _ noPins _ _ (uniqueA swallowing) "B",syncedEnv _ noPins _ _ rowsAB "B",absent,present] at atB
  have set : setenv (fun _ => none) "B" "y" "B" = some "y" := by decide
  exact Option.some_ne_none _ (set.symm.trans atB.symm)

end ContainerWS.Environments
