import ContainerWS.Environments.Rows

/-! What holds of os_environments over every sequence of writing calls: core
settings keep their names and are never deleted, nothing else takes a core name,
and every stored name is well formed. -/
namespace ContainerWS.Environments
open GoStrings SoftDelete

/- EnsureCore is called by ServerConfigFromDB alone, for the core names. -/
inductive Call (m : UpperMap) where
  | create (c : Config m) (input : CreateEnvironmentInput)
  | update (id : Option Nat) (input : UpdateEnvironmentInput)
  | delete (id : Option Nat)
  | setCore (c : Config m) (env : Environ) (name value : String)
  | ensureCore (c : Config m) (env : Environ) (name : String) (core : IsCoreName m name = true)
      (shellValue defaultValue : String)

variable {m : UpperMap}

def Call.apply (t : OsEnvironments) : Call m → OsEnvironments
  | .create c input => (createEnvironment c t input).2
  | .update id input => (updateEnvironment m t id input).2
  | .delete id => (deleteEnvironment m t id).2
  | .setCore c env name value => (Environments.setCore c t env name value).2.1
  | .ensureCore c env name _ shellValue defaultValue =>
    (Environments.ensureCore c t env name shellValue defaultValue).2.1

def reach (t : OsEnvironments) (calls : List (Call m)) : OsEnvironments := calls.foldl Call.apply t

/- The row carries a core name as it stands. -/
def OsEnvironment.coreNamed (row : OsEnvironment) : Bool := (Environments.coreNamed row.name).isSome

structure Stored (row : OsEnvironment) : Prop where
  shape : namePattern row.name = true
  core : row.coreNamed = true → row.isCore = true
  kept : row.coreNamed = true → row.deletedAt = false

/- What one call may do to the table. -/
inductive Change (t : OsEnvironments) : OsEnvironments → Prop where
  | keep : Change t t
  | insert {u row} (stored : Stored row) (live : row.deletedAt = false) (done : t.insert row = some u) : Change t u
  | edit {u current row} (stored : Stored row) (mem : current ∈ t.rows) (ident : row.id = current.id)
      (live : row.deletedAt = false)
      (name : row.name = current.name ∨ current.coreNamed = false ∧ row.coreNamed = false)
      (done : t.update row = some u) : Change t u
  | delete {u current} (mem : current ∈ t.rows) (plain : current.coreNamed = false)
      (done : t.update (schema.mark current) = some u) : Change t u

@[simp] theorem validateSourceName (name : String) (row : OsEnvironment) :
    (validateSource m name row).name = name := by
  unfold validateSource
  split
  · rfl
  · split <;> rfl

@[simp] theorem validateSourceID (name : String) (row : OsEnvironment) :
    (validateSource m name row).id = row.id := by
  unfold validateSource
  split
  · rfl
  · split <;> rfl

@[simp] theorem validateSourceLive (name : String) (row : OsEnvironment) :
    (validateSource m name row).deletedAt = row.deletedAt := by
  unfold validateSource
  split
  · rfl
  · split <;> rfl

theorem validateSourceStored (m : UpperMap) {row : OsEnvironment} (shape : namePattern row.name = true)
    (live : row.deletedAt = false) : Stored (validateSource m row.name row) := by
  refine ⟨by simpa using shape,?_,fun _ => by simpa using live⟩
  intro core
  rw [OsEnvironment.coreNamed,validateSourceName,← isCoreStored m shape] at core
  rw [validateSource,if_pos core]

theorem validated {row : OsEnvironment} (shape : namePattern row.name = true) :
    validateEnvironmentRow m row = .ok (validateSource m row.name row) := by
  unfold validateEnvironmentRow
  rw [formatSelf m shape]

theorem createChange (c : Config m) (t : OsEnvironments) (input : CreateEnvironmentInput) :
    Change t (createEnvironment c t input).2 := by
  unfold createEnvironment
  split
  · exact .keep
  · rename_i name format
    obtain ⟨rfl,shape⟩ := formatOk.mp format
    split
    · exact .keep
    · split
      · exact .keep
      · split
        · exact .keep
        · rename_i row ok
          unfold CreateEnvironmentInput.row at ok
          rw [validated shape] at ok
          cases ok
          split
          · exact .keep
          · rename_i u done
            exact .insert (validateSourceStored m shape rfl) (by simp) done

def AllStored (t : OsEnvironments) : Prop := ∀ row ∈ t.rows, Stored row

theorem isCoreRow (m : UpperMap) {row : OsEnvironment} (stored : Stored row) :
    IsCoreName m row.name = row.coreNamed := isCoreStored m stored.shape

/- A new name differs from the old one only between names that are not core. -/
theorem updateNameOk {row : OsEnvironment} {raw : Option String} {name : String} (stored : Stored row)
    (ok : updateName m row raw = .ok name) :
    namePattern name = true ∧ (name = row.name ∨ row.coreNamed = false ∧ (coreNamed name).isSome = false) := by
  unfold updateName at ok
  split at ok
  · cases ok
    exact ⟨stored.shape,.inl rfl⟩
  · rename_i raw
    split at ok
    · contradiction
    · rename_i new format
      obtain ⟨rfl,shape⟩ := formatOk.mp format
      split at ok
      · contradiction
      · rename_i allowed
        cases ok
        refine ⟨shape,?_⟩
        unfold validateUpdateName at allowed
        rw [normalizeSelf m stored.shape,isCoreRow m stored,isCoreStored m shape] at allowed
        split at allowed
        · contradiction
        · rename_i same
          split at allowed
          · contradiction
          · rename_i plain
            cases core : row.coreNamed with
            | true => exact .inl (by simpa [core] using same)
            | false => exact .inr ⟨rfl,by simpa [core] using plain⟩

theorem updateChange {t : OsEnvironments} (stored : AllStored t) (id : Option Nat) (input : UpdateEnvironmentInput) :
    Change t (updateEnvironment m t id input).2 := by
  unfold updateEnvironment
  split
  · exact .keep
  · split
    · exact .keep
    · split
      · exact .keep
      · rename_i current found
        obtain ⟨mem,live,_⟩ := firstSome found
        split
        · exact .keep
        · rename_i row ok
          unfold applyUpdate at ok
          split at ok
          · contradiction
          · rename_i name renamed
            obtain ⟨shape,names⟩ := updateNameOk (stored current mem) renamed
            rw [validated shape] at ok
            cases ok
            split
            · exact .keep
            · split
              · exact .keep
              · rename_i u done
                have kept : Stored (validateSource m name (input.fill {current with name := name})) :=
                  @validateSourceStored m (input.fill {current with name := name}) shape live
                refine .edit kept mem (by simp [UpdateEnvironmentInput.fill]) ?_ ?_ done
                · rw [validateSourceLive]
                  exact live
                · rcases names with same | ⟨before,after⟩
                  · exact .inl (by simpa using same)
                  · exact .inr ⟨before,by simpa [OsEnvironment.coreNamed] using after⟩

theorem deleteChange {t : OsEnvironments} (stored : AllStored t) (id : Option Nat) :
    Change t (deleteEnvironment m t id).2 := by
  unfold deleteEnvironment
  split
  · exact .keep
  · split
    · exact .keep
    · rename_i row found
      obtain ⟨mem,_,_⟩ := firstSome found
      split
      · exact .keep
      · rename_i plain
        rw [isCoreRow m (stored row mem)] at plain
        split
        · exact .keep
        · rename_i u done
          exact .delete mem (by simpa using fun core => plain (.inr core)) done

theorem coreRowStored (c : Config m) (core : Core) (value : String) : Stored (coreRow c core.name value) :=
  ⟨corePattern core,fun _ => rfl,fun _ => rfl⟩

theorem writeCoreChange {t u : OsEnvironments} (c : Config m) {core : Core} {value : String}
    (stored : AllStored t) (done : writeCore c t core.name value = some u) : Change t u := by
  unfold writeCore at done
  split at done
  · exact .insert (coreRowStored c core value) rfl done
  · rename_i row found
    obtain ⟨mem,live,here⟩ := firstSome found
    obtain ⟨shape,_,kept⟩ := stored row mem
    have same : Stored {row with value := value, isCore := true, source := .server, isSecret := isSecretCore core.name} :=
      ⟨shape,fun _ => rfl,kept⟩
    exact .edit same mem rfl live (.inl rfl) done

theorem setCoreChange {t : OsEnvironments} (c : Config m) (env : Environ) (stored : AllStored t)
    (name value : String) : Change t (setCore c t env name value).2.1 := by
  unfold setCore
  split
  · exact .keep
  · rename_i core
    obtain ⟨setting,same⟩ := isCoreIff.mp (Bool.of_not_eq_false core)
    rw [normalizeTwice] at same
    rw [same]
    split
    · exact .keep
    · rename_i u done
      exact writeCoreChange c stored done

theorem ensureCoreChange (t : OsEnvironments) (c : Config m) (env : Environ) {name : String}
    (core : IsCoreName m name = true) (shellValue defaultValue : String) :
    Change t (ensureCore c t env name shellValue defaultValue).2.1 := by
  obtain ⟨setting,same⟩ := isCoreIff.mp core
  unfold ensureCore
  rw [same]
  split
  · exact .keep
  · split
    · split
      · exact .keep
      · rename_i u done
        exact .insert (coreRowStored c setting defaultValue) rfl done
    · split <;> exact .keep

theorem applyChange {t : OsEnvironments} (stored : AllStored t) (call : Call m) : Change t (call.apply t) := by
  cases call with
  | create c input => exact createChange c t input
  | update id input => exact updateChange stored id input
  | delete id => exact deleteChange stored id
  | setCore c env name value => exact setCoreChange c env stored name value
  | ensureCore c env name core shellValue defaultValue => exact ensureCoreChange t c env core shellValue defaultValue

theorem changeStored {t u : OsEnvironments} (stored : AllStored t) (change : Change t u) : AllStored u := by
  intro q mem
  cases change with
  | keep => exact stored q mem
  | insert new live done =>
    rw [(insertSome done).2] at mem
    rcases List.mem_append.mp mem with old | fresh
    · exact stored q old
    · rw [List.mem_singleton.mp fresh]
      exact ⟨new.shape,new.core,new.kept⟩
  | edit new inside ident live name done =>
    rw [(updateSome done).2] at mem
    rcases memPut mem with ⟨old,_⟩ | ⟨rfl,_⟩
    · exact stored q old
    · exact new
  | @delete _ current inside plain done =>
    rw [(updateSome done).2] at mem
    rcases memPut mem with ⟨old,_⟩ | ⟨rfl,_⟩
    · exact stored q old
    · obtain ⟨shape,core,_⟩ := stored current inside
      exact ⟨shape,core,fun here => absurd here (by simpa [OsEnvironment.coreNamed,schema] using plain)⟩

/- What a later table says about the rows of an earlier one. -/
structure Protected (t u : OsEnvironments) : Prop where
  stays : ∀ row ∈ t.rows, row.coreNamed = true → ∃ row' ∈ u.rows, row'.id = row.id ∧ row'.name = row.name
  gains : ∀ row ∈ t.rows, ∀ row' ∈ u.rows, row'.id = row.id → row'.coreNamed = true → row.coreNamed = true
  numbers : ∀ row ∈ t.rows, ∃ row' ∈ u.rows, row'.id = row.id

theorem protectedSame (t : OsEnvironments) : Protected t t := by
  refine ⟨fun row mem _ => ⟨row,mem,rfl,rfl⟩,?_,fun row mem => ⟨row,mem,rfl⟩⟩
  intro row mem row' mem' same core
  rwa [← sameIdent t mem' mem same]

theorem protectedTrans {t u v : OsEnvironments} (first : Protected t u) (second : Protected u v) : Protected t v := by
  refine ⟨?_,?_,?_⟩
  · intro row mem core
    obtain ⟨row',mem',ident,name⟩ := first.stays row mem core
    obtain ⟨last,inside,ident',name'⟩ := second.stays row' mem' (by rwa [OsEnvironment.coreNamed,name])
    exact ⟨last,inside,ident'.trans ident,name'.trans name⟩
  · intro row mem last inside same core
    obtain ⟨row',mem',ident⟩ := first.numbers row mem
    exact first.gains row mem row' mem' ident (second.gains row' mem' last inside (same.trans ident.symm) core)
  · intro row mem
    obtain ⟨row',mem',ident⟩ := first.numbers row mem
    obtain ⟨last,inside,ident'⟩ := second.numbers row' mem'
    exact ⟨last,inside,ident'.trans ident⟩

theorem insertProtected {t u : OsEnvironments} {row : OsEnvironment} (done : t.insert row = some u) : Protected t u := by
  obtain ⟨_,rows⟩ := insertSome done
  refine ⟨?_,?_,?_⟩
  · intro q mem core
    exact ⟨q,by simp [rows,mem],rfl,rfl⟩
  · intro q mem q' mem' same core
    rw [rows] at mem'
    rcases List.mem_append.mp mem' with old | fresh
    · rwa [← sameIdent t old mem same]
    · rw [List.mem_singleton.mp fresh] at same
      have below := t.bounded q mem
      exact absurd same (Nat.ne_of_gt below)
  · intro q mem
    exact ⟨q,by simp [rows,mem],rfl⟩

/- An overwritten row keeps a core name and gains none. -/
theorem updateProtected {t u : OsEnvironments} {current row : OsEnvironment} (mem : current ∈ t.rows)
    (ident : row.id = current.id)
    (name : row.name = current.name ∨ current.coreNamed = false ∧ row.coreNamed = false)
    (done : t.update row = some u) : Protected t u := by
  obtain ⟨_,rows⟩ := updateSome done
  have put (q : OsEnvironment) (inside : q ∈ t.rows) : ∃ q' ∈ u.rows, q'.id = q.id ∧
      (q' = q ∨ q' = row ∧ q = current) := by
    refine ⟨SoftDelete.put schema row q,by rw [rows]; exact List.mem_map_of_mem inside,identPut (s := schema) row q,?_⟩
    unfold SoftDelete.put
    split
    · rename_i here
      exact .inr ⟨rfl,sameIdent t inside mem (here.1.trans ident)⟩
    · exact .inl rfl
  refine ⟨?_,?_,?_⟩
  · intro q inside core
    obtain ⟨q',mem',same,rfl | ⟨rfl,rfl⟩⟩ := put q inside
    · exact ⟨q',mem',rfl,rfl⟩
    · rcases name with kept | ⟨plain,_⟩
      · exact ⟨q',mem',same,kept⟩
      · rw [plain] at core
        contradiction
  · intro q inside q' mem' same core
    obtain ⟨other,there,same',which⟩ := put q inside
    rw [sameIdent u mem' there (same.trans same'.symm)] at core
    rcases which with rfl | ⟨rfl,rfl⟩
    · exact core
    · rcases name with kept | ⟨_,plain⟩
      · rwa [OsEnvironment.coreNamed,← kept]
      · rw [plain] at core
        contradiction
  · intro q inside
    obtain ⟨q',mem',same,_⟩ := put q inside
    exact ⟨q',mem',same⟩

theorem changeProtected {t u : OsEnvironments} (change : Change t u) : Protected t u := by
  cases change with
  | keep => exact protectedSame t
  | insert stored live done => exact insertProtected done
  | edit stored mem ident live name done => exact updateProtected mem ident name done
  | @delete _ current mem plain done =>
    have ident : (schema.mark current).id = current.id := rfl
    exact updateProtected mem ident (.inl rfl) done

theorem reachProtected (calls : List (Call m)) {t : OsEnvironments} (stored : AllStored t) :
    AllStored (reach t calls) ∧ Protected t (reach t calls) := by
  induction calls generalizing t with
  | nil => exact ⟨stored,protectedSame t⟩
  | cons call rest ih =>
    have change := applyChange stored call
    obtain ⟨kept,later⟩ := ih (changeStored stored change)
    exact ⟨kept,protectedTrans (changeProtected change) later⟩

theorem reachStored (calls : List (Call m)) : AllStored (reach (empty schema) calls) := by
  refine (reachProtected calls ?_).1
  intro row mem
  contradiction

/- A core setting, once there, keeps its name and is never deleted; no other row
ever takes a core name; live rows differ in their normalised names; and what is
stored is well formed. -/
theorem coreNamesProtected (before after : List (Call m)) :
    (∀ row ∈ (reach (empty schema) before).live, IsCoreName m row.name = true →
      ∃ row' ∈ (reach (empty schema) (before ++ after)).live, row'.id = row.id ∧ row'.name = row.name) ∧
    (∀ row ∈ (reach (empty schema) before).rows, ∀ row' ∈ (reach (empty schema) (before ++ after)).rows,
      row'.id = row.id → IsCoreName m row'.name = true → IsCoreName m row.name = true) ∧
    (∀ row ∈ (reach (empty schema) before).rows, IsCoreName m row.name = true → row.isCore = true) ∧
    (∀ row ∈ (reach (empty schema) before).live, ∀ row' ∈ (reach (empty schema) before).live,
      normalizeName m row.name = normalizeName m row'.name → row = row') ∧
    ∀ row ∈ (reach (empty schema) before).rows, namePattern row.name = true := by
  have stored := reachStored before
  obtain ⟨later,guarded⟩ := reachProtected after stored
  have whole : reach (empty schema) (before ++ after) = reach (reach (empty schema) before) after :=
    List.foldl_append
  rw [whole]
  refine ⟨?_,?_,?_,?_,?_⟩
  · intro row mem core
    obtain ⟨inside,_⟩ := memLive.mp mem
    rw [isCoreRow m (stored row inside)] at core
    obtain ⟨row',mem',ident,name⟩ := guarded.stays row inside core
    have core' : row'.coreNamed = true := by rwa [OsEnvironment.coreNamed,name]
    exact ⟨row',memLive.mpr ⟨mem',(later row' mem').kept core'⟩,ident,name⟩
  · intro row mem row' mem' same core
    rw [isCoreRow m (later row' mem')] at core
    rw [isCoreRow m (stored row mem)]
    exact guarded.gains row mem row' mem' same core
  · intro row mem core
    rw [isCoreRow m (stored row mem)] at core
    exact (stored row mem).core core
  · intro row mem row' mem' same
    obtain ⟨inside,_⟩ := memLive.mp mem
    obtain ⟨inside',_⟩ := memLive.mp mem'
    rw [normalizeSelf m (stored row inside).shape,normalizeSelf m (stored row' inside').shape] at same
    exact sameKey _ inside inside' same
  · exact fun row mem => (stored row mem).shape

/- No row at all, live or deleted, may carry the name of a new one. -/
theorem createOk (c : Config m) (t : OsEnvironments) (input : CreateEnvironmentInput) :
    (∃ row, (createEnvironment c t input).1 = .ok row) ↔
      namePattern (normalizeName m input.name) = true ∧ IsCoreName m input.name = false ∧
      ∀ row ∈ t.rows, row.name ≠ normalizeName m input.name := by
  have core : IsCoreName m (normalizeName m input.name) = IsCoreName m input.name := by
    rw [IsCoreName,IsCoreName,normalizeTwice]
  unfold createEnvironment
  split
  · rename_i e refused
    have shape : namePattern (normalizeName m input.name) = false := by
      cases h : namePattern (normalizeName m input.name) with
      | false => rfl
      | true =>
        rw [formatOk.mpr ⟨rfl,h⟩] at refused
        contradiction
    simp [shape]
  · rename_i name format
    obtain ⟨rfl,shape⟩ := formatOk.mp format
    unfold validateCreateName
    rw [core]
    cases IsCoreName m input.name with
    | true => simp
    | false =>
      have ok : validateEnvironmentRow m (input.row c (normalizeName m input.name)) =
          .ok (validateSource m (normalizeName m input.name) (input.row c (normalizeName m input.name))) :=
        validated shape
      simp only [Bool.false_eq_true,if_false,ok,shape,true_and]
      split
      · rename_i some
        obtain ⟨row,mem,here⟩ := List.countP_pos_iff.mp some
        refine iff_of_false (by simp) ?_
        intro free
        exact free row (memLive.mp mem).1 (by simpa [named] using here)
      · have free := insertIff t
          (validateSource m (normalizeName m input.name) (input.row c (normalizeName m input.name)))
        split
        · rename_i refused
          rw [refused] at free
          refine iff_of_false (by simp) ?_
          intro unused
          exact absurd (free.mpr (by simpa [schema] using unused)) (by simp)
        · rename_i u done
          rw [done] at free
          exact iff_of_true ⟨_,rfl⟩ (by simpa [schema] using free.mp rfl)

/- Creation succeeds for every well-formed name that is neither core nor in use,
save the names of deleted rows. -/
theorem createEnvironmentSucceeds (c : Config m) (calls : List (Call m)) (input : CreateEnvironmentInput) :
    ((∃ row, (createEnvironment c (reach (empty schema) calls) input).1 = .ok row) ↔
      namePattern (normalizeName m input.name) = true ∧ IsCoreName m input.name = false ∧
      ∀ row ∈ (reach (empty schema) calls).live, row.name ≠ normalizeName m input.name) ↔
    ∀ row ∈ (reach (empty schema) calls).rows, row.deletedAt = true → row.name ≠ normalizeName m input.name := by
  have stored := reachStored calls
  rw [createOk]
  constructor
  · intro exact row mem deleted same
    have shape := (stored row mem).shape
    rw [same] at shape
    have plain : IsCoreName m input.name = false := by
      have core : IsCoreName m input.name = row.coreNamed := by
        rw [← isCoreRow m (stored row mem),same,IsCoreName,IsCoreName,normalizeTwice]
      cases h : row.coreNamed with
      | false => rw [core,h]
      | true =>
        rw [(stored row mem).kept h] at deleted
        contradiction
    have unused : ∀ other ∈ (reach (empty schema) calls).live, other.name ≠ normalizeName m input.name := by
      intro other live same'
      obtain ⟨inside,alive⟩ := memLive.mp live
      rw [sameKey _ inside mem (same'.trans same.symm)] at alive
      have here : row.deletedAt = false := alive
      rw [deleted] at here
      contradiction
    exact (exact.mpr ⟨shape,plain,unused⟩).2.2 row mem same
  · intro gone
    refine and_congr_right (fun _ => and_congr_right (fun _ => ⟨?_,?_⟩))
    · exact fun free row live => free row (memLive.mp live).1
    · intro unused row mem same
      cases h : row.deletedAt with
      | true => exact gone row mem h same
      | false => exact unused row (memLive.mpr ⟨mem,h⟩) same

def unpinned (moduleID : String) : Config m := ⟨moduleID,⟨[],by simp,by simp,by simp⟩⟩

def payload (name value : String) : CreateEnvironmentInput := ⟨name,value,"",false,false,false⟩

/- Created, deleted and refused. -/
theorem createAfterDelete :
    let t := reach (empty schema) [Call.create (unpinned "containerws") (payload "FOO" "1"),
      (.delete (some 0) : Call asciiUpper)]
    (∀ row ∈ t.live, row.name ≠ "FOO") ∧ namePattern (normalizeName asciiUpper "FOO") = true ∧
    IsCoreName asciiUpper "FOO" = false ∧
    (createEnvironment (m := asciiUpper) (unpinned "containerws") t (payload "FOO" "2")).1 = .error .database := by
  decide +kernel

end ContainerWS.Environments
