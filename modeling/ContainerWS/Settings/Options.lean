import ContainerWS.Mcp.Settings

/-! The requests of modules/settings/options/c.go on the rows of models/option.go, and the module toggles that every start of the server
makes sure of. A deleted row keeps its name in the unique index. -/
namespace ContainerWS.Settings.Options
open GoStrings SoftDelete Mcp.Settings

/- An answer of a request that is refused: its status, its code and its text, or an error of the database. -/
inductive Refusal where
  | answer (status : Nat) (code message : String)
  | database
  deriving DecidableEq, Repr

def normalizeOptionName (name : String) : Except String String :=
  let name := trimSpace name
  if name = "" then .error "name is required"
  else if name.utf8ByteSize > 255 then .error "name is too long"
  else .ok name

def CreateOptionAPI (t : OptionTable) (name value : String) : Except Refusal OptionTable :=
  match normalizeOptionName name with
  | .error e => .error (.answer 400 "INVALID_NAME" e)
  | .ok name =>
    if (t.first (fun r => r.name == name)).isSome then .error (.answer 409 "NAME_CONFLICT" "option already exists")
    else
      match t.insert ⟨0,name,value,false⟩ with
      | some u => .ok u
      | none => .error .database

/- The name that an update sets: none is left alone. -/
def renamed (t : OptionTable) (id : Nat) : Option String → Except Refusal (Option String)
  | none => .ok none
  | some name =>
    match normalizeOptionName name with
    | .error e => .error (.answer 400 "INVALID_NAME" e)
    | .ok name =>
      if (t.first (fun r => r.name == name && r.id != id)).isSome then .error (.answer 409 "NAME_CONFLICT" "option already exists")
      else .ok (some name)

def UpdateOptionAPI (t : OptionTable) (id : Nat) (name value : Option String) : Except Refusal OptionTable :=
  match t.first (fun r => r.id == id) with
  | none => .error (.answer 404 "" "option not found")
  | some row =>
    match renamed t id name with
    | .error e => .error e
    | .ok name =>
      if name = none ∧ value = none then .error (.answer 400 "" "no fields to update")
      else
        match t.update { row with name := name.getD row.name, value := value.getD row.value } with
        | some u => .ok u
        | none => .error .database

def markDeleted : Column optionSchema where
  set r := { r with deleted := true }
  ident _ := rfl
  key _ := rfl

def DeleteOptionAPI (t : OptionTable) (id : Nat) : Except Refusal OptionTable :=
  match t.first (fun r => r.id == id) with
  | none => .error (.answer 404 "" "option not found")
  | some _ => .ok (t.set markDeleted (fun r => r.id == id))

def OptionVNCInstalled := "VNC_INSTALLED"
def OptionVNCSoftwarePresent := "VNC_SOFTWARE_PRESENT"
def OptionCodeserverInstalled := "CODESERVER_INSTALLED"
def OptionCodeserverSoftwarePresent := "CODESERVER_SOFTWARE_PRESENT"
def OptionDockerModuleEnabled := "DOCKER_MODULE_ENABLED"
def OptionKubernetesModuleEnabled := "KUBERNETES_MODULE_ENABLED"
def OptionProxymanagerModuleEnabled := "PROXYMANAGER_MODULE_ENABLED"
def OptionBrewModuleEnabled := "BREW_MODULE_ENABLED"
def OptionModuleSidebarDefaultsSeeded := "MODULE_SIDEBAR_DEFAULTS_SEEDED"
def LocalhostAutoLogin := "LOCALHOST_AUTO_LOGIN"

def known : List String :=
  [OptionVNCInstalled,OptionVNCSoftwarePresent,OptionCodeserverInstalled,OptionCodeserverSoftwarePresent,OptionDockerModuleEnabled,
    OptionKubernetesModuleEnabled,OptionProxymanagerModuleEnabled,OptionBrewModuleEnabled,LocalhostAutoLogin]

/- An option that is not stored is stored; an error is passed over. -/
def ensureKnown (t : OptionTable) (name : String) : OptionTable :=
  match GetOption t name with
  | .ok none =>
    match SetOption t name "false" with
    | .ok u => u
    | .error _ => t
  | _ => t

def ensureKnownOptions (t : OptionTable) : OptionTable := known.foldl ensureKnown t

/- An option that is not stored is stored, and the first error ends the loop. -/
def seed (value : String → Bool) : List String → OptionTable → OptionTable × Option SettingError
  | [], t => (t,none)
  | key :: keys, t =>
    match GetOption t key with
    | .error e => (t,some e)
    | .ok (some _) => seed value keys t
    | .ok none =>
      match SetOptionBool t key (value key) with
      | .error e => (t,some e)
      | .ok u => seed value keys u

def moduleKeys : List String :=
  [OptionDockerModuleEnabled,OptionKubernetesModuleEnabled,OptionProxymanagerModuleEnabled,OptionBrewModuleEnabled]

/- The rows are written one by one, so an error leaves those before it. -/
def EnsureModuleSidebarDefaults (userCount : Nat) (t : OptionTable) : OptionTable × Option SettingError :=
  match GetOption t OptionModuleSidebarDefaultsSeeded with
  | .error e => (t,some e)
  | .ok (some _) => seed (fun _ => false) [OptionBrewModuleEnabled] t
  | .ok none =>
    match seed (fun key => decide (userCount > 0 ∧ key ≠ OptionBrewModuleEnabled)) moduleKeys t with
    | (u,some e) => (u,some e)
    | (u,none) =>
      match SetOption u OptionModuleSidebarDefaultsSeeded "1" with
      | .ok v => (v,none)
      | .error e => (u,some e)

def ModuleEnabled (m : CaseMap) (t : OptionTable) (name : String) : Bool :=
  match GetOptionBool m t name with
  | .ok (some v) => v
  | _ => false

/- What is done with the table: the requests, a write of another part of the program, a listing, and a start of the server. -/
inductive Op where
  | create (name value : String)
  | update (id : Nat) (name value : Option String)
  | delete (id : Nat)
  | write (name value : String)
  | list
  | start (userCount : Nat)

/- A request that is refused changes nothing. -/
def done {ε : Type} (t : OptionTable) : Except ε OptionTable → OptionTable
  | .ok u => u
  | .error _ => t

def step (t : OptionTable) : Op → OptionTable
  | .create name value => done t (CreateOptionAPI t name value)
  | .update id name value => done t (UpdateOptionAPI t id name value)
  | .delete id => done t (DeleteOptionAPI t id)
  | .write name value => done t (SetOption t name value)
  | .list => ensureKnownOptions t
  | .start userCount => (EnsureModuleSidebarDefaults userCount t).1

def history (t : OptionTable) (ops : List Op) : OptionTable := ops.foldl step t

/-! A name that was deleted. -/
def Lost (t : OptionTable) (name : String) : Prop := ∃ r ∈ t.rows, r.deleted = true ∧ r.name = name

/- Every name is as it is trimmed, and there is one. -/
def Named (t : OptionTable) : Prop := ∀ r ∈ t.rows, trimSpace r.name = r.name ∧ r.name ≠ ""

/- No row that is deleted is ever written, and names stay trimmed. -/
structure Evolves (t u : OptionTable) : Prop where
  buries : ∀ r ∈ t.rows, r.deleted = true → r ∈ u.rows
  named : Named t → Named u

theorem evolvesSelf (t : OptionTable) : Evolves t t := ⟨fun _ mem _ => mem,fun named => named⟩

theorem evolvesTrans {t u v : OptionTable} (first : Evolves t u) (second : Evolves u v) : Evolves t v :=
  ⟨fun r mem gone => second.buries r (first.buries r mem gone) gone,fun named => second.named (first.named named)⟩

theorem lostStays {t u : OptionTable} (evolves : Evolves t u) {name : String} (lost : Lost t name) : Lost u name := by
  obtain ⟨r,mem,gone,named⟩ := lost
  exact ⟨r,evolves.buries r mem gone,gone,named⟩

theorem insertEvolves {t u : OptionTable} {name value : String} (filled : trimSpace name ≠ "")
    (inserted : t.insert ⟨0,trimSpace name,value,false⟩ = some u) : Evolves t u := by
  have rows := (insertSome inserted).2
  refine ⟨fun q mem _ => ?_,fun named q mem => ?_⟩
  · rw [rows]
    exact List.mem_append_left _ mem
  · rw [rows] at mem
    rcases List.mem_append.mp mem with old | new
    · exact named q old
    · rw [List.mem_singleton.mp new]
      exact ⟨trimSpaceTwice name,filled⟩

theorem updateEvolves {t u : OptionTable} {r : OptionRow} (kept : Named t → trimSpace r.name = r.name ∧ r.name ≠ "")
    (updated : t.update r = some u) : Evolves t u := by
  have rows := (updateSome updated).2
  refine ⟨fun q mem gone => ?_,fun named q mem => ?_⟩
  · rw [rows]
    refine List.mem_map.mpr ⟨q,mem,?_⟩
    rw [put,if_neg]
    rintro ⟨-,live⟩
    rw [show q.deleted = false from live] at gone
    cases gone
  · rw [rows] at mem
    rcases memPut mem with ⟨old,-⟩ | ⟨same,-⟩
    · exact named q old
    · rw [same]
      exact kept named

theorem columnEvolves (t : OptionTable) (c : Column optionSchema) (p : OptionRow → Bool) : Evolves t (t.set c p) := by
  refine ⟨fun q mem gone => ?_,fun named q mem => ?_⟩
  · refine memSet.mpr ⟨q,mem,?_⟩
    rw [Column.over,if_neg]
    rintro ⟨live,-⟩
    rw [show q.deleted = false from live] at gone
    cases gone
  · obtain ⟨r,old,rfl⟩ := memSet.mp mem
    have same : (c.over p r).name = r.name := keyOver c p r
    rw [same]
    exact named r old

theorem setEvolves {t u : OptionTable} {name value : String} (done : SetOption t name value = .ok u) : Evolves t u := by
  unfold SetOption at done
  dsimp only at done
  split at done
  · cases done
  · rename_i filled
    split at done
    · split at done
      · rename_i v inserted
        cases done
        exact insertEvolves filled inserted
      · cases done
    · cases done
      exact columnEvolves t _ _

theorem normalName {name n : String} (normal : normalizeOptionName name = .ok n) : n = trimSpace name ∧ trimSpace name ≠ "" := by
  unfold normalizeOptionName at normal
  dsimp only at normal
  split at normal
  · cases normal
  · rename_i filled
    split at normal
    · cases normal
    · exact ⟨(Except.ok.inj normal).symm,filled⟩

theorem createEvolves {t u : OptionTable} {name value : String} (done : CreateOptionAPI t name value = .ok u) : Evolves t u := by
  unfold CreateOptionAPI at done
  split at done
  · cases done
  · rename_i n normal
    obtain ⟨rfl,filled⟩ := normalName normal
    split at done
    · cases done
    · split at done
      · rename_i v inserted
        cases done
        exact insertEvolves filled inserted
      · cases done

theorem renamedName {t : OptionTable} {id : Nat} {name : Option String} {n : String} (set : renamed t id name = .ok (some n)) :
    trimSpace n = n ∧ n ≠ "" := by
  cases name with
  | none => cases set
  | some name =>
    unfold renamed at set
    dsimp only at set
    split at set
    · cases set
    · rename_i m normal
      obtain ⟨rfl,filled⟩ := normalName normal
      split at set
      · cases set
      · cases set
        exact ⟨trimSpaceTwice name,filled⟩

theorem renameEvolves {t u : OptionTable} {id : Nat} {name value : Option String} (done : UpdateOptionAPI t id name value = .ok u) :
    Evolves t u := by
  unfold UpdateOptionAPI at done
  split at done
  · cases done
  · rename_i row found
    split at done
    · cases done
    · rename_i n set
      split at done
      · cases done
      · split at done
        · rename_i v updated
          cases done
          refine updateEvolves (fun named => ?_) updated
          cases n with
          | none => exact named row (firstSome found).1
          | some n => exact renamedName set
        · cases done

theorem deleteEvolves {t u : OptionTable} {id : Nat} (done : DeleteOptionAPI t id = .ok u) : Evolves t u := by
  unfold DeleteOptionAPI at done
  split at done
  · cases done
  · cases done
    exact columnEvolves t _ _

theorem ensureEvolves (t : OptionTable) (name : String) : Evolves t (ensureKnown t name) := by
  unfold ensureKnown
  split
  · split
    · rename_i u set
      exact setEvolves set
    · exact evolvesSelf t
  · exact evolvesSelf t

theorem knownEvolves (names : List String) (t : OptionTable) : Evolves t (names.foldl ensureKnown t) := by
  induction names generalizing t with
  | nil => exact evolvesSelf t
  | cons name names ih => exact evolvesTrans (ensureEvolves t name) (ih _)

theorem seedEvolves (value : String → Bool) (keys : List String) (t : OptionTable) : Evolves t (seed value keys t).1 := by
  induction keys generalizing t with
  | nil => exact evolvesSelf t
  | cons key keys ih =>
    unfold seed
    split
    · exact evolvesSelf t
    · exact ih t
    · split
      · exact evolvesSelf t
      · rename_i u set
        exact evolvesTrans (setEvolves set) (ih u)

theorem startEvolves (userCount : Nat) (t : OptionTable) : Evolves t (EnsureModuleSidebarDefaults userCount t).1 := by
  unfold EnsureModuleSidebarDefaults
  split
  · exact evolvesSelf t
  · exact seedEvolves _ _ t
  · have first := seedEvolves (fun key => decide (userCount > 0 ∧ key ≠ OptionBrewModuleEnabled)) moduleKeys t
    split
    · rename_i u e seeded
      rw [seeded] at first
      exact first
    · rename_i u seeded
      rw [seeded] at first
      split
      · rename_i v set
        exact evolvesTrans first (setEvolves set)
      · exact first

theorem doneEvolves {ε : Type} {t : OptionTable} {r : Except ε OptionTable} (evolves : ∀ u, r = .ok u → Evolves t u) :
    Evolves t (done t r) := by
  cases r with
  | error e => exact evolvesSelf t
  | ok u => exact evolves u rfl

theorem stepEvolves (t : OptionTable) (op : Op) : Evolves t (step t op) := by
  cases op with
  | create name value => exact doneEvolves fun _ => createEvolves
  | update id name value => exact doneEvolves fun _ => renameEvolves
  | delete id => exact doneEvolves fun _ => deleteEvolves
  | write name value => exact doneEvolves fun _ => setEvolves
  | list => exact knownEvolves known t
  | start userCount => exact startEvolves userCount t

theorem historyEvolves (ops : List Op) (t : OptionTable) : Evolves t (history t ops) := by
  induction ops generalizing t with
  | nil => exact evolvesSelf t
  | cons op ops ih => exact evolvesTrans (stepEvolves t op) (ih (step t op))

/- Under the name of a deleted row nothing is found. -/
theorem lostUnfound {t : OptionTable} {name : String} (lost : Lost t (trimSpace name)) :
    t.first (fun r => r.name == trimSpace name) = none := by
  cases found : t.first (fun r => r.name == trimSpace name) with
  | none => rfl
  | some r =>
    obtain ⟨mem,live,here⟩ := firstSome found
    obtain ⟨q,inside,gone,named⟩ := lost
    have same : r = q := sameKey t mem inside ((beq_iff_eq.mp here).trans named.symm)
    rw [same] at live
    rw [show q.deleted = false from live] at gone
    cases gone

theorem lostTaken {t : OptionTable} {name value : String} (lost : Lost t (trimSpace name)) :
    t.insert ⟨0,trimSpace name,value,false⟩ = none := by
  obtain ⟨q,inside,_,named⟩ := lost
  cases inserted : t.insert ⟨0,trimSpace name,value,false⟩ with
  | none => rfl
  | some u => exact absurd named ((insertSome inserted).1 q inside)

theorem deletedLost {t u : OptionTable} {r : OptionRow} (found : t.first (fun q => q.id == r.id) = some r)
    (done : DeleteOptionAPI t r.id = .ok u) : Lost u r.name := by
  unfold DeleteOptionAPI at done
  rw [found] at done
  cases done
  obtain ⟨mem,live,-⟩ := firstSome found
  refine ⟨{ r with deleted := true },memSet.mpr ⟨r,mem,?_⟩,rfl,rfl⟩
  rw [Column.over,if_pos ⟨live,beq_self_eq_true _⟩]
  rfl

/- An option that was deleted never comes back: whatever is done afterwards, it is not found, it can neither be written nor created, and a
module that it turns on stays off. -/
theorem deletedForGood (before : List Op) {u : OptionTable} {r : OptionRow}
    (found : (history (empty optionSchema) before).first (fun q => q.id == r.id) = some r)
    (deleted : DeleteOptionAPI (history (empty optionSchema) before) r.id = .ok u) (ops : List Op) (m : CaseMap) (value : String) :
    GetOption (history u ops) r.name = .ok none ∧ SetOption (history u ops) r.name value = .error .database ∧
      (∃ e, CreateOptionAPI (history u ops) r.name value = .error e) ∧ ModuleEnabled m (history u ops) r.name = false := by
  have names : Named (history (empty optionSchema) before) := (historyEvolves before _).named fun _ mem => by cases mem
  obtain ⟨trimmed,filled⟩ := names r (firstSome found).1
  have lost : Lost (history u ops) (trimSpace r.name) := by
    rw [trimmed]
    exact lostStays (historyEvolves ops u) (deletedLost found deleted)
  have none := lostUnfound lost
  have named : trimSpace r.name ≠ "" := by rwa [trimmed]
  have get : GetOption (history u ops) r.name = .ok .none := by
    rw [GetOption,if_neg named,none]
    rfl
  refine ⟨get,?_,?_,?_⟩
  · rw [SetOption,if_neg named,none]
    dsimp only
    rw [lostTaken lost]
  · unfold CreateOptionAPI
    cases normal : normalizeOptionName r.name with
    | error e => exact ⟨_,rfl⟩
    | ok n =>
      rw [(normalName normal).1]
      dsimp only
      rw [none,lostTaken lost]
      exact ⟨_,rfl⟩
  · rw [ModuleEnabled,GetOptionBool,get]

/- The toggle of a module, made by the first start, then deleted. -/
theorem dockerDeleted :
    GetOption (history (done (history (empty optionSchema) [.start 0]) (DeleteOptionAPI (history (empty optionSchema) [.start 0]) 0))
      [.start 0,.list,.create OptionDockerModuleEnabled "true"]) OptionDockerModuleEnabled = .ok none :=
  (deletedForGood [.start 0] (r := ⟨0,OptionDockerModuleEnabled,"false",false⟩) (by decide) rfl _ ascii "").1

/-! The starts of the server. -/
theorem getSame {t : OptionTable} {name other : String} (same : trimSpace name = trimSpace other) :
    GetOption t name = GetOption t other := by
  rw [GetOption,GetOption,same]

/- An option is only written when it is not there. -/
theorem setKeeps {t u : OptionTable} {key value n v : String} (missing : GetOption t key = .ok none) (set : SetOption t key value = .ok u)
    (stored : GetOption t n = .ok (some v)) : GetOption u n = .ok (some v) := by
  rw [setOther set ?_]
  · exact stored
  · intro same
    rw [getSame same,missing] at stored
    cases stored

theorem seedKeeps {value : String → Bool} {keys : List String} {t u : OptionTable} {e : Option SettingError} {n v : String}
    (seeded : seed value keys t = (u,e)) (stored : GetOption t n = .ok (some v)) : GetOption u n = .ok (some v) := by
  induction keys generalizing t with
  | nil =>
    cases seeded
    exact stored
  | cons key keys ih =>
    unfold seed at seeded
    split at seeded
    · cases seeded
      exact stored
    · exact ih seeded stored
    · rename_i missing
      split at seeded
      · cases seeded
        exact stored
      · rename_i s set
        exact ih seeded (setKeeps missing set stored)

theorem seedStores {value : String → Bool} {keys : List String} {t u : OptionTable} (seeded : seed value keys t = (u,none))
    (apart : (keys.map trimSpace).Nodup) {key : String} (mem : key ∈ keys) :
    (∃ v, GetOption t key = .ok (some v) ∧ GetOption u key = .ok (some v)) ∨
      GetOption t key = .ok none ∧ GetOption u key = .ok (some (boolText (value key))) := by
  induction keys generalizing t with
  | nil => cases mem
  | cons first keys ih =>
    unfold seed at seeded
    rw [List.map_cons,List.nodup_cons] at apart
    split at seeded
    · cases seeded
    · rename_i v there
      rcases List.mem_cons.mp mem with rfl | later
      · exact .inl ⟨v,there,seedKeeps seeded there⟩
      · exact ih seeded apart.2 later
    · rename_i missing
      split at seeded
      · cases seeded
      · rename_i s set
        rcases List.mem_cons.mp mem with rfl | later
        · exact .inr ⟨missing,seedKeeps seeded (setGet set)⟩
        · have different : trimSpace key ≠ trimSpace first := fun same => apart.1 (List.mem_map.mpr ⟨key,later,same⟩)
          rw [← setOther set different]
          exact ih seeded apart.2 later

/- Where all are stored there is nothing to do. -/
theorem seedIdle {value : String → Bool} {keys : List String} {t : OptionTable}
    (stored : ∀ key ∈ keys, ∃ v, GetOption t key = .ok (some v)) : seed value keys t = (t,none) := by
  induction keys with
  | nil => rfl
  | cons key keys ih =>
    obtain ⟨v,here⟩ := stored key List.mem_cons_self
    rw [seed,here]
    exact ih fun other mem => stored other (List.mem_cons_of_mem key mem)

theorem seedFound {value : String → Bool} {keys : List String} {t u : OptionTable} (seeded : seed value keys t = (u,none))
    (apart : (keys.map trimSpace).Nodup) : ∀ key ∈ keys, ∃ v, GetOption u key = .ok (some v) := by
  intro key mem
  rcases seedStores seeded apart mem with ⟨v,-,here⟩ | ⟨-,here⟩
  · exact ⟨v,here⟩
  · exact ⟨_,here⟩

theorem keysApart : (moduleKeys.map trimSpace).Nodup := by decide

theorem seededApart : ∀ key ∈ moduleKeys, trimSpace key ≠ trimSpace OptionModuleSidebarDefaultsSeeded := by decide

/- What a start leaves that has met no error: the mark and the toggle of brew. -/
theorem startLeaves {n : Nat} {t u : OptionTable} (started : EnsureModuleSidebarDefaults n t = (u,none)) :
    (∃ v, GetOption u OptionModuleSidebarDefaultsSeeded = .ok (some v)) ∧ ∃ v, GetOption u OptionBrewModuleEnabled = .ok (some v) := by
  unfold EnsureModuleSidebarDefaults at started
  split at started
  · cases started
  · rename_i v marked
    exact ⟨⟨v,seedKeeps started marked⟩,seedFound started (List.nodup_singleton _) _ List.mem_cons_self⟩
  · split at started
    · cases started
    · rename_i s seeded
      split at started
      · rename_i v set
        cases started
        have brew : OptionBrewModuleEnabled ∈ moduleKeys := by decide
        obtain ⟨w,there⟩ := seedFound seeded keysApart _ brew
        refine ⟨⟨"1",setGet set⟩,w,?_⟩
        rw [setOther set (seededApart _ brew)]
        exact there
      · cases started

/- A start changes no option that is stored; the first one turns each module on that has no toggle yet if and only if there are users and it
is not brew; and no start after it changes anything. -/
theorem startSettles {n : Nat} {t u : OptionTable} (started : EnsureModuleSidebarDefaults n t = (u,none)) :
    (∀ name v, GetOption t name = .ok (some v) → GetOption u name = .ok (some v)) ∧
      (GetOption t OptionModuleSidebarDefaultsSeeded = .ok none → ∀ key ∈ moduleKeys, GetOption t key = .ok none →
        GetOption u key = .ok (some (boolText (decide (n > 0 ∧ key ≠ OptionBrewModuleEnabled))))) ∧
      ∀ counts : List Nat, counts.foldl (fun t n => (EnsureModuleSidebarDefaults n t).1) u = u := by
  have leaves := startLeaves started
  refine ⟨?_,?_,?_⟩
  · intro name v stored
    unfold EnsureModuleSidebarDefaults at started
    split at started
    · cases started
    · exact seedKeeps started stored
    · rename_i unmarked
      split at started
      · cases started
      · rename_i s seeded
        split at started
        · rename_i w set
          cases started
          rw [setOther set ?_]
          · exact seedKeeps seeded stored
          · intro same
            rw [getSame same,unmarked] at stored
            cases stored
        · cases started
  · intro unmarked key mem missing
    unfold EnsureModuleSidebarDefaults at started
    rw [unmarked] at started
    dsimp only at started
    split at started
    · cases started
    · rename_i s seeded
      split at started
      · rename_i w set
        cases started
        rw [setOther set (seededApart key mem)]
        rcases seedStores seeded keysApart mem with ⟨v,there,-⟩ | ⟨-,here⟩
        · rw [missing] at there
          cases there
        · exact here
      · cases started
  · intro counts
    obtain ⟨⟨v,marked⟩,brew⟩ := leaves
    have still (n : Nat) : (EnsureModuleSidebarDefaults n u).1 = u := by
      unfold EnsureModuleSidebarDefaults
      rw [marked]
      dsimp only
      rw [seedIdle fun key mem => by rw [List.mem_singleton.mp mem]; exact brew]
    induction counts with
    | nil => rfl
    | cons n counts ih => rw [List.foldl_cons,still,ih]

/- The first start beside a user, and two starts after it. -/
theorem upgradeSettles : GetOption (history (empty optionSchema) [.start 1]) OptionDockerModuleEnabled = .ok (some "true") ∧
    history (empty optionSchema) [.start 1,.start 0,.start 2] = history (empty optionSchema) [.start 1] :=
  have settled := startSettles (n := 1) (t := empty optionSchema) (u := history (empty optionSchema) [.start 1]) rfl
  ⟨settled.2.1 rfl OptionDockerModuleEnabled (by decide) rfl,settled.2.2 [0,2]⟩

end ContainerWS.Settings.Options
