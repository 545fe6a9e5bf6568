import ContainerWS.Environments.History
import ContainerWS.Environments.Sync

/-! The server configuration built at boot (ServerConfigFromDB, one EnsureCore
for each core variable) beside the one that applySync hands to OnReload. -/
namespace ContainerWS.Environments
open GoStrings SoftDelete

variable {m : UpperMap}

def resolveShellValue (c : Config m) (shell : String → String) (name : String) : String :=
  if c.shellValue name ≠ "" then c.shellValue name else shell name

structure Built where
  config : ServerConfig
  err : Option Error
  table : OsEnvironments
  env : Environ

/- ServerConfigFromDB asks for the variables in turn and stops at an error. -/
def ensureAll (c : Config m) (shell defaults : String → String) : List Core → ServerConfig → OsEnvironments →
    Environ → Built
  | [],cfg,t,env => ⟨cfg,none,t,env⟩
  | core::rest,cfg,t,env =>
    match ensureCore c t env core.name (resolveShellValue c shell core.name) (defaults core.name) with
    | (⟨value,some e⟩,u,env') => ⟨cfg.set value core,some e,u,env'⟩
    | (⟨value,none⟩,u,env') => ensureAll c shell defaults rest (cfg.set value core) u env'

/- A missing key of either map reads as the empty text. -/
def serverConfigFromDB (c : Config m) (t : OsEnvironments) (env : Environ) (shell defaults : String → String) : Built :=
  ensureAll c shell defaults coreNames {} t env

/- What EnsureCore returns for a core variable. -/
def ensured (t : OsEnvironments) (core : Core) (shellValue defaultValue : String) : String :=
  if shellValue ≠ "" then shellValue
  else
    match t.first (named core.name) with
    | none => defaultValue
    | some row => row.value

theorem firstNamed {t : OsEnvironments} {name : String} {row : OsEnvironment} :
    t.first (named name) = some row ↔ row ∈ t.live ∧ row.name = name := by
  constructor
  · intro found
    obtain ⟨mem,live,here⟩ := firstSome found
    exact ⟨memLive.mpr ⟨mem,live⟩,by simpa [named] using here⟩
  · rintro ⟨live,rfl⟩
    obtain ⟨mem,alive⟩ := memLive.mp live
    refine firstKey mem alive (by simp [named]) (fun q _ here => ?_)
    have same : q.name = row.name := by simpa [named] using here
    exact same

theorem firstMissing {t : OsEnvironments} {name : String} (missing : t.first (named name) = none) :
    ∀ row ∈ t.live, row.name ≠ name := by
  intro row live same
  rw [firstNamed.mpr ⟨live,same⟩] at missing
  contradiction

/- A row as EnsureCore creates it. -/
structure Created (c : Config m) (defaults : String → String) (row : OsEnvironment) : Prop where
  value : row.value = defaults row.name
  enabled : row.isDisabled = false
  scope : row.moduleID = c.moduleID

/- The table after some calls of EnsureCore. -/
structure Grown (c : Config m) (defaults : String → String) (t u : OsEnvironments) : Prop where
  old : ∀ row ∈ t.live, row ∈ u.live
  new : ∀ row ∈ u.live, row ∈ t.live ∨
    Created c defaults row ∧ namePattern row.name = true ∧ ∀ q ∈ t.live, q.name ≠ row.name

theorem grownSame (c : Config m) (defaults : String → String) (t : OsEnvironments) : Grown c defaults t t :=
  ⟨fun _ mem => mem,fun _ mem => .inl mem⟩

theorem grownTrans {c : Config m} {defaults : String → String} {t u v : OsEnvironments}
    (first : Grown c defaults t u) (second : Grown c defaults u v) : Grown c defaults t v := by
  refine ⟨fun row mem => second.old row (first.old row mem),?_⟩
  intro row mem
  rcases second.new row mem with inside | ⟨created,shape,free⟩
  · exact first.new row inside
  · exact .inr ⟨created,shape,fun q live => free q (first.old q live)⟩

theorem insertGrown {c : Config m} {defaults : String → String} {t u : OsEnvironments} {core : Core}
    (done : t.insert (coreRow c core.name (defaults core.name)) = some u) :
    Grown c defaults t u ∧ ∃ row ∈ u.live, row.name = core.name := by
  obtain ⟨free,rows⟩ := insertSome done
  refine ⟨⟨?_,?_⟩,schema.number t.drawn (coreRow c core.name (defaults core.name)),?_,rfl⟩
  · intro row live
    obtain ⟨mem,alive⟩ := memLive.mp live
    exact memLive.mpr ⟨by rw [rows]; exact List.mem_append_left _ mem,alive⟩
  · intro row live
    obtain ⟨mem,alive⟩ := memLive.mp live
    rw [rows] at mem
    rcases List.mem_append.mp mem with old | fresh
    · exact .inl (memLive.mpr ⟨old,alive⟩)
    · rw [List.mem_singleton.mp fresh]
      refine .inr ⟨⟨rfl,rfl,rfl⟩,corePattern core,?_⟩
      exact fun q inside => free q (memLive.mp inside).1
  · exact memLive.mpr ⟨by rw [rows]; simp,rfl⟩

/- EnsureCore without an error. -/
theorem ensureCoreOk {c : Config m} {t u : OsEnvironments} {env env' : Environ} {core : Core}
    {shellValue value : String} {defaults : String → String}
    (ok : ensureCore c t env core.name shellValue (defaults core.name) = (⟨value,none⟩,u,env')) :
    value = ensured t core shellValue (defaults core.name) ∧ Grown c defaults t u ∧
    (shellValue = "" → ∃ row ∈ u.live, row.name = core.name) := by
  unfold ensureCore at ok
  unfold ensured
  rw [normalizeSelf m (corePattern core)] at ok
  split at ok
  · rename_i given
    cases ok
    exact ⟨(if_pos given).symm,grownSame c defaults t,fun empty => absurd empty given⟩
  · rename_i empty
    rw [if_neg empty]
    cases found : t.first (named core.name) with
    | none =>
      rw [found] at ok
      dsimp only at ok ⊢
      split at ok
      · cases ok
      · rename_i done
        cases ok
        obtain ⟨grown,row,mem,name⟩ := insertGrown done
        exact ⟨rfl,grown,fun _ => ⟨row,mem,name⟩⟩
    | some row =>
      rw [found] at ok
      dsimp only at ok ⊢
      obtain ⟨mem,name⟩ := firstNamed.mp found
      split at ok <;> cases ok <;> exact ⟨rfl,grownSame c defaults t,fun _ => ⟨row,mem,name⟩⟩

/- A row created for another variable, or for this one, changes no value. -/
theorem ensuredGrown {c : Config m} {defaults : String → String} {t u : OsEnvironments}
    (grown : Grown c defaults t u) (core : Core) (shellValue : String) :
    ensured u core shellValue (defaults core.name) = ensured t core shellValue (defaults core.name) := by
  unfold ensured
  split
  · rfl
  · cases before : t.first (named core.name) with
    | some row =>
      obtain ⟨live,name⟩ := firstNamed.mp before
      rw [firstNamed.mpr ⟨grown.old row live,name⟩]
    | none =>
      cases after : u.first (named core.name) with
      | none => rfl
      | some row =>
        obtain ⟨live,name⟩ := firstNamed.mp after
        rcases grown.new row live with old | ⟨created,_⟩
        · exact absurd name (firstMissing before row old)
        · rw [← name]
          exact created.value

theorem ensureAllOk {c : Config m} {shell defaults : String → String} {cores : List Core} {cfg : ServerConfig}
    {t : OsEnvironments} {env : Environ} (ok : (ensureAll c shell defaults cores cfg t env).err = none) :
    Grown c defaults t (ensureAll c shell defaults cores cfg t env).table ∧
    (∀ core ∈ cores, resolveShellValue c shell core.name = "" →
      ∃ row ∈ (ensureAll c shell defaults cores cfg t env).table.live, row.name = core.name) ∧
    ∀ core, (ensureAll c shell defaults cores cfg t env).config.get core =
      if core ∈ cores then ensured t core (resolveShellValue c shell core.name) (defaults core.name)
      else cfg.get core := by
  induction cores generalizing cfg t env with
  | nil => exact ⟨grownSame c defaults t,by simp,by simp [ensureAll]⟩
  | cons core rest ih =>
    simp only [ensureAll] at ok ⊢
    split at ok
    · contradiction
    · rename_i value u env' step
      obtain ⟨here,grown,found⟩ := ensureCoreOk step
      obtain ⟨later,all,values⟩ := ih ok
      refine ⟨grownTrans grown later,?_,?_⟩
      · intro other mem empty
        rcases List.mem_cons.mp mem with rfl | inside
        · obtain ⟨row,live,name⟩ := found empty
          exact ⟨row,later.old row live,name⟩
        · exact all other inside empty
      · intro other
        rw [values other,ensuredGrown grown,getSet]
        by_cases same : core = other
        · subst same
          simp [here]
        · simp [same,Ne.symm same]

/- The row takes part in a reload. -/
def Applies (c : Config m) (row : OsEnvironment) : Prop := row.isDisabled = false ∧ inScope c row = true

theorem hitsCore {c : Config m} {core : Core} {row : OsEnvironment} (normal : normalizeName m row.name = row.name)
    (pinned : c.isShellPinned core.name = false) :
    hits c core row = true ↔ row.isDisabled = false ∧ row.name = core.name := by
  unfold hits
  rw [normal]
  constructor
  · intro hit
    simp only [Bool.and_eq_true,Bool.not_eq_true',beq_iff_eq] at hit
    exact ⟨hit.1.2,hit.2⟩
  · rintro ⟨enabled,name⟩
    simp [enabled,name,pinned]

/- What a reload finds for a core variable that is not pinned. -/
theorem reloadedOnly {sha : List Entry → String} {c : Config m} {managedKeys : String → Bool} {env : Environ}
    {u : OsEnvironments} {core : Core} {row : OsEnvironment} (normal : ∀ row ∈ u.live, normalizeName m row.name = row.name)
    (pinned : c.isShellPinned core.name = false) (live : row ∈ u.live) (name : row.name = core.name) :
    (Applies c row → (applySync sha c managedKeys env (loadFromDB c u)).config.get core = row.value) ∧
    (¬Applies c row → (applySync sha c managedKeys env (loadFromDB c u)).config.get core = "") := by
  have only : ∀ q ∈ loadFromDB c u, hits c core q = true → q = row := by
    intro q mem hit
    obtain ⟨inside,_⟩ := memLoad.mp mem
    have same := ((hitsCore (normal q inside) pinned).mp hit).2
    exact sameKey u (memLive.mp inside).1 (memLive.mp live).1 (same.trans name.symm)
  refine ⟨?_,?_⟩
  · rintro ⟨enabled,scope⟩
    exact reloadedValue pinned (memLoad.mpr ⟨live,scope⟩)
      ((hitsCore (normal row live) pinned).mpr ⟨enabled,name⟩) only
  · intro skipped
    refine reloadedNothing pinned ?_
    intro q mem
    cases hit : hits c core q with
    | false => rfl
    | true =>
      obtain ⟨inside,scope⟩ := memLoad.mp mem
      have enabled := ((hitsCore (normal q inside) pinned).mp hit).1
      rw [only q mem hit] at enabled scope
      exact absurd ⟨enabled,scope⟩ skipped

theorem reloadedMissing {sha : List Entry → String} {c : Config m} {managedKeys : String → Bool} {env : Environ}
    {u : OsEnvironments} {core : Core} (normal : ∀ row ∈ u.live, normalizeName m row.name = row.name)
    (pinned : c.isShellPinned core.name = false) (missing : ∀ row ∈ u.live, row.name ≠ core.name) :
    (applySync sha c managedKeys env (loadFromDB c u)).config.get core = "" := by
  refine reloadedNothing pinned ?_
  intro q mem
  obtain ⟨inside,_⟩ := memLoad.mp mem
  cases hit : hits c core q with
  | false => rfl
  | true => exact absurd ((hitsCore (normal q inside) pinned).mp hit).2 (missing q inside)

theorem reloadedPinned {sha : List Entry → String} {c : Config m} {managedKeys : String → Bool} {env : Environ}
    {rows : List OsEnvironment} {core : Core} {shell : String → String}
    (pinned : c.isShellPinned core.name = true) :
    resolveShellValue c shell core.name ≠ "" ∧
    (applySync sha c managedKeys env rows).config.get core = resolveShellValue c shell core.name := by
  obtain ⟨value,found⟩ := Option.isSome_iff_exists.mp pinned
  have filled : value ≠ "" := by
    unfold Config.shellLookup at found
    obtain ⟨left,right,whole,_⟩ := List.lookup_eq_some_iff.mp found
    exact c.shellOverrides.filled (normalizeName m core.name,value) (by rw [whole]; simp)
  have here : resolveShellValue c shell core.name = value := by
    simp [resolveShellValue,Config.shellValue,found,filled]
  rw [here]
  exact ⟨filled,by rw [applySync,pinnedGet,found]; rfl⟩

/- The shell map is read with the getter that the pins were read with, so beyond
them it repeats at most what a reload has put into the process. -/
def Repeats (c : Config m) (t : OsEnvironments) (shell : String → String) : Prop :=
  ∀ core : Core, c.isShellPinned core.name = false → shell core.name = "" ∨
    ∃ row ∈ t.live, row.name = core.name ∧ Applies c row ∧ row.value = shell core.name

/- No row that a reload passes by has a value. -/
def Plain (c : Config m) (t : OsEnvironments) (core : Core) : Prop :=
  ∀ row ∈ t.live, row.name = core.name → Applies c row ∨ row.value = ""

theorem unpinnedShell {c : Config m} {shell : String → String} {core : Core}
    (pinned : c.isShellPinned core.name = false) : resolveShellValue c shell core.name = shell core.name := by
  simp [resolveShellValue,Config.shellValue,pinnedLookup pinned]

theorem onlyRow {c : Config m} {t : OsEnvironments} {core : Core} {row : OsEnvironment} (live : row ∈ t.live)
    (name : row.name = core.name) : Plain c t core ↔ Applies c row ∨ row.value = "" := by
  constructor
  · exact fun plain => plain row live name
  · intro here q inside same
    rwa [sameKey t (memLive.mp inside).1 (memLive.mp live).1 (same.trans name.symm)]

/- One variable with a row, whatever the later table. -/
theorem liveRowAgrees {sha : List Entry → String} {c : Config m} {managedKeys : String → Bool} {env : Environ}
    {t u : OsEnvironments} {shell defaults : String → String} {core : Core} {row : OsEnvironment}
    (normal : ∀ row ∈ u.live, normalizeName m row.name = row.name) (pinned : c.isShellPinned core.name = false)
    (repeats : Repeats c t shell) (live : row ∈ t.live) (later : row ∈ u.live) (name : row.name = core.name) :
    ensured t core (shell core.name) (defaults core.name) =
      (applySync sha c managedKeys env (loadFromDB c u)).config.get core ↔ Plain c t core := by
  have value : ensured t core (shell core.name) (defaults core.name) = row.value := by
    unfold ensured
    split
    · rename_i given
      obtain ⟨q,inside,same,_,here⟩ := (repeats core pinned).resolve_left given
      rw [← here,sameKey t (memLive.mp inside).1 (memLive.mp live).1 (same.trans name.symm)]
    · rw [firstNamed.mpr ⟨live,name⟩]
  obtain ⟨applied,skipped⟩ := reloadedOnly normal pinned later name
  rw [value,onlyRow live name]
  by_cases applies : Applies c row
  · exact iff_of_true (applied applies).symm (.inl applies)
  · rw [skipped applies]
    simp [applies]

theorem missingValue {c : Config m} {t : OsEnvironments} {shell : String → String} (defaults : String → String)
    {core : Core} (pinned : c.isShellPinned core.name = false) (repeats : Repeats c t shell)
    (missing : ∀ row ∈ t.live, row.name ≠ core.name) :
    shell core.name = "" ∧ ensured t core (shell core.name) (defaults core.name) = defaults core.name := by
  have none : shell core.name = "" := by
    rcases repeats core pinned with empty | ⟨row,live,name,_⟩
    · exact empty
    · exact absurd name (missing row live)
  have first : t.first (named core.name) = Option.none := by
    cases found : t.first (named core.name) with
    | none => rfl
    | some row =>
      obtain ⟨live,name⟩ := firstNamed.mp found
      exact absurd name (missing row live)
  refine ⟨none,?_⟩
  rw [ensured,none,first]
  rfl

theorem grownNormal {c : Config m} {defaults : String → String} {t u : OsEnvironments} (grown : Grown c defaults t u)
    (normal : ∀ row ∈ t.live, normalizeName m row.name = row.name) :
    ∀ row ∈ u.live, normalizeName m row.name = row.name := by
  intro row live
  rcases grown.new row live with old | ⟨_,shape,_⟩
  · exact normal row old
  · exact normalizeSelf m shape

/- One variable, after the rows that were missing have been created and before. -/
theorem coreAgrees (sha : List Entry → String) {c : Config m} (managedKeys : String → Bool) (env : Environ)
    {t u : OsEnvironments} {shell defaults : String → String} {core : Core}
    (normal : ∀ row ∈ t.live, normalizeName m row.name = row.name) (repeats : Repeats c t shell)
    (grown : Grown c defaults t u)
    (all : resolveShellValue c shell core.name = "" → ∃ row ∈ u.live, row.name = core.name) :
    (ensured t core (resolveShellValue c shell core.name) (defaults core.name) =
        (applySync sha c managedKeys env (loadFromDB c u)).config.get core ↔
      (c.isShellPinned core.name = false → Plain c t core)) ∧
    (ensured t core (resolveShellValue c shell core.name) (defaults core.name) =
        (applySync sha c managedKeys env (loadFromDB c t)).config.get core ↔
      (c.isShellPinned core.name = false → Plain c t core ∧
        ((∀ row ∈ t.live, row.name ≠ core.name) → defaults core.name = ""))) := by
  cases pinned : c.isShellPinned core.name with
  | true =>
    have here {rows : List OsEnvironment} : ensured t core (resolveShellValue c shell core.name) (defaults core.name) =
        (applySync sha c managedKeys env rows).config.get core := by
      obtain ⟨given,pin⟩ := reloadedPinned pinned
      rw [pin,ensured,if_pos given]
    exact ⟨iff_of_true here nofun,iff_of_true here nofun⟩
  | false =>
    simp only [true_implies]
    rw [unpinnedShell pinned] at all ⊢
    have later := grownNormal grown normal
    by_cases some : ∃ row ∈ t.live, row.name = core.name
    · obtain ⟨row,live,name⟩ := some
      refine ⟨liveRowAgrees later pinned repeats live (grown.old row live) name,?_⟩
      rw [liveRowAgrees normal pinned repeats live live name]
      exact ⟨fun plain => ⟨plain,fun missing => absurd name (missing row live)⟩,And.left⟩
    · have missing : ∀ row ∈ t.live, row.name ≠ core.name := fun row live name => some ⟨row,live,name⟩
      have plain : Plain c t core := fun row live name => absurd name (missing row live)
      obtain ⟨empty,value⟩ := missingValue defaults pinned repeats missing
      rw [value]
      refine ⟨iff_of_true ?_ plain,?_⟩
      · obtain ⟨row,live,name⟩ := all empty
        obtain ⟨created,_⟩ := (grown.new row live).resolve_left (fun old => missing row old name)
        have applies : Applies c row := ⟨created.enabled,by simp [inScope,created.scope]⟩
        rw [(reloadedOnly later pinned live name).1 applies,created.value,name]
      · rw [reloadedMissing normal pinned missing]
        exact ⟨fun none => ⟨plain,fun _ => none⟩,fun both => both.2 missing⟩

/- The two configurations agree for the rows as ServerConfigFromDB leaves them,
and for the rows as it found them, exactly when no core variable that is not
pinned has a value in a row that a reload passes by (and, for the latter, none
is missing that has a default). -/
theorem serverConfigAgrees (sha : List Entry → String) (c : Config m) (managedKeys : String → Bool)
    (env env' : Environ) (t : OsEnvironments) (shell defaults : String → String)
    (normal : ∀ row ∈ t.live, normalizeName m row.name = row.name) (repeats : Repeats c t shell)
    (built : (serverConfigFromDB c t env shell defaults).err = none) :
    ((serverConfigFromDB c t env shell defaults).config =
        (applySync sha c managedKeys env' (loadFromDB c (serverConfigFromDB c t env shell defaults).table)).config ↔
      ∀ core : Core, c.isShellPinned core.name = false → Plain c t core) ∧
    ((serverConfigFromDB c t env shell defaults).config =
        (applySync sha c managedKeys env' (loadFromDB c t)).config ↔
      ∀ core : Core, c.isShellPinned core.name = false → Plain c t core ∧
        ((∀ row ∈ t.live, row.name ≠ core.name) → defaults core.name = "")) := by
  obtain ⟨grown,all,values⟩ := ensureAllOk built
  have each (core : Core) := coreAgrees sha managedKeys env' normal repeats grown
    (all core (coreListed core))
  have value (core : Core) : (serverConfigFromDB c t env shell defaults).config.get core =
      ensured t core (resolveShellValue c shell core.name) (defaults core.name) := by
    rw [serverConfigFromDB,values core,if_pos (coreListed core)]
  rw [configExt,configExt]
  refine ⟨forall_congr' (fun core => ?_),forall_congr' (fun core => ?_)⟩
  · rw [value]
    exact (each core).1
  · rw [value]
    exact (each core).2

def pinning (moduleID name value : String) (normal : normalizeName m name = name) (filled : value ≠ "") : Config m :=
  ⟨moduleID,⟨[(name,value)],by simp,by simpa using normal,by simpa using filled⟩⟩

def pinnedAddress : Config asciiUpper :=
  pinning "containerws" "ADDRESS" "127.0.0.1" (by decide +kernel) (by decide)

def noShell : String → String := fun _ => ""

def portDefault (name : String) : String := if name = "PORT" then "80" else ""

/- The port is stored and enabled, the address pinned. -/
def portStored : OsEnvironments :=
  reach (empty schema) [Call.setCore pinnedAddress (fun _ => none) "port" "9000"]

theorem serverConfigAgreesStored :
    (serverConfigFromDB pinnedAddress portStored (fun _ => none) noShell portDefault).config =
      (applySync (fun _ => "") pinnedAddress (fun _ => false) (fun _ => none) (loadFromDB pinnedAddress
        (serverConfigFromDB pinnedAddress portStored (fun _ => none) noShell portDefault).table)).config := by
  have applies : ∀ row ∈ portStored.live, row.isDisabled = false ∧ inScope pinnedAddress row = true := by
    decide +kernel
  have agrees := serverConfigAgrees (fun _ => "") pinnedAddress (fun _ => false) (fun _ => none) (fun _ => none)
    portStored noShell portDefault (by decide +kernel) (fun _ _ => .inl rfl) (by decide +kernel)
  exact agrees.1.mpr (fun _ _ row live _ => .inl (applies row live))

/- Stored and then disabled. -/
def portDisabled : OsEnvironments :=
  reach (empty schema) [Call.setCore pinnedAddress (fun _ => none) "port" "9000",
    .update (some 0) ⟨none,none,none,none,some true,none⟩]

theorem serverConfigDisabled :
    (serverConfigFromDB pinnedAddress portDisabled (fun _ => none) noShell portDefault).err = none ∧
    (serverConfigFromDB pinnedAddress portDisabled (fun _ => none) noShell portDefault).config.PORT = "9000" ∧
    (applySync (fun _ => "") pinnedAddress (fun _ => false) (fun _ => none) (loadFromDB pinnedAddress
      portDisabled)).config.PORT = "" ∧
    (applySync (fun _ => "") pinnedAddress (fun _ => false) (fun _ => none) (loadFromDB pinnedAddress
      (serverConfigFromDB pinnedAddress portDisabled (fun _ => none) noShell portDefault).table)).config.PORT = "" := by
  decide +kernel

end ContainerWS.Environments
