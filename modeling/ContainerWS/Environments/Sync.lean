import Mathlib.Data.List.Sort
import ContainerWS.Environments.Rows

/-! How rows reach the process (sync.go): the query, the fingerprint, and what
applySync makes of the rows it is given. SHA-256 is the argument `sha`. -/
namespace ContainerWS.Environments
open GoStrings SoftDelete

variable {m : UpperMap}

/- Rows of the module and global ones. -/
def inScope (c : Config m) (row : OsEnvironment) : Bool :=
  c.moduleID == "" || row.moduleID == c.moduleID || row.moduleID == ""

def byName (a b : OsEnvironment) : Prop := a.name ≤ b.name

instance (a b : OsEnvironment) : Decidable (byName a b) := inferInstanceAs (Decidable (a.name ≤ b.name))

def loadFromDB (c : Config m) (t : OsEnvironments) : List OsEnvironment :=
  (t.live.filter (inScope c)).insertionSort byName

/- What the hash is taken of. -/
structure Entry where
  name : String
  value : String
  isDisabled : Bool
  deriving DecidableEq, Repr

def content (rows : List OsEnvironment) : List Entry :=
  (rows.insertionSort byName).map (fun row => ⟨row.name,row.value,row.isDisabled⟩)

def fingerprint (sha : List Entry → String) (rows : List OsEnvironment) : String := sha (content rows)

structure ServerConfig where
  PORT : String := ""
  ADDRESS : String := ""
  AUTH_URL : String := ""
  JWT_SECRET : String := ""
  ENABLE_HTTPS : String := ""
  SERVER_SSL_CERTIFICATE : String := ""
  SERVER_SSL_KEY : String := ""
  deriving DecidableEq, Repr

def ServerConfig.get (cfg : ServerConfig) : Core → String
  | .PORT => cfg.PORT
  | .ADDRESS => cfg.ADDRESS
  | .AUTH_URL => cfg.AUTH_URL
  | .JWT_SECRET => cfg.JWT_SECRET
  | .ENABLE_HTTPS => cfg.ENABLE_HTTPS
  | .SERVER_SSL_CERTIFICATE => cfg.SERVER_SSL_CERTIFICATE
  | .SERVER_SSL_KEY => cfg.SERVER_SSL_KEY

def ServerConfig.set (cfg : ServerConfig) (value : String) : Core → ServerConfig
  | .PORT => {cfg with PORT := value}
  | .ADDRESS => {cfg with ADDRESS := value}
  | .AUTH_URL => {cfg with AUTH_URL := value}
  | .JWT_SECRET => {cfg with JWT_SECRET := value}
  | .ENABLE_HTTPS => {cfg with ENABLE_HTTPS := value}
  | .SERVER_SSL_CERTIFICATE => {cfg with SERVER_SSL_CERTIFICATE := value}
  | .SERVER_SSL_KEY => {cfg with SERVER_SSL_KEY := value}

@[simp] theorem getSet (cfg : ServerConfig) (value : String) (a b : Core) :
    (cfg.set value a).get b = if a = b then value else cfg.get b := by
  cases a <;> cases b <;> rfl

theorem configExt {a b : ServerConfig} : a = b ↔ ∀ core, a.get core = b.get core := by
  constructor
  · rintro rfl core
    rfl
  · intro same
    cases a
    cases b
    simp only [ServerConfig.mk.injEq]
    exact ⟨same .PORT,same .ADDRESS,same .AUTH_URL,same .JWT_SECRET,same .ENABLE_HTTPS,
      same .SERVER_SSL_CERTIFICATE,same .SERVER_SSL_KEY⟩

def applyCoreValue (m : UpperMap) (cfg : ServerConfig) (name value : String) : ServerConfig :=
  match coreNamed (normalizeName m name) with
  | none => cfg
  | some core => cfg.set value core

def applyShellPinnedConfig (c : Config m) (cfg : ServerConfig) : ServerConfig :=
  c.shellOverrides.entries.foldl (fun cfg e => applyCoreValue m cfg e.1 e.2) cfg

def applyShellPinnedEnv (c : Config m) (env : Environ) : Environ :=
  c.shellOverrides.entries.foldl (fun env e => setenv env e.1 e.2) env

/- The maps that applySync fills while it goes through the rows. -/
structure Plan where
  desired : String → Option String
  disabled : String → Bool
  config : ServerConfig

def Plan.row (c : Config m) (plan : Plan) (row : OsEnvironment) : Plan :=
  if normalizeName m row.name = "" then plan
  else if c.isShellPinned (normalizeName m row.name) then plan
  else if row.isDisabled then
    {plan with disabled := fun name => name == normalizeName m row.name || plan.disabled name}
  else
    {plan with
      desired := fun name => if name = normalizeName m row.name then some row.value else plan.desired name
      config :=
        if row.isCore ∨ IsCoreName m (normalizeName m row.name) then
          applyCoreValue m plan.config (normalizeName m row.name) row.value
        else plan.config}

def planOf (c : Config m) (rows : List OsEnvironment) : Plan :=
  rows.foldl (Plan.row c) ⟨fun _ => none,fun _ => false,{}⟩

/- The keys are those of Go maps, so the order in which they come does not matter. -/
def setDesired (plan : Plan) (env : Environ) : Environ := fun name =>
  match plan.desired name with
  | none => env name
  | some value => setenv env name value name

def unsetDisabled (c : Config m) (plan : Plan) (env : Environ) : Environ := fun name =>
  if plan.disabled name && !c.isShellPinned name then none else env name

def unsetPrevious (c : Config m) (plan : Plan) (managedKeys : String → Bool) (env : Environ) : Environ := fun name =>
  if managedKeys name && !c.isShellPinned name && (plan.desired name).isNone && !plan.disabled name then none
  else env name

structure Synced where
  env : Environ
  managedKeys : String → Bool
  lastFingerprint : String
  config : ServerConfig

/- The last component is what OnReload is called with. -/
def applySync (sha : List Entry → String) (c : Config m) (managedKeys : String → Bool) (env : Environ)
    (rows : List OsEnvironment) : Synced where
  env := applyShellPinnedEnv c (unsetPrevious c (planOf c rows) managedKeys
    (unsetDisabled c (planOf c rows) (setDesired (planOf c rows) env)))
  managedKeys := fun name => ((planOf c rows).desired name).isSome
  lastFingerprint := fingerprint sha rows
  config := applyShellPinnedConfig c (planOf c rows).config

/- The rows that decide a core variable in applySync. -/
def hits (c : Config m) (core : Core) (row : OsEnvironment) : Bool :=
  !c.isShellPinned (normalizeName m row.name) && !row.isDisabled && normalizeName m row.name == core.name

theorem applyCoreGet (m : UpperMap) (cfg : ServerConfig) {name value : String} (core : Core) :
    (applyCoreValue m cfg name value).get core = if normalizeName m name = core.name then value else cfg.get core := by
  unfold applyCoreValue
  split
  · rename_i none
    rw [if_neg]
    intro same
    rw [same,coreNamedName] at none
    contradiction
  · rename_i found other
    have here := coreNamedSome other
    rw [getSet]
    by_cases same : found = core
    · rw [if_pos same,if_pos (by rw [← here,same])]
    · rw [if_neg same,if_neg]
      exact fun name => same (nameInjective (here.trans name))

theorem nameNonempty (core : Core) : core.name ≠ "" := by
  cases core <;> decide

theorem planRowGet (c : Config m) (plan : Plan) (row : OsEnvironment) (core : Core) :
    (plan.row c row).config.get core = if hits c core row then row.value else plan.config.get core := by
  unfold Plan.row hits
  by_cases empty : normalizeName m row.name = ""
  · rw [if_pos empty,empty]
    simp [(nameNonempty core).symm]
  · rw [if_neg empty]
    cases c.isShellPinned (normalizeName m row.name) with
    | true => simp
    | false =>
      cases row.isDisabled with
      | true => simp
      | false =>
        by_cases here : normalizeName m row.name = core.name
        · have normal := normalizeSelf m (corePattern core)
          have named : IsCoreName m core.name = true := isCoreIff.mpr ⟨core,normal⟩
          simp [here,named,applyCoreGet,normal]
        · simp only [Bool.false_eq_true,if_false,here,Bool.not_false,Bool.true_and,beq_iff_eq]
          split
          · rw [applyCoreGet,normalizeTwice,if_neg here]
          · rfl

/- The last row of the name counts. -/
theorem planGet (c : Config m) (rows : List OsEnvironment) (plan : Plan) (core : Core) :
    (rows.foldl (Plan.row c) plan).config.get core =
      ((rows.filter (hits c core)).getLast?.map (·.value)).getD (plan.config.get core) := by
  induction rows generalizing plan with
  | nil => rfl
  | cons row rest ih =>
    rw [List.foldl_cons,ih,planRowGet,List.filter_cons]
    split
    · rw [List.getLast?_cons]
      cases (rest.filter (hits c core)).getLast? <;> simp
    · rfl

theorem pinEntriesGet {entries : List (String × String)} (distinct : (entries.map Prod.fst).Nodup)
    (normal : ∀ e ∈ entries, normalizeName m e.1 = e.1) (cfg : ServerConfig) (core : Core) :
    (entries.foldl (fun cfg e => applyCoreValue m cfg e.1 e.2) cfg).get core =
      (entries.lookup core.name).getD (cfg.get core) := by
  induction entries generalizing cfg with
  | nil => rfl
  | cons e rest ih =>
    obtain ⟨fresh,distinct⟩ := List.nodup_cons.mp distinct
    rw [List.foldl_cons,ih distinct (fun e mem => normal e (List.mem_cons_of_mem _ mem)),applyCoreGet,
      normal e List.mem_cons_self,List.lookup_cons]
    by_cases here : e.1 = core.name
    · have absent : rest.lookup e.1 = none := by
        rw [List.lookup_eq_none_iff]
        intro other mem
        exact bne_iff_ne.mpr (fun same => fresh (List.mem_map.mpr ⟨other,mem,same.symm⟩))
      rw [← here,absent]
      simp
    · rw [if_neg here,beq_false_of_ne (Ne.symm here)]

theorem pinnedGet (c : Config m) (cfg : ServerConfig) (core : Core) :
    (applyShellPinnedConfig c cfg).get core = (c.shellLookup core.name).getD (cfg.get core) := by
  rw [Config.shellLookup,normalizeSelf m (corePattern core)]
  exact pinEntriesGet c.shellOverrides.distinct c.shellOverrides.normal cfg core

theorem pinnedLookup {c : Config m} {core : Core} (pinned : c.isShellPinned core.name = false) :
    c.shellLookup core.name = none := by
  simpa [Config.isShellPinned] using pinned

/- What OnReload is told about a core variable that is not pinned: the value of
its one enabled row, else nothing. -/
theorem reloadedValue {sha : List Entry → String} {c : Config m} {managedKeys : String → Bool} {env : Environ}
    {rows : List OsEnvironment} {core : Core} {row : OsEnvironment} (pinned : c.isShellPinned core.name = false)
    (mem : row ∈ rows) (hit : hits c core row = true) (only : ∀ q ∈ rows, hits c core q = true → q = row) :
    (applySync sha c managedKeys env rows).config.get core = row.value := by
  have inside : row ∈ rows.filter (hits c core) := List.mem_filter.mpr ⟨mem,hit⟩
  cases last : (rows.filter (hits c core)).getLast? with
  | none =>
    rw [List.getLast?_eq_none_iff] at last
    rw [last] at inside
    contradiction
  | some q =>
    obtain ⟨there,hit'⟩ := List.mem_filter.mp (List.mem_of_getLast? last)
    rw [applySync,pinnedGet,pinnedLookup pinned,planOf,planGet,last,only q there hit']
    rfl

theorem reloadedNothing {sha : List Entry → String} {c : Config m} {managedKeys : String → Bool} {env : Environ}
    {rows : List OsEnvironment} {core : Core} (pinned : c.isShellPinned core.name = false)
    (none : ∀ q ∈ rows, hits c core q = false) :
    (applySync sha c managedKeys env rows).config.get core = "" := by
  have empty : rows.filter (hits c core) = [] := by
    rw [List.filter_eq_nil_iff]
    intro q mem
    simp [none q mem]
  rw [applySync,pinnedGet,pinnedLookup pinned,planOf,planGet,empty]
  cases core <;> rfl

theorem memLoad {c : Config m} {t : OsEnvironments} {row : OsEnvironment} :
    row ∈ loadFromDB c t ↔ row ∈ t.live ∧ inScope c row = true := by
  rw [loadFromDB,List.mem_insertionSort,List.mem_filter]

end ContainerWS.Environments
