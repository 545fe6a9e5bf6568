import ContainerWS.SoftDelete
import ContainerWS.Environments.Names

/-! The table os_environments and the operations that write it (model.go,
crud.go, and SetCore and EnsureCore of sync.go). The time stamps and the notices
to other pods are left out. -/
namespace ContainerWS.Environments
open GoStrings SoftDelete

inductive Source where
  | unset
  | env
  | server
  deriving DecidableEq, Repr

structure OsEnvironment where
  id : Nat
  name : String
  value : String
  moduleID : String
  group : String
  source : Source
  isCore : Bool
  isSecret : Bool
  isDisabled : Bool
  isTextarea : Bool
  deletedAt : Bool
  deriving DecidableEq, Repr

/- The unique index is on the name alone. BeforeCreate draws the identifier. -/
def schema : Schema OsEnvironment String where
  ident := OsEnvironment.id
  key := OsEnvironment.name
  deleted := OsEnvironment.deletedAt
  number := fun n row => {row with id := n}
  mark := fun row => {row with deletedAt := true}
  identNumber := fun _ _ => rfl
  keyNumber := fun _ _ => rfl
  identMark := fun _ => rfl
  keyMark := fun _ => rfl
  deletedMark := fun _ => rfl

abbrev OsEnvironments := Table schema

/- Values read from the process or .env before any row is applied. -/
structure ShellOverrides (m : UpperMap) where
  entries : List (String × String)
  distinct : (entries.map Prod.fst).Nodup
  normal : ∀ e ∈ entries, normalizeName m e.1 = e.1
  filled : ∀ e ∈ entries, e.2 ≠ ""

structure Config (m : UpperMap) where
  moduleID : String
  shellOverrides : ShellOverrides m

variable {m : UpperMap}

def Config.shellLookup (c : Config m) (name : String) : Option String :=
  c.shellOverrides.entries.lookup (normalizeName m name)

def Config.isShellPinned (c : Config m) (name : String) : Bool := (c.shellLookup name).isSome

def Config.shellValue (c : Config m) (name : String) : String := (c.shellLookup name).getD ""

/- The process environment. -/
abbrev Environ := String → Option String

/- `os.Setenv` reports a bad name or value; every caller ignores the report. -/
def setenv (env : Environ) (name value : String) : Environ :=
  if name = "" ∨ '=' ∈ name.toList ∨ '\x00' ∈ name.toList ∨ '\x00' ∈ value.toList then env
  else fun other => if other = name then some value else env other

def unsetenv (env : Environ) (name : String) : Environ := fun other => if other = name then none else env other

structure CreateEnvironmentInput where
  name : String
  value : String
  group : String
  isSecret : Bool
  isDisabled : Bool
  isTextarea : Bool
  deriving DecidableEq, Repr

structure UpdateEnvironmentInput where
  name : Option String
  value : Option String
  group : Option String
  isSecret : Option Bool
  isDisabled : Option Bool
  isTextarea : Option Bool
  deriving DecidableEq, Repr

def UpdateEnvironmentInput.isEmpty (input : UpdateEnvironmentInput) : Bool :=
  input.name.isNone && input.value.isNone && input.group.isNone && input.isSecret.isNone &&
    input.isDisabled.isNone && input.isTextarea.isNone

def validateCreateName (m : UpperMap) (name : String) : Except Error Unit :=
  if IsCoreName m name then .error .coreNameReserved else .ok ()

def validateUpdateName (m : UpperMap) (current : OsEnvironment) (newName : String) : Except Error Unit :=
  if IsCoreName m (normalizeName m current.name) ∧ newName ≠ normalizeName m current.name then .error .coreRenamed
  else if IsCoreName m (normalizeName m current.name) = false ∧ IsCoreName m newName then .error .coreNameReserved
  else .ok ()

def validateSource (m : UpperMap) (name : String) (row : OsEnvironment) : OsEnvironment :=
  if IsCoreName m name then {row with name := name, isCore := true, source := .server}
  else if row.source = .unset then {row with name := name, source := .env}
  else {row with name := name}

def validateEnvironmentRow (m : UpperMap) (row : OsEnvironment) : Except Error OsEnvironment :=
  match formatName m row.name with
  | .error e => .error e
  | .ok name => .ok (validateSource m name row)

def named (name : String) (row : OsEnvironment) : Bool := row.name == name

def numbered (id : Nat) (row : OsEnvironment) : Bool := row.id == id

/- `Where("name = ?").Count`, of live rows as every query of this package. -/
def count (t : OsEnvironments) (name : String) : Nat := t.live.countP (named name)

def CreateEnvironmentInput.row (c : Config m) (input : CreateEnvironmentInput) (name : String) : OsEnvironment :=
  ⟨0,name,input.value,c.moduleID,formatGroup input.group,.env,false,input.isSecret,input.isDisabled,
    input.isTextarea,false⟩

def createEnvironment (c : Config m) (t : OsEnvironments) (input : CreateEnvironmentInput) :
    Except Error OsEnvironment × OsEnvironments :=
  match formatName m input.name with
  | .error e => (.error e,t)
  | .ok name =>
    match validateCreateName m name with
    | .error e => (.error e,t)
    | .ok _ =>
      if count t name > 0 then (.error .nameConflict,t)
      else
        match validateEnvironmentRow m (input.row c name) with
        | .error e => (.error e,t)
        | .ok row =>
          match t.insert row with
          | none => (.error .database,t)
          | some u => (.ok (schema.number t.drawn row),u)

def getEnvironment (t : OsEnvironments) (id : Nat) : Except Error OsEnvironment :=
  match t.first (numbered id) with
  | none => .error .notFound
  | some row => .ok row

def UpdateEnvironmentInput.fill (input : UpdateEnvironmentInput) (row : OsEnvironment) : OsEnvironment :=
  {row with
    value := input.value.getD row.value
    group := (input.group.map formatGroup).getD row.group
    isSecret := input.isSecret.getD row.isSecret
    isDisabled := input.isDisabled.getD row.isDisabled
    isTextarea := input.isTextarea.getD row.isTextarea}

def updateName (m : UpperMap) (row : OsEnvironment) : Option String → Except Error String
  | none => .ok row.name
  | some raw =>
    match formatName m raw with
    | .error e => .error e
    | .ok name =>
      match validateUpdateName m row name with
      | .error e => .error e
      | .ok _ => .ok name

def applyUpdate (m : UpperMap) (row : OsEnvironment) (input : UpdateEnvironmentInput) : Except Error OsEnvironment :=
  match updateName m row input.name with
  | .error e => .error e
  | .ok name => validateEnvironmentRow m (input.fill {row with name := name})

def nameExists (m : UpperMap) (t : OsEnvironments) (name : String) (excludeID : Nat) : Bool :=
  t.live.any (fun row => row.name == normalizeName m name && row.id != excludeID)

/- A missing identifier is the empty one. -/
def updateEnvironment (m : UpperMap) (t : OsEnvironments) (id : Option Nat) (input : UpdateEnvironmentInput) :
    Except Error OsEnvironment × OsEnvironments :=
  match id with
  | none => (.error .invalidName,t)
  | some id =>
    if input.isEmpty then (getEnvironment t id,t)
    else
      match t.first (numbered id) with
      | none => (.error .notFound,t)
      | some current =>
        match applyUpdate m current input with
        | .error e => (.error e,t)
        | .ok row =>
          if input.name.isSome ∧ nameExists m t row.name row.id then (.error .nameConflict,t)
          else
            match t.update row with
            | none => (.error .database,t)
            | some u => (.ok row,u)

def deleteEnvironment (m : UpperMap) (t : OsEnvironments) (id : Option Nat) : Except Error Unit × OsEnvironments :=
  match id with
  | none => (.error .invalidName,t)
  | some id =>
    match t.first (numbered id) with
    | none => (.error .notFound,t)
    | some row =>
      if row.isCore ∨ IsCoreName m row.name then (.error .coreNotDeletable,t)
      else
        match t.update (schema.mark row) with
        | none => (.error .database,t)
        | some u => (.ok (),u)

def isSecretCore (name : String) : Bool := name == "JWT_SECRET" || name == "SERVER_SSL_KEY"

def coreRow (c : Config m) (name value : String) : OsEnvironment :=
  ⟨0,name,value,c.moduleID,"",.server,true,isSecretCore name,false,false,false⟩

def writeCore (c : Config m) (t : OsEnvironments) (name value : String) : Option OsEnvironments :=
  match t.first (named name) with
  | none => t.insert (coreRow c name value)
  | some row => t.update {row with value := value, isCore := true, source := .server, isSecret := isSecretCore name}

def setCore (c : Config m) (t : OsEnvironments) (env : Environ) (name value : String) :
    Except Error Unit × OsEnvironments × Environ :=
  if IsCoreName m (normalizeName m name) = false then (.error .invalidName,t,env)
  else
    match writeCore c t (normalizeName m name) value with
    | none => (.error .database,t,env)
    | some u =>
      (.ok (),u,if c.isShellPinned (normalizeName m name) then env else setenv env (normalizeName m name) value)

/- The value is returned beside an error too. -/
structure Resolved where
  value : String
  err : Option Error
  deriving DecidableEq, Repr

def ensureCore (c : Config m) (t : OsEnvironments) (env : Environ) (name shellValue defaultValue : String) :
    Resolved × OsEnvironments × Environ :=
  if shellValue ≠ "" then (⟨shellValue,none⟩,t,setenv env (normalizeName m name) shellValue)
  else
    match t.first (named (normalizeName m name)) with
    | none =>
      match t.insert (coreRow c (normalizeName m name) defaultValue) with
      | none => (⟨defaultValue,some .database⟩,t,setenv env (normalizeName m name) defaultValue)
      | some u => (⟨defaultValue,none⟩,u,setenv env (normalizeName m name) defaultValue)
    | some row =>
      if row.isDisabled then (⟨row.value,none⟩,t,unsetenv env (normalizeName m name))
      else (⟨row.value,none⟩,t,setenv env (normalizeName m name) row.value)

end ContainerWS.Environments
