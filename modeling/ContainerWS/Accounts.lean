import ContainerWS.GoStrings
import ContainerWS.Decimals

/-! The accounts of the host as Go's `os/user` gives them, the rows of the panel's users, and the
role of an administrator. -/
namespace ContainerWS.Accounts
open GoStrings

/- `user.User`. -/
structure Account where
  uid : String
  gid : String
  username : String
  homeDir : String
  deriving DecidableEq, Repr

/- `/etc/passwd` and what else the host knows its accounts from, and the account of the panel's own
process. -/
structure Table where
  rows : List Account
  current : Option Account
  deriving DecidableEq, Repr

/- `user.Lookup`: the own account is known without the table. -/
def Table.lookup (t : Table) (username : String) : Option Account :=
  (t.current.toList ++ t.rows).find? (fun a => a.username == username)

theorem lookupName {t : Table} {username : String} {a : Account} (found : t.lookup username = some a) :
    a.username = username := by
  have named := List.find?_some found
  simpa using named

/- `strconv.ParseUint(s, 10, 32)`. -/
def parseUint32 (s : String) : Option Nat := (Decimals.digits s.toList).filter (fun n => n < 2^32)

structure Ids where
  uid : Nat
  gid : Nat
  deriving DecidableEq, Repr

def Account.ids (a : Account) : Option Ids := do
  let uid ← parseUint32 a.uid
  let gid ← parseUint32 a.gid
  some ⟨uid,gid⟩

/- `models.UserStatus`; the users' form writes any text. -/
inductive UserStatus where
  | active
  | inactive
  | suspended
  | disabled
  | deleted
  | new
  | pending
  | other (text : String)
  deriving DecidableEq, Repr

/- `models.User`; a NULL text is read as "". -/
structure User where
  id : String
  firstName : String
  lastName : String
  email : String
  organizationEmail : String
  username : String
  ldapUsername : String
  password : String
  status : UserStatus
  isConfirmed : Bool
  roles : List String
  deletedAt : Option Nat
  deriving DecidableEq, Repr

/- The account a panel user stands for when nothing else is asked for. -/
def User.shellUser (u : User) : String :=
  if trimSpace u.username ≠ "" then trimSpace u.username
  else if trimSpace u.ldapUsername ≠ "" then trimSpace u.ldapUsername
  else "root"

def firstNonEmpty (values : List String) : String :=
  ((values.map trimSpace).find? (fun v => v != "")).getD ""

/- The roles as `GetRole` is asked for them: each trimmed, and what stands before its colon. -/
def normalized (roles : List String) : List String :=
  roles.flatMap fun role =>
    let r := trimSpace role
    if r = "" then []
    else if ':' ∈ r.toList ∧ before ':' r ≠ "" then [r,before ':' r]
    else [r]

/- `getRole` is the package's answer for the one role "admin". -/
def hasAdminRole (getRole : List String → Bool × Bool) (userRoles : List String) : Bool :=
  let roles := normalized userRoles
  if userRoles = [] then false
  else (getRole roles).1 && (getRole roles).2 || roles.any (fun r => ascii.toLower r == "admin")

/- `/etc/passwd` is read once more for the shell. -/
def lookupShell (passwd : Option String) (username : String) : String :=
  match passwd with
  | none => ""
  | some data =>
    let rows := ((split '\n' data).filter (fun line => hasPrefix line (username ++ ":"))).map (split ':')
    match rows.find? (fun parts => 7 ≤ parts.length) with
    | some parts => parts.getD 6 ""
    | none => ""

end ContainerWS.Accounts
