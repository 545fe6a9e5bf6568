import ContainerWS.Accounts
import ContainerWS.Fallible
import ContainerWS.GoPath

/-! The Linux account that a shell of modules/cloudshell is started as, beside the one that
modules/filemanager/identity resolves. Who is signed in is what goauth answers. -/
namespace ContainerWS.CloudShell.Account
open GoStrings Accounts

/- The host: its accounts, the text of /etc/passwd, the ids of the panel's process, and which files
are there. -/
structure Machine where
  table : Table
  passwd : Option String
  process : Ids
  stat : String → Bool

inductive Error where
  | unauthorized
  | forbidden
  | notFound (account : String)
  | database
  deriving DecidableEq, Repr

/- A query of one user by id: `none` is a row that is not there. -/
abbrev Users := String → Except Error (Option User)

/- What a request carries. `authData` and `claims` are the user id of GetAuthDataAPI and of GetClaims,
`authUser` the id and the roles of auth.User. -/
structure Request where
  authData : Option String
  claims : Option String
  authUser : Option (String × List String)
  asUser : String
  deriving DecidableEq, Repr

def Request.userID (q : Request) : Except Error String :=
  match q.authData with
  | some id => if id ≠ "" then .ok id else claimed
  | none => claimed
where
  claimed : Except Error String :=
    match q.claims with
    | some uid => if uid ≠ "" then .ok uid else .error .unauthorized
    | none => .error .unauthorized

def firstUser (users : Users) (id : String) : Except Error User := do
  match ← users id with
  | some u => .ok u
  | none => .error .unauthorized

structure CliUserContext where
  userID : String
  username : String
  displayName : String
  email : String
  shellUser : String
  homeDir : String
  shell : String
  cwd : String
  deriving DecidableEq, Repr

section
variable (m : Machine)

/- The account that as_user names, when it names one. -/
def asked (asUser : String) : Option Accounts.Account :=
  if trimSpace asUser ≠ "" then m.table.lookup (trimSpace asUser) else none

/- The account of a shell, its home and its login shell. An account that is not known is the one of
the panel's process. -/
def shellHome (shellUser : String) : String × String × String :=
  match m.table.lookup shellUser with
  | some a =>
    let sh := lookupShell m.passwd shellUser
    (shellUser,if a.homeDir ≠ "" then a.homeDir else "/root",if sh ≠ "" then sh else "/bin/bash")
  | none =>
    match m.table.current with
    | some a => (a.username,if a.homeDir ≠ "" then a.homeDir else "/root","/bin/bash")
    | none => (shellUser,"/root","/bin/bash")

def resolveUser (users : Users) (q : Request) : Except Error CliUserContext := do
  let id ← q.userID
  let dbUser ← firstUser users id
  let wanted := match asked m q.asUser with
    | some a => a.username
    | none => dbUser.shellUser
  let (shellUser,homeDir,shell) := shellHome m wanted
  let display := trimSpace (trimSpace (dbUser.firstName ++ " " ++ dbUser.lastName))
  .ok {
    userID := dbUser.id,
    username := firstNonEmpty [dbUser.username,dbUser.ldapUsername,shellUser],
    displayName := if display = "" then shellUser else display,
    email := dbUser.email,
    shellUser := shellUser,
    homeDir := homeDir,
    shell := if m.stat shell then shell else "/bin/sh",
    cwd := homeDir }

/- `exec.Cmd` of a shell: a login shell in a directory, with the credential it is given. -/
structure Cmd where
  path : String
  dir : String
  credential : Option Ids
  deriving DecidableEq, Repr

def applyUnixCredentials (username : String) : Option Ids :=
  match m.table.lookup username with
  | some a => if m.process.uid = 0 then a.ids else none
  | none => none

def ensureAbsHome (home : String) : String :=
  if home = "" then "/root"
  else if hasPrefix home "/" then home
  else GoPath.render (GoPath.clean (GoPath.components home))

def shellCmd (cliUser : CliUserContext) : Cmd where
  path := if cliUser.shell = "" then "/bin/bash" else cliUser.shell
  dir := ensureAbsHome cliUser.homeDir
  credential := applyUnixCredentials m cliUser.shellUser

/- A command without a credential runs as what starts it. -/
def Cmd.runsAs (cmd : Cmd) : Ids := cmd.credential.getD m.process

/- The ids that the shell of a new session runs with, where pty.Start works. -/
def opened (start : Cmd → Bool) (users : Users) (q : Request) : Option Ids :=
  match resolveUser m users q with
  | .ok cliUser => if start (shellCmd m cliUser) then some ((shellCmd m cliUser).runsAs m) else none
  | .error _ => none

end

/- `Context` of the file manager. -/
structure Context where
  userID : String
  username : String
  shellUser : String
  homeDir : String
  uid : Nat
  gid : Nat
  isAdmin : Bool
  isRootLinux : Bool
  deriving DecidableEq, Repr

/- The roles of the row, or where it cannot be read those of the session. -/
def freshUserRoles (users : Users) (id : String) (fallback : List String) : List String :=
  match users id with
  | .ok (some u) => u.roles.filter (fun r => r != "")
  | _ => fallback

/- `linuxuser.Lookup`, then `user.Lookup`, then the panel's own account. -/
def accountOf (m : Machine) (shellUser : String) : Option Accounts.Account :=
  if trimSpace shellUser ≠ "" ∧ (m.table.lookup (trimSpace shellUser)).isSome then m.table.lookup (trimSpace shellUser)
  else m.table.lookup shellUser

/- `filepath.Clean`. -/
def cleanPath (s : String) : String :=
  if hasPrefix s "/" then GoPath.render (GoPath.clean (GoPath.components s))
  else
    let parts := (GoPath.components s).foldl (fun p n =>
      if n = "" ∨ n = "." then p
      else if n = ".." then if p = [] ∨ p.getLast? = some ".." then p ++ [n] else p.dropLast
      else p ++ [n]) []
    if parts = [] then "." else "/".intercalate parts

def Resolve (m : Machine) (getRole : List String → Bool × Bool) (users : Users) (q : Request) : Except Error Context := do
  match q.authUser with
  | none => .error .unauthorized
  | some (id,sessionRoles) =>
    if id = "" then .error .unauthorized
    else
      let isAdmin := hasAdminRole getRole (freshUserRoles users id sessionRoles)
      let dbUser ← firstUser users id
      let shellUser ← wanted isAdmin dbUser
      let context := fun (name home : String) (uid gid : Nat) (isRootLinux : Bool) => ({
        userID := dbUser.id,
        username := firstNonEmpty [dbUser.username,dbUser.ldapUsername,name],
        shellUser := name,
        homeDir := cleanPath home,
        uid := uid, gid := gid, isAdmin := isAdmin, isRootLinux := isRootLinux } : Context)
      let held := fun (name : String) (a : Accounts.Account) =>
        let uid := (parseUint32 a.uid).getD 0
        context name (if a.homeDir ≠ "" then a.homeDir else "/root") uid ((parseUint32 a.gid).getD 0) (uid = 0)
      match accountOf m shellUser with
      | some a => .ok (held shellUser a)
      | none =>
        match m.table.current with
        | some a => .ok (held a.username a)
        | none => .ok (context shellUser "/root" 0 0 (shellUser = "root"))
where
  wanted (isAdmin : Bool) (dbUser : User) : Except Error String :=
    if trimSpace q.asUser ≠ "" then
      if !isAdmin then .error .forbidden
      else
        match m.table.lookup (trimSpace q.asUser) with
        | some a => .ok a.username
        | none => .error (.notFound (trimSpace q.asUser))
    else .ok dbUser.shellUser

/- The session of a signed-in user whose username names an account. -/
structure SignedIn (m : Machine) (users : Users) (q : Request) (u : User) (own : Accounts.Account) : Prop where
  user : q.userID = .ok u.id
  row : users u.id = .ok (some u)
  named : trimSpace u.username ≠ ""
  account : m.table.lookup (trimSpace u.username) = some own

theorem ownName {m : Machine} {users : Users} {q : Request} {u : User} {own : Accounts.Account}
    (signed : SignedIn m users q u own) : u.shellUser = own.username := by
  rw [User.shellUser,if_pos signed.named,lookupName signed.account]

/- A shell is for the account that as_user names, and else for the own one. -/
theorem resolvedShell {m : Machine} {users : Users} {q : Request} {u : User} {own : Accounts.Account}
    (signed : SignedIn m users q u own) :
    ∃ cliUser, resolveUser m users q = .ok cliUser ∧
      m.table.lookup cliUser.shellUser = some ((asked m q.asUser).getD own) := by
  have first : firstUser users u.id = .ok u := by
    rw [firstUser,signed.row]
    rfl
  have kept (a : Accounts.Account) (found : m.table.lookup a.username = some a) : (shellHome m a.username).1 = a.username := by
    rw [shellHome,found]
  have self {name : String} {a : Accounts.Account} (found : m.table.lookup name = some a) : m.table.lookup a.username = some a := by
    rw [lookupName found,found]
  cases as : asked m q.asUser with
  | none =>
    have same : m.table.lookup own.username = some own := self signed.account
    refine ⟨_,by simp only [resolveUser,signed.user,first,as,bind,Except.bind,ownName signed]; rfl,?_⟩
    simp only [kept own same,same,Option.getD_none]
  | some a =>
    have same : m.table.lookup a.username = some a := by
      rw [asked] at as
      split at as
      · exact self as
      · cases as
    refine ⟨_,by simp only [resolveUser,signed.user,first,as,bind,Except.bind]; rfl,?_⟩
    simp only [kept a same,same,Option.getD_some]

/- The ids a shell gets. -/
def shellIds (m : Machine) (a : Accounts.Account) : Ids := (if m.process.uid = 0 then a.ids else none).getD m.process

theorem openedIds {m : Machine} {users : Users} {q : Request} {u : User} {own : Accounts.Account}
    (signed : SignedIn m users q u own) :
    ∃ cmd, ∀ start, opened m start users q =
      if start cmd then some (shellIds m ((asked m q.asUser).getD own)) else none := by
  obtain ⟨cliUser,resolved,account⟩ := resolvedShell signed
  refine ⟨shellCmd m cliUser,fun start => ?_⟩
  have runs : (shellCmd m cliUser).runsAs m = shellIds m ((asked m q.asUser).getD own) := by
    simp only [Cmd.runsAs,shellCmd,applyUnixCredentials,account,shellIds]
  simp only [opened,resolved,runs]

/- The ids of the own account are 32-bit numbers, the panel can take them or has them already, and
as_user names no account whose ids the shell would get in their place. -/
def Spared (m : Machine) (asUser : String) (own : Accounts.Account) : Prop :=
  ∃ k, own.ids = some k ∧ (m.process.uid = 0 ∨ m.process = k) ∧
    ∀ other, asked m asUser = some other → m.process.uid = 0 → other.ids = some k ∨ (other.ids = none ∧ m.process = k)

theorem sparedIff {m : Machine} {asUser : String} {own : Accounts.Account} :
    own.ids = some (shellIds m ((asked m asUser).getD own)) ↔ Spared m asUser own := by
  unfold Spared shellIds
  by_cases root : m.process.uid = 0
  · simp only [root,if_true,true_or,true_and,forall_const]
    cases as : asked m asUser with
    | none =>
      cases ids : own.ids with
      | none => simp
      | some k => simp [ids]
    | some a =>
      cases ids : own.ids with
      | none => simp
      | some k =>
        cases theirs : a.ids with
        | none => simp [theirs,eq_comm]
        | some j => simp [theirs,eq_comm]
  · simp only [root,if_false,false_or,false_implies,implies_true,and_true,Option.getD_none]
    constructor
    · intro ids
      exact ⟨_,ids,rfl⟩
    · rintro ⟨k,ids,same⟩
      rw [ids,same]

/- as_user is nothing to the file manager of a user without the role of an administrator. -/
theorem resolveOwn {m : Machine} {getRole : List String → Bool × Bool} {users : Users} {q : Request} {u : User}
    {own : Accounts.Account} (signed : SignedIn m users q u own)
    (plain : hasAdminRole getRole (u.roles.filter (fun r => r != "")) = false) {sessionRoles : List String}
    (session : q.authUser = some (u.id,sessionRoles)) {c : Context} (resolved : Resolve m getRole users q = .ok c) :
    trimSpace q.asUser = "" ∧ c.shellUser = own.username ∧
      c.uid = (parseUint32 own.uid).getD 0 ∧ c.gid = (parseUint32 own.gid).getD 0 := by
  have first : firstUser users u.id = .ok u := by
    rw [firstUser,signed.row]
    rfl
  have roles : freshUserRoles users u.id sessionRoles = u.roles.filter (fun r => r != "") := by
    rw [freshUserRoles,signed.row]
  have account : accountOf m own.username = some own := by
    rw [accountOf,lookupName signed.account,trimSpaceTwice,signed.account,ite_self]
  rw [Resolve,session] at resolved
  simp only [roles,plain,first] at resolved
  split at resolved
  · cases resolved
  · by_cases blank : trimSpace q.asUser = ""
    · simp only [bind,Except.bind,Resolve.wanted,blank,ne_eq,not_true,if_false,ownName signed,account,Except.ok.injEq] at resolved
      subst resolved
      exact ⟨blank,rfl,rfl,rfl⟩
    · simp [bind,Except.bind,Resolve.wanted,blank] at resolved

def host : Machine where
  table := {
    rows := [⟨"0","0","root","/root"⟩,⟨"1000","1000","alice","/home/alice"⟩],
    current := some ⟨"0","0","root","/root"⟩ }
  passwd := some "root:x:0:0:root:/root:/bin/bash\nalice:x:1000:1000::/home/alice:/bin/sh\n"
  process := ⟨0,0⟩
  stat := fun _ => true

def alice : User where
  id := "7"
  firstName := "Alice"
  lastName := ""
  email := "alice@localhost"
  organizationEmail := ""
  username := "alice"
  ldapUsername := ""
  password := "!"
  status := .active
  isConfirmed := true
  roles := ["user"]
  deletedAt := none

def aliceOnly : Users := fun id => .ok (if id = "7" then some alice else none)

def asking (asUser : String) : Request := ⟨some "7",none,some ("7",["user"]),asUser⟩

theorem aliceSigned (asUser : String) :
    SignedIn host aliceOnly (asking asUser) alice ⟨"1000","1000","alice","/home/alice"⟩ :=
  ⟨rfl,rfl,by decide,by decide⟩

end ContainerWS.CloudShell.Account
