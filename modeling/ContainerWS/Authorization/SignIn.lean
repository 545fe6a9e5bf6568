import Mathlib.Data.List.MinMax
import Mathlib.Data.List.Nodup
import Mathlib.Data.String.Basic
import ContainerWS.Accounts

/-! The sign-in paths of modules/authorization: the password of a Linux account (packages/linuxauth),
the password of the row, and the host's own user. Hashing and the issue of a session are of other
packages: what they answer is an argument. -/
namespace ContainerWS.Authorization
open GoStrings Accounts

/- The table users. -/
structure Users where
  rows : List User
  distinct : (rows.map User.id).Nodup

namespace Users

/- `First` takes the live row of the least id. -/
def first (t : Users) (p : User → Bool) : Option User :=
  (t.rows.filter (fun u => u.deletedAt.isNone && p u)).argmin User.id

/- The username is unique among all rows, those that are deleted included. -/
def free (t : Users) (u : User) : Bool :=
  t.rows.all (fun v => v.id != u.id && v.username != u.username)

def create (t : Users) (u : User) (free : t.free u = true) : Users where
  rows := t.rows ++ [u]
  distinct := by
    rw [List.map_append,List.nodup_append]
    refine ⟨t.distinct,List.nodup_singleton _,fun id mem other last => ?_⟩
    obtain ⟨v,stored,rfl⟩ := List.mem_map.mp mem
    rw [List.map_singleton,List.mem_singleton] at last
    have apart := List.all_eq_true.mp free v stored
    simp only [Bool.and_eq_true,bne_iff_ne] at apart
    rw [last]
    exact apart.1

/- `Updates` of the row with an id. -/
def update (t : Users) (id : String) (f : User → User) (keeps : ∀ u, (f u).id = u.id) : Users where
  rows := t.rows.map (fun u => if u.id = id then f u else u)
  distinct := by
    have same : (t.rows.map (fun u => if u.id = id then f u else u)).map User.id = t.rows.map User.id := by
      rw [List.map_map]
      refine List.map_congr_left fun u _ => ?_
      simp only [Function.comp]
      split
      · exact keeps u
      · rfl
    rw [same]
    exact t.distinct

end Users

/- /etc/shadow as it is opened and scanned. -/
inductive Shadow where
  | unavailable
  | unreadable
  | opened (scanned : List String) (cutOff : Bool)
  deriving DecidableEq, Repr

inductive ShadowError where
  | unavailable
  | notInShadow
  | accountLocked
  | failed
  deriving DecidableEq, Repr

/- The host and the packages that the handlers call. A statement of the database can fail, and so can
the issue of a session. -/
structure Backend where
  accounts : Table
  shadow : Shadow
  crypt : String → String → Bool
  checkPassword : String → String → Bool
  newID : String
  autoLogin : Bool
  fromLocal : Bool
  sudoUser : String

structure Failures where
  find : Bool
  create : Bool
  update : Bool
  authorize : Bool
  deriving DecidableEq, Repr

section linuxauth
variable (b : Backend)

def userExists (username : String) : Bool :=
  let username := trimSpace username
  if username = "" ∨ ':' ∈ username.toList then false else (b.accounts.lookup username).isSome

/- The first line of the user decides. -/
def readShadowHash (username : String) : Except ShadowError String :=
  match b.shadow with
  | .unavailable => .error .unavailable
  | .unreadable => .error .failed
  | .opened scanned cutOff =>
    let own := scanned.filter (fun line => line != "" && !hasPrefix line "#") |>.map (split ':')
      |>.find? (fun parts => 2 ≤ parts.length && parts.head? == some username)
    match own with
    | some parts =>
      let hash := parts.getD 1 ""
      if hash = "" ∨ hasPrefix hash "!" ∨ hasPrefix hash "*" then .error .accountLocked else .ok hash
    | none => .error (if cutOff then .failed else .notInShadow)

def verifyHash (stored password : String) : Bool :=
  let stored := trimSpace stored
  if stored = "" ∨ password = "" then false
  else ["$y$","$6$","$5$","$1$"].any (hasPrefix stored) && b.crypt stored password

def authenticate (username password : String) : Except ShadowError Bool :=
  let username := trimSpace username
  if username = "" ∨ password = "" then .ok false
  else if !userExists b username then .ok false
  else
    match readShadowHash b username with
    | .error .failed => .error .failed
    | .error _ => .ok false
    | .ok hash => .ok (verifyHash b hash password)

def linuxLoginName (id : String) : String :=
  let id := trimSpace id
  if '@' ∈ id.toList ∧ before '@' id ≠ "" then before '@' id else id

end linuxauth

inductive Reply where
  | invalid (fields : List (String × String))
  | failed (status : Nat) (message : String)
  | session (user : User) (method : String)
  deriving DecidableEq, Repr

section
variable (b : Backend) (f : Failures)

def completeSignIn (user : User) (method : String) : Reply :=
  if f.authorize then .failed 500 "authorize" else .session user method

def linuxRow (linuxName : String) (u : User) : Bool :=
  u.username == linuxName || u.email == linuxName ++ "@localhost" || u.email == linuxName

def named (u : User) : User := {u with firstName := "Root", lastName := "Administrator"}

def newUser (linuxName : String) : User where
  id := b.newID
  firstName := if linuxName = "root" then "Root" else ""
  lastName := if linuxName = "root" then "Administrator" else ""
  email := linuxName ++ "@localhost"
  organizationEmail := ""
  username := linuxName
  ldapUsername := ""
  password := "!"
  status := .active
  isConfirmed := true
  roles := if linuxName = "root" then ["admin"] else ["user"]
  deletedAt := none

/- The row of a verified Linux account, and the table after it. -/
def findOrCreateLinuxUser (t : Users) (linuxName : String) : Users × Option User :=
  if f.find then (t,none)
  else
    match t.first (linuxRow linuxName) with
    | some user =>
      if linuxName = "root" ∧ (user.firstName = "" ∨ user.lastName = "") then
        if f.update then (t,none) else (t.update user.id named (fun _ => rfl),some (named user))
      else (t,some user)
    | none =>
      if free : f.create = false ∧ t.free (newUser b linuxName) = true then
        (t.create (newUser b linuxName) free.2,some (newUser b linuxName))
      else (t,none)

def signInLinux (t : Users) (linuxName method : String) : Users × Reply :=
  match findOrCreateLinuxUser b f t linuxName with
  | (t,some user) => (t,completeSignIn f user method)
  | (t,none) => (t,.failed 500 "database")

/- Whether the login and the password are those of an account of the host. -/
def linuxOK (login password : String) : Except ShadowError Bool :=
  if linuxLoginName login ≠ "" ∧ userExists b (linuxLoginName login) = true then
    authenticate b (linuxLoginName login) password
  else .ok false

def credentialsRow (login : String) (u : User) : Bool :=
  u.email == login || u.organizationEmail == login || u.username == login

def signInAPI (t : Users) (email password : String) : Users × Reply :=
  let login := trimSpace email
  if login = "" ∨ password = "" then
    (t,.invalid [("email","Email or username is required"),("password","Password is required")])
  else
    match linuxOK b login password with
    | .error _ => (t,.failed 500 "shadow")
    | .ok true => signInLinux b f t (linuxLoginName login) "linux"
    | .ok false =>
      if f.find then (t,.failed 500 "database")
      else
        match t.first (credentialsRow login) with
        | none => (t,.invalid [("email","Email not found")])
        | some user =>
          if !b.checkPassword user.password password then (t,.invalid [("password","Invalid password")])
          else (t,completeSignIn f user "credentials")

/- What stands behind the last slash or backslash, if anything does. -/
def stripDomain (name : String) : String :=
  let tail := name.toList.rtakeWhile (fun c => c != '/' && c != '\\')
  if tail = [] then name else String.ofList tail

def resolveHostLinuxUser : Option String :=
  let sudoUser := trimSpace b.sudoUser
  if sudoUser ≠ "" ∧ sudoUser ≠ "root" ∧ userExists b sudoUser = true then some sudoUser
  else b.accounts.current.map (fun a => stripDomain (trimSpace a.username))

def localSignInAPI (t : Users) : Users × Reply :=
  if !b.autoLogin then (t,.failed 403 "localhost auto-login is disabled")
  else if !b.fromLocal then (t,.failed 403 "localhost auto-login requires a loopback connection")
  else
    match resolveHostLinuxUser b with
    | none => (t,.failed 500 "could not resolve host Linux user")
    | some linuxName =>
      if linuxName = "" then (t,.failed 500 "could not resolve host Linux user")
      else if !userExists b linuxName then (t,.failed 400 ("Linux user " ++ linuxName ++ " not found on this host"))
      else signInLinux b f t linuxName "localhost"

end

inductive Request where
  | signIn (email password : String)
  | localSignIn
  deriving DecidableEq, Repr

def answer (b : Backend) (f : Failures) (t : Users) : Request → Users × Reply
  | .signIn email password => signInAPI b f t email password
  | .localSignIn => localSignInAPI b f t

/- Whoever has the id is active. -/
def Users.Active (t : Users) (id : String) : Prop := ∀ row ∈ t.rows, row.id = id → row.status = .active

theorem firstStored {t : Users} {p : User → Bool} {u : User} (found : t.first p = some u) : u ∈ t.rows :=
  List.mem_of_mem_filter (List.argmin_mem found)

theorem activeStored {t : Users} {u : User} (stored : u ∈ t.rows) : t.Active u.id ↔ u.status = .active := by
  constructor
  · intro active
    exact active u stored rfl
  · intro status row mem same
    rw [List.inj_on_of_nodup_map t.distinct mem stored same]
    exact status

theorem activeNamed {t : Users} {id : String} : (t.update id named (fun _ => rfl)).Active id ↔ t.Active id := by
  have each (u : User) : (if u.id = id then named u else u).id = u.id ∧ (if u.id = id then named u else u).status = u.status := by
    split
    · exact ⟨rfl,rfl⟩
    · exact ⟨rfl,rfl⟩
  simp only [Users.Active,Users.update,List.forall_mem_map,(each _).1,(each _).2]

theorem activeCreated {t : Users} {u : User} (free : t.free u = true) : (t.create u free).Active u.id ↔ u.status = .active :=
  activeStored (t := t.create u free) (List.mem_append_right _ (List.mem_singleton_self u))

/- What a reply promises of the table it leaves. -/
def Sound : Users × Reply → Prop
  | (t,.session user _) => t.Active user.id
  | _ => True

theorem completeSound {f : Failures} {t : Users} {u : User} {method : String} (active : t.Active u.id) :
    Sound (t,completeSignIn f u method) := by
  unfold completeSignIn
  split
  · exact trivial
  · exact active

def noFailures : Failures := ⟨false,false,false,false⟩

/- What findOrCreateLinuxUser gives is a row of the table it leaves. -/
def Given : Users × Option User → Prop
  | (t,some user) => t.Active user.id
  | _ => True

theorem linuxFound {b : Backend} {t : Users} {linuxName : String} {u : User} (found : t.first (linuxRow linuxName) = some u)
    (given : Given (findOrCreateLinuxUser b noFailures t linuxName)) : u.status = .active := by
  rw [← activeStored (firstStored found)]
  simp only [findOrCreateLinuxUser,noFailures,found,if_neg Bool.false_ne_true] at given
  split at given
  · exact activeNamed.mp given
  · exact given

theorem linuxGiven {b : Backend} {f : Failures} {t : Users} {linuxName : String}
    (active : ∀ u, t.first (linuxRow linuxName) = some u → u.status = .active) :
    Given (findOrCreateLinuxUser b f t linuxName) := by
  unfold findOrCreateLinuxUser
  split
  · exact trivial
  · split
    · rename_i u found
      have stays : t.Active u.id := (activeStored (firstStored found)).mpr (active u found)
      split
      · split
        · exact trivial
        · exact activeNamed.mpr stays
      · exact stays
    · split
      · rename_i free
        exact (activeCreated free.2).mpr rfl
      · exact trivial

theorem linuxReply {b : Backend} {f : Failures} {t : Users} {linuxName method : String}
    (given : Given (findOrCreateLinuxUser b f t linuxName)) : Sound (signInLinux b f t linuxName method) := by
  unfold signInLinux
  split
  · rename_i result
    rw [result] at given
    exact completeSound given
  · exact trivial

/- The row of a Linux account is taken as it is. -/
theorem linuxSound {b : Backend} {t : Users} {linuxName method : String} :
    (∀ f, Sound (signInLinux b f t linuxName method)) ↔
      ∀ u, t.first (linuxRow linuxName) = some u → u.status = .active := by
  refine ⟨fun sound u found => ?_,fun active f => linuxReply (linuxGiven active)⟩
  refine linuxFound (b := b) found ?_
  have calm := sound noFailures
  unfold signInLinux at calm
  split at calm
  · rename_i result
    rw [result]
    exact calm
  · rename_i result
    rw [result]
    exact trivial

/- The first row that the accepted credentials lead to is active. -/
def Spared (b : Backend) (t : Users) : Request → Prop
  | .signIn email password => trimSpace email ≠ "" → password ≠ "" →
    (linuxOK b (trimSpace email) password = .ok true →
      ∀ u, t.first (linuxRow (linuxLoginName (trimSpace email))) = some u → u.status = .active) ∧
    (linuxOK b (trimSpace email) password = .ok false →
      ∀ u, t.first (credentialsRow (trimSpace email)) = some u → b.checkPassword u.password password = true → u.status = .active)
  | .localSignIn => b.autoLogin = true → b.fromLocal = true →
    ∀ linuxName, resolveHostLinuxUser b = some linuxName → linuxName ≠ "" → userExists b linuxName = true →
      ∀ u, t.first (linuxRow linuxName) = some u → u.status = .active

theorem credentialsSound {b : Backend} {t : Users} {email password : String} (given : ¬(trimSpace email = "" ∨ password = ""))
    (refused : linuxOK b (trimSpace email) password = .ok false) :
    (∀ f, Sound (signInAPI b f t email password)) ↔
      ∀ u, t.first (credentialsRow (trimSpace email)) = some u → b.checkPassword u.password password = true → u.status = .active := by
  simp only [signInAPI,if_neg given,refused]
  constructor
  · intro sound u found accepted
    have calm := sound noFailures
    simp only [noFailures,found,accepted,Bool.not_true,if_neg Bool.false_ne_true] at calm
    exact (activeStored (firstStored found)).mp calm
  · intro active f
    by_cases find : f.find = true
    · simp only [find,if_true]
      exact trivial
    · rw [if_neg find]
      cases found : t.first (credentialsRow (trimSpace email)) with
      | none => exact trivial
      | some u =>
        dsimp only
        by_cases accepted : b.checkPassword u.password password = true
        · rw [accepted,Bool.not_true,if_neg Bool.false_ne_true]
          exact completeSound ((activeStored (firstStored found)).mpr (active u found accepted))
        · rw [Bool.eq_false_iff.mpr accepted,Bool.not_false,if_pos rfl]
          exact trivial

theorem signInSound {b : Backend} {t : Users} {email password : String} :
    (∀ f, Sound (signInAPI b f t email password)) ↔ Spared b t (.signIn email password) := by
  by_cases given : trimSpace email = "" ∨ password = ""
  · have silent (f : Failures) : Sound (signInAPI b f t email password) := by
      rw [signInAPI,if_pos given]
      exact trivial
    exact iff_of_true silent fun email password => absurd given (not_or.mpr ⟨email,password⟩)
  · have both := not_or.mp given
    have parts : Spared b t (.signIn email password) ↔ _ := ⟨fun spared => spared both.1 both.2,fun spared _ _ => spared⟩
    rw [parts]
    cases ok : linuxOK b (trimSpace email) password with
    | error e =>
      refine iff_of_true (fun f => ?_) ⟨by simp,by simp⟩
      simp only [signInAPI,if_neg given,ok]
      exact trivial
    | ok verified =>
      cases verified with
      | true =>
        simp only [signInAPI,if_neg given,ok]
        rw [linuxSound]
        simp
      | false =>
        rw [credentialsSound given ok]
        simp

theorem localSound {b : Backend} {t : Users} : (∀ f, Sound (localSignInAPI b f t)) ↔ Spared b t .localSignIn := by
  unfold localSignInAPI Spared
  by_cases allowed : b.autoLogin = true ∧ b.fromLocal = true
  · rw [allowed.1,allowed.2]
    cases resolveHostLinuxUser b with
    | none => simp [Sound]
    | some linuxName =>
      by_cases blank : linuxName = ""
      · simp [blank,Sound]
      · cases known : userExists b linuxName with
        | false => simp [blank,known,Sound]
        | true => simp [blank,known,linuxSound]
  · refine iff_of_true (fun f => ?_) fun auto local' => absurd ⟨auto,local'⟩ allowed
    split
    · exact trivial
    · split
      · exact trivial
      · rename_i auto loopback
        simp only [Bool.not_eq_true',Bool.not_eq_false] at auto loopback
        exact absurd ⟨auto,loopback⟩ allowed

/- No path asks for the status. -/
theorem sessionsActive (b : Backend) (t : Users) (r : Request) : (∀ f, Sound (answer b f t r)) ↔ Spared b t r := by
  cases r with
  | signIn email password =>
    simp only [answer]
    exact signInSound
  | localSignIn =>
    simp only [answer]
    exact localSound

def bob : User where
  id := "b"
  firstName := "Bob"
  lastName := ""
  email := "bob@work"
  organizationEmail := ""
  username := "bob"
  ldapUsername := ""
  password := "hash"
  status := .suspended
  isConfirmed := true
  roles := ["user"]
  deletedAt := none

def panel : Backend where
  accounts := ⟨[],none⟩
  shadow := .unavailable
  crypt := fun _ _ => false
  checkPassword := fun hash password => hash == "hash" && password == "secret"
  newID := "n"
  autoLogin := false
  fromLocal := false
  sudoUser := ""

/- A suspended user signs in with the password of the row. -/
theorem suspendedSignsIn : bob.status = .suspended ∧
    (answer panel noFailures ⟨[bob],List.nodup_singleton _⟩ (.signIn "bob" "secret")).2 = .session bob "credentials" :=
  ⟨rfl,by decide⟩

end ContainerWS.Authorization
