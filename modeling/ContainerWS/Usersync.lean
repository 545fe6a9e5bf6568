import ContainerWS.LinuxUser
import ContainerWS.WeakOrders

/-! packages/usersync/sync.go: the accounts of Linux and the users of the panel, each side filled up from the other. -/
namespace ContainerWS.Usersync
open GoStrings TextRows LinuxUser WeakOrders

/- A line of /etc/passwd. -/
structure Account where
  username : String
  uid : Int
  name : String
  shell : String
  deriving DecidableEq, Repr

inductive UserStatus where
  | active
  | inactive
  | suspended
  | disabled
  | deleted
  | new
  | pending
  deriving DecidableEq, Repr

/- A row of the users, deleted or not. A column that is NULL is read as an empty text. -/
structure User where
  username : String
  ldapUsername : String
  firstName : String
  lastName : String
  email : String
  password : String
  status : UserStatus
  isConfirmed : Bool
  roles : List String
  deleted : Bool
  deriving DecidableEq, Repr

def usernameLess (a b : Account) : Bool := decide (a.username < b.username)

/- What is outside: the table of lower case, the sort of accounts by name, and what useradd takes and gives. -/
structure Tools where
  lower : LowerMap
  sort : Sorting Account usernameLess
  useradd : String → Bool
  uid : List Account → Int

variable (o : Tools)

def syncSkipUsers : List String := ["nobody","nfsnobody","nogroup","sync","shutdown","halt","operator"]

def isSyncableLoginUser (name : String) (uid : Int) (shell : String) : Bool :=
  let name := trimSpace name
  if name = "" ∨ validUsername name = false then false
  else if name ∈ syncSkipUsers then false
  else if trimSpace shell ∈ ["/usr/sbin/nologin","/sbin/nologin","/bin/false","/usr/bin/nologin"] then false
  else if name = "root" then true
  else decide (1000 ≤ uid)

def ListLoginAccounts (passwd : List Account) : List Account :=
  o.sort.sort (passwd.filter fun a => isSyncableLoginUser a.username a.uid a.shell)

def Lookup (passwd : List Account) (username : String) : Bool := passwd.any fun a => a.username == trimSpace username

def Create (passwd : List Account) (username fullName : String) : Except AccountError (List Account) :=
  let username := trimSpace username
  if username = "" then .error .usernameRequired
  else if validUsername username = false then .error (.invalid username)
  else if Lookup passwd username then .error (.exists username)
  else if o.useradd username then .ok (passwd ++ [⟨username,o.uid passwd,trimSpace fullName,"/bin/bash"⟩])
  else .error .useradd

/- The key under which a map has a user, and looks for an account. -/
def key (name : String) : String := o.lower.toLower (trimSpace name)

def live (users : List User) : List User := users.filter fun u => !u.deleted

/- The map has the last user of a key. -/
def byName (name : User → String) (panelUsers : List User) (k : String) : Option User :=
  (panelUsers.filter fun u => trimSpace (name u) ≠ "" ∧ key o (name u) = k).getLast?

def findPanelUser (panelUsers : List User) (linuxName : String) : Option User :=
  match byName o User.username panelUsers (key o linuxName) with
  | some u => some u
  | none => byName o User.ldapUsername panelUsers (key o linuxName)

def linuxNameForPanel (u : User) : String := if trimSpace u.username ≠ "" then trimSpace u.username else trimSpace u.ldapUsername

def shouldProvisionLinux (u : User) : Bool := u.status ∉ [.deleted,.disabled,.suspended,.inactive]

def mail (linuxName : String) : String := linuxName ++ "@localhost"

/- The row that is in the way of a new one. -/
def collides (users : List User) (linuxName : String) : Bool :=
  (live users).any fun u => u.username == linuxName || u.ldapUsername == linuxName || u.email == mail linuxName || u.email == linuxName

/- Roles, first and last name. -/
def person (linuxName gecos : String) : List String × String × String :=
  if linuxName = "root" then (["admin"],"Root","Administrator")
  else
    let parts := words isSpace (trimSpace (before ',' (trimSpace gecos)))
    (["user"],parts.headD "",String.intercalate " " parts.tail)

def newUser (linuxName gecos : String) : User :=
  let p := person linuxName gecos
  ⟨linuxName,"",p.2.1,p.2.2,mail linuxName,"!",.active,true,p.1,false⟩

/- The insert fails where any row has the username, and nothing is inserted where a row is in the way. -/
def createPanelUserFromLinux (users : List User) (acc : Account) : Option (List User) :=
  let linuxName := trimSpace acc.username
  if collides users linuxName then some users
  else if users.any (fun u => u.username == linuxName) then none
  else some (users ++ [newUser linuxName acc.name])

inductive SyncError where
  | linuxToDB (name : String)
  | dbToLinux (name : String) (e : AccountError)
  deriving DecidableEq, Repr

structure Result where
  linuxToDBCreated : Nat
  dbToLinuxCreated : Nat
  skipped : Nat
  errors : List SyncError
  deriving DecidableEq, Repr

/- What is there while Sync runs, with the names that it knows on Linux. -/
structure State where
  users : List User
  passwd : List Account
  linuxNames : List String
  res : Result
  deriving DecidableEq, Repr

/- An account, where the maps have what was there before. -/
def importAccount (panelUsers : List User) (s : State) (acc : Account) : State :=
  let name := trimSpace acc.username
  if name = "" then s
  else
    let s := { s with linuxNames := s.linuxNames ++ [o.lower.toLower name] }
    if (findPanelUser o panelUsers name).isSome then s
    else match createPanelUserFromLinux s.users acc with
      | none => { s with res := { s.res with errors := s.res.errors ++ [.linuxToDB name] } }
      | some users => { s with users := users, res := { s.res with linuxToDBCreated := s.res.linuxToDBCreated+1 } }

/- The key of a panel user's name on Linux. -/
def panelKey (u : User) : String := o.lower.toLower (linuxNameForPanel u)

/- A user that is left out. -/
def Unwanted (u : User) : Prop := linuxNameForPanel u = "" ∨ shouldProvisionLinux u = false

instance (u : User) : Decidable (Unwanted u) := inferInstanceAs (Decidable (_ ∨ _))

def provision (s : State) (u : User) : State :=
  if Unwanted u then { s with res := { s.res with skipped := s.res.skipped+1 } }
  else if panelKey o u ∈ s.linuxNames then s
  else if Lookup s.passwd (linuxNameForPanel u) then { s with linuxNames := s.linuxNames ++ [panelKey o u] }
  else if linuxNameForPanel u = "root" then { s with res := { s.res with skipped := s.res.skipped+1 } }
  else match Create o s.passwd (linuxNameForPanel u) (trimSpace (u.firstName ++ " " ++ u.lastName)) with
    | .error e => { s with res := { s.res with errors := s.res.errors ++ [.dbToLinux (linuxNameForPanel u) e] } }
    | .ok passwd => { s with passwd := passwd, linuxNames := s.linuxNames ++ [panelKey o u],
                              res := { s.res with dbToLinuxCreated := s.res.dbToLinuxCreated+1 } }

def Sync (users : List User) (passwd : List Account) : State :=
  let panelUsers := live users
  let s := (ListLoginAccounts o passwd).foldl (importAccount o panelUsers) ⟨users,passwd,[],⟨0,0,0,[]⟩⟩
  panelUsers.foldl (provision o) s

/- A user has the name of an account, up to case. -/
def Named (linuxName : String) (u : User) : Prop :=
  (trimSpace u.username ≠ "" ∧ key o u.username = key o linuxName) ∨
    (trimSpace u.ldapUsername ≠ "" ∧ key o u.ldapUsername = key o linuxName)

instance (linuxName : String) (u : User) : Decidable (Named o linuxName u) := inferInstanceAs (Decidable (_ ∨ _))

/- How many of the users that are not deleted have the name. -/
def owners (users : List User) (linuxName : String) : Nat := (live users).countP fun u => Named o linuxName u

/- A second run changes no row and reports none created, and after the first each account is one user's. -/
def Settles (users : List User) (passwd : List Account) : Prop :=
  let one := Sync o users passwd
  let two := Sync o one.users one.passwd
  two.users = one.users ∧ two.res.linuxToDBCreated = 0 ∧ two.res.dbToLinuxCreated = 0 ∧
  ∀ acc ∈ ListLoginAccounts o passwd, owners o one.users (trimSpace acc.username) = 1

/- An account is one user's already, or nothing is in the way of a new user: no other row has an e-mail of the name, and no row, deleted
or not, the username. -/
def Clear (users : List User) (linuxName : String) : Prop :=
  owners o users linuxName = 1 ∨
  (owners o users linuxName = 0 ∧ (∀ u ∈ live users, u.email ≠ mail linuxName ∧ u.email ≠ linuxName) ∧ ∀ u ∈ users, u.username ≠ linuxName)

variable {o} {users : List User} {passwd : List Account}

theorem loginValid {acc : Account} (mem : acc ∈ ListLoginAccounts o passwd) :
    acc ∈ passwd ∧ isSyncableLoginUser acc.username acc.uid acc.shell = true := by
  rw [ListLoginAccounts,(o.sort.perm _).mem_iff,List.mem_filter] at mem
  exact mem

/- The characters of a name that Linux takes. -/
def nameChar (c : Char) : Prop := c.isLower = true ∨ c.isDigit = true ∨ c = '_' ∨ c = '-'

theorem validChars {name : String} (valid : validUsername name = true) : ∀ c ∈ name.toList, nameChar c := by
  unfold validUsername at valid
  rw [Bool.and_eq_true] at valid
  have inner := valid.2
  cases shape : name.toList with
  | nil => exact List.forall_mem_nil _
  | cons c cs =>
    rw [shape] at inner
    simp only [Bool.and_eq_true,Bool.or_eq_true,beq_iff_eq,List.all_eq_true] at inner
    refine List.forall_mem_cons.mpr ⟨?_,fun d mem => ?_⟩
    · rcases inner.1 with lower | line
      · exact .inl lower
      · exact .inr (.inr (.inl line))
    · rcases inner.2 d mem with ((lower | digit) | line) | dash
      · exact .inl lower
      · exact .inr (.inl digit)
      · exact .inr (.inr (.inl line))
      · exact .inr (.inr (.inr dash))

/- Such a character is no blank, no capital and not the sign of a mail. -/
theorem nameCharPlain {c : Char} (plain : nameChar c) : isSpace c = false ∧ c.toNat < 128 ∧ c.toLower = c ∧ c ≠ '@' := by
  have code : (97 ≤ c.toNat ∧ c.toNat ≤ 122) ∨ (48 ≤ c.toNat ∧ c.toNat ≤ 57) ∨ c.toNat = 95 ∨ c.toNat = 45 := by
    rcases plain with lower | digit | rfl | rfl
    · have bounds : (decide (c.val ≥ 97) && decide (c.val ≤ 122)) = true := lower
      simp only [Bool.and_eq_true,decide_eq_true_eq,ge_iff_le,UInt32.le_iff_toNat_le] at bounds
      exact .inl bounds
    · exact .inr (.inl (Char.isDigit_iff_toNat.mp digit))
    · exact .inr (.inr (.inl rfl))
    · exact .inr (.inr (.inr rfl))
  refine ⟨?_,by omega,?_,?_⟩
  · simp only [isSpace,Bool.or_eq_false_iff,Bool.and_eq_false_iff,decide_eq_false_iff_not,beq_eq_false_iff_ne]
    omega
  · have same : c.toLower.toNat = c.toNat := by
      rw [lowerNat,if_neg (by omega)]
    exact Char.toNat_inj.mp same
  · rintro rfl
    simp only [show '@'.toNat = 64 from rfl] at code
    omega

/- A name that Linux takes is as it is trimmed and in lower case. -/
theorem validSelf (o : Tools) {name : String} (valid : validUsername name = true) :
    trimSpace name = name ∧ key o name = name ∧ o.lower.toLower name = name := by
  have chars := validChars valid
  have trimmed : trimSpace name = name := trimSpaceSelf fun c mem => (nameCharPlain (chars c mem)).1
  have lower : o.lower.toLower name = name := by
    rw [toLowerAscii o.lower fun c mem => (nameCharPlain (chars c mem)).2.1]
    have same : name.toList.map Char.toLower = name.toList :=
      (List.map_congr_left fun c mem => (nameCharPlain (chars c mem)).2.2.1).trans (List.map_id _)
    exact (congrArg String.ofList same).trans String.ofList_toList
  exact ⟨trimmed,by rw [key,trimmed,lower],lower⟩

theorem validMail {name other : String} (valid : validUsername name = true) : mail other ≠ name := by
  intro same
  have sign : '@' ∈ name.toList := by
    rw [← same,mail,String.toList_append]
    exact List.mem_append_right _ List.mem_cons_self
  exact (nameCharPlain (validChars valid _ sign)).2.2.2 rfl

theorem mailInj {name other : String} (same : mail name = mail other) : name = other := by
  have chars := congrArg String.toList same
  rw [mail,mail,String.toList_append,String.toList_append] at chars
  exact String.toList_injective (List.append_cancel_right chars)

theorem syncableValid {acc : Account} (mem : acc ∈ ListLoginAccounts o passwd) : validUsername (trimSpace acc.username) = true := by
  have good := (loginValid mem).2
  unfold isSyncableLoginUser at good
  dsimp only at good
  split at good
  · cases good
  · rename_i some
    rw [not_or,Bool.not_eq_false] at some
    exact some.2

/- The maps have a user of the key exactly when there is one. -/
theorem foundIff (panelUsers : List User) (linuxName : String) :
    (findPanelUser o panelUsers linuxName).isSome = true ↔ ∃ u ∈ panelUsers, Named o linuxName u := by
  have some (name : User → String) : (byName o name panelUsers (key o linuxName)).isSome = true ↔
      ∃ u ∈ panelUsers, trimSpace (name u) ≠ "" ∧ key o (name u) = key o linuxName := by
    rw [byName,List.getLast?_isSome,ne_eq,List.filter_eq_nil_iff]
    simp
  unfold findPanelUser
  cases first : byName o User.username panelUsers (key o linuxName) with
  | some u =>
    obtain ⟨v,mem,held⟩ := (some User.username).mp (by rw [first]; rfl)
    exact iff_of_true rfl ⟨v,mem,.inl held⟩
  | none =>
    dsimp only
    rw [some User.ldapUsername]
    have none : ¬ ∃ u ∈ panelUsers, trimSpace u.username ≠ "" ∧ key o u.username = key o linuxName := by
      rw [← some User.username,first]
      decide
    constructor
    · rintro ⟨u,mem,held⟩
      exact ⟨u,mem,.inr held⟩
    · rintro ⟨u,mem,held | held⟩
      · exact absurd ⟨u,mem,held⟩ none
      · exact ⟨u,mem,held⟩

/- That a new user of the name can be made. -/
structure Open (o : Tools) (users : List User) (linuxName : String) : Prop where
  unknown : ∀ u ∈ live users, ¬ Named o linuxName u
  apart : collides users linuxName = false
  free : ∀ u ∈ users, u.username ≠ linuxName

/- The new users after some accounts: one for each of them for which it could be made. -/
structure Imported (o : Tools) (users : List User) (passwd : List Account) (done : List Account) (s : State) (news : List User) : Prop where
  rows : s.users = users ++ news
  fresh : ∀ u ∈ news, ∃ acc ∈ done, u = newUser (trimSpace acc.username) acc.name ∧ Open o users (trimSpace acc.username)
  once : (news.map User.username).Nodup
  all : ∀ acc ∈ done, Open o users (trimSpace acc.username) → trimSpace acc.username ∈ news.map User.username
  names : s.linuxNames = done.map fun acc => o.lower.toLower (trimSpace acc.username)
  passwd : s.passwd = passwd
  created : s.res.dbToLinuxCreated = 0

theorem collidesNews {news : List User} {done : List Account} {linuxName : String} (valid : validUsername linuxName = true)
    (fresh : ∀ u ∈ news, ∃ acc ∈ done, u = newUser (trimSpace acc.username) acc.name ∧ Open o users (trimSpace acc.username)) :
    collides (users ++ news) linuxName = true ↔ collides users linuxName = true ∨ linuxName ∈ news.map User.username := by
  have whole : collides (users ++ news) linuxName = (collides users linuxName || collides news linuxName) := by
    rw [collides,live,List.filter_append,List.any_append]
    rfl
  rw [whole,Bool.or_eq_true]
  refine or_congr_right ?_
  have filled := validFilled valid
  unfold collides
  rw [List.any_eq_true,List.mem_map]
  constructor
  · rintro ⟨u,mem,hit⟩
    have inside := (List.mem_filter.mp mem).1
    obtain ⟨acc,-,rfl,-⟩ := fresh u inside
    simp only [newUser,Bool.or_eq_true,beq_iff_eq] at hit
    rcases hit with ((name | none) | same) | other
    · exact ⟨_,inside,name⟩
    · exact absurd none.symm filled
    · exact ⟨_,inside,mailInj same⟩
    · exact absurd other (validMail valid)
  · rintro ⟨u,inside,name⟩
    obtain ⟨acc,-,rfl,-⟩ := fresh u inside
    refine ⟨_,List.mem_filter.mpr ⟨inside,rfl⟩,?_⟩
    have same : (newUser (trimSpace acc.username) acc.name).username = linuxName := name
    simp [same]

/- One account. -/
theorem importStep {done : List Account} {s : State} {news : List User} (held : Imported o users passwd done s news) {acc : Account}
    (valid : validUsername (trimSpace acc.username) = true) :
    ∃ news, Imported o users passwd (done ++ [acc]) (importAccount o (live users) s acc) news := by
  have filled := validFilled valid
  have wider : ∀ u ∈ news, ∃ a ∈ done ++ [acc], u = newUser (trimSpace a.username) a.name ∧ Open o users (trimSpace a.username) := by
    intro u mem
    obtain ⟨a,inside,rest⟩ := held.fresh u mem
    exact ⟨a,List.mem_append_left _ inside,rest⟩
  have names : s.linuxNames ++ [o.lower.toLower (trimSpace acc.username)] =
      (done ++ [acc]).map fun acc => o.lower.toLower (trimSpace acc.username) := by
    rw [List.map_append,held.names]
    rfl
  have some (made : Open o users (trimSpace acc.username) → trimSpace acc.username ∈ news.map User.username) :
      ∀ a ∈ done ++ [acc], Open o users (trimSpace a.username) → trimSpace a.username ∈ news.map User.username := by
    intro a mem
    rcases List.mem_append.mp mem with before | new
    · exact held.all a before
    · rw [List.mem_singleton.mp new]
      exact made
  unfold importAccount
  dsimp only
  rw [if_neg filled]
  split
  · rename_i found
    refine ⟨news,held.rows,wider,held.once,some fun open_ => ?_,names,held.passwd,held.created⟩
    obtain ⟨u,mem,named⟩ := (foundIff _ _).mp found
    exact absurd named (open_.unknown u mem)
  · rename_i unknown
    rw [createPanelUserFromLinux,held.rows]
    by_cases hit : collides (users ++ news) (trimSpace acc.username) = true
    · rw [if_pos hit]
      refine ⟨news,rfl,wider,held.once,some fun open_ => ?_,names,held.passwd,held.created⟩
      rcases (collidesNews valid held.fresh).mp hit with old | new
      · exact absurd old (Bool.eq_false_iff.mp open_.apart)
      · exact new
    · rw [if_neg hit]
      rw [collidesNews valid held.fresh,not_or] at hit
      by_cases taken : (users ++ news).any (fun u => u.username == trimSpace acc.username) = true
      · rw [if_pos taken]
        refine ⟨news,rfl,wider,held.once,some fun open_ => ?_,names,held.passwd,held.created⟩
        obtain ⟨u,mem,same⟩ := List.any_eq_true.mp taken
        rcases List.mem_append.mp mem with old | new
        · exact absurd (beq_iff_eq.mp same) (open_.free u old)
        · exact List.mem_map.mpr ⟨u,new,beq_iff_eq.mp same⟩
      · rw [if_neg taken]
        have free : ∀ u ∈ users ++ news, u.username ≠ trimSpace acc.username := by
          intro u mem same
          exact taken (List.any_eq_true.mpr ⟨u,mem,beq_iff_eq.mpr same⟩)
        have able : Open o users (trimSpace acc.username) := by
          refine ⟨fun u mem named => ?_,Bool.eq_false_iff.mpr hit.1,fun u mem => free u (List.mem_append_left _ mem)⟩
          exact unknown ((foundIff _ _).mpr ⟨u,mem,named⟩)
        refine ⟨news ++ [newUser (trimSpace acc.username) acc.name],List.append_assoc _ _ _,?_,?_,?_,names,held.passwd,held.created⟩
        · intro u mem
          rcases List.mem_append.mp mem with old | new
          · exact wider u old
          · exact ⟨acc,List.mem_append_right _ List.mem_cons_self,List.mem_singleton.mp new,able⟩
        · rw [List.map_append,List.nodup_append]
          refine ⟨held.once,List.nodup_singleton _,?_⟩
          intro n old m new same
          have here : n = trimSpace acc.username := same.trans (List.mem_singleton.mp new)
          exact hit.2 (here ▸ old)
        · intro a mem open_
          rw [List.map_append]
          rcases List.mem_append.mp mem with before | new
          · exact List.mem_append_left _ (held.all a before open_)
          · rw [List.mem_singleton.mp new]
            exact List.mem_append_right _ List.mem_cons_self

/- All accounts, in turn. -/
theorem importAll {done : List Account} {s : State} {news : List User} (held : Imported o users passwd done s news)
    (accounts : List Account) (valid : ∀ acc ∈ accounts, validUsername (trimSpace acc.username) = true) :
    ∃ news, Imported o users passwd (done ++ accounts) (accounts.foldl (importAccount o (live users)) s) news := by
  induction accounts generalizing done s news with
  | nil => exact ⟨news,by rwa [List.append_nil]⟩
  | cons acc rest ih =>
    obtain ⟨first,later⟩ := List.forall_mem_cons.mp valid
    obtain ⟨next,step⟩ := importStep held first
    obtain ⟨final,whole⟩ := ih step later
    exact ⟨final,by rwa [List.append_assoc] at whole⟩

theorem lookupMore {few many : List Account} (more : ∀ a ∈ few, a ∈ many) {n : String} (there : Lookup few n = true) :
    Lookup many n = true := by
  obtain ⟨a,mem,same⟩ := List.any_eq_true.mp there
  exact List.any_eq_true.mpr ⟨a,more a mem,same⟩

/- What useradd takes. -/
structure Takes (o : Tools) (passwd : List Account) (n : String) : Prop where
  some : n ≠ ""
  valid : validUsername n = true
  absent : Lookup passwd n = false
  added : o.useradd n = true

theorem createMade {passwd more : List Account} {n fullName : String} (made : Create o passwd n fullName = .ok more) :
    Takes o passwd (trimSpace n) ∧ more = passwd ++ [⟨trimSpace n,o.uid passwd,trimSpace fullName,"/bin/bash"⟩] := by
  unfold Create at made
  dsimp only at made
  split at made
  · cases made
  · rename_i some
    split at made
    · cases made
    · rename_i valid
      split at made
      · cases made
      · rename_i absent
        split at made
        · rename_i added
          exact ⟨⟨some,Bool.not_eq_false _ ▸ valid,Bool.not_eq_true _ ▸ absent,added⟩,(Except.ok.inj made).symm⟩
        · cases made

theorem createTaken {passwd : List Account} {n fullName : String} (takes : Takes o passwd (trimSpace n)) :
    ∃ more, Create o passwd n fullName = .ok more := by
  unfold Create
  dsimp only
  rw [if_neg takes.some,if_neg (by rw [takes.valid]; decide),if_neg (by rw [takes.absent]; decide),if_pos takes.added]
  exact ⟨_,rfl⟩

/- What the provision of users leaves: the rows, the reports of new users, the accounts and the names that were there; and an account
that is new has the name of one of the users. -/
structure Kept (us : List User) (s t : State) : Prop where
  users : t.users = s.users
  created : t.res.linuxToDBCreated = s.res.linuxToDBCreated
  passwd : ∀ a ∈ s.passwd, a ∈ t.passwd
  names : ∀ n ∈ s.linuxNames, n ∈ t.linuxNames
  own : ∀ a ∈ t.passwd, a ∈ s.passwd ∨ ∃ u ∈ us, a.username = linuxNameForPanel u

theorem panelTrimmed (u : User) : trimSpace (linuxNameForPanel u) = linuxNameForPanel u := by
  unfold linuxNameForPanel
  split
  · exact trimSpaceTwice _
  · exact trimSpaceTwice _

theorem keptSame {u : User} {s t : State} (users : t.users = s.users) (created : t.res.linuxToDBCreated = s.res.linuxToDBCreated)
    (passwd : t.passwd = s.passwd) (names : ∀ n ∈ s.linuxNames, n ∈ t.linuxNames) : Kept [u] s t :=
  ⟨users,created,fun _ mem => passwd ▸ mem,names,fun _ mem => .inl (passwd ▸ mem)⟩

theorem provisionKept (s : State) (u : User) : Kept [u] s (provision o s u) := by
  have more : ∀ n ∈ s.linuxNames, n ∈ s.linuxNames ++ [panelKey o u] := fun _ mem => List.mem_append_left _ mem
  unfold provision
  split
  · exact keptSame rfl rfl rfl fun _ mem => mem
  · split
    · exact keptSame rfl rfl rfl fun _ mem => mem
    · split
      · exact keptSame rfl rfl rfl more
      · split
        · exact keptSame rfl rfl rfl fun _ mem => mem
        · cases made : Create o s.passwd (linuxNameForPanel u) (trimSpace (u.firstName ++ " " ++ u.lastName)) with
          | error e => exact keptSame rfl rfl rfl fun _ mem => mem
          | ok passwd =>
            obtain ⟨-,rfl⟩ := createMade made
            refine ⟨rfl,rfl,fun a mem => List.mem_append_left _ mem,more,fun a mem => ?_⟩
            rcases List.mem_append.mp mem with old | new
            · exact .inl old
            · rw [List.mem_singleton.mp new,panelTrimmed]
              exact .inr ⟨u,List.mem_singleton_self u,rfl⟩

theorem provisionsKept (us : List User) (s : State) : Kept us s (us.foldl (provision o) s) := by
  induction us generalizing s with
  | nil => exact ⟨rfl,rfl,fun _ mem => mem,fun _ mem => mem,fun _ mem => .inl mem⟩
  | cons u us ih =>
    have first := provisionKept (o := o) s u
    have rest := ih (provision o s u)
    rw [List.foldl_cons]
    refine ⟨rest.users.trans first.users,rest.created.trans first.created,fun a mem => rest.passwd a (first.passwd a mem),
      fun n mem => rest.names n (first.names n mem),fun a mem => ?_⟩
    rcases rest.own a mem with old | ⟨v,inside,same⟩
    · rcases first.own a old with older | ⟨v,inside,same⟩
      · exact .inl older
      · exact .inr ⟨u,List.mem_cons_self,List.mem_singleton.mp inside ▸ same⟩
    · exact .inr ⟨v,List.mem_cons_of_mem u inside,same⟩

/- A later run on the host that an earlier one left makes no account: each name is known, or is refused as before. -/
structure Quiet (q r : State) : Prop where
  users : r.users = q.users
  passwd : r.passwd = q.passwd
  toDB : r.res.linuxToDBCreated = q.res.linuxToDBCreated
  created : r.res.dbToLinuxCreated = q.res.dbToLinuxCreated

/- What one round does. -/
inductive Provided (o : Tools) (u : User) (s t : State) : Prop where
  | unwanted (out : Unwanted u) (quiet : Quiet s t) (names : t.linuxNames = s.linuxNames)
  | known (here : panelKey o u ∈ s.linuxNames) (quiet : Quiet s t) (names : t.linuxNames = s.linuxNames)
  | there (wanted : ¬ Unwanted u) (found : Lookup s.passwd (linuxNameForPanel u) = true) (quiet : Quiet s t)
      (names : t.linuxNames = s.linuxNames ++ [panelKey o u])
  | refused (absent : Lookup s.passwd (linuxNameForPanel u) = false)
      (why : linuxNameForPanel u = "root" ∨ ¬ Takes o s.passwd (linuxNameForPanel u)) (quiet : Quiet s t)
      (names : t.linuxNames = s.linuxNames)
  | made (wanted : ¬ Unwanted u) (new : panelKey o u ∉ s.linuxNames) (other : linuxNameForPanel u ≠ "root")
      (takes : Takes o s.passwd (linuxNameForPanel u)) (found : Lookup t.passwd (linuxNameForPanel u) = true)
      (names : t.linuxNames = s.linuxNames ++ [panelKey o u])

theorem provided (s : State) (u : User) : Provided o u s (provision o s u) := by
  unfold provision
  split
  · rename_i out
    exact .unwanted out ⟨rfl,rfl,rfl,rfl⟩ rfl
  · rename_i wanted
    split
    · rename_i here
      exact .known here ⟨rfl,rfl,rfl,rfl⟩ rfl
    · rename_i new
      split
      · rename_i found
        exact .there wanted found ⟨rfl,rfl,rfl,rfl⟩ rfl
      · rename_i absent
        rw [Bool.not_eq_true] at absent
        split
        · rename_i root
          exact .refused absent (.inl root) ⟨rfl,rfl,rfl,rfl⟩ rfl
        · rename_i other
          cases result : Create o s.passwd (linuxNameForPanel u) (trimSpace (u.firstName ++ " " ++ u.lastName)) with
          | error e =>
            refine .refused absent (.inr fun takes => ?_) ⟨rfl,rfl,rfl,rfl⟩ rfl
            rw [← panelTrimmed] at takes
            obtain ⟨more,made⟩ := createTaken takes
            rw [result] at made
            cases made
          | ok passwd =>
            obtain ⟨takes,rfl⟩ := createMade result
            rw [panelTrimmed] at takes
            refine .made wanted new other takes ?_ rfl
            refine List.any_eq_true.mpr ⟨_,List.mem_append_right _ List.mem_cons_self,?_⟩
            exact beq_iff_eq.mpr rfl

theorem quietStep {s q : State} (u : User) (names : ∀ n ∈ s.linuxNames, n ∈ q.linuxNames)
    (passwd : ∀ a ∈ (provision o s u).passwd, a ∈ q.passwd) :
    Quiet q (provision o q u) ∧ ∀ n ∈ (provision o s u).linuxNames, n ∈ (provision o q u).linuxNames := by
  have first := provided (o := o) s u
  have second := provided (o := o) q u
  have earlier := (provisionKept (o := o) s u).passwd
  generalize provision o s u = t at first passwd earlier ⊢
  generalize provision o q u = r at second ⊢
  have there (found : Lookup s.passwd (linuxNameForPanel u) = true ∨ Lookup t.passwd (linuxNameForPanel u) = true) :
      Lookup q.passwd (linuxNameForPanel u) = true := by
    rcases found with old | new
    · exact lookupMore (fun a mem => passwd a (earlier a mem)) old
    · exact lookupMore passwd new
  have quiet : Quiet q r := by
    cases second with
    | unwanted _ quiet _ => exact quiet
    | known _ quiet _ => exact quiet
    | there _ _ quiet _ => exact quiet
    | refused _ _ quiet _ => exact quiet
    | made wanted new other takes _ _ =>
      have absent : Lookup q.passwd (linuxNameForPanel u) ≠ true := by rw [takes.absent]; decide
      exfalso
      cases first with
      | unwanted out _ _ => exact wanted out
      | known here _ _ => exact new (names _ here)
      | there _ found _ _ => exact absent (there (.inl found))
      | refused none why _ _ =>
        rcases why with root | refuses
        · exact other root
        · exact refuses ⟨takes.some,takes.valid,none,takes.added⟩
      | made _ _ _ _ found _ => exact absent (there (.inr found))
  have grows : ∀ n ∈ q.linuxNames, n ∈ r.linuxNames := by
    intro n mem
    cases second with
    | unwanted _ _ same => exact same ▸ mem
    | known _ _ same => exact same ▸ mem
    | there _ _ _ more => exact more ▸ List.mem_append_left _ mem
    | refused _ _ _ same => exact same ▸ mem
    | made _ _ _ _ _ more => exact more ▸ List.mem_append_left _ mem
  have added (wanted : ¬ Unwanted u) (found : Lookup q.passwd (linuxNameForPanel u) = true) : panelKey o u ∈ r.linuxNames := by
    cases second with
    | unwanted out _ _ => exact absurd out wanted
    | known here _ _ => exact grows _ here
    | there _ _ _ more => exact more ▸ List.mem_append_right _ List.mem_cons_self
    | refused absent _ _ _ => rw [absent] at found; cases found
    | made _ _ _ _ _ more => exact more ▸ List.mem_append_right _ List.mem_cons_self
  refine ⟨quiet,?_⟩
  have extended (wanted : ¬ Unwanted u) (found : Lookup q.passwd (linuxNameForPanel u) = true)
      (more : t.linuxNames = s.linuxNames ++ [panelKey o u]) :
      ∀ n ∈ t.linuxNames, n ∈ r.linuxNames := by
    intro n mem
    rw [more] at mem
    rcases List.mem_append.mp mem with old | new
    · exact grows n (names n old)
    · rw [List.mem_singleton.mp new]
      exact added wanted found
  cases first with
  | unwanted _ _ same => exact fun n mem => grows n (names n (same ▸ mem))
  | known _ _ same => exact fun n mem => grows n (names n (same ▸ mem))
  | there wanted found _ more => exact extended wanted (there (.inl found)) more
  | refused _ _ _ same => exact fun n mem => grows n (names n (same ▸ mem))
  | made wanted _ _ _ found more => exact extended wanted (there (.inr found)) more

theorem quietRun (us : List User) {s q : State} (names : ∀ n ∈ s.linuxNames, n ∈ q.linuxNames)
    (passwd : ∀ a ∈ (us.foldl (provision o) s).passwd, a ∈ q.passwd) :
    Quiet q (us.foldl (provision o) q) ∧ ∀ n ∈ (us.foldl (provision o) s).linuxNames, n ∈ (us.foldl (provision o) q).linuxNames := by
  induction us generalizing s q with
  | nil => exact ⟨⟨rfl,rfl,rfl,rfl⟩,names⟩
  | cons u us ih =>
    rw [List.foldl_cons] at passwd ⊢
    rw [List.foldl_cons]
    have whole := (provisionsKept (o := o) us (provision o s u)).passwd
    obtain ⟨first,wider⟩ := quietStep u names fun a mem => passwd a (whole a mem)
    have same := first.passwd
    obtain ⟨rest,last⟩ := ih wider (by rw [same]; exact passwd)
    exact ⟨⟨rest.users.trans first.users,rest.passwd.trans same,rest.toDB.trans first.toDB,rest.created.trans first.created⟩,last⟩

/- Users whose names are known already make nothing. -/
theorem quietKnown (us : List User) {q : State} (known : ∀ u ∈ us, panelKey o u ∈ q.linuxNames) : Quiet q (us.foldl (provision o) q) := by
  induction us generalizing q with
  | nil => exact ⟨rfl,rfl,rfl,rfl⟩
  | cons u us ih =>
    obtain ⟨here,later⟩ := List.forall_mem_cons.mp known
    have wider := (provisionKept (o := o) q u).names
    have first : Quiet q (provision o q u) := by
      cases provided (o := o) q u with
      | unwanted _ quiet _ => exact quiet
      | known _ quiet _ => exact quiet
      | there _ _ quiet _ => exact quiet
      | refused _ _ quiet _ => exact quiet
      | made _ new _ _ _ _ => exact absurd here new
    have rest := ih fun v mem => wider _ (later v mem)
    rw [List.foldl_cons]
    exact ⟨rest.users.trans first.users,rest.passwd.trans first.passwd,rest.toDB.trans first.toDB,rest.created.trans first.created⟩

theorem keyTrimmed (name : String) : key o (trimSpace name) = key o name := by
  rw [key,key,trimSpaceTwice]

/- The owners of a name after the first run: a new one where one could be made. -/
theorem ownersAfter {done : List Account} {s : State} {news : List User} (held : Imported o users passwd done s news)
    (valid : ∀ acc ∈ done, validUsername (trimSpace acc.username) = true) {acc : Account} (mem : acc ∈ done) :
    owners o (users ++ news) (trimSpace acc.username) =
      owners o users (trimSpace acc.username)+if trimSpace acc.username ∈ news.map User.username then 1 else 0 := by
  have all : live news = news := by
    refine List.filter_eq_self.mpr fun u inside => ?_
    obtain ⟨a,-,rfl,-⟩ := held.fresh u inside
    rfl
  have split : live (users ++ news) = live users ++ news := by
    rw [live,List.filter_append]
    exact congrArg (live users ++ ·) all
  have named : ∀ u ∈ news, (decide (Named o (trimSpace acc.username) u) = true ↔ (u.username == trimSpace acc.username) = true) := by
    intro u inside
    obtain ⟨a,before,rfl,-⟩ := held.fresh u inside
    have left := validSelf o (valid a before)
    have right := validSelf o (valid acc mem)
    rw [decide_eq_true_eq,beq_iff_eq]
    simp only [Named,newUser,left.1,left.2.1,right.2.1]
    constructor
    · rintro (⟨-,same⟩ | ⟨empty,-⟩)
      · exact same
      · exact absurd (by decide) empty
    · exact fun same => .inl ⟨validFilled (valid a before),same⟩
  have counted :
      news.countP (fun u => decide (Named o (trimSpace acc.username) u)) = (news.map User.username).count (trimSpace acc.username) := by
    rw [List.count,List.countP_map]
    exact List.countP_congr named
  rw [owners,owners,split,List.countP_append,counted]
  split_ifs with there
  · rw [List.count_eq_one_of_mem held.once there]
  · rw [List.count_eq_zero_of_not_mem there]

/- A row that is in the way of a name that no user has is one with an e-mail of the name. -/
theorem openIff {linuxName : String} (trimmed : trimSpace linuxName = linuxName) (filled : linuxName ≠ "") :
    Open o users linuxName ↔ owners o users linuxName = 0 ∧ (∀ u ∈ live users, u.email ≠ mail linuxName ∧ u.email ≠ linuxName) ∧
      ∀ u ∈ users, u.username ≠ linuxName := by
  have none : owners o users linuxName = 0 ↔ ∀ u ∈ live users, ¬ Named o linuxName u := by
    rw [owners,List.countP_eq_zero]
    simp only [decide_eq_true_eq]
  have apart (unknown : ∀ u ∈ live users, ¬ Named o linuxName u) :
      collides users linuxName = false ↔ ∀ u ∈ live users, u.email ≠ mail linuxName ∧ u.email ≠ linuxName := by
    rw [collides,List.any_eq_false]
    refine forall₂_congr fun u mem => ?_
    have name : u.username ≠ linuxName := fun same => unknown u mem (.inl ⟨by rwa [same,trimmed],by rw [same]⟩)
    have ldap : u.ldapUsername ≠ linuxName := fun same => unknown u mem (.inr ⟨by rwa [same,trimmed],by rw [same]⟩)
    simp [name,ldap]
  rw [none]
  constructor
  · rintro ⟨unknown,clear,free⟩
    exact ⟨unknown,(apart unknown).mp clear,free⟩
  · rintro ⟨unknown,mails,free⟩
    exact ⟨unknown,(apart unknown).mpr mails,free⟩

/- An account that has an owner changes nothing but the names. -/
theorem importFound (panelUsers : List User) (accounts : List Account) (s : State)
    (found : ∀ acc ∈ accounts,
      validUsername (trimSpace acc.username) = true ∧ (findPanelUser o panelUsers (trimSpace acc.username)).isSome = true) :
    accounts.foldl (importAccount o panelUsers) s =
      { s with linuxNames := s.linuxNames ++ accounts.map fun acc => o.lower.toLower (trimSpace acc.username) } := by
  induction accounts generalizing s with
  | nil => rw [List.map_nil,List.append_nil]; rfl
  | cons acc rest ih =>
    obtain ⟨⟨valid,here⟩,later⟩ := List.forall_mem_cons.mp found
    have step : importAccount o panelUsers s acc = { s with linuxNames := s.linuxNames ++ [o.lower.toLower (trimSpace acc.username)] } := by
      unfold importAccount
      dsimp only
      rw [if_neg (validFilled valid),if_pos here]
    rw [List.foldl_cons,step,ih _ later,List.append_assoc]
    rfl

theorem ownersFound {linuxName : String} (one : owners o users linuxName ≠ 0) : (findPanelUser o (live users) linuxName).isSome = true := by
  rw [foundIff]
  obtain ⟨u,mem,named⟩ := List.countP_pos_iff.mp (Nat.pos_of_ne_zero one)
  exact ⟨u,mem,of_decide_eq_true named⟩

theorem panelNamed {u : User} (filled : linuxNameForPanel u ≠ "") : Named o (linuxNameForPanel u) u := by
  by_cases name : trimSpace u.username ≠ ""
  · have same : linuxNameForPanel u = trimSpace u.username := if_pos name
    exact .inl ⟨name,by rw [same,keyTrimmed]⟩
  · have same : linuxNameForPanel u = trimSpace u.ldapUsername := if_neg name
    exact .inr ⟨same ▸ filled,by rw [same,keyTrimmed]⟩

theorem loginMore {few many : List Account} (more : ∀ a ∈ few, a ∈ many) {acc : Account} (mem : acc ∈ ListLoginAccounts o few) :
    acc ∈ ListLoginAccounts o many := by
  obtain ⟨inside,good⟩ := loginValid mem
  rw [ListLoginAccounts,(o.sort.perm _).mem_iff]
  exact List.mem_filter.mpr ⟨more acc inside,good⟩

def host : Tools := ⟨asciiLower,byRank usernameLess,fun _ => true,fun _ => 1001⟩

def bob : Account := ⟨"bob",1000,"Bob Stone","/bin/bash"⟩

def mailed : User := ⟨"","","Bob","Stone","bob@localhost","x",.active,true,["user"],false⟩

theorem bobAlone : ListLoginAccounts host [bob] = [bob] := by
  have login : [bob].filter (fun a => isSyncableLoginUser a.username a.uid a.shell) = [bob] := by decide
  unfold ListLoginAccounts
  rw [login]
  exact List.perm_singleton.mp (host.sort.perm [bob])

end ContainerWS.Usersync
