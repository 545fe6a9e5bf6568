import ContainerWS.TextRows

/-! The ways of packages/linuxuser and modules/vncnovnc/install/adduser to a new password of a Linux
account. What chpasswd is fed is read by it line by line, a user before the first colon and a
password after it. -/
namespace ContainerWS.LinuxUser
open GoStrings TextRows

structure Record where
  user : String
  password : String
  deriving DecidableEq, Repr

def record (line : String) : Option Record :=
  if ':' ∈ line.toList then
    some ⟨before ':' line,String.ofList ((line.toList.dropWhile (fun c => c != ':')).drop 1)⟩
  else none

/- Each line ends with a newline, or where the text ends. -/
def stdinLines (input : String) : List String :=
  let parts := split '\n' input
  if parts.getLast? = some "" then parts.dropLast else parts

def chpasswdRecords (input : String) : List (Option Record) := (stdinLines input).map record

/- A name that a line of /etc/passwd can hold. -/
def Plain (name : String) : Prop := ':' ∉ name.toList ∧ '\n' ∉ name.toList

instance (name : String) : Decidable (Plain name) := inferInstanceAs (Decidable (_ ∧ _))

/- What the tools of the machine answer. An account that is there, or that can be added, has a name
that /etc/passwd can hold. -/
structure Machine where
  lookup : String → Bool
  useradd : String → Bool
  usermod : Bool
  groups : Bool
  chpasswd : String → Bool
  known : ∀ name, lookup name = true → Plain name
  added : ∀ name, useradd name = true → Plain name

inductive AccountError where
  | usernameRequired
  | invalid (username : String)
  | exists (username : String)
  | notFound (username : String)
  | groups
  | useradd
  | usermod
  | chpasswd
  | required
  deriving DecidableEq, Repr

/- What chpasswd is fed, if anything, and how it ends. -/
abbrev Fed := Option String × Except AccountError Unit

def validUsername (name : String) : Bool :=
  name.utf8ByteSize ≤ 32 &&
  match name.toList with
  | [] => false
  | c :: cs => (c.isLower || c == '_') && cs.all (fun c => c.isLower || c.isDigit || c == '_' || c == '-')

section
variable (m : Machine)

def feed (username password : String) : Fed :=
  let stdin := username ++ ":" ++ password ++ "\n"
  (some stdin,if m.chpasswd stdin then .ok () else .error .chpasswd)

def SetPassword (username password : String) : Fed :=
  let username := trimSpace username
  let password := trimSpace password
  if username = "" ∨ password = "" then (none,.error .required) else feed m username password

def Create (username password : String) : Fed :=
  let username := trimSpace username
  if username = "" then (none,.error .usernameRequired)
  else if !validUsername username then (none,.error (.invalid username))
  else if m.lookup username then (none,.error (.exists username))
  else if !m.groups then (none,.error .groups)
  else if !m.useradd username then (none,.error .useradd)
  else
    let pwd := trimSpace password
    if pwd ≠ "" then SetPassword m username pwd else (none,.ok ())

def Update (username : String) (password : Option String) : Fed :=
  let username := trimSpace username
  if !m.lookup username then (none,.error (.notFound username))
  else if !m.groups then (none,.error .groups)
  else if !m.usermod then (none,.error .usermod)
  else
    match password with
    | none => (none,.ok ())
    | some password => if trimSpace password ≠ "" then SetPassword m username password else (none,.ok ())

/- The password is fed as it was given. -/
def ensureLinuxUser (username : String) (create : Bool) (linuxPass : String) : Fed :=
  if m.lookup username then (none,.ok ())
  else if !create then (none,.error (.notFound username))
  else if !m.useradd username then (none,.error .useradd)
  else if trimSpace linuxPass ≠ "" then feed m username linuxPass
  else (none,.ok ())

end

/- Who asks for a password: Create, Update, SetLinuxPasswordAPI and StartUserSession. -/
inductive Request where
  | create (username password : String)
  | update (username password : String)
  | setLinuxPassword (username password : String)
  | startSession (username linuxPass : String)
  deriving DecidableEq, Repr

/- The account that is meant; blanks around its name are no part of it. -/
def Request.user : Request → String
  | .create username _ | .update username _ | .setLinuxPassword username _ | .startSession username _ => trimSpace username

def Request.password : Request → String
  | .create _ password | .update _ password | .setLinuxPassword _ password | .startSession _ password => password

def fed (m : Machine) : Request → Option String
  | .create username password => (Create m username password).1
  | .update username password => (Update m username (some password)).1
  | .setLinuxPassword username password => (SetPassword m username password).1
  | .startSession username linuxPass =>
    if trimSpace username = "" then none else (ensureLinuxUser m (trimSpace username) true linuxPass).1

/- The users that a request is accepted for. -/
def Accepts : Request → Prop
  | .create username _ => validUsername (trimSpace username) = true
  | .update username _ => trimSpace username ≠ "" ∧ Plain (trimSpace username)
  | .setLinuxPassword username _ => trimSpace username ≠ ""
  | .startSession username _ => trimSpace username ≠ "" ∧ Plain (trimSpace username)

/- A password that is one line and, where it is trimmed, is left by that; and a name that ends where
the first colon is. -/
def Clean : Request → Prop
  | .create _ password | .update _ password => '\n' ∉ password.toList ∧ trimSpace password = password
  | .setLinuxPassword username password => Plain (trimSpace username) ∧ '\n' ∉ password.toList ∧ trimSpace password = password
  | .startSession _ password => '\n' ∉ password.toList

theorem linesFed (s : String) : stdinLines (s ++ "\n") = split '\n' s := by
  have empty : split '\n' "" = [""] := by decide
  have parts : split '\n' (s ++ "\n") = split '\n' s ++ [""] := by
    have cut : split '\n' (s ++ "\n" ++ "") = split '\n' s ++ split '\n' "" := splitAppend s ""
    rwa [String.append_empty,empty] at cut
  rw [stdinLines,parts,if_pos (List.getLast?_concat ..),List.dropLast_concat]

/- The user of a line is the name before it, and the password what follows, when the name has no colon. -/
theorem recordIff (name password given : String) :
    record (name ++ ":" ++ password) = some ⟨name,given⟩ ↔ ':' ∉ name.toList ∧ password = given := by
  have chars : (name ++ ":" ++ password).toList = name.toList ++ ':' :: password.toList := by simp
  have colon : ':' ∈ (name ++ ":" ++ password).toList := by simp
  rw [record,if_pos colon,Option.some.injEq,Record.mk.injEq,before,chars]
  by_cases inside : ':' ∈ name.toList
  · refine iff_of_false ?_ (fun both => both.1 inside)
    rintro ⟨user,_⟩
    have whole := congrArg String.toList user
    rw [String.toList_ofList] at whole
    rw [← whole] at inside
    have stop := List.mem_takeWhile_imp inside
    exact absurd stop (by decide)
  · have ahead : ∀ c ∈ name.toList, (c != ':') = true := by
      intro c mem
      simp only [bne_iff_ne]
      rintro rfl
      exact inside mem
    rw [List.takeWhile_append_of_pos ahead,List.dropWhile_append_of_pos ahead]
    simp [inside]

/- What is fed is one record of the user exactly for a plain name and a password in one line. -/
theorem recordsIff (name password given : String) :
    chpasswdRecords (name ++ ":" ++ password ++ "\n") = [some ⟨name,given⟩] ↔
      Plain name ∧ '\n' ∉ password.toList ∧ password = given := by
  have chars : '\n' ∈ (name ++ ":" ++ password).toList ↔ '\n' ∈ name.toList ∨ '\n' ∈ password.toList := by simp
  rw [chpasswdRecords,linesFed]
  constructor
  · intro one
    have count : (split '\n' (name ++ ":" ++ password)).length = 1 := by simpa using congrArg List.length one
    rw [splitLength] at count
    have free : '\n' ∉ (name ++ ":" ++ password).toList := List.count_eq_zero.mp (by omega)
    have single : split '\n' (name ++ ":" ++ password) = [name ++ ":" ++ password] :=
      splitIff.mpr ⟨List.cons_ne_nil _ _,by simpa using free,joinOne _⟩
    rw [single,List.map_singleton,List.singleton_inj,recordIff] at one
    rw [chars,not_or] at free
    exact ⟨⟨one.1,free.1⟩,free.2,one.2⟩
  · rintro ⟨⟨colon,line⟩,lines,same⟩
    have free : '\n' ∉ (name ++ ":" ++ password).toList := by
      rw [chars,not_or]
      exact ⟨line,lines⟩
    have single : split '\n' (name ++ ":" ++ password) = [name ++ ":" ++ password] :=
      splitIff.mpr ⟨List.cons_ne_nil _ _,by simpa using free,joinOne _⟩
    rw [single,List.map_singleton,(recordIff name password given).mpr ⟨colon,same⟩]

/- What chpasswd is fed of a password. -/
def Request.line : Request → String
  | .create _ password | .update _ password | .setLinuxPassword _ password => trimSpace password
  | .startSession _ password => password

theorem setFed {m : Machine} {username password : String} (name : trimSpace username ≠ "") (filled : trimSpace password ≠ "") :
    (SetPassword m username password).1 = some (trimSpace username ++ ":" ++ trimSpace password ++ "\n") := by
  rw [SetPassword,if_neg (not_or.mpr ⟨name,filled⟩)]
  rfl

theorem setNone {m : Machine} {username password : String} (lost : trimSpace username = "" ∨ trimSpace password = "") :
    (SetPassword m username password).1 = none := by
  rw [SetPassword,if_pos lost]

theorem validPlain {name : String} (valid : validUsername name = true) : Plain name := by
  have each : ∀ c ∈ name.toList, c.isLower = true ∨ c.isDigit = true ∨ c = '_' ∨ c = '-' := by
    rw [validUsername] at valid
    cases chars : name.toList with
    | nil => simp
    | cons c cs =>
      rw [chars] at valid
      simp only [Bool.and_eq_true,Bool.or_eq_true,beq_iff_eq,List.all_eq_true] at valid
      intro d mem
      rcases List.mem_cons.mp mem with rfl | mem
      · rcases valid.2.1 with lower | under
        · exact .inl lower
        · exact .inr (.inr (.inl under))
      · rcases valid.2.2 d mem with ((lower | digit) | under) | dash
        · exact .inl lower
        · exact .inr (.inl digit)
        · exact .inr (.inr (.inl under))
        · exact .inr (.inr (.inr dash))
  refine ⟨fun mem => ?_,fun mem => ?_⟩
  · exact absurd (each ':' mem) (by decide)
  · exact absurd (each '\n' mem) (by decide)

theorem validFilled {name : String} (valid : validUsername name = true) : name ≠ "" := by
  rintro rfl
  exact absurd valid (by decide)

theorem createFed (m : Machine) (username password : String) :
    (Create m username password).1 =
      if validUsername (trimSpace username) = true ∧ m.lookup (trimSpace username) = false ∧ m.groups = true ∧
          m.useradd (trimSpace username) = true ∧ trimSpace password ≠ "" then
        some (trimSpace username ++ ":" ++ trimSpace password ++ "\n")
      else none := by
  rw [Create]
  by_cases name : trimSpace username = ""
  · rw [if_pos name,if_neg (fun both => validFilled both.1 name)]
  rw [if_neg name]
  cases validUsername (trimSpace username)
  · simp
  cases m.lookup (trimSpace username)
  · cases m.groups
    · simp
    cases m.useradd (trimSpace username)
    · simp
    by_cases filled : trimSpace password = ""
    · simp [filled]
    · have set : (SetPassword m (trimSpace username) (trimSpace password)).1 =
          some (trimSpace (trimSpace username) ++ ":" ++ trimSpace (trimSpace password) ++ "\n") :=
        setFed (by rwa [trimSpaceTwice]) (by rwa [trimSpaceTwice])
      rw [trimSpaceTwice,trimSpaceTwice] at set
      simp [filled,set]
  · simp

theorem updateFed (m : Machine) (username password : String) :
    (Update m username (some password)).1 =
      if m.lookup (trimSpace username) = true ∧ m.groups = true ∧ m.usermod = true ∧ trimSpace username ≠ "" ∧
          trimSpace password ≠ "" then
        some (trimSpace username ++ ":" ++ trimSpace password ++ "\n")
      else none := by
  rw [Update]
  cases m.lookup (trimSpace username)
  · simp
  cases m.groups
  · simp
  cases m.usermod
  · simp
  by_cases filled : trimSpace password = ""
  · simp [filled]
  by_cases name : trimSpace username = ""
  · have lost : (SetPassword m "" password).1 = none := setNone (.inl (by decide))
    simp [filled,name,lost]
  · have set : (SetPassword m (trimSpace username) password).1 =
        some (trimSpace (trimSpace username) ++ ":" ++ trimSpace password ++ "\n") :=
      setFed (by rwa [trimSpaceTwice]) filled
    rw [trimSpaceTwice] at set
    simp [filled,name,set]

theorem ensureFed (m : Machine) (username linuxPass : String) :
    (ensureLinuxUser m username true linuxPass).1 =
      if m.lookup username = false ∧ m.useradd username = true ∧ trimSpace linuxPass ≠ "" then
        some (username ++ ":" ++ linuxPass ++ "\n")
      else none := by
  rw [ensureLinuxUser]
  cases m.lookup username
  · cases m.useradd username
    · simp
    by_cases filled : trimSpace linuxPass = ""
    · simp [filled]
    · simp [filled,feed]
  · simp

/- What is fed is the line of an accepted request. -/
theorem fedLine {m : Machine} {r : Request} {stdin : String} (line : fed m r = some stdin) :
    Accepts r ∧ trimSpace r.password ≠ "" ∧ stdin = r.user ++ ":" ++ r.line ++ "\n" := by
  cases r with
  | create username password =>
    rw [fed,createFed] at line
    split at line
    · rename_i all
      exact ⟨all.1,all.2.2.2.2,(Option.some.inj line).symm⟩
    · contradiction
  | update username password =>
    rw [fed,updateFed] at line
    split at line
    · rename_i all
      exact ⟨⟨all.2.2.2.1,m.known _ all.1⟩,all.2.2.2.2,(Option.some.inj line).symm⟩
    · contradiction
  | setLinuxPassword username password =>
    by_cases lost : trimSpace username = "" ∨ trimSpace password = ""
    · rw [fed,setNone lost] at line
      contradiction
    · obtain ⟨name,filled⟩ := not_or.mp lost
      rw [fed,setFed name filled] at line
      exact ⟨name,filled,(Option.some.inj line).symm⟩
  | startSession username linuxPass =>
    rw [fed,ensureFed] at line
    split at line
    · contradiction
    · rename_i name
      split at line
      · rename_i all
        exact ⟨⟨name,m.added _ all.2.1⟩,all.2.2,(Option.some.inj line).symm⟩
      · contradiction

/- A machine that has every account that can be, or none. -/
def machine (there : Bool) : Machine where
  lookup name := there && decide (Plain name)
  useradd name := decide (Plain name)
  usermod := true
  groups := true
  chpasswd _ := true
  known name here := by simpa using (Bool.and_eq_true_iff.mp here).2
  added name here := by simpa using here

theorem fedSome {r : Request} (accepts : Accepts r) (filled : trimSpace r.password ≠ "") :
    ∃ m, fed m r = some (r.user ++ ":" ++ r.line ++ "\n") := by
  cases r with
  | create username password =>
    refine ⟨machine false,?_⟩
    rw [fed,createFed,if_pos ⟨accepts,rfl,rfl,by simpa [machine] using validPlain accepts,filled⟩]
    rfl
  | update username password =>
    refine ⟨machine true,?_⟩
    rw [fed,updateFed,if_pos ⟨by simpa [machine] using accepts.2,rfl,rfl,accepts.1,filled⟩]
    rfl
  | setLinuxPassword username password => exact ⟨machine true,setFed accepts filled⟩
  | startSession username linuxPass =>
    refine ⟨machine false,?_⟩
    rw [fed,if_neg accepts.1,ensureFed,if_pos ⟨rfl,by simpa [machine] using accepts.2,filled⟩]
    rfl

/- chpasswd is fed one record, of the account that is meant and with the password that was given,
exactly when a request that it is asked for by has a clean password. -/
theorem passwordsFed (r : Request) :
    (∀ m stdin, fed m r = some stdin → chpasswdRecords stdin = [some ⟨r.user,r.password⟩]) ↔
      (Accepts r → trimSpace r.password ≠ "" → Clean r) := by
  have trimmed (password : String) : '\n' ∉ password.toList ∧ trimSpace password = password ↔
      '\n' ∉ (trimSpace password).toList ∧ trimSpace password = password := by
    refine and_congr_left ?_
    intro same
    rw [same]
  have clean : Accepts r → (Clean r ↔ Plain r.user ∧ '\n' ∉ r.line.toList ∧ r.line = r.password) := by
    intro accepts
    cases r with
    | create username password => exact (trimmed password).trans (iff_and_self.mpr (fun _ => validPlain accepts))
    | update username password => exact (trimmed password).trans (iff_and_self.mpr (fun _ => accepts.2))
    | setLinuxPassword username password => exact and_congr_right (fun _ => trimmed password)
    | startSession username linuxPass => exact ⟨fun line => ⟨accepts.2,line,rfl⟩,fun all => all.2.1⟩
  constructor
  · intro one accepts filled
    obtain ⟨m,line⟩ := fedSome accepts filled
    exact (clean accepts).mpr ((recordsIff _ _ _).mp (one m _ line))
  · intro safe m stdin line
    obtain ⟨accepts,filled,rfl⟩ := fedLine line
    exact (recordsIff _ _ _).mpr ((clean accepts).mp (safe accepts filled))

/- A second line sets the password of another account. -/
theorem secondRecord :
    fed (machine true) (.setLinuxPassword "bob" "x\nroot:pw") = some "bob:x\nroot:pw\n" ∧
    fed (machine false) (.startSession "bob" "x\nroot:pw") = some "bob:x\nroot:pw\n" ∧
    chpasswdRecords "bob:x\nroot:pw\n" = [some ⟨"bob","x"⟩,some ⟨"root","pw"⟩] := by
  refine ⟨?_,?_,?_⟩ <;> decide +kernel

end ContainerWS.LinuxUser
