import ContainerWS.Decimals
import ContainerWS.GoStrings
import ContainerWS.SoftDelete

/-! The settings of the standalone listener: the rows of models/option.go, and how modules/mcp/runtime.go stores them and reads
them back beside MCP_PORT and MCP_ADDRESS. -/
namespace ContainerWS.Mcp.Settings
open GoStrings Decimals SoftDelete

structure OptionRow where
  id : Nat
  name : String
  value : String
  deleted : Bool
  deriving DecidableEq, Repr

def optionSchema : Schema OptionRow String where
  ident r := r.id
  key r := r.name
  deleted r := r.deleted
  number n r := { r with id := n }
  mark r := { r with deleted := true }
  identNumber _ _ := rfl
  keyNumber _ _ := rfl
  identMark _ := rfl
  keyMark _ := rfl
  deletedMark _ := rfl

abbrev OptionTable := Table optionSchema

/- An error is a text, or what the database says. -/
inductive SettingError where
  | text (s : String)
  | database
  deriving DecidableEq, Repr

def GetOption (t : OptionTable) (name : String) : Except SettingError (Option String) :=
  let name := trimSpace name
  if name = "" then .error (.text "option name is required")
  else .ok ((t.first (fun r => r.name == name)).map OptionRow.value)

def writeValue (value : String) : Column optionSchema where
  set r := { r with value := value }
  ident _ := rfl
  key _ := rfl

def SetOption (t : OptionTable) (name value : String) : Except SettingError OptionTable :=
  let name := trimSpace name
  if name = "" then .error (.text "option name is required")
  else
    match t.first (fun r => r.name == name) with
    | none =>
      match t.insert ⟨0,name,value,false⟩ with
      | some u => .ok u
      | none => .error .database
    | some row => .ok (t.set (writeValue value) (fun r => r.id == row.id))

def GetOptionBool (m : CaseMap) (t : OptionTable) (name : String) : Except SettingError (Option Bool) :=
  match GetOption t name with
  | .error e => .error e
  | .ok none => .ok none
  | .ok (some raw) => .ok (some (m.toLower (trimSpace raw) ∈ ["1","true","yes","on"]))

def boolText (b : Bool) : String := if b then "true" else "false"

def SetOptionBool (t : OptionTable) (name : String) (value : Bool) : Except SettingError OptionTable :=
  SetOption t name (boolText value)

def OptionMCPStandaloneEnabled := "MCP_STANDALONE_ENABLED"
def OptionMCPStandaloneAddress := "MCP_STANDALONE_ADDRESS"
def OptionMCPStandalonePort := "MCP_STANDALONE_PORT"

/- What viper finds in the environment. -/
structure Environment where
  MCP_PORT : String
  MCP_ADDRESS : String
  deriving DecidableEq, Repr

structure StandaloneConfig where
  enabled : Bool
  address : String
  port : Int
  source : String
  deriving DecidableEq, Repr

/- What is outside: the table of lower case, `net.LookupPort` for tcp, and what StopStandalone and RestartStandalone return. -/
structure Outside where
  lower : LowerMap
  lookupPort : String → Except String Int
  stops : Option SettingError
  restarts : String → Int → Option SettingError

variable (o : Outside)

def standalonePortConfigured (port : String) : Bool :=
  let port := trimSpace port
  if port = "" ∨ port = "0" then false
  else match o.lookupPort port with
    | .error _ => false
    | .ok n => decide (0 < n)

/- The three rows, read in turn. -/
def readEnabled (t : OptionTable) (c : StandaloneConfig) : StandaloneConfig :=
  match GetOptionBool o.lower.toCaseMap t OptionMCPStandaloneEnabled with
  | .ok (some on) => { c with enabled := on, source := "settings" }
  | _ => c

def readAddress (t : OptionTable) (c : StandaloneConfig) : StandaloneConfig :=
  match GetOption t OptionMCPStandaloneAddress with
  | .ok (some v) => if trimSpace v ≠ "" then { c with address := trimSpace v, source := "settings" } else c
  | _ => c

def readPort (t : OptionTable) (c : StandaloneConfig) : StandaloneConfig :=
  match GetOption t OptionMCPStandalonePort with
  | .ok (some v) =>
    if trimSpace v ≠ "" then
      let n := Atoi (trimSpace v)
      if n.2 = true ∧ 0 < n.1 then { c with port := n.1, source := "settings" } else c
    else c
  | _ => c

/- The environment gives the port where the rows gave none, and enables with it. -/
def portFromEnv (env : Environment) (c : StandaloneConfig) : StandaloneConfig :=
  if c.port ≤ 0 then
    let envPort := trimSpace env.MCP_PORT
    if standalonePortConfigured o envPort then
      let n := Atoi envPort
      if n.2 = true then { c with port := n.1, enabled := true, source := if c.source = "off" then "env" else c.source } else c
    else c
  else c

def addressFromEnv (env : Environment) (c : StandaloneConfig) : StandaloneConfig :=
  if c.address = "" ∨ (c.source = "env" ∧ trimSpace env.MCP_ADDRESS ≠ "") then
    if trimSpace env.MCP_ADDRESS ≠ "" then { c with address := trimSpace env.MCP_ADDRESS } else c
  else c

def LoadStandaloneConfig (env : Environment) (db : Option OptionTable) : StandaloneConfig :=
  let c : StandaloneConfig := ⟨false,"0.0.0.0",0,"off"⟩
  let c := match db with
    | some t => readPort t (readAddress t (readEnabled o t c))
    | none => c
  let c := addressFromEnv env (portFromEnv o env c)
  let c := if c.address = "" then { c with address := "0.0.0.0" } else c
  if c.enabled = false ∧ c.source = "settings" then { c with port := max c.port 0 } else c

def bindAddress (address : String) : String := if trimSpace address = "" then "0.0.0.0" else trimSpace address

/- The rows that are left, and the error; those that were stored before one that fails stay. The status that is returned beside
them is read anew. -/
def ApplyStandaloneConfig (db : Option OptionTable) (enabled : Bool) (address : String) (port : Int64) : Option OptionTable × Option SettingError :=
  match db with
  | none => (none,some (.text "database unavailable"))
  | some t =>
    let address := bindAddress address
    if enabled = true ∧ (port.toInt ≤ 0 ∨ 65535 < port.toInt) then (some t,some (.text "port must be between 1 and 65535"))
    else match (if enabled then o.lookupPort (Itoa port.toInt) else .ok 0) with
      | .error err => (some t,some (.text ("invalid port: " ++ err)))
      | .ok _ =>
        match SetOptionBool t OptionMCPStandaloneEnabled enabled with
        | .error e => (some t,some e)
        | .ok one =>
          match SetOption one OptionMCPStandaloneAddress address with
          | .error e => (some one,some e)
          | .ok two =>
            match SetOption two OptionMCPStandalonePort (Itoa port.toInt) with
            | .error e => (some two,some e)
            | .ok three =>
              if enabled = false then (some three,o.stops)
              else match o.restarts address port.toInt with
                | none => (some three,none)
                | some e => (some ((SetOptionBool three OptionMCPStandaloneEnabled false).toOption.getD three),some e)

/- What is read back is what was stored: whether it is on, the address, and a port that is one. -/
def RoundTrip (env : Environment) (db : Option OptionTable) (enabled : Bool) (address : String) (port : Int64) : Prop :=
  let c := LoadStandaloneConfig o env db
  c.enabled = enabled ∧ c.address = bindAddress address ∧ (0 < port.toInt → c.port = port.toInt)

/- That the environment names a port. -/
def Named (env : Environment) : Prop :=
  standalonePortConfigured o (trimSpace env.MCP_PORT) = true ∧ (Atoi (trimSpace env.MCP_PORT)).2 = true

instance (env : Environment) : Decidable (Named o env) := inferInstanceAs (Decidable (_ ∧ _))

theorem setGet {t u : OptionTable} {name value : String} (done : SetOption t name value = .ok u) : GetOption u name = .ok (some value) := by
  unfold SetOption at done
  dsimp only at done
  split at done
  · cases done
  · rename_i some
    rw [GetOption,if_neg some]
    split at done
    · rename_i missing
      split at done
      · rename_i v inserted
        cases done
        rw [firstInsert inserted,missing]
        simp [optionSchema]
      · cases done
    · rename_i row found
      cases done
      rw [firstSet t (writeValue value) _ (fun _ => rfl) (fun _ => rfl),found]
      obtain ⟨-,live,-⟩ := firstSome found
      simp [Column.over,live,writeValue]

/- The other names keep their rows. -/
theorem setOther {t u : OptionTable} {name value other : String} (done : SetOption t name value = .ok u)
    (different : trimSpace other ≠ trimSpace name) : GetOption u other = GetOption t other := by
  unfold SetOption at done
  dsimp only at done
  split at done
  · cases done
  · rename_i some
    rw [GetOption,GetOption]
    split at done
    · rename_i missing
      split at done
      · rename_i v inserted
        cases done
        rw [firstInsert inserted]
        simp [optionSchema,Ne.symm different]
      · cases done
    · rename_i row found
      cases done
      obtain ⟨mem,live,here⟩ := firstSome found
      rw [firstSet t (writeValue value) _ (fun _ => rfl) (fun _ => rfl)]
      have kept (r : OptionRow) (is : r ∈ t.first (fun r => r.name == trimSpace other)) :
          ((writeValue value).over (fun r => r.id == row.id) r).value = r.value := by
        obtain ⟨inside,-,there⟩ := firstSome is
        rw [Column.over,if_neg]
        rintro ⟨-,same⟩
        have equal := sameIdent t inside mem (beq_iff_eq.mp same)
        rw [equal] at there
        exact different ((beq_iff_eq.mp there).symm.trans (beq_iff_eq.mp here))
      cases seen : t.first (fun r => r.name == trimSpace other) with
      | none => rfl
      | some r => simp only [Option.map_some,kept r seen]

theorem namesDiffer : trimSpace OptionMCPStandaloneEnabled ≠ trimSpace OptionMCPStandaloneAddress ∧
    trimSpace OptionMCPStandaloneEnabled ≠ trimSpace OptionMCPStandalonePort ∧
    trimSpace OptionMCPStandaloneAddress ≠ trimSpace OptionMCPStandalonePort := by decide

/- The rows after a call that returns no error. -/
structure Stored (u : OptionTable) (enabled : Bool) (address : String) (port : Int64) : Prop where
  on : GetOption u OptionMCPStandaloneEnabled = .ok (some (boolText enabled))
  place : GetOption u OptionMCPStandaloneAddress = .ok (some (bindAddress address))
  number : GetOption u OptionMCPStandalonePort = .ok (some (Itoa port.toInt))
  listens : enabled = true → 0 < port.toInt

variable {o} {db : Option OptionTable} {enabled : Bool} {address : String} {port : Int64}

theorem storedThree {t one two three : OptionTable} (first : SetOptionBool t OptionMCPStandaloneEnabled enabled = .ok one)
    (second : SetOption one OptionMCPStandaloneAddress (bindAddress address) = .ok two)
    (third : SetOption two OptionMCPStandalonePort (Itoa port.toInt) = .ok three)
    (listens : enabled = true → 0 < port.toInt) : Stored three enabled address port := by
  obtain ⟨place,number,both⟩ := namesDiffer
  refine ⟨?_,?_,setGet third,listens⟩
  · rw [setOther third number,setOther second place]
    exact setGet first
  · rw [setOther third both]
    exact setGet second

theorem applyStored (done : (ApplyStandaloneConfig o db enabled address port).2 = none) :
    ∃ u, (ApplyStandaloneConfig o db enabled address port).1 = some u ∧ Stored u enabled address port := by
  unfold ApplyStandaloneConfig at done ⊢
  cases db with
  | none => contradiction
  | some t =>
    dsimp only at done ⊢
    by_cases outside : enabled = true ∧ (port.toInt ≤ 0 ∨ 65535 < port.toInt)
    · rw [if_pos outside] at done
      contradiction
    · have listens : enabled = true → 0 < port.toInt := fun on => by
        by_contra low
        exact outside ⟨on,.inl (by omega)⟩
      rw [if_neg outside] at done ⊢
      split at done
      · contradiction
      · cases first : SetOptionBool t OptionMCPStandaloneEnabled enabled with
        | error e => rw [first] at done; contradiction
        | ok one =>
          rw [first] at done
          dsimp only at done ⊢
          cases second : SetOption one OptionMCPStandaloneAddress (bindAddress address) with
          | error e => rw [second] at done; contradiction
          | ok two =>
            rw [second] at done
            dsimp only at done ⊢
            cases third : SetOption two OptionMCPStandalonePort (Itoa port.toInt) with
            | error e => rw [third] at done; contradiction
            | ok three =>
              rw [third] at done
              dsimp only at done ⊢
              refine ⟨three,?_,storedThree first second third listens⟩
              split
              · rfl
              · rename_i on
                rw [if_neg on] at done
                cases run : o.restarts (bindAddress address) port.toInt with
                | none => rfl
                | some e => rw [run] at done; contradiction

theorem boolRead (m : LowerMap) (b : Bool) : decide (m.toLower (trimSpace (boolText b)) ∈ ["1","true","yes","on"]) = b := by
  have lower {s t : String} (small : s.toList.all (fun c => decide (c.toNat < 128)) = true) (same : ascii.toLower s = t) : m.toLower s = t := by
    rw [toLowerAscii m fun c mem => of_decide_eq_true (List.all_eq_true.mp small c mem),same]
  cases b with
  | true =>
    have text : m.toLower (trimSpace (boolText true)) = "true" := lower (by decide) (by decide)
    rw [text]
    decide
  | false =>
    have text : m.toLower (trimSpace (boolText false)) = "false" := lower (by decide) (by decide)
    rw [text]
    decide

theorem bindTrimmed (address : String) : trimSpace (bindAddress address) = bindAddress address ∧ bindAddress address ≠ "" := by
  unfold bindAddress
  split
  · decide
  · rename_i some
    exact ⟨trimSpaceTwice address,some⟩

theorem itoaTrimmed (n : Int) : trimSpace (Itoa n) = Itoa n := by
  refine trimSpaceSelf fun c mem => ?_
  rcases (itoaDigits n).2 c mem with digit | minus
  · have range : 48 ≤ c.toNat ∧ c.toNat ≤ 57 := Char.isDigit_iff_toNat.mp digit
    simp only [isSpace,Bool.or_eq_false_iff,Bool.and_eq_false_iff,decide_eq_false_iff_not,beq_eq_false_iff_ne]
    omega
  · rw [minus]; decide

theorem portFits (port : Int64) : Fits port.toInt := ⟨Int64.le_toInt port,Int64.toInt_lt port⟩

/- The three rows give back what was stored, a port that is none as 0. -/
theorem readStored {u : OptionTable} (held : Stored u enabled address port) :
    readPort u (readAddress u (readEnabled o u ⟨false,"0.0.0.0",0,"off"⟩)) =
      ⟨enabled,bindAddress address,if 0 < port.toInt then port.toInt else 0,"settings"⟩ := by
  obtain ⟨trimmed,some⟩ := bindTrimmed address
  have first : readEnabled o u ⟨false,"0.0.0.0",0,"off"⟩ = ⟨enabled,"0.0.0.0",0,"settings"⟩ := by
    simp only [readEnabled,GetOptionBool,held.on,boolRead]
  have second : readAddress u ⟨enabled,"0.0.0.0",0,"settings"⟩ = ⟨enabled,bindAddress address,0,"settings"⟩ := by
    simp only [readAddress,held.place,trimmed,ne_eq,some,not_false_eq_true,if_true]
  rw [first,second]
  simp only [readPort,held.number,itoaTrimmed,ne_eq,(itoaDigits port.toInt).1,not_false_eq_true,if_true,atoiItoa,
    withinSelf (portFits port),true_and]
  split <;> rfl

theorem addressKept (env : Environment) (enabled : Bool) {address : String} (port : Int) (some : address ≠ "") :
    addressFromEnv env ⟨enabled,address,port,"settings"⟩ = ⟨enabled,address,port,"settings"⟩ := by
  have other : ("settings" : String) ≠ "env" := by decide
  unfold addressFromEnv
  dsimp only
  rw [if_neg fun held => held.elim some fun held => other held.1]

/- The environment is looked at for the port alone, and only where none is stored. -/
theorem loadStored {u : OptionTable} (held : Stored u enabled address port) (env : Environment) :
    LoadStandaloneConfig o env (some u) =
      if port.toInt ≤ 0 ∧ Named o env then ⟨true,bindAddress address,(Atoi (trimSpace env.MCP_PORT)).1,"settings"⟩
      else ⟨enabled,bindAddress address,if 0 < port.toInt then port.toInt else 0,"settings"⟩ := by
  have some := (bindTrimmed address).2
  have port_ : portFromEnv o env ⟨enabled,bindAddress address,if 0 < port.toInt then port.toInt else 0,"settings"⟩ =
      if port.toInt ≤ 0 ∧ Named o env then ⟨true,bindAddress address,(Atoi (trimSpace env.MCP_PORT)).1,"settings"⟩
      else ⟨enabled,bindAddress address,if 0 < port.toInt then port.toInt else 0,"settings"⟩ := by
    unfold portFromEnv
    dsimp only
    by_cases low : port.toInt ≤ 0
    · rw [if_neg (not_lt.mpr low),if_pos (le_refl 0)]
      by_cases configured : standalonePortConfigured o (trimSpace env.MCP_PORT) = true
      · by_cases number : (Atoi (trimSpace env.MCP_PORT)).2 = true
        · rw [if_pos configured,if_pos number,if_neg (show ("settings" : String) ≠ "off" by decide),
            if_pos ⟨low,configured,number⟩]
        · rw [if_pos configured,if_neg number,if_neg fun held => number held.2.2]
      · rw [if_neg configured,if_neg fun held => configured held.2.1]
    · rw [if_pos (not_le.mp low),if_neg low,if_neg fun held => low held.1]
  unfold LoadStandaloneConfig
  dsimp only
  rw [readStored held,port_]
  split
  · rw [addressKept env _ _ some]
    dsimp only
    rw [if_neg some,if_neg (by simp)]
  · rw [addressKept env _ _ some]
    dsimp only
    have high : max (if 0 < port.toInt then port.toInt else 0) 0 = if 0 < port.toInt then port.toInt else 0 := by
      split <;> omega
    rw [if_neg some,high,ite_self]

/- What was stored is read back unless no port was stored, the listener off, and the environment names one. -/
theorem applyRoundTrip (o : Outside) (env : Environment) (db : Option OptionTable) (enabled : Bool) (address : String) (port : Int64)
    (done : (ApplyStandaloneConfig o db enabled address port).2 = none) :
    RoundTrip o env (ApplyStandaloneConfig o db enabled address port).1 enabled address port ↔
      enabled = true ∨ 0 < port.toInt ∨ ¬ Named o env := by
  obtain ⟨u,left,held⟩ := applyStored done
  rw [left]
  unfold RoundTrip
  rw [loadStored held]
  by_cases taken : port.toInt ≤ 0 ∧ Named o env
  · rw [if_pos taken]
    dsimp only
    have none : ¬ 0 < port.toInt := not_lt.mpr taken.1
    simp [none,taken.2,eq_comm]
  · rw [if_neg taken]
    dsimp only
    refine iff_of_true ⟨rfl,rfl,fun some => if_pos some⟩ ?_
    by_cases low : port.toInt ≤ 0
    · exact .inr (.inr fun named => taken ⟨low,named⟩)
    · exact .inr (.inl (not_le.mp low))

/- A host on which every port can be looked up, and on which nothing fails. -/
def quiet : Outside := ⟨asciiLower,fun port => if (Atoi port).2 then .ok (Atoi port).1 else .error "unknown port",none,fun _ _ => none⟩

/- Port 3030 is listened on, at the address that is asked for. -/
theorem roundTripOn : RoundTrip quiet ⟨"9090","10.0.0.1"⟩ (ApplyStandaloneConfig quiet (some (empty optionSchema)) true " 127.0.0.1 " 3030).1
    true " 127.0.0.1 " 3030 :=
  (applyRoundTrip quiet ⟨"9090","10.0.0.1"⟩ (some (empty optionSchema)) true " 127.0.0.1 " 3030 (by decide)).mpr (.inl rfl)

/- With MCP_PORT 9090 it is on again after it was turned off. -/
theorem offIsOn : (ApplyStandaloneConfig quiet (some (empty optionSchema)) false "" 0).2 = none ∧
    ¬ RoundTrip quiet ⟨"9090",""⟩ (ApplyStandaloneConfig quiet (some (empty optionSchema)) false "" 0).1 false "" 0 := by
  have done : (ApplyStandaloneConfig quiet (some (empty optionSchema)) false "" 0).2 = none := by decide
  refine ⟨done,?_⟩
  obtain ⟨u,left,held⟩ := applyStored done
  rw [left]
  rintro ⟨off,-⟩
  rw [loadStored held,if_pos (by decide)] at off
  contradiction

end ContainerWS.Mcp.Settings
