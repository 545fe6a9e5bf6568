import ContainerWS.GoStrings
import ContainerWS.Numbered
import ContainerWS.Runs
import ContainerWS.TextRows

/-! packages/composecli/compose.go and modules/docker/stacks/handlers.go: the requests that write
docker_stacks and run docker compose. What docker answers is given with each request; beside the
table stands what it has accepted, what was brought up, and which projects were not taken down. -/
namespace ContainerWS.Docker.Stacks
open GoStrings Numbered

inductive Status where
  | created
  | running
  | stopped
  | error
  | removing
  deriving DecidableEq, Repr

structure DockerStack where
  id : Nat
  name : String
  environmentID : Nat
  composeYAML : String
  envFile : String
  status : Status
  message : String
  templateID : Option Int
  templateTitle : String
  deletedAt : Bool := false
  deriving DecidableEq, Repr

/- Before each write. -/
def DockerStack.Normalize (b : DockerStack) : DockerStack := {b with name := trimSpace b.name}

def kind : Kind DockerStack := ⟨DockerStack.id,fun n row => {row with id := n},fun _ _ => rfl⟩

abbrev DockerStacks := Rows kind

def projectRune (c : Char) : Option Char :=
  if ('a' ≤ c ∧ c ≤ 'z') ∨ ('0' ≤ c ∧ c ≤ '9') ∨ c = '-' ∨ c = '_' then some c
  else if c = ' ' then some '-'
  else none

def dash (c : Char) : Bool := c = '-' || c = '_'

def composecliSanitize (m : CaseMap) (name : String) : String :=
  TextRows.trimBoth dash (String.ofList ((trimSpace (m.toLower name)).toList.filterMap projectRune))

/- What is left is ASCII, so it has as many bytes as letters. -/
def sanitizeProject (m : CaseMap) (name : String) : String :=
  let out := composecliSanitize m name
  if out.length > 64 then String.ofList (out.toList.take 64) else out

/- What docker compose is given. -/
structure Combination where
  name : String
  composeYAML : String
  envFile : String
  deriving DecidableEq, Repr

def DockerStack.combination (b : DockerStack) : Combination := ⟨b.name,b.composeYAML,b.envFile⟩

/- `docker` is what the command says, once it is reached: nothing or the text of its error. -/
def run (m : CaseMap) (docker : Option String) (c : Combination) : Option String :=
  if sanitizeProject m c.name = "" then some "stack name is required"
  else if trimSpace c.composeYAML = "" then some "compose YAML is required"
  else docker

def Config (m : CaseMap) (docker : Option String) (c : Combination) : Option String :=
  run m docker {c with name := if trimSpace c.name = "" then "validate" else c.name}

structure RunOptions where
  pull : Bool := false
  noRemoveOrphans : Bool := false
  deriving DecidableEq, Repr

def RunOptions.upArgs (o : RunOptions) : List String :=
  ["up","-d"] ++ (if o.pull then ["--pull","always"] else []) ++ (if o.noRemoveOrphans then [] else ["--remove-orphans"])

structure Panel where
  table : DockerStacks
  accepted : List Combination
  ran : List (Combination × List String)
  up : List (Option Nat × String)

/- What docker says to each command of a request, whether an up that failed left something of the
project, and which statements fail. -/
structure Outcomes where
  config : Option String := none
  up : Option String := none
  partly : Bool := false
  down : Option String := none
  load : Bool := false
  lookup : Bool := false
  write : Bool := false
  status : Bool := false
  removing : Bool := false
  delete : Bool := false
  dbError : String := ""
  deriving DecidableEq, Repr

abbrev Reply := Except (Nat × String) String

/- The other columns of a row are written back as they were read. -/
def Panel.saveStatus (s : Panel) (fails : Bool) (b : DockerStack) (status : Status) (message : String) : Panel :=
  if fails then s else {s with table := s.table.save ({b with status := status, message := message}).Normalize}

def Panel.accept (s : Panel) (c : Combination) : Panel := {s with accepted := c :: s.accepted}

/- Up and what a handler makes of it. -/
def bringUp (m : CaseMap) (k : Outcomes) (env : Option Nat) (o : RunOptions) (b : DockerStack) (done : String) (s : Panel) : Reply × Panel :=
  let project := sanitizeProject m b.name
  let s := {s with ran := (b.combination,o.upArgs) :: s.ran}
  match run m k.up b.combination with
  | some text => (.error (400,text),({s with up := if k.partly ∧ run m none b.combination = none then (env,project) :: s.up else s.up}).saveStatus k.status b .error text)
  | none => (.ok done,({s with up := (env,project) :: s.up}).saveStatus k.status b .running "")

structure UpsertBody where
  name : String := ""
  composeYAML : String := ""
  envFile : String := ""
  deploy : Option Bool := none
  pull : Bool := false
  prune : Option Bool := none
  templateID : Option Int := none
  templateTitle : String := ""
  deriving DecidableEq, Repr

def UpsertBody.options (body : UpsertBody) : RunOptions := ⟨body.pull,body.prune == some false⟩

def live (env : Option Nat) (b : DockerStack) : Bool := !b.deletedAt && (match env with | none => true | some e => b.environmentID == e)

/- Whether another row of the environment carries the name. -/
def taken (s : Panel) (env : Nat) (name : String) (p : DockerStack → Bool) : Bool :=
  s.table.rows.any (fun b => live (some env) b && (b.name == name && p b))

def deployed (m : CaseMap) (k : Outcomes) (env : Option Nat) (body : UpsertBody) (b : DockerStack) (done : String) (s : Panel) : Reply × Panel :=
  if body.deploy = some false then (.ok done,s) else bringUp m k env body.options b done s

def newStack (env : Nat) (name yaml : String) (body : UpsertBody) : DockerStack :=
  ({id := 0, name := name, environmentID := env, composeYAML := yaml, envFile := body.envFile, status := .created, message := "",
    templateID := body.templateID, templateTitle := trimSpace body.templateTitle} : DockerStack).Normalize

def createAPI (m : CaseMap) (k : Outcomes) (env : Option Nat) (body : UpsertBody) (s : Panel) : Reply × Panel :=
  match env with
  | none => (.error (400,"no docker environment selected"),s)
  | some e =>
    let name := composecliSanitize m body.name
    let yaml := trimSpace body.composeYAML
    if name = "" then (.error (400,"name is required"),s)
    else if yaml = "" then (.error (400,"compose YAML is required"),s)
    else match Config m k.config ⟨name,yaml,body.envFile⟩ with
    | some text => (.error (400,text),s)
    | none =>
      let s := s.accept ⟨name,yaml,body.envFile⟩
      if k.lookup then (.error (500,k.dbError),s)
      else if taken s e name (fun _ => true) then (.error (409,"a stack named \"" ++ name ++ "\" already exists in this environment"),s)
      else if k.write then (.error (500,k.dbError),s)
      else
        let b := newStack e name yaml body
        deployed m k env body {b with id := s.table.drawn} "Stack created" {s with table := s.table.insert b}

def loadStack (k : Outcomes) (env : Option Nat) (id : Nat) (s : Panel) : Option DockerStack :=
  if k.load then none else s.table.rows.find? (fun b => live env b && b.id == id)

def notFound : Nat × String := (404,"stack not found")

/- The name a body asks for, or the one there is. -/
def renamed (m : CaseMap) (body : UpsertBody) (b : DockerStack) : String :=
  let name := composecliSanitize m body.name
  if name = "" then b.name else name

/- What UpdateAPI has docker check. -/
def checked (m : CaseMap) (body : UpsertBody) (b : DockerStack) : Combination :=
  ⟨renamed m body b,trimSpace body.composeYAML,if body.envFile = "" then b.envFile else body.envFile⟩

/- What it saves: the file of variables is always the one of the body. -/
def DockerStack.updated (m : CaseMap) (body : UpsertBody) (b : DockerStack) : DockerStack :=
  DockerStack.Normalize {b with
    name := renamed m body b
    composeYAML := if trimSpace body.composeYAML = "" then b.composeYAML else trimSpace body.composeYAML
    envFile := body.envFile}

/- A lookup that fails is taken for one that finds nothing. -/
def clash (m : CaseMap) (k : Outcomes) (body : UpsertBody) (b : DockerStack) (s : Panel) : Bool :=
  renamed m body b != b.name && (!k.lookup && taken s b.environmentID (renamed m body b) (fun other => other.id != b.id))

def refused (m : CaseMap) (k : Outcomes) (body : UpsertBody) (b : DockerStack) : Option String :=
  if trimSpace body.composeYAML = "" then none else Config m k.config (checked m body b)

def updateAPI (m : CaseMap) (k : Outcomes) (env : Option Nat) (id : Nat) (body : UpsertBody) (s : Panel) : Reply × Panel :=
  match loadStack k env id s with
  | none => (.error notFound,s)
  | some b =>
    match refused m k body b with
    | some text => (.error (400,text),s)
    | none =>
      let s := if trimSpace body.composeYAML = "" then s else s.accept (checked m body b)
      if clash m k body b s then (.error (409,"a stack named \"" ++ renamed m body b ++ "\" already exists"),s)
      else if k.write then (.error (500,k.dbError),s)
      else deployed m k env body (b.updated m body) "Stack updated" {s with table := s.table.save (b.updated m body)}

def deployAPI (m : CaseMap) (k : Outcomes) (env : Option Nat) (id : Nat) (s : Panel) : Reply × Panel :=
  match loadStack k env id s with
  | none => (.error notFound,s)
  | some b => bringUp m k env {} b "Stack deployed" s

def takenDown (m : CaseMap) (env : Option Nat) (b : DockerStack) (s : Panel) : Panel :=
  {s with up := s.up.filter (fun p => p ≠ (env,sanitizeProject m b.name))}

def stopAPI (m : CaseMap) (k : Outcomes) (env : Option Nat) (id : Nat) (s : Panel) : Reply × Panel :=
  match loadStack k env id s with
  | none => (.error notFound,s)
  | some b =>
    match run m k.down b.combination with
    | some text => (.error (400,text),s.saveStatus k.status b .error text)
    | none => (.ok "Stack stopped",(takenDown m env b s).saveStatus k.status b .stopped "")

def gone (id : Nat) (row : DockerStack) : DockerStack := {row with deletedAt := row.deletedAt || row.id == id}

def deleteRow (k : Outcomes) (b : DockerStack) (s : Panel) : Reply × Panel :=
  if k.delete then (.error (500,k.dbError),s) else (.ok "Stack removed",{s with table := s.table.change (gone b.id) (fun _ => rfl)})

/- A forced removal gives up what docker could not take down. -/
def removeAPI (m : CaseMap) (k : Outcomes) (env : Option Nat) (id : Nat) (force : Bool) (s : Panel) : Reply × Panel :=
  match loadStack k env id s with
  | none => (.error notFound,s)
  | some b =>
    let b := {b with status := .removing}
    let s := s.saveStatus k.removing b .removing b.message
    match run m k.down b.combination with
    | none => deleteRow k b (takenDown m env b s)
    | some text =>
      if force then deleteRow k b (takenDown m env b s)
      else (.error (400,text),s.saveStatus k.status b .error text)

inductive Request where
  | create (k : Outcomes) (body : UpsertBody)
  | update (k : Outcomes) (id : Nat) (body : UpsertBody)
  | deploy (k : Outcomes) (id : Nat)
  | stop (k : Outcomes) (id : Nat)
  | remove (k : Outcomes) (id : Nat) (force : Bool)
  deriving DecidableEq, Repr

def Request.answer (m : CaseMap) (env : Option Nat) (s : Panel) : Request → Reply × Panel
  | .create k body => createAPI m k env body s
  | .update k id body => updateAPI m k env id body s
  | .deploy k id => deployAPI m k env id s
  | .stop k id => stopAPI m k env id s
  | .remove k id force => removeAPI m k env id force s

/- A request and the environment it resolves to. -/
def step (m : CaseMap) (s : Panel) (r : Option Nat × Request) : Option Panel := some (r.2.answer m r.1 s).2

def opening : Panel := ⟨empty kind,[],[],[]⟩

end ContainerWS.Docker.Stacks
