import ContainerWS.Brew.Switch
import ContainerWS.Softwares.Tables
import ContainerWS.TextRows
import ContainerWS.Runs

/-! SyncHostInstalls of modules/brew/sync.go, one query or write a move: what brew lists as installed goes
into software_installed, then what is there by brew and was not listed is marked uninstalled. -/
namespace ContainerWS.BrewSync
open Install Softwares GoStrings TextRows

/- `installed_versions` of a cask, as encoding/json decodes it. -/
inductive Versions where
  | string (s : String)
  | list (l : List (Option String))
  | other
  deriving DecidableEq, Repr

structure Formula where
  name : String
  installedVersions : List String
  deriving DecidableEq, Repr

structure Cask where
  token : String
  installedVersions : Versions
  deriving DecidableEq, Repr

/- What is installed by brew. No name has a blank. -/
structure Cellar where
  formulae : List Formula
  casks : List Cask
  solid : ∀ n ∈ formulae.map Formula.name ++ casks.map Cask.token, n ≠ "" ∧ ∀ c ∈ n.toList, isSpace c = false

/- How `brew info --json=v2 --installed` ends. -/
inductive Info where
  | told
  | garbled
  | failed
  deriving DecidableEq, Repr

structure Item where
  name : String
  version : String
  deriving DecidableEq, Repr

def caskInstalledVersion : Versions → String
  | .string s => trimSpace s
  | .list (some s :: _) => trimSpace s
  | _ => ""

/- The output of `brew list --formula`, a name a line. -/
def printed (names : List String) : String := join '\n' names ++ "\n"

/- The second command is tried when the first one fails. -/
def listInstalledFormulae (cellar : Cellar) (info : Info) (listFails : Bool) : Option (List Item) :=
  match info with
  | .failed =>
    if listFails then none
    else some ((words isSpace (trimSpace (printed (cellar.formulae.map Formula.name)))).map (fun n => ⟨n,""⟩))
  | .garbled => none
  | .told =>
    some (cellar.formulae.map (fun f => ⟨f.name,f.installedVersions.headD ""⟩) ++
      cellar.casks.map (fun c => ⟨c.token,caskInstalledVersion c.installedVersions⟩))

variable (m : CaseMap) (fold : Char → Char)

/- How names are compared. -/
def lowered (s : String) : String := m.toLower (trimSpace s)

def brewTokenForSoftware (sw : Software) : String :=
  if lowered m sw.registrySlug = "" then lowered m sw.name else lowered m sw.registrySlug

def indexRow (index : List (String × Software)) (sw : Software) : List (String × Software) :=
  let token := brewTokenForSoftware m sw
  if token = "" ∨ ' ' ∈ token.toList then index
  else if (index.lookup token).isSome then index
  else index ++ [(token,sw)]

def buildBrewTokenIndex (softwares : List Software) : List (String × Software) :=
  (softwares.filter (fun sw => !sw.deleted && sw.isActive)).foldl (indexRow m) []

/- `strings.EqualFold`; the table leads each character to one of its fold. -/
def equalFold (s t : String) : Bool := s.toList.map fold == t.toList.map fold

def fits (brewVersion : String) (v : SoftwareVersion) : Bool :=
  let version := trimSpace v.version
  version != "" && (equalFold fold version brewVersion ||
    hasPrefix (m.toLower version) (m.toLower brewVersion) || hasPrefix (m.toLower brewVersion) (m.toLower version))

def pickVersionIDForBrew (versions : List SoftwareVersion) (softwareID brewVersion : String) : String :=
  match ordered versions softwareID with
  | [] => ""
  | v :: rest =>
    if trimSpace brewVersion = "" then v.id
    else (((v :: rest).find? (fits m fold (trimSpace brewVersion))).getD v).id

inductive Change where
  | install (versionID : String) (pm : PackageManager)
  | uninstall
  deriving DecidableEq, Repr

/- A call of MarkSoftwareInstalledWithManager or MarkSoftwareUninstalled, before it reads the row and
before it writes it. -/
inductive Mark where
  | read (softwareID : String) (change : Change)
  | create (softwareID : String) (row : SoftwareInstalled)
  | save (softwareID : String) (row : SoftwareInstalled)
  deriving DecidableEq, Repr

inductive Marking where
  | going (mark : Mark)
  | ended (ok : Bool)
  deriving DecidableEq, Repr

/- Only one row may carry a software. -/
def Mark.next (fails : Bool) (rows : Installed) : Mark → Installed × Marking
  | .read softwareID (.install versionID pm) =>
    if softwareID = "" ∨ versionID = "" then (rows,.ended true)
    else if fails then (rows,.ended false)
    else match rows softwareID with
      | none => (rows,.going (.create softwareID ⟨versionID,pm,false,false⟩))
      | some _ => (rows,.going (.save softwareID ⟨versionID,pm,false,false⟩))
  | .read softwareID .uninstall =>
    if softwareID = "" then (rows,.ended true)
    else if fails then (rows,.ended false)
    else match rows softwareID with
      | none => (rows,.ended true)
      | some row => (rows,.going (.save softwareID {row with uninstalled := true, deleted := false}))
  | .create softwareID row =>
    if fails ∨ (rows softwareID).isSome then (rows,.ended false)
    else (Function.update rows softwareID (some row),.ended true)
  | .save softwareID row =>
    if fails then (rows,.ended false) else (Function.update rows softwareID (some row),.ended true)

/- What a mark comes to: it ends as it is, it has the row it will write, or it writes it. -/
inductive MarkStep (rows : Installed) : Mark → Installed → Marking → Prop where
  | quits (mark : Mark) (ok : Bool) : MarkStep rows mark rows (.ended ok)
  | creates (softwareID versionID : String) (pm : PackageManager) :
    MarkStep rows (.read softwareID (.install versionID pm)) rows (.going (.create softwareID ⟨versionID,pm,false,false⟩))
  | saves (softwareID versionID : String) (pm : PackageManager) :
    MarkStep rows (.read softwareID (.install versionID pm)) rows (.going (.save softwareID ⟨versionID,pm,false,false⟩))
  | leaves (softwareID : String) {row : SoftwareInstalled} (there : rows softwareID = some row) :
    MarkStep rows (.read softwareID .uninstall) rows (.going (.save softwareID {row with uninstalled := true, deleted := false}))
  | created (softwareID : String) (row : SoftwareInstalled) :
    MarkStep rows (.create softwareID row) (Function.update rows softwareID (some row)) (.ended true)
  | saved (softwareID : String) (row : SoftwareInstalled) :
    MarkStep rows (.save softwareID row) (Function.update rows softwareID (some row)) (.ended true)

theorem markStep {mark : Mark} {fails : Bool} {rows rows' : Installed} {after : Marking}
    (moved : mark.next fails rows = (rows',after)) : MarkStep rows mark rows' after := by
  cases mark with
  | read softwareID change =>
    cases change with
    | install versionID pm =>
      simp only [Mark.next] at moved
      split at moved
      · cases moved
        exact .quits _ _
      · split at moved
        · cases moved
          exact .quits _ _
        · split at moved <;> cases moved
          · exact .creates _ _ _
          · exact .saves _ _ _
    | uninstall =>
      simp only [Mark.next] at moved
      split at moved
      · cases moved
        exact .quits _ _
      · split at moved
        · cases moved
          exact .quits _ _
        · split at moved <;> rename_i there <;> cases moved
          · exact .quits _ _
          · exact .leaves _ there
  | create softwareID row =>
    simp only [Mark.next] at moved
    split at moved <;> cases moved
    · exact .quits _ _
    · exact .created _ _
  | save softwareID row =>
    simp only [Mark.next] at moved
    split at moved <;> cases moved
    · exact .quits _ _
    · exact .saved _ _

/- With nothing between its read and its write a call is one update of the rows. -/
def Mark.atOnce (rows : Installed) (mark : Mark) : Installed :=
  match mark.next false rows with
  | (rows',.ended _) => rows'
  | (rows',.going mark') => (mark'.next false rows').1

theorem installAtOnce (rows : Installed) (softwareID versionID : String) (pm : PackageManager) :
    (Mark.read softwareID (.install versionID pm)).atOnce rows = Brew.markSoftwareInstalledWithManager rows softwareID versionID pm := by
  unfold Mark.atOnce Brew.markSoftwareInstalledWithManager
  by_cases empty : softwareID = "" ∨ versionID = ""
  · simp only [Mark.next,if_pos empty]
  · cases there : rows softwareID <;> simp [Mark.next,if_neg empty,there]

theorem uninstallAtOnce (rows : Installed) (softwareID : String) :
    (Mark.read softwareID .uninstall).atOnce rows = markSoftwareUninstalled rows softwareID := by
  unfold Mark.atOnce markSoftwareUninstalled
  by_cases empty : softwareID = ""
  · simp only [Mark.next,if_pos empty]
  · cases there : rows softwareID <;> simp [Mark.next,if_neg empty,there]

structure SyncResult where
  imported : Nat := 0
  updated : Nat := 0
  uninstalled : Nat := 0
  skippedLocal : Nat := 0
  unmatched : Nat := 0
  brewInstalled : Nat := 0
  catalogMatched : Nat := 0
  deriving DecidableEq, Repr

inductive Phase where
  | index (items : List Item)
  | items (todo : List Item)
  | pick (softwareID version : String) (old : Option SoftwareInstalled) (todo : List Item)
  | mark (mark : Mark) (versionID : String) (old : Option SoftwareInstalled) (todo : List Item)
  | rows
  | unmark (todo : List (String × SoftwareInstalled))
  | unmarking (mark : Mark) (todo : List (String × SoftwareInstalled))
  | done
  | failed
  deriving DecidableEq, Repr

structure Sync where
  phase : Phase
  seenSoftware : List String
  result : SyncResult
  deriving DecidableEq, Repr

/- The tables that the sync only reads. Each installed row belongs to a software. -/
structure Catalog where
  softwares : List Software
  versions : List SoftwareVersion
  ids : (softwares.map Software.id).Nodup

def listSoftwareInstalled (softwares : List Software) (rows : Installed) : List (String × SoftwareInstalled) :=
  softwares.filterMap (fun sw => (getSoftwareInstalled rows sw.id).map (fun row => (sw.id,row)))

/- The call once its listing is there. -/
def begin (listing : Option (List Item)) : Sync :=
  match listing with
  | none => ⟨.failed,[],{}⟩
  | some items => ⟨.index items,[],{brewInstalled := items.length}⟩

def Sync.to (s : Sync) (rows : Installed) (phase : Phase) : Option (Installed × Sync) := some (rows,{s with phase := phase})

/- A row installed by another manager, or by none, is counted as imported. -/
def SyncResult.marked (r : SyncResult) (versionID : String) (old : Option SoftwareInstalled) : SyncResult :=
  match old with
  | none => {r with imported := r.imported+1}
  | some row =>
    if row.uninstalled ∨ row.packageManager ≠ .packageManagerBrew then {r with imported := r.imported+1}
    else if row.versionID ≠ versionID then {r with updated := r.updated+1}
    else r

variable (c : Catalog)

def Sync.next (fails : Bool) (rows : Installed) (s : Sync) : Option (Installed × Sync) :=
  match s.phase with
  | .index items => if fails then s.to rows .failed else s.to rows (.items items)
  | .items [] => s.to rows .rows
  | .items (it :: todo) =>
    if lowered m it.name = "" then s.to rows (.items todo)
    else match (buildBrewTokenIndex m c.softwares).lookup (lowered m it.name) with
    | none => some (rows,{s with phase := .items todo, result.unmatched := s.result.unmatched+1})
    | some sw =>
      let s := {s with seenSoftware := sw.id :: s.seenSoftware, result.catalogMatched := s.result.catalogMatched+1}
      if fails then s.to rows (.items todo)
      else match getSoftwareInstalled rows sw.id with
      | none => s.to rows (.pick sw.id it.version none todo)
      | some row =>
        -- never steal an active local install
        if row.uninstalled = false ∧ row.packageManager = .packageManagerLocal then
          some (rows,{s with phase := .items todo, result.skippedLocal := s.result.skippedLocal+1})
        else s.to rows (.pick sw.id it.version (some row) todo)
  | .pick softwareID version old todo =>
    let versionID := if fails then "" else pickVersionIDForBrew m fold c.versions softwareID version
    if versionID = "" then s.to rows (.items todo)
    else s.to rows (.mark (.read softwareID (.install versionID .packageManagerBrew)) versionID old todo)
  | .mark mark versionID old todo =>
    match mark.next fails rows with
    | (rows,.going mark) => s.to rows (.mark mark versionID old todo)
    | (rows,.ended false) => s.to rows (.items todo)
    | (rows,.ended true) => some (rows,{s with phase := .items todo, result := s.result.marked versionID old})
  | .rows => if fails then s.to rows .done else s.to rows (.unmark (listSoftwareInstalled c.softwares rows))
  | .unmark [] => s.to rows .done
  | .unmark ((softwareID,row) :: todo) =>
    if row.uninstalled ∨ row.packageManager ≠ .packageManagerBrew ∨ softwareID ∈ s.seenSoftware then s.to rows (.unmark todo)
    else s.to rows (.unmarking (.read softwareID .uninstall) todo)
  | .unmarking mark todo =>
    match mark.next fails rows with
    | (rows,.going mark) => s.to rows (.unmarking mark todo)
    | (rows,.ended false) => s.to rows (.unmark todo)
    | (rows,.ended true) => some (rows,{s with phase := .unmark todo, result.uninstalled := s.result.uninstalled+1})
  | .done => none
  | .failed => none

/- What the next move writes when it does not fail. -/
def Mark.writes : Mark → Option (String × SoftwareInstalled)
  | .read _ _ => none
  | .create softwareID row => some (softwareID,row)
  | .save softwareID row => some (softwareID,row)

def Sync.writes (s : Sync) : Option (String × SoftwareInstalled) :=
  match s.phase with
  | .mark mark _ _ _ => mark.writes
  | .unmarking mark _ => mark.writes
  | _ => none

end ContainerWS.BrewSync
