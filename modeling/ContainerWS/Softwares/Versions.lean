import ContainerWS.GoStrings
import ContainerWS.Runs
import ContainerWS.SoftwarePkg.Paths
import ContainerWS.Softwares.Tables

/-! What writes the rows of softwareversion: the version handlers of modules/softwares/package, the import
of packages/softwarepkg and the seed of modules/softwares/seed. -/
namespace ContainerWS.Softwares
open GoStrings

/- ORDER BY and LIMIT 1. -/
def firstBy {ρ : Type} (le : ρ → ρ → Bool) : List ρ → Option ρ
  | [] => none
  | r :: rows =>
    match firstBy le rows with
    | none => some r
    | some s => some (if le r s then r else s)

def byID (v w : SoftwareVersion) : Bool := !decide (w.id < v.id)

def newest (v w : SoftwareVersion) : Bool := if v.createdAt = w.createdAt then byID v w else w.createdAt < v.createdAt

structure Tables where
  softwares : List Software
  versions : List SoftwareVersion
  named : ∀ v ∈ versions, v.id ≠ ""
  ids : (versions.map SoftwareVersion.id).Nodup
  owned : ∀ v ∈ versions, v.softwareID ∈ softwares.map Software.id

section
variable (t : Tables)

def Tables.software (p : Software → Bool) : Option Software :=
  firstBy (fun a b => !decide (b.id < a.id)) (t.softwares.filter (fun sw => !sw.deleted && p sw))

def Tables.version (p : SoftwareVersion → Bool) : Option SoftwareVersion :=
  firstBy byID (t.versions.filter (fun v => !v.deleted && p v))

variable {f : SoftwareVersion → SoftwareVersion} {t}

theorem rewriteNamed (same : ∀ v, (f v).id = v.id ∧ (f v).softwareID = v.softwareID) : ∀ v ∈ t.versions.map f, v.id ≠ "" := by
  intro v mem
  obtain ⟨old,inside,rfl⟩ := List.mem_map.mp mem
  rw [(same old).1]
  exact t.named old inside

theorem rewriteIDs (same : ∀ v, (f v).id = v.id ∧ (f v).softwareID = v.softwareID) :
    ((t.versions.map f).map SoftwareVersion.id).Nodup := by
  have kept : (t.versions.map f).map SoftwareVersion.id = t.versions.map SoftwareVersion.id := by
    rw [List.map_map]
    exact List.map_congr_left (fun v _ => (same v).1)
  rw [kept]
  exact t.ids

theorem rewriteOwned (same : ∀ v, (f v).id = v.id ∧ (f v).softwareID = v.softwareID) :
    ∀ v ∈ t.versions.map f, v.softwareID ∈ t.softwares.map Software.id := by
  intro v mem
  obtain ⟨old,inside,rfl⟩ := List.mem_map.mp mem
  rw [(same old).2]
  exact t.owned old inside

def Tables.rewrite (t : Tables) (f : SoftwareVersion → SoftwareVersion) (same : ∀ v, (f v).id = v.id ∧ (f v).softwareID = v.softwareID) :
    Tables :=
  ⟨t.softwares,t.versions.map f,rewriteNamed same,rewriteIDs same,rewriteOwned same⟩

end

def cleared (p : SoftwareVersion → Bool) (v : SoftwareVersion) : SoftwareVersion :=
  if !v.deleted && p v then {v with isLatest := false} else v

theorem clearedSame (p : SoftwareVersion → Bool) (v : SoftwareVersion) : (cleared p v).id = v.id ∧ (cleared p v).softwareID = v.softwareID := by
  unfold cleared
  split <;> exact ⟨rfl,rfl⟩

def saved (row v : SoftwareVersion) : SoftwareVersion :=
  if v.id = row.id then {row with id := v.id, softwareID := v.softwareID} else v

theorem savedSame (row v : SoftwareVersion) : (saved row v).id = v.id ∧ (saved row v).softwareID = v.softwareID := by
  unfold saved
  split <;> exact ⟨rfl,rfl⟩

/- Update("is_latest", false) where a condition holds. -/
def Tables.clear (t : Tables) (p : SoftwareVersion → Bool) : Tables := t.rewrite (cleared p) (clearedSame p)

/- All columns of a row that has been read. -/
def Tables.save (t : Tables) (row : SoftwareVersion) : Tables := t.rewrite (saved row) (savedSame row)

/- The identifier is one that no row has yet. -/
def Insertable (t : Tables) (row : SoftwareVersion) : Prop :=
  row.id ≠ "" ∧ row.id ∉ t.versions.map SoftwareVersion.id ∧ row.softwareID ∈ t.softwares.map Software.id

instance (t : Tables) (row : SoftwareVersion) : Decidable (Insertable t row) := by
  unfold Insertable
  infer_instance

theorem insertNamed {t : Tables} {row : SoftwareVersion} (fresh : Insertable t row) : ∀ v ∈ t.versions ++ [row], v.id ≠ "" := by
  intro v mem
  rcases List.mem_append.mp mem with old | new
  · exact t.named v old
  · cases List.mem_singleton.mp new
    exact fresh.1

theorem insertIDs {t : Tables} {row : SoftwareVersion} (fresh : Insertable t row) :
    ((t.versions ++ [row]).map SoftwareVersion.id).Nodup := by
  rw [List.map_append,List.nodup_append]
  refine ⟨t.ids,List.nodup_singleton _,?_⟩
  intro a old b new same
  cases List.mem_singleton.mp new
  exact fresh.2.1 (same ▸ old)

theorem insertOwned {t : Tables} {row : SoftwareVersion} (fresh : Insertable t row) :
    ∀ v ∈ t.versions ++ [row], v.softwareID ∈ t.softwares.map Software.id := by
  intro v mem
  rcases List.mem_append.mp mem with old | new
  · exact t.owned v old
  · cases List.mem_singleton.mp new
    exact fresh.2.2

def Tables.insert (t : Tables) (row : SoftwareVersion) : Option Tables :=
  if fresh : Insertable t row then some ⟨t.softwares,t.versions ++ [row],insertNamed fresh,insertIDs fresh,insertOwned fresh⟩
  else none

theorem softwaresOwned {t : Tables} {softwares : List Software} (kept : t.softwares.map Software.id ⊆ softwares.map Software.id) :
    ∀ v ∈ t.versions, v.softwareID ∈ softwares.map Software.id := fun v mem => kept (t.owned v mem)

theorem rewrittenKept {softwares : List Software} {f : Software → Software} (same : ∀ sw, (f sw).id = sw.id) :
    softwares.map Software.id ⊆ (softwares.map f).map Software.id := by
  rw [List.map_map,List.map_congr_left (fun sw _ => show (Software.id ∘ f) sw = sw.id from same sw)]
  exact List.Subset.refl _

def Tables.rewriteSoftwares (t : Tables) (f : Software → Software) (same : ∀ sw, (f sw).id = sw.id) : Tables :=
  ⟨t.softwares.map f,t.versions,t.named,t.ids,softwaresOwned (rewrittenKept same)⟩

theorem addedKept {softwares : List Software} (sw : Software) : softwares.map Software.id ⊆ (softwares ++ [sw]).map Software.id := by
  rw [List.map_append]
  exact List.subset_append_left _ _

def Tables.addSoftware (t : Tables) (sw : Software) : Option Tables :=
  if sw.id = "" ∨ sw.id ∈ t.softwares.map Software.id then none
  else some ⟨t.softwares ++ [sw],t.versions,t.named,t.ids,softwaresOwned (addedKept sw)⟩

/- Which statements of a call fail. -/
structure Faults where
  software : Bool := false
  update : Bool := false
  find : Bool := false
  count : Bool := false
  write : Bool := false
  clear : Bool := false
  deriving DecidableEq, Repr

/- A transaction that fails has done nothing. -/
def createVersionAPI (k : Faults) (id : String) (now : Nat) (softwareID version : String) (isLatest : Option Bool) (t : Tables) : Tables :=
  let softwareID := trimSpace softwareID
  let version := trimSpace version
  if softwareID = "" ∨ version = "" ∨ k.software ∨ t.software (fun sw => sw.id == softwareID) = none then t
  else
    let count := if k.count then 0 else (t.versions.filter (fun v => v.of softwareID)).length
    let latest := isLatest.getD (count == 0)
    if k.write then t
    else ((if latest then t.clear (fun v => v.softwareID == softwareID) else t).insert ⟨id,softwareID,version,latest,now,false⟩).getD t

def updateVersionAPI (k : Faults) (softwareID versionID version : String) (isLatest : Option Bool) (t : Tables) : Tables :=
  let softwareID := trimSpace softwareID
  let versionID := trimSpace versionID
  if softwareID = "" ∨ versionID = "" ∨ k.find then t
  else match t.version (fun v => v.id == versionID && v.softwareID == softwareID) with
  | none => t
  | some ver =>
    let ver := {ver with version := if trimSpace version = "" then ver.version else trimSpace version, isLatest := isLatest.getD ver.isLatest}
    if k.write then t
    else (if isLatest = some true then t.clear (fun v => v.softwareID == softwareID && v.id != ver.id) else t).save ver

def deleteVersionAPI (k : Faults) (softwareID versionID : String) (t : Tables) : Tables :=
  let softwareID := trimSpace softwareID
  let versionID := trimSpace versionID
  if softwareID = "" ∨ versionID = "" ∨ k.find then t
  else match t.version (fun v => v.id == versionID && v.softwareID == softwareID) with
  | none => t
  | some ver =>
    if k.write then t
    else
      let t := t.save {ver with deleted := true}
      if ver.isLatest = false ∨ k.clear then t
      else match firstBy newest (t.versions.filter (fun v => v.of softwareID)) with
      | none => t
      | some next => t.save {next with isLatest := true}

/- Inside of the transaction of an import. -/
def upsertVersion (id : String) (now : Nat) (softwareID version : String) (isLatest : Option Bool) (t : Tables) : Option Tables :=
  let version := trimSpace version
  let latest := isLatest.getD true
  match t.version (fun v => v.softwareID == softwareID && v.version == version) with
  | some ver =>
    some ((if latest then t.clear (fun v => v.softwareID == softwareID && v.id != ver.id) else t).save {ver with isLatest := latest})
  | none =>
    (if latest then t.clear (fun v => v.softwareID == softwareID && v.id != "") else t).insert ⟨id,softwareID,version,latest,now,false⟩

/- A package of a registry, or of the local form, which has no slug. -/
structure Package where
  name : String
  slug : String
  isActive : Option Bool
  version : String
  isLatest : Option Bool
  deriving DecidableEq, Repr

/- LOWER of the database is ASCII only. -/
def packageSoftware (m : CaseMap) (p : Package) (t : Tables) : Option Software :=
  match t.software (fun sw => ascii.toLower sw.name == m.toLower (trimSpace p.name)) with
  | some sw => some sw
  | none =>
    let slug := SoftwarePkg.sanitizeSegment m p.slug
    if slug = "" then none else t.software (fun sw => ascii.toLower sw.registrySlug == slug)

def updated (m : CaseMap) (p : Package) (id : String) (sw : Software) : Software :=
  let slug := SoftwarePkg.sanitizeSegment m p.slug
  if sw.id = id then
    {sw with name := trimSpace p.name, registrySlug := if slug = "" then sw.registrySlug else slug, isActive := p.isActive.getD sw.isActive}
  else sw

theorem updatedSame (m : CaseMap) (p : Package) (id : String) (sw : Software) : (updated m p id sw).id = sw.id := by
  unfold updated
  split <;> rfl

def upsertSoftware (m : CaseMap) (id : String) (p : Package) (t : Tables) : Option (Tables × String) :=
  match packageSoftware m p t with
  | some sw => some (t.rewriteSoftwares (updated m p sw.id) (updatedSame m p sw.id),sw.id)
  | none =>
    (t.addSoftware ⟨id,trimSpace p.name,SoftwarePkg.sanitizeSegment m p.slug,p.isActive.getD true,false⟩).map (fun t => (t,id))

/- ImportPackage and CreateLocalPackage. -/
def importPackage (m : CaseMap) (k : Faults) (softwareID versionID : String) (now : Nat) (p : Package) (t : Tables) : Tables :=
  if k.write then t
  else match upsertSoftware m softwareID p t with
  | none => t
  | some (t',id) => (upsertVersion versionID now id p.version p.isLatest t').getD t

/- An item of the catalog and its version. -/
structure CatalogItem where
  name : String
  version : String
  isLatest : Bool
  deriving DecidableEq, Repr

def buildin (name : String) : CatalogItem := ⟨name,"apt",true⟩

def catalog : List CatalogItem :=
  [⟨"Go","1.26.5",true⟩,⟨"Node.js","nvm-v0.40.5-lts",true⟩,⟨"Docker Engine","29.6.2",true⟩,⟨"Google Chrome","allusers-1",true⟩,
    ⟨"Visual Studio Code","allusers-1",true⟩,⟨"VS Code Server","cli-1",true⟩,⟨"Cursor","allusers-2",true⟩,
    buildin "htop",buildin "sysstat",buildin "iftop",buildin "nvtop",buildin "intel-gpu-tools",buildin "radeontop",buildin "gpustat"]

/- A query of the row that fails reads as none. -/
def seedFound (k : Faults) (item : CatalogItem) (softwareID : String) (t : Tables) : Option SoftwareVersion :=
  if k.find then none else t.version (fun v => v.softwareID == softwareID && v.version == item.version)

/- The version of an item whose software exists. Errors are passed over. -/
def seedVersion (k : Faults) (id : String) (now : Nat) (item : CatalogItem) (softwareID : String) (t : Tables) : Tables :=
  let t := match seedFound k item softwareID t with
    | some ver => if k.write then t else t.save {ver with isLatest := item.isLatest}
    | none => if k.write then t else (t.insert ⟨id,softwareID,item.version,item.isLatest,now,false⟩).getD t
  if item.isLatest = false ∨ k.clear then t
  else t.clear (fun v => v.softwareID == softwareID && v.version != item.version)

def seeded (active : Bool) (id : String) (sw : Software) : Software := if sw.id = id then {sw with isActive := active} else sw

theorem seededSame (active : Bool) (id : String) (sw : Software) : (seeded active id sw).id = sw.id := by
  unfold seeded
  split <;> rfl

/- What stands for the database beside an item of the catalog. -/
structure SeedTurn where
  faults : Faults
  softwareID : String
  versionID : String
  now : Nat
  deriving DecidableEq, Repr

def existing (k : Faults) (item : CatalogItem) (t : Tables) : Option Software :=
  if k.software then none else t.software (fun sw => sw.name == item.name)

def seedItem (item : CatalogItem) (k : SeedTurn) (t : Tables) : Tables :=
  match existing k.faults item t with
  | some sw =>
    seedVersion k.faults k.versionID k.now item sw.id
      (if k.faults.update then t else t.rewriteSoftwares (seeded true sw.id) (seededSame true sw.id))
  | none =>
    match if k.faults.update then none else t.addSoftware ⟨k.softwareID,item.name,"",true,false⟩ with
    | none => t
    | some t => if k.faults.write then t else (t.insert ⟨k.versionID,k.softwareID,item.version,item.isLatest,k.now,false⟩).getD t

def kept (names : List String) (sw : Software) : Software :=
  if !sw.deleted && !names.contains sw.name then {sw with isActive := false} else sw

theorem keptSame (names : List String) (sw : Software) : (kept names sw).id = sw.id := by
  unfold kept
  split <;> rfl

/- What is not in the catalog is deactivated. -/
def seedEnd (k : Faults) (t : Tables) : Tables :=
  if k.update then t else t.rewriteSoftwares (kept (catalog.map CatalogItem.name)) (keptSame _)

/- One transaction, or one item of a seed. -/
inductive Move where
  | create (k : Faults) (id : String) (now : Nat) (softwareID version : String) (isLatest : Option Bool)
  | update (k : Faults) (softwareID versionID version : String) (isLatest : Option Bool)
  | delete (k : Faults) (softwareID versionID : String)
  | package (k : Faults) (softwareID versionID : String) (now : Nat) (p : Package)
  | seedItem (item : CatalogItem) (k : SeedTurn)
  | seedEnd (k : Faults)
  deriving DecidableEq, Repr

inductive Request where
  | move (e : Move)
  | seedIfEmpty (turn : CatalogItem → SeedTurn) (last : Faults)

/- SeedIfEmpty goes through the catalog whether the table is empty or not. -/
def Request.moves : Request → List Move
  | .move e => [e]
  | .seedIfEmpty turn last => catalog.map (fun item => .seedItem item (turn item)) ++ [.seedEnd last]

def step (m : CaseMap) (t : Tables) : Move → Option Tables
  | .create k id now softwareID version isLatest => some (createVersionAPI k id now softwareID version isLatest t)
  | .update k softwareID versionID version isLatest => some (updateVersionAPI k softwareID versionID version isLatest t)
  | .delete k softwareID versionID => some (deleteVersionAPI k softwareID versionID t)
  | .package k softwareID versionID now p => some (importPackage m k softwareID versionID now p t)
  | .seedItem item k => some (Softwares.seedItem item k t)
  | .seedEnd k => some (Softwares.seedEnd k t)

def empty : Tables := ⟨[],[],by rintro _ ⟨⟩,List.nodup_nil,by rintro _ ⟨⟩⟩

end ContainerWS.Softwares
