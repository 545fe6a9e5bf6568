import ContainerWS.FanOut
import ContainerWS.GoStrings
import ContainerWS.Host

/-! The check of packages/softwaresync/sync.go when the server starts: the installed softwares are probed by a pool of workers, what is not
on the host is flagged, and is handed to the install queue. What a probe finds is outside. -/
namespace ContainerWS.Softwares.Reconcile
open GoStrings FanOut

structure ProbeResult where
  present : Bool
  detail : String
  deriving DecidableEq, Repr

structure Software where
  id : String
  name : String
  isActive : Bool
  serviceUnits : List String
  deriving DecidableEq, Repr

structure SoftwareVersion where
  id : String
  version : String
  deriving DecidableEq, Repr

/- A row of software_installed, and what is loaded beside it: the software is that of its key. -/
structure Row where
  softwareID : String
  versionID : String
  packageManager : String
  uninstalled : Bool
  software : Option Software
  version : Option SoftwareVersion
  owned : ∀ sw, software = some sw → sw.id = softwareID

def PackageManagerLocal := "local"
def PackageManagerBrew := "brew"

def NormalizePackageManager (m : CaseMap) (v : String) : String :=
  if m.toLower (trimSpace v) = PackageManagerBrew then PackageManagerBrew else PackageManagerLocal

structure ProbeTarget where
  softwareID : String
  name : String
  versionID : String
  version : String
  serviceUnits : List String
  deriving DecidableEq, Repr

/- A row that is probed. What the user has removed and what brew owns is left alone. -/
def probeTarget (m : CaseMap) (load : String → Option SoftwareVersion) (row : Row) : Option ProbeTarget :=
  if row.uninstalled = true then none
  else if NormalizePackageManager m row.packageManager = PackageManagerBrew then none
  else
    match row.software with
    | none => none
    | some sw =>
      if sw.isActive = false then none
      else
        match row.version.or (load row.versionID) with
        | none => none
        | some ver => some ⟨sw.id,sw.name,ver.id,ver.version,sw.serviceUnits⟩

def probeTargets (m : CaseMap) (load : String → Option SoftwareVersion) (rows : List Row) : List ProbeTarget :=
  rows.filterMap (probeTarget m load)

def maxProbeWorkers : Nat := 8

def probeWorkerCount (procs n : Nat) : Nat := if n ≤ 1 then 1 else min (min (max procs 2) maxProbeWorkers) n

/- The flags of the versions and of the softwares that are not on the host. -/
structure OsMissing where
  versions : List String
  software : List String
  deriving DecidableEq, Repr

def IsOsMissing (c : OsMissing) (versionID : String) : Bool := versionID ≠ "" ∧ versionID ∈ c.versions

def IsOsMissingSoftware (c : OsMissing) (softwareID : String) : Bool := softwareID ≠ "" ∧ softwareID ∈ c.software

def MarkOsMissing (c : OsMissing) (softwareID versionID : String) : OsMissing where
  versions := if versionID ≠ "" then versionID :: c.versions else c.versions
  software := if softwareID ≠ "" then softwareID :: c.software else c.software

def ClearOsMissing (c : OsMissing) (softwareID versionID : String) : OsMissing where
  versions := if versionID ≠ "" then c.versions.filter (· ≠ versionID) else c.versions
  software := if softwareID ≠ "" then c.software.filter (· ≠ softwareID) else c.software

/- One outcome after the other is flagged, and the missing ones are collected. -/
def classify : List (ProbeTarget × ProbeResult) → OsMissing → OsMissing × List MissingInstall
  | [], c => (c,[])
  | (t,r) :: rest, c =>
    if r.present = true then classify rest (ClearOsMissing c t.softwareID t.versionID)
    else
      let (c',missing) := classify rest (MarkOsMissing c t.softwareID t.versionID)
      (c',⟨t.softwareID,t.versionID⟩ :: missing)

def skipped : ProbeResult := ⟨false,"cancelled"⟩

/- What is there before a worker has written. -/
def unprobed : ProbeResult := ⟨false,""⟩

inductive ReconcileError where
  | cancelled
  deriving DecidableEq, Repr

/- The pool is joined; the error of the context comes first. -/
def settle (targets : List ProbeTarget) (s : State ProbeResult) (c : OsMissing) :
    Except ReconcileError (OsMissing × List MissingInstall) :=
  if targets = [] then .ok (c,[])
  else if s.cancelled = true then .error .cancelled
  else .ok (classify (targets.zip (s.outcomes.map (fun o => o.getD unprobed))) c)

def pool (procs : Nat) (targets : List ProbeTarget) (es : List (Event ProbeResult)) : Option (State ProbeResult) :=
  Runs.run (FanOut.step targets.length skipped) (begin (probeWorkerCount procs targets.length) targets.length) es

/-! What is flagged. -/
def absent (e : ProbeTarget × ProbeResult) : Bool := !e.2.present

def missingInstall (e : ProbeTarget × ProbeResult) : MissingInstall := ⟨e.1.softwareID,e.1.versionID⟩

theorem classifyMissing (l : List (ProbeTarget × ProbeResult)) (c : OsMissing) :
    (classify l c).2 = (l.filter absent).map missingInstall := by
  induction l generalizing c with
  | nil => rfl
  | cons e l ih =>
    obtain ⟨t,r⟩ := e
    rw [classify]
    by_cases here : r.present = true
    · rw [if_pos here,ih,List.filter_cons_of_neg (by simp [absent,here])]
    · rw [if_neg here,List.filter_cons_of_pos (by simp [absent,here]),List.map_cons,← ih]
      rfl

theorem markTold (c : OsMissing) (softwareID versionID id : String) :
    IsOsMissingSoftware (MarkOsMissing c softwareID versionID) id = true ↔
      id ≠ "" ∧ (id = softwareID ∨ IsOsMissingSoftware c id = true) := by
  unfold IsOsMissingSoftware MarkOsMissing
  rw [decide_eq_true_iff,decide_eq_true_iff]
  dsimp only
  by_cases filled : softwareID ≠ ""
  · rw [if_pos filled,List.mem_cons]
    tauto
  · rw [if_neg filled,not_not.mp filled]
    tauto

theorem clearTold (c : OsMissing) (softwareID versionID id : String) :
    IsOsMissingSoftware (ClearOsMissing c softwareID versionID) id = true ↔
      id ≠ softwareID ∧ IsOsMissingSoftware c id = true := by
  unfold IsOsMissingSoftware ClearOsMissing
  rw [decide_eq_true_iff,decide_eq_true_iff]
  dsimp only
  by_cases filled : softwareID ≠ ""
  · rw [if_pos filled,List.mem_filter,decide_eq_true_iff]
    tauto
  · rw [if_neg filled,not_not.mp filled]
    tauto

/- A software that is not among the outcomes keeps its flag. -/
theorem classifyOther {l : List (ProbeTarget × ProbeResult)} {c : OsMissing} {id : String}
    (other : id ∉ l.map (fun e => e.1.softwareID)) : IsOsMissingSoftware (classify l c).1 id = IsOsMissingSoftware c id := by
  induction l generalizing c with
  | nil => rfl
  | cons e l ih =>
    obtain ⟨t,r⟩ := e
    rw [List.map_cons,List.mem_cons,not_or] at other
    rw [classify]
    split
    · rw [ih other.2,Bool.eq_iff_iff,clearTold]
      exact and_iff_right other.1
    · rw [Bool.eq_iff_iff]
      show IsOsMissingSoftware (classify l (MarkOsMissing c t.softwareID t.versionID)).1 id = true ↔ _
      rw [ih other.2,markTold]
      constructor
      · rintro ⟨-,same | flagged⟩
        · exact absurd same other.1
        · exact flagged
      · exact fun flagged => ⟨(decide_eq_true_iff.mp flagged).1,.inr flagged⟩

theorem classifyOwn {l : List (ProbeTarget × ProbeResult)} {c : OsMissing} (unique : (l.map (fun e => e.1.softwareID)).Nodup)
    {t : ProbeTarget} {r : ProbeResult} (mem : (t,r) ∈ l) (filled : t.softwareID ≠ "") :
    IsOsMissingSoftware (classify l c).1 t.softwareID = !r.present := by
  induction l generalizing c with
  | nil => cases mem
  | cons e l ih =>
    rw [List.map_cons,List.nodup_cons] at unique
    rcases List.mem_cons.mp mem with rfl | later
    · rw [classify]
      by_cases here : r.present = true
      · rw [if_pos here,classifyOther unique.1,here,Bool.not_true,Bool.eq_false_iff]
        exact fun flagged => ((clearTold c _ _ _).mp flagged).1 rfl
      · rw [if_neg here,Bool.eq_false_iff.mpr here,Bool.not_false]
        show IsOsMissingSoftware (classify l (MarkOsMissing c t.softwareID t.versionID)).1 t.softwareID = true
        rw [classifyOther unique.1]
        exact (markTold c _ _ _).mpr ⟨filled,.inl rfl⟩
    · obtain ⟨u,q⟩ := e
      rw [classify]
      split
      · exact ih unique.2 later
      · exact ih unique.2 later

theorem targetRow {m : CaseMap} {load : String → Option SoftwareVersion} {row : Row} {t : ProbeTarget}
    (target : probeTarget m load row = some t) : t.softwareID = row.softwareID ∧ row.uninstalled = false ∧
      NormalizePackageManager m row.packageManager = PackageManagerLocal ∧ ∃ sw, row.software = some sw ∧ sw.isActive = true := by
  unfold probeTarget at target
  split at target
  · cases target
  · rename_i kept
    split at target
    · cases target
    · rename_i own
      split at target
      · cases target
      · rename_i sw loaded
        split at target
        · cases target
        · rename_i active
          split at target
          · cases target
          · cases target
            refine ⟨row.owned sw loaded,Bool.eq_false_iff.mpr kept,?_,sw,loaded,Bool.eq_true_of_not_eq_false active⟩
            unfold NormalizePackageManager at own ⊢
            split
            · rename_i brew
              rw [if_pos brew] at own
              exact absurd rfl own
            · rfl

theorem targetsUnique {m : CaseMap} {load : String → Option SoftwareVersion} {rows : List Row}
    (unique : (rows.map Row.softwareID).Nodup) : ((probeTargets m load rows).map ProbeTarget.softwareID).Nodup := by
  have part : ((probeTargets m load rows).map ProbeTarget.softwareID).Sublist (rows.map Row.softwareID) := by
    unfold probeTargets
    induction rows with
    | nil => exact List.Sublist.slnil
    | cons row rows ih =>
      have rest := ih (List.nodup_cons.mp unique).2
      rw [List.filterMap_cons]
      cases target : probeTarget m load row with
      | none => exact rest.cons _
      | some t =>
        rw [List.map_cons,List.map_cons,(targetRow target).1]
        exact rest.cons_cons _
  exact unique.sublist part

/- Whatever the schedule of the pool, a check that is not cancelled has each software probed once. What the probes did not find, and nothing
else, is flagged and asked for again, in the order of the table; and none of it was removed by the user, is brew's or is inactive. -/
theorem reconcileTold (m : CaseMap) (load : String → Option SoftwareVersion) (rows : List Row) (unique : (rows.map Row.softwareID).Nodup)
    {procs : Nat} {es : List (Event ProbeResult)} {s : State ProbeResult} (ran : pool procs (probeTargets m load rows) es = some s)
    (joined : Joined (probeTargets m load rows).length s) (calm : s.cancelled = false) (c : OsMissing) :
    ∃ rs c', s.answers.Perm (rs.zipIdx.map Prod.swap) ∧ rs.length = (probeTargets m load rows).length ∧
      settle (probeTargets m load rows) s c = .ok (c',(((probeTargets m load rows).zip rs).filter absent).map missingInstall) ∧
      (∀ e ∈ (probeTargets m load rows).zip rs, e.1.softwareID ≠ "" → IsOsMissingSoftware c' e.1.softwareID = absent e) ∧
      (∀ id, id ∉ (probeTargets m load rows).map ProbeTarget.softwareID → IsOsMissingSoftware c' id = IsOsMissingSoftware c id) ∧
      ∀ t ∈ probeTargets m load rows, ∃ row ∈ rows, row.softwareID = t.softwareID ∧ row.uninstalled = false ∧
        NormalizePackageManager m row.packageManager = PackageManagerLocal ∧ ∃ sw, row.software = some sw ∧ sw.isActive = true := by
  have sound := runSound (beginSound _) ran
  obtain ⟨rs,shape,length,told⟩ := joinedTold sound joined calm
  have names : ((probeTargets m load rows).zip rs).map (fun e => e.1.softwareID) =
      (probeTargets m load rows).map ProbeTarget.softwareID := by
    have parts : (fun e : ProbeTarget × ProbeResult => e.1.softwareID) = ProbeTarget.softwareID ∘ Prod.fst := rfl
    rw [parts,← List.map_map,List.map_fst_zip (by rw [length])]
  refine ⟨rs,(classify ((probeTargets m load rows).zip rs) c).1,told,length,?_,?_,?_,?_⟩
  · unfold settle
    split
    · rename_i empty
      rw [empty]
      rfl
    · rw [if_neg (by rw [calm]; exact Bool.false_ne_true),shape,List.map_map,← classifyMissing]
      have same : ((fun o : Option ProbeResult => o.getD unprobed) ∘ some) = id := rfl
      rw [same,List.map_id]
  · rintro ⟨t,r⟩ mem filled
    exact classifyOwn (by rw [names]; exact targetsUnique unique) mem filled
  · intro id other
    exact classifyOther (by rw [names]; exact other)
  · intro t mem
    obtain ⟨row,inside,target⟩ := List.mem_filterMap.mp mem
    obtain ⟨same,kept,own,active⟩ := targetRow target
    exact ⟨row,inside,same.symm,kept,own,active⟩

/- Two rows, of which one is probed. -/
def sampleRows : List Row :=
  [⟨"s1","v1","local",false,some ⟨"s1","htop",true,[]⟩,some ⟨"v1","3.3"⟩,fun _ here => by cases here; rfl⟩,
    ⟨"s2","v2"," Brew ",false,some ⟨"s2","go",true,[]⟩,some ⟨"v2","1.24"⟩,fun _ here => by cases here; rfl⟩]

def sampleRun : List (Event ProbeResult) := [.take 0,.look 0,.answer 0 ⟨false,"not found"⟩]

def sampleEnd : State ProbeResult := ⟨1,false,false,[.waiting],[some ⟨false,"not found"⟩],[(0,⟨false,"not found"⟩)]⟩

theorem htopAsked : ∃ rs c', sampleEnd.answers.Perm (rs.zipIdx.map Prod.swap) ∧ rs.length = 1 ∧
    settle (probeTargets ascii (fun _ => none) sampleRows) sampleEnd ⟨[],[]⟩ =
      .ok (c',(((probeTargets ascii (fun _ => none) sampleRows).zip rs).filter absent).map missingInstall) :=
  have ran : pool 4 (probeTargets ascii (fun _ => none) sampleRows) sampleRun = some sampleEnd := by decide
  have told := reconcileTold ascii (fun _ => none) sampleRows (by decide) ran (by decide) rfl ⟨[],[]⟩
  told.elim fun rs rest => rest.elim fun c' facts => ⟨rs,c',facts.1,facts.2.1,facts.2.2.1⟩

theorem workersSome (procs n : Nat) : 0 < probeWorkerCount procs n := by
  unfold probeWorkerCount maxProbeWorkers
  split
  · exact Nat.one_pos
  · omega

/- No schedule of the pool is stuck before all workers are back, and none goes on for ever. -/
theorem poolEnds {procs : Nat} {targets : List ProbeTarget} {es : List (Event ProbeResult)} {s : State ProbeResult}
    (ran : pool procs targets es = some s) :
    (es.filter (· ≠ .cancel)).length ≤ 3 * targets.length + 1 ∧
      ∃ more t, pool procs targets (es ++ more) = some t ∧ Joined targets.length t := by
  have start := beginRemaining (β := ProbeResult) (probeWorkerCount procs targets.length) targets.length
  have spent := runRemaining ran
  have manned : s.hands ≠ [] := by
    rw [← List.length_pos_iff_ne_nil,runHands ran,begin,List.length_replicate]
    exact workersSome procs targets.length
  obtain ⟨more,t,rest,joined⟩ := runJoins skipped manned (runSound (beginSound _) ran)
  exact ⟨by omega,more,t,(Runs.runAppend ran).trans rest,joined⟩

theorem samplePoolEnds : ∃ more t, pool 4 (probeTargets ascii (fun _ => none) sampleRows) ([.take 0,.cancel] ++ more) = some t ∧
    Joined (probeTargets ascii (fun _ => none) sampleRows).length t :=
  (poolEnds (show pool 4 (probeTargets ascii (fun _ => none) sampleRows) [.take 0,.cancel] = some _ from rfl)).2

end ContainerWS.Softwares.Reconcile
