import ContainerWS.Brew.Listed

/-! Who owns an installed row when the sync, the queue and the switches write beside each other. The sync
reads the row of an item, and writes it some queries later. -/
namespace ContainerWS.BrewSync
open Install Softwares GoStrings Brew

variable {m : CaseMap} {fold : Char → Char} {c : Catalog}

/- SwitchPackageManager on its way to brew. -/
structure ToBrew where
  w : Switch
  phase : Brew.Phase
  item : Option UUID

inductive LocalPhase where
  | remove
  | wait (phase : Brew.Phase)
  | mark
  | done
  | failed
  deriving DecidableEq, Repr

/- And on its way to local. It waits for the queue as the other one does. -/
structure ToLocal where
  w : Switch
  phase : LocalPhase

structure State where
  process : Process
  syncs : List Sync
  toBrew : List ToBrew
  toLocal : List ToLocal

def ToBrew.next (m : CaseMap) (k : Turn) (process : Process) (b : ToBrew) : Option (Process × ToBrew) :=
  match b.w.next m k ⟨process,b.phase,b.item,none⟩ with
  | none => none
  | some s => some (s.process,⟨b.w,s.phase,s.item⟩)

/- A mark that fails leaves the rows as they are; MarkSoftwareUninstalled and the cancelling of what is
pending are the first requests of the wait. -/
def ToLocal.next (m : CaseMap) (k : Turn) (process : Process) (l : ToLocal) : Option (Process × ToLocal) :=
  match l.phase with
  | .remove =>
    if k.fails then some (process,{l with phase := .failed})
    else some (process,{l with phase := .wait (.enqueue (.switchMark l.w.softwareID))})
  | .wait phase =>
    match l.w.next m k ⟨process,phase,none,none⟩ with
    | none => none
    | some s =>
      match s.phase with
      | .install => some (s.process,{l with phase := .mark})
      | .failed _ => some (s.process,{l with phase := .failed})
      | phase => some (s.process,{l with phase := .wait phase})
  | .mark =>
    if k.fails then some (process,{l with phase := .failed})
    else
      let installed := markSoftwareInstalledWithManager process.shared.installed l.w.softwareID l.w.versionID .packageManagerLocal
      some (⟨{process.shared with installed := installed},process.pool⟩,{l with phase := .done})
  | .done => none
  | .failed => none

inductive Move where
  | process (e : Interleaving.Event Call Choice)
  | sync (listing : Option (List Item))
  | syncTurn (i : Nat) (fails : Bool)
  | toBrew (w : Switch)
  | brewTurn (i : Nat) (k : Turn)
  | toLocal (w : Switch)
  | localTurn (i : Nat) (k : Turn)

def State.store (s : State) (installed : Installed) : State :=
  {s with process := ⟨{s.process.shared with installed := installed},s.process.pool⟩}

def step (m : CaseMap) (fold : Char → Char) (c : Catalog) (s : State) : Move → Option State
  | .process e =>
    match Interleaving.exec (host m) s.process e with
    | none => none
    | some p => some {s with process := p}
  | .sync listing => some {s with syncs := s.syncs ++ [begin listing]}
  | .syncTurn i fails =>
    match s.syncs[i]? with
    | none => none
    | some y =>
      match y.next m fold c fails s.process.shared.installed with
      | none => none
      | some (rows,y') => some {s.store rows with syncs := s.syncs.set i y'}
  | .toBrew w => some {s with toBrew := s.toBrew ++ [⟨w,.look,none⟩]}
  | .brewTurn i k =>
    match s.toBrew[i]? with
    | none => none
    | some b =>
      match b.next m k s.process with
      | none => none
      | some (p,b') => some {s with process := p, toBrew := s.toBrew.set i b'}
  | .toLocal w => some {s with toLocal := s.toLocal ++ [⟨w,.remove⟩]}
  | .localTurn i k =>
    match s.toLocal[i]? with
    | none => none
    | some l =>
      match l.next m k s.process with
      | none => none
      | some (p,l') => some {s with process := p, toLocal := s.toLocal.set i l'}

def opening (installed : Installed) : State := ⟨boot installed,[],[],[]⟩

/- A local install that is marked installed. -/
def LocalOwned (rows : Installed) (softwareID : String) : Prop :=
  ∃ row, getSoftwareInstalled rows softwareID = some row ∧ row.uninstalled = false ∧ row.packageManager = .packageManagerLocal

/- The row that the next move of a sync writes over. -/
def Mark.overwrites : Mark → Option (String × SoftwareInstalled)
  | .save softwareID row => some (softwareID,row)
  | _ => none

def Sync.overwrites (y : Sync) : Option (String × SoftwareInstalled) :=
  match y.phase with
  | .mark mark _ _ _ => mark.overwrites
  | .unmarking mark _ => mark.overwrites
  | _ => none

/- No sync is about to give brew a row that is owned by Softwares. -/
def Kept (s : State) : Prop :=
  ∀ y ∈ s.syncs, ∀ softwareID row, y.overwrites = some (softwareID,row) → row.packageManager = .packageManagerBrew →
    ¬LocalOwned s.process.shared.installed softwareID

/- The software that a sync has checked, or whose row it has read, and not yet written. -/
def Sync.holds (y : Sync) : Option String :=
  match y.phase with
  | .pick softwareID _ _ _ => some softwareID
  | .mark (.read softwareID _) _ _ _ => some softwareID
  | .mark (.save softwareID _) _ _ _ => some softwareID
  | .unmarking (.save softwareID row) _ => if row.packageManager = .packageManagerBrew then some softwareID else none
  | _ => none

/- The software that a goroutine of the queue marks installed next. -/
def scriptMarks (run : ScriptRun) : Option String :=
  if run.point = .markInstalled then some run.softwareID else none

def marksLocal : Goroutine → Option String
  | .worker (.script _ run) => scriptMarks run
  | .install run => scriptMarks run
  | _ => none

def ToLocal.marksLocal (l : ToLocal) : Option String :=
  if l.phase = .mark then some l.w.softwareID else none

/- Nothing is marked as a local install while a sync is between its check of the row and the write of it. -/
def Apart (s : State) : Move → Prop
  | .process (.step i _) => ∀ t ∈ s.process.pool[i]?, ∀ softwareID ∈ marksLocal t, ∀ y ∈ s.syncs, y.holds ≠ some softwareID
  | .localTurn i _ => ∀ l ∈ s.toLocal[i]?, ∀ softwareID ∈ l.marksLocal, ∀ y ∈ s.syncs, y.holds ≠ some softwareID
  | _ => True

instance (s : State) (e : Move) : Decidable (Apart s e) := by
  unfold Apart
  split <;> infer_instance

theorem ownedUpdate {rows : Installed} {softwareID other : String} {row : SoftwareInstalled}
    (foreign : row.uninstalled = true ∨ row.packageManager = .packageManagerBrew)
    (owned : LocalOwned (Function.update rows other (some row)) softwareID) : LocalOwned rows softwareID := by
  obtain ⟨now,there,kept,manager⟩ := owned
  by_cases here : softwareID = other
  · subst here
    rw [getSoftwareInstalled,Function.update_self] at there
    split at there
    · cases there
    · cases (Option.filter_eq_some_iff.mp there).1
      rcases foreign with gone | brew
      · rw [gone] at kept
        cases kept
      · rw [brew] at manager
        cases manager
  · rw [getSoftwareInstalled,Function.update_of_ne here] at there
    exact ⟨now,there,kept,manager⟩

theorem ownedUninstalled {rows : Installed} {softwareID other : String} (owned : LocalOwned (markSoftwareUninstalled rows other) softwareID) :
    LocalOwned rows softwareID := by
  unfold markSoftwareUninstalled at owned
  split at owned
  · exact owned
  · split at owned
    · exact owned
    · exact ownedUpdate (.inl rfl) owned

theorem ownedBrew {rows : Installed} {softwareID other versionID : String}
    (owned : LocalOwned (markSoftwareInstalledWithManager rows other versionID .packageManagerBrew) softwareID) :
    LocalOwned rows softwareID := by
  unfold markSoftwareInstalledWithManager at owned
  split at owned
  · exact owned
  · exact ownedUpdate (.inr rfl) owned

/- A mark of one software leaves the rows of the others. -/
theorem ownedElsewhere {rows rows' : Installed} {softwareID : String} (same : rows' softwareID = rows softwareID)
    (owned : LocalOwned rows' softwareID) : LocalOwned rows softwareID := by
  rwa [LocalOwned,getSoftwareInstalled,same] at owned

theorem ownedScript {k : Choice} {s s' : Shared} {run : ScriptRun} {point : Option ScriptPoint} (stepped : run.next k s = some (s',point))
    {softwareID : String} (owned : LocalOwned s'.installed softwareID) :
    LocalOwned s.installed softwareID ∨ scriptMarks run = some softwareID := by
  cases ScriptRun.steps stepped with
  | mark here => exact .inl (ownedUninstalled owned)
  | installed rows here onward =>
    simp only [ScriptRun.next,here] at stepped
    cases stepped
    split at owned
    · exact .inl owned
    · by_cases mine : softwareID = run.softwareID
      · exact .inr (by rw [scriptMarks,if_pos here,mine])
      · refine .inl (ownedElsewhere ?_ owned)
        unfold markSoftwareInstalled
        split
        · rfl
        · exact Function.update_of_ne mine _ _
  | _ => exact .inl owned

theorem ownedRequest {k : Choice} {s s' : Shared} {r : Request} {g : Goroutine} {new : List Goroutine}
    (stepped : r.next m k s = some (s',g,new)) {softwareID : String} (owned : LocalOwned s'.installed softwareID) :
    LocalOwned s.installed softwareID := by
  cases Request.steps stepped with
  | switchMark => exact ownedUninstalled owned
  | _ => exact owned

theorem ownedWorker {k : Choice} {s s' : Shared} {w : Worker} {g : Goroutine} {new : List Goroutine} (stepped : w.next k s = some (s',g,new))
    {softwareID : String} (owned : LocalOwned s'.installed softwareID) :
    LocalOwned s.installed softwareID ∨ marksLocal (.worker w) = some softwareID := by
  cases w with
  | script it run =>
    simp only [Worker.next] at stepped
    split at stepped <;> rename_i ran <;> cases stepped <;> exact ownedScript ran owned
  | _ =>
    cases Worker.steps stepped with
    | _ => exact .inl owned

/- Only a goroutine that marks a software as installed makes it a local install. -/
theorem ownedStep {k : Choice} {s s' : Shared} {t g : Goroutine} {new : List Goroutine} (stepped : ContainerWS.next m k s t = some (s',g,new))
    {softwareID : String} (owned : LocalOwned s'.installed softwareID) :
    LocalOwned s.installed softwareID ∨ marksLocal t = some softwareID := by
  cases t with
  | request r => exact .inl (ownedRequest stepped owned)
  | worker w => exact ownedWorker stepped owned
  | stream v =>
    cases Stream.steps stepped with
    | _ => exact .inl owned
  | install run =>
    simp only [ContainerWS.next,installNext] at stepped
    split at stepped <;> rename_i ran <;> cases stepped <;> exact ownedScript ran owned
  | prune job =>
    cases stepped
    exact .inl owned
  | setup v =>
    obtain ⟨_,_,same,_⟩ := setupFrame stepped
    exact .inl (by rwa [same] at owned)
  | done => contradiction

theorem ownedSwitch {w : Switch} {k : Turn} {s s' : Brew.State} (moved : w.next m k s = some s') {softwareID : String}
    (owned : LocalOwned s'.process.shared.installed softwareID) : LocalOwned s.process.shared.installed softwareID := by
  obtain ⟨c,phase,item,ended⟩ := s
  cases phase with
  | look =>
    simp only [Switch.next,Brew.State.to] at moved
    split at moved
    · split at moved
      · split at moved <;> cases moved <;> exact owned
      · cases moved
        exact owned
    · cases moved
      exact owned
  | enqueue r =>
    simp only [Switch.next] at moved
    split at moved <;> cases moved
    rename_i stepped
    exact ownedRequest stepped owned
  | poll =>
    simp only [Switch.next,Brew.State.to] at moved
    split at moved
    · cases moved
      exact owned
    · split at moved <;> cases moved <;> exact owned
  | pollList items =>
    cases moved
    exact owned
  | pollJob items todo visible =>
    cases todo with
    | nil =>
      simp only [Switch.next,Brew.State.to] at moved
      split at moved
      · cases moved
        exact owned
      · split at moved <;> cases moved <;> exact owned
      · cases moved
        exact owned
    | cons id rest =>
      simp only [Switch.next,Brew.State.to] at moved
      split at moved <;> cases moved
      exact owned
  | install =>
    simp only [Switch.next,Brew.State.to] at moved
    split at moved <;> cases moved <;> exact owned
  | mark =>
    simp only [Switch.next,Brew.State.to] at moved
    split at moved <;> cases moved
    · exact owned
    · exact ownedBrew owned
  | done => cases moved
  | failed f => cases moved

theorem ownedLocal {k : Turn} {p p' : Process} {l l' : ToLocal} (moved : l.next m k p = some (p',l')) {softwareID : String}
    (owned : LocalOwned p'.shared.installed softwareID) : LocalOwned p.shared.installed softwareID ∨ l.marksLocal = some softwareID := by
  obtain ⟨w,phase⟩ := l
  cases phase with
  | remove =>
    simp only [ToLocal.next] at moved
    split at moved <;> cases moved <;> exact .inl owned
  | wait phase =>
    simp only [ToLocal.next] at moved
    split at moved
    · cases moved
    · rename_i inner
      split at moved <;> cases moved <;> exact .inl (ownedSwitch inner owned)
  | mark =>
    simp only [ToLocal.next] at moved
    split at moved <;> cases moved
    · exact .inl owned
    · by_cases mine : softwareID = w.softwareID
      · exact .inr (by rw [ToLocal.marksLocal,if_pos rfl,mine])
      · refine .inl (ownedElsewhere ?_ owned)
        unfold markSoftwareInstalledWithManager
        split
        · rfl
        · exact Function.update_of_ne mine _ _
  | done => cases moved
  | failed => cases moved

/- A mark that gives no row to Softwares. -/
def Mark.foreign : Mark → Prop
  | .read _ (.install _ pm) => pm = .packageManagerBrew
  | .read _ .uninstall => True
  | .create _ row => row.uninstalled = true ∨ row.packageManager = .packageManagerBrew
  | .save _ row => row.uninstalled = true ∨ row.packageManager = .packageManagerBrew

def Sync.foreign (y : Sync) : Prop :=
  match y.phase with
  | .mark mark _ _ _ => mark.foreign
  | .unmarking mark _ => mark.takes = true
  | _ => True

theorem takesForeign {mark : Mark} (takes : mark.takes = true) : mark.foreign := by
  cases mark with
  | read softwareID change =>
    cases change with
    | install versionID pm => cases takes
    | uninstall => trivial
  | create softwareID row => exact .inl takes
  | save softwareID row => exact .inl takes

theorem markForeign {mark : Mark} {fails : Bool} {rows rows' : Installed} {after : Marking} (foreign : mark.foreign)
    (moved : mark.next fails rows = (rows',after)) :
    (∀ softwareID, LocalOwned rows' softwareID → LocalOwned rows softwareID) ∧ ∀ mark', after = .going mark' → mark'.foreign := by
  cases markStep moved with
  | quits _ ok => exact ⟨fun _ owned => owned,by rintro _ ⟨⟩⟩
  | creates softwareID versionID pm => exact ⟨fun _ owned => owned,by rintro _ ⟨⟩; exact .inr foreign⟩
  | saves softwareID versionID pm => exact ⟨fun _ owned => owned,by rintro _ ⟨⟩; exact .inr foreign⟩
  | leaves softwareID there => exact ⟨fun _ owned => owned,by rintro _ ⟨⟩; exact .inl rfl⟩
  | created softwareID row => exact ⟨fun _ owned => ownedUpdate foreign owned,by rintro _ ⟨⟩⟩
  | saved softwareID row => exact ⟨fun _ owned => ownedUpdate foreign owned,by rintro _ ⟨⟩⟩

/- A row that is not there, or is brew's, is no local install. -/
theorem ownedNot {rows : Installed} {softwareID : String}
    (other : ∀ row, getSoftwareInstalled rows softwareID = some row → ¬(row.uninstalled = false ∧ row.packageManager = .packageManagerLocal)) :
    ¬LocalOwned rows softwareID :=
  fun ⟨row,there,kept,manager⟩ => other row there ⟨kept,manager⟩

/- A row that is to be saved has been read. -/
theorem saveRead {mark : Mark} {fails : Bool} {rows rows' : Installed} {softwareID : String} {row : SoftwareInstalled}
    (moved : mark.next fails rows = (rows',.going (.save softwareID row))) :
    ∃ change, mark = .read softwareID change ∧
      (change = .uninstall → ∃ old, rows softwareID = some old ∧ row.packageManager = old.packageManager) := by
  cases markStep moved with
  | saves _ versionID pm => exact ⟨_,rfl,by rintro ⟨⟩⟩
  | leaves _ there => exact ⟨_,rfl,fun _ => ⟨_,there,rfl⟩⟩

theorem goesSave {mark mark' : Mark} {fails : Bool} {rows rows' : Installed} (moved : mark.next fails rows = (rows',.going mark')) :
    ∀ softwareID change, mark' ≠ .read softwareID change := by
  rintro softwareID change rfl
  cases markStep moved

/- What a sync holds after a move it has held before, or has just found not to be a local install. -/
theorem syncHolds {y y' : Sync} {fails : Bool} {rows rows' : Installed} (foreign : y.foreign)
    (moved : y.next m fold c fails rows = some (rows',y')) :
    y'.foreign ∧ (∀ softwareID, LocalOwned rows' softwareID → LocalOwned rows softwareID) ∧
      ∀ softwareID, y'.holds = some softwareID → y.holds = some softwareID ∨ ¬LocalOwned rows softwareID := by
  have same : ∀ softwareID, LocalOwned rows softwareID → LocalOwned rows softwareID := fun _ owned => owned
  obtain ⟨phase,seen,result⟩ := y
  cases phase with
  | index items =>
    simp only [Sync.next,Sync.to] at moved
    split at moved <;> cases moved <;> exact ⟨trivial,same,by rintro _ ⟨⟩⟩
  | items todo =>
    cases todo with
    | nil =>
      cases moved
      exact ⟨trivial,same,by rintro _ ⟨⟩⟩
    | cons it todo =>
      simp only [Sync.next,Sync.to] at moved
      split at moved
      · cases moved
        exact ⟨trivial,same,by rintro _ ⟨⟩⟩
      · split at moved
        · cases moved
          exact ⟨trivial,same,by rintro _ ⟨⟩⟩
        · split at moved
          · cases moved
            exact ⟨trivial,same,by rintro _ ⟨⟩⟩
          · split at moved
            · rename_i none
              cases moved
              refine ⟨trivial,same,?_⟩
              rintro _ ⟨⟩
              exact .inr (ownedNot (fun row there => by rw [none] at there; cases there))
            · rename_i row there
              split at moved <;> cases moved
              · exact ⟨trivial,same,by rintro _ ⟨⟩⟩
              · rename_i other
                refine ⟨trivial,same,?_⟩
                rintro _ ⟨⟩
                exact .inr (ownedNot (fun row' there' => by cases there.symm.trans there'; exact other))
  | pick softwareID version old todo =>
    simp only [Sync.next,Sync.to] at moved
    generalize (if fails then "" else pickVersionIDForBrew m fold c.versions softwareID version) = versionID at moved
    split at moved <;> cases moved
    · exact ⟨trivial,same,by rintro _ ⟨⟩⟩
    · refine ⟨rfl,same,?_⟩
      rintro _ ⟨⟩
      exact .inl rfl
  | mark mark versionID old todo =>
    simp only [Sync.next,Sync.to] at moved
    split at moved <;> rename_i marked <;> cases moved
    · obtain ⟨keeps,onward⟩ := markForeign foreign marked
      refine ⟨onward _ rfl,keeps,?_⟩
      rename_i mark'
      intro softwareID holds
      cases mark' with
      | read other change => exact absurd rfl (goesSave marked other change)
      | create other row => cases holds
      | save other row =>
        cases holds
        obtain ⟨change,rfl,_⟩ := saveRead marked
        exact .inl rfl
    · exact ⟨trivial,(markForeign foreign marked).1,by rintro _ ⟨⟩⟩
    · exact ⟨trivial,(markForeign foreign marked).1,by rintro _ ⟨⟩⟩
  | rows =>
    simp only [Sync.next,Sync.to] at moved
    split at moved <;> cases moved <;> exact ⟨trivial,same,by rintro _ ⟨⟩⟩
  | unmark todo =>
    cases todo with
    | nil =>
      cases moved
      exact ⟨trivial,same,by rintro _ ⟨⟩⟩
    | cons e todo =>
      simp only [Sync.next,Sync.to] at moved
      split at moved <;> cases moved
      · exact ⟨trivial,same,by rintro _ ⟨⟩⟩
      · exact ⟨rfl,same,by rintro _ ⟨⟩⟩
  | unmarking mark todo =>
    simp only [Sync.next,Sync.to] at moved
    split at moved <;> rename_i marked <;> cases moved <;> have keeps := (markForeign (takesForeign foreign) marked).1
    · rename_i mark'
      have still : mark'.takes = mark.takes := (markGoes marked).2.2
      refine ⟨still.trans foreign,keeps,?_⟩
      intro softwareID holds
      cases mark' with
      | read other change => cases holds
      | create other row => cases holds
      | save other row =>
        simp only [Sync.holds] at holds
        split at holds <;> cases holds
        rename_i brew
        obtain ⟨change,rfl,read⟩ := saveRead marked
        cases change with
        | install versionID pm => cases foreign
        | uninstall =>
          obtain ⟨old,there,manager⟩ := read rfl
          refine .inr (ownedNot ?_)
          intro row' there' here
          rw [getSoftwareInstalled] at there'
          split at there'
          · cases there'
          · cases there.symm.trans (Option.filter_eq_some_iff.mp there').1
            rw [← manager,brew] at here
            cases here.2
    · exact ⟨trivial,keeps,by rintro _ ⟨⟩⟩
    · exact ⟨trivial,keeps,by rintro _ ⟨⟩⟩
  | done => cases moved
  | failed => cases moved

/- No sync holds a local install. -/
def Fair (s : State) : Prop :=
  ∀ y ∈ s.syncs, y.foreign ∧ ∀ softwareID, y.holds = some softwareID → ¬LocalOwned s.process.shared.installed softwareID

theorem fairKept {s : State} (fair : Fair s) : Kept s := by
  intro y mem softwareID row finished brew
  refine (fair y mem).2 softwareID ?_
  obtain ⟨phase,seen,result⟩ := y
  cases phase with
  | mark mark _ _ _ =>
    cases mark <;> cases finished
    rfl
  | unmarking mark _ =>
    cases mark <;> cases finished
    simp only [Sync.holds,if_pos brew]
  | _ => cases finished

/- Rows that become local installs only where no sync holds them. -/
theorem fairBeside {s s' : State} (fair : Fair s) (syncs : s'.syncs = s.syncs)
    (owned : ∀ softwareID, LocalOwned s'.process.shared.installed softwareID → LocalOwned s.process.shared.installed softwareID ∨
      ∀ y ∈ s.syncs, y.holds ≠ some softwareID) : Fair s' := by
  intro y mem
  rw [syncs] at mem
  refine ⟨(fair y mem).1,?_⟩
  intro softwareID holds now
  rcases owned softwareID now with before | apart
  · exact (fair y mem).2 softwareID holds before
  · exact apart y mem holds

theorem fairStep {s s' : State} {e : Move} (fair : Fair s) (apart : Apart s e) (moved : step m fold c s e = some s') : Fair s' := by
  cases e with
  | process e =>
    simp only [step] at moved
    split at moved <;> cases moved
    rename_i p ran
    refine fairBeside fair rfl ?_
    intro softwareID owned
    cases Interleaving.execMoved ran with
    | call r => exact .inl owned
    | @step i k t s₁ g new found stepped =>
      rcases ownedStep stepped owned with before | marks
      · exact .inl before
      · exact .inr (apart t found softwareID marks)
  | sync listing =>
    cases moved
    intro y mem
    rcases List.mem_append.mp mem with old | fresh
    · exact fair y old
    · cases List.mem_singleton.mp fresh
      cases listing <;> exact ⟨trivial,by rintro _ ⟨⟩⟩
  | syncTurn i fails =>
    simp only [step] at moved
    split at moved
    · cases moved
    · rename_i y found
      split at moved
      · cases moved
      · rename_i rows y' turned
        cases moved
        have inside : y ∈ s.syncs := List.mem_of_getElem? found
        obtain ⟨foreign,keeps,holds⟩ := syncHolds (fair y inside).1 turned
        intro z mem
        rcases List.mem_or_eq_of_mem_set mem with old | rfl
        · exact ⟨(fair z old).1,fun softwareID held now => (fair z old).2 softwareID held (keeps softwareID now)⟩
        · refine ⟨foreign,?_⟩
          intro softwareID held now
          rcases holds softwareID held with before | other
          · exact (fair y inside).2 softwareID before (keeps softwareID now)
          · exact other (keeps softwareID now)
  | toBrew w =>
    cases moved
    exact fairBeside fair rfl (fun _ owned => .inl owned)
  | brewTurn i k =>
    simp only [step,ToBrew.next] at moved
    split at moved
    · cases moved
    · split at moved
      · cases moved
      · rename_i turned
        split at turned <;> cases turned
        cases moved
        rename_i inner
        exact fairBeside fair rfl (fun _ owned => .inl (ownedSwitch inner owned))
  | toLocal w =>
    cases moved
    exact fairBeside fair rfl (fun _ owned => .inl owned)
  | localTurn i k =>
    simp only [step] at moved
    split at moved
    · cases moved
    · rename_i l found
      split at moved
      · cases moved
      · rename_i p l' turned
        cases moved
        refine fairBeside fair rfl ?_
        intro softwareID owned
        rcases ownedLocal turned owned with before | marks
        · exact .inl before
        · exact .inr (apart l found softwareID marks)

/- A local install stays one in every run whose local marks keep apart from the syncs. -/
theorem ownerKept (m : CaseMap) (fold : Char → Char) (c : Catalog) (installed : Installed) {moves : List Move} {s : State}
    (apart : Runs.Guided (step m fold c) Apart (opening installed) moves)
    (ran : Runs.run (step m fold c) (opening installed) moves = some s) : Kept s :=
  fairKept (Runs.runGuided (fun fair apart moved => fairStep fair apart moved) (by rintro y ⟨⟩) apart ran)

def jq : Catalog := ⟨[⟨"s1","jq","jq",true,false⟩],[⟨"v1","s1","1.7",true,0,false⟩],by decide⟩

def listed : Move := .sync (some [⟨"jq","1.7"⟩])

/- The queue installs a software. -/
def queued (softwareID versionID : String) : List Move :=
  .process (.call (.enqueueActions true "install" [softwareID])) :: List.replicate 4 (.process (.step 0 {})) ++
    (List.replicate 11 (.process (.step 1 {prepared := .ok ⟨softwareID,versionID,""⟩})) : List Move)

/- The sync has checked the software; while it goes on the queue installs one. -/
def beside (softwareID versionID : String) : List Move :=
  ([listed,.syncTurn 0 false,.syncTurn 0 false] : List Move) ++ queued softwareID versionID ++
    ([.syncTurn 0 false,.syncTurn 0 false] : List Move)

def brewed : Installed := fun softwareID => if softwareID = "s1" then some ⟨"v0",.packageManagerBrew,false,false⟩ else none

theorem ownerKeptOther : ∃ s, Runs.run (step ascii id jq) (opening brewed) (beside "s2" "v2") = some s ∧
    s.syncs.map Sync.overwrites = [some ("s1",⟨"v1",.packageManagerBrew,false,false⟩)] ∧ Kept s := by
  have done : (Runs.run (step ascii id jq) (opening brewed) (beside "s2" "v2")).map (fun s => s.syncs.map Sync.overwrites) =
      some [some ("s1",⟨"v1",.packageManagerBrew,false,false⟩)] := by decide +kernel
  obtain ⟨s,ran,finished⟩ := Option.map_eq_some_iff.mp done
  exact ⟨s,ran,finished,ownerKept ascii id jq brewed (by decide +kernel) ran⟩

/- The queue installs the software itself: the sync found no row, and now writes over the one of the local
install. -/
theorem localTaken : ¬∀ moves s, Runs.run (step ascii id jq) (opening (fun _ => none)) moves = some s → Kept s := by
  intro all
  have done : (Runs.run (step ascii id jq) (opening (fun _ => none)) (beside "s1" "v1")).map
      (fun s => (s.syncs.map Sync.overwrites,getSoftwareInstalled s.process.shared.installed "s1")) =
      some ([some ("s1",⟨"v1",.packageManagerBrew,false,false⟩)],some ⟨"v1",.packageManagerLocal,false,false⟩) := by decide +kernel
  obtain ⟨s,ran,same⟩ := Option.map_eq_some_iff.mp done
  simp only [Prod.mk.injEq] at same
  obtain ⟨y,one,finished⟩ := List.map_eq_singleton_iff.mp same.1
  exact all _ s ran y (by rw [one]; exact List.mem_singleton_self y) "s1" _ finished rfl ⟨_,same.2,rfl,rfl⟩

end ContainerWS.BrewSync
