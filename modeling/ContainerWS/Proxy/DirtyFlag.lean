import ContainerWS.Runs
import Mathlib.Logic.Function.Basic

/-! packages/proxymanager/settings.go and apply.go: the flag that tells that the configuration in
force is not the one of the database. Edits and Applies run side by side, as their requests do.
What a table holds is not looked into, but for the engine that the settings name; that
`migrateLegacyConfigDir` saves a directory is left out. -/
namespace ContainerWS.Proxy.DirtyFlag
open Runs

/- What `LoadSnapshot` reads. -/
inductive Part where
  | settings
  | hosts
  | locations
  | redirects
  | certificates
  deriving DecidableEq, Repr

/- One query each, in this order. -/
def loadOrder : List Part := [.settings,.hosts,.locations,.redirects,.certificates]

inductive Engine where
  | fiber
  | nginx
  | traefik
  deriving DecidableEq, Repr

/- The rows of a table, and how many changes it had seen when they were read. -/
structure Version (β : Type) where
  rows : β
  count : Nat
  deriving DecidableEq, Repr

abbrev Config (β : Type) := List (Part × Version β)

/- Where an Apply stands. -/
inductive Stage (β : Type) where
  | load (todo : List Part) (got : Config β)
  | generate (c : Config β)
  | reload (c : Config β)
  -- ClearDirty without an error, and with one
  | clear
  | fail
  | done
  deriving DecidableEq, Repr

structure ApplyRun (β : Type) where
  previewOnly : Bool
  stage : Stage β
  deriving DecidableEq, Repr

structure State (β : Type) where
  rows : Part → β
  -- the edits that have changed a table; a change that marks by itself is of none
  changes : Part → List (Option Nat)
  -- edits that have not reached MarkDirty
  halfDone : List Nat
  edits : Nat
  dirty : Bool
  runs : List (ApplyRun β)
  -- what the files of an engine were generated from; none where a generator has stopped halfway
  files : Engine → Option (Config β)
  applied : Option (Config β)

inductive Outcome where
  | ok
  | failed
  | halfway
  deriving DecidableEq, Repr

inductive Move (β : Type) where
  | edit (t : Part) (b : β)
  | change (e : Nat) (t : Part) (b : β)
  | markDirty (e : Nat)
  | saveSettings (b : β)
  | apply (previewOnly : Bool)
  | go (i : Nat) (k : Outcome)

section
variable {β : Type}

def State.write (s : State β) (w : Option Nat) (t : Part) (b : β) : State β :=
  { s with rows := Function.update s.rows t b, changes := Function.update s.changes t (s.changes t ++ [w]) }

def State.place (s : State β) (i : Nat) (a : ApplyRun β) (stage : Stage β) : State β :=
  { s with runs := s.runs.set i { a with stage := stage } }

variable (engine : β → Engine)

def engineOf (c : Config β) : Engine :=
  match c.lookup .settings with
  | some v => engine v.rows
  | none => .fiber

/- What a reload puts in force: Fiber's table is in memory, the others read their files. -/
def State.reloads (s : State β) (c : Config β) : Option (Config β) :=
  if engineOf engine c = .fiber then some c else s.files (engineOf engine c)

def State.applyStep (s : State β) (i : Nat) (a : ApplyRun β) (k : Outcome) : Option (State β) :=
  match a.stage with
  | .load (t :: todo) got =>
    if k = .ok then some (s.place i a (.load todo (got ++ [⟨t,s.rows t,(s.changes t).length⟩]))) else some (s.place i a .done)
  -- ValidateSnapshot, EnsureConfigRoot and the record of the run
  | .load [] got => some (s.place i a (if k = .ok then .generate got else .done))
  | .generate c =>
    match k with
    | .ok => some { s.place i a (.reload c) with files := Function.update s.files (engineOf engine c) (some c) }
    | .failed => some (s.place i a .fail)
    | .halfway => some { s.place i a .fail with files := Function.update s.files (engineOf engine c) none }
  | .reload c =>
    if a.previewOnly then some (s.place i a .done)
    else if k = .ok then some { s.place i a .clear with applied := s.reloads engine c }
    else some (s.place i a .fail)
  -- an error of the database is ignored
  | .clear => some { s.place i a .done with dirty := if k = .ok then false else s.dirty }
  | .fail => some { s.place i a .done with dirty := if a.previewOnly = false ∧ k = .ok then true else s.dirty }
  | .done => none

def State.step (s : State β) : Move β → Option (State β)
  | .edit t b => some { s.write (some s.edits) t b with halfDone := s.edits :: s.halfDone, edits := s.edits+1 }
  | .change e t b => if e ∈ s.halfDone then some (s.write (some e) t b) else none
  | .markDirty e => if e ∈ s.halfDone then some { s with dirty := true, halfDone := s.halfDone.filter (fun x => x ≠ e) } else none
  | .saveSettings b => some { s.write none .settings b with dirty := true }
  | .apply previewOnly => some { s with runs := s.runs ++ [⟨previewOnly,.load loadOrder []⟩] }
  | .go i k =>
    match s.runs[i]? with
    | some a => s.applyStep engine i a k
    | none => none

end

/- NewDefaultProxySettings. -/
def installed {β : Type} (rows : Part → β) : State β where
  rows := rows
  changes := fun _ => []
  halfDone := []
  edits := 0
  dirty := true
  runs := []
  files := fun _ => none
  applied := none

section
variable {β : Type} {engine : β → Engine} {s t : State β}

def Current (s : State β) (c : Config β) : Prop := c.map (fun p => (p.1,p.2.rows)) = loadOrder.map (fun t => (t,s.rows t))

/- What the flag is read as. -/
def Tells (s : State β) : Prop := s.dirty = false → s.halfDone = [] → ∃ c, s.applied = some c ∧ Current s c

/- Every change of a table since it was read is of an edit that has not marked yet. -/
def UpToDate (s : State β) (c : Config β) : Prop := ∀ p ∈ c, ∀ w ∈ (s.changes p.1).drop p.2.count, ∃ e ∈ s.halfDone, w = some e

def Covers (s : State β) : Option (Config β) → Prop
  | some c => UpToDate s c
  | none => False

/- The steps that put a configuration in force while the flag is off, or turn it off. -/
def InTime (engine : β → Engine) (s : State β) : Move β → Prop
  | .go i .ok =>
    match s.runs[i]? with
    | some ⟨false,.reload c⟩ => s.dirty = false → Covers s (s.reloads engine c)
    | some ⟨_,.clear⟩ => Covers s s.applied
    | _ => True
  | _ => True

instance [DecidableEq β] (s : State β) (c : Config β) : Decidable (Current s c) := by
  unfold Current
  infer_instance

instance (s : State β) (c : Config β) : Decidable (UpToDate s c) := by
  unfold UpToDate
  infer_instance

instance (s : State β) (c : Option (Config β)) : Decidable (Covers s c) := by
  unfold Covers
  split <;> infer_instance

instance (s : State β) (e : Move β) : Decidable (InTime engine s e) := by
  unfold InTime
  split
  · split <;> infer_instance
  · infer_instance

/- A table that was not changed since it was read holds what was read. -/
def Read (s : State β) (c : Config β) : Prop :=
  ∀ p ∈ c, p.2.count ≤ (s.changes p.1).length ∧ (p.2.count = (s.changes p.1).length → p.2.rows = s.rows p.1)

structure Whole (s : State β) (c : Config β) : Prop where
  parts : c.map Prod.fst = loadOrder
  read : Read s c

def Loaded (s : State β) : Stage β → Prop
  | .load todo got => got.map Prod.fst ++ todo = loadOrder ∧ Read s got
  | .generate c => Whole s c
  | .reload c => Whole s c
  | .clear => True
  | .fail => True
  | .done => True

structure Sound (s : State β) : Prop where
  runs : ∀ a ∈ s.runs, Loaded s a.stage
  files : ∀ {e c}, s.files e = some c → Whole s c
  applied : ∀ {c}, s.applied = some c → Whole s c

def Kept (s : State β) : Prop := s.dirty = false → Covers s s.applied

theorem wholeCurrent {c : Config β} (whole : Whole s c) (upToDate : UpToDate s c) (ended : s.halfDone = []) : Current s c := by
  have unchanged : ∀ p ∈ c, (p.1,p.2.rows) = (p.1,s.rows p.1) := by
    intro p mem
    obtain ⟨before,same⟩ := whole.read p mem
    have none : (s.changes p.1).drop p.2.count = [] := by
      refine List.eq_nil_iff_forall_not_mem.mpr fun w later => ?_
      obtain ⟨e,open',_⟩ := upToDate p mem w later
      rw [ended] at open'
      cases open'
    rw [same (Nat.le_antisymm before (List.drop_eq_nil_iff.mp none))]
  unfold Current
  rw [List.map_congr_left unchanged,← whole.parts,List.map_map]
  rfl

/- A change leaves nothing to be said of the table that had been read before it. -/
theorem writeRead {c : Config β} {w : Option Nat} {u : Part} {b : β} (read : Read s c) : Read (s.write w u b) c := by
  intro p mem
  obtain ⟨before,same⟩ := read p mem
  unfold State.write
  dsimp only
  by_cases here : p.1 = u
  · subst here
    rw [Function.update_self,Function.update_self,List.length_append,List.length_singleton]
    exact ⟨by omega,fun all => by omega⟩
  · rw [Function.update_of_ne here,Function.update_of_ne here]
    exact ⟨before,same⟩

theorem writeWhole {c : Config β} {w : Option Nat} {u : Part} {b : β} (whole : Whole s c) : Whole (s.write w u b) c :=
  ⟨whole.parts,writeRead whole.read⟩

theorem writeSound {w : Option Nat} {u : Part} {b : β} (sound : Sound s) : Sound (s.write w u b) := by
  refine ⟨fun a mem => ?_,fun found => writeWhole (sound.files found),fun found => writeWhole (sound.applied found)⟩
  have loaded := sound.runs a mem
  cases here : a.stage with
  | load todo got =>
    rw [here] at loaded
    exact ⟨loaded.1,writeRead loaded.2⟩
  | generate c =>
    rw [here] at loaded
    exact writeWhole loaded
  | reload c =>
    rw [here] at loaded
    exact writeWhole loaded
  | clear => trivial
  | fail => trivial
  | done => trivial

/- Nothing but the tables and the runs is looked at. -/
theorem soundOf (rows : t.rows = s.rows) (changes : t.changes = s.changes) (runs : ∀ a ∈ t.runs, Loaded s a.stage)
    (files : ∀ {e c}, t.files e = some c → Whole s c) (applied : ∀ {c}, t.applied = some c → Whole s c) : Sound t := by
  have read : ∀ {c}, Read s c → Read t c := fun read p mem => by
    rw [rows,changes]
    exact read p mem
  have whole : ∀ {c}, Whole s c → Whole t c := fun whole => ⟨whole.parts,read whole.read⟩
  refine ⟨fun a mem => ?_,fun found => whole (files found),fun found => whole (applied found)⟩
  have loaded := runs a mem
  cases here : a.stage with
  | load todo got =>
    rw [here] at loaded
    exact ⟨loaded.1,read loaded.2⟩
  | generate c =>
    rw [here] at loaded
    exact whole loaded
  | reload c =>
    rw [here] at loaded
    exact whole loaded
  | clear => trivial
  | fail => trivial
  | done => trivial

theorem editSound {halfDone : List Nat} {edits : Nat} {dirty : Bool} (sound : Sound s) :
    Sound { s with halfDone := halfDone, edits := edits, dirty := dirty } :=
  soundOf (s := s) rfl rfl sound.runs sound.files sound.applied

/- An Apply goes on, and puts only what is whole in the files and in force. -/
theorem placedSound {i : Nat} {a : ApplyRun β} {stage : Stage β} {files : Engine → Option (Config β)} {applied : Option (Config β)}
    {dirty : Bool} (sound : Sound s) (loaded : Loaded s stage) (filesWhole : ∀ {e c}, files e = some c → Whole s c)
    (appliedWhole : ∀ {c}, applied = some c → Whole s c) :
    Sound { s.place i a stage with files := files, applied := applied, dirty := dirty } := by
  refine soundOf (s := s) rfl rfl (fun x mem => ?_) filesWhole appliedWhole
  rcases List.mem_or_eq_of_mem_set mem with old | rfl
  · exact sound.runs x old
  · exact loaded

/- One step of an Apply: the table it reads is read as it is, and what it puts in place was whole before. -/
theorem applySound {i : Nat} {a : ApplyRun β} {k : Outcome} (sound : Sound s) (mem : a ∈ s.runs) (moved : s.applyStep engine i a k = some t) :
    Sound t := by
  have loaded := sound.runs a mem
  unfold State.applyStep at moved
  cases here : a.stage with
  | load todo got =>
    rw [here] at moved loaded
    obtain ⟨parts,read⟩ := loaded
    cases todo with
    | nil =>
      cases Option.some_inj.mp moved
      refine placedSound sound ?_ sound.files sound.applied
      split
      · exact ⟨by simpa using parts,read⟩
      · trivial
    | cons u todo =>
      dsimp only at moved
      split at moved
      · cases Option.some_inj.mp moved
        refine placedSound sound ?_ sound.files sound.applied
        refine ⟨by simpa using parts,?_⟩
        intro p got
        rcases List.mem_append.mp got with old | new
        · exact read p old
        · cases List.mem_singleton.mp new
          exact ⟨Nat.le_refl _,fun _ => rfl⟩
      · cases Option.some_inj.mp moved
        exact placedSound sound trivial sound.files sound.applied
  | generate c =>
    rw [here] at moved loaded
    have filesOf : ∀ {d : Option (Config β)}, (∀ {c}, d = some c → Whole s c) →
        ∀ {e c'}, Function.update s.files (engineOf engine c) d e = some c' → Whole s c' := by
      intro d fresh e c' found
      by_cases same : e = engineOf engine c
      · rw [same,Function.update_self] at found
        exact fresh found
      · rw [Function.update_of_ne same] at found
        exact sound.files found
    cases k with
    | ok =>
      cases Option.some_inj.mp moved
      exact placedSound sound loaded (filesOf fun same => Option.some_inj.mp same ▸ loaded) sound.applied
    | failed =>
      cases Option.some_inj.mp moved
      exact placedSound sound trivial sound.files sound.applied
    | halfway =>
      cases Option.some_inj.mp moved
      exact placedSound sound trivial (filesOf (d := none) nofun) sound.applied
  | reload c =>
    rw [here] at moved loaded
    dsimp only at moved
    split at moved
    · cases Option.some_inj.mp moved
      exact placedSound sound trivial sound.files sound.applied
    · split at moved
      · cases Option.some_inj.mp moved
        refine placedSound sound trivial sound.files fun found => ?_
        dsimp only [State.reloads] at found
        split at found
        · exact Option.some_inj.mp found ▸ loaded
        · exact sound.files found
      · cases Option.some_inj.mp moved
        exact placedSound sound trivial sound.files sound.applied
  | clear =>
    rw [here] at moved
    cases Option.some_inj.mp moved
    exact placedSound sound trivial sound.files sound.applied
  | fail =>
    rw [here] at moved
    cases Option.some_inj.mp moved
    exact placedSound sound trivial sound.files sound.applied
  | done =>
    rw [here] at moved
    cases moved

theorem stepSound {e : Move β} (sound : Sound s) (moved : s.step engine e = some t) : Sound t := by
  unfold State.step at moved
  cases e with
  | edit u b =>
    cases Option.some_inj.mp moved
    exact editSound (writeSound sound)
  | change e u b =>
    dsimp only at moved
    split at moved <;> try contradiction
    cases Option.some_inj.mp moved
    exact writeSound sound
  | markDirty e =>
    dsimp only at moved
    split at moved <;> try contradiction
    cases Option.some_inj.mp moved
    exact editSound sound
  | saveSettings b =>
    cases Option.some_inj.mp moved
    exact editSound (writeSound sound)
  | apply previewOnly =>
    cases Option.some_inj.mp moved
    refine soundOf (s := s) rfl rfl (fun a mem => ?_) sound.files sound.applied
    rcases List.mem_append.mp mem with old | new
    · exact sound.runs a old
    · cases List.mem_singleton.mp new
      exact ⟨rfl,nofun⟩
  | go i k =>
    dsimp only at moved
    split at moved <;> try contradiction
    rename_i a found
    exact applySound sound (List.mem_of_getElem? found) moved

/- A change by an edit that is half done leaves an up-to-date configuration so. -/
theorem writeUpToDate {c : Config β} {e : Nat} {u : Part} {b : β} {halfDone : List Nat} {edits : Nat} (upToDate : UpToDate s c)
    (begun : e ∈ halfDone) (kept : s.halfDone ⊆ halfDone) :
    UpToDate { s.write (some e) u b with halfDone := halfDone, edits := edits } c := by
  intro p mem w later
  have inside : w = some e ∨ w ∈ (s.changes p.1).drop p.2.count := by
    unfold State.write at later
    dsimp only at later
    by_cases here : p.1 = u
    · rw [here,Function.update_self,List.drop_append] at later
      rcases List.mem_append.mp later with old | new
      · rw [here]
        exact .inr old
      · exact .inl (List.mem_singleton.mp (List.mem_of_mem_drop new))
    · rw [Function.update_of_ne here] at later
      exact .inr later
  rcases inside with rfl | old
  · exact ⟨e,begun,rfl⟩
  · obtain ⟨x,open',same⟩ := upToDate p mem w old
    exact ⟨x,kept open',same⟩

theorem writeCovers {c : Option (Config β)} {e : Nat} {u : Part} {b : β} {halfDone : List Nat} {edits : Nat} (covers : Covers s c)
    (begun : e ∈ halfDone) (kept : s.halfDone ⊆ halfDone) :
    Covers { s.write (some e) u b with halfDone := halfDone, edits := edits } c := by
  cases c with
  | none => exact covers
  | some c => exact writeUpToDate covers begun kept

theorem applyKept {i : Nat} {a : ApplyRun β} {k : Outcome} (kept : Kept s) (found : s.runs[i]? = some a) (inTime : InTime engine s (.go i k))
    (moved : s.applyStep engine i a k = some t) : Kept t := by
  unfold State.applyStep at moved
  cases here : a.stage with
  | load todo got =>
    rw [here] at moved
    cases todo with
    | nil =>
      cases Option.some_inj.mp moved
      exact kept
    | cons u todo =>
      dsimp only at moved
      split at moved
      · cases Option.some_inj.mp moved
        exact kept
      · cases Option.some_inj.mp moved
        exact kept
  | generate c =>
    rw [here] at moved
    cases k with
    | ok =>
      cases Option.some_inj.mp moved
      exact kept
    | failed =>
      cases Option.some_inj.mp moved
      exact kept
    | halfway =>
      cases Option.some_inj.mp moved
      exact kept
  | reload c =>
    rw [here] at moved
    dsimp only at moved
    split at moved
    · cases Option.some_inj.mp moved
      exact kept
    · rename_i real
      split at moved
      · rename_i done
        subst done
        cases Option.some_inj.mp moved
        obtain ⟨previewOnly,stage⟩ := a
        cases here
        simp only [Bool.not_eq_true] at real
        subst real
        unfold InTime at inTime
        simp only [found] at inTime
        exact inTime
      · cases Option.some_inj.mp moved
        exact kept
  | clear =>
    rw [here] at moved
    cases Option.some_inj.mp moved
    intro off
    dsimp only at off
    split at off
    · rename_i done
      subst done
      obtain ⟨previewOnly,stage⟩ := a
      cases here
      unfold InTime at inTime
      simp only [found] at inTime
      exact inTime
    · exact kept off
  | fail =>
    rw [here] at moved
    cases Option.some_inj.mp moved
    intro off
    dsimp only at off
    split at off
    · cases off
    · exact kept off
  | done =>
    rw [here] at moved
    cases moved

theorem stepKept {e : Move β} (kept : Kept s) (inTime : InTime engine s e) (moved : s.step engine e = some t) : Kept t := by
  unfold State.step at moved
  cases e with
  | edit u b =>
    cases Option.some_inj.mp moved
    exact fun off => writeCovers (kept off) List.mem_cons_self (List.subset_cons_self _ _)
  | change e u b =>
    dsimp only at moved
    split at moved <;> try contradiction
    rename_i begun
    cases Option.some_inj.mp moved
    exact fun off => writeCovers (kept off) begun (List.Subset.refl _)
  | markDirty e =>
    dsimp only at moved
    split at moved <;> try contradiction
    cases Option.some_inj.mp moved
    exact nofun
  | saveSettings b =>
    cases Option.some_inj.mp moved
    exact nofun
  | apply previewOnly =>
    cases Option.some_inj.mp moved
    exact kept
  | go i k =>
    dsimp only at moved
    split at moved <;> try contradiction
    rename_i a found
    exact applyKept kept found inTime moved

theorem installedSound {rows : Part → β} : Sound (installed rows) := ⟨nofun,nofun,nofun⟩

end

theorem flagTells {β : Type} {engine : β → Engine} {rows : Part → β} {es : List (Move β)} {t : State β}
    (guided : Guided (State.step engine) (InTime engine) (installed rows) es) (ran : run (State.step engine) (installed rows) es = some t) :
    Tells t := by
  have sound := runKeeps stepSound installedSound ran
  have kept := runGuided stepKept (nofun : Kept (installed rows)) guided ran
  intro off ended
  have covers := kept off
  cases applied : t.applied with
  | none =>
    rw [applied] at covers
    cases covers
  | some c =>
    rw [applied] at covers
    exact ⟨c,rfl,wholeCurrent (sound.applied applied) covers ended⟩

/- An edit, then an Apply. -/
theorem flagTellsEdit : ∃ t, run (State.step (fun _ => .nginx)) (installed (fun _ => 0))
    ([.edit .hosts 1,.markDirty 0,.apply false] ++ List.replicate 9 (.go 0 .ok)) = some t ∧ t.dirty = false ∧ Tells t := by
  let es : List (Move Nat) := [.edit .hosts 1,.markDirty 0,.apply false] ++ List.replicate 9 (.go 0 .ok)
  obtain ⟨t,ran,off⟩ : ∃ t, run (State.step (fun _ => .nginx)) (installed (fun _ => 0)) es = some t ∧ t.dirty = false := ⟨_,rfl,rfl⟩
  exact ⟨t,ran,off,flagTells (by decide) ran⟩

/- An edit between the snapshot of an Apply and its ClearDirty. -/
theorem lostEdit : ¬∀ {rows : Part → Nat} {es : List (Move Nat)} {t : State Nat},
    run (State.step (fun _ => .nginx)) (installed rows) es = some t → Tells t := by
  intro tells
  let es : List (Move Nat) := [.apply false] ++ List.replicate 5 (.go 0 .ok) ++ [.edit .hosts 1,.markDirty 0] ++ List.replicate 4 (.go 0 .ok)
  obtain ⟨t,ran,off,ended,old⟩ : ∃ t, run (State.step (fun _ => .nginx)) (installed (fun _ => 0)) es = some t ∧ t.dirty = false ∧ t.halfDone = [] ∧
      t.applied.map (fun c => decide (Current t c)) = some false :=
    ⟨_,rfl,rfl,rfl,by decide⟩
  obtain ⟨c,applied,current⟩ := tells ran off ended
  rw [applied,Option.map_some,decide_eq_true current] at old
  cases old

end ContainerWS.Proxy.DirtyFlag
