import ContainerWS.Kubernetes.RegistryActive
import Mathlib.Data.Fintype.EquivFin

/-! Whether the kubeconfig that a request sets by its path is the one that is used from there on. The
listings in between point the options at an entry. -/
namespace ContainerWS.Kubernetes.Registry
open GoStrings

structure UpdateBody where
  path : String
  context : String
  activeID : String
  deriving DecidableEq

section
variable (h : Host) (f : Faults)

def contextKnown (path context : String) : Except String Unit :=
  if context = "" then .ok ()
  else match h.contexts path with
  | .error e => .error e
  | .ok names => if context ∈ names then .ok () else .error ("context " ++ context ++ " not found in kubeconfig")

/- By the id of an entry. -/
def updateByID (s : Store) (list : List K8sKey) (activeID context : String) : Store × Option String :=
  match findFile list activeID with
  | none => (s,some ("kubeconfig " ++ activeID ++ " not found"))
  | some entry =>
    if h.FileExists entry.path = false then (s,some ("kubeconfig not found at " ++ entry.path.val))
    else match contextKnown h entry.path context with
    | .error e => (s,some e)
    | .ok _ => activateFile h f s entry context

/- By a path, of an entry or not. -/
def updateByPath (s : Store) (list : List K8sKey) (path context : String) : Store × Option String :=
  if hasPrefix path "/" = false then (s,some "kubeconfig path must be absolute")
  else if h.stat path = false then (s,some ("kubeconfig not found at " ++ path))
  else match contextKnown h path context with
  | .error e => (s,some e)
  | .ok _ =>
    match list.find? (fun k => k.path.val = path) with
    | some entry => activateFile h f s entry context
    | none =>
      if f.setPath then (s,some databaseError)
      else if f.setContext then ({ s with path := path },some databaseError)
      else ({ s with path := path, context := context, activeID := if f.setActive then s.activeID else "" },none)

/- Between two listings; what the second one says of errors is not looked at. -/
def UpdateAPI (again : Faults) (id id' : Text) (body : UpdateBody) (s : Store) : Store × Option String :=
  match ensureSeededRegistry h f id s with
  | (s,.error e) => (s,some e)
  | (s,.ok (list,_)) =>
    let context := trimSpace body.context
    let activeID := trimSpace body.activeID
    let updated := if activeID ≠ "" then updateByID h f s list activeID context
      else updateByPath h f s list (if trimSpace body.path = "" then h.default else trimSpace body.path) context
    match updated with
    | (s,some e) => (s,some e)
    | (s,none) => ((ensureSeededRegistry h again id' s).1,none)

end

structure Listing where
  host : Host
  faults : Faults
  id : Text

def relisted (s : Store) (listings : List Listing) : Store :=
  listings.foldl (fun s l => (ensureSeededRegistry l.host l.faults l.id s).1) s

/- The file can be read, and is a kubeconfig. -/
def Readable (h : Host) (path : String) : Prop := ∃ data, h.ReadFile path = some data ∧ h.ValidateContent data = none

/- The host's own kubeconfig and the one at the path are as they were. -/
structure Agrees (h h' : Host) (path : String) : Prop where
  default : h'.default = h.default
  host : (h'.FileExists h.default ↔ h.FileExists h.default) ∧ (Readable h' h.default ↔ Readable h h.default)
  path : (h'.FileExists path ↔ h.FileExists path) ∧ (Readable h' path ↔ Readable h path)

/- The option with the path can be read. -/
def Faults.Reads (f : Faults) : Prop := f.readPath = false ∧ f.readPathAgain = false

def AtPath (s : Store) (path : String) : Prop := ∃ k ∈ s.keys.rows, k.path.val = path

/- What a listing finds: the entries, what the old option has where there are none, and the kubeconfig that it
adds. -/
def Registered (h : Host) (f : Faults) (s : Store) (path : String) : Prop :=
  AtPath s path ∨ (s.keys.rows = [] ∧ ∃ e ∈ s.files, trimSpace e.id ≠ "" ∧ trimSpace e.path = path ∧ path ≠ "") ∨
    (h.FileExists (seedPath h f s) = true ∧ Readable h (seedPath h f s) ∧ trimSpace (seedPath h f s) = path)

/- The path is registered, or none is, or the host has no kubeconfig of its own and the one at the path becomes
an entry. -/
def Lasts (h : Host) (f : Faults) (s : Store) (path : String) : Prop :=
  Registered h f s path ∨ (∀ other, ¬Registered h f s other) ∨ (h.FileExists h.default = false ∧ Readable h path)

/- The settings are what was asked for, whatever LoadSettings finds on the host. -/
def Loads (s : Store) (path context : String) : Prop :=
  ∀ h, ∃ settings, LoadSettings h {} s = .ok settings ∧ settings.path = path ∧ settings.context = context

section
variable {h h' : Host} {f : Faults} {s s' : Store} {k : K8sKey} {path context : String}

theorem loadsActive (mem : k ∈ s.keys.rows) (named : s.activeID = k.id) (trimmed_ : trimSpace s.context = context) :
    Loads s k.path context := by
  intro h
  have active : activeFileID s = k.id := by rw [activeFileID,named,activeTrimmed]
  have found : rowOf s s.activeID = some k := by
    unfold rowOf
    cases first : s.keys.rows.find? (fun j => j.id.val = trimSpace s.activeID) with
    | none =>
      have other := List.find?_eq_none.mp first k mem
      rw [named,activeTrimmed] at other
      simp at other
    | some j =>
      have same := List.find?_some first
      rw [named,activeTrimmed] at same
      rw [sameID (List.mem_of_find?_eq_some first) mem (Subtype.ext (of_decide_eq_true same))]
  refine ⟨_,rfl,?_,trimmed_⟩
  dsimp only
  rw [active,if_neg (by simp [idFilled k]),found]
  dsimp only [Host.ResolvePath]
  rw [k.path.property.1,if_neg k.path.property.2]

theorem loadsBlank (blank : s.activeID = "") (at_ : s.path = path) (trimmed_ : trimSpace s.context = context) (own : trimSpace path = path)
    (filled : path ≠ "") : Loads s path context := by
  intro h
  have active : activeFileID s = "" := by
    rw [activeFileID,blank]
    decide
  refine ⟨_,rfl,?_,trimmed_⟩
  dsimp only
  rw [active,if_pos (.inl rfl),at_]
  dsimp only [Host.ResolvePath]
  rw [own,if_neg filled]

/- Of an entry at another path. -/
theorem loadsOther (mem : k ∈ s.keys.rows) (named : s.activeID = k.id) (other : k.path.val ≠ path) : ¬Loads s path context := by
  intro loads
  obtain ⟨settings,loaded,here,_⟩ := loads plainHost
  obtain ⟨settings',loaded',here',_⟩ := loadsActive mem named rfl plainHost
  cases Except.ok.inj (loaded.symm.trans loaded')
  exact other (here'.symm.trans here)

theorem hostKeySome (id : Text) :
    (∃ row, hostKey h f id s = some row) ↔ Readable h (seedPath h f s) := by
  unfold hostKey Readable
  cases h.ReadFile (seedPath h f s) with
  | none => exact iff_of_false (by rintro ⟨row,⟨⟩⟩) (by rintro ⟨data,⟨⟩,_⟩)
  | some data =>
    dsimp only
    cases valid : h.ValidateContent data with
    | none => exact iff_of_true ⟨_,rfl⟩ ⟨data,rfl,valid⟩
    | some e =>
      refine iff_of_false (by rintro ⟨row,⟨⟩⟩) ?_
      rintro ⟨data',⟨⟩,valid'⟩
      rw [valid] at valid'
      cases valid'

theorem hostKeyPath {id : Text} {row : K8sKey} (made : hostKey h f id s = some row) :
    row.path.val = trimSpace (seedPath h f s) ∧ row.id = id := by
  unfold hostKey at made
  split at made
  · cases made
  · split at made
    · cases made
    · cases Option.some.inj made
      exact ⟨rfl,rfl⟩

/-! What a listing leaves of the entries. -/

theorem changedPath (id : Text) (name secret : String) (k : K8sKey) : (changed id name secret k).path = k.path := by
  unfold changed
  split <;> rfl

theorem backfillAt (existing : K8sKey) (path : String) : AtPath (backfill h f s existing) path ↔ AtPath s path := by
  unfold backfill
  split
  · rfl
  · split
    · rfl
    · split
      · rfl
      · unfold AtPath Keys.change
        simp only [List.mem_map,exists_exists_and_eq_and,changedPath]

theorem addedAt {keys : Keys} {fails : Bool} (inserted : (if fails then none else s.keys.insert k) = some keys) (path : String) :
    AtPath { s with keys := keys } path ↔ AtPath s path ∨ k.path.val = path := by
  unfold AtPath
  dsimp only
  rw [addedRows inserted]
  simp only [List.mem_append,List.mem_singleton,or_and_right,exists_or,exists_eq_left]

/- The old option has been taken in. -/
theorem legacyAt {list : List (Legacy × Nat)} (done : addLegacy h f s list = (s',none)) (path : String) :
    AtPath s' path ↔ AtPath s path ∨ ∃ e ∈ list.map Prod.fst, trimSpace e.id ≠ "" ∧ trimSpace e.path = path ∧ path ≠ "" := by
  induction list generalizing s with
  | nil =>
    cases done
    simp
  | cons e rest ih =>
    obtain ⟨e,n⟩ := e
    rw [List.map_cons,List.exists_mem_cons_iff]
    unfold addLegacy at done
    split at done
    · rename_i filled
      dsimp only at done
      split at done
      · cases done
      · rename_i keys inserted
        rw [ih done,addedAt inserted,or_assoc]
        refine or_congr_right (or_congr_left ?_)
        constructor
        · intro same
          exact ⟨filled.1,same,same ▸ filled.2⟩
        · rintro ⟨_,same,_⟩
          exact same
    · rename_i blank
      rw [ih done]
      refine or_congr_right (or_iff_right ?_).symm
      rintro ⟨id,rfl,path⟩
      exact blank ⟨id,path⟩

theorem migratedAt (done : migrateLegacyOptionsRegistry h f s = (s',none)) (path : String) :
    AtPath s' path ↔ AtPath s path ∨ (s.keys.rows = [] ∧ ∃ e ∈ s.files, trimSpace e.id ≠ "" ∧ trimSpace e.path = path ∧ path ≠ "") := by
  unfold migrateLegacyOptionsRegistry at done
  split at done
  · cases done
  · split at done
    · rename_i some_
      cases done
      exact (or_iff_left (fun old => some_ old.1)).symm
    · rename_i empty
      split at done
      · cases done
      · rw [legacyAt done path,List.zipIdx_map_fst,and_iff_right (not_not.mp empty)]

theorem migratedOptions (done : migrateLegacyOptionsRegistry h f s = (s',none)) :
    s'.files = s.files ∧ seedPath h f s' = seedPath h f s := by
  obtain ⟨keys,kept⟩ := migrateKeeps h f s
  rw [done] at kept
  cases kept
  exact ⟨rfl,rfl⟩

theorem firstNone (none : firstAt s path = none) : ¬AtPath s path := by
  rintro ⟨k,mem,at_⟩
  have empty := List.argmin_eq_none.mp none
  have here : k ∈ s.keys.rows.filter (fun k => k.path.val = path) := List.mem_filter.mpr ⟨mem,by simpa using at_⟩
  rw [empty] at here
  cases here

theorem firstPath (found : firstAt s path = some k) : k.path.val = path := by
  simpa using (List.mem_filter.mp (List.argmin_mem found)).2

theorem pointedRows (key : K8sKey) : (ensureActivePointsAtKey f s key).1.keys = s.keys ∧ (ensureActivePointsAtKey f s key).1.files = s.files := by
  unfold ensureActivePointsAtKey
  split
  · exact ⟨rfl,rfl⟩
  · dsimp only
    split
    · exact ⟨rfl,rfl⟩
    · split
      · exact ⟨rfl,rfl⟩
      · split <;> split <;> exact ⟨rfl,rfl⟩

/- The host's kubeconfig is an entry, where it is one at all. -/
theorem hostAt {id : Text} (done : seedHost h f id s = (s',none)) :
    s'.files = s.files ∧ ∀ path, AtPath s' path ↔ AtPath s path ∨
      (h.FileExists (seedPath h f s) = true ∧ Readable h (seedPath h f s) ∧ trimSpace (seedPath h f s) = path) := by
  unfold seedHost at done
  split at done
  · rename_i missing
    cases done
    refine ⟨rfl,fun path => (or_iff_left ?_).symm⟩
    rintro ⟨there,_⟩
    rw [missing] at there
    cases there
  · rename_i there
    split at done
    · cases done
    · split at done
      · rename_i existing found
        have rows := pointedRows (f := f) (s := backfill h f s existing) existing
        obtain ⟨keys,filling,_⟩ := backfillKept h f s existing
        rw [done] at rows
        refine ⟨rows.2.trans (by rw [filling]),fun path => ?_⟩
        have same : AtPath s' path ↔ AtPath s path := by
          rw [← backfillAt (h := h) (f := f) (s := s) existing path]
          unfold AtPath
          rw [show s'.keys = _ from rows.1]
        rw [same]
        refine (or_iff_left_of_imp ?_).symm
        rintro ⟨_,_,rfl⟩
        refine ⟨existing,firstMem found,?_⟩
        rw [← firstPath found,existing.path.property.1]
      · split at done
        · rename_i none
          cases done
          refine ⟨rfl,fun path => (or_iff_left ?_).symm⟩
          rintro ⟨_,readable,_⟩
          obtain ⟨row,made⟩ := (hostKeySome id).mpr readable
          rw [none] at made
          cases made
        · rename_i row made
          split at done
          · cases done
          · rename_i keys inserted
            have rows := pointedRows (f := f) (s := { s with keys := keys }) row.BeforeCreate
            rw [done] at rows
            refine ⟨rows.2,fun path => ?_⟩
            have same : AtPath s' path ↔ AtPath { s with keys := keys } path := by
              unfold AtPath
              rw [show s'.keys = _ from rows.1]
            rw [same,addedAt inserted,show row.BeforeCreate.path.val = _ from (hostKeyPath made).1]
            rw [Bool.not_eq_false] at there
            rw [and_iff_right there,and_iff_right ((hostKeySome id).mp ⟨row,made⟩)]

theorem listedRows {list : List K8sKey} {active : String} (done : listed h f s = (s',.ok (list,active))) :
    list = loadRegistry s' ∧ s'.keys = s.keys ∧ s'.files = s.files := by
  unfold listed at done
  split at done
  · cases done
  · dsimp only at done
    split at done
    · cases done
      exact ⟨rfl,rfl,rfl⟩
    · unfold pointAtEntry at done
      dsimp only at done
      split at done
      · cases done
        refine ⟨?_,?_,?_⟩ <;> split <;> rfl
      · split at done
        · cases done
          exact ⟨rfl,rfl,rfl⟩
        · cases done
          refine ⟨?_,?_,?_⟩ <;> split <;> split <;> rfl

/- The entries after a listing are what was registered before. -/
theorem listingAt {id : Text} {list : List K8sKey} {active : String} (done : ensureSeededRegistry h f id s = (s',.ok (list,active))) :
    list = loadRegistry s' ∧ s'.files = s.files ∧ ∀ path, AtPath s' path ↔ Registered h f s path := by
  unfold ensureSeededRegistry SeedMissingFromUserProfile at done
  rcases migrated : migrateLegacyOptionsRegistry h f s with ⟨s₁,_ | e⟩
  · rw [migrated] at done
    dsimp only at done
    rcases seeded : seedHost h f id s₁ with ⟨s₂,_ | e⟩
    · rw [seeded] at done
      obtain ⟨same,rows,files⟩ := listedRows done
      obtain ⟨files₁,path₁⟩ := migratedOptions migrated
      obtain ⟨files₂,at₂⟩ := hostAt seeded
      refine ⟨same,files.trans (files₂.trans files₁),fun path => ?_⟩
      have here : AtPath s' path ↔ AtPath s₂ path := by
        unfold AtPath
        rw [rows]
      rw [here,at₂,migratedAt migrated,path₁,or_assoc]
      rfl
    · rw [seeded] at done
      cases done
  · rw [migrated] at done
    cases done

/-! The settings are kept. -/

/- No entry is active yet, and none but one at the path can be made so by a listing that follows. -/
structure Pending (h : Host) (path : String) (s : Store) : Prop where
  blank : s.activeID = ""
  set_ : s.path = path
  legacy : s.keys.rows = [] → ∀ e ∈ s.files, ¬(trimSpace e.id ≠ "" ∧ trimSpace e.path ≠ "")
  default : h.FileExists h.default = true → s.keys.rows = [] ∧ ¬Readable h h.default
  own : h.FileExists h.default = false → s.keys.rows = [] ∨ AtPath s path ∨ (h.FileExists path = true ∧ Readable h path)

def Held (h : Host) (path context : String) (s : Store) : Prop :=
  trimSpace s.context = context ∧ ((∃ k ∈ s.keys.rows, s.activeID = k.id ∧ k.path.val = path) ∨ Pending h path s)

theorem pendingAgrees (agrees : Agrees h h' path) : Pending h' path s ↔ Pending h path s := by
  obtain ⟨default,⟨exists_,readable⟩,⟨there,own⟩⟩ := agrees
  have missing : h'.FileExists h.default = false ↔ h.FileExists h.default = false := by
    rw [← Bool.not_eq_true,← Bool.not_eq_true,exists_]
  constructor
  · rintro ⟨blank,at_,legacy,host,rest⟩
    rw [default,exists_,readable] at host
    rw [default,missing,there,own] at rest
    exact ⟨blank,at_,legacy,host,rest⟩
  · rintro ⟨blank,at_,legacy,host,rest⟩
    refine ⟨blank,at_,legacy,?_,?_⟩
    · rw [default,exists_,readable]
      exact host
    · rw [default,missing,there,own]
      exact rest

theorem heldLoads (held : Held h path context s) (own : trimSpace path = path) (filled : path ≠ "") : Loads s path context := by
  obtain ⟨same,⟨k,mem,active,rfl⟩ | pending⟩ := held
  · exact loadsActive mem active same
  · exact loadsBlank pending.blank pending.set_ same own filled

theorem legacyNone {list : List (Legacy × Nat)} (blank : ∀ e ∈ list, ¬(trimSpace e.1.id ≠ "" ∧ trimSpace e.1.path ≠ "")) :
    addLegacy h f s list = (s,none) := by
  induction list with
  | nil => rfl
  | cons e rest ih =>
    obtain ⟨e,n⟩ := e
    unfold addLegacy
    rw [dif_neg (blank (e,n) List.mem_cons_self)]
    exact ih (fun e mem => blank e (List.mem_cons_of_mem _ mem))

theorem migratedSame (legacy : s.keys.rows = [] → ∀ e ∈ s.files, ¬(trimSpace e.id ≠ "" ∧ trimSpace e.path ≠ "")) :
    (migrateLegacyOptionsRegistry h f s).1 = s := by
  unfold migrateLegacyOptionsRegistry
  split
  · rfl
  · split
    · rfl
    · rename_i empty
      split
      · rfl
      · rw [legacyNone]
        rintro ⟨e,n⟩ mem
        exact legacy (not_not.mp empty) e (List.fst_mem_of_mem_zipIdx mem)

theorem activeNone (blank : s.activeID = "") : activeFileID s = "" := by
  rw [activeFileID,blank]
  decide

theorem pendingAt {keys : Keys} (pending : Pending h path s) (missing : h.FileExists h.default = false)
    (at_ : AtPath { s with keys := keys } path) : Pending h path { s with keys := keys } := by
  obtain ⟨k,mem,_⟩ := id at_
  refine ⟨pending.blank,pending.set_,?_,?_,fun _ => .inr (.inl at_)⟩
  · intro empty
    exact absurd empty (List.ne_nil_of_mem mem)
  · intro there
    rw [missing] at there
    cases there

section
variable (own : trimSpace path = path) (filled : path ≠ "")
include own filled

theorem resolvedOwn (h : Host) : h.ResolvePath path = path := by
  unfold Host.ResolvePath
  rw [own,if_neg filled]

/- There are no entries, or there is one at the path. -/
theorem listedPending (pending : Pending h path s) (same : trimSpace s.context = context) (reads : f.readPathAgain = false)
    (at_ : s.keys.rows = [] ∨ AtPath s path) : Held h path context (listed h f s).1 := by
  have held : Held h path context s := ⟨same,.inr pending⟩
  have resolved : h.ResolvePath (if f.readPathAgain = true then "" else s.path) = path := by
    rw [reads,if_neg (by decide),pending.set_,resolvedOwn own filled h]
  rcases at_ with empty | ⟨j,there,place⟩
  · rw [listedEmpty empty]
    exact held
  · unfold listed
    split
    · exact held
    · dsimp only
      rw [if_neg]
      · unfold pointAtEntry
        dsimp only
        rw [resolved]
        cases found : (loadRegistry s).find? (fun k => k.path.val = path) with
        | some k =>
          dsimp only
          split
          · exact held
          · obtain ⟨j,mem,id,at_⟩ := loadedMem (List.mem_of_find?_eq_some found)
            have here := List.find?_some found
            refine ⟨same,.inl ⟨j,mem,congrArg Subtype.val id.symm,?_⟩⟩
            rw [at_]
            exact of_decide_eq_true here
        | none =>
          have none_ := List.find?_eq_none.mp found (keyToMeta j) (List.mem_map_of_mem there)
          rw [(metaSame j).2,place] at none_
          simp at none_
      · rw [not_or,not_not,loadedNone]
        exact ⟨List.ne_nil_of_mem there,activeNone pending.blank⟩

/- The entry that has been looked up or added is one at the path. -/
theorem pointsPending (pending : Pending h path s) (same : trimSpace s.context = context) (reads : f.readPathAgain = false)
    (mem : ∃ j ∈ s.keys.rows, j.id = k.id ∧ j.path = k.path) (at_ : k.path.val = path) :
    Held h path context (ended h f (ensureActivePointsAtKey f s k)) := by
  obtain ⟨j,there,id,place⟩ := mem
  have set_ : ({ s with path := k.path } : Store) = s := by
    rw [at_,← pending.set_]
  have active : ∃ j ∈ s.keys.rows, j.path.val = path := ⟨j,there,by rw [place,at_]⟩
  have blank := activeNone pending.blank
  unfold ensureActivePointsAtKey
  split
  · exact ⟨same,.inr pending⟩
  · dsimp only
    rw [blank,if_neg (by simp),if_neg (by simp)]
    cases f.setActive with
    | true =>
      have stays : (if f.setPath = true then s else { s with path := k.path.val }) = s := by
        split
        · rfl
        · exact set_
      simp only [if_true]
      rw [stays]
      exact listedPending own filled pending same reads (.inr active)
    | false =>
      have stays : (if f.setPath = true then { s with activeID := k.id.val } else { s with activeID := k.id.val, path := k.path.val }) =
          ({ s with activeID := k.id } : Store) := by
        split
        · rfl
        · rw [at_,← pending.set_]
      simp only [Bool.false_eq_true,if_false]
      rw [stays]
      dsimp only [ended]
      rw [listedActive]
      · exact ⟨same,.inl ⟨j,there,congrArg Subtype.val id.symm,by rw [place,at_]⟩⟩
      · rw [activeFileID,activeTrimmed]
        exact idFilled k

/- The host's own kubeconfig is none. -/
theorem hostPending {id : Text} (pending : Pending h path s) (same : trimSpace s.context = context) (reads : f.Reads)
    (there : h.FileExists h.default = true) : Held h path context (ended h f (seedHost h f id s)) := by
  obtain ⟨empty,unreadable⟩ := pending.default there
  have seed : seedPath h f s = h.default := by
    unfold seedPath
    rw [if_pos there]
  unfold seedHost
  rw [seed,if_neg (by simp [there])]
  split
  · exact ⟨same,.inr pending⟩
  · split
    · rename_i existing found
      have mem := firstMem found
      rw [empty] at mem
      cases mem
    · split
      · exact listedPending own filled pending same reads.2 (.inl empty)
      · rename_i row made
        have readable := (hostKeySome id).mp ⟨row,made⟩
        rw [seed] at readable
        exact absurd readable unreadable

/- It is the one at the path that is looked up. -/
theorem ownPending {id : Text} (pending : Pending h path s) (same : trimSpace s.context = context) (reads : f.Reads)
    (missing : h.FileExists h.default = false) : Held h path context (ended h f (seedHost h f id s)) := by
  have seed : seedPath h f s = path := by
    unfold seedPath
    rw [if_neg (by simp [missing]),if_neg (by simp [reads.1]),pending.set_,resolvedOwn own filled h]
  have rest := pending.own missing
  unfold seedHost
  rw [seed]
  split
  · rename_i gone
    refine listedPending own filled pending same reads.2 (rest.imp_right fun either => either.resolve_right ?_)
    rintro ⟨there,_⟩
    rw [gone] at there
    cases there
  · split
    · exact ⟨same,.inr pending⟩
    · split
      · rename_i existing found
        obtain ⟨keys,filling,kept⟩ := backfillKept h f s existing
        have here := kept existing (firstMem found)
        have at_ := firstPath found
        rw [filling]
        refine pointsPending (s := { s with keys := keys }) own filled (pendingAt pending missing ?_) same reads.2 here at_
        obtain ⟨j,mem,_,place⟩ := here
        exact ⟨j,mem,by rw [place,at_]⟩
      · rename_i absent
        split
        · rename_i none
          refine listedPending own filled pending same reads.2 (.inl (rest.resolve_right ?_))
          rintro (at_ | ⟨_,readable⟩)
          · exact firstNone absent at_
          · rw [← seed] at readable
            obtain ⟨row,made⟩ := (hostKeySome id).mpr readable
            rw [none] at made
            cases made
        · rename_i row made
          split
          · exact ⟨same,.inr pending⟩
          · rename_i keys inserted
            have at_ : row.BeforeCreate.path.val = path := (hostKeyPath made).1.trans (by rw [seed,own])
            refine pointsPending (s := { s with keys := keys }) own filled (pendingAt pending missing ?_) same reads.2 ?_ at_
            · exact (addedAt inserted path).mpr (.inr at_)
            · refine ⟨row.BeforeCreate,?_,rfl,rfl⟩
              rw [addedRows inserted]
              exact List.mem_append_right _ List.mem_cons_self

/- One listing. -/
theorem heldListing (id : Text) (held : Held h path context s) (reads : f.Reads) : Held h path context (ensureSeededRegistry h f id s).1 := by
  obtain ⟨same,⟨k,mem,active,at_⟩ | pending⟩ := held
  · obtain ⟨keys,left,kept⟩ := seedActive (h := h) (f := f) id mem active
    obtain ⟨j,there,id',place⟩ := kept k mem
    rw [left]
    refine ⟨same,.inl ⟨j,there,?_,?_⟩⟩
    · rw [id']
      exact active
    · rw [place]
      exact at_
  · have migrated := migratedSame (h := h) (f := f) pending.legacy
    rw [seededEnded,SeedMissingFromUserProfile]
    rcases first : migrateLegacyOptionsRegistry h f s with ⟨s',_ | e⟩
    · rw [first] at migrated
      have here : s' = s := migrated
      subst here
      cases there : h.FileExists h.default with
      | true => exact hostPending own filled pending same reads there
      | false => exact ownPending own filled pending same reads there
    · rw [first] at migrated
      have here : s' = s := migrated
      subst here
      exact ⟨same,.inr pending⟩

theorem heldRelisted {ls : List Listing} (held : Held h path context s) (kept : ∀ l ∈ ls, Agrees h l.host path ∧ l.faults.Reads) :
    Held h path context (relisted s ls) := by
  induction ls generalizing s with
  | nil => exact held
  | cons l rest ih =>
    obtain ⟨agrees,reads⟩ := kept l List.mem_cons_self
    refine ih ?_ (fun l mem => kept l (List.mem_cons_of_mem _ mem))
    have there : Held l.host path context s := ⟨held.1,held.2.imp_right (pendingAgrees agrees).mpr⟩
    have after := heldListing own filled l.id there reads
    exact ⟨after.1,after.2.imp_right (pendingAgrees agrees).mp⟩

end
end

/-! The settings are lost. -/

/- No entry is at the path, and no listing adds one. -/
structure Elsewhere (h : Host) (path : String) (s : Store) : Prop where
  some_ : s.keys.rows ≠ []
  none : ¬AtPath s path
  active : s.activeID = "" ∨ ∃ k ∈ s.keys.rows, s.activeID = k.id
  host : h.FileExists h.default = true → Readable h h.default → trimSpace h.default ≠ path
  own : h.FileExists h.default = false → ¬Readable h path

section
variable {h : Host} {f : Faults} {s : Store} {k : K8sKey} {path : String}

theorem elsewhereRows {keys : Keys} (elsewhere : Elsewhere h path s)
    (kept : ∀ k ∈ s.keys.rows, ∃ j ∈ keys.rows, j.id = k.id ∧ j.path = k.path) (none : ¬AtPath { s with keys := keys } path) :
    Elsewhere h path { s with keys := keys } := by
  refine ⟨?_,none,elsewhere.active.imp_right ?_,elsewhere.host,elsewhere.own⟩
  · obtain ⟨k,mem⟩ := List.exists_mem_of_ne_nil _ elsewhere.some_
    obtain ⟨j,there,_⟩ := kept k mem
    exact List.ne_nil_of_mem there
  · rintro ⟨k,mem,active⟩
    obtain ⟨j,there,id,_⟩ := kept k mem
    exact ⟨j,there,active.trans (congrArg Subtype.val id.symm)⟩

theorem elsewherePath (elsewhere : Elsewhere h path s) (path' : String) : Elsewhere h path { s with path := path' } :=
  ⟨elsewhere.some_,elsewhere.none,elsewhere.active,elsewhere.host,elsewhere.own⟩

theorem elsewhereActive (elsewhere : Elsewhere h path s) (mem : ∃ j ∈ s.keys.rows, j.id = k.id ∧ j.path = k.path) :
    Elsewhere h path { s with activeID := k.id } := by
  obtain ⟨j,there,id,_⟩ := mem
  exact ⟨elsewhere.some_,elsewhere.none,.inr ⟨j,there,congrArg Subtype.val id.symm⟩,elsewhere.host,elsewhere.own⟩

theorem listedElsewhere (elsewhere : Elsewhere h path s) : Elsewhere h path (listed h f s).1 := by
  unfold listed
  split
  · exact elsewhere
  · dsimp only
    split
    · exact elsewhere
    · unfold pointAtEntry
      dsimp only
      split
      · rename_i k found
        dsimp only
        split
        · exact elsewhere
        · exact elsewhereActive elsewhere (loadedMem (List.mem_of_find?_eq_some found))
      · split
        · exact elsewhere
        · rename_i first rest rows
          have mem := loadedMem (s := s) (k := first) (by rw [rows]; exact List.mem_cons_self)
          dsimp only
          split <;> split
          · exact elsewhere
          · exact elsewhereActive elsewhere mem
          · exact elsewherePath elsewhere _
          · exact elsewherePath (elsewhereActive elsewhere mem) _

theorem pointedElsewhere (elsewhere : Elsewhere h path s) (mem : ∃ j ∈ s.keys.rows, j.id = k.id ∧ j.path = k.path) :
    Elsewhere h path (ensureActivePointsAtKey f s k).1 := by
  unfold ensureActivePointsAtKey
  split
  · exact elsewhere
  · dsimp only
    split
    · exact elsewhere
    · split
      · exact elsewhere
      · dsimp only
        split <;> split
        · exact elsewhere
        · exact elsewhereActive elsewhere mem
        · exact elsewherePath elsewhere _
        · exact elsewherePath (elsewhereActive elsewhere mem) _

/- The path is not the one that is seeded from, where a kubeconfig is found there. -/
theorem seedElsewhere (elsewhere : Elsewhere h path s) (own : trimSpace path = path) (filled : path ≠ "")
    (readable : Readable h (seedPath h f s)) : trimSpace (seedPath h f s) ≠ path := by
  intro same
  have asked : h.ResolvePath (seedPath h f s) = path := by
    unfold Host.ResolvePath
    rw [same,if_neg filled]
  cases default : h.FileExists h.default with
  | true =>
    have seed : seedPath h f s = h.default := by
      unfold seedPath
      rw [if_pos default]
    rw [seed] at same readable
    exact elsewhere.host default readable same
  | false =>
    refine elsewhere.own default ?_
    unfold Readable Host.ReadFile at readable ⊢
    rwa [resolvedOwn own filled h,← asked]

theorem hostElsewhere (f : Faults) (id : Text) (elsewhere : Elsewhere h path s) (own : trimSpace path = path) (filled : path ≠ "") :
    Elsewhere h path (seedHost h f id s).1 := by
  unfold seedHost
  split
  · exact elsewhere
  · split
    · exact elsewhere
    · split
      · rename_i existing found
        have none := elsewhere.none
        rw [← backfillAt (h := h) (f := f) existing] at none
        obtain ⟨keys,filling,kept⟩ := backfillKept h f s existing
        rw [filling] at none ⊢
        exact pointedElsewhere (elsewhereRows elsewhere kept none) (kept existing (firstMem found))
      · split
        · exact elsewhere
        · rename_i row made
          split
          · exact elsewhere
          · rename_i keys inserted
            have rows := addedRows inserted
            refine pointedElsewhere (elsewhereRows elsewhere ?_ ?_) ⟨row.BeforeCreate,by rw [rows]; exact List.mem_append_right _ List.mem_cons_self,rfl,rfl⟩
            · intro k mem
              exact ⟨k,by rw [rows]; exact List.mem_append_left _ mem,rfl,rfl⟩
            · rw [addedAt inserted]
              rintro (at_ | at_)
              · exact elsewhere.none at_
              · refine seedElsewhere elsewhere own filled ((hostKeySome id).mp ⟨row,made⟩) ?_
                exact (hostKeyPath made).1.symm.trans at_

theorem migratedFilled (some_ : s.keys.rows ≠ []) : (migrateLegacyOptionsRegistry h f s).1 = s :=
  migratedSame (fun empty => absurd empty some_)

theorem elsewhereListing (f : Faults) (id : Text) (elsewhere : Elsewhere h path s) (own : trimSpace path = path) (filled : path ≠ "") :
    Elsewhere h path (ensureSeededRegistry h f id s).1 := by
  have migrated := migratedFilled (h := h) (f := f) elsewhere.some_
  rw [seededEnded,SeedMissingFromUserProfile]
  rcases first : migrateLegacyOptionsRegistry h f s with ⟨s',_ | e⟩
  · rw [first] at migrated
    have here : s' = s := migrated
    subst here
    have seeded := hostElsewhere f id elsewhere own filled
    dsimp only
    rcases second : seedHost h f id s' with ⟨s'',_ | e⟩
    · rw [second] at seeded
      exact listedElsewhere seeded
    · rw [second] at seeded
      exact seeded
  · rw [first] at migrated
    have here : s' = s := migrated
    subst here
    exact elsewhere

/- There is an id that no row has or had. -/
theorem freshID (taken : List Text) : ∃ id : Text, id ∉ taken := by
  have solid : ∀ n, trimSpace (String.ofList (List.replicate (n + 1) 'a')) = String.ofList (List.replicate (n + 1) 'a') ∧
      String.ofList (List.replicate (n + 1) 'a') ≠ "" := by
    intro n
    constructor
    · apply trimSpaceSelf
      intro c mem
      rw [String.toList_ofList] at mem
      rw [List.eq_of_mem_replicate mem]
      decide
    · intro blank
      have chars := congrArg String.toList blank
      rw [String.toList_ofList] at chars
      cases chars
  have distinct : Function.Injective (fun n : Nat => (⟨_,solid n⟩ : Text)) := by
    intro m n same
    have chars := congrArg (fun t : Text => t.val.toList.length) same
    simpa using chars
  have infinite : Infinite Text := Infinite.of_injective _ distinct
  obtain ⟨id,free⟩ := Infinite.exists_notMem_finset taken.toFinset
  exact ⟨id,fun mem => free (List.mem_toFinset.mpr mem)⟩

theorem listedSettles (some_ : s.keys.rows ≠ []) : (listed h {} s).1.activeID ≠ "" := by
  have left := loadedNone.not.mpr some_
  unfold listed
  rw [if_neg (by simp)]
  dsimp only
  split
  · rename_i active
    intro blank
    exact active.resolve_left left (activeNone blank)
  · unfold pointAtEntry
    dsimp only
    split
    · exact idFilled _
    · split
      · contradiction
      · exact idFilled _

theorem pointedNone : (ensureActivePointsAtKey {} s k).2 = none := by
  unfold ensureActivePointsAtKey
  rw [if_neg (by simp)]
  dsimp only
  rw [if_neg (by simp)]
  split <;> rfl

/- Nothing but the id of a new row could be refused. -/
theorem hostNone {id : Text} (free : id ∉ s.keys.rows.map K8sKey.id ++ s.keys.deleted) : (seedHost h {} id s).2 = none := by
  unfold seedHost
  split
  · rfl
  · rw [if_neg (by simp)]
    split
    · exact pointedNone
    · split
      · rfl
      · rename_i row made
        split
        · rename_i refused
          have same : row.BeforeCreate.id = id := (hostKeyPath made).2
          rw [if_neg (by simp),Keys.insert,dif_neg (by rw [same]; exact free)] at refused
          cases refused
        · exact pointedNone

/- A listing that succeeds leaves an entry active. -/
theorem settles {id : Text} (elsewhere : Elsewhere h path s) (own : trimSpace path = path) (filled : path ≠ "")
    (free : id ∉ s.keys.rows.map K8sKey.id ++ s.keys.deleted) :
    ∃ k ∈ (ensureSeededRegistry h {} id s).1.keys.rows, (ensureSeededRegistry h {} id s).1.activeID = k.id ∧ k.path.val ≠ path := by
  have after := elsewhereListing {} id elsewhere own filled
  have active : (ensureSeededRegistry h {} id s).1.activeID ≠ "" := by
    have migrated : migrateLegacyOptionsRegistry h {} s = (s,none) := by
      unfold migrateLegacyOptionsRegistry
      rw [if_neg (by simp),if_pos elsewhere.some_]
    have seeded := hostElsewhere {} id elsewhere own filled
    have done := hostNone (h := h) free
    rw [seededEnded,SeedMissingFromUserProfile,migrated]
    dsimp only
    rcases second : seedHost h {} id s with ⟨s',e⟩
    rw [second] at seeded done
    have none_ : e = none := done
    subst none_
    exact listedSettles seeded.some_
  obtain ⟨k,mem,named⟩ := after.active.resolve_left active
  exact ⟨k,mem,named,fun at_ => after.none ⟨k,mem,at_⟩⟩

end
/-! The update. -/
section
variable {h : Host} {f : Faults} {id id' : Text} {body : UpdateBody} {s s₁ s₂ : Store} {list : List K8sKey} {path context : String}

theorem activateDone {entry : K8sKey} (done : activateFile h f s entry context = (s₁,none)) :
    s₁ = { s with activeID := entry.id, path := entry.path, context := trimSpace context } := by
  unfold activateFile at done
  split at done
  · cases done
  · split at done
    · cases done
    · split at done
      · cases done
      · split at done
        · cases done
        · cases done
          rfl

/- The settings are written, with the entry at the path or with none. -/
theorem pathDone (written : f.setActive = false) (done : updateByPath h f s list path context = (s₁,none)) :
    h.stat path = true ∧ ((∃ entry ∈ list, entry.path.val = path ∧ s₁ = { s with activeID := entry.id, path := path, context := trimSpace context }) ∨
      ((∀ k ∈ list, k.path.val ≠ path) ∧ s₁ = { s with activeID := "", path := path, context := context })) := by
  unfold updateByPath at done
  split at done
  · cases done
  · split at done
    · cases done
    · rename_i there
      refine ⟨Bool.not_eq_false _ ▸ there,?_⟩
      split at done
      · cases done
      · split at done
        · rename_i entry found
          have here := List.find?_some found
          have at_ : entry.path.val = path := of_decide_eq_true here
          refine .inl ⟨entry,List.mem_of_find?_eq_some found,at_,?_⟩
          rw [activateDone done,at_]
        · rename_i absent
          split at done
          · cases done
          · split at done
            · cases done
            · rw [written] at done
              cases done
              refine .inr ⟨?_,rfl⟩
              intro k mem at_
              exact List.find?_eq_none.mp absent k mem (decide_eq_true at_)

theorem updateDone {again : Faults} (byPath : trimSpace body.activeID = "") (filled : trimSpace body.path ≠ "")
    (accepted : (UpdateAPI h f again id id' body s).2 = none) :
    ∃ s₁ list active s₂, ensureSeededRegistry h f id s = (s₁,.ok (list,active)) ∧
      updateByPath h f s₁ list (trimSpace body.path) (trimSpace body.context) = (s₂,none) ∧
      (UpdateAPI h f again id id' body s).1 = (ensureSeededRegistry h again id' s₂).1 := by
  unfold UpdateAPI at accepted ⊢
  rcases listed : ensureSeededRegistry h f id s with ⟨s₁,e | ⟨list,active⟩⟩
  · rw [listed] at accepted
    cases accepted
  · rw [listed] at accepted
    dsimp only at accepted ⊢
    rw [if_neg (not_not.mpr byPath),if_neg filled] at accepted ⊢
    rcases updated : updateByPath h f s₁ list (trimSpace body.path) (trimSpace body.context) with ⟨s₂,_ | e⟩
    · exact ⟨s₁,list,active,s₂,rfl,updated,rfl⟩
    · rw [updated] at accepted
      cases accepted

theorem absoluteFilled (absolute : hasPrefix path "/" = true) : path ≠ "" := by
  rintro rfl
  cases absolute

/- Nothing was registered before. -/
theorem unregistered (none : ∀ other, ¬Registered h f s other) :
    s.keys.rows = [] ∧ (∀ e ∈ s.files, ¬(trimSpace e.id ≠ "" ∧ trimSpace e.path ≠ "")) ∧
      (h.FileExists h.default = true → ¬Readable h h.default) := by
  have empty : s.keys.rows = [] := by
    by_contra some_
    obtain ⟨k,mem⟩ := List.exists_mem_of_ne_nil _ some_
    exact none k.path.val (.inl ⟨k,mem,rfl⟩)
  refine ⟨empty,?_,?_⟩
  · rintro e mem ⟨id,path⟩
    exact none (trimSpace e.path) (.inr (.inl ⟨empty,e,mem,id,rfl,path⟩))
  · intro there readable
    have seed : seedPath h f s = h.default := by
      unfold seedPath
      rw [if_pos there]
    exact none _ (.inr (.inr ⟨by rw [seed,there],by rwa [seed],rfl⟩))

theorem defaultRegistered (there : h.FileExists h.default = true) (readable : Readable h h.default) :
    Registered h f s (trimSpace h.default) := by
  have seed : seedPath h f s = h.default := by
    unfold seedPath
    rw [if_pos there]
  exact .inr (.inr ⟨by rw [seed,there],by rwa [seed],by rw [seed]⟩)

/- What lasts is held from the update on. -/
theorem heldUpdate {active : String} (own : trimSpace path = path) (filled : path ≠ "") (same : trimSpace context = context)
    (listed : ensureSeededRegistry h f id s = (s₁,.ok (list,active))) (written : f.setActive = false)
    (done : updateByPath h f s₁ list path context = (s₂,none)) (lasts : Lasts h f s path) : Held h path context s₂ := by
  obtain ⟨rows,files,at_⟩ := listingAt listed
  obtain ⟨there,⟨entry,mem,place,rfl⟩ | ⟨other,rfl⟩⟩ := pathDone written done
  · rw [rows] at mem
    obtain ⟨k,mem,id,place'⟩ := loadedMem mem
    refine ⟨(trimSpaceTwice context).trans same,.inl ⟨k,mem,congrArg Subtype.val id.symm,?_⟩⟩
    rw [place',place]
  · have absent : ¬AtPath s₁ path := by
      rintro ⟨k,mem,place⟩
      refine other (keyToMeta k) ?_ ((congrArg Subtype.val (metaSame k).2).trans place)
      rw [rows]
      exact List.mem_map_of_mem mem
    have rest := lasts.resolve_left ((at_ path).not.mp absent)
    have empty : (∀ other, ¬Registered h f s other) → s₁.keys.rows = [] := by
      intro none
      by_contra some_
      obtain ⟨k,mem⟩ := List.exists_mem_of_ne_nil _ some_
      exact none k.path.val ((at_ _).mp ⟨k,mem,rfl⟩)
    refine ⟨same,.inr ⟨rfl,rfl,?_,?_,?_⟩⟩
    · intro no e mem
      rw [show ({ s₁ with activeID := "", path := path, context := context } : Store).files = s.files from files] at mem
      have none : ∀ other, ¬Registered h f s other := by
        intro other registered
        obtain ⟨k,there,_⟩ := (at_ other).mpr registered
        rw [show s₁.keys.rows = [] from no] at there
        cases there
      exact (unregistered none).2.1 e mem
    · intro default
      rcases rest with none | ⟨missing,_⟩
      · exact ⟨empty none,(unregistered none).2.2 default⟩
      · rw [missing] at default
        cases default
    · intro _
      rcases rest with none | ⟨_,readable⟩
      · exact .inl (empty none)
      · refine .inr (.inr ⟨?_,readable⟩)
        unfold Host.FileExists
        rwa [resolvedOwn own filled h]

/- What does not is lost with a listing that follows. -/
theorem elsewhereUpdate {active : String} (listed : ensureSeededRegistry h f id s = (s₁,.ok (list,active))) (written : f.setActive = false)
    (done : updateByPath h f s₁ list path context = (s₂,none)) (lost : ¬Lasts h f s path) : Elsewhere h path s₂ := by
  obtain ⟨rows,_,at_⟩ := listingAt listed
  obtain ⟨unregistered_,some_,host⟩ : ¬Registered h f s path ∧ (∃ other, Registered h f s other) ∧
      ¬(h.FileExists h.default = false ∧ Readable h path) := by
    simpa [Lasts] using lost
  have absent := (at_ path).not.mpr unregistered_
  obtain ⟨_,⟨entry,mem,place,rfl⟩ | ⟨_,rfl⟩⟩ := pathDone written done
  · rw [rows] at mem
    obtain ⟨k,mem,_,place'⟩ := loadedMem mem
    exact absurd ⟨k,mem,by rw [place',place]⟩ absent
  · refine ⟨?_,absent,.inl rfl,?_,?_⟩
    · obtain ⟨other,registered⟩ := some_
      obtain ⟨k,mem,_⟩ := (at_ other).mpr registered
      exact List.ne_nil_of_mem mem
    · intro there readable same
      exact unregistered_ (same ▸ defaultRegistered there readable)
    · intro missing readable
      exact host ⟨missing,readable⟩

theorem agreesSame (h : Host) (path : String) : Agrees h h path := ⟨rfl,⟨.rfl,.rfl⟩,⟨.rfl,.rfl⟩⟩

/- The settings that a request for a path has written are those that are loaded from there on, after any
listings, exactly when the path is registered, none is, or the path becomes the entry. -/
theorem updateLasts {again : Faults} (written : f.setActive = false) (reads : again.Reads) (byPath : trimSpace body.activeID = "")
    (absolute : hasPrefix (trimSpace body.path) "/" = true) (accepted : (UpdateAPI h f again id id' body s).2 = none) :
    (∀ ls : List Listing, (∀ l ∈ ls, Agrees h l.host (trimSpace body.path) ∧ l.faults.Reads) →
      Loads (relisted (UpdateAPI h f again id id' body s).1 ls) (trimSpace body.path) (trimSpace body.context)) ↔
        Lasts h f s (trimSpace body.path) := by
  have filled := absoluteFilled absolute
  have own := trimSpaceTwice body.path
  obtain ⟨s₁,list,active,s₂,listed,done,left⟩ := updateDone byPath filled accepted
  rw [left]
  constructor
  · intro loads
    by_contra lost
    have elsewhere := elsewhereListing again id' (elsewhereUpdate listed written done lost) own filled
    obtain ⟨fresh,free⟩ := freshID ((ensureSeededRegistry h again id' s₂).1.keys.rows.map K8sKey.id ++
      (ensureSeededRegistry h again id' s₂).1.keys.deleted)
    obtain ⟨k,mem,named,other⟩ := settles elsewhere own filled free
    refine loadsOther mem named other (loads [⟨h,{},fresh⟩] ?_)
    intro l mem
    cases List.mem_singleton.mp mem
    exact ⟨agreesSame h _,rfl,rfl⟩
  · intro lasts ls kept
    have held := heldUpdate own filled (trimSpaceTwice body.context) listed written done lasts
    exact heldLoads (heldRelisted own filled (heldListing own filled id' held reads) kept) own filled

end
/-! A host with a kubeconfig of its own, and another file. -/

def homeHost : Host := { plainHost with stat := fun _ => true, read := fun _ => some "contexts" }

def ownFile : UpdateBody := ⟨"/root/.kube/config","",""⟩

def otherFile : UpdateBody := ⟨"/kubeconfig","",""⟩

theorem updateLastsHome :
    (∀ ls : List Listing, (∀ l ∈ ls, Agrees homeHost l.host (trimSpace ownFile.path) ∧ l.faults.Reads) →
      Loads (relisted (UpdateAPI homeHost {} {} ⟨"left",textLeft⟩ ⟨"right",textRight⟩ ownFile bare).1 ls) (trimSpace ownFile.path) (trimSpace ownFile.context)) ↔
        Lasts homeHost {} bare (trimSpace ownFile.path) :=
  updateLasts rfl ⟨rfl,rfl⟩ (by decide) (by decide) (by decide)

/- The other file is asked for, and the listing that ends the request points at the host's own again. -/
theorem pathReplaced : ¬∀ (h : Host) (id id' : Text) (body : UpdateBody) (s : Store), trimSpace body.activeID = "" →
    hasPrefix (trimSpace body.path) "/" = true → (UpdateAPI h {} {} id id' body s).2 = none →
      ∀ ls : List Listing, (∀ l ∈ ls, Agrees h l.host (trimSpace body.path) ∧ l.faults.Reads) →
        Loads (relisted (UpdateAPI h {} {} id id' body s).1 ls) (trimSpace body.path) (trimSpace body.context) := by
  intro always
  have loads := always homeHost ⟨"left",textLeft⟩ ⟨"right",textRight⟩ otherFile bare (by decide) (by decide) (by decide) []
    (fun l mem => absurd mem List.not_mem_nil)
  obtain ⟨settings,loaded,path,_⟩ := loads homeHost
  have found : (LoadSettings homeHost {} (UpdateAPI homeHost {} {} ⟨"left",textLeft⟩ ⟨"right",textRight⟩ otherFile bare).1).toOption.map Settings.path =
      some "/root/.kube/config" := by
    decide
  rw [show LoadSettings homeHost {} (UpdateAPI homeHost {} {} ⟨"left",textLeft⟩ ⟨"right",textRight⟩ otherFile bare).1 = .ok settings from loaded] at found
  have here : settings.path = "/root/.kube/config" := Option.some.inj found
  rw [path] at here
  revert here
  decide

end ContainerWS.Kubernetes.Registry
