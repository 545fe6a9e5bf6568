import ContainerWS.Kubernetes.Registry
import ContainerWS.Runs

/-! Which entry the options of the registry say is active, over all sequences of the operations. -/
namespace ContainerWS.Kubernetes.Registry
open GoStrings

/- No id with no entry, and else the one of an entry, with its path. -/
structure Points (s : Store) : Prop where
  blank : s.activeID = "" ↔ s.keys.rows = []
  entry : s.keys.rows ≠ [] → ∃ k ∈ s.keys.rows, k.id.val = s.activeID ∧ k.path.val = s.path

inductive Op where
  | create (id : Text) (name content : String) (after : Host)
  | update (id name content : String)
  | delete (id : String)
  | activate (id context : String)
  | seed (id : Text)

structure Step where
  op : Op
  host : Host
  faults : Faults := {}

/- The id of a new row is drawn before. -/
def step (s : Store) (e : Step) : Option Store :=
  match e.op with
  | .create id name content after => some (createManagedFile e.host e.faults after id name content s).1
  | .update id name content => some (updateManagedContent e.host e.faults id name content s).1
  | .delete id => some (deleteFile e.host e.faults id s).1
  | .activate id context => some (activateEntry e.host e.faults id context s).1
  | .seed id => some (ensureSeededRegistry e.host e.faults id s).1

section
variable (h : Host) (f : Faults)

/- The file of the entry is there, the id is written, and the path is too or is the one already. -/
def Activates (s : Store) (entry : K8sKey) : Prop :=
  (∃ u, materializeFile h entry = .ok u) ∧ f.setActive = false ∧ (f.setPath = false ∨ s.path = entry.path)

/- A listing that finds entries and no active id: it can read them, it writes the id of the entry at the path
that is set, as it is set, or that of the first entry with its path. -/
def Relists (s : Store) : Prop :=
  ¬(f.loadKeys = true ∨ f.readActiveAgain = true) ∧ f.setActiveAgain = false ∧
    match (loadRegistry s).find? (fun k => k.path.val = h.ResolvePath (if f.readPathAgain then "" else s.path)) with
    | some k => s.path = k.path
    | none => f.setPathAgain = false ∨ ∀ first ∈ (loadRegistry s).head?, s.path = first.path

/- A listing that has a new entry to point at, and no active id. -/
def PointsAt (s : Store) (key : K8sKey) : Prop :=
  f.readActive = false ∧ (f.setActive = false → f.setPath = false ∨ s.path = key.path) ∧
    (f.setActive = true → Relists h f (if f.setPath then s else { s with path := key.path }))

/- A listing of an empty registry: nothing comes in, or what comes in is pointed at. -/
def Seeds (id : Text) (s : Store) : Prop :=
  match migrateLegacyOptionsRegistry h f s with
  | (s,some _) => s.keys.rows = []
  | (s,none) =>
    if h.FileExists (seedPath h f s) = false then s.keys.rows = [] ∨ Relists h f s
    else if f.findPath = true then s.keys.rows = []
    else match firstAt s (seedPath h f s) with
    | some existing => PointsAt h f (backfill h f s existing) existing
    | none =>
      match hostKey h f id s with
      | none => s.keys.rows = [] ∨ Relists h f s
      | some row =>
        match if f.addKey then none else s.keys.insert row.BeforeCreate with
        | none => s.keys.rows = []
        | some keys => PointsAt h f { s with keys := keys } row.BeforeCreate

end

def Keeps (s : Store) (e : Step) : Prop :=
  match e.op with
  | .create id name content after =>
    ∀ row keys, writtenFile e.host id name content = .ok row → (if e.faults.addKey then none else s.keys.insert row.BeforeCreate) = some keys →
      s.keys.rows = [] → e.faults.countKeys = false ∧ Activates after e.faults s (keyToMeta row.BeforeCreate)
  | .update _ _ _ => True
  | .delete id =>
    ∀ row, rowOf s id = some row → e.faults.findKey = false → e.faults.readActive = false → e.faults.deleteKey = false → s.activeID = row.id →
      e.faults.loadKeys = false ∧
        match (s.keys.remove row.id).rows with
        | [] => e.faults.setActive = false
        | first :: _ => Activates e.host e.faults s (keyToMeta first)
  | .activate id context =>
    ∀ entry, activable e.host id context s = .ok entry → (∃ u, materializeFile e.host entry = .ok u) → e.faults.setActive = false →
      e.faults.setPath = false ∨ s.path = entry.path
  | .seed id => s.keys.rows = [] → Seeds e.host e.faults id s

section
variable {h : Host} {f : Faults} {s s' : Store} {k : K8sKey}

theorem metaSame (k : K8sKey) : (keyToMeta k).id = k.id ∧ (keyToMeta k).path = k.path := by
  unfold keyToMeta
  split <;> exact ⟨rfl,rfl⟩

theorem sameID {t : Keys} {j k : K8sKey} (left : j ∈ t.rows) (right : k ∈ t.rows) (same : j.id = k.id) : j = k :=
  List.inj_on_of_nodup_map (List.nodup_append.mp t.distinct).1 left right same

theorem activeTrimmed (k : K8sKey) : trimSpace k.id.val = k.id.val := k.id.property.1

theorem idFilled (k : K8sKey) : k.id.val ≠ "" := k.id.property.2

/- The active id is that of an entry. -/
theorem pointsNamed (mem : k ∈ s.keys.rows) (named : s.activeID = k.id) : Points s ↔ s.path = k.path := by
  constructor
  · rintro ⟨_,entry⟩
    obtain ⟨j,there,id,path⟩ := entry (List.ne_nil_of_mem mem)
    cases sameID there mem (Subtype.ext (id.trans named))
    exact path.symm
  · intro path
    refine ⟨iff_of_false ?_ (List.ne_nil_of_mem mem),fun _ => ⟨k,mem,named.symm,path.symm⟩⟩
    rw [named]
    exact idFilled k

theorem pointsEmpty (empty : s.keys.rows = []) : Points s ↔ s.activeID = "" :=
  ⟨fun points => points.blank.mpr empty,fun blank => ⟨iff_of_true blank empty,fun some_ => absurd empty some_⟩⟩

/- The active id is blank, or that of no entry. -/
theorem pointsNone (some_ : s.keys.rows ≠ []) (none : ∀ j ∈ s.keys.rows, j.id.val ≠ s.activeID) : ¬Points s := by
  intro points
  obtain ⟨j,there,id,_⟩ := points.entry some_
  exact none j there id

theorem pointsBlank (some_ : s.keys.rows ≠ []) (blank : s.activeID = "") : ¬Points s :=
  fun points => some_ (points.blank.mp blank)

theorem pointsActive (points : Points s) (some_ : s.keys.rows ≠ []) :
    ∃ k ∈ s.keys.rows, activeFileID s = k.id ∧ s.activeID = k.id ∧ s.path = k.path := by
  obtain ⟨k,mem,id,path⟩ := points.entry some_
  refine ⟨k,mem,?_,id.symm,path.symm⟩
  rw [activeFileID,← id,activeTrimmed]

/- Other rows that have the entry too. -/
theorem pointsRows {keys : Keys} (points : Points s) (some_ : s.keys.rows ≠ [])
    (kept : ∀ k ∈ s.keys.rows, ∃ j ∈ keys.rows, j.id = k.id ∧ j.path = k.path) : Points { s with keys := keys } := by
  obtain ⟨k,mem,_,id,path⟩ := pointsActive points some_
  obtain ⟨j,there,same,place⟩ := kept k mem
  refine (pointsNamed (s := { s with keys := keys }) there ?_).mpr ?_
  · rw [same]
    exact id
  · rw [place]
    exact path

theorem insertRows {t keys : Keys} (inserted : t.insert k = some keys) : keys.rows = t.rows ++ [k] := by
  unfold Keys.insert at inserted
  split at inserted
  · cases inserted
  · cases Option.some.inj inserted
    rfl

theorem changeKept (t : Keys) (id : Text) (name secret : String) : ∀ k ∈ t.rows, ∃ j ∈ (t.change id name secret).rows, j.id = k.id ∧ j.path = k.path := by
  intro k mem
  refine ⟨changed id name secret k,List.mem_map_of_mem mem,changedID id name secret k,?_⟩
  unfold changed
  split <;> rfl

theorem loadedMem (mem : k ∈ loadRegistry s) : ∃ j ∈ s.keys.rows, j.id = k.id ∧ j.path = k.path := by
  obtain ⟨j,there,rfl⟩ := List.mem_map.mp mem
  exact ⟨j,there,(metaSame j).1.symm,(metaSame j).2.symm⟩

theorem loadedNone : loadRegistry s = [] ↔ s.keys.rows = [] := List.map_eq_nil_iff

/- What activateFile leaves. -/
theorem activateCases (mem : ∃ j ∈ s.keys.rows, j.id = k.id ∧ j.path = k.path) (context : String) :
    (activateFile h f s k context).1 = s ∧ ¬((∃ u, materializeFile h k = .ok u) ∧ f.setActive = false) ∨
    ((∃ u, materializeFile h k = .ok u) ∧ f.setActive = false) ∧
      (Points (activateFile h f s k context).1 ↔ f.setPath = false ∨ s.path = k.path) := by
  obtain ⟨j,there,id,path⟩ := mem
  have at_ : ∀ (context path' : String), Points { s with activeID := k.id, path := path', context := context } ↔ path' = k.path := by
    intro context path'
    have named := pointsNamed (s := { s with activeID := k.id, path := path', context := context }) there (by rw [id])
    rw [named,path]
  unfold activateFile
  cases materialized : materializeFile h k with
  | error e => exact .inl ⟨rfl,by rintro ⟨⟨u,⟨⟩⟩,_⟩⟩
  | ok u =>
    cases setActive : f.setActive with
    | true => exact .inl ⟨rfl,by rintro ⟨_,⟨⟩⟩⟩
    | false =>
      refine .inr ⟨⟨⟨u,rfl⟩,rfl⟩,?_⟩
      cases setPath : f.setPath with
      | true => simpa using at_ s.context s.path
      | false =>
        cases f.setContext with
        | true => simpa using (at_ s.context k.path).mpr rfl
        | false => simpa using (at_ (trimSpace context) k.path).mpr rfl

/- An entry is activated. -/
theorem activateIff (mem : ∃ j ∈ s.keys.rows, j.id = k.id ∧ j.path = k.path) (context : String) (before : ¬Points s) :
    Points (activateFile h f s k context).1 ↔ Activates h f s k := by
  rcases activateCases (h := h) (f := f) mem context with ⟨same,fails⟩ | ⟨⟨there,written⟩,points⟩
  · rw [same]
    exact iff_of_false before (fun activates => fails ⟨activates.1,activates.2.1⟩)
  · rw [points]
    exact ⟨fun path => ⟨there,written,path⟩,fun activates => activates.2.2⟩

theorem createIff {after : Host} {id : Text} {name content : String} (points : Points s) :
    Points (createManagedFile h f after id name content s).1 ↔ Keeps s ⟨.create id name content after,h,f⟩ := by
  unfold createManagedFile Keeps
  dsimp only
  cases made : writtenFile h id name content with
  | error e => exact iff_of_true points (by rintro row keys ⟨⟩)
  | ok row =>
    dsimp only
    cases inserted : (if f.addKey then none else s.keys.insert row.BeforeCreate) with
    | none => exact iff_of_true points (by rintro row' keys ⟨⟩ other; rw [inserted] at other; cases other)
    | some keys =>
      have rows : keys.rows = s.keys.rows ++ [row.BeforeCreate] := by
        cases fails : f.addKey with
        | true => simp [fails] at inserted
        | false =>
          simp only [fails] at inserted
          exact insertRows inserted
      have only : (∀ row' keys', Except.ok row = Except.ok (ε := String) row' →
          (if f.addKey then none else s.keys.insert row'.BeforeCreate) = some keys' → s.keys.rows = [] →
            f.countKeys = false ∧ Activates after f s (keyToMeta row'.BeforeCreate)) ↔
          (s.keys.rows = [] → f.countKeys = false ∧ Activates after f s (keyToMeta row.BeforeCreate)) := by
        constructor
        · intro all
          exact all row keys rfl inserted
        · rintro here row' keys' ⟨⟩ _
          exact here
      rw [only]
      dsimp only
      by_cases empty : s.keys.rows = []
      · have blank := (pointsEmpty empty).mp points
        have only_ : keys.rows = [row.BeforeCreate] := by rw [rows,empty,List.nil_append]
        have before : ¬Points { s with keys := keys } := pointsBlank (by simp [only_]) blank
        cases counted : f.countKeys with
        | true =>
          rw [if_neg (by simp)]
          exact iff_of_false before (fun all => nomatch (all empty).1)
        | false =>
          rw [if_pos ⟨rfl,by rw [only_]; rfl⟩]
          have mem : ∃ j ∈ keys.rows, j.id = (keyToMeta row.BeforeCreate).id ∧ j.path = (keyToMeta row.BeforeCreate).path :=
            ⟨row.BeforeCreate,by simp [only_],(metaSame _).1.symm,(metaSame _).2.symm⟩
          rw [activateIff (s := { s with keys := keys }) mem "" before]
          exact ⟨fun activates _ => ⟨rfl,activates⟩,fun all => (all empty).2⟩
      · rw [if_neg]
        · refine iff_of_true (pointsRows points empty ?_) (fun none => absurd none empty)
          intro k mem
          exact ⟨k,by rw [rows]; exact List.mem_append_left _ mem,rfl,rfl⟩
        · rintro ⟨_,one⟩
          have some_ := List.length_pos_iff.mpr empty
          simp only [rows,List.length_append,List.length_singleton] at one
          omega

theorem updateKeeps {id name content : String} (points : Points s) : Points (updateManagedContent h f id name content s).1 := by
  unfold updateManagedContent
  split
  · exact points
  · split
    · exact points
    · rename_i row found
      dsimp only
      split
      · exact points
      · split
        · exact points
        · refine pointsRows points ?_ (changeKept s.keys _ _ _)
          exact List.ne_nil_of_mem (List.mem_of_find?_eq_some found)

/- The active id is that of no entry any more. -/
theorem elsewhereIff (filled : s.activeID ≠ "") (gone : ∀ j ∈ s.keys.rows, j.id.val ≠ s.activeID) :
    Points (pointElsewhere h f s).1 ↔ f.loadKeys = false ∧
      match s.keys.rows with
      | [] => f.setActive = false
      | first :: _ => Activates h f s (keyToMeta first) := by
  have before : ¬Points s := by
    intro points
    by_cases empty : s.keys.rows = []
    · exact filled ((pointsEmpty empty).mp points)
    · exact pointsNone empty gone points
  unfold pointElsewhere
  cases f.loadKeys with
  | true => exact iff_of_false before (by rintro ⟨⟨⟩,_⟩)
  | false =>
    simp only [Bool.false_eq_true,if_false,true_and]
    cases rows : s.keys.rows with
    | nil =>
      rw [loadedNone.mpr rows]
      dsimp only
      have empty : ∀ (path : String), (if f.setPath = true then (if f.setActive = true then s else { s with activeID := "" } : Store)
          else { (if f.setActive = true then s else { s with activeID := "" } : Store) with path := path }).keys.rows = [] := by
        intro path
        split <;> split <;> exact rows
      rw [pointsEmpty (empty _)]
      cases f.setActive with
      | true =>
        refine iff_of_false ?_ (by rintro ⟨⟩)
        simp only [if_true]
        split <;> exact filled
      | false =>
        refine iff_of_true ?_ rfl
        simp only [Bool.false_eq_true,if_false]
        split <;> rfl
    | cons first rest =>
      have some_ : loadRegistry s = keyToMeta first :: rest.map keyToMeta := by rw [loadRegistry,rows,List.map_cons]
      rw [some_]
      exact activateIff ⟨first,by simp [rows],(metaSame first).1.symm,(metaSame first).2.symm⟩ "" before

theorem deleteIff {id : String} (points : Points s) : Points (deleteFile h f id s).1 ↔ Keeps s ⟨.delete id,h,f⟩ := by
  unfold deleteFile Keeps
  dsimp only
  cases findKey : f.findKey with
  | true => exact iff_of_true points (by rintro row _ ⟨⟩)
  | false =>
    cases found : rowOf s id with
    | none => exact iff_of_true points (by rintro row ⟨⟩)
    | some row =>
      have mem : row ∈ s.keys.rows := List.mem_of_find?_eq_some found
      have only : ∀ (P : K8sKey → Prop), (∀ row', some row = some row' → P row') ↔ P row := by
        intro P
        exact ⟨fun all => all row rfl,by rintro here row' ⟨⟩; exact here⟩
      rw [only]
      cases readActive : f.readActive with
      | true => exact iff_of_true points (by rintro _ ⟨⟩)
      | false =>
        cases deleteKey : f.deleteKey with
        | true => exact iff_of_true points (by rintro _ _ ⟨⟩)
        | false =>
          obtain ⟨k,there,active,named,path⟩ := pointsActive points (List.ne_nil_of_mem mem)
          simp only [Bool.false_eq_true,if_false,true_imp_iff]
          by_cases same : k.id = row.id
          · have gone : ∀ j ∈ (s.keys.remove row.id).rows, j.id.val ≠ s.activeID := by
              intro j left id
              have other := of_decide_eq_true (List.mem_filter.mp left).2
              exact other (Subtype.ext (id.trans (named.trans (congrArg Subtype.val same))))
            rw [if_neg (by rw [active,same]; simp)]
            have here : s.activeID = row.id := named.trans (congrArg Subtype.val same)
            rw [imp_iff_right here]
            refine elsewhereIff ?_ gone
            rw [here]
            exact idFilled row
          · rw [if_pos (by rw [active]; exact fun equal => same (Subtype.ext equal))]
            have apart : s.activeID ≠ row.id := by
              rw [named]
              exact fun equal => same (Subtype.ext equal)
            refine iff_of_true ?_ (fun equal => absurd equal apart)
            have left : k ∈ (s.keys.remove row.id).rows := List.mem_filter.mpr ⟨there,decide_eq_true same⟩
            exact (pointsNamed (s := { s with keys := s.keys.remove row.id }) left named).mpr path

theorem activeIff {id context : String} (points : Points s) : Points (activateEntry h f id context s).1 ↔ Keeps s ⟨.activate id context,h,f⟩ := by
  unfold activateEntry Keeps
  dsimp only
  cases checked : activable h id context s with
  | error e => exact iff_of_true points (by rintro entry ⟨⟩)
  | ok entry =>
    have listed : entry ∈ loadRegistry s := by
      unfold activable at checked
      split at checked
      · cases checked
      · rename_i found
        split at checked
        · cases checked
        · split at checked
          · cases checked
          · split at checked
            · cases checked
            · cases Except.ok.inj checked
              exact List.mem_of_find?_eq_some found
    have only : (∀ entry', Except.ok entry = Except.ok (ε := String) entry' → (∃ u, materializeFile h entry' = .ok u) → f.setActive = false →
        f.setPath = false ∨ s.path = entry'.path) ↔
        ((∃ u, materializeFile h entry = .ok u) ∧ f.setActive = false → f.setPath = false ∨ s.path = entry.path) := by
      constructor
      · rintro all ⟨there,written⟩
        exact all entry rfl there written
      · rintro here entry' ⟨⟩ there written
        exact here ⟨there,written⟩
    rw [only]
    dsimp only
    rcases activateCases (h := h) (f := f) (loadedMem listed) (trimSpace context) with ⟨same,fails⟩ | ⟨written,iff⟩
    · rw [same]
      exact iff_of_true points (fun written => absurd written fails)
    · rw [iff]
      exact ⟨fun path _ => path,fun here => here written⟩

/-! Listings. -/

/- A listing changes nothing where an id is active. -/
theorem listedActive (active : activeFileID s ≠ "") : (listed h f s).1 = s := by
  unfold listed
  split
  · rfl
  · dsimp only
    rw [if_pos (.inr active)]

theorem listedEmpty (empty : s.keys.rows = []) : (listed h f s).1 = s := by
  unfold listed
  split
  · rfl
  · dsimp only
    rw [if_pos (.inl (loadedNone.mpr empty))]

theorem listedIff (some_ : s.keys.rows ≠ []) (blank : s.activeID = "") : Points (listed h f s).1 ↔ Relists h f s := by
  have active : activeFileID s = "" := by
    rw [activeFileID,blank]
    decide
  have before := pointsBlank some_ blank
  unfold listed Relists
  by_cases fails : f.loadKeys = true ∨ f.readActiveAgain = true
  · rw [if_pos fails]
    exact iff_of_false before (fun relists => relists.1 fails)
  · rw [if_neg fails]
    dsimp only
    rw [if_neg (not_or.mpr ⟨fun none => some_ (loadedNone.mp none),not_not.mpr active⟩)]
    simp only [fails,not_false_eq_true,true_and]
    unfold pointAtEntry
    dsimp only
    cases found : (loadRegistry s).find? (fun k => k.path.val = h.ResolvePath (if f.readPathAgain then "" else s.path)) with
    | some k =>
      obtain ⟨j,there,id,path⟩ := loadedMem (List.mem_of_find?_eq_some found)
      cases f.setActiveAgain with
      | true => exact iff_of_false before (by rintro ⟨⟨⟩,_⟩)
      | false =>
        dsimp only
        simp only [Bool.false_eq_true,if_false,true_and]
        rw [pointsNamed (s := { s with activeID := k.id }) there (by rw [id]),path]
    | none =>
      cases rows : loadRegistry s with
      | nil => exact absurd (loadedNone.mp rows) some_
      | cons first rest =>
        obtain ⟨j,there,id,path⟩ := loadedMem (s := s) (k := first) (by rw [rows]; exact List.mem_cons_self)
        dsimp only
        cases f.setActiveAgain with
        | true =>
          refine iff_of_false ?_ (by rintro ⟨⟨⟩,_⟩)
          simp only [if_true]
          split
          · exact before
          · exact pointsBlank some_ blank
        | false =>
          simp only [Bool.false_eq_true,if_false,true_and,List.head?_cons,Option.mem_def,Option.some.injEq,forall_eq']
          cases f.setPathAgain with
          | true =>
            simp only [if_true,Bool.true_eq_false,false_or]
            rw [pointsNamed (s := { s with activeID := first.id }) there (by rw [id]),path]
          | false =>
            simp only [Bool.false_eq_true,if_false,true_or,iff_true]
            exact (pointsNamed (s := { s with activeID := first.id, path := first.path }) there (by rw [id])).mpr (by rw [path])

/- What a listing leaves of what seeding leaves. -/
def ended (h : Host) (f : Faults) : Store × Option String → Store
  | (s,some _) => s
  | (s,none) => (listed h f s).1

theorem seededEnded (h : Host) (f : Faults) (id : Text) (s : Store) :
    (ensureSeededRegistry h f id s).1 = ended h f (SeedMissingFromUserProfile h f id s) := by
  unfold ensureSeededRegistry ended
  rcases SeedMissingFromUserProfile h f id s with ⟨s',_ | e⟩ <;> rfl

theorem pointsAtIff (blank : s.activeID = "") (mem : ∃ j ∈ s.keys.rows, j.id = k.id ∧ j.path = k.path) :
    Points (ended h f (ensureActivePointsAtKey f s k)) ↔ PointsAt h f s k := by
  obtain ⟨j,there,id,path⟩ := mem
  have some_ := List.ne_nil_of_mem there
  have active : activeFileID s = "" := by
    rw [activeFileID,blank]
    decide
  unfold ensureActivePointsAtKey PointsAt
  cases f.readActive with
  | true => exact iff_of_false (pointsBlank some_ blank) (by rintro ⟨⟨⟩,_⟩)
  | false =>
    simp only [Bool.false_eq_true,if_false,active,ne_eq,not_true_eq_false,false_and,true_and]
    cases f.setActive with
    | true =>
      simp only [if_true,Bool.true_eq_false,false_imp_iff,true_and,true_imp_iff]
      cases f.setPath with
      | true => exact listedIff some_ blank
      | false => exact listedIff (s := { s with path := k.path }) some_ blank
    | false =>
      simp only [Bool.false_eq_true,if_false,true_imp_iff,false_imp_iff,and_true]
      have filled : ∀ path', activeFileID { s with activeID := k.id, path := path' } ≠ "" := by
        intro path'
        rw [activeFileID,activeTrimmed]
        exact idFilled k
      have at_ : ∀ (path' : String), Points { s with activeID := k.id, path := path' } ↔ path' = k.path := by
        intro path'
        rw [pointsNamed (s := { s with activeID := k.id, path := path' }) there (by rw [id]),path]
      cases f.setPath with
      | true =>
        simp only [if_true,Bool.true_eq_false,false_or,ended]
        rw [listedActive (filled s.path)]
        exact at_ s.path
      | false =>
        simp only [Bool.false_eq_true,if_false,true_or,iff_true,ended]
        rw [listedActive (filled k.path)]
        exact (at_ k.path).mpr rfl

theorem firstMem {path : String} (found : firstAt s path = some k) : k ∈ s.keys.rows :=
  (List.mem_filter.mp (List.argmin_mem found)).1

theorem backfillKept (h : Host) (f : Faults) (s : Store) (existing : K8sKey) :
    ∃ keys, backfill h f s existing = { s with keys := keys } ∧ ∀ k ∈ s.keys.rows, ∃ j ∈ keys.rows, j.id = k.id ∧ j.path = k.path := by
  unfold backfill
  split
  · exact ⟨s.keys,rfl,fun k mem => ⟨k,mem,rfl,rfl⟩⟩
  · split
    · exact ⟨s.keys,rfl,fun k mem => ⟨k,mem,rfl,rfl⟩⟩
    · split
      · exact ⟨s.keys,rfl,fun k mem => ⟨k,mem,rfl,rfl⟩⟩
      · exact ⟨_,rfl,changeKept s.keys _ _ _⟩

theorem addedRows {keys : Keys} {fails : Bool} (inserted : (if fails then none else s.keys.insert k) = some keys) :
    keys.rows = s.keys.rows ++ [k] := by
  cases fails with
  | true => cases inserted
  | false => exact insertRows inserted

theorem legacyKeeps (h : Host) (f : Faults) (s : Store) (list : List (Legacy × Nat)) :
    ∃ keys, (addLegacy h f s list).1 = { s with keys := keys } := by
  induction list generalizing s with
  | nil => exact ⟨s.keys,rfl⟩
  | cons e rest ih =>
    obtain ⟨e,n⟩ := e
    unfold addLegacy
    split
    · dsimp only
      split
      · exact ⟨s.keys,rfl⟩
      · rename_i keys _
        exact ih { s with keys := keys }
    · exact ih s

theorem migrateKeeps (h : Host) (f : Faults) (s : Store) : ∃ keys, (migrateLegacyOptionsRegistry h f s).1 = { s with keys := keys } := by
  unfold migrateLegacyOptionsRegistry
  split
  · exact ⟨s.keys,rfl⟩
  · split
    · exact ⟨s.keys,rfl⟩
    · split
      · exact ⟨s.keys,rfl⟩
      · exact legacyKeeps h f s _

/- Of a registry that was empty. -/
theorem seedsIff {id : Text} (points : Points s) (empty : s.keys.rows = []) :
    Points (ensureSeededRegistry h f id s).1 ↔ Seeds h f id s := by
  have active := (pointsEmpty empty).mp points
  obtain ⟨keys,kept⟩ := migrateKeeps h f s
  rw [seededEnded,SeedMissingFromUserProfile,Seeds]
  rcases migrated : migrateLegacyOptionsRegistry h f s with ⟨s',_ | e⟩
  · rw [migrated] at kept
    have blank : s'.activeID = "" := by rw [show s' = { s with keys := keys } from kept]; exact active
    have stays : Points (listed h f s').1 ↔ s'.keys.rows = [] ∨ Relists h f s' := by
      by_cases none : s'.keys.rows = []
      · rw [listedEmpty none]
        exact iff_of_true ((pointsEmpty none).mpr blank) (.inl none)
      · rw [listedIff none blank]
        exact ⟨.inr,fun either => either.resolve_left none⟩
    have stops : Points s' ↔ s'.keys.rows = [] :=
      ⟨fun points => points.blank.mp blank,fun none => (pointsEmpty none).mpr blank⟩
    dsimp only
    unfold seedHost
    split
    · exact stays
    · split
      · exact stops
      · cases found : firstAt s' (seedPath h f s') with
        | some existing =>
          obtain ⟨keys',same,kept'⟩ := backfillKept h f s' existing
          dsimp only
          rw [same]
          exact pointsAtIff (s := { s' with keys := keys' }) blank (kept' existing (firstMem found))
        | none =>
          cases hostKey h f id s' with
          | none => exact stays
          | some row =>
            dsimp only
            cases inserted : (if f.addKey then none else s'.keys.insert row.BeforeCreate) with
            | none => exact stops
            | some keys' =>
              refine pointsAtIff (s := { s' with keys := keys' }) blank ⟨row.BeforeCreate,?_,rfl,rfl⟩
              rw [addedRows inserted]
              exact List.mem_append_right _ List.mem_cons_self
  · rw [migrated] at kept
    have blank : s'.activeID = "" := by rw [show s' = { s with keys := keys } from kept]; exact active
    exact ⟨fun points => points.blank.mp blank,fun none => (pointsEmpty none).mpr blank⟩

/- An active entry that is there is left alone. -/
theorem ensureKept (mem : k ∈ s.keys.rows) (named : s.activeID = k.id) (key : K8sKey) : (ensureActivePointsAtKey f s key).1 = s := by
  have active : activeFileID s = k.id := by rw [activeFileID,named,activeTrimmed]
  unfold ensureActivePointsAtKey
  split
  · rfl
  · dsimp only
    rw [active]
    split
    · rfl
    · rw [if_pos ⟨idFilled k,k,mem,rfl⟩]

/- Seeding leaves the options as they are where the active entry is there. -/
theorem seedActive (id : Text) (mem : k ∈ s.keys.rows) (named : s.activeID = k.id) :
    ∃ keys, (ensureSeededRegistry h f id s).1 = { s with keys := keys } ∧ ∀ j ∈ s.keys.rows, ∃ j' ∈ keys.rows, j'.id = j.id ∧ j'.path = j.path := by
  have some_ := List.ne_nil_of_mem mem
  have filled : ∀ keys, activeFileID { s with keys := keys } ≠ "" := by
    intro keys
    rw [activeFileID,named,activeTrimmed]
    exact idFilled k
  have ends : ∀ (keys : Keys) (r : Store × Option String), r.1 = { s with keys := keys } → ended h f r = { s with keys := keys } := by
    rintro keys ⟨s',_ | e⟩ same
    · exact (congrArg (fun s => (listed h f s).1) same).trans (listedActive (filled keys))
    · exact same
  have migrated : (migrateLegacyOptionsRegistry h f s).1 = s := by
    unfold migrateLegacyOptionsRegistry
    split
    · rfl
    · rfl
  have same : ∀ j ∈ s.keys.rows, ∃ j' ∈ s.keys.rows, j'.id = j.id ∧ j'.path = j.path := fun j mem => ⟨j,mem,rfl,rfl⟩
  rw [seededEnded,SeedMissingFromUserProfile]
  rcases first : migrateLegacyOptionsRegistry h f s with ⟨s',_ | e⟩
  · rw [first] at migrated
    have here : s = s' := migrated.symm
    subst here
    dsimp only
    unfold seedHost
    split
    · exact ⟨s.keys,ends s.keys (s,none) rfl,same⟩
    · split
      · exact ⟨s.keys,rfl,same⟩
      · split
        · rename_i existing found
          obtain ⟨keys,filling,kept⟩ := backfillKept h f s existing
          obtain ⟨j,there,id',_⟩ := kept k mem
          rw [filling]
          refine ⟨keys,ends keys _ (ensureKept (s := { s with keys := keys }) there ?_ existing),kept⟩
          rw [id']
          exact named
        · split
          · exact ⟨s.keys,ends s.keys (s,none) rfl,same⟩
          · split
            · exact ⟨s.keys,rfl,same⟩
            · rename_i row _ _ keys inserted
              have rows := addedRows inserted
              have kept : ∀ j ∈ s.keys.rows, j ∈ keys.rows := by
                intro j there
                rw [rows]
                exact List.mem_append_left _ there
              exact ⟨keys,ends keys _ (ensureKept (s := { s with keys := keys }) (kept k mem) named _),fun j there => ⟨j,kept j there,rfl,rfl⟩⟩
  · rw [first] at migrated
    exact ⟨s.keys,migrated,same⟩

/- One step from where the options point at an entry. -/
theorem stepIff {e : Step} (points : Points s) (moved : step s e = some s') : Points s' ↔ Keeps s e := by
  obtain ⟨op,h,f⟩ := e
  cases op with
  | create id name content after =>
    cases Option.some.inj moved
    exact createIff points
  | update id name content =>
    cases Option.some.inj moved
    exact iff_of_true (updateKeeps points) trivial
  | delete id =>
    cases Option.some.inj moved
    exact deleteIff points
  | activate id context =>
    cases Option.some.inj moved
    exact activeIff points
  | seed id =>
    cases Option.some.inj moved
    unfold Keeps
    dsimp only
    by_cases empty : s.keys.rows = []
    · rw [imp_iff_right empty]
      exact seedsIff points empty
    · obtain ⟨k,mem,_,named,_⟩ := pointsActive points empty
      obtain ⟨keys,same,kept⟩ := seedActive (h := h) (f := f) id mem named
      refine iff_of_true ?_ (fun none => absurd none empty)
      rw [same]
      exact pointsRows points empty kept

/- The options point at an entry in every state of a run exactly when each operation of it is one that keeps
them pointing. -/
theorem activePoints {es : List Step} (points : Points s) :
    (∀ n t, Runs.run step s (es.take n) = some t → Points t) ↔ Runs.Guided step Keeps s es := by
  refine Runs.guidedIff stepIff ?_ points
  intro s e stuck
  unfold step at stuck
  split at stuck <;> cases stuck

end
/-! A registry without entries, on a host without a kubeconfig of its own. -/

theorem noneDistinct : (([] : List K8sKey).map K8sKey.id ++ []).Nodup := List.nodup_nil

def bare : Store := ⟨⟨[],[],noneDistinct⟩,"","","",[]⟩

theorem defaultFilled : trimSpace "/root/.kube/config" ≠ "" := by decide +kernel

def plainHost : Host := ⟨"/root/.kube/config",defaultFilled,fun _ => false,fun _ => none,fun _ => true,true,fun _ => none,fun _ => .ok []⟩

theorem barePoints : Points bare := (pointsEmpty rfl).mpr rfl

theorem textLeft : trimSpace "left" = "left" ∧ "left" ≠ "" := by decide +kernel

theorem textRight : trimSpace "right" = "right" ∧ "right" ≠ "" := by decide +kernel

def twoFiles : List Step :=
  [{ op := .create ⟨"left",textLeft⟩ "first" "contexts" plainHost, host := plainHost },
    { op := .create ⟨"right",textRight⟩ "second" "contexts" plainHost, host := plainHost }]

theorem activePointsBare : (∀ n t, Runs.run step bare (twoFiles.take n) = some t → Points t) ↔ Runs.Guided step Keeps bare twoFiles :=
  activePoints barePoints

/- The second file is activated, and the write of its path fails. -/
def halfActivated : List Step := twoFiles ++ [{ op := .activate "right" "", host := plainHost, faults := { setPath := true } }]

theorem pathLost : ¬∀ (es : List Step) (t : Store), Runs.run step bare es = some t → Points t := by
  intro always
  have ran : (Runs.run step bare halfActivated).map (fun t => (t.activeID,t.path,t.keys.rows.map (fun k => (k.id.val,k.path.val)))) =
      some ("right","/root/.kube/containerws/configs/left.yaml",
        [("left","/root/.kube/containerws/configs/left.yaml"),("right","/root/.kube/containerws/configs/right.yaml")]) := by
    decide +kernel
  obtain ⟨t,found,same⟩ := Option.map_eq_some_iff.mp ran
  obtain ⟨active,rest⟩ := Prod.mk.inj same
  obtain ⟨path,rows⟩ := Prod.mk.inj rest
  have points := always _ t found
  obtain ⟨k,mem,id,place⟩ := points.entry (by intro none; rw [none] at rows; cases rows)
  have listed := List.mem_map_of_mem (f := fun k : K8sKey => (k.id.val,k.path.val)) mem
  rw [rows,id,place,active,path] at listed
  revert listed
  decide

end ContainerWS.Kubernetes.Registry
