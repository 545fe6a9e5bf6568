import ContainerWS.Brew.Sync

/-! When SyncHostInstalls tells the truth. What it marks installed is; what it marks uninstalled may be
installed all the same, where the listing or the index of tokens does not lead back to the software. -/
namespace ContainerWS.BrewSync
open Install Softwares GoStrings TextRows

variable {m : CaseMap} {fold : Char → Char} {c : Catalog} {cellar : Cellar}

def Cellar.names (cellar : Cellar) : List String := cellar.formulae.map Formula.name ++ cellar.casks.map Cask.token

/- One of the packages that a software maps to is installed. -/
def Present (m : CaseMap) (c : Catalog) (cellar : Cellar) (softwareID : String) : Prop :=
  ∃ sw ∈ c.softwares, sw.id = softwareID ∧ ∃ n ∈ cellar.names, lowered m n = brewTokenForSoftware m sw

/- What is about to be written as brew's is true. -/
def Sound (m : CaseMap) (c : Catalog) (cellar : Cellar) (s : Sync) : Prop :=
  ∀ softwareID row, s.writes = some (softwareID,row) → row.packageManager = .packageManagerBrew →
    (row.uninstalled = true → ¬Present m c cellar softwareID) ∧ (row.uninstalled = false → Present m c cellar softwareID)

/- The call with nothing beside it; a move says whether its query fails. -/
def alone (m : CaseMap) (fold : Char → Char) (c : Catalog) (x : Installed × Sync) (fails : Bool) : Option (Installed × Sync) :=
  x.2.next m fold c fails x.1

def ByBrew (rows : Installed) (softwareID : String) : Prop :=
  ∃ row, getSoftwareInstalled rows softwareID = some row ∧ row.uninstalled = false ∧ row.packageManager = .packageManagerBrew

/- The index leads from the token of the software to it: it is active, its token has no blank, and it is
the first one that has it. -/
def Traceable (m : CaseMap) (softwares : List Software) (sw : Software) : Prop :=
  sw.isActive = true ∧ sw.deleted = false ∧ ' ' ∉ (brewTokenForSoftware m sw).toList ∧
    ∃ earlier later, softwares = earlier ++ sw :: later ∧
      ∀ o ∈ earlier, o.isActive = true → o.deleted = false → brewTokenForSoftware m o ≠ brewTokenForSoftware m sw

def Answered (info : Info) (listFails : Bool) : Prop := info = .told ∨ info = .failed ∧ listFails = false

/- Each software that is brew's and has a package installed can be told from the listing. -/
def Telling (m : CaseMap) (c : Catalog) (cellar : Cellar) (info : Info) (rows : Installed) : Prop :=
  ∀ sw ∈ c.softwares, ByBrew rows sw.id → Present m c cellar sw.id →
    Traceable m c.softwares sw ∧ (info = .told ∨ ∃ f ∈ cellar.formulae, lowered m f.name = brewTokenForSoftware m sw)

/- The words of the second listing are the names of the formulae. -/
theorem printedWords {names : List String} (solid : ∀ n ∈ names, n ≠ "" ∧ ∀ c ∈ n.toList, isSpace c = false) :
    words isSpace (trimSpace (printed names)) = names := by
  have newline : "\n" = String.singleton '\n' := String.toList_inj.mp (by simp)
  have trimmed : trimSpace (printed names) = join '\n' names := by
    rw [trimSpaceBoth,printed,newline,trimBothBlank (by decide),joinTrimmed solid]
  rw [trimmed,wordsJoin (by decide) solid]

def reported (cellar : Cellar) : Info → List String
  | .told => cellar.names
  | _ => cellar.formulae.map Formula.name

theorem listingNames {info : Info} {listFails : Bool} {items : List Item}
    (listed : listInstalledFormulae cellar info listFails = some items) : items.map Item.name = reported cellar info := by
  cases info with
  | told =>
    cases listed
    simp [reported,Cellar.names,Function.comp_def]
  | garbled => cases listed
  | failed =>
    cases listFails with
    | true => cases listed
    | false =>
      rw [← Option.some.inj listed,printedWords fun n mem => cellar.solid n (List.mem_append_left _ mem)]
      simp [reported,Function.comp_def]

theorem listingAnswered {info : Info} {listFails : Bool} :
    Answered info listFails ↔ ∃ items, listInstalledFormulae cellar info listFails = some items := by
  cases info <;> cases listFails <;> simp [Answered,listInstalledFormulae]

theorem reportedInstalled {info : Info} {n : String} (mem : n ∈ reported cellar info) : n ∈ cellar.names := by
  cases info with
  | told => exact mem
  | _ => exact List.mem_append_left _ mem

def indexed (m : CaseMap) (sw : Software) : Bool :=
  !sw.deleted && sw.isActive && (brewTokenForSoftware m sw != "" && !(brewTokenForSoftware m sw).toList.contains ' ')

theorem indexRows (n : String) (softwares : List Software) (index : List (String × Software)) :
    (softwares.foldl (indexRow m) index).lookup n = (index.lookup n).or (softwares.find? (fun sw =>
      (brewTokenForSoftware m sw != "" && !(brewTokenForSoftware m sw).toList.contains ' ') && brewTokenForSoftware m sw == n)) := by
  induction softwares generalizing index with
  | nil => simp
  | cons sw rest ih =>
    rw [List.foldl_cons,ih,List.find?_cons]
    by_cases skipped : brewTokenForSoftware m sw = "" ∨ ' ' ∈ (brewTokenForSoftware m sw).toList
    · have passed : (brewTokenForSoftware m sw != "" && !(brewTokenForSoftware m sw).toList.contains ' ') = false := by
        rcases skipped with none | blank <;> simp_all
      simp only [indexRow,if_pos skipped,passed,Bool.false_and]
    · have kept : (brewTokenForSoftware m sw != "" && !(brewTokenForSoftware m sw).toList.contains ' ') = true := by
        rw [not_or] at skipped
        simpa using skipped
      simp only [indexRow,if_neg skipped,kept,Bool.true_and]
      by_cases here : brewTokenForSoftware m sw = n
      · subst here
        cases there : index.lookup (brewTokenForSoftware m sw) with
        | none => simp [there,List.lookup_append]
        | some o => simp [there]
      · rw [beq_false_of_ne here]
        have other : ((n == brewTokenForSoftware m sw) = false) := beq_false_of_ne (Ne.symm here)
        split
        · rfl
        · simp [List.lookup_append,List.lookup_cons,other]

/- A token leads to the first software that is indexed under it. -/
theorem indexLookup (n : String) :
    (buildBrewTokenIndex m c.softwares).lookup n = c.softwares.find? (fun sw => indexed m sw && brewTokenForSoftware m sw == n) := by
  rw [buildBrewTokenIndex,indexRows,List.lookup_nil,Option.none_or,List.find?_filter]
  refine congrArg (List.find? · c.softwares) (funext fun sw => ?_)
  rw [indexed,Bool.and_assoc (!sw.deleted && sw.isActive)]
  rw [Bool.decide_and,Bool.decide_eq_true,Bool.decide_eq_true]

theorem indexFound {n : String} {sw : Software} (found : (buildBrewTokenIndex m c.softwares).lookup n = some sw) :
    sw ∈ c.softwares ∧ brewTokenForSoftware m sw = n := by
  rw [indexLookup] at found
  have holds := List.find?_some found
  simp only [Bool.and_eq_true,beq_iff_eq] at holds
  exact ⟨List.mem_of_find?_eq_some found,holds.2⟩

theorem indexTraceable {n : String} {sw : Software} (some' : n ≠ "") :
    (buildBrewTokenIndex m c.softwares).lookup n = some sw ↔ Traceable m c.softwares sw ∧ brewTokenForSoftware m sw = n := by
  rw [indexLookup,List.find?_eq_some_iff_append]
  simp only [indexed,Traceable,Bool.and_eq_true,Bool.not_eq_true',beq_iff_eq,bne_iff_ne,List.contains_eq_mem,decide_eq_false_iff_not]
  constructor
  · rintro ⟨⟨⟨⟨live,active⟩,_,plain⟩,rfl⟩,earlier,later,whole,before⟩
    refine ⟨⟨active,live,plain,earlier,later,whole,?_⟩,rfl⟩
    intro o mem active live same
    have rejected := before o mem
    rw [same] at rejected
    simp [active,live,some',plain] at rejected
  · rintro ⟨⟨active,live,plain,earlier,later,whole,before⟩,rfl⟩
    refine ⟨⟨⟨⟨live,active⟩,some',plain⟩,rfl⟩,earlier,later,whole,?_⟩
    intro o mem
    by_contra taken
    simp only [Bool.not_eq_eq_eq_not,Bool.not_true,Bool.not_eq_false,Bool.and_eq_true,beq_iff_eq] at taken
    exact before o mem taken.1.1.2 taken.1.1.1 taken.2

/- The listing leads to the software. -/
def Reached (m : CaseMap) (c : Catalog) (items : List Item) (softwareID : String) : Prop :=
  ∃ it ∈ items, ∃ sw, (buildBrewTokenIndex m c.softwares).lookup (lowered m it.name) = some sw ∧ sw.id = softwareID

theorem loweredSome {n : String} (mem : n ∈ cellar.names) : lowered m n ≠ "" := by
  obtain ⟨some',solid⟩ := cellar.solid n mem
  rw [lowered,trimSpaceSelf solid,CaseMap.toLower]
  intro none
  have chars := congrArg String.toList none
  rw [String.toList_ofList,String.toList_empty,List.map_eq_nil_iff] at chars
  exact some' (String.toList_inj.mp chars)

theorem sameSoftware {sw o : Software} (mem : sw ∈ c.softwares) (other : o ∈ c.softwares) (same : o.id = sw.id) : o = sw :=
  List.inj_on_of_nodup_map c.ids other mem same

theorem reachedTraceable {info : Info} {listFails : Bool} {items : List Item} {sw : Software}
    (listed : listInstalledFormulae cellar info listFails = some items) (mem : sw ∈ c.softwares) :
    Reached m c items sw.id ↔
      Traceable m c.softwares sw ∧ ∃ n ∈ reported cellar info, lowered m n = brewTokenForSoftware m sw := by
  have names := listingNames listed
  constructor
  · rintro ⟨it,inside,o,found,same⟩
    obtain ⟨other,_⟩ := indexFound found
    obtain rfl := sameSoftware mem other same
    have told : it.name ∈ reported cellar info := names ▸ List.mem_map_of_mem inside
    obtain ⟨traceable,token⟩ := (indexTraceable (loweredSome (reportedInstalled told))).mp found
    exact ⟨traceable,it.name,told,token.symm⟩
  · rintro ⟨traceable,n,told,token⟩
    obtain ⟨it,inside,rfl⟩ := List.mem_map.mp (names ▸ told : n ∈ items.map Item.name)
    exact ⟨it,inside,sw,(indexTraceable (loweredSome (reportedInstalled told))).mpr ⟨traceable,token.symm⟩,rfl⟩

/- What a listing has to lead to. -/
def Covered (m : CaseMap) (c : Catalog) (cellar : Cellar) (items : List Item) (rows : Installed) : Prop :=
  ∀ sw ∈ c.softwares, ByBrew rows sw.id → Present m c cellar sw.id → Reached m c items sw.id

theorem presentNames {sw : Software} (mem : sw ∈ c.softwares) :
    Present m c cellar sw.id ↔ ∃ n ∈ cellar.names, lowered m n = brewTokenForSoftware m sw := by
  constructor
  · rintro ⟨o,other,same,there⟩
    rwa [sameSoftware mem other same] at there
  · exact fun there => ⟨sw,mem,rfl,there⟩

theorem coveredTelling {info : Info} {listFails : Bool} {items : List Item} {rows : Installed}
    (listed : listInstalledFormulae cellar info listFails = some items) :
    Covered m c cellar items rows ↔ Telling m c cellar info rows := by
  have told (sw : Software) (mem : sw ∈ c.softwares) (present : Present m c cellar sw.id) :
      (∃ n ∈ reported cellar info, lowered m n = brewTokenForSoftware m sw) ↔
        (info = .told ∨ ∃ f ∈ cellar.formulae, lowered m f.name = brewTokenForSoftware m sw) := by
    have names := (presentNames mem).mp present
    cases info <;> simp [reported] at names ⊢
    exact names
  constructor
  · intro covered sw mem brew present
    rw [← told sw mem present]
    exact (reachedTraceable listed mem).mp (covered sw mem brew present)
  · intro telling sw mem brew present
    rw [reachedTraceable listed mem,told sw mem present]
    exact telling sw mem brew present

def Mark.softwareID : Mark → String
  | .read softwareID _ => softwareID
  | .create softwareID _ => softwareID
  | .save softwareID _ => softwareID

/- Whether the call takes the software out. -/
def Mark.takes : Mark → Bool
  | .read _ .uninstall => true
  | .read _ (.install _ _) => false
  | .create _ row => row.uninstalled
  | .save _ row => row.uninstalled

theorem markWrites {mark : Mark} {softwareID : String} {row : SoftwareInstalled} (writes : mark.writes = some (softwareID,row)) :
    mark.softwareID = softwareID ∧ mark.takes = row.uninstalled := by
  cases mark <;> cases writes <;> exact ⟨rfl,rfl⟩

theorem markGoes {mark mark' : Mark} {fails : Bool} {rows rows' : Installed} (moved : mark.next fails rows = (rows',.going mark')) :
    rows' = rows ∧ mark'.softwareID = mark.softwareID ∧ mark'.takes = mark.takes := by
  cases markStep moved <;> exact ⟨rfl,rfl,rfl⟩

theorem markElsewhere {mark : Mark} {fails : Bool} {rows rows' : Installed} {after : Marking}
    (moved : mark.next fails rows = (rows',after)) {softwareID : String} (other : softwareID ≠ mark.softwareID) :
    rows' softwareID = rows softwareID := by
  cases markStep moved with
  | created _ row => exact Function.update_of_ne other _ _
  | saved _ row => exact Function.update_of_ne other _ _
  | _ => rfl

/- The first pass has written only what it has seen, and has seen what the items behind it lead to. -/
structure Passing (m : CaseMap) (c : Catalog) (items : List Item) (before rows : Installed) (seen : List String)
    (todo : List Item) : Prop where
  rows : ∀ softwareID, softwareID ∉ seen → rows softwareID = before softwareID
  rest : ∀ it ∈ todo, it ∈ items
  seen : ∀ it ∈ items, it ∈ todo ∨
    ∀ sw, (buildBrewTokenIndex m c.softwares).lookup (lowered m it.name) = some sw → sw.id ∈ seen

/- What the second pass still has to look at. -/
def Leaving (m : CaseMap) (c : Catalog) (cellar : Cellar) (seen : List String) (todo : List (String × SoftwareInstalled)) : Prop :=
  ∀ e ∈ todo, e.2.uninstalled = false → e.2.packageManager = .packageManagerBrew → e.1 ∉ seen → ¬Present m c cellar e.1

def Knows (m : CaseMap) (c : Catalog) (cellar : Cellar) (items : List Item) (before : Installed) (x : Installed × Sync) : Prop :=
  match x.2.phase with
  | .index todo => Passing m c items before x.1 x.2.seenSoftware todo ∧ todo = items
  | .items todo => Passing m c items before x.1 x.2.seenSoftware todo
  | .pick softwareID _ _ todo =>
    Passing m c items before x.1 x.2.seenSoftware todo ∧ softwareID ∈ x.2.seenSoftware ∧ Present m c cellar softwareID
  | .mark mark _ _ todo =>
    Passing m c items before x.1 x.2.seenSoftware todo ∧ mark.softwareID ∈ x.2.seenSoftware ∧
      Present m c cellar mark.softwareID ∧ mark.takes = false
  | .rows => Passing m c items before x.1 x.2.seenSoftware []
  | .unmark todo => Leaving m c cellar x.2.seenSoftware todo
  | .unmarking mark todo =>
    Leaving m c cellar x.2.seenSoftware todo ∧ ¬Present m c cellar mark.softwareID ∧ mark.takes = true
  | _ => True

theorem knowsSound {items : List Item} {before : Installed} {x : Installed × Sync} (knows : Knows m c cellar items before x) :
    Sound m c cellar x.2 := by
  obtain ⟨rows,phase,seen,result⟩ := x
  intro softwareID row writes _
  cases phase with
  | mark mark _ _ _ =>
    obtain ⟨_,_,present,takes⟩ := knows
    obtain ⟨rfl,same⟩ := markWrites writes
    exact ⟨fun gone => by rw [← same,takes] at gone; contradiction,fun _ => present⟩
  | unmarking mark _ =>
    obtain ⟨_,absent,takes⟩ := knows
    obtain ⟨rfl,same⟩ := markWrites writes
    exact ⟨fun _ => absent,fun kept => by rw [← same,takes] at kept; contradiction⟩
  | _ => cases writes

theorem passingRows {items todo : List Item} {before rows rows' : Installed} {seen : List String}
    (passing : Passing m c items before rows seen todo)
    (kept : ∀ softwareID, softwareID ∉ seen → rows' softwareID = rows softwareID) : Passing m c items before rows' seen todo :=
  ⟨fun softwareID unseen => (kept softwareID unseen).trans (passing.rows softwareID unseen),passing.rest,passing.seen⟩

/- An item is behind the pass once what it leads to is seen. -/
theorem passingItem {items todo : List Item} {it : Item} {before rows : Installed} {seen seen' : List String}
    (passing : Passing m c items before rows seen (it :: todo)) (grows : seen ⊆ seen')
    (behind : ∀ sw, (buildBrewTokenIndex m c.softwares).lookup (lowered m it.name) = some sw → sw.id ∈ seen') :
    Passing m c items before rows seen' todo := by
  refine ⟨fun softwareID unseen => passing.rows softwareID (fun old => unseen (grows old)),
    fun o mem => passing.rest o (List.mem_cons_of_mem _ mem),?_⟩
  intro o mem
  rcases passing.seen o mem with ahead | past
  · rcases List.mem_cons.mp ahead with rfl | later
    · exact .inr behind
    · exact .inl later
  · exact .inr (fun sw found => grows (past sw found))

/- The rows that are left when the listing has been gone through. -/
theorem leavingList {items : List Item} {before rows : Installed} {seen : List String} (covered : Covered m c cellar items before)
    (passing : Passing m c items before rows seen []) : Leaving m c cellar seen (listSoftwareInstalled c.softwares rows) := by
  intro e mem kept brew unseen present
  obtain ⟨sw,inside,entry⟩ := List.mem_filterMap.mp mem
  obtain ⟨row,there,rfl⟩ := Option.map_eq_some_iff.mp entry
  have same : getSoftwareInstalled before sw.id = some row := by
    rw [← there,getSoftwareInstalled,getSoftwareInstalled,passing.rows sw.id unseen]
  obtain ⟨it,listed,o,found,id⟩ := covered sw inside ⟨row,same,kept,brew⟩ present
  rcases passing.seen it listed with ahead | behind
  · cases ahead
  · exact unseen (id ▸ behind o found)

theorem knowsStep {items : List Item} {before : Installed} {x y : Installed × Sync} {fails : Bool}
    (covered : Covered m c cellar items before) (told : ∀ it ∈ items, it.name ∈ cellar.names)
    (knows : Knows m c cellar items before x) (moved : alone m fold c x fails = some y) : Knows m c cellar items before y := by
  obtain ⟨rows,phase,seen,result⟩ := x
  simp only [alone] at moved
  cases phase with
  | index todo =>
    obtain ⟨passing,rfl⟩ := knows
    simp only [Sync.next,Sync.to] at moved
    split at moved <;> cases moved
    · trivial
    · exact passing
  | items todo =>
    cases todo with
    | nil =>
      cases moved
      exact knows
    | cons it todo =>
      have inside : it ∈ items := knows.rest it List.mem_cons_self
      simp only [Sync.next,Sync.to] at moved
      split at moved
      · rename_i none
        cases moved
        refine passingItem knows (List.Subset.refl _) (fun sw found => ?_)
        exact absurd none (loweredSome (told it inside))
      · split at moved
        · rename_i none
          cases moved
          refine passingItem knows (List.Subset.refl _) (fun sw found => ?_)
          rw [none] at found
          cases found
        · rename_i sw found
          have passing : Passing m c items before rows (sw.id :: seen) todo := by
            refine passingItem knows (List.subset_cons_self _ _) (fun o other => ?_)
            cases found.symm.trans other
            exact List.mem_cons_self
          obtain ⟨catalogued,token⟩ := indexFound found
          have present : Present m c cellar sw.id := ⟨sw,catalogued,rfl,it.name,told it inside,token.symm⟩
          split at moved
          · cases moved
            exact passing
          · split at moved
            · cases moved
              exact ⟨passing,List.mem_cons_self,present⟩
            · split at moved <;> cases moved
              · exact passing
              · exact ⟨passing,List.mem_cons_self,present⟩
  | pick softwareID version old todo =>
    obtain ⟨passing,behind,present⟩ := knows
    simp only [Sync.next,Sync.to] at moved
    generalize (if fails then "" else pickVersionIDForBrew m fold c.versions softwareID version) = versionID at moved
    split at moved <;> cases moved
    · exact passing
    · exact ⟨passing,behind,present,rfl⟩
  | mark mark versionID old todo =>
    obtain ⟨passing,behind,present,takes⟩ := knows
    have elsewhere {rows' after} (marked : mark.next fails rows = (rows',after)) :
        ∀ softwareID, softwareID ∉ seen → rows' softwareID = rows softwareID :=
      fun softwareID unseen => markElsewhere marked (fun same => unseen (same ▸ behind))
    simp only [Sync.next,Sync.to] at moved
    split at moved <;> rename_i marked <;> cases moved
    · obtain ⟨_,same,still⟩ := markGoes marked
      exact ⟨passingRows passing (elsewhere marked),same ▸ behind,same ▸ present,still.trans takes⟩
    · exact passingRows passing (elsewhere marked)
    · exact passingRows passing (elsewhere marked)
  | rows =>
    simp only [Sync.next,Sync.to] at moved
    split at moved <;> cases moved
    · trivial
    · exact leavingList covered knows
  | unmark todo =>
    cases todo with
    | nil =>
      cases moved
      trivial
    | cons e todo =>
      obtain ⟨softwareID,row⟩ := e
      have later : Leaving m c cellar seen todo := fun e mem => knows e (List.mem_cons_of_mem _ mem)
      simp only [Sync.next,Sync.to] at moved
      split at moved <;> cases moved
      · exact later
      · rename_i kept
        simp only [not_or,Bool.not_eq_true,ne_eq,not_not] at kept
        exact ⟨later,knows (softwareID,row) List.mem_cons_self kept.1 kept.2.1 kept.2.2,rfl⟩
  | unmarking mark todo =>
    obtain ⟨leaving,absent,takes⟩ := knows
    simp only [Sync.next,Sync.to] at moved
    split at moved <;> rename_i marked <;> cases moved
    · obtain ⟨_,same,still⟩ := markGoes marked
      exact ⟨leaving,same ▸ absent,still.trans takes⟩
    · exact leaving
    · exact leaving
  | done => cases moved
  | failed => cases moved

theorem knowsBegin (items : List Item) (before : Installed) : Knows m c cellar items before (before,begin (some items)) :=
  ⟨⟨fun _ _ => rfl,fun _ mem => mem,fun _ mem => .inl mem⟩,rfl⟩

section
variable (fold)

/- Where every query fails the items go by and no row changes. -/
theorem itemsPass (rows : Installed) (todo : List Item) (s : Sync) (here : s.phase = .items todo) :
    ∃ s' : Sync, Runs.run (alone m fold c) (rows,s) (List.replicate todo.length true) = some (rows,s') ∧ s'.phase = .items [] ∧
      ∀ softwareID ∈ s'.seenSoftware, softwareID ∈ s.seenSoftware ∨ Reached m c todo softwareID := by
  induction todo generalizing s with
  | nil => exact ⟨s,rfl,here,fun _ old => .inl old⟩
  | cons it todo ih =>
    have next : ∃ s' : Sync, s.next m fold c true rows = some (rows,s') ∧ s'.phase = .items todo ∧
        ∀ softwareID ∈ s'.seenSoftware, softwareID ∈ s.seenSoftware ∨ Reached m c (it :: todo) softwareID := by
      simp only [Sync.next,here,Sync.to,if_true]
      split
      · exact ⟨_,rfl,rfl,fun _ old => .inl old⟩
      · split
        · exact ⟨_,rfl,rfl,fun _ old => .inl old⟩
        · rename_i sw found
          refine ⟨_,rfl,rfl,?_⟩
          intro softwareID mem
          rcases List.mem_cons.mp mem with rfl | old
          · exact .inr ⟨it,List.mem_cons_self,sw,found,rfl⟩
          · exact .inl old
    obtain ⟨s₁,moved,phase,seen⟩ := next
    obtain ⟨s₂,ran,last,later⟩ := ih s₁ phase
    refine ⟨s₂,(Runs.runNext moved _).trans ran,last,?_⟩
    intro softwareID mem
    rcases later softwareID mem with old | ⟨o,inside,found⟩
    · exact seen softwareID old
    · exact .inr ⟨o,List.mem_cons_of_mem _ inside,found⟩

/- And so do the rows of the second pass. -/
theorem rowsPass (rows : Installed) (before rest : List (String × SoftwareInstalled)) (s : Sync) (here : s.phase = .unmark (before ++ rest)) :
    ∃ turns, ∃ s' : Sync, Runs.run (alone m fold c) (rows,s) turns = some (rows,s') ∧ s'.phase = .unmark rest ∧
      s'.seenSoftware = s.seenSoftware := by
  induction before generalizing s with
  | nil => exact ⟨[],s,rfl,here,rfl⟩
  | cons e before ih =>
    obtain ⟨softwareID,row⟩ := e
    have next : ∃ turns, ∃ s' : Sync, Runs.run (alone m fold c) (rows,s) turns = some (rows,s') ∧ s'.phase = .unmark (before ++ rest) ∧
        s'.seenSoftware = s.seenSoftware := by
      by_cases passed : row.uninstalled = true ∨ row.packageManager ≠ .packageManagerBrew ∨ softwareID ∈ s.seenSoftware
      · refine ⟨[true],{s with phase := .unmark (before ++ rest)},?_,rfl,rfl⟩
        simp only [Runs.run,alone,Sync.next,here,List.cons_append,if_pos passed,Sync.to]
      · have first : alone m fold c (rows,s) true =
            some (rows,{s with phase := .unmarking (.read softwareID .uninstall) (before ++ rest)}) := by
          simp only [alone,Sync.next,here,List.cons_append,if_neg passed,Sync.to]
        by_cases named : softwareID = ""
        · refine ⟨[true,true],{s with phase := .unmark (before ++ rest), result.uninstalled := s.result.uninstalled+1},?_,rfl,rfl⟩
          rw [Runs.runNext first]
          simp only [Runs.run,alone,Sync.next,Mark.next,if_pos named]
        · refine ⟨[true,true],{s with phase := .unmark (before ++ rest)},?_,rfl,rfl⟩
          rw [Runs.runNext first]
          simp only [Runs.run,alone,Sync.next,Mark.next,if_neg named,if_true,Sync.to]
    obtain ⟨turns,s₁,ran,phase,seen⟩ := next
    obtain ⟨turns',s₂,ran',phase',seen'⟩ := ih s₁ phase
    exact ⟨turns ++ turns',s₂,(Runs.runAppend ran).trans ran',phase',seen'.trans seen⟩

/- A row that the listing does not lead to is marked uninstalled. -/
theorem unreachedUnmarked {items : List Item} {rows : Installed} {sw : Software} (mem : sw ∈ c.softwares) (brew : ByBrew rows sw.id)
    (unreached : ¬Reached m c items sw.id) :
    ∃ turns, ∃ s : Sync, ∃ row, Runs.run (alone m fold c) (rows,begin (some items)) turns = some (rows,s) ∧
      s.writes = some (sw.id,row) ∧ row.packageManager = .packageManagerBrew ∧ row.uninstalled = true := by
  obtain ⟨row,there,kept,manager⟩ := brew
  have named : sw.id ≠ "" := by
    intro none
    rw [getSoftwareInstalled,if_pos none] at there
    cases there
  have stored : rows sw.id = some row := by
    rw [getSoftwareInstalled,if_neg named,Option.filter_eq_some_iff] at there
    exact there.1
  obtain ⟨s₁,ran₁,phase₁,seen₁⟩ := itemsPass (m := m) (c := c) fold rows items
    ⟨.items items,[],{brewInstalled := items.length}⟩ rfl
  have unseen : sw.id ∉ s₁.seenSoftware := fun old => (seen₁ sw.id old).elim (by simp) unreached
  have listed : (sw.id,row) ∈ listSoftwareInstalled c.softwares rows :=
    List.mem_filterMap.mpr ⟨sw,mem,by rw [there]; rfl⟩
  obtain ⟨before,rest,whole⟩ := List.append_of_mem listed
  have onward : Runs.run (alone m fold c) (rows,s₁) [false,false] = some (rows,{s₁ with phase := .unmark (before ++ (sw.id,row) :: rest)}) := by
    simp only [Runs.run,alone,Sync.next,phase₁,Sync.to,← whole]
    rfl
  obtain ⟨turns,s₂,ran₂,phase₂,seen₂⟩ := rowsPass (m := m) (c := c) fold rows before ((sw.id,row) :: rest)
    {s₁ with phase := .unmark (before ++ (sw.id,row) :: rest)} rfl
  have last : Runs.run (alone m fold c) (rows,s₂) [false,false] =
      some (rows,{s₂ with phase := .unmarking (.save sw.id {row with uninstalled := true, deleted := false}) rest}) := by
    have look : ¬(row.uninstalled = true ∨ row.packageManager ≠ .packageManagerBrew ∨ sw.id ∈ s₂.seenSoftware) := by
      rw [seen₂]
      simp [kept,manager,unseen]
    simp only [Runs.run,alone,Sync.next,phase₂,if_neg look,Sync.to,Mark.next,if_neg named,stored]
    rfl
  have first : alone m fold c (rows,begin (some items)) false = some (rows,⟨.items items,[],{brewInstalled := items.length}⟩) := rfl
  refine ⟨false :: (List.replicate items.length true ++ ([false,false] ++ (turns ++ [false,false]))),
    {s₂ with phase := .unmarking (.save sw.id {row with uninstalled := true, deleted := false}) rest},
    {row with uninstalled := true, deleted := false},?_,rfl,manager,rfl⟩
  rw [Runs.runNext first,Runs.runAppend ran₁,Runs.runAppend onward,Runs.runAppend ran₂]
  exact last

end

/- The call is right exactly when each software of brew's with an installed package can be told from
what brew lists. -/
theorem syncTells (m : CaseMap) (fold : Char → Char) (c : Catalog) (cellar : Cellar) (info : Info) (listFails : Bool) (before : Installed) :
    (∀ turns rows s, Runs.run (alone m fold c) (before,begin (listInstalledFormulae cellar info listFails)) turns = some (rows,s) →
      Sound m c cellar s) ↔
    (Answered info listFails → Telling m c cellar info before) := by
  rw [listingAnswered]
  cases listed : listInstalledFormulae cellar info listFails with
  | none =>
    refine iff_of_true ?_ (by rintro ⟨_,⟨⟩⟩)
    intro turns rows s ran
    cases turns with
    | nil =>
      cases Option.some.inj ran
      intro _ _ writes
      cases writes
    | cons k turns => cases ran
  | some items =>
    have told : ∀ it ∈ items, it.name ∈ cellar.names :=
      fun it mem => reportedInstalled (listingNames listed ▸ List.mem_map_of_mem mem)
    rw [forall_prop_of_true ⟨items,rfl⟩,← coveredTelling listed]
    constructor
    · intro sound sw mem brew present
      by_contra unreached
      obtain ⟨turns,s,row,ran,writes,manager,gone⟩ := unreachedUnmarked fold mem brew unreached
      exact (sound turns before s ran sw.id row writes manager).1 gone present
    · intro covered turns rows s ran
      exact knowsSound (Runs.runKeeps (fun knows moved => knowsStep covered told knows moved) (knowsBegin items before) ran)

/- A cask that brew has installed, and a host where `brew info` fails. -/
def cursor : Catalog := ⟨[⟨"s1","Cursor","cursor",true,false⟩],[],by decide⟩

theorem cursorSolid : ∀ n ∈ ["cursor"], n ≠ "" ∧ ∀ c ∈ n.toList, isSpace c = false := by
  intro n mem
  cases List.mem_singleton.mp mem
  refine ⟨by decide,?_⟩
  have none : "cursor".toList.all (fun c => !isSpace c) = true := by decide
  intro c inside
  exact (Bool.not_eq_true' _).mp (List.all_eq_true.mp none c inside)

def cursorCellar : Cellar := ⟨[],[⟨"cursor",.string "2.1"⟩],cursorSolid⟩

def cursorRows : Installed := fun softwareID =>
  if softwareID = "s1" then some ⟨"v1",.packageManagerBrew,false,false⟩ else none

theorem caskUnmarked : ¬∀ turns rows s,
    Runs.run (alone ascii id cursor) (cursorRows,begin (listInstalledFormulae cursorCellar .failed false)) turns = some (rows,s) →
      Sound ascii cursor cursorCellar s := by
  intro all
  have done : (Runs.run (alone ascii id cursor) (cursorRows,begin (listInstalledFormulae cursorCellar .failed false))
      (List.replicate 5 false)).map (fun x => x.2.writes) = some (some ("s1",⟨"v1",.packageManagerBrew,true,false⟩)) := by
    decide
  obtain ⟨⟨rows,s⟩,ran,writes⟩ := Option.map_eq_some_iff.mp done
  refine (all _ rows s ran "s1" _ writes rfl).1 rfl ?_
  exact ⟨⟨"s1","Cursor","cursor",true,false⟩,by decide,rfl,"cursor",by decide,by decide⟩

end ContainerWS.BrewSync
