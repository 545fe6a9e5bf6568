import ContainerWS.GoStrings
import ContainerWS.ParentPointers
import ContainerWS.WeakOrders

/-! The rows of models/navigation.go as modules/general/navigations.go loads them for a user: the roots of a container, or those
of none, and under each row the rows that name it as their parent. -/
namespace ContainerWS.General
open GoStrings ParentPointers WeakOrders

/- A column that may be NULL is an option. A role that is no text is none. -/
structure Navigation where
  id : String
  containerID : Option String
  parentID : Option String
  roles : List (Option String)
  orderNr : Int
  isActive : Bool
  deleted : Bool
  deriving DecidableEq, Repr

/- What gorm reads a column as. -/
def read (column : Option String) : String := column.getD ""

/- The id is the primary key, and BeforeCreate leaves none empty. The parents are anything. -/
structure NavigationTable where
  rows : List Navigation
  ids : (rows.map Navigation.id).Nodup
  named : ∀ r ∈ rows, r.id ≠ ""

def orderLess (a b : Navigation) : Bool := decide (a.orderNr < b.orderNr)

/- What is outside: the answers of `GetRole`, where there is an authorization, and how the database orders rows. -/
structure Outside where
  GetRole : Option (List String → List String → Bool × Bool)
  order : Sorting Navigation orderLess

variable (o : Outside) (userRoles : List String)

def requiredRoleNames (required : List (Option String)) : List String :=
  required.filterMap fun r => r.bind fun s => if trimSpace s ≠ "" then some (trimSpace s) else none

def userHasAdminRead : Bool :=
  if userRoles = [] then false
  else match o.GetRole with
    | none => false
    | some getRole => (getRole ["admin"] userRoles).1 && (getRole ["admin"] userRoles).2

def userCanAccessByRoles (required : List String) : Bool :=
  if required = [] then true
  else if userRoles = [] then false
  else match o.GetRole with
    | none => false
    | some getRole => (getRole required userRoles).1

def userCanAccessNavigation (navRoles : List (Option String)) : Bool :=
  userHasAdminRead o userRoles || userCanAccessByRoles o userRoles (requiredRoleNames navRoles)

def canAccess (r : Navigation) : Bool := userCanAccessNavigation o userRoles r.roles

variable (t : NavigationTable)

/- The rows that the query for the children of a row finds. -/
def childRows (containerID parentID : String) : List Navigation :=
  o.order.sort (t.rows.filter fun r => !r.deleted && r.parentID == some parentID && r.isActive &&
    (containerID == "" || r.containerID == some containerID))

/- The children that are left with theirs; none where the fuel is used up. -/
def getNavigationChildren : Nat → String → String → Option (Forest Navigation)
  | 0,_,_ => none
  | fuel+1,containerID,parentID =>
    collect (fun child => getNavigationChildren fuel containerID child.id)
      ((childRows o t containerID parentID).filter (canAccess o userRoles))

def rootRows (containerID : String) (containerFound : Bool) : List Navigation :=
  o.order.sort (t.rows.filter fun r => !r.deleted && r.isActive && (r.parentID == none || r.parentID == some "") &&
    (if containerFound && containerID != "" then r.containerID == some containerID
     else r.containerID == none || r.containerID == some ""))

def loadDBNavigations (fuel : Nat) (containerID : String) (containerFound : Bool) : Option (Forest Navigation) :=
  collect (fun root => getNavigationChildren o userRoles t fuel (read root.containerID) root.id)
    ((rootRows o t containerID containerFound).filter (canAccess o userRoles))

/- A row at the top or under another one: one of the table that is active, that the user may see and that names no parent or
that one; and that a condition holds for. -/
def Stands (within : Option Navigation → Navigation → Prop) (p : Option Navigation) (r : Navigation) : Prop :=
  (r ∈ t.rows ∧ r.deleted = false ∧ r.isActive = true ∧ canAccess o userRoles r = true) ∧
  (match p with
    | none => r.parentID = none ∨ r.parentID = some ""
    | some a => a ∈ t.rows ∧ r.parentID = some a.id) ∧ within p r

/- The container that is asked for. -/
def requested (containerID : String) (containerFound : Bool) : String := if containerFound then containerID else ""

/- A root is of the container, or of none where none is asked for; in a container the rows below are of it too. -/
def Contained (containerID : String) (p : Option Navigation) (r : Navigation) : Prop :=
  (containerID ≠ "" ∧ r.containerID = some containerID) ∨ (containerID = "" ∧ (p = none → read r.containerID = ""))

/- What the recursion finds under a row, and at the top. -/
def shown (containerID : String) (containerFound : Bool) : Option Navigation → List Navigation
  | none => (rootRows o t containerID containerFound).filter (canAccess o userRoles)
  | some a => if a ∈ t.rows then (childRows o t (requested containerID containerFound) a.id).filter (canAccess o userRoles) else []

variable {o} {userRoles} {t} {containerID : String} {containerFound : Bool}

theorem memShown (p : Option Navigation) (r : Navigation) : r ∈ shown o userRoles t containerID containerFound p ↔
    Stands o userRoles t (Contained (requested containerID containerFound)) p r := by
  cases p with
  | none =>
    rw [shown,List.mem_filter,rootRows,(o.order.perm _).mem_iff,List.mem_filter]
    unfold Stands Contained requested read
    cases containerFound <;> by_cases empty : containerID = "" <;> cases r.containerID <;> simp [empty] <;> grind
  | some a =>
    rw [shown]
    split
    · rename_i mem
      rw [List.mem_filter,childRows,(o.order.perm _).mem_iff,List.mem_filter]
      unfold Stands Contained
      by_cases empty : requested containerID containerFound = "" <;> simp [empty,mem] <;> grind
    · rename_i outside
      simp [Stands,outside]

theorem shownWithin (p : Option Navigation) : ∀ r ∈ shown o userRoles t containerID containerFound p, r ∈ t.rows :=
  fun r mem => ((memShown p r).mp mem).1.1

theorem shownNodup (p : Option Navigation) : (shown o userRoles t containerID containerFound p).Nodup := by
  have rows := List.Nodup.of_map Navigation.id t.ids
  cases p with
  | none => exact List.Nodup.filter _ ((o.order.perm _).nodup_iff.mpr (rows.filter _))
  | some a =>
    rw [shown]
    split
    · exact List.Nodup.filter _ ((o.order.perm _).nodup_iff.mpr (rows.filter _))
    · exact List.nodup_nil

/- A row names one parent, and the parent is the one row with that id. -/
theorem shownSingle : Single (shown o userRoles t containerID containerFound) := by
  intro p q r first second
  have one := ((memShown p r).mp first).2.1
  have two := ((memShown q r).mp second).2.1
  cases p with
  | none =>
    cases q with
    | none => rfl
    | some b =>
      rcases one with none | empty
      · rw [none] at two
        exact absurd two.2 (by simp)
      · rw [empty] at two
        exact absurd (Option.some.inj two.2).symm (t.named b two.1)
  | some a =>
    cases q with
    | none =>
      rcases two with none | empty
      · rw [none] at one
        exact absurd one.2 (by simp)
      · rw [empty] at one
        exact absurd (Option.some.inj one.2).symm (t.named a one.1)
    | some b => rw [List.inj_on_of_nodup_map t.ids one.1 two.1 (Option.some.inj (one.2.symm.trans two.2))]

theorem childrenGrow (fuel : Nat) {a : Navigation} (mem : a ∈ t.rows) :
    getNavigationChildren o userRoles t fuel (requested containerID containerFound) a.id =
      grow (shown o userRoles t containerID containerFound) fuel (some a) := by
  induction fuel generalizing a with
  | zero => rfl
  | succ fuel ih =>
    rw [getNavigationChildren,grow]
    have under : shown o userRoles t containerID containerFound (some a) =
        (childRows o t (requested containerID containerFound) a.id).filter (canAccess o userRoles) := if_pos mem
    rw [← under]
    exact collectCongr fun b here => ih (shownWithin (some a) b here)

/- Every root has the container that is asked for, or none. -/
theorem loadGrow (fuel : Nat) : loadDBNavigations o userRoles t fuel containerID containerFound =
    grow (shown o userRoles t containerID containerFound) (fuel+1) none := by
  rw [loadDBNavigations,grow]
  refine collectCongr fun r mem => ?_
  have contained := ((memShown none r).mp mem).2.2
  have container : read r.containerID = requested containerID containerFound := by
    rcases contained with ⟨-,same⟩ | ⟨empty,same⟩
    · rw [same]; rfl
    · rw [empty]; exact same rfl
  rw [container]
  exact childrenGrow fuel (shownWithin none r mem)

/- Whatever the parents are, the recursion ends, and the tree has each row once whose ancestors up to a root are active, are ones
that the user may see, and are of the container that is asked for. -/
theorem treeExact (o : Outside) (userRoles : List String) (t : NavigationTable) (containerID : String) (containerFound : Bool) :
    let stands := Stands o userRoles t (Contained (requested containerID containerFound))
    ∃ tree, (∀ fuel, t.rows.length ≤ fuel → loadDBNavigations o userRoles t fuel containerID containerFound = some tree) ∧
      (∀ p r, (p,r) ∈ tree.places none ↔ Reached stands p ∧ stands p r) ∧ ((tree.places none).map Prod.snd).Nodup := by
  have single : Single (shown o userRoles t containerID containerFound) := shownSingle
  obtain ⟨tree,made,exact_,once⟩ := growExact single shownNodup t.rows shownWithin memShown
  refine ⟨tree,?_,exact_,once⟩
  intro fuel enough
  rw [loadGrow]
  exact made (fuel+1) (by omega)

def anyone : Outside := ⟨none,byRank orderLess⟩

def menu : Navigation := ⟨"m",some "c",none,[],0,true,false⟩

def entry : Navigation := ⟨"e",none,some "m",[],1,true,false⟩

def twoRows : NavigationTable := ⟨[menu,entry],by decide,by decide⟩

/- A row of no container under one of a container is not in the tree, though every ancestor is active and may be seen. -/
theorem otherContainer : ¬ ∃ tree, (∀ fuel, twoRows.rows.length ≤ fuel → loadDBNavigations anyone [] twoRows fuel "c" true = some tree) ∧
    ∀ p r, (p,r) ∈ tree.places none ↔
      Reached (Stands anyone [] twoRows fun _ _ => True) p ∧ Stands anyone [] twoRows (fun _ _ => True) p r := by
  rintro ⟨tree,made,whole⟩
  have single : Single (shown anyone [] twoRows "c" true) := shownSingle
  obtain ⟨other,again,exact_,-⟩ := growExact single shownNodup twoRows.rows shownWithin memShown
  have same : tree = other := by
    have first := made 2 (le_refl 2)
    rw [loadGrow,again 3 (by decide)] at first
    exact (Option.some.inj first).symm
  have root : Stands anyone [] twoRows (fun _ _ => True) none menu := by unfold Stands; decide
  have child : Stands anyone [] twoRows (fun _ _ => True) (some menu) entry := by unfold Stands; decide
  have place := (whole (some menu) entry).mpr ⟨.child .top root,child⟩
  rw [same] at place
  rcases ((exact_ _ _).mp place).2.2.2 with ⟨-,contained⟩ | ⟨empty,-⟩
  · exact absurd contained (by decide)
  · exact absurd empty (by decide)

end ContainerWS.General
