import ContainerWS.GoStrings
import ContainerWS.WeakOrders
import Mathlib.Algebra.BigOperators.Group.List.Lemmas
import Mathlib.Algebra.GroupWithZero.Nat
import Mathlib.Data.Prod.Lex
import Mathlib.Data.String.Basic
import Mathlib.Order.Basic

/-! The list of softwares/list/list.go behind the rows that were loaded: how it is ordered, which categories it says
there are, and what a category leaves of it. -/
namespace ContainerWS.Softwares
open GoStrings WeakOrders

/- The time of the latest version is what `Format` writes of it. -/
structure ListItem where
  name : String
  category : String
  order : Int
  updatedAt : Option String
  hasUpdate : Bool
  isRemote : Bool
  deriving DecidableEq, Repr

section
variable (m : CaseMap)

/- The function that sortSoftwareItems hands to `sort.SliceStable`. -/
def itemLess (sortKey : String) (a b : ListItem) : Bool :=
  if sortKey = "name" then decide (m.toLower a.name < m.toLower b.name)
  else if sortKey = "category" then
    if a.category ≠ b.category then decide (m.toLower a.category < m.toLower b.category)
    else decide (m.toLower a.name < m.toLower b.name)
  else if sortKey = "recent" then
    let at_ := a.updatedAt.getD ""
    let bt := b.updatedAt.getD ""
    if at_ ≠ bt then decide (bt < at_) else decide (m.toLower a.name < m.toLower b.name)
  else if a.order ≠ b.order then decide (a.order < b.order)
  else decide (m.toLower a.name < m.toLower b.name)

def sortSoftwareItems (sortKey : String) (s : Sorting ListItem (itemLess m sortKey)) (items : List ListItem) : List ListItem := s.sort items

/- A comparison of two keys, the second where the first are the same. -/
theorem lexLess {κ : Type} [LinearOrder κ] (a b : κ) (c d : String) :
    (if a ≠ b then decide (a < b) else decide (c < d)) = true ↔ toLex (a,c) < toLex (b,d) := by
  rw [Prod.Lex.toLex_lt_toLex]
  split
  · rename_i other
    simp [other]
  · rename_i same
    rw [ne_eq,not_not] at same
    simp [same]

/- The categories that differ in case only are alike: a category that occurs in another case has items of one name. -/
def OneSpelling (items : List ListItem) : Prop :=
  ∀ a ∈ items, ∀ b ∈ items, ∀ c ∈ items, a.category = c.category → m.toLower b.category = m.toLower a.category →
    b.category ≠ a.category → m.toLower a.name = m.toLower c.name

/- What the sort of a list promises, and what follows of it. -/
structure SortedWell (sortKey : String) (items : List ListItem) : Prop where
  weak : StrictWeak (itemLess m sortKey) items
  sorted : ∀ s : Sorting ListItem (itemLess m sortKey),
    (sortSoftwareItems m sortKey s items).Perm items ∧
    (sortSoftwareItems m sortKey s items).Pairwise fun a b => itemLess m sortKey b a = false
  ties : ∀ (s t : Sorting ListItem (itemLess m sortKey)) (other : List ListItem), items.Perm other → ∀ (i : Nat) (a b : ListItem),
    (sortSoftwareItems m sortKey s items)[i]? = some a → (sortSoftwareItems m sortKey t other)[i]? = some b →
    Tied (itemLess m sortKey) a b

variable {m} {sortKey : String} {items : List ListItem}

theorem weakSorts (weak : StrictWeak (itemLess m sortKey) items) : SortedWell m sortKey items := by
  refine ⟨weak,fun s => ⟨s.perm items,s.ordered items weak⟩,?_⟩
  intro s t other perm
  have one := s.perm items
  have two := t.perm other
  exact sortedTied (weak.perm one.symm) (one.trans (perm.trans two.symm)) (s.ordered items weak) (t.ordered other (weak.perm perm))

/- Every key but the category is one that is compared. -/
theorem otherWeak (other : sortKey ≠ "category") : StrictWeak (itemLess m sortKey) items := by
  by_cases name : sortKey = "name"
  · refine keyed (f := fun a => m.toLower a.name) (fun a b => ?_) items
    rw [itemLess,if_pos name,decide_eq_true_eq]
  · by_cases recent : sortKey = "recent"
    · refine keyed (f := fun a => toLex (OrderDual.toDual (a.updatedAt.getD ""),m.toLower a.name)) (fun a b => ?_) items
      rw [itemLess,if_neg name,if_neg other,if_pos recent,← lexLess]
      rfl
    · refine keyed (f := fun a => toLex (a.order,m.toLower a.name)) (fun a b => ?_) items
      rw [itemLess,if_neg name,if_neg other,if_neg recent,← lexLess]

theorem categoryTied (a b : ListItem) : Tied (itemLess m "category") a b ↔
    (a.category ≠ b.category ∧ m.toLower a.category = m.toLower b.category) ∨
    (a.category = b.category ∧ m.toLower a.name = m.toLower b.name) := by
  have form (a b : ListItem) : itemLess m "category" a b =
      if a.category ≠ b.category then decide (m.toLower a.category < m.toLower b.category)
      else decide (m.toLower a.name < m.toLower b.name) := by
    rw [itemLess,if_neg (by decide),if_pos rfl]
  unfold Tied
  rw [form,form]
  by_cases same : a.category = b.category
  · simp only [same,ne_eq,not_true_eq_false,if_false,decide_eq_false_iff_not,not_lt,true_and,false_and,false_or]
    exact ⟨fun held => le_antisymm held.2 held.1,fun equal => ⟨equal.ge,equal.le⟩⟩
  · have back : b.category ≠ a.category := fun equal => same equal.symm
    simp only [ne_eq,same,back,not_false_eq_true,if_true,decide_eq_false_iff_not,not_lt,true_and,false_and,or_false]
    exact ⟨fun held => le_antisymm held.2 held.1,fun equal => ⟨equal.ge,equal.le⟩⟩

theorem categoryLess (a b : ListItem) : itemLess m "category" a b = true ↔
    (a.category ≠ b.category ∧ m.toLower a.category < m.toLower b.category) ∨
    (a.category = b.category ∧ m.toLower a.name < m.toLower b.name) := by
  rw [itemLess,if_neg (by decide),if_pos rfl]
  by_cases same : a.category = b.category <;> simp [same]

/- By category the comparator is a strict weak order unless items of one category, with names that differ, stand beside one of
the same category in another case. -/
theorem categoryWeak : StrictWeak (itemLess m "category") items ↔ OneSpelling m items := by
  constructor
  · intro weak a ha b hb c hc same lower other
    have one := (categoryTied (m := m) a b).mpr (.inl ⟨Ne.symm other,lower.symm⟩)
    have two := (categoryTied (m := m) b c).mpr (.inl ⟨same ▸ other,same ▸ lower⟩)
    exact (((categoryTied a c).mp (weak.ties a ha b hb c hc one two)).resolve_left fun held => held.1 same).2
  · intro spelled
    refine ⟨?_,?_,?_⟩
    · intro a _
      rw [← Bool.not_eq_true,categoryLess]
      simp
    · intro a _ b _ c _ one two
      rw [categoryLess] at one two ⊢
      rcases one with ⟨other,less⟩ | ⟨same,less⟩
      · rcases two with ⟨other',less'⟩ | ⟨same',less'⟩
        · exact .inl ⟨fun equal => lt_irrefl _ ((less.trans less').trans_eq (congrArg m.toLower equal.symm)),less.trans less'⟩
        · exact .inl ⟨same' ▸ other,same' ▸ less⟩
      · rcases two with ⟨other',less'⟩ | ⟨same',less'⟩
        · exact .inl ⟨same ▸ other',same ▸ less'⟩
        · exact .inr ⟨same.trans same',less.trans less'⟩
    · intro a ha b hb c hc one two
      rw [categoryTied] at one two ⊢
      rcases one with ⟨other,lower⟩ | ⟨same,lower⟩
      · rcases two with ⟨other',lower'⟩ | ⟨same',lower'⟩
        · by_cases back : a.category = c.category
          · exact .inr ⟨back,spelled a ha b hb c hc back lower.symm (Ne.symm other)⟩
          · exact .inl ⟨back,lower.trans lower'⟩
        · exact .inl ⟨same' ▸ other,same' ▸ lower⟩
      · rcases two with ⟨other',lower'⟩ | ⟨same',lower'⟩
        · exact .inl ⟨same ▸ other',same ▸ lower'⟩
        · exact .inr ⟨same.trans same',lower.trans lower'⟩

/- The list is sorted well, whatever the key, if and only if by category there is one spelling. -/
theorem sortsIff (m : CaseMap) (sortKey : String) (items : List ListItem) :
    SortedWell m sortKey items ↔ (sortKey = "category" → OneSpelling m items) := by
  constructor
  · rintro well rfl
    exact categoryWeak.mp well.weak
  · intro spelled
    by_cases category : sortKey = "category"
    · subst category
      exact weakSorts (categoryWeak.mpr (spelled rfl))
    · exact weakSorts (otherWeak category)

def item (name category : String) : ListItem := ⟨name,category,0,none,false,false⟩

def mixedCase : List ListItem := [item "b" "Web",item "c" "web",item "a" "Web"]

/- Two items tie with a third one, and not with each other. -/
theorem mixedCaseTies : ¬ SortedWell ascii "category" mixedCase := by
  have apart : ¬ OneSpelling ascii mixedCase := by
    intro one
    exact absurd (one (item "b" "Web") (by decide) (item "c" "web") (by decide) (item "a" "Web") (by decide) rfl (by decide) (by decide)) (by decide)
  exact fun well => apart (categoryWeak.mp well.weak)

end

/- `strings.EqualFold`: each character is folded to one of those that it stands for, a letter of ASCII to the small one. -/
def EqualFold (folds : LowerMap) (s t : String) : Prop := folds.toLower s = folds.toLower t

instance (folds : LowerMap) (s t : String) : Decidable (EqualFold folds s t) := inferInstanceAs (Decidable (_ = _))

structure CategoryFacet where
  name : String
  count : Nat
  deriving DecidableEq, Repr

structure ListFacets where
  categories : List CategoryFacet
  updateCount : Nat
  totalActive : Nat
  remoteCount : Nat

def ListItem.trimmed (item : ListItem) : String := trimSpace item.category

def facetName (item : ListItem) : String := if item.trimmed = "" then "Other" else item.trimmed

def facetLess (m : CaseMap) (a b : CategoryFacet) : Bool := decide (m.toLower a.name < m.toLower b.name)

/- The map of the counts. -/
def facetRows (names : List String) : List CategoryFacet := names.dedup.map fun name => ⟨name,names.count name⟩

/- The rows of the map come in any order; the sort leaves those open that differ in case. -/
def buildFacets (m : CaseMap) (s : Sorting CategoryFacet (facetLess m)) (items : List ListItem) : ListFacets :=
  ⟨s.sort (facetRows (items.map facetName)),items.countP ListItem.hasUpdate,items.length,items.countP ListItem.isRemote⟩

/- The list that a request with a category and no other filter gets. -/
def filterCategory (folds : LowerMap) (query : String) (items : List ListItem) : List ListItem :=
  let category := trimSpace query
  if category ≠ "" ∧ ¬ EqualFold folds category "all" then items.filter fun item => decide (EqualFold folds item.trimmed category)
  else items

/- Each facet counts what its name leaves of the list, and together they count it all. -/
def FacetsAgree (folds : LowerMap) (items : List ListItem) (facets : ListFacets) : Prop :=
  (∀ f ∈ facets.categories, (filterCategory folds f.name items).length = f.count) ∧ (facets.categories.map CategoryFacet.count).sum = items.length

/- The items whose category is written like the name of the facet for those without one, but in another case. -/
def otherCase (folds : LowerMap) (item : ListItem) : Bool := decide (item.trimmed ≠ "Other" ∧ EqualFold folds item.trimmed "Other")

/- Categories that differ in case only are written in one way; items without a category are none, or as many as those of the
category `other` in another case; and `all` is no category, or that of all items. -/
structure Distinct (folds : LowerMap) (items : List ListItem) : Prop where
  spelled : ∀ a ∈ items, ∀ b ∈ items, a.trimmed ≠ "" → b.trimmed ≠ "" → EqualFold folds a.trimmed b.trimmed → a.trimmed = b.trimmed
  blank : (items.countP fun item => decide (item.trimmed = "")) = 0 ∨
    (items.countP fun item => decide (item.trimmed = "")) = items.countP (otherCase folds)
  whole : ∀ a ∈ items, EqualFold folds a.trimmed "all" → ∀ b ∈ items, b.trimmed = a.trimmed

section
variable {folds : LowerMap} {items : List ListItem}

theorem foldBlank (s : String) : EqualFold folds "" s ↔ s = "" := by
  unfold EqualFold CaseMap.toLower
  constructor
  · intro same
    have chars := congrArg String.toList same
    simp only [String.toList_ofList] at chars
    have none : "".toList.map folds.lower = [] := rfl
    exact String.toList_eq_nil_iff.mp (List.map_eq_nil_iff.mp (chars.symm.trans none))
  · rintro rfl
    rfl

theorem otherAll : ¬ EqualFold folds "Other" "all" := by
  unfold EqualFold
  have small (s : String) (ascii : s.toList.all (fun c => decide (c.toNat < 128)) = true) : folds.toLower s = GoStrings.ascii.toLower s :=
    toLowerAscii folds fun c mem => of_decide_eq_true (List.all_eq_true.mp ascii c mem)
  rw [small "Other" (by decide),small "all" (by decide)]
  decide

theorem nameFilled (item : ListItem) : trimSpace (facetName item) = facetName item ∧ facetName item ≠ "" := by
  unfold facetName
  split
  · decide
  · exact ⟨trimSpaceTwice _,by assumption⟩

/- What the name of a facet leaves. -/
theorem filterLength (item : ListItem) : (filterCategory folds (facetName item) items).length =
    if EqualFold folds (facetName item) "all" then items.length
    else items.countP fun other => decide (EqualFold folds other.trimmed (facetName item)) := by
  obtain ⟨plain,filled⟩ := nameFilled item
  unfold filterCategory
  rw [plain]
  dsimp only
  by_cases all : EqualFold folds (facetName item) "all"
  · rw [if_neg (by simp [all]),if_pos all]
  · rw [if_pos ⟨filled,all⟩,if_neg all,List.countP_eq_length_filter]

theorem facetNamed {item : ListItem} {n : String} (other : n ≠ "Other") : facetName item = n ↔ item.trimmed = n ∧ n ≠ "" := by
  unfold facetName
  split
  · rename_i blank
    rw [blank]
    exact ⟨fun same => absurd same.symm other,fun held => absurd held.1.symm held.2⟩
  · rename_i filled
    exact ⟨fun same => ⟨same,same ▸ filled⟩,fun held => held.1⟩

theorem facetOther {item : ListItem} : facetName item = "Other" ↔ item.trimmed = "" ∨ item.trimmed = "Other" := by
  unfold facetName
  split
  · rename_i blank
    exact iff_of_true rfl (.inl blank)
  · rename_i filled
    exact ⟨.inr,fun held => held.resolve_left filled⟩

theorem countSame {p q : ListItem → Bool} (fewer : ∀ b, p b = true → q b = true) :
    items.countP q = items.countP p ↔ ∀ b ∈ items, q b = true → p b = true := by
  constructor
  · intro same b mem held
    by_contra other
    have less : items.countP p < items.countP q := by
      obtain ⟨front,back,rfl⟩ := List.append_of_mem mem
      have one : front.countP p ≤ front.countP q := List.countP_mono_left fun x _ => fewer x
      have two : back.countP p ≤ back.countP q := List.countP_mono_left fun x _ => fewer x
      rw [List.countP_append,List.countP_append,List.countP_cons_of_neg other,List.countP_cons_of_pos held]
      omega
    omega
  · exact fun back => List.countP_congr fun b mem => ⟨back b mem,fewer b⟩

/- A name counts what it leaves, for one item of its facet. -/
def Agrees (folds : LowerMap) (items : List ListItem) (item : ListItem) : Prop :=
  (filterCategory folds (facetName item) items).length = items.countP fun other => decide (facetName other = facetName item)

theorem agreesAll {item : ListItem} (all : EqualFold folds (facetName item) "all") :
    Agrees folds items item ↔ ∀ b ∈ items, facetName b = facetName item := by
  rw [Agrees,filterLength,if_pos all,eq_comm,List.countP_eq_length]
  simp only [decide_eq_true_eq]

theorem agreesNamed {item : ListItem} (all : ¬ EqualFold folds (facetName item) "all") (other : facetName item ≠ "Other") :
    Agrees folds items item ↔ ∀ b ∈ items, EqualFold folds b.trimmed (facetName item) → b.trimmed = facetName item := by
  have filled := (nameFilled item).2
  have counted : (fun b => decide (facetName b = facetName item)) = fun b : ListItem => decide (b.trimmed = facetName item) := by
    funext b
    rw [decide_eq_decide,facetNamed other]
    exact ⟨And.left,fun same => ⟨same,filled⟩⟩
  rw [Agrees,filterLength,if_neg all,counted,countSame]
  · simp only [decide_eq_true_eq]
  · simp only [decide_eq_true_eq]
    exact fun b same => congrArg folds.toLower same

/- What is written like the name of the facet, in its case or in another one. -/
theorem countCases (items : List ListItem) : (items.countP fun b => decide (EqualFold folds b.trimmed "Other")) =
    (items.countP fun b => decide (b.trimmed = "Other"))+items.countP (otherCase folds) := by
  induction items with
  | nil => rfl
  | cons b items ih =>
    simp only [List.countP_cons,ih,otherCase,decide_eq_true_eq]
    by_cases same : b.trimmed = "Other"
    · simp only [same,EqualFold,ne_eq,not_true_eq_false,false_and,if_true,if_false]
      omega
    · simp only [same,ne_eq,not_false_eq_true,true_and,if_false]
      omega

theorem countFacet (items : List ListItem) : (items.countP fun b => decide (facetName b = "Other")) =
    (items.countP fun b => decide (b.trimmed = ""))+(items.countP fun b => decide (b.trimmed = "Other")) := by
  induction items with
  | nil => rfl
  | cons b items ih =>
    simp only [List.countP_cons]
    rw [ih]
    simp only [facetOther,decide_eq_true_eq]
    by_cases blank : b.trimmed = ""
    · simp only [blank,true_or,if_true]
      rw [if_neg (by decide)]
      omega
    · simp only [blank,false_or,if_false]
      omega

theorem agreesOther {item : ListItem} (other : facetName item = "Other") :
    Agrees folds items item ↔ (items.countP fun item => decide (item.trimmed = "")) = items.countP (otherCase folds) := by
  rw [Agrees,filterLength,other,if_neg otherAll,countCases,countFacet]
  omega

theorem agreesIff : (∀ item ∈ items, Agrees folds items item) ↔ Distinct folds items := by
  constructor
  · intro agrees
    -- of two spellings one is not that of the facet for those without a category
    have apart {a b : ListItem} (ha : a ∈ items) (hb : b ∈ items) (filled : a.trimmed ≠ "") (some : b.trimmed ≠ "")
        (fold : EqualFold folds b.trimmed a.trimmed) (named : a.trimmed ≠ "Other") : b.trimmed = a.trimmed := by
      have name : facetName a = a.trimmed := (facetNamed named).mpr ⟨rfl,filled⟩
      have here := agrees a ha
      by_cases all : EqualFold folds (facetName a) "all"
      · have same := (agreesAll all).mp here b hb
        rw [name,facetNamed named] at same
        exact same.1
      · rw [agreesNamed all (name ▸ named),name] at here
        exact here b hb fold
    refine ⟨?_,?_,?_⟩
    · intro a ha b hb filled some fold
      by_cases named : a.trimmed = "Other"
      · by_cases same : b.trimmed = "Other"
        · exact named.trans same.symm
        · exact apart hb ha some filled fold same
      · exact (apart ha hb filled some fold.symm named).symm
    · by_cases none : (items.countP fun item => decide (item.trimmed = "")) = 0
      · exact .inl none
      · obtain ⟨a,ha,blank⟩ := List.countP_pos_iff.mp (Nat.pos_of_ne_zero none)
        exact .inr ((agreesOther (facetOther.mpr (.inl (of_decide_eq_true blank)))).mp (agrees a ha))
    · intro a ha fold b hb
      have filled : a.trimmed ≠ "" := by
        intro blank
        rw [blank,foldBlank] at fold
        exact absurd fold (by decide)
      have named : a.trimmed ≠ "Other" := fun other => otherAll (other ▸ fold)
      have name : facetName a = a.trimmed := (facetNamed named).mpr ⟨rfl,filled⟩
      have same := (agreesAll (name.symm ▸ fold)).mp (agrees a ha) b hb
      rw [name,facetNamed named] at same
      exact same.1
  · intro distinct item mem
    by_cases other : facetName item = "Other"
    · rw [agreesOther other]
      refine distinct.blank.elim (fun none => ?_) id
      rw [none,eq_comm,List.countP_eq_zero]
      intro b hb held
      obtain ⟨written,fold⟩ := of_decide_eq_true held
      have filled : item.trimmed ≠ "" := by
        intro blank
        exact List.countP_eq_zero.mp none item mem (decide_eq_true blank)
      have here : item.trimmed = "Other" := (facetOther.mp other).resolve_left filled
      have some : b.trimmed ≠ "" := by
        intro blank
        rw [blank,foldBlank] at fold
        exact absurd fold (by decide)
      exact written ((distinct.spelled b hb item mem some filled (here ▸ fold)).trans here)
    · obtain ⟨name,filled⟩ := (facetNamed other).mp rfl
      by_cases all : EqualFold folds (facetName item) "all"
      · rw [agreesAll all]
        intro b hb
        have same := distinct.whole item mem (name ▸ all) b hb
        exact (facetNamed other).mpr ⟨same.trans name,filled⟩
      · rw [agreesNamed all other]
        intro b hb fold
        have some : b.trimmed ≠ "" := by
          intro blank
          rw [blank,foldBlank] at fold
          exact filled fold
        exact (distinct.spelled b hb item mem some (name ▸ filled) (name ▸ fold)).trans name

end

theorem rowsMem (names : List String) (f : CategoryFacet) : f ∈ facetRows names ↔ f.name ∈ names ∧ f.count = names.count f.name := by
  rw [facetRows,List.mem_map]
  constructor
  · rintro ⟨name,inside,rfl⟩
    exact ⟨List.mem_dedup.mp inside,rfl⟩
  · rintro ⟨inside,count⟩
    exact ⟨f.name,List.mem_dedup.mpr inside,by rw [← count]⟩

theorem rowsSum (names : List String) : ((facetRows names).map CategoryFacet.count).sum = names.length := by
  rw [facetRows,List.map_map]
  exact List.sum_map_count_dedup_eq_length names

theorem nameCount (items : List ListItem) (name : String) :
    (items.map facetName).count name = items.countP fun other => decide (facetName other = name) := by
  rw [List.count,List.countP_map]
  refine List.countP_congr fun other _ => ?_
  rw [Function.comp_apply,beq_iff_eq,decide_eq_true_eq]

/- Facets agree when each item's name counts what it leaves; that they count it all is so in any case. -/
theorem facetsAgree (m : CaseMap) (folds : LowerMap) (s : Sorting CategoryFacet (facetLess m)) (items : List ListItem) :
    FacetsAgree folds items (buildFacets m s items) ↔ ∀ item ∈ items, Agrees folds items item := by
  have rows : (buildFacets m s items).categories.Perm (facetRows (items.map facetName)) := s.perm _
  generalize (buildFacets m s items) = facets at rows
  have total : (facets.categories.map CategoryFacet.count).sum = items.length := by
    rw [(rows.map CategoryFacet.count).sum_eq,rowsSum,List.length_map]
  constructor
  · rintro ⟨held,_⟩ item mem
    have row := held ⟨facetName item,(items.map facetName).count (facetName item)⟩
    dsimp only at row
    rw [rows.mem_iff,rowsMem,nameCount] at row
    exact row ⟨List.mem_map_of_mem mem,rfl⟩
  · refine fun agrees => ⟨fun f mem => ?_,total⟩
    rw [rows.mem_iff,rowsMem,nameCount] at mem
    obtain ⟨inside,count⟩ := mem
    obtain ⟨item,here,same⟩ := List.mem_map.mp inside
    have agree := agrees item here
    rw [Agrees,same] at agree
    rw [agree,count]

/- The facets of a list agree with its filter if and only if the categories are distinct. -/
theorem facetsIff (m : CaseMap) (folds : LowerMap) (s : Sorting CategoryFacet (facetLess m)) (items : List ListItem) :
    FacetsAgree folds items (buildFacets m s items) ↔ Distinct folds items := by
  rw [facetsAgree,agreesIff]

/- One item without a category: its facet leaves nothing. -/
theorem blankFacet : ¬ FacetsAgree asciiLower [item "a" ""] (buildFacets ascii (byRank (facetLess ascii)) [item "a" ""]) := by
  rw [facetsAgree,agreesIff]
  intro distinct
  exact absurd distinct.blank (by decide)

end ContainerWS.Softwares
