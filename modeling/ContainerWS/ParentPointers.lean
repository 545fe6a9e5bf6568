import Mathlib.Data.List.Nodup
import Mathlib.Data.List.Perm.Subperm

/-! A tree that is read from pointers to parents. What stands under an element, or under none, is told by a function; nothing says
that the pointers lead nowhere in a circle. From the top on each element is met once all the same, as it stands under one
element only. -/
namespace ParentPointers

/- A tree's rows with what stands under each; the trees that follow are beside it. -/
inductive Forest (α : Type) where
  | nil
  | node (a : α) (children : Forest α) (rest : Forest α)
  deriving DecidableEq, Repr

/- The elements, each with the one that it stands under. -/
def Forest.places {α : Type} (p : Option α) : Forest α → List (Option α × α)
  | .nil => []
  | .node a children rest => (p,a) :: (children.places (some a) ++ rest.places p)

/- One node for each element of a list, unless one of them gives nothing. -/
def collect {α : Type} (nested : α → Option (Forest α)) : List α → Option (Forest α)
  | [] => some .nil
  | a :: rest => (nested a).bind fun children => (collect nested rest).map (Forest.node a children)

section
variable {α : Type} (children : Option α → List α)

/- The recursion, and none where the fuel is used up. -/
def grow : Nat → Option α → Option (Forest α)
  | 0,_ => none
  | fuel+1,p => collect (fun a => grow fuel (some a)) (children p)

/- What a chain from the top leads to, where a relation tells what stands under an element and what at the top. -/
inductive Reached (under : Option α → α → Prop) : Option α → Prop where
  | top : Reached under none
  | child {p : Option α} {a : α} (above : Reached under p) (here : under p a) : Reached under (some a)

/- The chain itself, the last element first. -/
inductive Descent : List α → Prop where
  | top : Descent []
  | child {a : α} {l : List α} (above : Descent l) (here : a ∈ children l.head?) : Descent (a :: l)

variable {children}

theorem reachedIff {p : Option α} : Reached (fun p a => a ∈ children p) p ↔ ∃ l, Descent children l ∧ l.head? = p := by
  constructor
  · intro reached
    induction reached with
    | top => exact ⟨[],.top,rfl⟩
    | child above here ih =>
      obtain ⟨l,chain,head⟩ := ih
      exact ⟨_ :: l,.child chain (head ▸ here),rfl⟩
  · rintro ⟨l,chain,rfl⟩
    induction chain with
    | top => exact .top
    | child above here ih => exact .child ih here

theorem descentTail {a : α} {l : List α} (chain : Descent children (a :: l)) : Descent children l := by
  cases chain with
  | child above _ => exact above

theorem descentSuffix {l m : List α} (chain : Descent children (l ++ m)) : Descent children m := by
  induction l with
  | nil => exact chain
  | cons _ l ih => exact ih (descentTail chain)

/- An element stands in one place. -/
def Single (children : Option α → List α) : Prop := ∀ p q a, a ∈ children p → a ∈ children q → p = q

/- There is one chain to an element. -/
theorem descentUnique (single : Single children) {a : α} {l m : List α} (one : Descent children (a :: l))
    (two : Descent children (a :: m)) : l = m := by
  induction l generalizing a m with
  | nil =>
    cases one with
    | child _ top =>
      cases two with
      | child _ here =>
        have head := single _ _ a top here
        exact (List.head?_eq_none_iff.mp head.symm).symm
  | cons b l ih =>
    cases one with
    | child above under =>
      cases two with
      | child other here =>
        have head := single _ _ a under here
        obtain ⟨k,rfl⟩ := List.head?_eq_some_iff.mp head.symm
        rw [ih above other]

/- So a chain has no element twice: it would end there as well. -/
theorem descentNodup (single : Single children) {l : List α} (chain : Descent children l) : l.Nodup := by
  induction chain with
  | top => exact List.nodup_nil
  | @child a l above here ih =>
    refine List.nodup_cons.mpr ⟨?_,ih⟩
    intro mem
    obtain ⟨s,t,rfl⟩ := List.append_of_mem mem
    have equal := descentUnique single (.child above here) (descentSuffix above)
    have longer := congrArg List.length equal
    simp only [List.length_append,List.length_cons] at longer
    omega

theorem descentWithin {rows : List α} (within : ∀ p, ∀ a ∈ children p, a ∈ rows) {l : List α} (chain : Descent children l) :
    ∀ a ∈ l, a ∈ rows := by
  induction chain with
  | top => exact List.forall_mem_nil _
  | child above here ih => exact List.forall_mem_cons.mpr ⟨within _ _ here,ih⟩

/- No chain is longer than there are rows. -/
theorem descentShort (single : Single children) {rows : List α} (within : ∀ p, ∀ a ∈ children p, a ∈ rows) {l : List α}
    (chain : Descent children l) : l.length ≤ rows.length :=
  (List.subperm_of_subset (descentNodup single chain) (descentWithin within chain)).length_le

/- A collection of trees has the elements, and what stands in the tree of each. -/
theorem collectPlaces {nested : α → Option (Forest α)} {l : List α} {f : Forest α} (made : collect nested l = some f) (p : Option α) :
    f.places p = l.flatMap fun a => (p,a) :: ((nested a).getD .nil).places (some a) := by
  induction l generalizing f with
  | nil => cases made; rfl
  | cons a rest ih =>
    obtain ⟨kids,nest,made⟩ := Option.bind_eq_some_iff.mp made
    obtain ⟨more,others,rfl⟩ := Option.map_eq_some_iff.mp made
    rw [Forest.places,List.flatMap_cons,← ih others,nest,Option.getD_some,List.cons_append]

theorem collectSome {nested : α → Option (Forest α)} {l : List α} (all : ∀ a ∈ l, (nested a).isSome = true) : ∃ f, collect nested l = some f := by
  induction l with
  | nil => exact ⟨.nil,rfl⟩
  | cons a rest ih =>
    obtain ⟨kids,nest⟩ := Option.isSome_iff_exists.mp (all a List.mem_cons_self)
    obtain ⟨more,others⟩ := ih fun b mem => all b (List.mem_cons_of_mem a mem)
    exact ⟨.node a kids more,by rw [collect,nest,others]; rfl⟩

theorem collectCongr {one two : α → Option (Forest α)} {l : List α} (same : ∀ a ∈ l, one a = two a) : collect one l = collect two l := by
  induction l with
  | nil => rfl
  | cons a rest ih => rw [collect,collect,same a List.mem_cons_self,ih fun b mem => same b (List.mem_cons_of_mem a mem)]

theorem collectMore {one two : α → Option (Forest α)} {l : List α} {f : Forest α} (made : collect one l = some f)
    (more : ∀ a g, one a = some g → two a = some g) : collect two l = some f := by
  induction l generalizing f with
  | nil => exact made
  | cons a rest ih =>
    obtain ⟨kids,nest,made⟩ := Option.bind_eq_some_iff.mp made
    obtain ⟨others,here,rfl⟩ := Option.map_eq_some_iff.mp made
    rw [collect,more a kids nest,Option.bind_some,ih here,Option.map_some]

/- More fuel changes nothing. -/
theorem growMore {fuel : Nat} {p : Option α} {f : Forest α} (made : grow children fuel p = some f) : grow children (fuel+1) p = some f := by
  induction fuel generalizing p f with
  | zero => contradiction
  | succ fuel ih => exact collectMore made fun a g here => ih here

theorem growEnough {fuel : Nat} (extra : Nat) {p : Option α} {f : Forest α} (made : grow children fuel p = some f) :
    grow children (fuel+extra) p = some f := by
  induction extra with
  | zero => exact made
  | succ extra ih => exact growMore ih

variable (children) in
/- The tree below a chain: what a longer chain leads to, each once. -/
structure Below (l : List α) (f : Forest α) : Prop where
  exactly : ∀ p a, (p,a) ∈ f.places l.head? ↔ ∃ m, Descent children (m ++ l) ∧ (m ++ l).head? = p ∧ a ∈ children p
  once : ((f.places l.head?).map Prod.snd).Nodup

/- What a child and its tree have are the ends of chains through the child. -/
theorem belowChain {l : List α} {a b : α} {f : Forest α} (chain : Descent children (a :: l)) (below : Below children (a :: l) f)
    (mem : b ∈ a :: (f.places (some a)).map Prod.snd) : ∃ m, Descent children (m ++ a :: l) ∧ (m ++ a :: l).head? = some b := by
  rcases List.mem_cons.mp mem with rfl | mem
  · exact ⟨[],chain,rfl⟩
  · obtain ⟨⟨p,_⟩,place,rfl⟩ := List.mem_map.mp mem
    obtain ⟨m,longer,rfl,under⟩ := (below.exactly p _).mp place
    exact ⟨_ :: m,.child longer under,rfl⟩

/- One round of the recursion. -/
theorem belowNode (single : Single children) (nodup : ∀ p, (children p).Nodup) {l : List α} (chain : Descent children l)
    {nested : α → Option (Forest α)} (nest : ∀ a ∈ children l.head?, ∃ f, nested a = some f ∧ Below children (a :: l) f) :
    ∃ f, collect nested (children l.head?) = some f ∧ Below children l f := by
  obtain ⟨f,made⟩ := collectSome fun a mem => (nest a mem).elim fun g held => Option.isSome_iff_exists.mpr ⟨g,held.1⟩
  have tree {a : α} (mem : a ∈ children l.head?) : Below children (a :: l) ((nested a).getD .nil) := by
    obtain ⟨g,given,below⟩ := nest a mem
    rwa [given]
  refine ⟨f,made,?_,?_⟩
  · intro p a
    rw [collectPlaces made,List.mem_flatMap]
    constructor
    · rintro ⟨b,mem,place⟩
      rcases List.mem_cons.mp place with here | place
      · cases here
        exact ⟨[],chain,rfl,mem⟩
      · obtain ⟨m,longer,head,under⟩ := ((tree mem).exactly p a).mp place
        exact ⟨m ++ [b],by rwa [List.append_assoc],by rwa [List.append_assoc],under⟩
    · rintro ⟨m,longer,rfl,under⟩
      rcases List.eq_nil_or_concat m with rfl | ⟨m,b,rfl⟩
      · exact ⟨a,under,List.mem_cons_self⟩
      · rw [List.concat_eq_append,List.append_assoc] at longer under ⊢
        have mem : b ∈ children l.head? := by
          cases descentSuffix longer with
          | child _ here => exact here
        exact ⟨b,mem,List.mem_cons_of_mem _ (((tree mem).exactly _ a).mpr ⟨m,longer,rfl,under⟩)⟩
  · rw [collectPlaces made,List.map_flatMap,List.nodup_flatMap]
    refine ⟨?_,?_⟩
    · intro a mem
      rw [List.map_cons,List.nodup_cons]
      refine ⟨?_,(tree mem).once⟩
      intro again
      obtain ⟨⟨p,b⟩,place,same⟩ := List.mem_map.mp again
      cases same
      obtain ⟨m,longer,head,under⟩ := ((tree mem).exactly p a).mp place
      rw [← head] at under
      have twice := descentNodup single (.child longer under)
      exact (List.nodup_cons.mp twice).1 (List.mem_append_right m List.mem_cons_self)
    · refine (nodup l.head?).imp_of_mem ?_
      intro a b left right different c one two
      simp only [List.map_cons] at one two
      obtain ⟨m,first,head⟩ := belowChain (.child chain left) (tree left) one
      obtain ⟨n,second,end_⟩ := belowChain (.child chain right) (tree right) two
      obtain ⟨s,here⟩ := List.head?_eq_some_iff.mp head
      obtain ⟨t,there⟩ := List.head?_eq_some_iff.mp end_
      rw [here] at first
      rw [there] at second
      have equal : m ++ a :: l = n ++ b :: l := by rw [here,there,descentUnique single first second]
      exact different (List.cons.inj (List.append_inj' equal rfl).2).1

theorem growBelow (single : Single children) (nodup : ∀ p, (children p).Nodup) {rows : List α} (within : ∀ p, ∀ a ∈ children p, a ∈ rows)
    (fuel : Nat) {l : List α} (chain : Descent children l) (enough : rows.length < fuel+l.length) :
    ∃ f, grow children fuel l.head? = some f ∧ Below children l f := by
  induction fuel generalizing l with
  | zero =>
    have short := descentShort single within chain
    omega
  | succ fuel ih =>
    refine belowNode single nodup chain fun a mem => ?_
    exact ih (.child chain mem) (by rw [List.length_cons]; omega)

/- From the top the recursion ends, and gives what chains lead to, each element once and where it stands. -/
theorem growExact (single : Single children) (nodup : ∀ p, (children p).Nodup) (rows : List α) (within : ∀ p, ∀ a ∈ children p, a ∈ rows)
    {under : Option α → α → Prop} (told : ∀ p a, a ∈ children p ↔ under p a) :
    ∃ f, (∀ fuel, rows.length < fuel → grow children fuel none = some f) ∧
      (∀ p a, (p,a) ∈ f.places none ↔ Reached under p ∧ under p a) ∧ ((f.places none).map Prod.snd).Nodup := by
  obtain rfl : (fun p a => a ∈ children p) = under := funext fun p => funext fun a => propext (told p a)
  obtain ⟨f,made,below⟩ := growBelow single nodup within (rows.length+1) .top (by omega)
  refine ⟨f,?_,?_,below.once⟩
  · intro fuel enough
    have more := growEnough (fuel-(rows.length+1)) made
    rwa [Nat.add_sub_cancel' enough] at more
  · intro p a
    rw [reachedIff]
    refine (below.exactly p a).trans ⟨?_,?_⟩
    · rintro ⟨m,chain,head,under⟩
      rw [List.append_nil] at chain head
      exact ⟨⟨m,chain,head⟩,under⟩
    · rintro ⟨⟨m,chain,head⟩,under⟩
      rw [← List.append_nil m] at chain head
      exact ⟨m,chain,head,under⟩

end

end ParentPointers
