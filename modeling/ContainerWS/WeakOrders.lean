import Mathlib.Data.List.Sort
import Mathlib.Order.Defs.LinearOrder

/-! Comparators on the elements of a list: which of them are strict weak orders, and what a sort by one of these
is, whatever the algorithm. -/
namespace WeakOrders
variable {α : Type} {less : α → α → Bool} {l : List α}

/- Neither comes before the other. -/
def Tied (less : α → α → Bool) (a b : α) : Prop := less a b = false ∧ less b a = false

structure StrictWeak (less : α → α → Bool) (l : List α) : Prop where
  irreflexive : ∀ a ∈ l, less a a = false
  transitive : ∀ a ∈ l, ∀ b ∈ l, ∀ c ∈ l, less a b = true → less b c = true → less a c = true
  ties : ∀ a ∈ l, ∀ b ∈ l, ∀ c ∈ l, Tied less a b → Tied less b c → Tied less a c

/- A comparator that compares keys. -/
theorem keyed {κ : Type} [LinearOrder κ] {f : α → κ} (same : ∀ a b, less a b = true ↔ f a < f b) (l : List α) : StrictWeak less l := by
  have tied (a b : α) : Tied less a b ↔ f a = f b := by
    unfold Tied
    rw [← Bool.not_eq_true,← Bool.not_eq_true,same,same,not_lt,not_lt]
    exact ⟨fun held => le_antisymm held.2 held.1,fun equal => ⟨equal.ge,equal.le⟩⟩
  refine ⟨fun a _ => ?_,fun a _ b _ c _ one two => ?_,fun a _ b _ c _ one two => ?_⟩
  · rw [← Bool.not_eq_true,same]
    exact lt_irrefl _
  · exact (same a c).mpr (((same a b).mp one).trans ((same b c).mp two))
  · exact (tied a c).mpr (((tied a b).mp one).trans ((tied b c).mp two))

theorem StrictWeak.perm {other : List α} (weak : StrictWeak less l) (perm : l.Perm other) : StrictWeak less other := by
  have back : ∀ a ∈ other, a ∈ l := fun a mem => perm.mem_iff.mpr mem
  exact ⟨fun a here => weak.irreflexive a (back a here),
    fun a here b there c last => weak.transitive a (back a here) b (back b there) c (back c last),
    fun a here b there c last => weak.ties a (back a here) b (back b there) c (back c last)⟩

/- How many come before an element. -/
def rank (less : α → α → Bool) (l : List α) (a : α) : Nat := l.countP (less · a)

/- What comes before an element comes before all that is not before it. -/
theorem StrictWeak.before (weak : StrictWeak less l) {a b c : α} (ha : a ∈ l) (hb : b ∈ l) (hc : c ∈ l) (earlier : less a b = true)
    (notBefore : less c b = false) : less a c = true := by
  by_contra other
  rw [Bool.not_eq_true] at other
  have late : less c a = false := by
    by_contra first
    rw [Bool.not_eq_false] at first
    rw [weak.transitive c hc a ha b hb first earlier] at notBefore
    cases notBefore
  cases next : less b c with
  | true =>
    rw [weak.transitive a ha b hb c hc earlier next] at other
    cases other
  | false =>
    have equal := (weak.ties a ha c hc b hb ⟨other,late⟩ ⟨notBefore,next⟩).1
    rw [earlier] at equal
    cases equal

theorem StrictWeak.rankLess (weak : StrictWeak less l) {a b : α} (ha : a ∈ l) (hb : b ∈ l) :
    less a b = true ↔ rank less l a < rank less l b := by
  have mono {c d : α} (hc : c ∈ l) (hd : d ∈ l) (late : less d c = false) : rank less l c ≤ rank less l d :=
    List.countP_mono_left fun x mem earlier => weak.before mem hc hd earlier late
  constructor
  · intro earlier
    -- a itself comes before b, and not before a
    obtain ⟨front,back,shape⟩ := List.append_of_mem ha
    have parts (c : α) : rank less l c = front.countP (less · c)+back.countP (less · c)+(if less a c then 1 else 0) := by
      rw [rank,shape,List.countP_append,List.countP_cons]
      omega
    have grows {x : α} (mem : x ∈ l) (first : less x a = true) : less x b = true := weak.transitive x mem a ha b hb first earlier
    have one : front.countP (less · a) ≤ front.countP (less · b) :=
      List.countP_mono_left fun x mem => grows (shape ▸ List.mem_append_left _ mem)
    have two : back.countP (less · a) ≤ back.countP (less · b) :=
      List.countP_mono_left fun x mem => grows (shape ▸ List.mem_append_right _ (List.mem_cons_of_mem _ mem))
    rw [parts a,parts b,weak.irreflexive a ha,earlier]
    simp only [Bool.false_eq_true,if_false,if_true]
    omega
  · intro lower
    by_contra other
    rw [Bool.not_eq_true] at other
    exact absurd (mono hb ha other) (Nat.not_le.mpr lower)

theorem StrictWeak.rankTied (weak : StrictWeak less l) {a b : α} (ha : a ∈ l) (hb : b ∈ l) :
    Tied less a b ↔ rank less l a = rank less l b := by
  unfold Tied
  rw [← Bool.not_eq_true,← Bool.not_eq_true,weak.rankLess ha hb,weak.rankLess hb ha]
  omega

/- A sort: the same elements, and in order where the comparator is a strict weak order. -/
structure Sorting (α : Type) (less : α → α → Bool) where
  sort : List α → List α
  perm : ∀ l, (sort l).Perm l
  ordered : ∀ l, StrictWeak less l → (sort l).Pairwise fun a b => less b a = false

/- A sort by the ranks. -/
def byRank (less : α → α → Bool) : Sorting α less where
  sort l := l.mergeSort fun a b => decide (rank less l a ≤ rank less l b)
  perm l := List.mergeSort_perm l _
  ordered l weak := by
    have sorted : (l.mergeSort fun a b => decide (rank less l a ≤ rank less l b)).Pairwise
        fun a b => decide (rank less l a ≤ rank less l b) = true :=
      List.pairwise_mergeSort (by simp only [decide_eq_true_eq]; exact fun a b c => le_trans)
        (by simp only [Bool.or_eq_true,decide_eq_true_eq]; exact fun a b => le_total _ _) l
    refine sorted.imp_of_mem ?_
    intro a b ha hb held
    rw [List.mem_mergeSort] at ha hb
    rw [← Bool.not_eq_true,weak.rankLess hb ha,Nat.not_lt]
    exact of_decide_eq_true held

/- Two sorted lists of the same elements differ in ties at most. -/
theorem sortedTied {other : List α} (weak : StrictWeak less l) (perm : l.Perm other) (one : l.Pairwise fun a b => less b a = false)
    (two : other.Pairwise fun a b => less b a = false) :
    ∀ (i : Nat) (a b : α), l[i]? = some a → other[i]? = some b → Tied less a b := by
  have ranks {k : List α} (inside : ∀ a ∈ k, a ∈ l) (sorted : k.Pairwise fun a b => less b a = false) :
      (k.map (rank less l)).Pairwise (· ≤ ·) := by
    rw [List.pairwise_map]
    refine sorted.imp_of_mem ?_
    intro a b ha hb late
    rwa [← Nat.not_lt,← weak.rankLess (inside b hb) (inside a ha),Bool.not_eq_true]
  have back : ∀ a ∈ other, a ∈ l := fun a mem => perm.mem_iff.mpr mem
  have same : l.map (rank less l) = other.map (rank less l) :=
    (perm.map _).eq_of_pairwise (fun a b _ _ => le_antisymm) (ranks (fun _ mem => mem) one) (ranks back two)
  intro i a b here there
  have equal := congrArg (·[i]?) same
  simp only [List.getElem?_map,here,there,Option.map_some,Option.some.injEq] at equal
  exact (weak.rankTied (List.mem_of_getElem? here) (back b (List.mem_of_getElem? there))).mpr equal

end WeakOrders
