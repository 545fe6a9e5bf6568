import Mathlib.Data.List.Forall2
import Mathlib.Data.List.Induction
import Mathlib.Data.List.Nodup

/-! Elements that are gathered by a key: the first of a key makes an entry, and the others are merged into it. The entries stand
in the order in which their keys came up. -/
namespace Grouping

section
variable {α κ : Type} [DecidableEq κ] (key : α → κ) (merge : α → α → α)

/- An element that comes up, into the entry of its key or as a new one. -/
def upsert (t : List (κ × α)) (a : α) : List (κ × α) :=
  if key a ∈ t.map Prod.fst then t.map fun e => if e.1 = key a then (e.1,merge e.2 a) else e else t ++ [(key a,a)]

def gather (l : List α) : List (κ × α) := l.foldl (upsert key merge) []

/- What is merged of a key: its first element, and the others of it in turn. -/
inductive Merged (k : κ) : List α → α → Prop where
  | first {l : List α} {a : α} (fresh : ∀ b ∈ l, key b ≠ k) (here : key a = k) : Merged k (l ++ [a]) a
  | other {l : List α} {a b : α} (before : Merged k l b) (apart : key a ≠ k) : Merged k (l ++ [a]) b
  | next {l : List α} {a b : α} (before : Merged k l b) (here : key a = k) : Merged k (l ++ [a]) (merge b a)

variable {key} {merge}

theorem upsertKeys (t : List (κ × α)) (a : α) : (upsert key merge t a).map Prod.fst =
    if key a ∈ t.map Prod.fst then t.map Prod.fst else t.map Prod.fst ++ [key a] := by
  unfold upsert
  split
  · rw [List.map_map]
    refine List.map_congr_left fun e _ => ?_
    by_cases here : e.1 = key a <;> simp [here]
  · rw [List.map_append]
    rfl

theorem gatherConcat (l : List α) (a : α) : gather key merge (l ++ [a]) = upsert key merge (gather key merge l) a := by
  rw [gather,List.foldl_append]
  rfl

/- One entry for each key that came up, and none else. -/
theorem gatherKeys (l : List α) : ((gather key merge l).map Prod.fst).Nodup ∧
    ∀ k, k ∈ (gather key merge l).map Prod.fst ↔ ∃ a ∈ l, key a = k := by
  induction l using List.reverseRecOn with
  | nil => simp [gather]
  | append_singleton l a ih =>
    obtain ⟨nodup,mem⟩ := ih
    rw [gatherConcat,upsertKeys]
    split
    · rename_i known
      refine ⟨nodup,fun k => ?_⟩
      rw [mem]
      simp only [List.mem_append,List.mem_singleton]
      constructor
      · rintro ⟨b,inside,here⟩
        exact ⟨b,.inl inside,here⟩
      · rintro ⟨b,inside | rfl,here⟩
        · exact ⟨b,inside,here⟩
        · exact here ▸ (mem _).mp known
    · rename_i fresh
      refine ⟨List.nodup_append.mpr ⟨nodup,List.nodup_singleton _,?_⟩,fun k => ?_⟩
      · intro k inside j new same
        rw [List.mem_singleton.mp new] at same
        exact fresh (same ▸ inside)
      · rw [List.mem_append,mem]
        simp only [List.mem_append,List.mem_singleton]
        constructor
        · rintro (⟨b,inside,here⟩ | rfl)
          · exact ⟨b,.inl inside,here⟩
          · exact ⟨a,.inr rfl,rfl⟩
        · rintro ⟨b,inside | rfl,here⟩
          · exact .inl ⟨b,inside,here⟩
          · exact .inr here.symm

/- An entry is what its key's elements merge to. -/
theorem gatherMerged (l : List α) : ∀ e ∈ gather key merge l, Merged key merge e.1 l e.2 := by
  induction l using List.reverseRecOn with
  | nil => exact List.forall_mem_nil _
  | append_singleton l a ih =>
    rw [gatherConcat,upsert]
    split
    · intro e mem
      obtain ⟨old,inside,rfl⟩ := List.mem_map.mp mem
      split
      · rename_i here
        exact .next (ih old inside) here.symm
      · rename_i apart
        exact .other (ih old inside) (Ne.symm apart)
    · rename_i fresh
      intro e mem
      rcases List.mem_append.mp mem with inside | new
      · refine .other (ih e inside) fun same => fresh ?_
        rw [same]
        exact List.mem_map_of_mem inside
      · rw [List.mem_singleton.mp new]
        refine .first (fun b inside same => fresh ?_) rfl
        exact ((gatherKeys l).2 _).mpr ⟨b,inside,same⟩

/- What a merge keeps of the first element holds of the entry. -/
theorem mergedFirst {k : κ} {l : List α} {b : α} (merged : Merged key merge k l b) {R : α → α → Prop} (start : ∀ a, R a a)
    (kept : ∀ a c d, R a c → R a (merge c d)) : ∃ a, l.find? (fun a => key a == k) = some a ∧ R a b := by
  induction merged with
  | @first l a fresh here =>
    have none : l.find? (fun a => key a == k) = none := List.find?_eq_none.mpr fun b mem same => fresh b mem (beq_iff_eq.mp same)
    exact ⟨a,by rw [List.find?_append,none,Option.none_or,List.find?_singleton,here,beq_self_eq_true,if_pos rfl],start a⟩
  | other before apart ih =>
    obtain ⟨a,found,holds⟩ := ih
    exact ⟨a,by rw [List.find?_append,found,Option.some_or],holds⟩
  | next before here ih =>
    obtain ⟨a,found,holds⟩ := ih
    exact ⟨a,by rw [List.find?_append,found,Option.some_or],kept a _ _ holds⟩

/- A map that goes through the merge goes through the gathering. -/
theorem gatherMap {β : Type} {f : β → α} {merge' : β → β → β} (through : ∀ b c, f (merge' b c) = merge (f b) (f c)) (l : List β) :
    gather key merge (l.map f) = (gather (fun b => key (f b)) merge' l).map fun e => (e.1,f e.2) := by
  induction l using List.reverseRecOn with
  | nil => rfl
  | append_singleton l b ih =>
    have keys : ((gather (fun b => key (f b)) merge' l).map fun e => (e.1,f e.2)).map Prod.fst = (gather (fun b => key (f b)) merge' l).map Prod.fst := by
      rw [List.map_map]
      rfl
    rw [List.map_append,List.map_singleton,gatherConcat,gatherConcat,ih,upsert,upsert,keys]
    split
    · rw [List.map_map,List.map_map]
      refine List.map_congr_left fun e _ => ?_
      by_cases here : e.1 = key (f b)
      · simp [here,through]
      · simp [here]
    · rw [List.map_append]
      rfl

end

/- Two keys that tell the same elements apart gather alike. -/
theorem gatherCongr {α κ μ : Type} [DecidableEq κ] [DecidableEq μ] {one : α → κ} {two : α → μ} {merge : α → α → α} {l : List α}
    (alike : ∀ a ∈ l, ∀ b ∈ l, one a = one b ↔ two a = two b) :
    (gather one merge l).map Prod.snd = (gather two merge l).map Prod.snd := by
  have pairs : List.Forall₂ (fun e f => e.2 = f.2 ∧ ∃ a ∈ l, one a = e.1 ∧ two a = f.1) (gather one merge l) (gather two merge l) := by
    induction l using List.reverseRecOn with
    | nil => exact .nil
    | append_singleton l a ih =>
      have before := ih fun b inside c mem => alike b (List.mem_append_left _ inside) c (List.mem_append_left _ mem)
      rw [gatherConcat,gatherConcat]
      have known : one a ∈ (gather one merge l).map Prod.fst ↔ two a ∈ (gather two merge l).map Prod.fst := by
        rw [(gatherKeys l).2,(gatherKeys l).2]
        refine exists_congr fun b => and_congr_right fun inside => ?_
        exact alike b (List.mem_append_left _ inside) a (List.mem_append_right _ List.mem_cons_self)
      unfold upsert
      by_cases here : one a ∈ (gather one merge l).map Prod.fst
      · rw [if_pos here,if_pos (known.mp here)]
        refine List.forall₂_map_left_iff.mpr (List.forall₂_map_right_iff.mpr (before.imp ?_))
        rintro ⟨k,x⟩ ⟨j,y⟩ ⟨same,c,inside,first,second⟩
        cases same
        have both : k = one a ↔ j = two a := by
          have agree := alike c (List.mem_append_left _ inside) a (List.mem_append_right _ List.mem_cons_self)
          rwa [first,second] at agree
        by_cases this : k = one a
        · rw [if_pos this,if_pos (both.mp this)]
          exact ⟨rfl,c,List.mem_append_left _ inside,first,second⟩
        · rw [if_neg this,if_neg (mt both.mpr this)]
          exact ⟨rfl,c,List.mem_append_left _ inside,first,second⟩
      · rw [if_neg here,if_neg (mt known.mpr here)]
        refine List.rel_append (before.imp ?_) (.cons ⟨rfl,a,List.mem_append_right _ List.mem_cons_self,rfl,rfl⟩ .nil)
        rintro e f ⟨same,c,inside,parts⟩
        exact ⟨same,c,List.mem_append_left _ inside,parts⟩
  have values : List.Forall₂ (fun e f => e.2 = f.2) (gather one merge l) (gather two merge l) := pairs.imp fun _ _ held => held.1
  exact List.forall₂_eq_eq_eq ▸ (List.forall₂_map_left_iff.mpr (List.forall₂_map_right_iff.mpr values))

end Grouping
