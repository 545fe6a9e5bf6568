import Mathlib.Data.List.Count
import Mathlib.Data.List.MinMax
import Mathlib.Data.List.Sort

/-! Tables that keep the newest of their rows: how many rows are newer than one, the rows behind the
first ones, and that taking rows away that have enough newer ones leaves every row enough of them. -/
namespace Newest

variable {ρ : Type} (version : ρ → Int)

def newer (rows : List ρ) (v : Int) : Nat := rows.countP (fun r => decide (v < version r))

def latestFirst (rows : List ρ) : List ρ := rows.mergeSort (fun a b => decide (version b ≤ version a))

/- What an offset of n leaves, the newest rows first. -/
def behind (n : Nat) (rows : List ρ) : List ρ := (latestFirst version rows).drop n

variable {version} {rows : List ρ} {n : Nat} {v : Int}

theorem latestPerm (version : ρ → Int) (rows : List ρ) : (latestFirst version rows).Perm rows := List.mergeSort_perm _ _

theorem memBehind {r : ρ} (mem : r ∈ behind version n rows) : r ∈ rows :=
  (latestPerm version rows).mem_iff.mp (List.mem_of_mem_drop mem)

theorem latestSorted (version : ρ → Int) (rows : List ρ) : (latestFirst version rows).Pairwise (fun a b => version b ≤ version a) := by
  have sorted : (latestFirst version rows).Pairwise (fun a b => decide (version b ≤ version a) = true) :=
    List.pairwise_mergeSort (by grind) (by grind) rows
  exact sorted.imp of_decide_eq_true

/- A row behind the first n has n newer ones. -/
theorem behindNewer {r : ρ} (distinct : (rows.map version).Nodup) (mem : r ∈ behind version n rows) :
    n ≤ newer version rows (version r) := by
  have parts : (latestFirst version rows).take n ++ behind version n rows = latestFirst version rows := List.take_append_drop _ _
  have split : ((latestFirst version rows).map version).Nodup := ((latestPerm version rows).map version).nodup_iff.mpr distinct
  have sorted := latestSorted version rows
  rw [← parts,List.map_append,List.nodup_append] at split
  rw [← parts,List.pairwise_append] at sorted
  have long : ((latestFirst version rows).take n).length = n := by
    have some_ : 0 < (behind version n rows).length := List.length_pos_of_mem mem
    rw [behind,List.length_drop] at some_
    rw [List.length_take]
    omega
  have all : ((latestFirst version rows).take n).countP (fun q => decide (version r < version q)) = n := by
    rw [List.countP_eq_length.mpr,long]
    intro q first
    have above := sorted.2.2 q first r mem
    have different := split.2.2 _ (List.mem_map_of_mem first) _ (List.mem_map_of_mem mem)
    exact decide_eq_true (lt_of_le_of_ne above (Ne.symm different))
  rw [newer,← (latestPerm version rows).countP_eq,← parts,List.countP_append,all]
  exact Nat.le_add_right _ _

/- A row with n newer ones is behind the first n. -/
theorem newerBehind {r : ρ} (mem : r ∈ rows) (many : n ≤ newer version rows (version r)) : r ∈ behind version n rows := by
  have parts : (latestFirst version rows).take n ++ behind version n rows = latestFirst version rows := List.take_append_drop _ _
  have sorted := latestSorted version rows
  have there : r ∈ latestFirst version rows := (latestPerm version rows).mem_iff.mpr mem
  rw [newer,← (latestPerm version rows).countP_eq,← parts,List.countP_append] at many
  rw [← parts,List.pairwise_append] at sorted
  rw [← parts,List.mem_append] at there
  rcases there with first | last
  · exfalso
    have below : (behind version n rows).countP (fun q => decide (version r < version q)) = 0 := by
      refine List.countP_eq_zero.mpr ?_
      intro q late
      have least := sorted.2.2 r first q late
      simp only [decide_eq_true_eq]
      omega
    have beside : ((latestFirst version rows).take n).countP (fun q => decide (version r < version q)) < ((latestFirst version rows).take n).length := by
      refine List.countP_lt_length_iff.mpr ⟨r,first,by simp⟩
    have short : ((latestFirst version rows).take n).length ≤ n := List.length_take_le _ _
    omega
  · exact last

/- A row stays among rows that have enough newer ones when others such go. -/
theorem newerKept (gone : ρ → Bool) (old : ∀ r ∈ rows, gone r = true → n ≤ newer version rows (version r))
    (many : n ≤ newer version rows v) : n ≤ newer version (rows.filter (fun r => !gone r)) v := by
  cases last : (rows.filter (fun r => gone r && decide (v < version r))).argmax version with
  | none =>
    have untouched := List.argmax_eq_none.mp last
    refine many.trans (Nat.le_of_eq ?_)
    rw [newer,newer,List.countP_filter]
    apply List.countP_congr
    intro r mem
    have kept := List.filter_eq_nil_iff.mp untouched r mem
    cases dropped : gone r with
    | false => simp
    | true => simpa [dropped] using kept
  | some d =>
    obtain ⟨mem,taken⟩ := List.mem_filter.mp (List.argmax_mem last)
    obtain ⟨taken,above⟩ := Bool.and_eq_true_iff.mp taken
    refine (old d mem taken).trans ?_
    rw [newer,newer,List.countP_filter]
    apply List.countP_mono_left
    intro r there newer
    have beyond := of_decide_eq_true newer
    have higher : v < version r := (of_decide_eq_true above).trans beyond
    cases dropped : gone r with
    | false => simp [higher]
    | true =>
      have most := List.le_of_mem_argmax (List.mem_filter.mpr ⟨there,by simp [dropped,higher]⟩) last
      omega

end Newest
