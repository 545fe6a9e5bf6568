import Mathlib.Algebra.GroupWithZero.Nat
import Mathlib.Data.List.DropRight

/-! The lines of a text, and what trimming the text at its ends leaves of them: lines again. -/
namespace TrimmedLines
variable {α : Type} {blank : α → Bool} {sep : α} {l : List α} {ls : List (List α)}

def joinedLines (sep : α) (ls : List (List α)) : List α := [sep].intercalate ls

theorem textOne (l : List α) : joinedLines sep [l] = l := List.intercalate_singleton

theorem textCons (l q : List α) (ls : List (List α)) : joinedLines sep (l :: q :: ls) = l ++ sep :: joinedLines sep (q :: ls) := by
  rw [joinedLines,List.intercalate_cons_cons,List.append_assoc]
  rfl

theorem textStart (a r : List α) (ls : List (List α)) : joinedLines sep ((a ++ r) :: ls) = a ++ joinedLines sep (r :: ls) := by
  cases ls with
  | nil => rw [textOne,textOne]
  | cons q ls => rw [textCons,textCons,List.append_assoc]

theorem textConcat (some : ls ≠ []) (l : List α) : joinedLines sep (ls ++ [l]) = joinedLines sep ls ++ sep :: l := by
  induction ls with
  | nil => exact absurd rfl some
  | cons q ls ih =>
    cases ls with
    | nil => rw [List.singleton_append,textCons,textOne,textOne]
    | cons p ls =>
      rw [List.cons_append,List.cons_append,textCons,← List.cons_append,ih (List.cons_ne_nil p ls),textCons,List.append_assoc]
      rfl

/- The lines without what is blank at the front. -/
def front (blank : α → Bool) : List (List α) → List (List α)
  | [] => []
  | l :: ls => if l.all blank then front blank ls else l.dropWhile blank :: ls

/- Backwards: the last line first, and each from its end. -/
def turned (ls : List (List α)) : List (List α) := (ls.map List.reverse).reverse

def back (blank : α → Bool) (ls : List (List α)) : List (List α) := turned (front blank (turned ls))

theorem turnedCons (l : List α) (ls : List (List α)) : turned (l :: ls) = turned ls ++ [l.reverse] := by
  rw [turned,List.map_cons,List.reverse_cons]
  rfl

theorem turnedConcat (ls : List (List α)) (l : List α) : turned (ls ++ [l]) = l.reverse :: turned ls := by
  rw [turned,List.map_append,List.reverse_append]
  rfl

theorem turnedNil : turned ls = [] ↔ ls = [] := by
  rw [turned,List.reverse_eq_nil_iff,List.map_eq_nil_iff]

theorem textTurned (ls : List (List α)) : (joinedLines sep ls).reverse = joinedLines sep (turned ls) := by
  induction ls with
  | nil => rfl
  | cons l ls ih =>
    cases ls with
    | nil => exact (congrArg List.reverse (textOne l)).trans (textOne l.reverse).symm
    | cons q ls =>
      have some : turned (q :: ls) ≠ [] := fun none => List.cons_ne_nil q ls (turnedNil.mp none)
      rw [turnedCons,textConcat some,textCons,List.reverse_append,List.reverse_cons,ih,List.append_assoc]
      rfl

theorem dropAll (all : l.all blank = true) : l.dropWhile blank = [] :=
  List.dropWhile_eq_nil_iff.mpr fun a mem => List.all_eq_true.mp all a mem

theorem dropSome (some : ¬l.all blank = true) : l.dropWhile blank ≠ [] :=
  fun none => some (List.all_eq_true.mpr (List.dropWhile_eq_nil_iff.mp none))

theorem dropAppend (some : ¬l.all blank = true) (rest : List α) : (l ++ rest).dropWhile blank = l.dropWhile blank ++ rest := by
  rw [List.dropWhile_append,if_neg]
  rw [List.isEmpty_iff]
  exact dropSome some

theorem textFront (gap : blank sep = true) (ls : List (List α)) :
    (joinedLines sep ls).dropWhile blank = joinedLines sep (front blank ls) := by
  induction ls with
  | nil => rfl
  | cons l ls ih =>
    rw [front]
    cases ls with
    | nil =>
      rw [textOne]
      split
      · rename_i all
        exact dropAll all
      · rw [textOne]
    | cons q ls =>
      rw [textCons]
      split
      · rename_i all
        rw [← ih,List.dropWhile_append,dropAll all,if_pos (by rfl),List.dropWhile_cons_of_pos gap]
      · rename_i some
        rw [dropAppend some,textCons]

theorem textBack (gap : blank sep = true) (ls : List (List α)) :
    (joinedLines sep ls).rdropWhile blank = joinedLines sep (back blank ls) := by
  rw [List.rdropWhile,textTurned,textFront gap,textTurned]
  rfl

/- A trimmed text. -/
theorem textTrim (gap : blank sep = true) (ls : List (List α)) :
    ((joinedLines sep ls).dropWhile blank).rdropWhile blank = joinedLines sep (back blank (front blank ls)) := by
  rw [textFront gap,textBack gap]

theorem frontNil : front blank ls = [] ↔ ∀ l ∈ ls, l.all blank = true := by
  induction ls with
  | nil => exact iff_of_true rfl (List.forall_mem_nil _)
  | cons l ls ih =>
    rw [front,List.forall_mem_cons]
    split
    · rename_i all
      rw [ih]
      exact (and_iff_right all).symm
    · rename_i some
      exact iff_of_false (List.cons_ne_nil _ _) fun both => some both.1

theorem frontConcat (ls : List (List α)) (l : List α) :
    front blank (ls ++ [l]) = if front blank ls = [] then front blank [l] else front blank ls ++ [l] := by
  induction ls with
  | nil => rfl
  | cons q ls ih =>
    rw [List.cons_append,front,front]
    split
    · exact ih
    · rw [if_neg (List.cons_ne_nil _ _)]
      rfl

/- The last line that is not blank is cut at its end, the lines behind it are gone. -/
theorem backCons (l : List α) (ls : List (List α)) :
    back blank (l :: ls) = if back blank ls = [] then (if l.all blank then [] else [l.rdropWhile blank]) else l :: back blank ls := by
  have same : back blank ls = [] ↔ front blank (turned ls) = [] := turnedNil
  rw [back,turnedCons,frontConcat]
  by_cases none : front blank (turned ls) = []
  · rw [if_pos none,if_pos (same.mpr none),front,List.all_reverse]
    split
    · rfl
    · rfl
  · rw [if_neg none,if_neg fun here => none (same.mp here),turnedConcat,List.reverse_reverse]
    rfl

theorem backNil : back blank ls = [] ↔ ∀ l ∈ ls, l.all blank = true := by
  have same : (∀ l ∈ turned ls, l.all blank = true) ↔ ∀ l ∈ ls, l.all blank = true := by
    simp only [turned,List.mem_reverse,List.forall_mem_map,List.all_reverse]
  rw [back,turnedNil,frontNil,same]

theorem backMore {ls : List (List α)} (some : ¬∀ l ∈ ls, l.all blank = true) (l : List α) : back blank (l :: ls) = l :: back blank ls := by
  rw [backCons,if_neg fun none => some (backNil.mp none)]

theorem backLast (none : ∀ l ∈ ls, l.all blank = true) (some : ¬l.all blank = true) : back blank (l :: ls) = [l.rdropWhile blank] := by
  rw [backCons,if_pos (backNil.mpr none),if_neg some]

theorem clipSome (some : ¬l.all blank = true) : ¬(l.rdropWhile blank).all blank = true := by
  rw [List.rdropWhile,List.all_reverse]
  intro all
  have none := dropAll all
  rw [List.dropWhile_idempotent] at none
  exact dropSome (by rwa [List.all_reverse]) none

theorem backTwice (ls : List (List α)) : back blank (back blank ls) = back blank ls := by
  induction ls with
  | nil => rfl
  | cons l ls ih =>
    by_cases later : ∀ l ∈ ls, l.all blank = true
    · by_cases all : l.all blank = true
      · have none : back blank (l :: ls) = [] := backNil.mpr (List.forall_mem_cons.mpr ⟨all,later⟩)
        rw [none]
        rfl
      · rw [backLast later all,backLast (List.forall_mem_nil _) (clipSome all),List.rdropWhile_idempotent]
    · have some : ¬∀ l ∈ back blank ls, l.all blank = true := by
        rw [← backNil,ih,backNil]
        exact later
      rw [backMore later,backMore some,ih]

/- Lines that are skipped at the front, blank ones among them, can be skipped before or after the end is cut. -/
theorem backSkip {idle : List α → Bool} (blankIdle : ∀ l, l.all blank = true → idle l = true)
    (same : ∀ l, idle (l.rdropWhile blank) = idle l) (some : ∃ l ∈ ls, idle l = false) :
    (back blank ls).dropWhile idle = back blank (ls.dropWhile idle) := by
  induction ls with
  | nil => exact absurd some (by simp)
  | cons l ls ih =>
    by_cases here : idle l = true
    · have later : ∃ q ∈ ls, idle q = false := by
        obtain ⟨q,mem,busy⟩ := some
        rcases List.mem_cons.mp mem with rfl | mem
        · rw [here] at busy
          cases busy
        · exact ⟨q,mem,busy⟩
      have more : ¬∀ q ∈ ls, q.all blank = true := by
        intro none
        obtain ⟨q,mem,busy⟩ := later
        rw [blankIdle q (none q mem)] at busy
        cases busy
      rw [backMore more,List.dropWhile_cons_of_pos here,List.dropWhile_cons_of_pos here,ih later]
    · have filled : ¬l.all blank = true := fun all => here (blankIdle l all)
      rw [List.dropWhile_cons_of_neg here]
      by_cases more : ∀ q ∈ ls, q.all blank = true
      · rw [backLast more filled,List.dropWhile_cons_of_neg (by rwa [same])]
      · rw [backMore more,List.dropWhile_cons_of_neg here]

/-! A measure of lines to which blanks add nothing. -/
section
variable {w : List α → Nat}

theorem frontSum (zero : ∀ l, l.all blank = true → w l = 0) (same : ∀ l, w (l.dropWhile blank) = w l) (ls : List (List α)) :
    ((front blank ls).map w).sum = (ls.map w).sum := by
  induction ls with
  | nil => rfl
  | cons l ls ih =>
    rw [front,List.map_cons,List.sum_cons]
    split
    · rename_i all
      rw [ih,zero l all,Nat.zero_add]
    · rw [List.map_cons,List.sum_cons,same]

theorem backSum (zero : ∀ l, l.all blank = true → w l = 0) (same : ∀ l, w (l.rdropWhile blank) = w l) (ls : List (List α)) :
    ((back blank ls).map w).sum = (ls.map w).sum := by
  induction ls with
  | nil => rfl
  | cons l ls ih =>
    have none (all : ∀ q ∈ ls, q.all blank = true) : (ls.map w).sum = 0 := by
      rw [← ih,backNil.mpr all]
      rfl
    rw [List.map_cons,List.sum_cons]
    by_cases later : ∀ q ∈ ls, q.all blank = true
    · by_cases here : l.all blank = true
      · rw [backNil.mpr (List.forall_mem_cons.mpr ⟨here,later⟩),zero l here,none later]
        rfl
      · rw [backLast later here,none later,List.map_singleton,List.sum_singleton,same]
        rfl
    · rw [backMore later,List.map_cons,List.sum_cons,ih]

end

/- What is trimmed is made of the same elements. -/
theorem frontMem {q : List α} (mem : q ∈ front blank ls) : ∃ l ∈ ls, ∀ a ∈ q, a ∈ l := by
  induction ls with
  | nil => cases mem
  | cons l ls ih =>
    rw [front] at mem
    split at mem
    · obtain ⟨p,there,inside⟩ := ih mem
      exact ⟨p,List.mem_cons_of_mem l there,inside⟩
    · rcases List.mem_cons.mp mem with rfl | later
      · exact ⟨l,List.mem_cons_self,fun a inside => (List.dropWhile_suffix blank).subset inside⟩
      · exact ⟨q,List.mem_cons_of_mem l later,fun _ inside => inside⟩

theorem backMem {q : List α} (mem : q ∈ back blank ls) : ∃ l ∈ ls, ∀ a ∈ q, a ∈ l := by
  have turn {q : List α} {ls : List (List α)} (mem : q ∈ turned ls) : q.reverse ∈ ls := by
    rw [turned,List.mem_reverse,List.mem_map] at mem
    obtain ⟨l,there,rfl⟩ := mem
    rwa [List.reverse_reverse]
  obtain ⟨l,there,inside⟩ := frontMem (turn mem)
  exact ⟨l.reverse,turn there,fun a here => List.mem_reverse.mpr (inside a (List.mem_reverse.mpr here))⟩

end TrimmedLines
