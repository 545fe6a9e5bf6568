import Mathlib.Data.List.Basic
import Mathlib.Data.Int.Basic

/-! A scan that keeps the best so far: a later one takes its place only with a higher score. -/
namespace Best

variable {α : Type} (fits : α → Bool) (score : α → Int)

def keep (best : Option α × Int) (x : α) : Option α × Int :=
  if !fits x then best else if score x > best.2 then (some x,score x) else best

def pick (low : Int) (l : List α) : Option α := (l.foldl (keep fits score) (none,low)).1

/- What is kept has the score that is kept, and is not below what was kept before. -/
theorem scanHolds (l : List α) {best : Option α × Int} (scored : ∀ x, best.1 = some x → score x = best.2) :
    (∀ x, (l.foldl (keep fits score) best).1 = some x → score x = (l.foldl (keep fits score) best).2) ∧
      best.2 ≤ (l.foldl (keep fits score) best).2 := by
  induction l generalizing best with
  | nil => exact ⟨scored,Int.le_refl _⟩
  | cons y rest ih =>
    rw [List.foldl_cons]
    cases fit : fits y
    · have same : keep fits score best y = best := by rw [keep,fit]; rfl
      rw [same]
      exact ih scored
    · by_cases more : score y > best.2
      · have new : keep fits score best y = (some y,score y) := by rw [keep,fit,Bool.not_true,if_neg Bool.false_ne_true,if_pos more]
        rw [new]
        have later := @ih (some y,score y) (fun x same => by rw [← Option.some.inj same])
        exact ⟨later.1,Int.le_trans (Int.le_of_lt more) later.2⟩
      · have same : keep fits score best y = best := by rw [keep,fit,Bool.not_true,if_neg Bool.false_ne_true,if_neg more]
        rw [same]
        exact ih scored

/- No one that fits has a higher score than the one that is kept. -/
theorem scanAbove (l : List α) {best : Option α × Int} (scored : ∀ x, best.1 = some x → score x = best.2) {y : α}
    (mem : y ∈ l) (fit : fits y = true) : score y ≤ (l.foldl (keep fits score) best).2 := by
  induction l generalizing best with
  | nil => cases mem
  | cons z rest ih =>
    have held : ∀ x, (keep fits score best z).1 = some x → score x = (keep fits score best z).2 :=
      (scanHolds fits score [z] scored).1
    rw [List.foldl_cons]
    rcases List.mem_cons.mp mem with here | later
    · refine Int.le_trans ?_ (scanHolds fits score rest held).2
      rw [← here,keep,fit,Bool.not_true,if_neg Bool.false_ne_true]
      split
      · exact Int.le_refl _
      · omega
    · exact ih held later

theorem pickAbove {low : Int} {l : List α} {x : α} (picked : pick fits score low l = some x) {y : α} (mem : y ∈ l)
    (fit : fits y = true) : score y ≤ score x := by
  have scored : ∀ z, (none : Option α) = some z → score z = low := by rintro z ⟨⟩
  rw [(@scanHolds α fits score l (none,low) scored).1 x picked]
  exact @scanAbove α fits score l (none,low) scored y mem fit

theorem scanSome (l : List α) {best : Option α × Int} (some : best.1.isSome) : (l.foldl (keep fits score) best).1.isSome := by
  induction l generalizing best with
  | nil => exact some
  | cons y rest ih =>
    refine ih ?_
    unfold keep
    split
    · exact some
    · split
      · rfl
      · exact some

/- One that fits and is above the bottom is enough for something to be picked. -/
theorem pickSome {low : Int} {l : List α} {y : α} (mem : y ∈ l) (fit : fits y = true) (above : low < score y) :
    ∃ x, pick fits score low l = some x := by
  have found : ∀ (best : Option α × Int), best.1 = none → best.2 = low → (l.foldl (keep fits score) best).1.isSome := by
    induction l with
    | nil => cases mem
    | cons z rest ih =>
      intro best none bottom
      rw [List.foldl_cons]
      by_cases taken : keep fits score best z = best
      · rw [taken]
        rcases List.mem_cons.mp mem with here | later
        · rw [← here,keep,fit,Bool.not_true,if_neg Bool.false_ne_true,if_pos (by omega)] at taken
          rw [← taken] at none
          cases none
        · exact ih later best none bottom
      · refine scanSome fits score rest ?_
        unfold keep at taken ⊢
        split
        · rename_i skip
          rw [if_pos skip] at taken
          exact absurd rfl taken
        · split
          · rfl
          · rename_i keepIt low'
            rw [if_neg keepIt,if_neg low'] at taken
            exact absurd rfl taken
  exact Option.isSome_iff_exists.mp (found (none,low) rfl rfl)

end Best
