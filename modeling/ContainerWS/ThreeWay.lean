import Mathlib.Data.Prod.Lex
import Mathlib.Data.List.Lex

/-! Comparators that answer -1, 0 or 1: the sign of a linear order, and how the signs of pairs and of
lists are made of those of their parts. -/
namespace ThreeWay

variable {α β : Type} [LinearOrder α] [LinearOrder β]

def sign (x y : α) : Int := if x < y then -1 else if y < x then 1 else 0

theorem signSelf (x : α) : sign x x = 0 := by
  rw [sign,if_neg (lt_irrefl x),if_neg (lt_irrefl x)]

theorem signLess {x y : α} (less : x < y) : sign x y = -1 := if_pos less

theorem signMore {x y : α} (more : y < x) : sign x y = 1 := by
  rw [sign,if_neg (lt_asymm more),if_pos more]

theorem signPos {x y : α} : 0 < sign x y ↔ y < x := by
  rcases lt_trichotomy x y with less | same | more
  · exact iff_of_false (by rw [signLess less]; decide) (lt_asymm less)
  · exact iff_of_false (by rw [same,signSelf]; decide) (by rw [same]; exact lt_irrefl y)
  · exact iff_of_true (by rw [signMore more]; decide) more

theorem signBelow {x y : α} : sign x y = -1 ↔ x < y := by
  rcases lt_trichotomy x y with less | same | more
  · exact iff_of_true (signLess less) less
  · exact iff_of_false (by rw [same,signSelf]; decide) (ne_of_lt · same)
  · exact iff_of_false (by rw [signMore more]; decide) (lt_asymm more)

theorem signOver {x y : α} : sign x y = 1 ↔ y < x := by
  rcases lt_trichotomy x y with less | same | more
  · exact iff_of_false (by rw [signLess less]; decide) (lt_asymm less)
  · exact iff_of_false (by rw [same,signSelf]; decide) (ne_of_gt · same)
  · exact iff_of_true (signMore more) more

theorem signZero {x y : α} : sign x y = 0 ↔ x = y := by
  rcases lt_trichotomy x y with less | same | more
  · exact iff_of_false (by rw [signLess less]; decide) (ne_of_lt less)
  · exact iff_of_true (by rw [same,signSelf]) same
  · exact iff_of_false (by rw [signMore more]; decide) (ne_of_gt more)

/- The first sign that decides. -/
def first (x y : Int) : Int := if x ≠ 0 then x else y

theorem firstZero (y : Int) : first 0 y = y := if_neg (fun other => other rfl)

theorem firstSome {x : Int} (some : x ≠ 0) (y : Int) : first x y = x := if_pos some

theorem signCons (x y : α) (xs ys : List α) : sign (x :: xs) (y :: ys) = first (sign x y) (sign xs ys) := by
  rcases lt_trichotomy x y with less | same | more
  · rw [signLess less,signLess (List.cons_lt_cons_iff.mpr (.inl less)),firstSome (by decide)]
  · rw [same,signSelf,firstZero]
    rcases lt_trichotomy xs ys with less | rest | more
    · rw [signLess less,signLess (List.cons_lt_cons_iff.mpr (.inr ⟨rfl,less⟩))]
    · rw [rest,signSelf,signSelf]
    · rw [signMore more,signMore (List.cons_lt_cons_iff.mpr (.inr ⟨rfl,more⟩))]
  · rw [signMore more,signMore (List.cons_lt_cons_iff.mpr (.inl more)),firstSome (by decide)]

theorem signPair (x y : α) (s t : β) : sign (toLex (x,s)) (toLex (y,t)) = first (sign x y) (sign s t) := by
  rcases lt_trichotomy x y with less | same | more
  · rw [signLess less,signLess (Prod.Lex.toLex_lt_toLex.mpr (.inl less)),firstSome (by decide)]
  · rw [same,signSelf,firstZero]
    rcases lt_trichotomy s t with less | rest | more
    · have pair : toLex (y,s) < toLex (y,t) := Prod.Lex.toLex_lt_toLex.mpr (.inr ⟨rfl,less⟩)
      rw [signLess less,signLess pair]
    · rw [rest,signSelf,signSelf]
    · have pair : toLex (y,t) < toLex (y,s) := Prod.Lex.toLex_lt_toLex.mpr (.inr ⟨rfl,more⟩)
      rw [signMore more,signMore pair]
  · rw [signMore more,signMore (Prod.Lex.toLex_lt_toLex.mpr (.inl more)),firstSome (by decide)]

end ThreeWay
