import Mathlib.Data.Nat.Digits.Defs
import Mathlib.Data.Int.Basic

/-! Go's `strconv.Itoa` and `strconv.Atoi` for numbers of 64 bits. -/
namespace Decimals

theorem reprDigits (n : Nat) : n.repr ≠ "" ∧ ∀ c ∈ n.repr.toList, c.isDigit = true := by
  rw [Nat.toList_repr]
  refine ⟨?_,fun c mem => Nat.isDigit_of_mem_toDigits (by decide) (by decide) mem⟩
  intro empty
  have chars := congrArg String.toList empty
  rw [Nat.toList_repr] at chars
  exact Nat.toDigits_ne_nil chars

def Itoa (n : Int) : String := if n < 0 then "-" ++ n.natAbs.repr else n.natAbs.repr

/- The number of a text of digits. -/
def digits (cs : List Char) : Option Nat :=
  if cs ≠ [] ∧ cs.all Char.isDigit = true then some (Nat.ofDigitChars 10 cs 0) else none

/- A number that does not fit is the nearest that does, and an error. -/
def within (n : Int) : Int × Bool :=
  if n < -2^63 then (-2^63,false) else if 2^63 ≤ n then (2^63-1,false) else (n,true)

def signed (sign : Int) (cs : List Char) : Int × Bool :=
  match digits cs with
  | some n => within (sign*n)
  | none => (0,false)

/- The number and whether there is no error. -/
def Atoi (s : String) : Int × Bool :=
  match s.toList with
  | '-' :: cs => signed (-1) cs
  | '+' :: cs => signed 1 cs
  | cs => signed 1 cs

/- A number of 64 bits. -/
def Fits (n : Int) : Prop := -2^63 ≤ n ∧ n < 2^63

instance (n : Int) : Decidable (Fits n) := inferInstanceAs (Decidable (_ ∧ _))

theorem digitsRepr (n : Nat) : digits n.repr.toList = some n := by
  have some : n.repr.toList ≠ [] := fun none => (reprDigits n).1 (String.toList_eq_nil_iff.mp none)
  rw [digits,if_pos ⟨some,List.all_eq_true.mpr (reprDigits n).2⟩,Nat.toList_repr,Nat.ofDigitChars_ten_toDigits]

theorem withinFits (n : Int) : Fits (within n).1 ∧ ((within n).2 = true → (within n).1 = n) := by
  unfold within Fits
  split
  · exact ⟨by norm_num,fun ok => absurd ok (by decide)⟩
  · split
    · exact ⟨by norm_num,fun ok => absurd ok (by decide)⟩
    · exact ⟨by omega,fun _ => rfl⟩

theorem withinSelf {n : Int} (fits : Fits n) : within n = (n,true) := by
  unfold within
  rw [if_neg (by have := fits.1; omega),if_neg (by have := fits.2; omega)]

theorem signedFits (sign : Int) (cs : List Char) : Fits (signed sign cs).1 := by
  unfold signed
  split
  · exact (withinFits _).1
  · decide

theorem atoiFits (s : String) : Fits (Atoi s).1 := by
  unfold Atoi
  split
  · exact signedFits _ _
  · exact signedFits _ _
  · exact signedFits _ _

/- What is written as a number is read as the nearest that fits. -/
theorem atoiItoa (n : Int) : Atoi (Itoa n) = within n := by
  unfold Itoa
  split
  · rename_i negative
    have back : (-1 : Int)*n.natAbs = n := by omega
    have chars : ("-" ++ n.natAbs.repr).toList = '-' :: n.natAbs.repr.toList := by simp
    rw [Atoi,chars]
    change signed (-1) _ = _
    rw [signed,digitsRepr]
    change within (-1*(n.natAbs : Int)) = within n
    rw [back]
  · rename_i nonneg
    have back : (1 : Int)*n.natAbs = n := by omega
    have first : ∀ c ∈ n.natAbs.repr.toList, c ≠ '-' ∧ c ≠ '+' := by
      intro c mem
      have digit := (reprDigits n.natAbs).2 c mem
      refine ⟨?_,?_⟩
      · rintro rfl
        exact absurd digit (by decide)
      · rintro rfl
        exact absurd digit (by decide)
    unfold Atoi
    split
    · rename_i whole
      exact absurd rfl (first '-' (by rw [whole]; simp)).1
    · rename_i whole
      exact absurd rfl (first '+' (by rw [whole]; simp)).2
    · rw [signed,digitsRepr]
      dsimp only
      rw [back]

theorem itoaDigits (n : Int) : Itoa n ≠ "" ∧ ∀ c ∈ (Itoa n).toList, c.isDigit = true ∨ c = '-' := by
  obtain ⟨some,digit⟩ := reprDigits n.natAbs
  unfold Itoa
  split
  · refine ⟨?_,?_⟩
    · intro empty
      simpa using congrArg String.toList empty
    · intro c mem
      have cases' : c = '-' ∨ c ∈ n.natAbs.repr.toList := by simpa using mem
      exact cases'.elim .inr (fun mem => .inl (digit c mem))
  · exact ⟨some,fun c mem => .inl (digit c mem)⟩

end Decimals
