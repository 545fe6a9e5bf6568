import ContainerWS.Decimals
import ContainerWS.GoStrings
import ContainerWS.ThreeWay
import Mathlib.Data.String.Basic
import Mathlib.Order.WithBot

/-! compareSemver of modules/settings/update/semver.go, and the order that it is the sign of, its two
marks for no version apart. -/
namespace ContainerWS.Update
open GoStrings ThreeWay

def normalizeVersion (v : String) : String :=
  match (trimSpace v).toList with
  | 'v' :: rest => String.ofList rest
  | 'V' :: rest => String.ofList rest
  | _ => trimSpace v

/- The number in front, the nearest of 64 bits, and the rest. -/
def splitNumSuffix (s : String) : Int × String :=
  match s.toList.takeWhile Char.isDigit with
  | [] => (0,s)
  | digits => ((Decimals.signed 1 digits).1,String.ofList (s.toList.dropWhile Char.isDigit))

def comparePart (av bv : String) : Int :=
  let (an,asuf) := splitNumSuffix av
  let (bn,bsuf) := splitNumSuffix bv
  if an ≠ bn then if an < bn then -1 else 1
  else if asuf ≠ bsuf then
    if asuf = "" then 1
    else if bsuf = "" then -1
    else if asuf < bsuf then -1
    else 1
  else 0

/- The loop over the parts; a part that one side lacks is empty. -/
def compareParts : Nat → List String → List String → Int
  | 0,_,_ => 0
  | n+1,as,bs =>
    let here := comparePart (as.headD "") (bs.headD "")
    if here ≠ 0 then here else compareParts n as.tail bs.tail

def compareSemver (a b : String) : Int :=
  let a := normalizeVersion a
  let b := normalizeVersion b
  if a = b then 0
  else if a = "" ∨ a = "(untracked)" then -1
  else if b = "" ∨ b = "(untracked)" then 1
  else
    let as := split '.' a
    let bs := split '.' b
    compareParts (if bs.length > as.length then bs.length else as.length) as bs

def isNewer (candidate current : String) : Bool := compareSemver candidate current > 0

/- Of the suffixes the empty one is the last. -/
def suffixRank (s : String) : WithTop String := if s = "" then ⊤ else s

abbrev Rank := Int ×ₗ WithTop String

def partRank (v : String) : Rank := toLex ((splitNumSuffix v).1,suffixRank (splitNumSuffix v).2)

def ranks : Nat → List String → List Rank
  | 0,_ => []
  | n+1,as => partRank (as.headD "") :: ranks n as.tail

theorem signSuffix (s t : String) : sign (suffixRank s) (suffixRank t) =
    if s ≠ t then if s = "" then 1 else if t = "" then -1 else if s < t then -1 else 1 else 0 := by
  unfold suffixRank
  by_cases same : s = t
  · rw [same,signSelf,if_neg (fun other => other rfl)]
  · rw [if_pos same]
    by_cases left : s = ""
    · rw [if_pos left,if_pos left,if_neg (fun right => same (left.trans right.symm)),signMore (WithTop.coe_lt_top t)]
    · rw [if_neg left,if_neg left]
      by_cases right : t = ""
      · rw [if_pos right,if_pos right,signLess (WithTop.coe_lt_top s)]
      · rw [if_neg right,if_neg right]
        rcases lt_trichotomy s t with less | eq | more
        · rw [if_pos less,signLess (WithTop.coe_lt_coe.mpr less)]
        · exact absurd eq same
        · rw [if_neg (lt_asymm more),signMore (WithTop.coe_lt_coe.mpr more)]

theorem comparePartSign (v w : String) : comparePart v w = sign (partRank v) (partRank w) := by
  unfold comparePart partRank
  rw [signPair,signSuffix]
  dsimp only
  rcases lt_trichotomy (splitNumSuffix v).1 (splitNumSuffix w).1 with less | same | more
  · rw [if_pos (ne_of_lt less),if_pos less,signLess less,firstSome (by decide)]
  · rw [if_neg (fun other => other same),same,signSelf,firstZero]
  · rw [if_pos (ne_of_gt more),if_neg (lt_asymm more),signMore more,firstSome (by decide)]

theorem comparePartsSign (n : Nat) (as bs : List String) : compareParts n as bs = sign (ranks n as) (ranks n bs) := by
  induction n generalizing as bs with
  | zero => exact (signSelf _).symm
  | succ n ih =>
    rw [ranks,ranks,signCons,← comparePartSign,← ih]
    rfl

/- Beyond its parts a version has empty ones, so more of them change nothing. -/
theorem comparePartsMore {n m : Nat} {as bs : List String} (left : as.length ≤ n) (right : bs.length ≤ n) (more : n ≤ m) :
    compareParts m as bs = compareParts n as bs := by
  induction n generalizing m as bs with
  | zero =>
    rw [List.length_eq_zero_iff.mp (Nat.le_zero.mp left),List.length_eq_zero_iff.mp (Nat.le_zero.mp right),comparePartsSign,
      comparePartsSign,signSelf,signSelf]
  | succ n ih =>
    cases m with
    | zero => cases more
    | succ m =>
      unfold compareParts
      rw [ih (by rw [List.length_tail]; omega) (by rw [List.length_tail]; omega) (Nat.le_of_succ_le_succ more)]

/- No version at all. -/
def Marked (v : String) : Prop := normalizeVersion v = "" ∨ normalizeVersion v = "(untracked)"

instance (v : String) : Decidable (Marked v) := inferInstanceAs (Decidable (_ ∨ _))

def semverParts (v : String) : List String := split '.' (normalizeVersion v)

theorem markedNotNewer {a : String} (marked : Marked a) (b : String) : isNewer a b = false := by
  unfold Marked at marked
  unfold isNewer compareSemver
  dsimp only
  by_cases same : normalizeVersion a = normalizeVersion b
  · rw [if_pos same]
    rfl
  · rw [if_neg same,if_pos marked]
    rfl

theorem newerThanMarked {a b : String} (solid : ¬ Marked a) (marked : Marked b) : isNewer a b = true := by
  have other : normalizeVersion a ≠ normalizeVersion b := by
    intro same
    unfold Marked at marked
    rw [← same] at marked
    exact solid marked
  unfold Marked at solid marked
  unfold isNewer compareSemver
  dsimp only
  rw [if_neg other,if_neg solid,if_pos marked]
  rfl

theorem compareSemverSign {n : Nat} {a b : String} (left : ¬ Marked a) (right : ¬ Marked b)
    (room : (semverParts a).length ≤ n) (roomRight : (semverParts b).length ≤ n) :
    compareSemver a b = sign (ranks n (semverParts a)) (ranks n (semverParts b)) := by
  unfold Marked at left right
  unfold compareSemver
  dsimp only
  by_cases same : normalizeVersion a = normalizeVersion b
  · rw [if_pos same,semverParts,semverParts,same,signSelf]
  · rw [if_neg same,if_neg left,if_neg right,← comparePartsSign]
    refine (comparePartsMore ?_ ?_ ?_).symm
    · split <;> omega
    · split <;> omega
    · unfold semverParts at room roomRight
      split <;> omega

theorem newerSign {n : Nat} {a b : String} (left : ¬ Marked a) (right : ¬ Marked b)
    (room : (semverParts a).length ≤ n) (roomRight : (semverParts b).length ≤ n) :
    isNewer a b = true ↔ ranks n (semverParts b) < ranks n (semverParts a) := by
  unfold isNewer
  rw [decide_eq_true_iff,gt_iff_lt,compareSemverSign left right room roomRight,signPos]

/- What is newer than the current version leaves one that it does not exceed newer too. -/
theorem newerThrough {a b c : String} (below : isNewer a b = false) (newer : isNewer a c = true) : isNewer b c = true := by
  have solid : ¬ Marked a := fun marked => Bool.false_ne_true ((markedNotNewer marked c).symm.trans newer)
  have solidB : ¬ Marked b := fun marked => Bool.false_ne_true (below.symm.trans (newerThanMarked solid marked))
  by_cases marked : Marked c
  · exact newerThanMarked solidB marked
  · obtain ⟨n,roomA,roomB,roomC⟩ : ∃ n, (semverParts a).length ≤ n ∧ (semverParts b).length ≤ n ∧ (semverParts c).length ≤ n :=
      ⟨(semverParts a).length+(semverParts b).length+(semverParts c).length,by omega,by omega,by omega⟩
    rw [newerSign solid marked roomA roomC] at newer
    rw [← Bool.not_eq_true,newerSign solid solidB roomA roomB,not_lt] at below
    rw [newerSign solidB marked roomB roomC]
    exact lt_of_lt_of_le newer below

end ContainerWS.Update
