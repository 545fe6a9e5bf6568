import Mathlib.Data.List.DropRight
import Mathlib.Data.String.Basic

/-! The functions of Go's `strings` package that requests are normalised with,
over valid UTF-8 text. `unicode.ToLower` is a table of the Go runtime; a
`CaseMap` is any such table that leaves lower case alone. -/
namespace GoStrings

/- `unicode.IsSpace`: the White_Space characters. -/
def isSpace (c : Char) : Bool :=
  let n := c.toNat
  (9 ≤ n && n ≤ 13) || n == 0x20 || n == 0x85 || n == 0xA0 || n == 0x1680 ||
  (0x2000 ≤ n && n ≤ 0x200a) || n == 0x2028 || n == 0x2029 || n == 0x202f ||
  n == 0x205f || n == 0x3000

def trimLeft (cs : List Char) : List Char := cs.dropWhile isSpace

/- `strings.TrimSpace`. -/
def trimSpace (s : String) : String :=
  String.ofList (trimLeft (trimLeft s.toList).reverse).reverse

theorem trimLeftStays {cs : List Char} (n : Nat) :
    trimLeft ((trimLeft cs).take n) = (trimLeft cs).take n := by
  unfold trimLeft
  rw [List.dropWhile_eq_self_iff]
  intro some
  have left : 0 < (cs.dropWhile isSpace).length := by
    rw [List.length_take] at some
    omega
  rw [List.getElem_take]
  exact List.dropWhile_get_zero_not isSpace cs left

/- Nothing is left to trim. -/
theorem trimSpaceTwice (s : String) : trimSpace (trimSpace s) = trimSpace s := by
  have shorter : (trimLeft (trimLeft s.toList).reverse).reverse <+: trimLeft s.toList := by
    rw [← List.reverse_suffix,List.reverse_reverse]
    exact List.dropWhile_suffix _
  have left : trimLeft (trimLeft (trimLeft s.toList).reverse).reverse =
      (trimLeft (trimLeft s.toList).reverse).reverse := by
    rw [List.prefix_iff_eq_take.mp shorter]
    exact trimLeftStays _
  unfold trimSpace
  rw [String.toList_ofList,left,List.reverse_reverse]
  have right : trimLeft (trimLeft (trimLeft s.toList).reverse) = trimLeft (trimLeft s.toList).reverse :=
    List.dropWhile_idempotent _ _
  rw [right]

structure CaseMap where
  lower : Char → Char
  idempotent : ∀ c, lower (lower c) = lower c

/- `strings.ToLower`: the table applied to each character. -/
def CaseMap.toLower (m : CaseMap) (s : String) : String := String.ofList (s.toList.map m.lower)

theorem CaseMap.toLowerTwice (m : CaseMap) (s : String) : m.toLower (m.toLower s) = m.toLower s := by
  have same : (s.toList.map m.lower).map m.lower = s.toList.map m.lower := by
    rw [List.map_map]
    exact List.map_congr_left (fun c _ => m.idempotent c)
  simp only [toLower,String.toList_ofList,same]

theorem asciiLowerTwice (c : Char) : c.toLower.toLower = c.toLower := by
  unfold Char.toLower
  grind

theorem lowerNat (c : Char) : c.toLower.toNat = if 65 ≤ c.toNat ∧ c.toNat ≤ 90 then c.toNat+32 else c.toNat := by
  unfold Char.toLower
  split
  · rename_i upper
    have low : 65 ≤ c.toNat := upper.1
    have high : c.toNat ≤ 90 := upper.2
    rw [if_pos ⟨low,high⟩]
    have code : (c.val+('a'.val - 'A'.val)).toNat = c.val.toNat+32 := by
      rw [UInt32.toNat_add]
      have shift : ('a'.val - 'A'.val).toNat = 32 := by decide
      have same : c.val.toNat = c.toNat := rfl
      omega
    exact code
  · rename_i other
    exact (if_neg other).symm

/- The ASCII part of the table. -/
def ascii : CaseMap := ⟨Char.toLower,asciiLowerTwice⟩

/- A table that is as known on ASCII. -/
structure LowerMap extends CaseMap where
  onAscii : ∀ c, c.toNat < 128 → lower c = c.toLower

def asciiLower : LowerMap := ⟨ascii,fun _ _ => rfl⟩

theorem toLowerAscii (m : LowerMap) {s : String} (small : ∀ c ∈ s.toList, c.toNat < 128) : m.toLower s = ascii.toLower s :=
  congrArg String.ofList (List.map_congr_left (fun c mem => m.onAscii c (small c mem)))

/- `unicode.ToUpper`: any table that is as known on ASCII, leaves upper case alone
and makes no character blank. -/
structure UpperMap where
  upper : Char → Char
  onAscii : ∀ c, c.toNat < 128 → upper c = c.toUpper
  idempotent : ∀ c, upper (upper c) = upper c
  solid : ∀ c, isSpace c = false → isSpace (upper c) = false

/- `strings.ToUpper`. -/
def UpperMap.toUpper (m : UpperMap) (s : String) : String := String.ofList (s.toList.map m.upper)

theorem upperNat (c : Char) :
    c.toUpper.toNat = if 97 ≤ c.toNat ∧ c.toNat ≤ 122 then c.toNat-32 else c.toNat := by
  unfold Char.toUpper
  split
  · rename_i small
    have low : 97 ≤ c.toNat := small.1
    have high : c.toNat ≤ 122 := small.2
    rw [if_pos ⟨low,high⟩]
    have shift : ('A'.val - 'a'.val).toNat = 4294967264 := by decide
    have code : (c.val+('A'.val - 'a'.val)).toNat = c.val.toNat-32 := by
      rw [UInt32.toNat_add,shift]
      have same : c.val.toNat = c.toNat := rfl
      omega
    exact code
  · rename_i other
    exact (if_neg other).symm

theorem asciiUpperTwice (c : Char) : c.toUpper.toUpper = c.toUpper := by
  apply Char.toNat_inj.mp
  rw [upperNat,upperNat]
  split
  · split <;> omega
  · rfl

theorem asciiUpperSolid (c : Char) (solid : isSpace c = false) : isSpace c.toUpper = false := by
  by_cases small : 97 ≤ c.toNat ∧ c.toNat ≤ 122
  · have code := upperNat c
    rw [if_pos small] at code
    simp only [isSpace,code,Bool.or_eq_false_iff,Bool.and_eq_false_iff,decide_eq_false_iff_not,beq_eq_false_iff_ne]
    omega
  · have same : c.toUpper = c := by
      apply Char.toNat_inj.mp
      rw [upperNat,if_neg small]
    rwa [same]

def asciiUpper : UpperMap := ⟨Char.toUpper,fun _ _ => rfl,asciiUpperTwice,asciiUpperSolid⟩

/- `strings.ReplaceAll` of one character by another. -/
def replaceAll (old new : Char) (s : String) : String :=
  String.ofList (s.toList.map (fun c => if c = old then new else c))

theorem trimLeftSelf {cs : List Char} (solid : ∀ c ∈ cs, isSpace c = false) : trimLeft cs = cs := by
  unfold trimLeft
  rw [List.dropWhile_eq_self_iff]
  intro some
  simp [solid _ (List.getElem_mem some)]

theorem trimSpaceSelf {s : String} (solid : ∀ c ∈ s.toList, isSpace c = false) : trimSpace s = s := by
  have back : ∀ c ∈ s.toList.reverse, isSpace c = false := fun c mem => solid c (List.mem_reverse.mp mem)
  rw [trimSpace,trimLeftSelf solid,trimLeftSelf back,List.reverse_reverse,String.ofList_toList]

/- Both ends of a text are solid. -/
def Solid (cs : List Char) : Prop :=
  (∀ c, cs.head? = some c → isSpace c = false) ∧ ∀ c, cs.getLast? = some c → isSpace c = false

theorem trimLeftHead {cs : List Char} {c : Char} (here : (trimLeft cs).head? = some c) : isSpace c = false := by
  have stop := List.head?_dropWhile_not isSpace cs
  unfold trimLeft at here
  rw [here] at stop
  exact stop

theorem trimLeftEnds {cs : List Char} (head : ∀ c, cs.head? = some c → isSpace c = false) : trimLeft cs = cs := by
  cases cs with
  | nil => rfl
  | cons c rest => simp [trimLeft,head c rfl]

theorem trimSpaceEnds {s : String} (solid : Solid s.toList) : trimSpace s = s := by
  have back : ∀ c, s.toList.reverse.head? = some c → isSpace c = false := by
    intro c here
    rw [List.head?_reverse] at here
    exact solid.2 c here
  rw [trimSpace,trimLeftEnds solid.1,trimLeftEnds back,List.reverse_reverse,String.ofList_toList]

/- A text that begins with no blank begins with the same character when it is trimmed. -/
theorem trimHead {cs : List Char} {c : Char} (solid : isSpace c = false) : (trimSpace (String.ofList (c :: cs))).toList.head? = some c := by
  have left : trimLeft (c :: cs) = c :: cs := trimLeftEnds (by simpa using solid)
  have shorter : (trimLeft (c :: cs).reverse).reverse <+: c :: cs := by
    rw [← List.reverse_suffix,List.reverse_reverse]
    exact List.dropWhile_suffix _
  have filled : trimLeft (c :: cs).reverse ≠ [] := by
    intro empty
    have blank := List.dropWhile_eq_nil_iff.mp empty c (by simp)
    rw [solid] at blank
    cases blank
  rw [trimSpace,String.toList_ofList,String.toList_ofList,left]
  cases whole : (trimLeft (c :: cs).reverse).reverse with
  | nil => exact absurd (List.reverse_eq_nil_iff.mp whole) filled
  | cons d rest =>
    rw [whole] at shorter
    rw [(List.cons_prefix_cons.mp shorter).1]
    rfl

theorem trimSpaceSolid (s : String) : Solid (trimSpace s).toList := by
  rw [trimSpace,String.toList_ofList]
  refine ⟨?_,?_⟩
  · intro c here
    have shorter : (trimLeft (trimLeft s.toList).reverse).reverse <+: trimLeft s.toList := by
      rw [← List.reverse_suffix,List.reverse_reverse]
      exact List.dropWhile_suffix _
    obtain ⟨rest,whole⟩ := shorter
    apply trimLeftHead
    rw [← whole,List.head?_append,here]
    rfl
  · intro c here
    rw [List.getLast?_reverse] at here
    exact trimLeftHead here

/- Characters replaced one by one by solid ones. -/
theorem solidMap {f : Char → Char} (keeps : ∀ c, isSpace c = false → isSpace (f c) = false) {cs : List Char}
    (solid : Solid cs) : Solid (cs.map f) := by
  refine ⟨?_,?_⟩
  · intro c here
    rw [List.head?_map,Option.map_eq_some_iff] at here
    obtain ⟨d,first,rfl⟩ := here
    exact keeps d (solid.1 d first)
  · intro c here
    rw [List.getLast?_map,Option.map_eq_some_iff] at here
    obtain ⟨d,last,rfl⟩ := here
    exact keeps d (solid.2 d last)

theorem toUpperSelf (m : UpperMap) {s : String} (upper : ∀ c ∈ s.toList, m.upper c = c) : m.toUpper s = s := by
  rw [UpperMap.toUpper,List.map_congr_left upper,List.map_id'',String.ofList_toList]
  exact fun _ => rfl

theorem replaceAllSelf {old new : Char} {s : String} (absent : ∀ c ∈ s.toList, c ≠ old) :
    replaceAll old new s = s := by
  have same : ∀ c ∈ s.toList, (if c = old then new else c) = id c := fun c mem => if_neg (absent c mem)
  rw [replaceAll,List.map_congr_left same,List.map_id,String.ofList_toList]

/- `strings.Split` at one character. -/
def split (sep : Char) (s : String) : List String := (s.toList.splitOn sep).map String.ofList

/- `strings.TrimRight` of one character. -/
def trimRight (c : Char) (s : String) : String := String.ofList (s.toList.rdropWhile (fun d => d == c))

/- `strings.HasPrefix`. -/
def hasPrefix (s start : String) : Bool := start.toList.isPrefixOf s.toList

/- What stands before the first such character. -/
def before (c : Char) (s : String) : String := String.ofList (s.toList.takeWhile (fun d => d != c))

end GoStrings
