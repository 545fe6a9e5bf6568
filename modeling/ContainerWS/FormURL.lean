import Mathlib.Data.List.TakeWhile

/-! `application/x-www-form-urlencoded`, on bytes: the pairs that a query says, and an escape of
some bytes that is read back whatever else it leaves as it is. -/
namespace FormURL

def space : UInt8 := 0x20
def plus : UInt8 := 0x2B
def percent : UInt8 := 0x25
def ampersand : UInt8 := 0x26
def equals : UInt8 := 0x3D
def semicolon : UInt8 := 0x3B
def number : UInt8 := 0x23
def question : UInt8 := 0x3F

def hexDigit (n : Nat) : UInt8 := UInt8.ofNat (if n < 10 then 0x30+n else 0x37+n)

def hexValue (b : UInt8) : Option Nat :=
  if 0x30 ≤ b ∧ b ≤ 0x39 then some (b.toNat-0x30)
  else if 0x41 ≤ b ∧ b ≤ 0x46 then some (b.toNat-0x37)
  else if 0x61 ≤ b ∧ b ≤ 0x66 then some (b.toNat-0x57)
  else none

/- The byte that three bytes stand for. -/
def escaped (a b c : UInt8) : Option UInt8 :=
  if a = percent then (hexValue b).bind fun x => (hexValue c).map fun y => UInt8.ofNat (16*x+y) else none

/- A percent sign without two digits stays. -/
def percentDecode : List UInt8 → List UInt8
  | [] => []
  | [a] => [a]
  | [a,b] => [a,b]
  | a :: b :: c :: rest =>
    match escaped a b c with
    | some x => x :: percentDecode rest
    | none => a :: percentDecode (b :: c :: rest)

def decode (bs : List UInt8) : List UInt8 := percentDecode (bs.map fun b => if b = plus then space else b)

/- A reader that takes no percent sign without two digits, Go's `QueryUnescape`. -/
def unescape : List UInt8 → Option (List UInt8)
  | [] => some []
  | a :: b :: c :: rest =>
    match escaped a b c with
    | some x => (unescape rest).map (x :: ·)
    | none => if a = percent then none else (unescape (b :: c :: rest)).map ((if a = plus then space else a) :: ·)
  | a :: rest => if a = percent then none else (unescape rest).map ((if a = plus then space else a) :: ·)

def pair (s : List UInt8) : List UInt8 × List UInt8 :=
  (decode (s.takeWhile (· != equals)),decode ((s.dropWhile (· != equals)).drop 1))

/- The pairs between the ampersands. -/
def parse (query : List UInt8) : List (List UInt8 × List UInt8) := ((query.splitOn ampersand).filter (· ≠ [])).map pair

/- The query of a URL, behind the first question mark and in front of the fragment. -/
def query (url : List UInt8) : List UInt8 := ((url.takeWhile (· != number)).dropWhile (· != question)).drop 1

def escapeByte (b : UInt8) : List UInt8 :=
  if b = space then [plus] else [percent,hexDigit (b.toNat / 16),hexDigit (b.toNat % 16)]

def escape (escapes : UInt8 → Bool) (bs : List UInt8) : List UInt8 := bs.flatMap fun b => if escapes b then escapeByte b else [b]

theorem hexDigitBack : ∀ n : Nat, n < 16 → hexValue (hexDigit n) = some n
  | 0,_ | 1,_ | 2,_ | 3,_ | 4,_ | 5,_ | 6,_ | 7,_ | 8,_ | 9,_ | 10,_ | 11,_ | 12,_ | 13,_ | 14,_ | 15,_ => by decide
  | _+16,big => absurd big (by omega)

/- No digit is a mark of the format. -/
theorem hexDigitApart {n : Nat} (small : n < 16) {b : UInt8} (none : hexValue b = none) : hexDigit n ≠ b := by
  rintro rfl
  rw [hexDigitBack n small] at none
  cases none

theorem decodePlain {b : UInt8} (sign : b ≠ percent) (mark : b ≠ plus) (rest : List UInt8) : decode (b :: rest) = b :: decode rest := by
  have here (c d : UInt8) : escaped b c d = none := if_neg sign
  unfold decode
  rw [List.map_cons,if_neg mark]
  match rest.map fun b => if b = plus then space else b with
  | [] => rfl
  | [c] => rfl
  | c :: d :: more => rw [percentDecode,here]

theorem decodeEscaped (b : UInt8) (rest : List UInt8) : decode (escapeByte b ++ rest) = b :: decode rest := by
  have small : b.toNat < 256 := b.toNat_lt
  unfold escapeByte
  by_cases blank : b = space
  · rw [if_pos blank,blank]
    have back : decode (space :: rest) = space :: decode rest := decodePlain (by decide) (by decide) rest
    exact back
  · have high := hexDigitBack (b.toNat / 16) (by omega)
    have low := hexDigitBack (b.toNat % 16) (by omega)
    have first := hexDigitApart (by omega : b.toNat / 16 < 16) (by decide : hexValue plus = none)
    have second := hexDigitApart (by omega : b.toNat % 16 < 16) (by decide : hexValue plus = none)
    have same : UInt8.ofNat (16*(b.toNat / 16)+b.toNat % 16) = b := by
      rw [Nat.div_add_mod,UInt8.ofNat_toNat]
    rw [if_neg blank]
    simp only [decode,List.cons_append,List.nil_append,List.map_cons,if_neg (by decide : percent ≠ plus),if_neg first,if_neg second]
    rw [percentDecode,escaped,if_pos rfl,high,low,Option.bind_some,Option.map_some,same]

/- The percent sign and the plus sign have to be escaped, any other bytes may be. -/
theorem decodeEscape {escapes : UInt8 → Bool} (sign : escapes percent = true) (mark : escapes plus = true) (bs : List UInt8) :
    decode (escape escapes bs) = bs := by
  induction bs with
  | nil => rfl
  | cons b bs ih =>
    have shape : escape escapes (b :: bs) = (if escapes b then escapeByte b else [b]) ++ escape escapes bs := rfl
    rw [shape]
    split
    · rw [decodeEscaped,ih]
    · rename_i kept
      have apart {d : UInt8} (turned : escapes d = true) : b ≠ d := fun same => kept (same ▸ turned)
      rw [List.singleton_append,decodePlain (apart sign) (apart mark),ih]

theorem unescapePlain {b : UInt8} (sign : b ≠ percent) (rest : List UInt8) :
    unescape (b :: rest) = (unescape rest).map ((if b = plus then space else b) :: ·) := by
  have here (c d : UInt8) : escaped b c d = none := if_neg sign
  match rest with
  | [] => rw [unescape.eq_def]; exact if_neg sign
  | [c] => rw [unescape.eq_def]; exact if_neg sign
  | c :: d :: more =>
    rw [unescape,here]
    exact if_neg sign

theorem unescapeEscaped (b : UInt8) (rest : List UInt8) : unescape (escapeByte b ++ rest) = (unescape rest).map (b :: ·) := by
  have small : b.toNat < 256 := b.toNat_lt
  unfold escapeByte
  by_cases blank : b = space
  · rw [if_pos blank,List.singleton_append,unescapePlain (by decide),if_pos rfl,blank]
  · have same : UInt8.ofNat (16*(b.toNat / 16)+b.toNat % 16) = b := by
      rw [Nat.div_add_mod,UInt8.ofNat_toNat]
    rw [if_neg blank,List.cons_append,List.cons_append,List.cons_append,List.nil_append,unescape,escaped,if_pos rfl,
      hexDigitBack _ (by omega),hexDigitBack _ (by omega),Option.bind_some,Option.map_some,same]

/- The strict reader takes every escape, too. -/
theorem unescapeEscape {escapes : UInt8 → Bool} (sign : escapes percent = true) (mark : escapes plus = true) (bs : List UInt8) :
    unescape (escape escapes bs) = some bs := by
  induction bs with
  | nil => rfl
  | cons b bs ih =>
    have shape : escape escapes (b :: bs) = (if escapes b then escapeByte b else [b]) ++ escape escapes bs := rfl
    rw [shape]
    split
    · rw [unescapeEscaped,ih,Option.map_some]
    · rename_i kept
      have apart {d : UInt8} (turned : escapes d = true) : b ≠ d := fun same => kept (same ▸ turned)
      rw [List.singleton_append,unescapePlain (apart sign),if_neg (apart mark),ih,Option.map_some]

/- An escaped mark is in the escape of no bytes. -/
theorem escapeFree {escapes : UInt8 → Bool} {d : UInt8} (turned : escapes d = true) (sign : d ≠ percent) (mark : d ≠ plus)
    (digit : hexValue d = none) (bs : List UInt8) : d ∉ escape escapes bs := by
  intro mem
  obtain ⟨b,_,here⟩ := List.mem_flatMap.mp mem
  have small : b.toNat < 256 := b.toNat_lt
  split at here
  · unfold escapeByte at here
    split at here
    · exact mark (List.mem_singleton.mp here)
    · simp only [List.mem_cons,List.not_mem_nil,or_false] at here
      rcases here with rfl | rfl | rfl
      · exact sign rfl
      · exact hexDigitApart (by omega) digit rfl
      · exact hexDigitApart (by omega) digit rfl
  · rename_i kept
    exact kept (List.mem_singleton.mp here ▸ turned)

theorem decodeName {name : List UInt8} (plain : ∀ b ∈ name, b ≠ percent ∧ b ≠ plus) : decode name = name := by
  induction name with
  | nil => rfl
  | cons b name ih =>
    obtain ⟨sign,mark⟩ := plain b (by simp)
    rw [decodePlain sign mark,ih fun c mem => plain c (by simp [mem])]

/- A name that needs no escape and a value without an ampersand are one pair. -/
theorem parseOne {name value : List UInt8} (plain : ∀ b ∈ name, b ≠ percent ∧ b ≠ plus) (one : ampersand ∉ name)
    (cut : equals ∉ name) (whole : ampersand ∉ value) : parse (name ++ equals :: value) = [(name,decode value)] := by
  have single : (name ++ equals :: value).splitOn ampersand = [name ++ equals :: value] := by
    refine List.splitOnP_eq_singleton fun b mem => ?_
    rw [beq_eq_false_iff_ne]
    rintro rfl
    rcases List.mem_append.mp mem with left | right
    · exact one left
    · rcases List.mem_cons.mp right with same | later
      · exact absurd same (by decide)
      · exact whole later
  have before : ∀ b ∈ name, (b != equals) = true := fun b mem => bne_iff_ne.mpr fun same => cut (same ▸ mem)
  unfold parse
  rw [single,List.filter_cons_of_pos (by simp),List.filter_nil,List.map_singleton,pair,List.takeWhile_append_of_pos before,
    List.dropWhile_append_of_pos before]
  rw [List.takeWhile_cons_of_neg (by simp),List.dropWhile_cons_of_neg (by simp),List.append_nil,decodeName plain]
  rfl

theorem queryBehind {front more : List UInt8} (none : question ∉ front) (whole : number ∉ front ++ question :: more) :
    query (front ++ question :: more) = more := by
  have inside : ∀ b ∈ front ++ question :: more, (b != number) = true := fun b mem => bne_iff_ne.mpr fun same => whole (same ▸ mem)
  have before : ∀ b ∈ front, (b != question) = true := fun b mem => bne_iff_ne.mpr fun same => none (same ▸ mem)
  unfold query
  rw [List.takeWhile_eq_self_iff.mpr inside,List.dropWhile_append_of_pos before,List.dropWhile_cons_of_neg (by simp)]
  rfl

end FormURL
