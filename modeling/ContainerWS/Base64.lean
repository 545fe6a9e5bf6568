import Mathlib.Data.String.Basic

/-! Standard base64 with padding, read as Go's `encoding/base64` reads it: line ends are
passed over, and the bits that a last group has too many are not looked at. -/
namespace Base64

def alphabet : List Char := "ABCDEFGHIJKLMNOPQRSTUVWXYZabcdefghijklmnopqrstuvwxyz0123456789+/".toList

def padding : Char := '='

def digit (n : Nat) : Char := alphabet.getD n padding

def value (c : Char) : Option Nat := alphabet.idxOf? c

/- Three bytes are four digits of six bits. -/
def encode : List UInt8 → List Char
  | [] => []
  | [a] => [digit (a.toNat/4),digit (a.toNat%4*16),padding,padding]
  | [a,b] => [digit (a.toNat/4),digit (a.toNat%4*16+b.toNat/16),digit (b.toNat%16*4),padding]
  | a :: b :: c :: rest =>
    digit (a.toNat/4) :: digit (a.toNat%4*16+b.toNat/16) :: digit (b.toNat%16*4+c.toNat/64) :: digit (c.toNat%64) :: encode rest

/- The bytes of a group with one, two or three of them. -/
def bytes (values : List Nat) : List UInt8 :=
  match values with
  | [x,y] => [UInt8.ofNat (x*4+y/16)]
  | [x,y,z] => [UInt8.ofNat (x*4+y/16),UInt8.ofNat (y%16*16+z/4)]
  | [x,y,z,w] => [UInt8.ofNat (x*4+y/16),UInt8.ofNat (y%16*16+z/4),UInt8.ofNat (z%4*64+w)]
  | _ => []

/- Padding stands in the last group only. -/
def groups : List Char → Option (List UInt8)
  | [] => some []
  | a :: b :: c :: d :: rest =>
    if c = padding ∧ d = padding ∧ rest = [] then ([a,b].mapM value).map bytes
    else if d = padding ∧ rest = [] then ([a,b,c].mapM value).map bytes
    else do
      let group ← [a,b,c,d].mapM value
      return bytes group ++ (← groups rest)
  | _ => none

def lineEnd (c : Char) : Bool := c = '\n' || c = '\r'

def decode (cs : List Char) : Option (List UInt8) := groups (cs.filter (fun c => !lineEnd c))

theorem digitTable : ∀ k : Fin 64, value (digit k) = some k.val ∧ digit k ∈ alphabet ∧ digit k ≠ padding := by
  decide +kernel

theorem valueDigit {n : Nat} (small : n < 64) : value (digit n) = some n := (digitTable ⟨n,small⟩).1

theorem digitMem {n : Nat} (small : n < 64) : digit n ∈ alphabet := (digitTable ⟨n,small⟩).2.1

theorem digitPadding {n : Nat} (small : n < 64) : digit n ≠ padding := (digitTable ⟨n,small⟩).2.2

/- What is written is a digit or padding. -/
theorem encodeMem {bs : List UInt8} {c : Char} (mem : c ∈ encode bs) : c ∈ alphabet ∨ c = padding := by
  induction bs using encode.induct with
  | case1 => cases mem
  | case2 a =>
    have top := a.toNat_lt
    have first := digitMem (n := a.toNat/4) (by omega)
    have second := digitMem (n := a.toNat%4*16) (by omega)
    simp only [encode,List.mem_cons,List.not_mem_nil,or_false] at mem
    rcases mem with rfl | rfl | same | same
    · exact .inl first
    · exact .inl second
    · exact .inr same
    · exact .inr same
  | case3 a b =>
    have top := a.toNat_lt
    have next := b.toNat_lt
    have first := digitMem (n := a.toNat/4) (by omega)
    have second := digitMem (n := a.toNat%4*16+b.toNat/16) (by omega)
    have third := digitMem (n := b.toNat%16*4) (by omega)
    simp only [encode,List.mem_cons,List.not_mem_nil,or_false] at mem
    rcases mem with rfl | rfl | rfl | same
    · exact .inl first
    · exact .inl second
    · exact .inl third
    · exact .inr same
  | case4 a b c rest ih =>
    have top := a.toNat_lt
    have next := b.toNat_lt
    have last := c.toNat_lt
    have first := digitMem (n := a.toNat/4) (by omega)
    have second := digitMem (n := a.toNat%4*16+b.toNat/16) (by omega)
    have third := digitMem (n := b.toNat%16*4+c.toNat/64) (by omega)
    have fourth := digitMem (n := c.toNat%64) (by omega)
    simp only [encode,List.mem_cons] at mem
    rcases mem with rfl | rfl | rfl | rfl | later
    · exact .inl first
    · exact .inl second
    · exact .inl third
    · exact .inl fourth
    · exact ih later

theorem encodeLineEnd (bs : List UInt8) : (encode bs).filter (fun c => !lineEnd c) = encode bs := by
  have each : alphabet.all (fun c => !lineEnd c) = true := by decide +kernel
  have solid : ∀ c ∈ alphabet, lineEnd c = false := by simpa using each
  rw [List.filter_eq_self]
  intro c mem
  rcases encodeMem mem with digit | rfl
  · rw [solid c digit]
    rfl
  · rfl

theorem ofNatToNat (b : UInt8) {n : Nat} (same : n = b.toNat) : UInt8.ofNat n = b := by
  rw [same,UInt8.ofNat_toNat]

theorem bytesOne (a : UInt8) : bytes [a.toNat/4,a.toNat%4*16] = [a] := by
  have top := a.toNat_lt
  rw [bytes,ofNatToNat a (by omega)]

theorem bytesTwo (a b : UInt8) : bytes [a.toNat/4,a.toNat%4*16+b.toNat/16,b.toNat%16*4] = [a,b] := by
  have top := a.toNat_lt
  have next := b.toNat_lt
  rw [bytes,ofNatToNat a (by omega),ofNatToNat b (by omega)]

theorem bytesThree (a b c : UInt8) :
    bytes [a.toNat/4,a.toNat%4*16+b.toNat/16,b.toNat%16*4+c.toNat/64,c.toNat%64] = [a,b,c] := by
  have top := a.toNat_lt
  have next := b.toNat_lt
  have last := c.toNat_lt
  rw [bytes,ofNatToNat a (by omega),ofNatToNat b (by omega),ofNatToNat c (by omega)]

theorem groupsEncode (bs : List UInt8) : groups (encode bs) = some bs := by
  induction bs using encode.induct with
  | case1 => rfl
  | case2 a =>
    have top := a.toNat_lt
    have first := valueDigit (n := a.toNat/4) (by omega)
    have second := valueDigit (n := a.toNat%4*16) (by omega)
    simp [encode,groups,first,second,bytesOne]
  | case3 a b =>
    have top := a.toNat_lt
    have next := b.toNat_lt
    have first := valueDigit (n := a.toNat/4) (by omega)
    have second := valueDigit (n := a.toNat%4*16+b.toNat/16) (by omega)
    have third := valueDigit (n := b.toNat%16*4) (by omega)
    have filled := digitPadding (n := b.toNat%16*4) (by omega)
    simp [encode,groups,filled,first,second,third,bytesTwo]
  | case4 a b c rest ih =>
    have top := a.toNat_lt
    have next := b.toNat_lt
    have last := c.toNat_lt
    have first := valueDigit (n := a.toNat/4) (by omega)
    have second := valueDigit (n := a.toNat%4*16+b.toNat/16) (by omega)
    have third := valueDigit (n := b.toNat%16*4+c.toNat/64) (by omega)
    have fourth := valueDigit (n := c.toNat%64) (by omega)
    have filled := digitPadding (n := c.toNat%64) (by omega)
    simp [encode,groups,filled,ih,first,second,third,fourth,bytesThree]

/- What is encoded is decoded again. -/
theorem decodeEncode (bs : List UInt8) : decode (encode bs) = some bs := by
  rw [decode,encodeLineEnd,groupsEncode]

end Base64
