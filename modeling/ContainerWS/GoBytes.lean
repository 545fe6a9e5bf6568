import Mathlib.Data.UInt

/-! Texts of Go as the bytes they are, whether or not these are UTF-8. -/
namespace GoBytes

/- The characters that `unicode.IsSpace` holds for, as UTF-8 writes them. -/
def oneByteSpace (a : UInt8) : Bool := a == 0x20 || (0x09 ≤ a && a ≤ 0x0D)

def twoByteSpace (a b : UInt8) : Bool := a == 0xC2 && (b == 0x85 || b == 0xA0)

def threeByteSpace (a b c : UInt8) : Bool :=
  (a == 0xE1 && b == 0x9A && c == 0x80) ||
  (a == 0xE2 && b == 0x80 && ((0x80 ≤ c && c ≤ 0x8A) || c == 0xA8 || c == 0xA9 || c == 0xAF)) ||
  (a == 0xE2 && b == 0x81 && c == 0x9F) || (a == 0xE3 && b == 0x80 && c == 0x80)

/- That `strings.TrimSpace` leaves nothing. -/
def blank : List UInt8 → Bool
  | [] => true
  | [a] => oneByteSpace a
  | [a,b] => (oneByteSpace a && oneByteSpace b) || twoByteSpace a b
  | a :: b :: c :: rest =>
    (oneByteSpace a && blank (b :: c :: rest)) || (twoByteSpace a b && blank (c :: rest)) || (threeByteSpace a b c && blank rest)

theorem blankLong (a b c : UInt8) (rest : List UInt8) : blank (a :: b :: c :: rest) =
    ((oneByteSpace a && blank (b :: c :: rest)) || (twoByteSpace a b && blank (c :: rest)) || (threeByteSpace a b c && blank rest)) := rfl

end GoBytes
