/-! Hexadecimal text of numbers, padded with zeros on the left to a least number of digits.
Addresses are written with capital letters, raw entry words with small ones. -/

namespace Ia32Memory.Hexadecimal

def padded (width : Nat) (digits : List Char) : List Char :=
  List.replicate (width - digits.length) '0' ++ digits

def lower (width n : Nat) : String :=
  String.ofList (padded width (Nat.toDigits 16 n))

def upper (width n : Nat) : String :=
  String.ofList (padded width ((Nat.toDigits 16 n).map Char.toUpper))

end Ia32Memory.Hexadecimal
