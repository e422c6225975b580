/-!
# Numerals

Reading a number from its digits in a radix up to sixteen, and the unsigned
numerals of a given width: decimal digits with an optional leading plus sign,
of a value below a power of two.
-/

namespace SchemaForms.Text

def digitValue? (radix : Nat) (c : Char) : Option Nat :=
  let value? :=
    if '0' ≤ c && c ≤ '9' then some (c.toNat - '0'.toNat)
    else if 'a' ≤ c && c ≤ 'f' then some (c.toNat - 'a'.toNat + 10)
    else if 'A' ≤ c && c ≤ 'F' then some (c.toNat - 'A'.toNat + 10)
    else none
  value?.filter (· < radix)

def digitsValue? (radix : Nat) (digits : List Char) (value : Nat) : Option Nat :=
  match digits with
  | [] => some value
  | digit :: rest =>
      match digitValue? radix digit with
      | some d => digitsValue? radix rest (value * radix + d)
      | none => none

/-- The value of a non-empty sequence of digits. -/
def natOfDigits? (radix : Nat) : List Char → Option Nat
  | [] => none
  | digits => digitsValue? radix digits 0

def unsignedBelow? (limit : Nat) (text : List Char) : Option Nat :=
  (natOfDigits? 10 text).filter (· < limit)

/-- The number of values in 64 bits. -/
def word64Count : Nat := 18446744073709551616

/-- An unsigned 64-bit numeral. -/
def word64? (text : String) : Option Nat :=
  match text.toList with
  | '+' :: digits => unsignedBelow? word64Count digits
  | digits => unsignedBelow? word64Count digits

end SchemaForms.Text
