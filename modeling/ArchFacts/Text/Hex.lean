/-!
# Hexadecimal digits

Escapes in messages, in JSON and in settings files give characters by their code points, which are
written in hexadecimal digits.
-/

namespace ArchFacts.Text

/-- The lower case hexadecimal digits of a number, without leading zeros. -/
def hexDigits (n : Nat) : String := String.ofList (Nat.toDigits 16 n)

/-- The value of a hexadecimal digit, in either case. -/
def hexValue? (c : Char) : Option Nat :=
  if c.isDigit then some (c.toNat - '0'.toNat)
  else if 'a' ≤ c && c ≤ 'f' then some (c.toNat - 'a'.toNat + 10)
  else if 'A' ≤ c && c ≤ 'F' then some (c.toNat - 'A'.toNat + 10)
  else none

theorem hexValue?_digitChar {n : Nat} (h : n < 16) : hexValue? n.digitChar = some n := by
  have : ∀ m : Fin 16, hexValue? m.val.digitChar = some m.val := by decide
  exact this ⟨n, h⟩

end ArchFacts.Text
