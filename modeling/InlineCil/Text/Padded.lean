/-!
# Padded numbers

Hexadecimal numbers, bare or with zeros before them up to a least width. A number
that needs more digits than the width has all of them.

Small letters are used for the offsets in listings and capitals for the flags in
messages. Both take the digits from `Nat.toDigits`, so that zero has one digit,
and what is shown reads back as the number whatever its width.

Signs are no concern of these functions: a negative number is first brought into
the range of unsigned words by whoever shows it.
-/

namespace InlineCil.Text

/-- Hexadecimal digits, small letters. -/
def hex (value : Nat) : String := String.ofList (Nat.toDigits 16 value)

/-- Hexadecimal digits, capitals. -/
def hexCapital (value : Nat) : String :=
  String.ofList ((Nat.toDigits 16 value).map Char.toUpper)

/-- Hexadecimal digits of at least the given width. -/
def hexPadded (width value : Nat) : String :=
  let digits := Nat.toDigits 16 value
  String.ofList (List.replicate (width - digits.length) '0' ++ digits)

end InlineCil.Text
