import InlineCil.Text.Property

/-!
# Quoted text

Text between double quotes, as string constants are shown. A quote, a backslash
and the usual controls have short escapes; every other character that cannot be
seen by itself is written by its code point, in hexadecimal digits between
braces.

Each character is escaped by itself, with no regard to its neighbours. So two
texts that differ are quoted differently, and the quoted form of a text is the
concatenation of what its characters become. A single quote needs no escape here.

The same form is used in assembler notation and wherever a message shows a value
with its structure.
-/

namespace InlineCil.Text

/-- One character inside quotes. -/
def escaped (c : Char) : List Char :=
  match c with
  | '\x00' => ['\\', '0']
  | '\t' => ['\\', 't']
  | '\r' => ['\\', 'r']
  | '\n' => ['\\', 'n']
  | '\\' => ['\\', '\\']
  | '"' => ['\\', '"']
  | c =>
      if isVisible c then [c]
      else ['\\', 'u', '\x7b'] ++ Nat.toDigits 16 c.toNat ++ ['\x7d']

/-- Text between quotes. -/
def quoted (s : String) : String :=
  "\"" ++ String.ofList (s.toList.flatMap escaped) ++ "\""

end InlineCil.Text
