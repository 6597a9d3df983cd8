/-!
# Blank characters

The characters with the Unicode property White_Space, and text without them at
its ends. Blanks inside a text stay.

The property has few characters and has been stable for long, so they are listed
by their code points: the controls from tab to carriage return, the space, the
next-line control, and the spaces of other scripts. Characters of no width that
look blank, such as joiners, do not have the property and are not cut off.

Attribute values of settings and the simple names of assemblies are trimmed so.
-/

namespace InlineCil.Text

/-- Spaces, tabs, line ends and the spaces of other scripts. -/
def isBlank (c : Char) : Bool :=
  let code := c.toNat
  (9 ≤ code && code ≤ 13) || code = 0x20 || code = 0x85 || code = 0xA0 || code = 0x1680 ||
    (0x2000 ≤ code && code ≤ 0x200A) || code = 0x2028 || code = 0x2029 || code = 0x202F ||
    code = 0x205F || code = 0x3000

/-- Characters without the blanks at both ends. -/
def trimmedList (cs : List Char) : List Char :=
  ((cs.dropWhile isBlank).reverse.dropWhile isBlank).reverse

/-- Text without the blanks at both ends. -/
def trimmed (text : String) : String := String.ofList (trimmedList text.toList)

end InlineCil.Text
