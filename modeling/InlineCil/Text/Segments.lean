/-!
# Segments of text

Cutting text at separator characters, and replacing every occurrence of a
pattern. Both work on lists of characters and read from left to right, by
recursion on the list.

Empty runs between separators are kept, so that a doubled separator can be told
from a single one and cutting loses nothing: there is always one run more than
there are separators. Occurrences of a pattern do not overlap; while one is being
passed over, a count says how many of its characters are still to come.

Lowering changes Latin capitals only. Names of assemblies, keys and modes are
compared so, and a capital of another script is a different character there.
-/

namespace InlineCil.Text

/-- The runs of characters between separators, empty runs kept. There is always
one run more than there are separators. -/
def segments (isSeparator : Char → Bool) : List Char → List (List Char)
  | [] => [[]]
  | c :: rest =>
      if isSeparator c then [] :: segments isSeparator rest
      else match segments isSeparator rest with
        | [] => [[c]]
        | first :: others => (c :: first) :: others

/-- The first run of characters is the text before the first separator. -/
def firstSegment (isSeparator : Char → Bool) (text : List Char) : List Char :=
  text.takeWhile (!isSeparator ·)

/-- Replace every occurrence of a pattern, taking occurrences that do not overlap
from left to right. The count says how many characters belong to the last
occurrence. -/
def replaceFrom (pattern replacement : List Char) : Nat → List Char → List Char
  | _, [] => []
  | matched + 1, _ :: rest => replaceFrom pattern replacement matched rest
  | 0, c :: rest =>
      if pattern.isPrefixOf (c :: rest) then
        replacement ++ replaceFrom pattern replacement (pattern.length - 1) rest
      else c :: replaceFrom pattern replacement 0 rest

/-- Remove every occurrence of a pattern. -/
def without (pattern text : String) : String :=
  String.ofList (replaceFrom pattern.toList [] 0 text.toList)

/-- Exchange one character for another throughout. -/
def exchanged (old new : Char) (text : String) : String :=
  String.ofList (text.toList.map fun c => if c = old then new else c)

/-- Latin capitals become small letters; other characters stay as they are. -/
def lowered (text : String) : String := String.ofList (text.toList.map Char.toLower)

/-- The text after a given beginning, if it begins so. -/
def after? (beginning text : String) : Option String :=
  if beginning.toList.isPrefixOf text.toList then
    some (String.ofList (text.toList.drop beginning.toList.length))
  else none

end InlineCil.Text
