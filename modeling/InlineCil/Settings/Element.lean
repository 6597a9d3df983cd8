import InlineCil.Text.Segments

/-!
# Elements

The first element of an XML text and its attributes. Text, comments, processing
instructions, character data and a document type before the element are passed
over; the rest of the text is not looked at. Attributes are read one by one, so
that a fault in a later one does not hide the values before it.

Only what is needed to reach the attributes is checked. The element need not be
closed, its name may be anything, and a document type has a name but its contents
are read only to find its end. Within a tag, brackets between quotes do not close
it.

Values are returned as they are written. The references in them, five by name and
the others by the number of a character, are replaced in a step of its own.
Functions that go over pieces of the text are given the number of its characters
as a bound on their rounds.
-/

namespace InlineCil.Element

/-- What makes a text malformed. -/
inductive Malformed where
  | openMarkup | strayEnd | unknownMarkup | documentTypeWithoutName
  | attributeWithoutSign | attributeWithoutValue | valueWithoutQuotes | openValue
  | repeatedAttribute | openReference | unknownReference | characterNumber
  deriving DecidableEq, Repr

/-- A short description. -/
def Malformed.message : Malformed → String
  | .openMarkup => "markup is not closed"
  | .strayEnd => "end tag without a start tag"
  | .unknownMarkup => "unknown markup"
  | .documentTypeWithoutName => "document type without a name"
  | .attributeWithoutSign => "attribute without an equals sign"
  | .attributeWithoutValue => "attribute without a value"
  | .valueWithoutQuotes => "attribute value without quotes"
  | .openValue => "attribute value is not closed"
  | .repeatedAttribute => "attribute is repeated"
  | .openReference => "reference is not closed"
  | .unknownReference => "unknown reference"
  | .characterNumber => "reference to a character that does not exist"

/-- The spaces between the parts of a tag. -/
def isSpace (c : Char) : Bool := c = ' ' || c = '\r' || c = '\n' || c = '\t'

/-- The text before the first occurrence of a pattern, and the text after it. -/
def splitAt? (pattern : List Char) : List Char → Option (List Char × List Char)
  | [] => if pattern.isEmpty then some ([], []) else none
  | c :: rest =>
      if pattern.isPrefixOf (c :: rest) then some ([], (c :: rest).drop pattern.length)
      else (splitAt? pattern rest).map fun (before, after) => (c :: before, after)

/-- The text of a document type up to its closing bracket, and the text after that.
    Brackets inside come in pairs. -/
def splitBalanced? : (depth : Nat) → List Char → Option (List Char × List Char)
  | _, [] => none
  | depth, c :: rest =>
      let continued := fun depth =>
        (splitBalanced? depth rest).map fun (before, after) => (c :: before, after)
      if c = '<' then continued (depth + 1)
      else if c = '>' then
        match depth with
        | 0 => some ([], rest)
        | depth + 1 => continued depth
      else continued depth

/-- The text of a tag up to its closing bracket. A bracket inside quotes does not
close. -/
def tagText? : (quote : Option Char) → List Char → Option (List Char)
  | _, [] => none
  | some q, c :: rest => (tagText? (if c = q then none else some q) rest).map (c :: ·)
  | none, c :: rest =>
      if c = '>' then some []
      else (tagText? (if c = '"' || c = '\'' then some c else none) rest).map (c :: ·)

/-- A tag without the slash that closes an empty element. -/
def withoutSlash (tag : List Char) : List Char :=
  if tag.getLast? = some '/' then tag.dropLast else tag

/-- Pass over a document type, which begins after the exclamation mark. -/
def afterDocumentType (text : List Char) : Except Malformed (List Char) :=
  match splitBalanced? 0 text with
  | none => .error .openMarkup
  | some (inside, after) =>
      if Text.lowered (String.ofList (inside.take 7)) != "doctype" then .error .unknownMarkup
      else if (inside.drop 7).all isSpace then .error .documentTypeWithoutName
      else .ok after

/-- Pass over markup that ends with a pattern. -/
def afterMarkup (pattern : String) (text : List Char) : Except Malformed (List Char) :=
  match splitAt? pattern.toList text with
  | some (_, after) => .ok after
  | none => .error .openMarkup

/-- The text of the first start tag. Every round passes over one piece of markup,
so there are no more rounds than characters. -/
def firstTag : (rounds : Nat) → List Char → Except Malformed (Option (List Char))
  | 0, _ => .ok none
  | rounds + 1, text =>
      match text.dropWhile (· != '<') with
      | [] => .ok none
      | _ :: '!' :: '-' :: '-' :: rest => do firstTag rounds (← afterMarkup "-->" rest)
      | _ :: '!' :: '[' :: 'C' :: 'D' :: 'A' :: 'T' :: 'A' :: '[' :: rest => do
          firstTag rounds (← afterMarkup "]]>" rest)
      | _ :: '!' :: rest =>
          match rest with
          | 'D' :: _ | 'd' :: _ => do firstTag rounds (← afterDocumentType rest)
          | _ => .error .unknownMarkup
      | _ :: '?' :: '>' :: _ => .error .openMarkup
      | _ :: '?' :: rest => do firstTag rounds (← afterMarkup "?>" rest)
      | _ :: '/' :: _ => .error .strayEnd
      | _ :: rest =>
          match tagText? none rest with
          | some tag => .ok (some (withoutSlash tag))
          | none => .error .openMarkup

/-- An attribute as it is written, and the text after it. -/
structure Written where
  key : List Char
  value : List Char
  rest : List Char

/-- The value after an equals sign. -/
def quotedValue (text : List Char) : Except Malformed (List Char × List Char) :=
  match text.dropWhile isSpace with
  | [] => .error .attributeWithoutValue
  | quote :: rest =>
      if quote = '"' || quote = '\'' then
        match splitAt? [quote] rest with
        | some split => .ok split
        | none => .error .openValue
      else .error .valueWithoutQuotes

/-- The first attribute of a text, if there is one. The character that starts a
name may be any but a space. -/
def nextAttribute (earlier : List (List Char)) (text : List Char) :
    Except Malformed (Option Written) :=
  match text.dropWhile isSpace with
  | [] => .ok none
  | first :: rest =>
      let inName := fun c => c != '=' && !isSpace c
      let key := first :: rest.takeWhile inName
      match (rest.dropWhile inName).dropWhile isSpace with
      | '=' :: rest =>
          if earlier.contains key then .error .repeatedAttribute
          else do
            let (value, rest) ← quotedValue rest
            return some ⟨key, value, rest⟩
      | _ => .error .attributeWithoutSign

/-- The attributes of a text up to the first malformed one, which ends the list.
There are no more attributes than characters. -/
def attributesFrom (earlier : List (List Char)) :
    (rounds : Nat) → List Char → List (Except Malformed (List Char × List Char))
  | 0, _ => []
  | rounds + 1, text =>
      match nextAttribute earlier text with
      | .error malformed => [.error malformed]
      | .ok none => []
      | .ok (some written) =>
          .ok (written.key, written.value) ::
            attributesFrom (written.key :: earlier) rounds written.rest

/-- The attributes of a tag; its name ends at the first space. -/
def attributes (tag : List Char) : List (Except Malformed (List Char × List Char)) :=
  attributesFrom [] tag.length (tag.dropWhile (!isSpace ·))

/-- The value of a digit of a base up to sixteen. -/
def digitValue? (base : Nat) (c : Char) : Option Nat :=
  let value :=
    if '0' ≤ c ∧ c ≤ '9' then c.toNat - '0'.toNat
    else if 'a' ≤ c ∧ c ≤ 'f' then c.toNat - 'a'.toNat + 10
    else if 'A' ≤ c ∧ c ≤ 'F' then c.toNat - 'A'.toNat + 10
    else base
  if value < base then some value else none

/-- A number without a sign. -/
def number? (base : Nat) (digits : List Char) : Option Nat :=
  if digits.isEmpty then none
  else digits.foldlM (fun value c => (digitValue? base c).map (base * value + ·)) 0

/-- The character of a number; there is none for zero. -/
def character? (code : Nat) : Option Char :=
  if h : code ≠ 0 ∧ code.isValidChar then some (Char.ofNatAux code h.2) else none

/-- The character that a reference stands for. -/
def resolve (name : List Char) : Except Malformed Char :=
  let numbered := fun base digits =>
    match (number? base digits).bind character? with
    | some c => .ok c
    | none => .error Malformed.characterNumber
  match name with
  | '#' :: 'x' :: digits => numbered 16 digits
  | '#' :: digits => numbered 10 digits
  | _ =>
      if name = "lt".toList then .ok '<'
      else if name = "gt".toList then .ok '>'
      else if name = "amp".toList then .ok '&'
      else if name = "apos".toList then .ok '\''
      else if name = "quot".toList then .ok '"'
      else .error .unknownReference

/-- Replace the references in a value. `name` collects the name of an open
reference, its last character first. -/
def unescapedFrom : (name : Option (List Char)) → List Char → Except Malformed (List Char)
  | none, [] => .ok []
  | some _, [] => .error .openReference
  | none, '&' :: rest => unescapedFrom (some []) rest
  | none, c :: rest => return c :: (← unescapedFrom none rest)
  | some _, '&' :: _ => .error .openReference
  | some name, ';' :: rest => do
      let c ← resolve name.reverse
      return c :: (← unescapedFrom none rest)
  | some name, c :: rest => unescapedFrom (some (c :: name)) rest

/-- Replace the references in a value. -/
def unescaped (value : List Char) : Except Malformed String :=
  return String.ofList (← unescapedFrom none value)

end InlineCil.Element
