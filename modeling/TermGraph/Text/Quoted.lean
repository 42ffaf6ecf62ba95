import TermGraph.Text.CharacterClass

/-!
# Quoted — texts between quotes

A text is written between quotes in two ways. The DIAGNOSTIC form stands
between double quotes and escapes whatever would be misread. The text of a
FUNCTOR stands between single quotes, and only where it could not be read
without them.
-/

namespace TermGraph

/-! ## The diagnostic form of a text

A diagnostic shows a text between double quotes, with every character that
would be misread written as an escape: the quote and the backslash, the
four controls that have a letter, and the code point in hexadecimal for a
character that extends its neighbour, is drawn as nothing, or has no
printed shape. A single quote stands for itself. -/

namespace Text

/-- The code point in hexadecimal, between braces. -/
def escapedCode (c : Char) : String :=
  "\\u\x7b" ++ String.ofList (Nat.toDigits 16 c.toNat) ++ "\x7d"

/-- One character of the diagnostic form. -/
def escapedChar (c : Char) : String :=
  if c = '"' then "\\\""
  else if c = '\\' then "\\\\"
  else if c = '\n' then "\\n"
  else if c = '\r' then "\\r"
  else if c = '\t' then "\\t"
  else if c.toNat = 0 then "\\0"
  else if isExtender c || isIgnorable c || isUnprintable c then escapedCode c
  else String.singleton c

/-- The diagnostic form of a text. -/
def escaped (s : String) : String :=
  "\"" ++ String.join (s.toList.map escapedChar) ++ "\""

/-! ## When a functor needs quotes, and how they are written

A functor is BARE when it can be read without quotes: it is the cut, or an
ASCII small letter followed by ASCII letters, digits and underscores. Any
other functor is written between single quotes. Inside them a single quote
is written twice, and the two line ends are written as a backslash and a
letter; everything else, a backslash and a tab included, stands for
itself. -/

/-- A character that may follow the first one of a bare functor. -/
def isBareChar (c : Char) : Bool := c.isAlphanum || c == '_'

/-- The functor is written without quotes. -/
def isBare (s : String) : Bool :=
  s == "!" ||
    match s.toList with
    | [] => false
    | first :: rest => first.isLower && rest.all isBareChar

/-- What stands between the quotes for one character. -/
def quotedChar (c : Char) : List Char :=
  if c = '\'' then ['\'', '\'']
  else if c = '\n' then ['\\', 'n']
  else if c = '\r' then ['\\', 'r']
  else [c]

/-- The text between single quotes. -/
def quoted (s : String) : String :=
  String.ofList ('\'' :: s.toList.flatMap quotedChar ++ ['\''])

/-- The functor as it is written: bare if it can be, quoted otherwise. -/
def functorText (s : String) : String := if isBare s then s else quoted s

end Text

end TermGraph
