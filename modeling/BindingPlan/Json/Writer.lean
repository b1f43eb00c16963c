/-!
# Writing documents

Documents as values, and two ways to write them: compact, without any blanks, and indented, with
every element and entry on a line of its own.
-/

namespace BindingPlan

/-- A document. The entries of an object keep their order. -/
inductive Json where
  | null
  | bool (value : Bool)
  | nat (value : Nat)
  | string (value : String)
  | array (elements : List Json)
  | object (entries : List (String × Json))

namespace Json

/-- A character inside a text: quotes, backslashes and control characters are escaped. -/
def writeChar (c : Char) : List Char :=
  if c = '"' then ['\\', '"']
  else if c = '\\' then ['\\', '\\']
  else if c = '\x08' then ['\\', 'b']
  else if c = '\x0c' then ['\\', 'f']
  else if c = '\n' then ['\\', 'n']
  else if c = '\r' then ['\\', 'r']
  else if c = '\t' then ['\\', 't']
  else if c.toNat < 0x20 then
    ['\\', 'u', '0', '0', Nat.digitChar (c.toNat / 16), Nat.digitChar (c.toNat % 16)]
  else [c]

def writeText (value : String) : String :=
  String.ofList ('"' :: (value.toList.flatMap writeChar ++ ['"']))

/-- A value that is neither a list nor an object. -/
def writeBool (value : Bool) : String :=
  if value then "true" else "false"

mutual

/-- A document without blanks. -/
def compact : Json → String
  | .null => "null"
  | .bool value => writeBool value
  | .nat value => toString value
  | .string value => writeText value
  | .array elements => "[" ++ ",".intercalate (compactElements elements) ++ "]"
  | .object entries => "\x7b" ++ ",".intercalate (compactEntries entries) ++ "\x7d"

def compactElements : List Json → List String
  | [] => []
  | value :: values => value.compact :: compactElements values

def compactEntries : List (String × Json) → List String
  | [] => []
  | (key, value) :: entries => (writeText key ++ ":" ++ value.compact) :: compactEntries entries

end

/-- Lines between two brackets, which stand at an indentation. -/
def block (opening closing : String) (indent : String) (lines : List String) : String :=
  match lines with
  | [] => opening ++ closing
  | lines =>
    let inner := "\n" ++ indent ++ "  "
    opening ++ inner ++ ("," ++ inner).intercalate lines ++ "\n" ++ indent ++ closing

mutual

/-- A document over several lines, whose further lines stand at an indentation. -/
def indented (indent : String) : Json → String
  | .null => "null"
  | .bool value => writeBool value
  | .nat value => toString value
  | .string value => writeText value
  | .array elements => block "[" "]" indent (indentedElements (indent ++ "  ") elements)
  | .object entries => block "\x7b" "\x7d" indent (indentedEntries (indent ++ "  ") entries)

def indentedElements (indent : String) : List Json → List String
  | [] => []
  | value :: values => value.indented indent :: indentedElements indent values

def indentedEntries (indent : String) : List (String × Json) → List String
  | [] => []
  | (key, value) :: entries =>
    (writeText key ++ ": " ++ value.indented indent) :: indentedEntries indent entries

end

/-- A document over several lines. -/
def pretty (value : Json) : String :=
  value.indented ""

/-- An optional value, `null` if there is none. -/
def optional {α : Type} (write : α → Json) : Option α → Json
  | some value => write value
  | none => .null

end Json
end BindingPlan
