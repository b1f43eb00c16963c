import BindingPlan.Json.Scalar

/-!
# Reading documents

A reader takes the text from some place on and gives a value with the text behind it, or the first
problem. Lists and records are read element by element, so a problem early in a document hides all
later ones.

A record is read from an object, whose keys come in any order, at most once each, between others
that are skipped; or from a list of its fields in their order, of which optional ones may be missing
at the end.
-/

namespace BindingPlan

/-- Reads a value from the start of a text. -/
abbrev Reader (α : Type) := StateT (List Char) (Except JsonError) α

namespace Reader

/-- The next character that is no blank, which stays to be read. -/
def next? : Reader (Option Char) := do
  modify (·.dropWhile Json.isBlank)
  return (← get).head?

/-- Passes over the next character. -/
def advance : Reader Unit :=
  modify (·.drop 1)

/-- Reads with a function on the text behind the next character. -/
def behind {α : Type} (read : List Char → Except JsonError (α × List Char)) : Reader α := do
  advance
  let (value, rest) ← read (← get)
  set rest
  return value

def word (word : String) : Reader Unit := do
  set (← Json.dropWord word.toList (← get))

/-- Fails with the value that stands here. -/
def unexpected {α : Type} (expected : String) : Reader α := do
  throw (Json.unexpected expected (← get))

/-! ## Scalars -/

def text : Reader String := do
  match ← next? with
  | some '"' => behind Json.readText
  | _ => unexpected "a string"

def bool : Reader Bool := do
  match ← next? with
  | some 't' => do
    word "true"
    return true
  | some 'f' => do
    word "false"
    return false
  | _ => unexpected "a boolean"

/-- A text, or nothing for `null`. -/
def optionalText : Reader (Option String) := do
  match ← next? with
  | some 'n' => do
    word "null"
    return none
  | _ => return some (← text)

/-! ## Lists -/

/-- Whether the list goes on, in front of its first element or behind another one. -/
def hasElement (first : Bool) : Reader Bool := do
  match ← next? with
  | none => throw .truncated
  | some ']' => return false
  | some c =>
    if first then return true
    else if c = ',' then
      advance
      match ← next? with
      | none => throw .truncated
      | some ']' => throw .malformed
      | some _ => return true
    else throw .malformed

/-- The end of a list. -/
def closeList : Reader Unit := do
  match ← next? with
  | none => throw .truncated
  | some ']' => advance
  | some _ => throw .malformed

/-- The elements of a list up to its end. Every element takes at least one character, so the bound
is not reached if it is above the length of the text. -/
def elements {α : Type} (read : Reader α) : Nat → Bool → Reader (List α)
  | 0, _ => throw .truncated
  | bound + 1, first => do
    if ← hasElement first then
      let value ← read
      let values ← elements read bound false
      return value :: values
    else return []

def list {α : Type} (read : Reader α) : Reader (List α) := do
  match ← next? with
  | some '[' => do
    advance
    let values ← elements read ((← get).length + 1) true
    closeList
    return values
  | _ => unexpected "a sequence"

/-! ## Objects -/

/-- The colon between a key and its value. -/
def colon : Reader Unit := do
  match ← next? with
  | none => throw .truncated
  | some ':' => advance
  | some _ => throw .malformed

/-- Whether the object goes on with a key, in front of its first entry or behind another one. -/
def hasEntry (first : Bool) : Reader Bool := do
  match ← next? with
  | none => throw .truncated
  | some '\x7d' => return false
  | some c =>
    if first then
      if c = '"' then return true else throw .malformed
    else if c = ',' then
      advance
      match ← next? with
      | none => throw .truncated
      | some '"' => return true
      | some _ => throw .malformed
    else throw .malformed

mutual

/-- Passes over a value of any kind. Every step takes a character or ends a list or an object, so
the bound is not reached if it is above twice the length of the text. -/
def skipValue : Nat → Reader Unit
  | 0 => throw .truncated
  | bound + 1 => do
    match ← next? with
    | none => throw .truncated
    | some 'n' => word "null"
    | some 't' => word "true"
    | some 'f' => word "false"
    | some '"' => behind fun rest => return ((), ← Json.skipText rest)
    | some '-' => behind fun rest => return ((), ← Json.skipNumber rest)
    | some '[' => do
      advance
      skipElements bound true
    | some '\x7b' => do
      advance
      skipEntries bound true
    | some c => if c.isDigit then set (← Json.skipNumber (← get)) else throw .malformed

/-- Passes over the elements and the end of a list. -/
def skipElements : Nat → Bool → Reader Unit
  | 0, _ => throw .truncated
  | bound + 1, first => do
    if ← hasElement first then
      skipValue bound
      skipElements bound false
    else advance

/-- Passes over the entries and the end of an object. -/
def skipEntries : Nat → Bool → Reader Unit
  | 0, _ => throw .truncated
  | bound + 1, first => do
    if ← hasEntry first then
      behind fun rest => return ((), ← Json.skipText rest)
      colon
      skipValue bound
      skipEntries bound false
    else advance

end

/-- Passes over a value of any kind. -/
def skip : Reader Unit := do
  skipValue (2 * (← get).length + 1)

end Reader

/-! ## Records -/

/-- A field of a record in a document. -/
structure Slot (α : Type) where
  key : String
  required : Bool
  /-- Reads the value of the field into a record. -/
  read : α → Reader α

/-- How records of a type are written in documents. -/
structure RecordForm (α : Type) where
  /-- The name of the record in messages. -/
  name : String
  /-- The record without any of its fields. -/
  blank : α
  slots : List (Slot α)

namespace RecordForm

/-- The first required field whose key was not seen. -/
def missing? {α : Type} (form : RecordForm α) (seen : List String) : Option String :=
  (form.slots.find? fun slot => slot.required && !seen.contains slot.key).map Slot.key

/-- The entries of an object up to its end. Every entry takes at least one character, so the bound
is not reached if it is above the length of the text. -/
def entries {α : Type} (form : RecordForm α) : Nat → Bool → List String → α → Reader α
  | 0, _, _, _ => throw .truncated
  | bound + 1, first, seen, record => do
    if ← Reader.hasEntry first then
      let key ← Reader.behind Json.readText
      match form.slots.find? (·.key == key) with
      | some slot =>
        if seen.contains key then throw (.mismatch (.duplicateField key))
        Reader.colon
        let record ← slot.read record
        entries form bound false (key :: seen) record
      | none =>
        Reader.colon
        Reader.skip
        entries form bound false seen record
    else
      match form.missing? seen with
      | some key => throw (.mismatch (.missingField key))
      | none => return record

/-- The fields of a record that is written as a list, from the slot with the given number on. -/
def positional {α : Type} (form : RecordForm α) : List (Slot α) → Nat → α → Reader α
  | [], _, record => return record
  | slot :: slots, index, record => do
    if ← Reader.hasElement (index == 0) then
      let record ← slot.read record
      positional form slots (index + 1) record
    else if slot.required then
      throw (.mismatch (.invalidLength index form.name form.slots.length))
    else positional form slots (index + 1) record

/-- Reads a record. -/
def read {α : Type} (form : RecordForm α) : Reader α := do
  match ← Reader.next? with
  | some '[' => do
    Reader.advance
    let record ← form.positional form.slots 0 form.blank
    Reader.closeList
    return record
  | some '\x7b' => do
    Reader.advance
    let record ← form.entries ((← get).length + 1) true [] form.blank
    Reader.advance
    return record
  | _ => Reader.unexpected form.name

/-- Reads a record that makes up a whole document. -/
def readDocument {α : Type} (form : RecordForm α) (text : String) : Except JsonError α := do
  let (record, rest) ← form.read.run text.toList
  if rest.all Json.isBlank then return record else throw .malformed

end RecordForm
end BindingPlan
