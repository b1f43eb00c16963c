import BindingPlan.Text.Printable

/-!
# Quoted text

How literals and offending source pieces are shown: between quote marks, with the zero character,
the tab, the line ends, the backslash and the quote mark itself written as short escapes and every
other character that is not printable as `\u{…}` with its code point in hexadecimal.
-/

namespace BindingPlan

/-- A code point in lower-case hexadecimal, without leading zeros. -/
def hexadecimal (code : Nat) : List Char :=
  Nat.toDigits 16 code

/-- One character of a quoted text. -/
def escapeChar (quote c : Char) : List Char :=
  if c = '\x00' then ['\\', '0']
  else if c = '\t' then ['\\', 't']
  else if c = '\r' then ['\\', 'r']
  else if c = '\n' then ['\\', 'n']
  else if c = '\\' then ['\\', '\\']
  else if c = quote then ['\\', quote]
  else if isPrintable c then [c]
  else ['\\', 'u', '\x7b'] ++ hexadecimal c.toNat ++ ['\x7d']

/-- A text between quote marks. -/
def quoteWith (quote : Char) (text : List Char) : List Char :=
  quote :: (text.flatMap (escapeChar quote) ++ [quote])

/-- A text in double quotes. -/
def quoteText (text : String) : String :=
  String.ofList (quoteWith '"' text.toList)

/-- A character in single quotes. -/
def quoteChar (c : Char) : String :=
  String.ofList (quoteWith '\'' [c])

end BindingPlan
