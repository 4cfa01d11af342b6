import TraversalQuery.Text.Escaped

/-!
# Quoted texts

Two ways to show a text between double quotes. Messages quote for a reader: what has no glyph is
shown by its code point. Data is quoted for a machine: only quotes, backslashes and controls are
escaped.
-/

namespace TraversalQuery

namespace Text

/-- The digits of a number in base sixteen, in lower case. -/
def hexDigits (value : Nat) : String :=
  String.ofList (Nat.toDigits 16 value)

namespace Quoted

/-- A character as a message shows it inside quotes. -/
def shownChar (c : Char) : String :=
  if c = '"' then "\\\""
  else if c = '\\' then "\\\\"
  else if c = '\n' then "\\n"
  else if c = '\r' then "\\r"
  else if c = '\t' then "\\t"
  else if c = '\x00' then "\\0"
  else if 0x20 ≤ c.toNat && c.toNat < 0x7f then c.toString
  else if isShownEscaped c then "\\u\x7b" ++ hexDigits c.toNat ++ "\x7d"
  else c.toString

/-- A text in quotes, as a message shows it. -/
def shown (text : String) : String :=
  "\"" ++ String.join (text.toList.map shownChar) ++ "\""

/-- A character as data holds it inside quotes. -/
def dataChar (c : Char) : String :=
  if c = '"' then "\\\""
  else if c = '\\' then "\\\\"
  else if c = '\n' then "\\n"
  else if c = '\r' then "\\r"
  else if c = '\t' then "\\t"
  else if c = '\x08' then "\\b"
  else if c = '\x0c' then "\\f"
  else if c.toNat < 0x10 then "\\u000" ++ hexDigits c.toNat
  else if c.toNat < 0x20 then "\\u00" ++ hexDigits c.toNat
  else c.toString

/-- A text in quotes, as data holds it. -/
def data (text : String) : String :=
  "\"" ++ String.join (text.toList.map dataChar) ++ "\""

end Quoted

end Text

end TraversalQuery
