import SsaLowering.Json.Basic

/-!
# Writing structured data

Two forms of the same value: the compact one is the tokens without blanks, the
indented one puts every item and field on a line of its own.
-/

namespace SsaLowering

namespace Json

/-- The hexadecimal digit of a number below sixteen, in lower case. -/
def hexDigit (n : Nat) : Char := (Nat.digitChar n)

/-- A character inside a string literal. Quotes, backslashes and control characters
are escaped, all else stands for itself. -/
def escapeChar (c : Char) : List Char :=
  if c = '"' then ['\\', '"']
  else if c = '\\' then ['\\', '\\']
  else if c = '\n' then ['\\', 'n']
  else if c = '\r' then ['\\', 'r']
  else if c = '\t' then ['\\', 't']
  else if c.toNat = 8 then ['\\', 'b']
  else if c.toNat = 12 then ['\\', 'f']
  else if c.toNat < 32 then
    ['\\', 'u', '0', '0', hexDigit (c.toNat / 16), hexDigit (c.toNat % 16)]
  else [c]

/-- A string literal with its quotes. -/
def quote (text : String) : List Char :=
  '"' :: text.toList.flatMap escapeChar ++ ['"']

/-- The spelling of a token. A garbled place is written as an escape that no text has. -/
def Token.chars : Token → List Char
  | .leftBrace => ['\x7b']
  | .rightBrace => ['\x7d']
  | .leftBracket => ['[']
  | .rightBracket => [']']
  | .colon => [':']
  | .comma => [',']
  | .null => "null".toList
  | .bool true => "true".toList
  | .bool false => "false".toList
  | .number n => n.toList
  | .string s => quote s
  | .garbled => "\"\\ud800\"".toList

/-- The text of a value without blanks. -/
def compact (j : Json) : String := String.ofList (j.tokens.flatMap Token.chars)

/-- A line break and two blanks for every level. -/
def newline (level : Nat) : List Char := '\n' :: List.replicate (2 * level) ' '

mutual

/-- The characters of a value whose first line stands at the given level. -/
def indentedChars (level : Nat) : Json → List Char
  | .null => "null".toList
  | .bool true => "true".toList
  | .bool false => "false".toList
  | .number n => n.toList
  | .string s => quote s
  | .garbled => Token.garbled.chars
  | .array [] => "[]".toList
  | .array (item :: rest) =>
    '[' :: newline (level + 1) ++ indentedChars (level + 1) item
      ++ indentedItems (level + 1) rest ++ newline level ++ [']']
  | .object [] => ['\x7b', '\x7d']
  | .object ((name, value) :: rest) =>
    '\x7b' :: newline (level + 1) ++ quote name ++ [':', ' ']
      ++ indentedChars (level + 1) value
      ++ indentedFields (level + 1) rest ++ newline level ++ ['\x7d']

/-- The items after the first one, each on a line of its own. -/
def indentedItems (level : Nat) : List Json → List Char
  | [] => []
  | item :: rest =>
    ',' :: newline level ++ indentedChars level item ++ indentedItems level rest

/-- The fields after the first one, each on a line of its own. -/
def indentedFields (level : Nat) : List (String × Json) → List Char
  | [] => []
  | (name, value) :: rest =>
    ',' :: newline level ++ quote name ++ [':', ' '] ++ indentedChars level value
      ++ indentedFields level rest

end

/-- The text of a value with two blanks of indentation per level. -/
def indented (j : Json) : String := String.ofList (indentedChars 0 j)

end Json

end SsaLowering
