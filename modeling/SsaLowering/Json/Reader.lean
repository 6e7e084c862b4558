import SsaLowering.Json.Basic

/-!
# Reading structured data

A text is first cut into tokens, and the tokens are then read as one value. Both
steps refuse everything that is not exactly one well-formed value.
-/

namespace SsaLowering

namespace Json

/-- The value of a hexadecimal digit of either case. -/
def hexValue? (c : Char) : Option Nat :=
  if c.isDigit then some (c.toNat - '0'.toNat)
  else if 'a' ≤ c ∧ c ≤ 'f' then some (c.toNat - 'a'.toNat + 10)
  else if 'A' ≤ c ∧ c ≤ 'F' then some (c.toNat - 'A'.toNat + 10)
  else none

/-- The 16-bit unit written with four hexadecimal digits. -/
def hexUnit? (a b c d : Char) : Option Nat := do
  return (((← hexValue? a) * 16 + (← hexValue? b)) * 16 + (← hexValue? c)) * 16 + (← hexValue? d)

/-- The character that an escape of one letter stands for. -/
def simpleEscape? : Char → Option Char
  | '"' => some '"'
  | '\\' => some '\\'
  | '/' => some '/'
  | 'b' => some (Char.ofNat 8)
  | 'f' => some (Char.ofNat 12)
  | 'n' => some '\n'
  | 'r' => some '\r'
  | 't' => some '\t'
  | _ => none

/-- A piece of a string literal: a character, or a 16-bit unit given by its number. -/
inductive Piece where
  | char (c : Char)
  | unit (code : Nat)

/-- The pieces of a string literal after its opening quote, and what follows the closing
one. Control characters have to be escaped. -/
def readPieces : List Char → Option (List Piece × List Char)
  | [] => none
  | '"' :: rest => some ([], rest)
  | '\\' :: 'u' :: a :: b :: c :: d :: rest => do
    let code ← hexUnit? a b c d
    let (pieces, rest) ← readPieces rest
    return (.unit code :: pieces, rest)
  | '\\' :: letter :: rest => do
    let c ← simpleEscape? letter
    let (pieces, rest) ← readPieces rest
    return (.char c :: pieces, rest)
  | c :: rest =>
    if c.toNat < 32 || c == '\\' then none
    else do
      let (pieces, rest) ← readPieces rest
      return (.char c :: pieces, rest)

/-- The first half of a pair of units. -/
def isHighSurrogate (code : Nat) : Bool := decide (0xD800 ≤ code ∧ code ≤ 0xDBFF)

/-- The second half of a pair of units. -/
def isLowSurrogate (code : Nat) : Bool := decide (0xDC00 ≤ code ∧ code ≤ 0xDFFF)

/-- The text of the pieces, if every half of a pair stands beside its other half. -/
def assemble? : List Piece → Option (List Char)
  | [] => some []
  | .char c :: rest => (assemble? rest).map (c :: ·)
  | .unit high :: .unit low :: rest =>
    if isHighSurrogate high then
      if isLowSurrogate low then
        (assemble? rest).map
          (Char.ofNat (0x10000 + (high - 0xD800) * 0x400 + (low - 0xDC00)) :: ·)
      else none
    else if isLowSurrogate high then none
    else (assemble? (.unit low :: rest)).map (Char.ofNat high :: ·)
  | .unit code :: rest =>
    if isHighSurrogate code || isLowSurrogate code then none
    else (assemble? rest).map (Char.ofNat code :: ·)

/-- One or more digits, and what follows them. -/
def readDigits? (cs : List Char) : Option (List Char × List Char) :=
  let digits := cs.takeWhile Char.isDigit
  if digits.isEmpty then none else some (digits, cs.dropWhile Char.isDigit)

/-- The digits before the point: a single zero, or digits that do not start with one. -/
def readWhole? : List Char → Option (List Char × List Char)
  | '0' :: rest => some (['0'], rest)
  | cs => readDigits? cs

/-- The point and the digits after it, if there is a point. -/
def readFraction? : List Char → Option (List Char × List Char)
  | '.' :: rest => do
    let (digits, rest) ← readDigits? rest
    return ('.' :: digits, rest)
  | rest => some ([], rest)

/-- The exponent with its mark and sign, if there is a mark. -/
def readExponentPart? : List Char → Option (List Char × List Char)
  | c :: rest =>
    if c == 'e' || c == 'E' then do
      let (sign, rest) := match rest with
        | '+' :: rest => (['+'], rest)
        | '-' :: rest => (['-'], rest)
        | rest => ([], rest)
      let (digits, rest) ← readDigits? rest
      return (c :: sign ++ digits, rest)
    else some ([], c :: rest)
  | [] => some ([], [])

/-- A numeral, and what follows it. -/
def readNumeral? (cs : List Char) : Option (List Char × List Char) := do
  let (sign, cs) := match cs with
    | '-' :: rest => (['-'], rest)
    | rest => ([], rest)
  let (whole, cs) ← readWhole? cs
  let (fraction, cs) ← readFraction? cs
  let (exponent, cs) ← readExponentPart? cs
  return (sign ++ whole ++ fraction ++ exponent, cs)

/-- The blanks that may stand between tokens. -/
def isBlank (c : Char) : Bool := c == ' ' || c == '\n' || c == '\t' || c == '\r'

/-- The first token of a text that does not start with a blank, and what follows it. -/
def readToken? : List Char → Option (Token × List Char)
  | '\x7b' :: rest => some (.leftBrace, rest)
  | '\x7d' :: rest => some (.rightBrace, rest)
  | '[' :: rest => some (.leftBracket, rest)
  | ']' :: rest => some (.rightBracket, rest)
  | ':' :: rest => some (.colon, rest)
  | ',' :: rest => some (.comma, rest)
  | 'n' :: 'u' :: 'l' :: 'l' :: rest => some (.null, rest)
  | 't' :: 'r' :: 'u' :: 'e' :: rest => some (.bool true, rest)
  | 'f' :: 'a' :: 'l' :: 's' :: 'e' :: rest => some (.bool false, rest)
  | '"' :: rest => do
    let (pieces, rest) ← readPieces rest
    match assemble? pieces with
    | some text => return (.string (String.ofList text), rest)
    | none => return (.garbled, rest)
  | cs => do
    let (numeral, rest) ← readNumeral? cs
    return (.number (String.ofList numeral), rest)

/-- The tokens of a text. Every token takes at least one character, so the length of
the text bounds the number of steps. -/
def scan? : Nat → List Char → Option (List Token)
  | _, [] => some []
  | 0, _ => none
  | fuel + 1, c :: rest =>
    if isBlank c then scan? fuel rest
    else do
      let (token, rest) ← readToken? (c :: rest)
      let tokens ← scan? fuel rest
      return token :: tokens

/-- A field in front of the fields after it. They are none once a name does not form text. -/
def consField (name : Option String) (value : Json) (fields : Option (List (String × Json))) :
    Option (List (String × Json)) := do
  return (← name, value) :: (← fields)

/-- The name of a field that a token spells, if it spells one. Inside, none if the name does
not form text. -/
def Token.fieldName? : Token → Option (Option String)
  | .string name => some (some name)
  | .garbled => some none
  | _ => none

mutual

/-- The value at the start of a token sequence, and the tokens after it. -/
def readValue? : Nat → List Token → Option (Json × List Token)
  | 0, _ => none
  | fuel + 1, input => match input with
    | .null :: rest => some (.null, rest)
    | .bool b :: rest => some (.bool b, rest)
    | .number n :: rest => some (.number n, rest)
    | .string s :: rest => some (.string s, rest)
    | .garbled :: rest => some (.garbled, rest)
    | .leftBracket :: .rightBracket :: rest => some (.array [], rest)
    | .leftBracket :: rest => do
      let (items, rest) ← readItems? fuel rest
      return (.array items, rest)
    | .leftBrace :: .rightBrace :: rest => some (.object [], rest)
    | .leftBrace :: rest => do
      let (fields, rest) ← readFields? fuel rest
      return (fields.elim .garbled .object, rest)
    | _ => none

/-- One or more items with commas between them, up to the closing bracket. -/
def readItems? : Nat → List Token → Option (List Json × List Token)
  | 0, _ => none
  | fuel + 1, input => do
    let (item, rest) ← readValue? fuel input
    match rest with
    | .rightBracket :: rest => return ([item], rest)
    | .comma :: rest => do
      let (items, rest) ← readItems? fuel rest
      return (item :: items, rest)
    | _ => none

/-- One or more fields with commas between them, up to the closing brace. The fields are
none if one of their names does not form text. -/
def readFields? : Nat → List Token → Option (Option (List (String × Json)) × List Token)
  | 0, _ => none
  | fuel + 1, input => match input with
    | key :: .colon :: input => do
      let name ← key.fieldName?
      let (value, rest) ← readValue? fuel input
      match rest with
      | .rightBrace :: rest => return (consField name value (some []), rest)
      | .comma :: rest => do
        let (fields, rest) ← readFields? fuel rest
        return (consField name value fields, rest)
      | _ => none
    | _ => none

end

/-- The value that a token sequence spells, if it spells exactly one. -/
def ofTokens? (tokens : List Token) : Option Json := do
  let (value, rest) ← readValue? (tokens.length + 1) tokens
  if rest.isEmpty then some value else none

/-- The value that a text spells, if it spells exactly one. -/
def parse? (text : String) : Option Json := do
  ofTokens? (← scan? text.toList.length text.toList)

end Json

end SsaLowering
