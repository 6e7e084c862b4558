/-!
# Structured data

The tree of a JSON text and its token sequence. A numeral keeps its spelling, so
that an integer and a fraction with the same value stay apart. A string literal
whose escapes do not form text is kept as a place of its own, and so is an object
with such a name in it: they may stand where nothing reads them.
-/

namespace SsaLowering

/-- A JSON value. Fields keep their order and may repeat. -/
inductive Json where
  | null
  | bool (value : Bool)
  | number (numeral : String)
  | string (text : String)
  | garbled
  | array (items : List Json)
  | object (fields : List (String × Json))
deriving Inhabited

namespace Json

/-- The smallest meaningful pieces of a JSON text. -/
inductive Token where
  | leftBrace
  | rightBrace
  | leftBracket
  | rightBracket
  | colon
  | comma
  | null
  | bool (value : Bool)
  | number (numeral : String)
  | string (text : String)
  | garbled
deriving DecidableEq

mutual

/-- The tokens of a value, in order. -/
def tokens : Json → List Token
  | .null => [.null]
  | .bool b => [.bool b]
  | .number n => [.number n]
  | .string s => [.string s]
  | .garbled => [.garbled]
  | .array items => .leftBracket :: itemTokens items ++ [.rightBracket]
  | .object fields => .leftBrace :: fieldTokens fields ++ [.rightBrace]

/-- The tokens of the items of an array, with commas between them. -/
def itemTokens : List Json → List Token
  | [] => []
  | [item] => item.tokens
  | item :: rest => item.tokens ++ .comma :: itemTokens rest

/-- The tokens of the fields of an object, with commas between them. -/
def fieldTokens : List (String × Json) → List Token
  | [] => []
  | [(name, value)] => .string name :: .colon :: value.tokens
  | (name, value) :: rest =>
    .string name :: .colon :: value.tokens ++ .comma :: fieldTokens rest

end

end Json

end SsaLowering
