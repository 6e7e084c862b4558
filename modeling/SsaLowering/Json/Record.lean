import SsaLowering.Json.Basic
import SsaLowering.Number.Decimal

/-!
# Typed views of structured data

A record is an object whose fields have known names, or an array of all its fields
in their declared order. A choice is a bare name, or an object with one field whose
name says which alternative it is.
-/

namespace SsaLowering

namespace Json

/-- A natural number as a numeral. -/
def ofNat (n : Nat) : Json := .number (toString n)

/-- An integer as a numeral. -/
def ofInt (n : Int) : Json := .number (toString n)

/-- An optional value, null when it is absent. -/
def ofOption {α : Type} (write : α → Json) : Option α → Json
  | none => .null
  | some a => write a

def ofList {α : Type} (write : α → Json) (as : List α) : Json := .array (as.map write)

/-- An alternative that carries a value. -/
def choice (name : String) (value : Json) : Json := .object [(name, value)]

def text? : Json → Option String
  | .string s => some s
  | _ => none

def bool? : Json → Option Bool
  | .bool b => some b
  | _ => none

/-- A numeral without sign, fraction and exponent, below the given bound. -/
def natBelow? (bound : Nat) : Json → Option Nat
  | .number numeral =>
    let digits := numeral.toList
    if digits.all Char.isDigit && decide (digitsValue digits < bound) then
      some (digitsValue digits)
    else none
  | _ => none

/-- An identifier, a position or an index. -/
def word? (j : Json) : Option Nat := j.natBelow? UInt32.size

/-- A size. -/
def size? (j : Json) : Option Nat := j.natBelow? UInt64.size

/-- A 64-bit integer. The numeral `-0` is a fraction, not an integer. -/
def int64? : Json → Option Int64
  | .number numeral => if numeral = "-0" then none else readInt64? numeral.toList
  | _ => none

/-- A double, reached in rounded steps from the digits that fit into 64 bits. A numeral
beyond the largest double is refused. -/
def binary64? : Json → Option Binary64
  | .number numeral => do (← Numeral.read? numeral.toList).leading.toBinary64Stepwise?
  | _ => none

/-- A value that null stands for when it is absent. -/
def optional? {α : Type} (read : Json → Option α) : Json → Option (Option α)
  | .null => some none
  | j => (read j).map some

def list? {α : Type} (read : Json → Option α) : Json → Option (List α)
  | .array items => items.mapM read
  | _ => none

/-- The value of a field, null when the field is missing; none when it repeats. -/
def field? (fields : List (String × Json)) (name : String) : Option Json :=
  match fields.filter (·.1 == name) with
  | [] => some .null
  | [(_, value)] => some value
  | _ => none

/-- The values of a record's fields in the order of `names`, null for a missing one.
Unknown fields of an object are ignored. An array has exactly the fields, except that
the last `droppable` ones may be left out. -/
def record? (names : List String) (droppable : Nat) : Json → Option (List Json)
  | .object fields => names.mapM (field? fields)
  | .array items =>
    if items.length ≤ names.length ∧ names.length ≤ items.length + droppable then
      some (items ++ List.replicate (names.length - items.length) .null)
    else none
  | _ => none

/-- The name of a chosen alternative and the value it carries, if any. -/
def choice? : Json → Option (String × Option Json)
  | .string name => some (name, none)
  | .object [(name, value)] => some (name, some value)
  | _ => none

/-- An alternative without a value is a bare name, or carries null. -/
def isBare : Option Json → Bool
  | none => true
  | some .null => true
  | some _ => false

/-- The member of a plain enumeration, found by its name. -/
def named? {α : Type} (all : List α) (name : α → String) (j : Json) : Option α := do
  let (wanted, value) ← j.choice?
  if isBare value then all.find? (name · == wanted) else none

end Json

end SsaLowering
