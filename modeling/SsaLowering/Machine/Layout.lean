import SsaLowering.Machine.Type

/-!
# Sizes and layouts

Every scalar is aligned to its size. Fields are placed in order, each at the next
multiple of its alignment, and an aggregate is padded to its own alignment, which is the
largest one among its fields. Sizes are computed without a bound; a separate check says
whether 64-bit words hold all of them.
-/

namespace SsaLowering

/-- The size and the alignment of a type, in bytes. -/
structure Extent where
  size : Nat
  align : Nat
deriving DecidableEq, Inhabited

/-- Where the fields of an aggregate lie, and the extent of the whole. -/
structure AggregateLayout where
  offsets : List Nat
  size : Nat
  align : Nat
deriving DecidableEq, Inhabited

/-- The least multiple of `align` that is not below `n`. -/
def roundUp (n align : Nat) : Nat := (n + align - 1) / align * align

namespace MachineType

mutual

/-- The extent of a type. Void and function types have none, nor has a type made from
one of them. -/
def extent? : MachineType → Option Extent
  | .void => none
  | .function .. => none
  | .bool => some ⟨1, 1⟩
  | .int _ w => some ⟨w.bytes, w.bytes⟩
  | .float .single => some ⟨4, 4⟩
  | .float .double => some ⟨8, 8⟩
  | .ptr => some ⟨8, 8⟩
  | .array size element => element.extent?.map fun e => ⟨e.size * size, e.align⟩
  | .struct _ fields => (placeFrom fields 0 1).map fun l => ⟨l.size, l.align⟩
termination_by structural t => t

/-- Place fields after `used` bytes, in an aggregate aligned to at least `align`. -/
def placeFrom : List MachineType → (used align : Nat) → Option AggregateLayout
  | [], used, align => some ⟨[], roundUp used align, align⟩
  | field :: rest, used, align => do
    let e ← field.extent?
    let offset := roundUp used e.align
    let l ← placeFrom rest (offset + e.size) (max align e.align)
    return { l with offsets := offset :: l.offsets }
termination_by structural fields => fields

end

/-- The layout of an aggregate with the given fields. -/
def layout? (fields : List MachineType) : Option AggregateLayout := placeFrom fields 0 1

def size? (t : MachineType) : Option Nat := t.extent?.map (·.size)

def align? (t : MachineType) : Option Nat := t.extent?.map (·.align)

/-- The width of a type in bits, as a 32-bit number. -/
def bitWidth? : MachineType → Option Nat
  | .bool => some 1
  | t => t.size?.map fun bytes => bytes * 8 % UInt32.size

/-- Whether a 64-bit word holds a number. -/
def isWord (n : Nat) : Bool := decide (n < UInt64.size)

mutual

/-- Whether words hold every size that is computed for the extent of a type. Nothing is
computed after a part that has no extent. -/
def sizesFit : MachineType → Bool
  | .array size element =>
    element.sizesFit && element.extent?.all fun e => isWord (e.size * size)
  | .struct _ fields => placesFit fields 0 1
  | .void | .function .. | .bool | .int .. | .float _ | .ptr => true
termination_by structural t => t

/-- Whether words hold every size that is computed when fields are placed after `used`
bytes, in an aggregate aligned to at least `align`. -/
def placesFit : List MachineType → (used align : Nat) → Bool
  | [], used, align => isWord (roundUp used align)
  | field :: rest, used, align =>
    field.sizesFit && match field.extent? with
      | none => true
      | some e =>
        let next := roundUp used e.align + e.size
        isWord next && placesFit rest next (max align e.align)
termination_by structural fields => fields

end

/-- Whether words hold every number that is computed for the width of a type in bits. -/
def widthFits : MachineType → Bool
  | .bool => true
  | t => t.sizesFit && t.size?.all fun bytes => isWord (bytes * 8)

end MachineType

end SsaLowering
