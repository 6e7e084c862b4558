import SsaLowering.Code.Value
import SsaLowering.Machine.Type
import SsaLowering.Source.Location
import SsaLowering.Source.SourceType

/-!
# Names in scope

Every name has one binding, the latest. The bindings stand in the order of their
declarations, so that a name declared again moves to the end. Reading a name marks its
binding as used.
-/

namespace SsaLowering

/-- Where the value of a name lives. -/
inductive Storage where
  | stack (slot : Value)
  | global (name : String)
  | direct (value : Value)
deriving DecidableEq, Inhabited

/-- The memory of a name. A value that is bound directly has none. -/
def Storage.address? : Storage → Option Value
  | .stack slot => some slot
  | .global name => some (.global name)
  | .direct _ => none

structure Binding where
  storage : Storage
  source : SourceType
  type : MachineType
  isMutable : Bool
  used : Bool
  location : Option Location
deriving DecidableEq, Inhabited

/-- The names of one function and their bindings. -/
structure Scope where
  entries : List (String × Binding)
deriving DecidableEq, Inhabited

namespace Scope

def empty : Scope := ⟨[]⟩

def size (scope : Scope) : Nat := scope.entries.length

def find? (scope : Scope) (name : String) : Option Binding := scope.entries.lookup name

/-- Bind a name, in place of any earlier binding of it. -/
def declare (scope : Scope) (name : String) (binding : Binding) : Scope :=
  ⟨scope.entries.filter (·.1 != name) ++ [(name, binding)]⟩

/-- Mark the binding of a name as used. -/
def markUsed (scope : Scope) (name : String) : Scope :=
  ⟨scope.entries.map fun (n, b) => if n == name then (n, { b with used := true }) else (n, b)⟩

/-- The binding of a name, marked as used, and the scope that remembers the mark. -/
def read (scope : Scope) (name : String) : Option Binding × Scope :=
  let scope := scope.markUsed name
  (scope.find? name, scope)

/-- The bindings that were never read, except those whose names begin with an underscore. -/
def unused (scope : Scope) : List (String × Binding) :=
  scope.entries.filter fun (name, b) => !b.used && !name.startsWith "_"

end Scope

end SsaLowering
