import ClassCompiler.Program.Error

/-!
# Local variables

The local slots of the method being compiled. Slots are handed out in order and
never reused: a variable whose block has ended can no longer be named, but its
slot stays taken. Longs and doubles take two slots. An instance method's slot 0
holds the receiver.

A name that can still be named cannot be declared again, in the same block or
an inner one. The frame size must fit 16 bits, so the slot after the last one
may be at most 65535.
-/

namespace ClassCompiler

/-- A local variable: its name, type, first slot, the block depth it was
    declared at, and where. -/
structure LocalVar where
  name : String
  ty : Ty
  slot : Nat
  depth : Nat
  span : Span
  deriving DecidableEq, Repr, Inhabited

/-- The variables that can be named, the current block depth, and the next
    free slot. -/
structure Scope where
  vars : List LocalVar
  depth : Nat
  next : Nat
  deriving Repr, Inhabited

namespace Scope

/-- The largest frame size. -/
def slotLimit : Nat := 65535

/-- The scope of a static method. -/
def forStatic : Scope := ⟨[], 0, 0⟩

/-- The scope of an instance method: slot 0 holds the receiver. -/
def forInstance : Scope := ⟨[], 0, 1⟩

def enter (s : Scope) : Scope := { s with depth := s.depth + 1 }

/-- Leave a block: its variables can no longer be named. -/
def leave (s : Scope) : Scope :=
  { s with vars := s.vars.filter (·.depth < s.depth), depth := s.depth - 1 }

def lookup? (s : Scope) (name : String) : Option LocalVar := s.vars.find? (·.name == name)

/-- Take the next slots for a value of type `t` (at least one). -/
def allocate (s : Scope) (t : Ty) (span : Span) : Except CompilationError (Nat × Scope) :=
  let next := s.next + max t.slotSize 1
  if next > slotLimit then .error (.tooManyLocals span)
  else .ok (s.next, { s with next := next })

/-- Declare a variable in the current block and give it its slots. -/
def declare (s : Scope) (name : String) (t : Ty) (span : Span) :
    Except CompilationError (Nat × Scope) :=
  match s.lookup? name with
  | some v => .error (.variableRedeclaration name v.span span)
  | none => do
    let (slot, s) ← s.allocate t span
    return (slot, { s with vars := ⟨name, t, slot, s.depth, span⟩ :: s.vars })

/-- The frame size so far. -/
def maxLocals (s : Scope) : Nat := s.next

end Scope

end ClassCompiler
