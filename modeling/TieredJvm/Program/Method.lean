import TieredJvm.Signature

/-!
# Methods

A method of a program: what names it, what it takes and gives, its code and its frame sizes. None
of this changes while a program runs.
-/

namespace TieredJvm

/-- A method. -/
structure Method where
  /-- What names the method. -/
  key : MethodKey
  /-- What the method takes and gives. -/
  signature : Signature
  /-- The signature is the one that the descriptor spells. -/
  ofDescriptor_eq : Signature.ofDescriptor key.descriptor = .ok signature
  /-- The bytecode. -/
  code : Array UInt8
  /-- The declared bound on the operand stack, which the machine does not enforce. -/
  maxStack : Nat
  /-- The number of local variables. -/
  maxLocals : Nat

namespace Method

/-- A method from its parts, with its signature read from the descriptor. -/
def ofParts (key : MethodKey) (code : Array UInt8) (maxStack maxLocals : Nat) :
    Except ProgramError Method :=
  match h : Signature.ofDescriptor key.descriptor with
  | .ok signature => .ok ⟨key, signature, h, code, maxStack, maxLocals⟩
  | .error e => .error e

/-- The name of the method. -/
def name (m : Method) : String :=
  m.key.name

/-- The descriptor of the method. -/
def descriptor (m : Method) : String :=
  m.key.descriptor

end Method

end TieredJvm
