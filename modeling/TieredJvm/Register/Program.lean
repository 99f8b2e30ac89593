/-!
# Register programs

What a method that only adds up its arguments comes down to: a sequence of additions between two
registers, and returns. The two registers hold the two arguments at the start, and the first of
them is where a result belongs. Every instruction set for which code is generated is asked to do
what `RegisterOp.eval` does.
-/

namespace TieredJvm

/-- The two registers: argument `n` arrives in register `n`. -/
inductive Register where
  | a0 | a1
  deriving DecidableEq

namespace Register

/-- The number of a register, which is the number of the argument that it starts with. -/
def index : Register → Nat
  | a0 => 0
  | a1 => 1

/-- The register in which a result belongs. -/
def result : Register :=
  a0

end Register

/-- The contents of the two registers. -/
structure RegisterFile where
  /-- What the first register holds. -/
  a0 : Int32
  /-- What the second register holds. -/
  a1 : Int32
  deriving DecidableEq

namespace RegisterFile

/-- What a register holds. -/
def get (r : RegisterFile) : Register → Int32
  | .a0 => r.a0
  | .a1 => r.a1

/-- Overwrites a register. -/
def set (r : RegisterFile) (register : Register) (value : Int32) : RegisterFile :=
  match register with
  | .a0 => { r with a0 := value }
  | .a1 => { r with a1 := value }

@[simp] theorem get_set_self (r : RegisterFile) (x : Register) (v : Int32) :
    (r.set x v).get x = v := by
  cases x <;> rfl

theorem get_set_of_ne (r : RegisterFile) {x y : Register} (v : Int32) (h : y ≠ x) :
    (r.set x v).get y = r.get y := by
  cases x <;> cases y <;> simp_all [get, set]

end RegisterFile

/-- An operation of a register program. -/
inductive RegisterOp where
  /-- Adds `src` to `dst`, modulo `2 ^ 32`. -/
  | add (dst src : Register)
  /-- Ends the program with the contents of `src`. -/
  | ret (src : Register)
  deriving DecidableEq

namespace RegisterOp

/-- The value with which a program ends, if it comes to a return. -/
def eval : List RegisterOp → RegisterFile → Option Int32
  | [], _ => none
  | add dst src :: rest, r => eval rest (r.set dst (r.get dst + r.get src))
  | ret src :: _, r => some (r.get src)

end RegisterOp

end TieredJvm
