import TieredJvm.Register.Lowering
import TieredJvm.Target.A64
import TieredJvm.Target.X64

/-!
# Native code

The second tier: a method is lowered to a register program, the program is assembled for a target,
and the code is installed. Code can be called only on the target that hosts the machine. What a
call of installed code computes is what its register program computes.
-/

namespace TieredJvm

/-- The targets for which code is generated. -/
inductive Target where
  | x64 | a64
  deriving DecidableEq

namespace Target

/-- The target on which the machine runs. -/
def host : Target :=
  x64

/-- The machine code of a register program. -/
def assemble : Target → List RegisterOp → List UInt8
  | x64 => X64.assemble
  | a64 => A64.assemble

end Target

/-- Why code is not installed. -/
inductive RegionError where
  /-- There is no code. -/
  | empty
  deriving DecidableEq

/-- The text of a refused installation. -/
def RegionError.message : RegionError → String
  | empty => "cannot install an empty code buffer"

/-- Code that is installed: at least one byte. -/
structure CodeRegion where
  /-- The bytes. -/
  code : List UInt8
  /-- There are some. -/
  code_ne_nil : code ≠ []

namespace CodeRegion

/-- Installs code. -/
def install (code : List UInt8) : Except RegionError CodeRegion :=
  if h : code = [] then .error .empty else .ok ⟨code, h⟩

/-- The number of bytes. -/
def size (r : CodeRegion) : Nat :=
  r.code.length

end CodeRegion

/-- Why a method is not compiled. -/
inductive CompileError where
  /-- The method is not lowered. -/
  | lowering (cause : LoweringError)
  /-- The code is for another target than the host. -/
  | unsupportedTarget
  /-- The code is not installed. -/
  | memory (cause : RegionError)
  deriving DecidableEq

/-- The text of a refusal. -/
def CompileError.message : CompileError → String
  | lowering cause => cause.message
  | unsupportedTarget => "no code generator for this target"
  | memory cause => cause.message

/-- A compiled method. -/
structure NativeEntry where
  /-- The number of arguments. -/
  arity : Nat
  /-- The register program that the code carries out. -/
  program : List RegisterOp
  /-- The installed code. -/
  region : CodeRegion

namespace NativeEntry

/-- An argument of a call: zero if it is missing or past the arity. -/
def argument (e : NativeEntry) (args : List Int32) (i : Nat) : Int32 :=
  if i < e.arity then args.getD i 0 else 0

/-- The result of a call. -/
def call (e : NativeEntry) (args : List Int32) : Int32 :=
  (RegisterOp.eval e.program ⟨e.argument args 0, e.argument args 1⟩).getD 0

end NativeEntry

namespace Method

/-- The machine code of a method. -/
def compile (m : Method) (target : Target) : Except CompileError (List UInt8) :=
  match m.lower with
  | .ok program => .ok (target.assemble program)
  | .error cause => .error (.lowering cause)

/-- Compiles a method for a target and installs the code. -/
def install (m : Method) (target : Target) : Except CompileError NativeEntry :=
  match m.lower with
  | .error cause => .error (.lowering cause)
  | .ok program =>
    if target = Target.host then
      match CodeRegion.install (target.assemble program) with
      | .ok region => .ok ⟨m.signature.args.length, program, region⟩
      | .error cause => .error (.memory cause)
    else .error .unsupportedTarget

end Method

end TieredJvm
