import TieredJvm.ClassFile.Parser
import TieredJvm.Journal
import TieredJvm.Program.Basic

/-!
# From a class file to a program

What a run needs of a class file: its constant pool, and the methods that have code.
-/

namespace TieredJvm

namespace MethodInfo

/-- What names a method. -/
def key (m : MethodInfo) : MethodKey :=
  ⟨m.name.text, m.descriptor.text⟩

end MethodInfo

namespace ClassFile

/-- The methods that have code, in the order of the file. -/
def codedMethods (c : ClassFile) : List (MethodInfo × CodeBody) :=
  c.methods.filterMap fun m => m.code?.map (m, ·)

/-- The name of the class, if the file gives one. -/
def className? (c : ClassFile) : Option String :=
  (c.pool.className c.thisClass).toOption

/-- A method of the program, from its declaration and its code. -/
def methodOf (m : MethodInfo) (body : CodeBody) : Except ProgramError Method :=
  Method.ofParts m.key body.code.toArray body.maxStack.toNat body.maxLocals.toNat

/-- The program of a class file. A malformed descriptor anywhere comes before a repeated key. -/
def program (c : ClassFile) : Except ProgramError Program := do
  let methods ← c.codedMethods.mapM fun (m, body) => methodOf m body
  Program.ofMethods c.pool methods

/-- What reading some bytes as a class file tells: the methods without code, as far as methods
could be read, and then the whole, if it could be read. -/
def notices (input : List UInt8) : List Event :=
  let bodiless := (methodsRead input).filter (·.code?.isNone)
  bodiless.map (fun m => Event.bodiless m.key) ++
    match parse input with
    | .error _ => []
    | .ok c => [.parsed c.majorVersion c.minorVersion c.pool.size c.codedMethods.length]

end ClassFile

end TieredJvm
