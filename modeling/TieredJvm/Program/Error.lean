/-!
# Errors of a program

What can be wrong with a table of methods before any of them runs.
-/

namespace TieredJvm

/-- What names a method: two methods of one program differ in name or descriptor. -/
structure MethodKey where
  /-- The name of the method. -/
  name : String
  /-- The descriptor, as text. -/
  descriptor : String
  deriving DecidableEq

/-- A key as messages show it: the name with the descriptor after it. -/
def MethodKey.text (key : MethodKey) : String :=
  key.name ++ key.descriptor

/-- Why a table of methods is no program, or has no place to start. -/
inductive ProgramError where
  /-- A descriptor is not of the form of one. -/
  | malformedDescriptor (text : String)
  /-- Two methods have the same key. -/
  | duplicateMethod (key : MethodKey)
  /-- There is no entry point. -/
  | missingMain
  deriving DecidableEq

/-- The text of a program error. -/
def ProgramError.message : ProgramError → String
  | malformedDescriptor text => s!"malformed method descriptor `{text}`"
  | duplicateMethod key => s!"method {key.text} is defined more than once"
  | missingMain => "method \"main\" was not found"

end TieredJvm
