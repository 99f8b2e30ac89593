import TieredJvm.Config
import TieredJvm.Native
import TieredJvm.Table

/-!
# Promotion

What the machine remembers about a method from call to call: how often it was called, and what
became of compiling it. A method is compiled at most once, in the call whose count reaches the
threshold, and the outcome is kept.
-/

namespace TieredJvm

/-- What became of compiling a method. -/
inductive Slot where
  /-- The method was never looked at. -/
  | untried
  /-- The method cannot be compiled. -/
  | ineligible
  /-- The method is compiled. -/
  | native (entry : NativeEntry)

/-- What is remembered about a method. -/
structure Profile where
  /-- The number of calls, up to the largest that 32 bits hold. -/
  calls : Nat := 0
  /-- What became of compiling it. -/
  slot : Slot := .untried

namespace Profile

/-- The largest number of 32 bits, at which counting stops. -/
def maxCalls : Nat :=
  0xffffffff

/-- Counts a call. -/
def count (p : Profile) : Profile :=
  { p with calls := min maxCalls (p.calls + 1) }

end Profile

/-- Whether a method with this profile has been called often enough to be compiled. -/
def PromotionPolicy.isHot (policy : PromotionPolicy) (p : Profile) : Bool :=
  policy.threshold ≤ p.calls

/-- The profiles of the methods, by key. -/
abbrev Profiles := Table MethodKey Profile

/-- The profile of a method; a method never called has the initial one. -/
def Profiles.of (profiles : Profiles) (key : MethodKey) : Profile :=
  (profiles.get? key).getD {}

end TieredJvm
