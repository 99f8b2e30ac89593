/-!
# Configuration

The two decisions left to whoever starts a run: how deep calls may nest, and when a method is
compiled.
-/

namespace TieredJvm

/-- When a method is compiled. -/
structure PromotionPolicy where
  /-- Whether methods are compiled at all. -/
  enabled : Bool := true
  /-- The number of calls at which a method is hot. -/
  threshold : Nat := 5
  deriving DecidableEq

/-- The settings of a run. -/
structure Config where
  /-- The largest number of interpreted frames at one time. -/
  maxCallDepth : Nat := 256
  /-- When a method is compiled. -/
  promotion : PromotionPolicy := {}
  deriving DecidableEq

/-- The settings under which nothing is ever compiled. -/
def Config.interpreterOnly : Config :=
  { promotion := { enabled := false } }

end TieredJvm
