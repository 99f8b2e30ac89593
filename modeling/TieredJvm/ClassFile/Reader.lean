import TieredJvm.ClassFile.Error

/-!
# Readers

A reader takes a value from the start of some bytes and leaves the rest, or fails. Numbers are
stored with the high byte first. Every primitive fails with `truncated` if it runs out of bytes,
and before it does anything else.
-/

namespace TieredJvm

/-- Takes a value from the start of some bytes. -/
abbrev Reader (α : Type) := StateT (List UInt8) (Except LoadError) α

namespace Reader

/-- A byte. -/
def u1 : Reader UInt8 := fun
  | b :: rest => .ok (b, rest)
  | [] => .error .truncated

/-- A number of two bytes. -/
def u2 : Reader UInt16 := fun
  | a :: b :: rest => .ok ((a.toUInt16 <<< 8) ||| b.toUInt16, rest)
  | _ => .error .truncated

/-- A number of four bytes. -/
def u4 : Reader UInt32 := fun
  | a :: b :: c :: d :: rest =>
    .ok ((a.toUInt32 <<< 24) ||| (b.toUInt32 <<< 16) ||| (c.toUInt32 <<< 8) ||| d.toUInt32, rest)
  | _ => .error .truncated

/-- The next `n` bytes. -/
def block (n : Nat) : Reader (List UInt8) := fun input =>
  let taken := input.take n
  if taken.length = n then .ok (taken, input.drop n) else .error .truncated

/-- What `r` reads, `n` times over, after what was `read` before. -/
def timesFrom {α : Type} (r : Reader α) : (n : Nat) → (read : Array α) → Reader (List α)
  | 0, read => pure read.toList
  | n + 1, read => do
    let a ← r
    timesFrom r n (read.push a)

/-- What `r` reads, `n` times over. -/
def times {α : Type} (n : Nat) (r : Reader α) : Reader (List α) :=
  timesFrom r n #[]

/-- What `r` reads, `n` times over or until it fails, after what was `read` before. -/
def untilFailureFrom {α : Type} (r : Reader α) :
    (n : Nat) → (read : Array α) → List UInt8 → List α
  | 0, read, _ => read.toList
  | n + 1, read, input =>
    match r input with
    | .ok (a, rest) => untilFailureFrom r n (read.push a) rest
    | .error _ => read.toList

/-- What `r` reads, `n` times over or until it fails. -/
def untilFailure {α : Type} (n : Nat) (r : Reader α) (input : List UInt8) : List α :=
  untilFailureFrom r n #[] input

end Reader

end TieredJvm
