/-!
# The output sink

Where printed bytes go. A sink may be bounded: it then takes as many bytes as still fit and fails
a write of any more.
-/

namespace TieredJvm

/-- Why a sink fails. -/
inductive SinkError where
  /-- Not all bytes of a write fit. -/
  | full
  /-- The sink could not be flushed. -/
  | flushFailed
  deriving DecidableEq

/-- The text of a failure. -/
def SinkError.message : SinkError → String
  | full => "sink full"
  | flushFailed => "flush failed"

/-- A sink and what was written to it. -/
structure Sink where
  /-- The bytes taken so far. -/
  written : Array UInt8 := #[]
  /-- The number of bytes that fit in all; none for a sink without a bound. -/
  capacity : Option Nat := none
  /-- Whether flushing fails. -/
  flushFails : Bool := false

namespace Sink

/-- The bytes of a write that the sink takes. -/
def accepted (s : Sink) (bytes : Array UInt8) : Array UInt8 :=
  match s.capacity with
  | none => bytes
  | some n => bytes.extract 0 (n - s.written.size)

/-- Takes the bytes of a write that fit. -/
def write (s : Sink) (bytes : Array UInt8) : Sink :=
  { s with written := s.written ++ s.accepted bytes }

/-- How a write ends: it fails unless all of its bytes fit. -/
def outcome (s : Sink) (bytes : Array UInt8) : Except SinkError Unit :=
  if (s.accepted bytes).size = bytes.size then .ok () else .error .full

/-- Makes writes one after another, up to the first that fails. -/
def writeAll (s : Sink) : List (Array UInt8) → Sink × Except SinkError Unit
  | [] => (s, .ok ())
  | bytes :: rest =>
    match s.outcome bytes with
    | .ok _ => (s.write bytes).writeAll rest
    | .error cause => (s.write bytes, .error cause)

/-- Flushes the sink. -/
def flush (s : Sink) : Except SinkError Unit :=
  if s.flushFails then .error .flushFailed else .ok ()

/-- A sink without a bound takes everything. -/
@[simp] theorem accepted_of_unbounded {s : Sink} (h : s.capacity = none) (bytes : Array UInt8) :
    s.accepted bytes = bytes := by
  simp [accepted, h]

/-- A bounded sink takes as many bytes as still fit. -/
theorem size_accepted {s : Sink} {n : Nat} (h : s.capacity = some n) (bytes : Array UInt8) :
    (s.accepted bytes).size = min (n - s.written.size) bytes.size := by
  simp [accepted, h]

/-- A write takes up all of its bytes and succeeds, or does not have the room for them and fails. -/
theorem outcome_cases (s : Sink) (bytes : Array UInt8) :
    (s.outcome bytes = .ok () ∧ s.accepted bytes = bytes) ∨
      s.outcome bytes = .error .full ∧
        ∃ n, s.capacity = some n ∧ n - s.written.size < bytes.size := by
  cases hcapacity : s.capacity with
  | none =>
    have hall := accepted_of_unbounded hcapacity bytes
    exact .inl ⟨by rw [outcome, hall, if_pos rfl], hall⟩
  | some n =>
    have hsize := size_accepted hcapacity bytes
    by_cases hfits : bytes.size ≤ n - s.written.size
    · refine .inl ⟨by rw [outcome, if_pos (by omega)], ?_⟩
      simp only [accepted, hcapacity, Array.extract_eq_self_of_le hfits]
    · exact .inr ⟨by rw [outcome, if_neg (by omega)], n, rfl, by omega⟩

/-- A sink takes bytes in two writes as it takes them in one: the second is made unless the first
fails. -/
theorem write_append (s : Sink) (first second : Array UInt8) :
    (s.write (first ++ second), s.outcome (first ++ second)) =
      match s.outcome first with
      | .ok _ => ((s.write first).write second, (s.write first).outcome second)
      | .error cause => (s.write first, .error cause) := by
  rcases s.outcome_cases first with ⟨hok, hfirst⟩ | ⟨hfull, n, hcapacity, hover⟩
  · -- What is left for the second write is what is left after the bytes of the first.
    have hboth : s.accepted (first ++ second) = first ++ (s.write first).accepted second := by
      cases hcapacity : s.capacity with
      | none =>
        rw [accepted_of_unbounded hcapacity, accepted_of_unbounded (s := s.write first) hcapacity]
      | some n =>
        have hsize := size_accepted hcapacity first
        have hwritten : (s.write first).written = s.written ++ first := by rw [write, hfirst]
        have hcapacity' : (s.write first).capacity = some n := hcapacity
        rw [hfirst] at hsize
        simp only [accepted, hcapacity, hcapacity', hwritten, Array.size_append,
          Array.extract_append, Nat.zero_sub, Nat.sub_sub]
        rw [Array.extract_eq_self_of_le (by omega)]
    rw [hok]
    refine Prod.ext ?_ ?_
    · simp only [write, hboth, hfirst, ← Array.append_assoc]
    · simp only [outcome, hboth, Array.size_append, Nat.add_left_cancel_iff]
  · have hboth : s.accepted (first ++ second) = s.accepted first := by
      have hnone : second.extract (0 - first.size) (n - s.written.size - first.size) = #[] := by
        rw [Array.extract_eq_empty_iff]
        omega
      simp only [accepted, hcapacity]
      rw [Array.extract_append, hnone, Array.append_empty]
    have hsize := size_accepted hcapacity first
    rw [hfull]
    refine Prod.ext ?_ ?_
    · simp only [write, hboth]
    · rw [outcome, if_neg]
      rw [hboth, Array.size_append]
      omega

/-- A write of no bytes changes nothing and succeeds. -/
theorem write_empty (s : Sink) : s.write #[] = s ∧ s.outcome #[] = .ok () := by
  have hnone : s.accepted #[] = #[] := by
    unfold accepted
    split
    · rfl
    · exact Array.extract_empty ..
  constructor
  · rw [write, hnone, Array.append_empty]
  · rw [outcome, hnone, if_pos rfl]

/-- Writes come to one write of all their bytes. -/
theorem writeAll_eq (s : Sink) (writes : List (Array UInt8)) :
    s.writeAll writes =
      (s.write (writes.foldr (· ++ ·) #[]), s.outcome (writes.foldr (· ++ ·) #[])) := by
  induction writes generalizing s with
  | nil =>
    obtain ⟨hwrite, houtcome⟩ := s.write_empty
    rw [writeAll, List.foldr_nil, hwrite, houtcome]
  | cons bytes rest ih =>
    rw [writeAll, List.foldr_cons, write_append, ih]

end Sink

end TieredJvm
