import TieredJvm.Proofs.Promotion.Lifecycle

/-!
# What eligibility promises

A method is compiled if it can be lowered, and native code cannot fail. The two tiers do not check
the same things, though. The scan refuses a load of an argument that the descriptor does not have; a
frame refuses a load of a local variable that it does not have, whatever the descriptor says. Where
there are fewer local variables than arguments, the second can happen without the first.

`interpretation_of_eligible` says exactly how such a method is interpreted on all arguments that it
accepts: to the value of its native code, if it loads no such local variable before it returns
(`Method.strayLoad?`), and to the fault of the first such load otherwise, which its native code does
not raise. No other fault is possible. `promotion_hides_fault` is a method whose fault goes away
when it is compiled.
-/

namespace TieredJvm

/-- What an eligible method comes to, interpreted below the limit of depth on no more arguments than
it has local variables. If it has every local variable that it loads before it returns, its caller
is handed the value that its native code gives on the same arguments. If it has not, all frames are
closed by the fault of the first such load, which is one of an argument. The heap, the output, and
the counters and slots of all methods are then as they were. -/
theorem interpretation_of_eligible (p : Program) (c : Config) (s : Session) (m : Method)
    (program : List RegisterOp) (args : List Int32) (callers : List Frame)
    (hlower : m.lower = .ok program) (hargs : args.length ≤ m.maxLocals)
    (hdepth : callers.length < c.maxCallDepth) :
    ∃ entry n s', m.install .host = .ok entry ∧ Session.Untouched s s' ∧
      (m.strayLoad? = none →
        State.advance p c n (State.enter c s m args callers) =
          State.deliver s' m (entry.call args) callers) ∧
      ∀ slot, m.strayLoad? = some slot →
        m.maxLocals ≤ slot ∧ slot < m.signature.args.length ∧
          State.advance p c n (State.enter c s m args callers) =
            State.unwind s' (.localOutOfRange slot m.maxLocals)
              (m :: callers.map Frame.method) := by
  obtain ⟨entry, hinstall⟩ := Method.exists_install_of_lower hlower
  obtain ⟨v, n, t, hv, hn, huntouched⟩ := Method.advance_enter p c s hlower hargs hdepth
  -- The native code carries out the program that was evaluated.
  have hcall : entry.call args = v := by
    obtain ⟨hprogram, harity⟩ := Method.install_eq_ok hinstall
    rw [hlower] at hprogram
    cases hprogram
    rw [NativeEntry.call_eq, harity, hv]
    rfl
  cases hstray : m.strayLoad? with
  | none =>
    rw [hstray] at hn
    have hleft := huntouched.trans (Session.untouched_record t (.leaving m.name v))
    refine ⟨entry, n, _, hinstall, hleft, fun _ => ?_, nofun⟩
    rw [hn, hcall]
    rfl
  | some stray =>
    rw [hstray] at hn
    refine ⟨entry, n, t, hinstall, huntouched, nofun, ?_⟩
    rintro slot ⟨⟩
    obtain ⟨hle, hlt⟩ := Method.strayLoad?_of_lower hlower hstray
    exact ⟨hle, hlt, hn⟩

/-- A method that has one local variable for its two arguments, and returns before it loads the
second. -/
def Method.earlyReturn : Method where
  key := ⟨"earlyReturn", "(II)I"⟩
  signature := ⟨[.int, .int], some .int⟩
  ofDescriptor_eq := by cbv
  code := #[0x1a, 0xac, 0x1a, 0x1b, 0x60, 0xac]
  maxStack := 2
  maxLocals := 1

/-- `earlyReturn` never comes to the load that would fail. -/
theorem interpretation_of_eligible_earlyReturn :
    Method.earlyReturn.lower = .ok [.ret .a0, .add .a0 .a1, .ret .a0] ∧
      Method.earlyReturn.maxLocals < Method.earlyReturn.signature.args.length ∧
      ∃ entry n s', Method.earlyReturn.install .host = .ok entry ∧
        State.advance ⟨.empty, [Method.earlyReturn], by decide⟩ {} n
          (State.enter {} {} Method.earlyReturn [7] []) = .halted s' (.ok (entry.call [7])) := by
  obtain ⟨entry, n, s', hinstall, -, hvalue, -⟩ :=
    interpretation_of_eligible ⟨.empty, [Method.earlyReturn], by decide⟩ {} {} Method.earlyReturn
      [.ret .a0, .add .a0 .a1, .ret .a0] [7] [] rfl (by decide) (by decide)
  exact ⟨rfl, by decide, entry, n, s', hinstall, hvalue rfl⟩

/-- A method that adds its two arguments, and has one local variable for them. -/
def Method.crampedSum : Method where
  key := ⟨"crampedSum", "(II)I"⟩
  signature := ⟨[.int, .int], some .int⟩
  ofDescriptor_eq := by cbv
  code := #[0x1a, 0x1b, 0x60, 0xac]
  maxStack := 2
  maxLocals := 1

/-- `crampedSum` is eligible and accepts one argument, but its interpretation fails. A call of it
fails too until the method is compiled, and gives a value from then on. -/
theorem promotion_hides_fault :
    Method.crampedSum.lower = .ok [.add .a0 .a1, .ret .a0] ∧
      ([5] : List Int32).length ≤ Method.crampedSum.maxLocals ∧
      ∃ ends, Performs ⟨.empty, [Method.crampedSum], by decide⟩ ⟨256, ⟨true, 2⟩⟩ {}
          [.interpret Method.crampedSum.key [5], .invoke Method.crampedSum.key [5],
            .invoke Method.crampedSum.key [5]] ends ∧
        ends.map (·.2) =
          [.error (.localOutOfRange 1 1), .error (.localOutOfRange 1 1), .ok 5] :=
  ⟨rfl, by decide, _, .cons 4 rfl (.cons 4 rfl (.cons 4 rfl (.nil _))), rfl⟩

end TieredJvm
