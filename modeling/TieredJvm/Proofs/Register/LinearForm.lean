import TieredJvm.Proofs.Register.Lowering

/-!
# Lowered methods are linear forms

A method that is lowered gives a sum of its two arguments, each taken a fixed number of times, and
these numbers can be read off its code (`linear_of_lower`). Code is read with linear forms in place
of operands (`Lowering.linearForm?`), up to its first return.

The scan mirrors this: every register holds a form, and the operands of the code are the forms of
the registers on the shadow stack (`Scan.Mirrors`). What the scan accepts keeps it so, because a
register that was not overwritten still holds its argument, and no operand waits in a register that
is overwritten (`Mirrors.load`, `Mirrors.add`). The first register only ever grows, and a result is
returned from there, so the first argument counts at least once. The value of a form is a sum modulo
`2 ^ 32`, as the additions of register programs are (`LinearForm.value_add`), so the program has the
value of the form that the code returns (`Scan.Mirrors.exists_form_of_run`).
-/

namespace TieredJvm

/-! ## Linear forms -/

/-- A sum of two arguments, each taken a number of times. -/
structure LinearForm where
  /-- How often the first argument is taken. -/
  first : Nat
  /-- How often the second argument is taken. -/
  second : Nat
  deriving DecidableEq

namespace LinearForm

/-- The form of one argument, which is the one that the register starts with. -/
def ofRegister : Register → LinearForm
  | .a0 => ⟨1, 0⟩
  | .a1 => ⟨0, 1⟩

/-- The sum of two forms. -/
def add (f g : LinearForm) : LinearForm :=
  ⟨f.first + g.first, f.second + g.second⟩

/-- The value of a form for two arguments, modulo `2 ^ 32`. -/
def value (f : LinearForm) (a b : Int32) : Int32 :=
  Int32.ofInt (f.first * a.toInt + f.second * b.toInt)

/-- The value may be computed modulo `2 ^ 32` throughout. -/
theorem value_eq (f : LinearForm) (a b : Int32) :
    f.value a b = Int32.ofInt f.first * a + Int32.ofInt f.second * b := by
  rw [value, Int32.ofInt_add, Int32.ofInt_mul, Int32.ofInt_mul, Int32.ofInt_toInt,
    Int32.ofInt_toInt]

/-- The value of a sum is the sum of the values. -/
theorem value_add (f g : LinearForm) (a b : Int32) :
    (f.add g).value a b = f.value a b + g.value a b := by
  have hsplit : (f.add g).first * a.toInt + (f.add g).second * b.toInt =
      (f.first * a.toInt + f.second * b.toInt) + (g.first * a.toInt + g.second * b.toInt) := by
    simp only [add, Int.natCast_add, Int.add_mul]
    omega
  rw [value, hsplit, Int32.ofInt_add]
  rfl

/-- The value is additive in the arguments. -/
theorem value_add_arguments (f : LinearForm) (a b a' b' : Int32) :
    f.value (a + a') (b + b') = f.value a b + f.value a' b' := by
  simp only [value_eq, Int32.mul_add]
  ac_rfl

/-- A register starts with the value of its form. -/
theorem value_ofRegister (x : Register) (a b : Int32) :
    (ofRegister x).value a b = (⟨a, b⟩ : RegisterFile).get x := by
  cases x <;> simp [value, ofRegister, RegisterFile.get]

/-- An argument that is not taken does not matter. -/
theorem value_of_second_eq_zero {f : LinearForm} (h : f.second = 0) (a b b' : Int32) :
    f.value a b = f.value a b' := by
  simp [value, h]

end LinearForm

namespace Lowering

/-- The two operands on top of a stack replaced by their sum, the left one below the right one. -/
def addTop? : List LinearForm → Option (List LinearForm)
  | right :: left :: stack => some (left.add right :: stack)
  | _ => none

/-- The form that code returns, with the forms of the operands on the stack; there is none if the
code does something else than to add up arguments before it returns. -/
def linearForm? (stack : List LinearForm) : List UInt8 → Option LinearForm
  | [] => none
  | byte :: rest =>
    match Opcode.ofByte? byte with
    | some .iload0 => linearForm? (.ofRegister .a0 :: stack) rest
    | some .iload1 => linearForm? (.ofRegister .a1 :: stack) rest
    | some .iadd => (addTop? stack).bind fun stack => linearForm? stack rest
    | some .ireturn => stack.head?
    | _ => none

variable {byte : UInt8} {stack : List LinearForm}

/-- A load pushes the form of its argument. -/
theorem linearForm?_load {x : Register} (h : Opcode.ofByte? byte = some x.loadOpcode)
    (rest : List UInt8) :
    linearForm? stack (byte :: rest) = linearForm? (.ofRegister x :: stack) rest := by
  cases x with
  | _ =>
    rw [linearForm?, h]
    rfl

/-- An addition leaves the sum of two forms. -/
theorem linearForm?_add {left right : LinearForm} (h : Opcode.ofByte? byte = some .iadd)
    (rest : List UInt8) :
    linearForm? (right :: left :: stack) (byte :: rest) =
      linearForm? (left.add right :: stack) rest := by
  rw [linearForm?, h]
  rfl

/-- A return gives the form on top. -/
theorem linearForm?_ret {top : LinearForm} (h : Opcode.ofByte? byte = some .ireturn)
    (rest : List UInt8) : linearForm? (top :: stack) (byte :: rest) = some top := by
  rw [linearForm?, h]
  rfl

namespace Scan

/-- A return that the scan lets pass finds its operand in the result register. -/
theorem operands_of_ret {pc : Nat} {s s' : Scan} (h : s.ret pc = .ok s') :
    ∃ rest, s.operands = .a0 :: rest ∧
      s' = { s with operands := rest, program := s.program.push (.ret .a0) } := by
  unfold ret at h
  split at h
  next src rest hoperands =>
    split at h
    next hsrc =>
      cases h
      rw [hsrc] at hoperands ⊢
      exact ⟨rest, hoperands, rfl⟩
    next => cases h
  next => cases h

/-- The scan in state `s` mirrors code with these operands: with a form in each register, the shadow
stack says where each operand is. -/
structure Mirrors (arity : Nat) (forms : Register → LinearForm) (s : Scan)
    (stack : List LinearForm) : Prop where
  /-- Every operand is the form of the register on the shadow stack. -/
  stack : stack = s.operands.map forms
  /-- Operands are in registers of arguments. -/
  bounded : ∀ x ∈ s.operands, x.index < arity
  /-- A register that was not overwritten holds its argument. -/
  intact : ∀ x, s.clobbered x = false → forms x = .ofRegister x
  /-- The first register has its argument in it. -/
  first : 1 ≤ (forms .a0).first
  /-- The second argument is nowhere to be found if there is none. -/
  second : arity ≤ 1 → (forms .a0).second = 0

variable {arity pc : Nat} {forms : Register → LinearForm} {s s' : Scan}

/-- A load pushes the form of its register, which is still that of its argument. -/
theorem Mirrors.load {x : Register} (h : Mirrors arity forms s stack)
    (hs : s.load arity pc x = .ok s') : Mirrors arity forms s' (.ofRegister x :: stack) := by
  obtain ⟨harity, hclobbered, rfl⟩ := load_eq_ok hs
  refine ⟨?_, ?_, h.intact, h.first, h.second⟩
  · rw [List.map_cons, h.intact x hclobbered, h.stack]
  · exact List.forall_mem_cons.2 ⟨harity, h.bounded⟩

/-- The forms in the registers after an addition. -/
def addForm (forms : Register → LinearForm) (dst src x : Register) : LinearForm :=
  if x = dst then (forms dst).add (forms src) else forms x

/-- An addition leaves the sum of the forms in the register of the left operand. -/
theorem Mirrors.add {src dst : Register} {rest : List Register} (h : Mirrors arity forms s stack)
    (hoperands : s.operands = src :: dst :: rest) (hdst : dst ∉ rest) :
    Mirrors arity (addForm forms dst src)
      { s.clobber dst with operands := dst :: rest, program := s.program.push (.add dst src) }
      ((forms dst).add (forms src) :: rest.map forms) := by
  have hbounded := h.bounded
  rw [hoperands, List.forall_mem_cons, List.forall_mem_cons] at hbounded
  obtain ⟨hsrc, hdst', hrest⟩ := hbounded
  refine ⟨?_, List.forall_mem_cons.2 ⟨hdst', hrest⟩, fun x hx => ?_, ?_, fun harity => ?_⟩
  · -- No operand below the sum is in the register that the sum overwrites.
    have hsame : rest.map (addForm forms dst src) = rest.map forms := by
      apply List.map_congr_left
      intro x hx
      exact if_neg fun heq : x = dst => hdst (heq ▸ hx)
    rw [List.map_cons, hsame, addForm, if_pos rfl]
  · obtain ⟨hne, hclobbered⟩ := clobbered_of_clobber hx
    rw [addForm, if_neg hne, h.intact x hclobbered]
  · have hfirst := h.first
    unfold addForm
    split
    next heq =>
      rw [← heq]
      exact Nat.le_add_right_of_le hfirst
    next => exact hfirst
  · -- With one argument there is only one register to add from.
    have hzero := h.second harity
    unfold addForm
    split
    next heq =>
      cases src with
      | a0 => simp [← heq, LinearForm.add, hzero]
      | a1 => exact absurd hsrc (Nat.not_lt.2 harity)
    next => exact hzero

/-- A return takes its form off the stack, which is that of the result register. -/
theorem Mirrors.ret {rest : List Register} (h : Mirrors arity forms s stack)
    (hoperands : s.operands = .a0 :: rest) (program : Array RegisterOp) :
    stack = forms .a0 :: rest.map forms ∧ 0 < arity ∧
      Mirrors arity forms { s with operands := rest, program } (rest.map forms) := by
  have hbounded := h.bounded
  rw [hoperands, List.forall_mem_cons] at hbounded
  refine ⟨?_, hbounded.1, rfl, hbounded.2, h.intact, h.first, h.second⟩
  rw [h.stack, hoperands, List.map_cons]

/-- The registers hold the values of the forms, also after an addition. -/
theorem get_addForm {r : RegisterFile} {a b : Int32}
    (hr : ∀ x, r.get x = (forms x).value a b) (dst src x : Register) :
    (r.set dst (r.get dst + r.get src)).get x = (addForm forms dst src x).value a b := by
  unfold addForm
  split
  next heq => rw [heq, RegisterFile.get_set_self, hr, hr, LinearForm.value_add]
  next hne => rw [RegisterFile.get_set_of_ne r _ hne, hr]

/-- Of code that a scan mirrors and that comes to a return, the operations that the scan adds have
the value of the form that the code returns. The first argument is taken at least once, and the
second only if there is one. -/
theorem Mirrors.exists_form_of_run {bytes : List UInt8} (h : Mirrors arity forms s stack)
    (hrun : Scan.run arity pc s bytes = .ok s') :
    ∃ ops, s'.program.toList = s.program.toList ++ ops ∧ ∀ src, RegisterOp.ret src ∈ ops →
      ∃ f, linearForm? stack bytes = some f ∧ 1 ≤ f.first ∧ 0 < arity ∧
        (arity ≤ 1 → f.second = 0) ∧
        ∀ a b r, (∀ x, r.get x = (forms x).value a b) →
          RegisterOp.eval ops r = some (f.value a b) := by
  induction bytes generalizing pc s forms stack with
  | nil =>
    cases hrun
    exact ⟨[], (List.append_nil _).symm, fun src hsrc => by cases hsrc⟩
  | cons byte bytes ih =>
    unfold Scan.run at hrun
    split at hrun
    · next s₁ hstep =>
      rcases Scan.step_cases hstep with ⟨x, hop, hload⟩ | ⟨hop, hadd⟩ | ⟨hop, hret⟩
      · obtain ⟨ops, hops, hform⟩ := ih (h.load hload) hrun
        rw [linearForm?_load hop]
        obtain ⟨-, -, rfl⟩ := load_eq_ok hload
        exact ⟨ops, hops, hform⟩
      · obtain ⟨src, dst, rest, hoperands, hdst, rfl⟩ := add_eq_ok hadd
        obtain ⟨ops, hops, hform⟩ := ih (h.add hoperands hdst) hrun
        rw [h.stack, hoperands, List.map_cons, List.map_cons, linearForm?_add hop]
        refine ⟨.add dst src :: ops, by rw [hops]; simp, fun src' hsrc' => ?_⟩
        obtain ⟨f, hf, hfirst, harity, hsecond, heval⟩ := hform src' (by simpa using hsrc')
        exact ⟨f, hf, hfirst, harity, hsecond,
          fun a b r hr => heval a b _ (get_addForm hr dst src)⟩
      · -- What the scan adds after a return does not matter.
        obtain ⟨rest, hoperands, rfl⟩ := operands_of_ret hret
        obtain ⟨hstack, harity, hrest⟩ := h.ret hoperands (s.program.push (.ret .a0))
        obtain ⟨ops, hops, -⟩ := ih hrest hrun
        rw [hstack, linearForm?_ret hop]
        refine ⟨.ret .a0 :: ops, by rw [hops]; simp, fun _ _ => ?_⟩
        exact ⟨_, rfl, h.first, harity, h.second, fun a b r hr => congrArg some (hr .a0)⟩
    · cases hrun

end Scan

end Lowering

/-- Of two arguments a method with one takes the first. -/
theorem RegisterFile.ofArguments_take {arity : Nat} (hpos : 0 < arity) (hle : arity ≤ 2)
    (a b : Int32) :
    ofArguments arity ([a, b].take arity) = ⟨a, if arity = 1 then 0 else b⟩ := by
  match arity with
  | 1 => rfl
  | 2 => rfl

namespace Method

open Lowering

/-- The register program of a method has the value of the form that the method's code returns. The
method has an argument, which is taken at least once, and takes a second only if it has one. -/
theorem exists_form_of_lower {m : Method} {program : List RegisterOp}
    (hlower : m.lower = .ok program) :
    ∃ f, linearForm? [] m.code.toList = some f ∧ 1 ≤ f.first ∧ 0 < m.signature.args.length ∧
      (m.signature.args.length = 1 → f.second = 0) ∧
      ∀ a b, RegisterOp.eval program (.ofArguments m.signature.args.length
        ([a, b].take m.signature.args.length)) = some (f.value a b) := by
  obtain ⟨heligible, s, src, hrun, rfl, hret⟩ := lower_eq_ok hlower
  have hlength : m.signature.args.length ≤ 2 := by
    simp only [eligible, Bool.and_eq_true, decide_eq_true_eq] at heligible
    exact heligible.1.2
  have hmirrors : Scan.Mirrors m.signature.args.length .ofRegister {} [] :=
    ⟨rfl, by simp, fun _ _ => rfl, Nat.le_refl 1, fun _ => rfl⟩
  obtain ⟨ops, hops, hform⟩ := hmirrors.exists_form_of_run hrun
  -- The scan starts with an empty program, so what it adds is all of it.
  rw [show s.program.toList = ops from hops] at hret ⊢
  obtain ⟨f, hf, hfirst, harity, hsecond, heval⟩ := hform src hret
  refine ⟨f, hf, hfirst, harity, fun hone => hsecond (Nat.le_of_eq hone), fun a b => ?_⟩
  rw [RegisterFile.ofArguments_take harity hlength,
    heval a _ _ fun x => (LinearForm.value_ofRegister x a _).symm]
  split
  next hone => rw [LinearForm.value_of_second_eq_zero (hsecond (Nat.le_of_eq hone)) a 0 b]
  next => rfl

/-- Lowered methods are linear forms. The code of a method that is lowered returns a form: `α` times
the first argument and `β` times the second, where `α` is not zero, and `β` is if the method has one
argument; it has one or two. Its register program has the value of that form modulo `2 ^ 32`, and so
does its interpretation, if there is a local variable for each argument: it hands the value to its
caller, if a frame may be opened for it at all. So the result is additive in the arguments. -/
theorem linear_of_lower (m : Method) (program : List RegisterOp)
    (hlower : m.lower = .ok program) :
    ∃ α β : Nat, linearForm? [] m.code.toList = some ⟨α, β⟩ ∧ 1 ≤ α ∧
      0 < m.signature.args.length ∧ (m.signature.args.length = 1 → β = 0) ∧
      (∀ a b, RegisterOp.eval program
          (.ofArguments m.signature.args.length ([a, b].take m.signature.args.length)) =
        some (Int32.ofInt (α * a.toInt + β * b.toInt))) ∧
      (m.signature.args.length ≤ m.maxLocals → ∀ p c s callers a b, ∃ n s',
        State.advance p c n
            (State.enter c s m ([a, b].take m.signature.args.length) callers) =
          if callers.length < c.maxCallDepth then
            State.deliver s' m (Int32.ofInt (α * a.toInt + β * b.toInt)) callers
          else State.unwind s' (.callDepthExceeded c.maxCallDepth) (callers.map Frame.method)) ∧
      ∀ a b a' b' v v',
        RegisterOp.eval program
            (.ofArguments m.signature.args.length ([a, b].take m.signature.args.length)) =
          some v →
        RegisterOp.eval program
            (.ofArguments m.signature.args.length ([a', b'].take m.signature.args.length)) =
          some v' →
        RegisterOp.eval program (.ofArguments m.signature.args.length
            ([a + a', b + b'].take m.signature.args.length)) =
          some (v + v') := by
  obtain ⟨⟨α, β⟩, hform, hfirst, harity, hsecond, heval⟩ := exists_form_of_lower hlower
  refine ⟨α, β, hform, hfirst, harity, hsecond, heval, fun hlocals p c s callers a b => ?_,
    fun a b a' b' v v' hv hv' => ?_⟩
  · split
    next hdepth =>
      have hargs : ([a, b].take m.signature.args.length).length ≤ m.maxLocals := by
        rw [List.length_take]
        exact Nat.le_trans (Nat.min_le_left ..) hlocals
      obtain ⟨v, n, t, hv, hn, -⟩ := advance_enter_of_lower p c s hlower hlocals hargs hdepth
      rw [heval] at hv
      cases hv
      exact ⟨n, _, hn⟩
    next hdepth => exact ⟨0, s, if_neg hdepth⟩
  · rw [heval] at hv hv' ⊢
    cases hv
    cases hv'
    exact congrArg some (LinearForm.value_add_arguments ⟨α, β⟩ a b a' b')

/-- `doubledSum` returns twice its first argument and its second: so much for any two arguments, and
in particular where the sum leaves 32 bits. -/
theorem linear_of_lower_doubledSum :
    linearForm? [] doubledSum.code.toList = some ⟨2, 1⟩ ∧
      (∀ a b, RegisterOp.eval [.add .a0 .a0, .add .a0 .a1, .ret .a0] ⟨a, b⟩ =
        some (Int32.ofInt (2 * a.toInt + 1 * b.toInt))) ∧
      ∃ n s', State.advance ⟨.empty, [doubledSum], by decide⟩ {} n
        (State.enter {} {} doubledSum [2147483647, 3] []) = .halted s' (.ok 1) := by
  have hlower : doubledSum.lower = .ok [.add .a0 .a0, .add .a0 .a1, .ret .a0] := rfl
  have hcode : linearForm? [] doubledSum.code.toList = some ⟨2, 1⟩ := rfl
  obtain ⟨α, β, hform, -, -, -, heval, hinterpreted, -⟩ := linear_of_lower doubledSum _ hlower
  rw [hcode] at hform
  cases hform
  refine ⟨hcode, heval, ?_⟩
  exact hinterpreted (by decide) _ {} {} [] 2147483647 3

end Method

end TieredJvm
