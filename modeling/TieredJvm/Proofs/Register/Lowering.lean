import TieredJvm.Proofs.Machine.Run

/-!
# Lowering is sound

A method that is lowered is interpreted to the value that its register program evaluates to, and
its interpretation touches nothing but the journal (`advance_enter_of_lower`). This asks for a local
variable for each of its arguments. A method that has fewer may load one that it does not have, and
is then interpreted to the fault of the first such load (`advance_enter`).

The proof follows the scan byte by byte. `Scan.Tracks` relates the scan to the frame that executes
the same code: the operand stack is what the registers on the shadow stack hold, the locals still
are the arguments, and a register that was not overwritten still holds its argument. A load keeps
this because it refuses an overwritten register (`Tracks.load`), and an addition because it
refuses a register in which an operand further down waits (`Tracks.add`). The frame ends at the
first return, while the scan goes on; nothing that it adds after a return matters to the value of
the program. A load without a local variable ends the frame too. `State.step_of_tracks` is the step,
`State.advance_of_tracks` the run.
-/

namespace TieredJvm

/-! ## Register programs -/

/-- The registers at the start of the register program of a method with `arity` arguments: the
first two arguments, and zero in place of one that is missing or that the method does not take. -/
def RegisterFile.ofArguments (arity : Nat) (args : List Int32) : RegisterFile :=
  ⟨if 0 < arity then args.getD 0 0 else 0, if 1 < arity then args.getD 1 0 else 0⟩

/-- Register `n` starts with argument `n`. -/
theorem RegisterFile.get_ofArguments {arity : Nat} {x : Register} (h : x.index < arity)
    (args : List Int32) : (ofArguments arity args).get x = args.getD x.index 0 := by
  cases x with
  | a0 => exact if_pos h
  | a1 => exact if_pos h

/-- Native code starts its register program with the registers of its arguments. -/
theorem NativeEntry.call_eq (e : NativeEntry) (args : List Int32) :
    e.call args = (RegisterOp.eval e.program (.ofArguments e.arity args)).getD 0 := rfl

/-- A program that has a return comes to one. -/
theorem RegisterOp.exists_eval_of_ret_mem {program : List RegisterOp} {src : Register}
    (h : ret src ∈ program) (r : RegisterFile) : ∃ v, eval program r = some v := by
  induction program generalizing r with
  | nil => cases h
  | cons op ops ih =>
    cases op with
    -- An earlier return ends the program all the same.
    | ret src' => exact ⟨r.get src', rfl⟩
    | add dst src' =>
      have hmem : ret src ∈ ops := by simpa using h
      exact ih hmem _

/-! ## The steps of the scan -/

/-- The opcode that loads the argument of a register. -/
def Register.loadOpcode : Register → Opcode
  | a0 => .iload0
  | a1 => .iload1

/-- The opcode of a register loads the local variable of the register's number. -/
theorem Register.decode_loadOpcode (x : Register) (y z : UInt8) :
    Instruction.decode x.loadOpcode y z = .load x.index := by
  cases x <;> rfl

/-- The opcode of a register has no operand bytes. -/
theorem Register.width_loadOpcode (x : Register) : x.loadOpcode.width = 1 := by
  cases x <;> rfl

namespace Lowering.Scan

/-- Overwriting a register leaves the other one as it was. -/
theorem clobbered_of_clobber {s : Scan} {x y : Register} (h : (s.clobber x).clobbered y = false) :
    y ≠ x ∧ s.clobbered y = false := by
  cases x <;> cases y <;> simp_all [clobber, clobbered]

/-- The scan goes on past a byte in three ways only. -/
theorem step_cases {arity pc : Nat} {s s' : Scan} {byte : UInt8}
    (h : s.step arity pc byte = .ok s') :
    (∃ x : Register, Opcode.ofByte? byte = some x.loadOpcode ∧ s.load arity pc x = .ok s') ∨
      (Opcode.ofByte? byte = some .iadd ∧ s.add pc = .ok s') ∨
      (Opcode.ofByte? byte = some .ireturn ∧ s.ret pc = .ok s') := by
  unfold step at h
  split at h
  next hop => exact .inl ⟨.a0, hop, h⟩
  next hop => exact .inl ⟨.a1, hop, h⟩
  next hop => exact .inr (.inl ⟨hop, h⟩)
  next hop => exact .inr (.inr ⟨hop, h⟩)
  next => cases h

/-- A load that the scan lets pass is of an argument that the method takes and that was not
overwritten. -/
theorem load_eq_ok {arity pc : Nat} {s s' : Scan} {x : Register}
    (h : s.load arity pc x = .ok s') :
    x.index < arity ∧ s.clobbered x = false ∧ s' = { s with operands := x :: s.operands } := by
  unfold load at h
  split at h
  · cases h
  next harity =>
    split at h
    · cases h
    next hclobbered =>
      cases h
      exact ⟨by omega, by simpa using hclobbered, rfl⟩

/-- An addition that the scan lets pass finds two operands, and overwrites a register in which no
other operand waits. -/
theorem add_eq_ok {pc : Nat} {s s' : Scan} (h : s.add pc = .ok s') :
    ∃ src dst rest, s.operands = src :: dst :: rest ∧ dst ∉ rest ∧
      s' = { s.clobber dst with
        operands := dst :: rest
        program := s.program.push (.add dst src) } := by
  unfold add at h
  split at h
  next src dst rest hoperands =>
    split at h
    · cases h
    next hdst =>
      cases h
      exact ⟨src, dst, rest, hoperands, hdst, rfl⟩
  next => cases h

/-- A return that the scan lets pass finds an operand. -/
theorem ret_eq_ok {pc : Nat} {s s' : Scan} (h : s.ret pc = .ok s') :
    ∃ src rest, s.operands = src :: rest ∧
      s' = { s with operands := rest, program := s.program.push (.ret src) } := by
  unfold ret at h
  split at h
  next src rest hoperands =>
    split at h
    · cases h
      exact ⟨src, rest, hoperands, rfl⟩
    · cases h
  next => cases h

/-- A load that the scan lets pass for some number of arguments passes for every other one that
includes its argument. -/
theorem load_of_lt {arity arity' pc : Nat} {s s' : Scan} {x : Register}
    (h : s.load arity pc x = .ok s') (hlt : x.index < arity') : s.load arity' pc x = .ok s' := by
  obtain ⟨-, hclobbered, rfl⟩ := load_eq_ok h
  rw [load, if_neg (by omega), hclobbered]
  rfl

end Lowering.Scan

/-! ## Loads without a local variable -/

namespace Lowering

/-- The first local variable that lowered code loads although there are no more than `size`, if it
does so before it returns. -/
def strayLoad? (size : Nat) : List UInt8 → Option Nat
  | [] => none
  | byte :: rest =>
    match Opcode.ofByte? byte with
    | some .iload0 => if 0 < size then strayLoad? size rest else some 0
    | some .iload1 => if 1 < size then strayLoad? size rest else some 1
    | some .ireturn => none
    | _ => strayLoad? size rest

/-- A load is the one looked for unless it is of a local variable that there is. -/
theorem strayLoad?_load {byte : UInt8} {x : Register}
    (h : Opcode.ofByte? byte = some x.loadOpcode) (size : Nat) (rest : List UInt8) :
    strayLoad? size (byte :: rest) =
      if x.index < size then strayLoad? size rest else some x.index := by
  cases x <;> rw [strayLoad?, h] <;> rfl

/-- An addition loads nothing. -/
theorem strayLoad?_add {byte : UInt8} (h : Opcode.ofByte? byte = some .iadd) (size : Nat)
    (rest : List UInt8) : strayLoad? size (byte :: rest) = strayLoad? size rest := by
  rw [strayLoad?, h]

/-- Nothing is loaded after a return. -/
theorem strayLoad?_ret {byte : UInt8} (h : Opcode.ofByte? byte = some .ireturn) (size : Nat)
    (rest : List UInt8) : strayLoad? size (byte :: rest) = none := by
  rw [strayLoad?, h]

/-- What scanned code loads without having it is one of the arguments all the same. -/
theorem Scan.strayLoad?_bounds {arity size pc : Nat} {s s' : Scan} {bytes : List UInt8}
    (hrun : Scan.run arity pc s bytes = .ok s') {slot : Nat}
    (h : strayLoad? size bytes = some slot) : size ≤ slot ∧ slot < arity := by
  induction bytes generalizing pc s with
  | nil => cases h
  | cons byte bytes ih =>
    unfold Scan.run at hrun
    split at hrun
    · next s₁ hstep =>
      rcases step_cases hstep with ⟨x, hop, hload⟩ | ⟨hop, -⟩ | ⟨hop, -⟩
      · rw [strayLoad?_load hop] at h
        split at h
        · exact ih hrun h
        · cases h
          exact ⟨by omega, (load_eq_ok hload).1⟩
      · rw [strayLoad?_add hop] at h
        exact ih hrun h
      · rw [strayLoad?_ret hop] at h
        cases h
    · cases hrun

end Lowering

/-- The first local variable that a lowered method loads without having it. -/
def Method.strayLoad? (m : Method) : Option Nat :=
  Lowering.strayLoad? m.maxLocals m.code.toList

/-! ## The scan and the frame -/

namespace Lowering.Scan

/-- The scan in state `s` tracks the frame `f`: with `start` in the registers before the program of
the scan, and `r` after it, the shadow stack says where each operand of the frame is. -/
structure Tracks (arity : Nat) (start r : RegisterFile) (s : Scan) (f : Frame) : Prop where
  /-- Every operand is what the register on the shadow stack holds. -/
  stack : f.stack = s.operands.map r.get
  /-- The local variables of the arguments are the arguments. -/
  locals : ∀ x : Register, x.index < arity → f.locals[x.index]? = some (start.get x)
  /-- A register that was not overwritten holds its argument. -/
  intact : ∀ x, s.clobbered x = false → r.get x = start.get x

/-- A load pushes what its register holds. -/
theorem Tracks.load {arity pc : Nat} {start r : RegisterFile} {s s' : Scan} {f : Frame}
    {x : Register} (h : Tracks arity start r s f) (hs : s.load arity pc x = .ok s') :
    f.load x.index = .ok (r.get x) ∧
      ∀ next, Tracks arity start r s' { f.push (r.get x) with pc := next } := by
  obtain ⟨harity, hclobbered, rfl⟩ := load_eq_ok hs
  -- The register still holds the argument, and so does the local variable.
  have hvalue : f.locals[x.index]? = some (r.get x) := by
    rw [h.locals x harity, h.intact x hclobbered]
  refine ⟨by rw [Frame.load, hvalue], fun next => ⟨?_, h.locals, h.intact⟩⟩
  simp only [Frame.push, h.stack, List.map_cons]

/-- An addition finds its operands on the stack, and leaves their sum where the register program
leaves it. -/
theorem Tracks.add {arity : Nat} {start r : RegisterFile} {s : Scan} {f : Frame}
    {src dst : Register} {rest : List Register} (h : Tracks arity start r s f)
    (hoperands : s.operands = src :: dst :: rest) (hdst : dst ∉ rest) :
    f.stack = r.get src :: r.get dst :: rest.map r.get ∧
      ∀ next, Tracks arity start (r.set dst (r.get dst + r.get src))
        { s.clobber dst with operands := dst :: rest, program := s.program.push (.add dst src) }
        { f with stack := (r.get dst + r.get src) :: rest.map r.get, pc := next } := by
  refine ⟨by rw [h.stack, hoperands, List.map_cons, List.map_cons], fun next => ⟨?_, h.locals, ?_⟩⟩
  · -- No operand below the sum is in the register that the sum overwrites.
    have hrest : rest.map (r.set dst (r.get dst + r.get src)).get = rest.map r.get := by
      apply List.map_congr_left
      intro x hx
      exact RegisterFile.get_set_of_ne r _ fun e => hdst (e ▸ hx)
    rw [List.map_cons, RegisterFile.get_set_self, hrest]
  · -- A register that is not overwritten now is another one, and was not overwritten before.
    intro x hx
    obtain ⟨hne, hclobbered⟩ := clobbered_of_clobber hx
    rw [RegisterFile.get_set_of_ne r _ hne, h.intact x hclobbered]

end Lowering.Scan

/-! ## The interpretation of lowered code -/

/-- An opcode without operand bytes can be read wherever it stands. -/
theorem fetch_of_width_one {code : Array UInt8} {pc : Nat} {op : Opcode} (h : pc < code.size)
    (hop : Opcode.ofByte? code[pc] = some op) (hwidth : op.width = 1) :
    fetch code pc h = .ok ⟨op, code.getD (pc + 1) 0, code.getD (pc + 2) 0⟩ := by
  have hle : pc + op.width ≤ code.size := by omega
  simp only [fetch, hop, if_pos hle]

namespace State

open Lowering

/-- The step of a frame at an opcode without operand bytes. -/
theorem step_of_width_one (p : Program) (c : Config) (t : Session) (f : Frame)
    (callers : List Frame) {byte : UInt8} {op : Opcode}
    (hbyte : f.method.code[f.pc]? = some byte) (hop : Opcode.ofByte? byte = some op)
    (hwidth : op.width = 1) :
    ∃ x y, step p c (running t f callers) =
      apply c f.method (f.pc + 1) callers
        (execute p (t.record (.executing f.pc op x y)) f (Instruction.decode op x y)) := by
  obtain ⟨hpc, rfl⟩ := Array.getElem?_eq_some_iff.1 hbyte
  have hstep := step_of_fetch_ok p c t f callers hpc (fetch_of_width_one hpc hop hwidth)
  rw [hwidth] at hstep
  exact ⟨_, _, hstep⟩

/-- How a frame of a lowered method ends: it is left with a value, unless it loads a local variable
that it does not have. -/
def loweredEnd (s : Session) (m : Method) (value : Int32) (callers : List Frame) :
    Option Nat → State
  | none => leave s m value callers
  | some slot => unwind s (.localOutOfRange slot m.maxLocals) (m :: callers.map Frame.method)

/-- One byte of lowered code, for the scan and for the frame that it tracks as far as there are
local variables. The scan adds some operations to its program. Either the frame ends with the step,
by a load that finds no local variable, or by a return, and then the operations end the program with
the same value; or the frame goes on, and the scan tracks it with the registers as the operations
leave them. -/
theorem step_of_tracks (p : Program) (c : Config) (m : Method) (callers : List Frame)
    (start : RegisterFile) {arity pc : Nat} {s s' : Scan} {byte : UInt8}
    (hstep : s.step arity pc byte = .ok s') :
    ∃ ops, s'.program.toList = s.program.toList ++ ops ∧
      ∀ (t : Session) (f : Frame) (r : RegisterFile), f.method = m →
        f.locals.size = m.maxLocals → f.method.code[f.pc]? = some byte →
        Scan.Tracks (min arity m.maxLocals) start r s f → ∃ e,
          (∀ rest others v, RegisterOp.eval (ops ++ others) r = some v →
            step p c (running t f callers) =
              loweredEnd (t.record e) m v callers (strayLoad? m.maxLocals (byte :: rest))) ∨
          ∃ g r', (∀ others, RegisterOp.eval (ops ++ others) r = RegisterOp.eval others r') ∧
            (∀ rest, strayLoad? m.maxLocals (byte :: rest) = strayLoad? m.maxLocals rest) ∧
            step p c (running t f callers) = running (t.record e) g callers ∧
            g.method = m ∧ g.pc = f.pc + 1 ∧ g.locals.size = m.maxLocals ∧
            Scan.Tracks (min arity m.maxLocals) start r' s' g := by
  rcases Scan.step_cases hstep with ⟨x, hop, hload⟩ | ⟨hop, hadd⟩ | ⟨hop, hret⟩
  · -- A load adds no operation.
    refine ⟨[], ?_, ?_⟩
    · obtain ⟨-, -, rfl⟩ := Scan.load_eq_ok hload
      exact (List.append_nil _).symm
    rintro t f r rfl hsize hbyte h
    obtain ⟨y, z, hmachine⟩ := step_of_width_one p c t f callers hbyte hop x.width_loadOpcode
    rw [x.decode_loadOpcode] at hmachine
    by_cases hlocal : x.index < f.method.maxLocals
    · have harity := (Scan.load_eq_ok hload).1
      obtain ⟨hvalue, htracks⟩ := h.load (Scan.load_of_lt hload (by omega))
      refine ⟨.executing f.pc x.loadOpcode y z,
        .inr ⟨_, r, fun _ => rfl, fun rest => ?_, ?_, ?_, ?_, ?_, htracks (f.pc + 1)⟩⟩
      · rw [strayLoad?_load hop, if_pos hlocal]
      · rw [hmachine]
        simp only [execute, hvalue]
        rfl
      · rfl
      · rfl
      · exact hsize
    · refine ⟨.executing f.pc x.loadOpcode y z, .inl fun rest others v _ => ?_⟩
      have hnone : f.load x.index = .error (.localOutOfRange x.index f.method.maxLocals) := by
        rw [Frame.load, Array.getElem?_eq_none (by omega), hsize]
      rw [strayLoad?_load hop, if_neg hlocal, hmachine]
      simp only [execute, hnone]
      rfl
  · obtain ⟨src, dst, rest, hoperands, hdst, rfl⟩ := Scan.add_eq_ok hadd
    refine ⟨[.add dst src], Array.toList_push, ?_⟩
    rintro t f r rfl hsize hbyte h
    obtain ⟨hstack, htracks⟩ := h.add hoperands hdst
    obtain ⟨y, z, hmachine⟩ := step_of_width_one p c t f callers hbyte hop rfl
    refine ⟨.executing f.pc .iadd y z, .inr ⟨_, _, fun _ => rfl, fun rest => strayLoad?_add hop _ _,
      ?_, ?_, ?_, ?_, htracks (f.pc + 1)⟩⟩
    · rw [hmachine]
      simp only [execute, Instruction.decode, Frame.pop, hstack]
      rfl
    · rfl
    · rfl
    · exact hsize
  · -- The frame ends, though the scan does not.
    obtain ⟨src, rest, hoperands, rfl⟩ := Scan.ret_eq_ok hret
    refine ⟨[.ret src], Array.toList_push, ?_⟩
    rintro t f r rfl hsize hbyte h
    have hstack : f.stack = r.get src :: rest.map r.get := by
      rw [h.stack, hoperands, List.map_cons]
    obtain ⟨y, z, hmachine⟩ := step_of_width_one p c t f callers hbyte hop rfl
    refine ⟨.executing f.pc .ireturn y z, .inl fun rest others v hv => ?_⟩
    cases hv
    rw [strayLoad?_ret hop, hmachine]
    simp only [execute, Instruction.decode, Frame.pop, hstack]
    rfl

/-- The frame that the scan tracks from `pc` on ends with the value of the operations that the
scan adds from there on, if they come to a return, and if it has the local variables that it loads
until then. -/
theorem advance_of_tracks (p : Program) (c : Config) (m : Method) (callers : List Frame)
    (start : RegisterFile) {arity : Nat} {bytes : List UInt8} {pc : Nat} {s s' : Scan}
    (hcode : m.code.toList.drop pc = bytes) (hrun : Scan.run arity pc s bytes = .ok s') :
    ∃ ops, s'.program.toList = s.program.toList ++ ops ∧
      ∀ (t : Session) (f : Frame) (r : RegisterFile) (v : Int32), f.method = m → f.pc = pc →
        f.locals.size = m.maxLocals → Scan.Tracks (min arity m.maxLocals) start r s f →
        RegisterOp.eval ops r = some v →
        ∃ n t', advance p c n (running t f callers) =
            loweredEnd t' m v callers (strayLoad? m.maxLocals bytes) ∧
          Session.Untouched t t' := by
  -- The induction is on the bytes that are left, which are the code from `pc` on.
  induction bytes generalizing pc s with
  | nil =>
    -- Nothing is added at the end of the code, and nothing has no value.
    cases hrun
    exact ⟨[], (List.append_nil _).symm, fun _ _ _ _ _ _ _ _ heval => by cases heval⟩
  | cons byte bytes ih =>
    have hbyte : m.code[pc]? = some byte := by
      rw [← Array.getElem?_toList, ← List.head?_drop, hcode, List.head?_cons]
    have hnext : m.code.toList.drop (pc + 1) = bytes := by
      rw [← List.drop_drop, hcode, List.drop_one, List.tail_cons]
    unfold Scan.run at hrun
    split at hrun
    · next s₁ hstep =>
      obtain ⟨added, hadded, hfirst⟩ := step_of_tracks p c m callers start hstep
      obtain ⟨ops, hops, hothers⟩ := ih hnext hrun
      refine ⟨added ++ ops, by rw [hops, hadded, List.append_assoc], ?_⟩
      rintro t f r v hmethod rfl hsize htracks heval
      obtain ⟨e, hend | ⟨g, r', hr', hstray, hmachine, hmethod', hpc, hsize', htracks'⟩⟩ :=
        hfirst t f r hmethod hsize (hmethod ▸ hbyte) htracks
      · -- The frame ends here, whatever the scan adds for the rest of the code.
        refine ⟨1, t.record e, ?_, Session.untouched_record t e⟩
        rw [advance_succ, hend bytes ops v heval]
        rfl
      · rw [hr'] at heval
        obtain ⟨n, t', hn, huntouched⟩ :=
          hothers (t.record e) g r' v hmethod' hpc hsize' htracks' heval
        refine ⟨n + 1, t', ?_, (Session.untouched_record t e).trans huntouched⟩
        rw [advance_succ, hmachine, hn, hstray]
    · cases hrun

/-- A frame is opened if there may be one more and its arguments fit. -/
theorem enter_of_lt {c : Config} {m : Method} {args : List Int32} {callers : List Frame}
    (hdepth : callers.length < c.maxCallDepth) (hargs : args.length ≤ m.maxLocals) (t : Session) :
    enter c t m args callers =
      running (t.record (.entering m.key (callers.length + 1)))
        ⟨m, 0, [], Frame.initialLocals m.maxLocals args⟩ callers := by
  simp only [enter, if_pos hdepth, Frame.initial, Frame.checkArity, if_pos hargs]

end State

/-- A local variable starts as its argument, or as zero if there is none. -/
theorem Frame.getElem?_initialLocals {maxLocals i : Nat} {args : List Int32}
    (hargs : args.length ≤ maxLocals) (hi : i < maxLocals) :
    (initialLocals maxLocals args)[i]? = some (args.getD i 0) := by
  rw [initialLocals, List.getElem?_toArray]
  by_cases h : i < args.length
  · rw [List.getElem?_append_left h, List.getD_eq_getElem?_getD, List.getElem?_eq_getElem h]
    rfl
  · -- Past the arguments, the local variables are filled up with zeros.
    have hreplicate : i - args.length < maxLocals - args.length := by omega
    rw [List.getElem?_append_right (by omega), List.getElem?_replicate, if_pos hreplicate,
      List.getD_eq_getElem?_getD, List.getElem?_eq_none (by omega)]
    rfl

namespace Method

open Lowering

/-- A method that is lowered takes and gives what it may, its code is scanned to the end, and its
program has a return. -/
theorem lower_eq_ok {m : Method} {program : List RegisterOp} (h : m.lower = .ok program) :
    eligible m.signature = true ∧
      ∃ s src, Scan.run m.signature.args.length 0 {} m.code.toList = .ok s ∧
        program = s.program.toList ∧ RegisterOp.ret src ∈ program := by
  unfold lower at h
  split at h
  · next heligible =>
    refine ⟨heligible, ?_⟩
    split at h
    · cases h
    · next s hrun =>
      -- The last operation of the program must be a return.
      split at h
      · cases h
      · next src hlast =>
        cases h
        exact ⟨s, src, hrun, rfl, Array.mem_toList_iff.2 (Array.mem_of_back? hlast)⟩
      · cases h
  · cases h

/-- A lowered method that has a local variable for each of its arguments loads none that it does not
have: what it can lack is the local variable of an argument. -/
theorem strayLoad?_of_lower {m : Method} {program : List RegisterOp}
    (hlower : m.lower = .ok program) {slot : Nat} (h : m.strayLoad? = some slot) :
    m.maxLocals ≤ slot ∧ slot < m.signature.args.length := by
  obtain ⟨-, s, src, hrun, -, -⟩ := lower_eq_ok hlower
  exact Scan.strayLoad?_bounds hrun h

/-- A method that is lowered, entered with arguments that fit, is left with the value of its
register program, or closed by the first load of a local variable that it does not have. Nothing but
the journal is touched. -/
theorem advance_enter (p : Program) (c : Config) (t : Session) {m : Method}
    {program : List RegisterOp} {args : List Int32} {callers : List Frame}
    (hlower : m.lower = .ok program) (hargs : args.length ≤ m.maxLocals)
    (hdepth : callers.length < c.maxCallDepth) :
    ∃ v n t', RegisterOp.eval program (.ofArguments m.signature.args.length args) = some v ∧
      State.advance p c n (State.enter c t m args callers) =
        State.loweredEnd t' m v callers m.strayLoad? ∧
      Session.Untouched t t' := by
  obtain ⟨-, s, src, hrun, rfl, hret⟩ := lower_eq_ok hlower
  obtain ⟨v, hv⟩ := RegisterOp.exists_eval_of_ret_mem hret
    (.ofArguments m.signature.args.length args)
  obtain ⟨ops, hops, hsimulated⟩ := State.advance_of_tracks p c m callers
    (.ofArguments m.signature.args.length args) List.drop_zero hrun
  -- The scan starts with an empty program, so what it adds is all of it.
  rw [show s.program.toList = ops from hops] at hv ⊢
  have htracks : Scan.Tracks (min m.signature.args.length m.maxLocals)
      (.ofArguments m.signature.args.length args) (.ofArguments m.signature.args.length args) {}
      ⟨m, 0, [], Frame.initialLocals m.maxLocals args⟩ := by
    refine ⟨rfl, fun x hx => ?_, fun x _ => rfl⟩
    rw [RegisterFile.get_ofArguments (by omega)]
    exact Frame.getElem?_initialLocals hargs (by omega)
  obtain ⟨n, t', hn, huntouched⟩ := hsimulated (t.record (.entering m.key (callers.length + 1)))
    _ _ v rfl rfl (Frame.size_initialLocals hargs) htracks hv
  refine ⟨v, n, t', hv, ?_, (Session.untouched_record t _).trans huntouched⟩
  rw [State.enter_of_lt hdepth hargs, hn]
  rfl

/-- A method that is lowered, entered with arguments that fit where its own arguments fit too, is
left with the value of its register program, and nothing but the journal is touched. -/
theorem advance_enter_of_lower (p : Program) (c : Config) (t : Session) {m : Method}
    {program : List RegisterOp} {args : List Int32} {callers : List Frame}
    (hlower : m.lower = .ok program) (harity : m.signature.args.length ≤ m.maxLocals)
    (hargs : args.length ≤ m.maxLocals) (hdepth : callers.length < c.maxCallDepth) :
    ∃ v n t', RegisterOp.eval program (.ofArguments m.signature.args.length args) = some v ∧
      State.advance p c n (State.enter c t m args callers) = State.leave t' m v callers ∧
      Session.Untouched t t' := by
  obtain ⟨v, n, t', hv, hn, huntouched⟩ := advance_enter p c t hlower hargs hdepth
  have hstray : m.strayLoad? = none := by
    cases hslot : m.strayLoad? with
    | none => rfl
    | some slot =>
      have hbounds := strayLoad?_of_lower hlower hslot
      omega
  rw [hstray] at hn
  exact ⟨v, n, t', hv, hn, huntouched⟩

/-- Lowering is sound. A method that is lowered, interpreted on at least as many arguments as its
descriptor has and at most as many as it has local variables, below the limit of depth, comes to
hand the value of its register program to its caller. The heap, the output, and the counters and
slots of all methods are then as they were. -/
theorem interpretation_of_lower (p : Program) (c : Config) (s : Session) (m : Method)
    (program : List RegisterOp) (args : List Int32) (callers : List Frame)
    (hlower : m.lower = .ok program) (harity : m.signature.args.length ≤ args.length)
    (hargs : args.length ≤ m.maxLocals) (hdepth : callers.length < c.maxCallDepth) :
    ∃ v n s', RegisterOp.eval program (.ofArguments m.signature.args.length args) = some v ∧
      State.advance p c n (State.enter c s m args callers) = State.deliver s' m v callers ∧
      s'.heap = s.heap ∧ s'.sink = s.sink ∧ s'.profiles = s.profiles := by
  obtain ⟨v, n, t, hv, hn, huntouched⟩ :=
    advance_enter_of_lower p c s hlower (Nat.le_trans harity hargs) hargs hdepth
  have h := huntouched.trans (Session.untouched_record t (.leaving m.name v))
  exact ⟨v, n, _, hv, hn, h.heap, h.sink, h.profiles⟩

/-- A method that gives twice its first argument plus its second. -/
def doubledSum : Method where
  key := ⟨"doubledSum", "(II)I"⟩
  signature := ⟨[.int, .int], some .int⟩
  ofDescriptor_eq := by cbv
  code := #[0x1a, 0x1a, 0x60, 0x1b, 0x60, 0xac]
  maxStack := 2
  maxLocals := 3

/-- `doubledSum` on three arguments, of which it takes two, called from outside. -/
theorem interpretation_of_lower_doubledSum :
    doubledSum.lower = .ok [.add .a0 .a0, .add .a0 .a1, .ret .a0] ∧
      RegisterFile.ofArguments doubledSum.signature.args.length [3, 4, 5] = ⟨3, 4⟩ ∧
      ∃ v n s', RegisterOp.eval [.add .a0 .a0, .add .a0 .a1, .ret .a0] ⟨3, 4⟩ = some v ∧
        State.advance ⟨.empty, [doubledSum], by decide⟩ {} n
          (State.enter {} {} doubledSum [3, 4, 5] []) = .halted s' (.ok v) ∧
        s'.heap = {} ∧ s'.sink = {} ∧ s'.profiles = {} :=
  ⟨rfl, rfl, interpretation_of_lower ⟨.empty, [doubledSum], by decide⟩ {} {} doubledSum _
    [3, 4, 5] [] rfl (by decide) (by decide) (by decide)⟩

end Method

end TieredJvm
