import TieredJvm.Native
import TieredJvm.Proofs.ClassFile.Readers
import TieredJvm.Proofs.Register.Lowering

/-!
# Machine code does what its register program does

The code of a register program can be read back on both targets, down to its last byte, and the
instructions that are read compute what the program evaluates to (`assembled_code_evaluates`). This
holds of every program with a return, also of those that no method is lowered to: a return of the
second register, or operations that come after a return.

For each target the proof has two parts. Reading inverts writing: what an instruction was encoded to
is decoded to the instruction, whatever comes after it, so that decoding stays in step over code of
any length. And running what was selected is evaluating: the argument registers, taken as a register
file, change with every operation as the register file of the program does.
-/

namespace TieredJvm

/-! ## x86-64 -/

namespace X64

/-- The mode bits of the register byte say that both operands are registers. -/
theorem modRm_mode (dst src : Reg) : modRm dst src &&& 0xc0 = 0xc0 := by
  cases dst <;> cases src <;> decide

/-- The low bits of the register byte name the destination. -/
theorem ofNumber_modRm (dst src : Reg) : Reg.ofNumber (modRm dst src) = dst := by
  cases dst <;> cases src <;> decide

/-- The bits above them name the source. -/
theorem ofNumber_modRm_shiftRight (dst src : Reg) :
    Reg.ofNumber (modRm dst src >>> 3) = src := by
  cases dst <;> cases src <;> decide

/-- An encoded instruction is decoded, and what comes after it is left. -/
theorem Instr.decode?_encode_append (i : Instr) (rest : List UInt8) :
    decode? (i.encode ++ rest) = some (i, rest) := by
  cases i with
  | add dst src => simp [encode, decode?, modRm_mode, ofNumber_modRm, ofNumber_modRm_shiftRight]
  | mov dst src => simp [encode, decode?, modRm_mode, ofNumber_modRm, ofNumber_modRm_shiftRight]
  | ret => rfl

/-- Decoding an instruction takes at least one byte. -/
theorem Instr.length_lt_of_decode? {bytes rest : List UInt8} {i : Instr}
    (h : decode? bytes = some (i, rest)) : rest.length < bytes.length := by
  unfold decode? at h
  split at h
  · split at h <;> cases h
    simp only [List.length_cons]
    omega
  · split at h <;> cases h
    simp only [List.length_cons]
    omega
  · cases h
    exact Nat.lt_succ_self _
  · cases h

/-- Reads bytes as instructions, one after the other; no byte may be left over. -/
def disassemble? (bytes : List UInt8) : Option (List Instr) :=
  if bytes = [] then some []
  else
    match h : Instr.decode? bytes with
    | none => none
    | some (i, rest) =>
      have := Instr.length_lt_of_decode? h
      (disassemble? rest).map (i :: ·)
termination_by bytes.length

/-- The code of an instruction is read as that instruction. -/
theorem disassemble?_encode_append (i : Instr) (rest : List UInt8) :
    disassemble? (i.encode ++ rest) = (disassemble? rest).map (i :: ·) := by
  have hne : i.encode ++ rest ≠ [] := by
    cases i <;> exact List.cons_ne_nil _ _
  rw [disassemble?, if_neg hne]
  split
  next h => cases h.symm.trans (Instr.decode?_encode_append i rest)
  next h =>
    cases h.symm.trans (Instr.decode?_encode_append i rest)
    rfl

/-- Code is read as the instructions that it was made of. -/
theorem disassemble?_flatMap_encode (code : List Instr) :
    disassemble? (code.flatMap Instr.encode) = some code := by
  induction code with
  | nil => rw [List.flatMap_nil, disassemble?, if_pos rfl]
  | cons i code ih => rw [List.flatMap_cons, disassemble?_encode_append, ih, Option.map_some]

/-- The argument registers, as a register file. -/
def arguments (r : Reg → Int32) : RegisterFile :=
  ⟨r .edi, r .esi⟩

theorem get_arguments (r : Reg → Int32) (x : Register) : (arguments r).get x = r (argument x) := by
  cases x <;> rfl

/-- A write to an argument register is one to the register file. -/
theorem arguments_write (r : Reg → Int32) (x : Register) (v : Int32) :
    arguments (fun y => if y = argument x then v else r y) = (arguments r).set x v := by
  cases x <;> rfl

/-- What is selected for a program computes what the program evaluates to. -/
theorem run_flatMap_select (program : List RegisterOp) (r : Reg → Int32) :
    Instr.run (program.flatMap select) r = RegisterOp.eval program (arguments r) := by
  induction program generalizing r with
  | nil => rfl
  | cons op ops ih =>
    cases op with
    | add dst src =>
      rw [RegisterOp.eval, get_arguments, get_arguments, ← arguments_write]
      exact ih _
    | ret src =>
      rw [RegisterOp.eval, get_arguments]
      rfl

end X64

/-! ## A64 -/

namespace A64

/-- Four bytes are read as the word that they were made of. -/
theorem words?_wordBytes_append (word : UInt32) (rest : List UInt8) :
    words? (wordBytes word ++ rest) = (words? rest).map (word :: ·) := by
  -- The same four bytes the other way round are how a class file stores the number.
  have hread := (Reader.u4_exact (Printer.u4 word ++ rest) word rest).2 ⟨trivial, rfl⟩
  have hword := (Prod.mk.inj (Except.ok.inj hread)).1
  have hreverse : ∀ a b c d : UInt32, a ||| b ||| c ||| d = d ||| c ||| b ||| a := by
    intro a b c d
    ac_rfl
  show (words? rest).map (_ :: ·) = _
  rw [hreverse, hword]

/-- Bytes are read as the words that they were made of. -/
theorem words?_flatMap_wordBytes (words : List UInt32) :
    words? (words.flatMap wordBytes) = some words := by
  induction words with
  | nil => rfl
  | cons word words ih => rw [List.flatMap_cons, words?_wordBytes_append, ih, Option.map_some]

/-- Reads bytes as words, and every word as an instruction. -/
def disassemble? (bytes : List UInt8) : Option (List Instr) :=
  (words? bytes).bind (·.mapM Instr.decode?)

/-- The instructions that are selected for an operation are decoded from their words. -/
theorem decode?_encode_of_mem_select (op : RegisterOp) :
    ∀ i ∈ select op, Instr.decode? i.encode = some i := by
  cases op with
  | add dst src => cases dst <;> cases src <;> decide
  | ret src => cases src <;> decide

/-- Words are decoded to the instructions that they encode, if each of them is. -/
theorem mapM_decode?_map_encode {code : List Instr}
    (h : ∀ i ∈ code, Instr.decode? i.encode = some i) :
    (code.map Instr.encode).mapM Instr.decode? = some code := by
  induction code with
  | nil => rfl
  | cons i code ih =>
    have hi := h i List.mem_cons_self
    have hcode := ih fun j hj => h j (List.mem_cons_of_mem _ hj)
    rw [List.map_cons, List.mapM_cons, hi, hcode]
    rfl

/-- The code of a program is read as the instructions that were selected for it. -/
theorem disassemble?_assemble (program : List RegisterOp) :
    disassemble? (assemble program) = some (program.flatMap select) := by
  have hwords : assemble program =
      ((program.flatMap select).map Instr.encode).flatMap wordBytes := (List.flatMap_map ..).symm
  rw [disassemble?, hwords, words?_flatMap_wordBytes]
  apply mapM_decode?_map_encode
  intro i hi
  obtain ⟨op, -, hop⟩ := List.mem_flatMap.1 hi
  exact decode?_encode_of_mem_select op i hop

/-- The argument registers, as a register file. -/
def arguments (w : UInt8 → Int32) : RegisterFile :=
  ⟨w 0, w 1⟩

theorem get_arguments (w : UInt8 → Int32) (x : Register) :
    (arguments w).get x = Instr.read w (argument x) := by
  cases x <;> rfl

/-- A write to an argument register is one to the register file. -/
theorem arguments_write (w : UInt8 → Int32) (x : Register) (v : Int32) :
    arguments (fun y => if y = argument x then v else w y) = (arguments w).set x v := by
  cases x <;> rfl

/-- What is selected for a program computes what the program evaluates to. -/
theorem run_flatMap_select (program : List RegisterOp) (w : UInt8 → Int32) :
    Instr.run (program.flatMap select) w = RegisterOp.eval program (arguments w) := by
  induction program generalizing w with
  | nil => rfl
  | cons op ops ih =>
    cases op with
    | add dst src =>
      rw [RegisterOp.eval, get_arguments, get_arguments, ← arguments_write]
      exact ih _
    | ret src =>
      rw [RegisterOp.eval, get_arguments]
      -- The first register needs no move, as the result belongs there.
      cases src with
      | a0 => rfl
      | a1 => rfl

end A64

/-! ## Both targets -/

/-- For every register program that has a return, the code for either target is read to its last
byte as instructions that, started with the arguments of the program in the argument registers,
return what the program evaluates to. -/
theorem assembled_code_evaluates {program : List RegisterOp} (h : ∃ src, .ret src ∈ program)
    (a b : Int32) :
    ∃ v, RegisterOp.eval program ⟨a, b⟩ = some v ∧
      (∃ code, X64.disassemble? (Target.x64.assemble program) = some code ∧
        ∀ r : X64.Reg → Int32, r .edi = a → r .esi = b → X64.Instr.run code r = some v) ∧
      (∃ code, A64.disassemble? (Target.a64.assemble program) = some code ∧
        ∀ w : UInt8 → Int32, w 0 = a → w 1 = b → A64.Instr.run code w = some v) := by
  obtain ⟨src, hsrc⟩ := h
  obtain ⟨v, hv⟩ := RegisterOp.exists_eval_of_ret_mem hsrc ⟨a, b⟩
  refine ⟨v, hv, ⟨_, X64.disassemble?_flatMap_encode _, ?_⟩, ⟨_, A64.disassemble?_assemble _, ?_⟩⟩
  · rintro r rfl rfl
    exact (X64.run_flatMap_select program r).trans hv
  · rintro w rfl rfl
    exact (A64.run_flatMap_select program w).trans hv

/-- A program that no method is lowered to: it returns the second register, and goes on. -/
def RegisterOp.twoReturns : List RegisterOp :=
  [.add .a1 .a0, .ret .a1, .add .a0 .a0, .ret .a0]

/-- On both targets the sum wraps around, and what comes after the return is not carried out. -/
theorem assembled_code_evaluates_twoReturns :
    (∃ src, .ret src ∈ RegisterOp.twoReturns) ∧
      (∃ code, X64.disassemble? (Target.x64.assemble RegisterOp.twoReturns) = some code ∧
        ∀ r : X64.Reg → Int32, r .edi = 2147483647 → r .esi = 1 →
          X64.Instr.run code r = some (-2147483648)) ∧
      (∃ code, A64.disassemble? (Target.a64.assemble RegisterOp.twoReturns) = some code ∧
        ∀ w : UInt8 → Int32, w 0 = 2147483647 → w 1 = 1 →
          A64.Instr.run code w = some (-2147483648)) := by
  have hret : ∃ src, .ret src ∈ RegisterOp.twoReturns := ⟨.a1, by decide⟩
  obtain ⟨v, hv, hx64, ha64⟩ := assembled_code_evaluates hret 2147483647 1
  have hvalue : v = -2147483648 := Option.some.inj (hv.symm.trans (by decide))
  subst hvalue
  exact ⟨hret, hx64, ha64⟩

example : Target.x64.assemble [.add .a0 .a1, .ret .a0] =
    [0x40, 0x01, 0xf7, 0x40, 0x89, 0xf8, 0xc3] := by
  decide

example : Target.a64.assemble [.add .a0 .a1, .ret .a0] =
    [0x00, 0x00, 0x01, 0x0b, 0xc0, 0x03, 0x5f, 0xd6] := by
  decide

end TieredJvm
