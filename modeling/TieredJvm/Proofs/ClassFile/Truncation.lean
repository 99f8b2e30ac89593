import TieredJvm.Proofs.ClassFile.Grammar

/-!
# Truncated class files

What reading makes of some bytes, it also makes of these bytes with more after them, unless it ran
out of bytes (`Reader.Stable`). The primitives look at nothing but the bytes that they take, and ask
for all of these at once, so they are stable; and readers in sequence are stable if their parts are
(`Reader.Stable.bind`), because the second starts where the first stops. So the whole reader of
class files is stable, part by part in the order of the file. The bytes that are left are all that a
reader has, so it cannot stand past their end.

No part of the reader stops behind the end of the bytes (`ClassFile.Parser.Part.exists_position`).
The point at which a class file is complete follows from this alone (`Reader.Stable.take`): before
it, a success or an error other than running out of bytes would still be there when the missing
bytes are added, where it is not.
-/

namespace TieredJvm

namespace Reader

variable {α β : Type}

/-! ## Stable readers -/

/-- More bytes after the input change nothing but the rest, unless the reader runs out of bytes. -/
structure Stable (r : Reader α) : Prop where
  /-- What is left is the end of the input, and more bytes are left with it. -/
  ok : ∀ {input a rest}, r input = .ok (a, rest) →
    (∃ taken, input = taken ++ rest) ∧ ∀ more, r (input ++ more) = .ok (a, rest ++ more)
  /-- An error in the bytes that are there stays. -/
  error : ∀ {input e}, r input = .error e → e ≠ .truncated →
    ∀ more, r (input ++ more) = .error e

namespace Stable

/-- Taking nothing is stable. -/
theorem pure (a : α) : Stable (pure a : Reader α) where
  ok h := by
    obtain ⟨rfl, rfl⟩ := pure_eq_ok.1 h
    exact ⟨⟨[], rfl⟩, fun _ => rfl⟩
  error h := by cases h

/-- Failing without looking at the bytes is stable. -/
theorem throw (e : LoadError) : Stable (throw e : Reader α) where
  ok h := by cases h
  error h _ _ := h

/-- Readers in sequence are stable if each of them is. -/
theorem bind {r : Reader α} {k : α → Reader β} (hr : r.Stable) (hk : ∀ a, (k a).Stable) :
    (r >>= k).Stable := by
  have hok {input a mid} (h : r input = .ok (a, mid)) : (r >>= k) input = k a mid := by
    show (r input >>= fun (a, mid) => k a mid) = k a mid
    rw [h]
    rfl
  have herror {input e} (h : r input = .error e) : (r >>= k) input = .error e := by
    show (r input >>= fun (a, mid) => k a mid) = .error e
    rw [h]
    rfl
  constructor
  · intro input b rest h
    obtain ⟨a, mid, ha, hb⟩ := bind_eq_ok.1 h
    obtain ⟨⟨front, rfl⟩, hmore⟩ := hr.ok ha
    obtain ⟨⟨back, rfl⟩, hmore'⟩ := (hk a).ok hb
    refine ⟨⟨front ++ back, (List.append_assoc ..).symm⟩, fun more => ?_⟩
    rw [hok (hmore more), hmore' more]
  · intro input e h hne more
    cases hfirst : r input with
    | error e' =>
      rw [herror hfirst] at h
      cases h
      exact herror (hr.error hfirst hne more)
    | ok read =>
      -- The second reader fails, on what the first one leaves.
      rw [hok hfirst] at h
      rw [hok ((hr.ok hfirst).2 more)]
      exact (hk _).error h hne more

/-- A reader that is complete on some bytes runs out of bytes on fewer than it takes. -/
theorem take {r : Reader α} (hr : r.Stable) {input rest : List UInt8} {a : α}
    (h : r input = .ok (a, rest)) {k : Nat} (hk : k < input.length - rest.length) :
    r (input.take k) = .error .truncated := by
  have hinput : input.take k ++ input.drop k = input := List.take_append_drop k input
  cases hcut : r (input.take k) with
  | ok read =>
    -- With the missing bytes added, all of them would be left.
    have hwhole := (hr.ok hcut).2 (input.drop k)
    rw [hinput, h] at hwhole
    have hrest : rest = read.2 ++ input.drop k := (Prod.mk.inj (Except.ok.inj hwhole)).2
    have hlength := congrArg List.length hrest
    rw [List.length_append, List.length_drop] at hlength
    omega
  | error e =>
    by_cases he : e = .truncated
    · rw [he]
    · have hwhole := hr.error hcut he (input.drop k)
      rw [hinput, h] at hwhole
      cases hwhole

end Stable

/-! ## Primitives and lists -/

/-- A byte. -/
theorem u1_stable : u1.Stable where
  ok {input _ _} h := by
    match input, h with
    | b :: input, h =>
      cases h
      exact ⟨⟨[_], rfl⟩, fun _ => rfl⟩
  error {input e} h hne := by
    match input, h with
    | [], h =>
      cases h
      exact absurd rfl hne

/-- A number of two bytes. -/
theorem u2_stable : u2.Stable where
  ok {input _ _} h := by
    match input, h with
    | a :: b :: input, h =>
      cases h
      exact ⟨⟨[a, b], rfl⟩, fun _ => rfl⟩
  error {input e} h hne := by
    match input, h with
    | [], h | [_], h =>
      cases h
      exact absurd rfl hne

/-- A number of four bytes. -/
theorem u4_stable : u4.Stable where
  ok {input _ _} h := by
    match input, h with
    | a :: b :: c :: d :: input, h =>
      cases h
      exact ⟨⟨[a, b, c, d], rfl⟩, fun _ => rfl⟩
  error {input e} h hne := by
    match input, h with
    | [], h | [_], h | [_, _], h | [_, _, _], h =>
      cases h
      exact absurd rfl hne

/-- A block of a given length. -/
theorem block_stable (n : Nat) : (block n).Stable where
  ok {input bytes rest} h := by
    obtain ⟨hlength, rfl⟩ := (block_exact n _ _ _).1 h
    refine ⟨⟨bytes, rfl⟩, fun more => (block_exact n _ _ _).2 ⟨hlength, ?_⟩⟩
    exact List.append_assoc ..
  error {input e} h hne := by
    simp only [block] at h
    split at h
    · cases h
    · cases h
      exact absurd rfl hne

/-- What is read over and over is stable if it is stable once. -/
theorem Stable.timesFrom {r : Reader α} (hr : r.Stable) (n : Nat) (read : Array α) :
    (Reader.timesFrom r n read).Stable := by
  induction n generalizing read with
  | zero => exact .pure _
  | succ n ih => exact hr.bind fun a => ih (read.push a)

/-- So is what is read a number of times. -/
theorem Stable.times {r : Reader α} (hr : r.Stable) (n : Nat) : (Reader.times n r).Stable :=
  hr.timesFrom n #[]

end Reader

/-! ## The parts of a class file -/

namespace ClassFile.Parser

open Reader

/-- The readers of which that of class files is made. -/
inductive Part : {α : Type} → Reader α → Prop where
  | u1 : Part u1
  | u2 : Part u2
  | u4 : Part u4
  | block (n : Nat) : Part (block n)
  | times {α : Type} {r : Reader α} (part : Part r) (n : Nat) : Part (times n r)
  | textItem (index : Nat) : Part (textItem index)
  | poolItem (index : Nat) : Part (poolItem index)
  | poolItems (count : UInt16) (rounds : Nat) (index : UInt16) (pool : ConstantPool)
    (read : Array PoolItem) : Part (poolItems count rounds index pool read)
  | constantPool (count : UInt16) : Part (constantPool count)
  | rawAttribute : Part rawAttribute
  | attributeList : Part attributeList
  | field : Part field
  | exceptionEntry : Part exceptionEntry
  | codeBody : Part codeBody
  | nameAt (pool : ConstantPool) (index : UInt16) : Part (nameAt pool index)
  | methodAttribute (pool : ConstantPool) : Part (methodAttribute pool)
  | method (pool : ConstantPool) : Part (method pool)
  | checkMagic : Part checkMagic
  | header : Part header
  | classFile : Part classFile

/-- A text that is not UTF-8 is refused when all of it is there. -/
theorem textItem_stable (index : Nat) : (textItem index).Stable := by
  refine u2_stable.bind fun length => (block_stable _).bind fun raw => ?_
  split
  · exact .pure _
  · exact .throw _

/-- A constant, whatever its tag. -/
theorem poolItem_stable (index : Nat) : (poolItem index).Stable := by
  have hword (make : UInt16 → PoolItem) : (do return make (← u2) : Reader PoolItem).Stable :=
    u2_stable.bind fun _ => .pure _
  have hpair (make : UInt16 → UInt16 → PoolItem) :
      (do return make (← u2) (← u2) : Reader PoolItem).Stable :=
    u2_stable.bind fun _ => u2_stable.bind fun _ => .pure _
  have hblock (size : Nat) (make : List UInt8 → PoolItem) :
      (do return make (← block size) : Reader PoolItem).Stable :=
    (block_stable size).bind fun _ => .pure _
  refine u1_stable.bind fun tag => ?_
  -- One case for each tag, in the order of the reader.
  split
  · exact textItem_stable index
  · exact u4_stable.bind fun _ => .pure _
  · exact hword _
  · exact hword _
  · exact hpair _
  · exact hpair _
  · exact hpair _
  · exact hblock _ _
  · exact hblock _ _
  · split
    · exact hblock _ _
    · exact .throw _

/-- The constants of a pool. How many there are depends on the constants only. -/
theorem poolItems_stable (count : UInt16) (rounds : Nat) (index : UInt16) (pool : ConstantPool)
    (read : Array PoolItem) : (poolItems count rounds index pool read).Stable := by
  induction rounds generalizing index pool read with
  | zero => exact .pure _
  | succ rounds ih =>
    rw [poolItems]
    split
    · refine (poolItem_stable _).bind fun item => ?_
      split
      · exact ih _ _ _
      · exact .throw _
    · exact .pure _

/-- All constants of a pool. -/
theorem constantPool_stable (count : UInt16) : (constantPool count).Stable :=
  poolItems_stable _ _ _ _ _

/-- An attribute that is not interpreted. -/
theorem rawAttribute_stable : rawAttribute.Stable :=
  u2_stable.bind fun _ => u4_stable.bind fun _ => (block_stable _).bind fun _ => .pure _

/-- A list of attributes. -/
theorem attributeList_stable : attributeList.Stable :=
  u2_stable.bind fun _ => rawAttribute_stable.times _

/-- A field. -/
theorem field_stable : field.Stable :=
  u2_stable.bind fun _ => u2_stable.bind fun _ => u2_stable.bind fun _ =>
    attributeList_stable.bind fun _ => .pure _

/-- An exception handler. -/
theorem exceptionEntry_stable : exceptionEntry.Stable :=
  u2_stable.bind fun _ => u2_stable.bind fun _ => u2_stable.bind fun _ => u2_stable.bind fun _ =>
    .pure _

/-- The contents of a code attribute. -/
theorem codeBody_stable : codeBody.Stable :=
  u2_stable.bind fun _ => u2_stable.bind fun _ => u4_stable.bind fun _ =>
    (block_stable _).bind fun _ => u2_stable.bind fun _ =>
      (exceptionEntry_stable.times _).bind fun _ => attributeList_stable.bind fun _ => .pure _

/-- A name is looked up in the pool, and not in the bytes. -/
theorem nameAt_stable (pool : ConstantPool) (index : UInt16) : (nameAt pool index).Stable := by
  unfold nameAt
  split
  · exact .pure _
  · exact .throw _

/-- An attribute of a method. -/
theorem methodAttribute_stable (pool : ConstantPool) : (methodAttribute pool).Stable := by
  refine u2_stable.bind fun index => u4_stable.bind fun length => ?_
  refine (nameAt_stable pool index).bind fun name => ?_
  split
  · exact codeBody_stable.bind fun _ => .pure _
  · exact (block_stable _).bind fun _ => .pure _

/-- A method. -/
theorem method_stable (pool : ConstantPool) : (method pool).Stable :=
  u2_stable.bind fun _ => u2_stable.bind fun _ => u2_stable.bind fun _ =>
    (nameAt_stable pool _).bind fun _ => (nameAt_stable pool _).bind fun _ =>
      u2_stable.bind fun _ => ((methodAttribute_stable pool).times _).bind fun _ => .pure _

/-- The number with which a class file starts is judged when all of it is there. -/
theorem checkMagic_stable : checkMagic.Stable := by
  refine u4_stable.bind fun found => ?_
  split
  · exact .pure _
  · exact .throw _

/-- What stands before the methods. -/
theorem header_stable : header.Stable :=
  checkMagic_stable.bind fun _ => u2_stable.bind fun _ => u2_stable.bind fun _ =>
    u2_stable.bind fun _ => (constantPool_stable _).bind fun _ => u2_stable.bind fun _ =>
      u2_stable.bind fun _ => u2_stable.bind fun _ => u2_stable.bind fun _ =>
        (u2_stable.times _).bind fun _ => u2_stable.bind fun _ =>
          (field_stable.times _).bind fun _ => u2_stable.bind fun _ => .pure _

/-- A class file. -/
theorem classFile_stable : classFile.Stable :=
  header_stable.bind fun _ => ((method_stable _).times _).bind fun _ =>
    attributeList_stable.bind fun _ => .pure _

/-! ## Where a reader stands -/

/-- All readers of parts are stable. -/
theorem Part.stable {α : Type} {r : Reader α} (h : Part r) : r.Stable := by
  induction h with
  | u1 => exact u1_stable
  | u2 => exact u2_stable
  | u4 => exact u4_stable
  | block n => exact block_stable n
  | times part n ih => exact ih.times n
  | textItem index => exact textItem_stable index
  | poolItem index => exact poolItem_stable index
  | poolItems count rounds index pool read => exact poolItems_stable count rounds index pool read
  | constantPool count => exact constantPool_stable count
  | rawAttribute => exact rawAttribute_stable
  | attributeList => exact attributeList_stable
  | field => exact field_stable
  | exceptionEntry => exact exceptionEntry_stable
  | codeBody => exact codeBody_stable
  | nameAt pool index => exact nameAt_stable pool index
  | methodAttribute pool => exact methodAttribute_stable pool
  | method pool => exact method_stable pool
  | checkMagic => exact checkMagic_stable
  | header => exact header_stable
  | classFile => exact classFile_stable

/-- A reader stops at a position of its input, and leaves what stands there. So the number of bytes
that are left is the difference of two numbers of which the first is not below the second. -/
theorem Part.exists_position {α : Type} {r : Reader α} (h : Part r) {input rest : List UInt8}
    {a : α} (hread : r input = .ok (a, rest)) :
    ∃ position ≤ input.length,
      rest = input.drop position ∧ rest.length = input.length - position := by
  obtain ⟨⟨taken, rfl⟩, -⟩ := h.stable.ok hread
  exact ⟨taken.length, by simp, by simp, by simp⟩

end ClassFile.Parser

namespace ClassFile

/-- A class file is read if the reader of class files takes it from the front of the bytes. -/
theorem parse_eq_ok {input : List UInt8} {c : ClassFile} :
    parse input = .ok c ↔ ∃ rest, Parser.classFile input = .ok (c, rest) := by
  unfold parse
  cases Parser.classFile input with
  | error e => simp [Except.map]
  | ok read => simp [Except.map, Prod.ext_iff]

/-- Bytes are refused as the reader of class files refuses them. -/
theorem parse_eq_error {input : List UInt8} {e : LoadError} :
    parse input = .error e ↔ Parser.classFile input = .error e := by
  unfold parse
  cases Parser.classFile input with
  | error e' => simp [Except.map]
  | ok read => simp [Except.map]

/-- The law of truncation. Bytes that are a class file stay one, and the same, whatever comes after
them; bytes that are refused, other than for their end, are refused in the same way whatever comes
after them. Of the bytes of a class file reading takes as many as are printed for it: any beginning
that is shorter is refused for its end and for nothing else, and any other gives the class file.
Every part of the reader, wherever it starts, stops at a position that is not past the end. -/
theorem truncation_law (input more : List UInt8) :
    (∀ c, parse input = .ok c → parse (input ++ more) = .ok c) ∧
      (∀ e, parse input = .error e → e ≠ .truncated → parse (input ++ more) = .error e) ∧
      (∀ c, parse input = .ok c →
        c.bytes.length ≤ input.length ∧
          Parser.classFile input = .ok (c, input.drop c.bytes.length) ∧
          ∀ k, parse (input.take k) =
            if k < c.bytes.length then .error .truncated else .ok c) ∧
      ∀ (α : Type) (r : Reader α), Parser.Part r → ∀ bytes a rest, r bytes = .ok (a, rest) →
        ∃ position ≤ bytes.length,
          rest = bytes.drop position ∧ rest.length = bytes.length - position := by
  have hstable := Parser.classFile_stable
  refine ⟨fun c h => ?_, fun e h hne => ?_, fun c h => ?_,
    fun α r hr bytes a rest => hr.exists_position⟩
  · obtain ⟨rest, hread⟩ := parse_eq_ok.1 h
    exact parse_eq_ok.2 ⟨_, (hstable.ok hread).2 more⟩
  · exact parse_eq_error.2 (hstable.error (parse_eq_error.1 h) hne more)
  · obtain ⟨rest, hread⟩ := parse_eq_ok.1 h
    obtain ⟨hc, rfl⟩ := (Parser.classFile_exact input c rest).1 hread
    refine ⟨by simp, by rw [List.drop_left, hread], fun k => ?_⟩
    split
    · next hk => exact parse_eq_error.2 (hstable.take hread (by simpa using hk))
    · next hk =>
      -- The beginning is the whole class file with some of the bytes after it.
      rw [List.take_append, List.take_of_length_le (by omega)]
      exact (parse_eq_ok_iff _ c).2 ⟨hc, _, rfl⟩

/-- A class with a long among its constants and one method, which only returns. -/
def sample : ClassFile where
  minorVersion := 0
  majorVersion := 52
  poolCount := 6
  constants := [.utf8 "Code", .utf8 "f", .utf8 "()V", .wide 5 [0, 0, 0, 0, 0, 0, 0, 9]]
  accessFlags := 0x21
  thisClass := 0
  superClass := 0
  interfaces := []
  fields := []
  methods := [⟨9, ⟨2, "f"⟩, ⟨3, "()V"⟩, [.code 1 13 ⟨0, 0, [0xb1], [], []⟩]⟩]
  attributes := []

/-- Every beginning of the sample is refused for its end, and with anything after it the sample is
read; a number that is not that of class files is refused before any more bytes are there. -/
theorem truncation_law_sample :
    parse sample.bytes = .ok sample ∧
      (∀ more, parse (sample.bytes ++ more) = .ok sample) ∧
      (∀ k < sample.bytes.length, parse (sample.bytes.take k) = .error .truncated) ∧
      ∀ more, parse ([0xca, 0xfe, 0xba, 0xbf] ++ more) = .error (.badMagic 0xcafebabf) := by
  have hsample : parse sample.bytes = .ok sample := rfl
  have hmagic : parse [0xca, 0xfe, 0xba, 0xbf] = .error (.badMagic 0xcafebabf) := rfl
  refine ⟨hsample, fun more => ?_, fun k hk => ?_, fun more => ?_⟩
  · exact (truncation_law _ more).1 _ hsample
  · rw [((truncation_law _ []).2.2.1 _ hsample).2.2 k, if_pos hk]
  · exact (truncation_law _ more).2.1 _ hmagic (by decide)

end ClassFile

end TieredJvm
