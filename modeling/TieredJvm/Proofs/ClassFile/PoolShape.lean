import TieredJvm.Proofs.ClassFile.Constants

/-!
# The shape of pools that are read

Reading the constants of a pool is a loop with an index of its own, of 16 bits, that goes up by one
with every entry (`PoolLoop`). A round of the reader of constants, which adds the entries of a
constant at once, is one of this loop (`PoolLoop.readOn_succ`), so that the reader gives what the
loop does (`PoolLoop.Reached.constantPool_eq`). The index and the size of the pool never part
(`PoolLoop.Reached.sound`): the index would only leave 16 bits with a long or a double in the last
slot that can be declared, and then nothing is read (`PoolLoop.not_read_of_wideIn`). So a constant
that is refused is refused for the slot that it would have taken, and there is always an index for
the next entry.

The entries of the pool that comes out are read off the constants one by one. Of a long or a double
the second entry holds nothing, and nothing else leaves an entry empty but slot 0
(`PoolItem.reserved_iff_wide`). The last constant starts below the declared size, so only a second
entry can lie past it (`PoolItem.Fill.reserved_of_overrun`).
-/

namespace TieredJvm

/-! ## The entries that constants make -/

/-- The first entry of a long or a double. -/
def Constant.IsWide (c : Constant) : Prop :=
  c = .unsupported 5 ∨ c = .unsupported 6

/-- A long or a double starts in a slot of the pool. -/
def ConstantPool.WideAt (pool : ConstantPool) (slot : Nat) : Prop :=
  ∃ c, pool.entries[slot]? = some c ∧ c.IsWide

namespace PoolItem

/-- The tags of the constants that are not used. -/
def unusedTags : List UInt8 :=
  [4, 5, 6, 11, 15, 16, 17, 18, 19, 20]

/-- The tags of all constants. -/
def tags : List UInt8 :=
  [1, 3, 7, 8, 9, 10, 12] ++ unusedTags

/-- A constant that is not used and takes one slot is no long and no double. -/
theorem tag_of_mem_narrowSizes {tag : UInt8} {size : Nat} (h : (tag, size) ∈ narrowSizes) :
    tag ∈ unusedTags ∧ tag ≠ 5 ∧ tag ≠ 6 := by
  simp only [narrowSizes, List.mem_cons, List.not_mem_nil, or_false, Prod.mk.injEq] at h
  rcases h with h | h | h | h | h | h | h | h <;> obtain ⟨rfl, -⟩ := h <;> decide

/-- There are no other constants that are not used and take one slot. -/
theorem not_mem_of_narrowSize?_eq_none {tag : UInt8} (h : narrowSize? tag = none) (h5 : tag ≠ 5)
    (h6 : tag ≠ 6) : tag ∉ unusedTags := by
  intro hmem
  simp only [unusedTags, List.mem_cons, List.not_mem_nil, or_false] at hmem
  rcases hmem with rfl | rfl | rfl | rfl | rfl | rfl | rfl | rfl | rfl | rfl <;>
    contradiction

/-- A constant makes one entry, which holds something, or is a long or a double, of which the second
entry holds nothing. -/
theorem WellFormed.entries_cases {item : PoolItem} (h : item.WellFormed) :
    (∃ c, item.entries = [c] ∧ c ≠ .reserved ∧ ¬c.IsWide) ∨
      ∃ c, item.entries = [c, .reserved] ∧ c ≠ .reserved ∧ c.IsWide := by
  cases item with
  | wide tag payload =>
    obtain ⟨rfl | rfl, -⟩ := h
    · exact .inr ⟨_, rfl, nofun, .inl rfl⟩
    · exact .inr ⟨_, rfl, nofun, .inr rfl⟩
  | narrow tag payload =>
    obtain ⟨-, h5, h6⟩ := tag_of_mem_narrowSizes h
    refine .inl ⟨_, rfl, nofun, ?_⟩
    rintro (heq | heq)
    · exact h5 (Constant.unsupported.inj heq)
    · exact h6 (Constant.unsupported.inj heq)
  | _ => exact .inl ⟨_, rfl, nofun, by rintro (heq | heq) <;> cases heq⟩

/-- Only constants with such a tag make an entry that is not used. -/
theorem WellFormed.tag_mem {item : PoolItem} (h : item.WellFormed) {tag : UInt8}
    (hmem : .unsupported tag ∈ item.entries) : tag ∈ unusedTags := by
  cases item with
  | wide tag' payload =>
    obtain ⟨rfl | rfl, -⟩ := h <;> simp_all [entries, unusedTags]
  | narrow tag' payload =>
    have htag := (tag_of_mem_narrowSizes h).1
    simp_all [entries]
  | _ => simp [entries] at hmem

/-- After an entry that is not the first of a long or a double, an entry of some constants holds
nothing exactly if the one before it is the first of a long or a double. -/
theorem reserved_iff_wide {items : List PoolItem} (hitems : ∀ item ∈ items, item.WellFormed)
    {before : Constant} (hbefore : ¬before.IsWide) (i : Nat) :
    (before :: items.flatMap entries)[i + 1]? = some .reserved ↔
      ∃ c, (before :: items.flatMap entries)[i]? = some c ∧ c.IsWide := by
  -- The entry before the constants changes along the list, and so does where to look.
  induction items generalizing before i with
  | nil => cases i <;> simp [hbefore]
  | cons item items ih =>
    obtain ⟨hitem, hitems⟩ := List.forall_mem_cons.1 hitems
    rw [List.flatMap_cons]
    obtain ⟨c, hentries, hc, hwide⟩ | ⟨c, hentries, hc, hwide⟩ := hitem.entries_cases
    · rw [hentries]
      cases i with
      | zero => simp [hc, hbefore]
      | succ i => exact ih hitems hwide i
    · have hreserved : ¬Constant.reserved.IsWide := by
        rintro (heq | heq) <;> cases heq
      rw [hentries]
      match i with
      | 0 => simp [hc, hbefore]
      | 1 => simp [hwide]
      | i + 2 => exact ih hitems hreserved i

/-- The entry past the declared size, if there is one, holds nothing. -/
theorem Fill.reserved_of_overrun {count : Nat} {items : List PoolItem}
    (hitems : ∀ item ∈ items, item.WellFormed) (h : Fill (count + 1) 1 items)
    (hsize : slotCount items = count + 1) :
    (items.flatMap entries)[count]? = some .reserved := by
  obtain rfl | ⟨init, last, rfl, hshort, hsum⟩ := h.last
  · cases hsize
  · -- The last constant starts below the count, so it takes two slots.
    have hslots := last.slots_pos_le
    have htwo : last.slots = 2 := by omega
    have hcount : count = slotCount init + 1 := by omega
    obtain ⟨c, hentries, -, -⟩ | ⟨c, hentries, -, -⟩ := (hitems last (by simp)).entries_cases
    · rw [← length_entries, hentries] at htwo
      cases htwo
    · rw [List.flatMap_append, hcount, ← length_flatMap_entries,
        List.getElem?_append_right (Nat.le_succ _)]
      simp [hentries]

end PoolItem

/-! ## The loop over the constants -/

/-- The loop over the constants of a pool, at the start of one of its rounds. -/
structure PoolLoop where
  /-- The index of the next entry. -/
  index : UInt16
  /-- The pool so far. -/
  pool : ConstantPool
  /-- The constants that were read. -/
  read : Array PoolItem
  /-- The bytes that are left. -/
  input : List UInt8

namespace PoolLoop

open ClassFile.Parser

/-- The loop starts at index 1. -/
def start (input : List UInt8) : PoolLoop :=
  ⟨1, .empty, #[], input⟩

/-- Adds an entry, and goes on to the next index. -/
def put (s : PoolLoop) (entry : Constant) : Except LoadError PoolLoop :=
  match s.pool.push entry with
  | .ok (_, pool) => .ok { s with index := s.index + 1, pool }
  | .error cause => .error (.poolFull cause)

/-- One round: a constant is read, and its entries are added one after another. -/
def round (s : PoolLoop) : Except LoadError PoolLoop := do
  let (item, rest) ← poolItem s.index.toNat s.input
  item.entries.foldlM put { s with read := s.read.push item, input := rest }

/-- The loop over the constants at the start of the input comes to a state, going on for as long as
the index is below the declared size. -/
inductive Reached (count : UInt16) (input : List UInt8) : PoolLoop → Prop where
  /-- The first round. -/
  | start : Reached count input (.start input)
  /-- A further round. -/
  | round {s s' : PoolLoop} (earlier : Reached count input s) (below : s.index < count)
    (last : s.round = .ok s') : Reached count input s'

/-- The loop has come to its end in the state `s` and gives what it has read, or fails there. -/
def Ends (count : UInt16) (s : PoolLoop) :
    Except LoadError ((ConstantPool × List PoolItem) × List UInt8) → Prop
  | .ok ((pool, items), rest) =>
    count ≤ s.index ∧ pool = s.pool ∧ items = s.read.toList ∧ rest = s.input
  | .error e => s.index < count ∧ s.round = .error e

/-- Bytes that are refused as a constant for a slot, with the error. -/
inductive Refused (slot : Nat) : List UInt8 → LoadError → Prop where
  /-- The bytes end before the constant does. -/
  | truncated (input : List UInt8) : Refused slot input .truncated
  /-- There are no constants with the tag. -/
  | unknownTag {tag : UInt8} (rest : List UInt8)
    (unknown : tag ∉ PoolItem.tags) :
    Refused slot (tag :: rest) (.unknownTag tag slot)
  /-- The bytes of a text are not UTF-8. -/
  | invalidUtf8 {raw : List UInt8} (rest : List UInt8) (length : raw.length < UInt16.size)
    (invalid : String.fromUTF8? ⟨raw.toArray⟩ = none) :
    Refused slot (1 :: Printer.u2 raw.length.toUInt16 ++ raw ++ rest) (.invalidUtf8 slot)

/-- The constants at the start of the input put a long or a double into a slot. -/
def WideIn (slot : Nat) (input : List UInt8) : Prop :=
  ∃ items tag payload rest, (∀ item ∈ items, PoolItem.WellFormed item) ∧
    1 + PoolItem.slotCount items = slot ∧ (PoolItem.wide tag payload).WellFormed ∧
    input = items.flatMap PoolItem.bytes ++ ((PoolItem.wide tag payload).bytes ++ rest)

/-- A pool is not read past the last index if no long or double starts in the last slot that can be
declared. -/
def Within (count : UInt16) (input : List UInt8) : Prop :=
  ¬(count = 65535 ∧ WideIn 65534 input)

/-- What holds at the start of every round. -/
structure Sound (input : List UInt8) (s : PoolLoop) : Prop where
  /-- The index is the size of the pool. -/
  index : s.index.toNat = s.pool.size
  /-- The pool is the one that the constants make. -/
  pool : s.pool = .ofList (s.read.toList.flatMap PoolItem.entries)
  /-- The constants are as they are printed. -/
  read : ∀ item ∈ s.read.toList, item.WellFormed
  /-- They are what stands before the bytes that are left. -/
  input : input = s.read.toList.flatMap PoolItem.bytes ++ s.input

variable {count : UInt16} {input : List UInt8} {s s' : PoolLoop}

/-- Entries are added to the pool one after another, and the index goes up by their number. -/
theorem foldlM_put (s : PoolLoop) (entries : List Constant) :
    entries.foldlM put s =
      match s.pool.pushAll entries with
      | .ok pool => .ok { s with index := s.index + entries.length.toUInt16, pool }
      | .error cause => .error (.poolFull cause) := by
  induction entries generalizing s with
  | nil => simp [ConstantPool.pushAll, pure, Except.pure]
  | cons entry entries ih =>
    rw [List.foldlM_cons, put, ConstantPool.pushAll]
    cases s.pool.push entry with
    | error cause => rfl
    | ok pushed =>
      have hindex : s.index + 1 + entries.length.toUInt16 =
          s.index + (entry :: entries).length.toUInt16 := by
        simp only [List.length_cons, Nat.toUInt16_eq, UInt16.ofNat_add, UInt16.ofNat_one]
        ac_rfl
      refine (ih _).trans ?_
      dsimp only
      rw [hindex]

/-- What the reader of constants gives from a state of the loop on. -/
def readOn (count : UInt16) (rounds : Nat) (s : PoolLoop) :
    Except LoadError ((ConstantPool × List PoolItem) × List UInt8) :=
  poolItems count rounds s.index s.pool s.read s.input

/-- With an index that is below the declared size, the reader does a round of the loop and goes on.
With any other it stops. -/
theorem readOn_succ (count : UInt16) (rounds : Nat) (s : PoolLoop) :
    s.readOn count (rounds + 1) =
      if s.index < count then
        match s.round with
        | .ok s' => s'.readOn count rounds
        | .error e => .error e
      else .ok ((s.pool, s.read.toList), s.input) := by
  rw [readOn, poolItems]
  split
  · cases hitem : poolItem s.index.toNat s.input with
    | error e =>
      have hround : s.round = .error e := by
        rw [round, hitem]
        rfl
      rw [hround]
      exact Reader.bind_eq_error.2 (.inl hitem)
    | ok read =>
      obtain ⟨item, rest⟩ := read
      have hround : s.round =
          item.entries.foldlM put { s with read := s.read.push item, input := rest } := by
        rw [round, hitem]
        rfl
      rw [Reader.bind_of_eq_ok hitem, hround, foldlM_put]
      dsimp only
      cases s.pool.pushAll item.entries <;> rfl
  · rfl

/-! ## Constants that are refused -/

section Refusal

open Reader

variable {slot : Nat} {e : LoadError}

/-- A text is refused where the bytes end, or when all of it is there and is not UTF-8. -/
theorem refused_of_textItem (h : textItem slot input = .error e) :
    Refused slot (1 :: input) e := by
  obtain hfirst | ⟨length, mid, hlength, hmid⟩ := bind_eq_error.1 h
  · rw [u2_onlyTruncates _ _ hfirst]
    exact .truncated _
  · obtain ⟨-, rfl⟩ := (u2_exact _ _ _).1 hlength
    obtain hblock | ⟨raw, rest, hraw, hrest⟩ := bind_eq_error.1 hmid
    · rw [block_onlyTruncates _ _ _ hblock]
      exact .truncated _
    · obtain ⟨hlen, rfl⟩ := (block_exact _ _ _ _).1 hraw
      obtain ⟨rfl, hlt⟩ := length_toUInt16 hlen
      cases htext : String.fromUTF8? ⟨raw.toArray⟩ with
      | some text =>
        rw [htext] at hrest
        cases hrest
      | none =>
        rw [htext] at hrest
        cases hrest
        have hrefused : Refused slot _ _ := .invalidUtf8 rest hlt htext
        rw [List.append_assoc, List.cons_append] at hrefused
        exact hrefused

/-- No constant is refused for want of an index. -/
theorem Refused.ne_poolFull (h : Refused slot input e) (cause : PoolFull) :
    e ≠ .poolFull cause := by
  rintro rfl
  cases h

/-- A constant is refused where the bytes end, or for its tag, or for its text. -/
theorem refused_of_poolItem (h : poolItem slot input = .error e) : Refused slot input e := by
  have htruncated {r : Reader PoolItem} {mid : List UInt8} (hr : OnlyTruncates r)
      (h : r mid = .error e) : Refused slot input e := by
    rw [hr _ _ h]
    exact .truncated _
  have hpair (make : UInt16 → UInt16 → PoolItem) :
      OnlyTruncates (do return make (← u2) (← u2) : Reader PoolItem) :=
    u2_onlyTruncates.bind fun _ => u2_onlyTruncates.bind_pure _
  obtain hfirst | ⟨tag, rest, htag, hrest⟩ := bind_eq_error.1 h
  · cases input with
    | nil =>
      cases hfirst
      exact .truncated _
    | cons tag rest => cases hfirst
  · obtain ⟨-, rfl⟩ := (u1_exact _ _ _).1 htag
    -- One case for each tag, in the order of the reader.
    split at hrest
    · exact refused_of_textItem hrest
    · exact htruncated (u4_onlyTruncates.bind_pure _) hrest
    · exact htruncated (u2_onlyTruncates.bind_pure _) hrest
    · exact htruncated (u2_onlyTruncates.bind_pure _) hrest
    · exact htruncated (hpair _) hrest
    · exact htruncated (hpair _) hrest
    · exact htruncated (hpair _) hrest
    · exact htruncated ((block_onlyTruncates _).bind_pure _) hrest
    · exact htruncated ((block_onlyTruncates _).bind_pure _) hrest
    · next h1 h3 h7 h8 h9 h10 h12 h5 h6 =>
      cases hsize : PoolItem.narrowSize? tag with
      | some size =>
        rw [hsize] at hrest
        exact htruncated ((block_onlyTruncates _).bind_pure _) hrest
      | none =>
        rw [hsize] at hrest
        cases hrest
        have hunused := PoolItem.not_mem_of_narrowSize?_eq_none hsize h5 h6
        refine .unknownTag _ fun hmem => ?_
        rcases List.mem_append.1 hmem with hmem | hmem
        · simp only [List.mem_cons, List.not_mem_nil, or_false] at hmem
          rcases hmem with h | h | h | h | h | h | h <;> contradiction
        · exact hunused hmem

end Refusal

/-! ## One round -/

/-- The loop starts soundly. -/
theorem sound_start (input : List UInt8) : Sound input (start input) where
  index := rfl
  pool := rfl
  read := by simp [start]
  input := rfl

/-- The constants that were read fill the pool. -/
theorem Sound.size_eq (h : Sound input s) :
    s.pool.size = 1 + PoolItem.slotCount s.read.toList := by
  rw [h.pool, size_ofList_flatMap]

/-- The index is below the declared size as long as the pool is. -/
theorem Sound.index_lt_iff (h : Sound input s) : s.index < count ↔ s.pool.size < count.toNat := by
  rw [UInt16.lt_iff_toNat_lt, h.index]

/-- In a pool that is not read past the last index there is always room for the next constant. -/
theorem Sound.room (h : Sound input s) (hwithin : Within count input) (hlt : s.index < count)
    {item : PoolItem} {rest : List UInt8}
    (hitem : poolItem s.pool.size s.input = .ok (item, rest)) :
    (s.read.toList.flatMap PoolItem.entries).length + item.entries.length < 65535 := by
  have hcount := count.toNat_lt
  have hsize := h.size_eq
  have hslots := item.slots_pos_le
  rw [h.index_lt_iff] at hlt
  rw [PoolItem.length_flatMap_entries, item.length_entries]
  refine Nat.lt_of_not_le fun hfull => ?_
  -- Only a long or a double would have no room, and only in the last slot that can be declared.
  have hlast : count.toNat = 65535 := by omega
  have hwide : item.slots = 2 := by omega
  obtain ⟨hformed, hinput⟩ := of_poolItem hitem
  refine hwithin ⟨UInt16.toNat_inj.1 hlast, ?_⟩
  cases item with
  | wide tag payload =>
    refine ⟨s.read.toList, tag, payload, rest, h.read, by omega, hformed, ?_⟩
    rw [← hinput, ← h.input]
  | _ => cases hwide

/-- A round reads a constant and adds its entries, for which there is room. -/
theorem Sound.round_eq (h : Sound input s) (hwithin : Within count input) (hlt : s.index < count)
    {item : PoolItem} {rest : List UInt8}
    (hitem : poolItem s.pool.size s.input = .ok (item, rest)) :
    ∃ s', s.round = .ok s' ∧ Sound input s' ∧ s'.read = s.read.push item := by
  have hroom := h.room hwithin hlt hitem
  obtain ⟨hformed, hinput⟩ := of_poolItem hitem
  have hpushed := ConstantPool.pushAll_ofList (Nat.lt_trans hroom (by decide))
  have hentries : (s.read.push item).toList.flatMap PoolItem.entries =
      s.read.toList.flatMap PoolItem.entries ++ item.entries := by
    simp
  have hnext := toNat_add_length_entries s.index item
  rw [h.index, ← item.length_entries, h.pool, ConstantPool.size_ofList,
    Nat.mod_eq_of_lt (by omega)] at hnext
  refine ⟨⟨s.index + item.entries.length.toUInt16,
    .ofList (s.read.toList.flatMap PoolItem.entries ++ item.entries), s.read.push item, rest⟩, ?_,
    ⟨?_, ?_, ?_, ?_⟩, rfl⟩
  · rw [round, h.index, hitem]
    refine (foldlM_put _ _).trans ?_
    dsimp only
    rw [h.pool, hpushed]
  · rw [hnext, ConstantPool.size_ofList, List.length_append]
    omega
  · rw [hentries]
  · rw [Array.toList_push]
    exact List.forall_mem_append.2 ⟨h.read, by simpa using hformed⟩
  · rw [Array.toList_push, List.flatMap_append, List.append_assoc, List.flatMap_singleton,
      ← hinput, ← h.input]

/-- A round comes soundly to the next, or it fails because no constant is read. -/
theorem Sound.round_cases (h : Sound input s) (hwithin : Within count input)
    (hlt : s.index < count) :
    (∃ item s', s.round = .ok s' ∧ Sound input s' ∧ s'.read = s.read.push item) ∨
      ∃ e, poolItem s.pool.size s.input = .error e ∧ s.round = .error e := by
  cases hitem : poolItem s.pool.size s.input with
  | ok p =>
    obtain ⟨s', hround, hsound, hread⟩ := h.round_eq hwithin hlt hitem
    exact .inl ⟨p.1, s', hround, hsound, hread⟩
  | error e =>
    refine .inr ⟨e, rfl, ?_⟩
    rw [round, h.index, hitem]
    rfl

/-- A round keeps the loop sound, and the constant that it reads fills a slot. -/
theorem Sound.of_round (h : Sound input s) (hwithin : Within count input) (hlt : s.index < count)
    (hround : s.round = .ok s') : Sound input s' ∧ s.pool.size < s'.pool.size := by
  obtain ⟨item, s'', hok, hsound, hread⟩ | ⟨e, -, herror⟩ := h.round_cases hwithin hlt
  · rw [hround] at hok
    cases hok
    have hslots := item.slots_pos_le
    have hsize := h.size_eq
    have hsize' := hsound.size_eq
    rw [hread, Array.toList_push, PoolItem.slotCount_append] at hsize'
    simp only [PoolItem.slotCount] at hsize'
    exact ⟨hsound, by omega⟩
  · rw [hround] at herror
    cases herror

/-! ## The whole loop -/

/-- Where a long or a double starts in the last slot that can be declared, nothing is read. -/
theorem not_read_of_wideIn (h : WideIn 65534 input)
    (r : (ConstantPool × List PoolItem) × List UInt8) : constantPool 65535 input ≠ .ok r := by
  obtain ⟨before, tag, payload, rest, hbefore, hslots, hwide, rfl⟩ := h
  obtain ⟨⟨pool, items⟩, rest'⟩ := r
  intro hread
  obtain ⟨⟨-, hitems, hfill, hwithin⟩, hinput⟩ := (constantPool_exact 65535 _ _ _).1 hread
  dsimp only at hitems hfill hwithin hinput
  have hall : ∀ item ∈ before ++ [PoolItem.wide tag payload], item.WellFormed :=
    List.forall_mem_append.2 ⟨hbefore, by simpa using hwide⟩
  have hbytes : (before ++ [PoolItem.wide tag payload]).flatMap PoolItem.bytes ++ rest =
      items.flatMap PoolItem.bytes ++ rest' := by
    rw [← hinput]
    simp
  have hsame {n : Nat} (hn : n ≤ before.length + 1) (hn' : n ≤ items.length) :
      (before ++ [PoolItem.wide tag payload]).take n = items.take n :=
    (poolItem_exact 0).take_eq_take hall hitems hbytes (by simpa using hn) hn'
  by_cases hlong : before.length < items.length
  · -- The constants that are read begin with those, so they overrun the pool.
    have hfirst := hsame (Nat.le_refl _) hlong
    rw [List.take_of_length_le (by simp)] at hfirst
    refine hwithin ⟨rfl, before, tag, payload, items.drop (before.length + 1), ?_, hslots⟩
    rw [List.append_cons, hfirst, List.take_append_drop]
  · -- They are too few to fill the pool.
    have hlength := Nat.not_lt.1 hlong
    have hfew := hsame (Nat.le_succ_of_le hlength) (Nat.le_refl _)
    rw [List.take_append_of_le_length hlength, List.take_length] at hfew
    have hsum :=
      PoolItem.slotCount_append (before.take items.length) (before.drop items.length)
    rw [List.take_append_drop, hfew] at hsum
    have hreach : 65535 ≤ 1 + PoolItem.slotCount items := hfill.1
    omega

/-- Whatever the loop comes to is sound. -/
theorem Reached.sound (h : Reached count input s) (hwithin : Within count input) :
    Sound input s := by
  induction h with
  | start => exact sound_start input
  | round earlier below last ih => exact (ih.of_round hwithin below last).1

/-- From any state that the loop comes to, the reader of constants does the rest. -/
theorem Reached.constantPool_eq (h : Reached count input s) (hwithin : Within count input) :
    ∃ rounds, count.toNat < s.pool.size + rounds ∧
      constantPool count input = s.readOn count rounds := by
  induction h with
  | start => exact ⟨count.toNat, Nat.lt_add_of_pos_left Nat.one_pos, rfl⟩
  | @round s s' earlier below last ih =>
    obtain ⟨rounds, hrounds, hread⟩ := ih
    have hsound := earlier.sound hwithin
    have hlt := hsound.index_lt_iff.1 below
    have hgrows := (hsound.of_round hwithin below last).2
    obtain ⟨rounds, rfl⟩ : ∃ n, rounds = n + 1 := ⟨rounds - 1, by omega⟩
    rw [readOn_succ, if_pos below, last] at hread
    exact ⟨rounds, by omega, hread⟩

/-- The loop ends where the reader of constants ends, and with what that gives. -/
theorem Reached.ends (h : Reached count input s) (hwithin : Within count input)
    (hend : count ≤ s.index ∨ ∃ e, s.round = .error e) :
    s.Ends count (constantPool count input) := by
  have hsound := h.sound hwithin
  obtain ⟨rounds, hrounds, hread⟩ := h.constantPool_eq hwithin
  rw [hread]
  by_cases hlt : s.index < count
  · obtain hfull | ⟨e, hround⟩ := hend
    · exact absurd hlt (UInt16.not_lt.2 hfull)
    · have hroom := hsound.index_lt_iff.1 hlt
      obtain ⟨rounds, rfl⟩ : ∃ n, rounds = n + 1 := ⟨rounds - 1, by omega⟩
      rw [readOn_succ, if_pos hlt, hround]
      exact ⟨hlt, hround⟩
  · have hstop : s.readOn count rounds = .ok ((s.pool, s.read.toList), s.input) := by
      cases rounds with
      | zero => rfl
      | succ rounds => rw [readOn_succ, if_neg hlt]
    rw [hstop]
    exact ⟨UInt16.not_lt.1 hlt, rfl, rfl, rfl⟩

/-- The loop comes to an end. -/
theorem Reached.exists_end (h : Reached count input s) (hwithin : Within count input) :
    ∃ s', Reached count input s' ∧ (count ≤ s'.index ∨ ∃ e, s'.round = .error e) := by
  -- Every round leaves fewer slots to fill.
  induction hfree : count.toNat - s.pool.size using Nat.strongRecOn generalizing s with
  | ind free ih =>
    have hsound := h.sound hwithin
    by_cases hlt : s.index < count
    · cases hround : s.round with
      | error e => exact ⟨s, h, .inr ⟨e, hround⟩⟩
      | ok s' =>
        have hroom := hsound.index_lt_iff.1 hlt
        have hgrows := (hsound.of_round hwithin hlt hround).2
        exact ih _ (by omega) (.round h hlt hround) rfl
    · exact ⟨s, h, .inl (UInt16.not_lt.1 hlt)⟩

end PoolLoop

/-! ## The pools that are read -/

/-- What can be said of every pool that is declared to have `count` slots and is read. -/
structure ConstantPool.Shaped (count : Nat) (pool : ConstantPool) : Prop where
  /-- Slot 0 holds nothing. -/
  first : pool.entries[0]? = some .reserved
  /-- Of the others, those hold nothing that come after a long or a double. -/
  reserved : ∀ i : Nat, pool.entries[i + 1]? = some .reserved ↔ pool.WideAt i
  /-- The constants that are not used have tags of such constants. -/
  unsupported : ∀ (i : Nat) tag, pool.entries[i]? = some (.unsupported tag) →
    tag ∈ PoolItem.unusedTags
  /-- There is one slot more than was declared if a long or a double starts in the last of those. -/
  overrun : pool.WideAt (count - 1) → pool.size = count + 1
  /-- Otherwise there are as many as were declared, but never none. -/
  exact : ¬pool.WideAt (count - 1) → pool.size = max count 1

open ClassFile.Parser

/-- The pool of as many constants as it takes to fill it is of such a shape. -/
theorem PoolItem.Fill.shaped {count : Nat} {items : List PoolItem}
    (hitems : ∀ item ∈ items, item.WellFormed) (h : Fill count 1 items) :
    (ConstantPool.ofList (items.flatMap entries)).Shaped count := by
  have hempty : ¬Constant.reserved.IsWide := by
    rintro (heq | heq) <;> cases heq
  have hfirst : (ConstantPool.ofList (items.flatMap entries)).entries[0]? = some .reserved := by
    simp [ConstantPool.ofList]
  have hreserved (i : Nat) : (ConstantPool.ofList (items.flatMap entries)).entries[i + 1]? =
      some .reserved ↔ (ConstantPool.ofList (items.flatMap entries)).WideAt i := by
    simpa [ConstantPool.ofList, ConstantPool.WideAt] using reserved_iff_wide hitems hempty i
  have hsize := size_ofList_flatMap items
  have hle := h.slotCount_le
  have hge := h.1
  refine ⟨hfirst, hreserved, fun i tag hi => ?_, fun hwide => ?_, fun hwide => ?_⟩
  · have hmem : .unsupported tag ∈ Constant.reserved :: items.flatMap entries :=
      List.mem_of_getElem? (by simpa [ConstantPool.ofList] using hi)
    obtain ⟨item, hitem, hentry⟩ := List.mem_flatMap.1 (by simpa using hmem)
    exact (hitems item hitem).tag_mem hentry
  · cases count with
    | zero =>
      -- There is nothing in slot 0.
      obtain ⟨c, hc, hc'⟩ := hwide
      rw [hfirst] at hc
      cases hc
      exact absurd hc' hempty
    | succ count =>
      -- The second entry of the constant lies past the declared size.
      have hsecond := (hreserved count).2 hwide
      have hlt := (Array.getElem?_eq_some_iff.1 hsecond).1
      rw [ConstantPool.size] at hsize ⊢
      omega
  · cases count with
    | zero => omega
    | succ count =>
      have hexact : PoolItem.slotCount items ≠ count + 1 := by
        intro hover
        have hsecond := h.reserved_of_overrun hitems hover
        exact hwide ((hreserved count).1 (by simpa [ConstantPool.ofList] using hsecond))
      omega

namespace PoolLoop

variable {count : UInt16} {input : List UInt8} {s : PoolLoop}

/-- As long as the index is below the declared size, it is the one that the next entry gets. -/
theorem Sound.push_eq (h : Sound input s) (hlt : s.index < count) (entry : Constant) :
    (s.pool.push entry).map Prod.fst = .ok s.index := by
  have hcount := count.toNat_lt
  have hroom := h.index_lt_iff.1 hlt
  rw [ConstantPool.push_of_lt (by omega), ← h.index, Nat.toUInt16_eq, UInt16.ofNat_toNat]
  rfl

/-- Where the loop fails, the next constant is refused. -/
theorem Sound.refused (h : Sound input s) (hwithin : Within count input) (hlt : s.index < count)
    {e : LoadError} (hround : s.round = .error e) : Refused s.index.toNat s.input e := by
  obtain ⟨-, s', hok, -⟩ | ⟨e', hitem, herror⟩ := h.round_cases hwithin hlt
  · rw [hround] at hok
    cases hok
  · rw [hround] at herror
    cases herror
    rw [h.index]
    exact refused_of_poolItem hitem

end PoolLoop

/-- The shape of pools. For any bytes and any declared size, unless the size is the largest and a
long or a double starts in the last slot: whenever the loop over the constants starts a round, its
index is the size of the pool. It ends where the reader of constants ends, and with what that gives.
If that is an error, then a constant is refused for the slot that its entry would have got, and
never for want of an index. If it is a pool, then slot 0 holds nothing, and another slot does so
exactly after a long or a double; the constants that are not used have tags of such constants; and
there are as many slots as were declared, but at least slot 0, and one more exactly if a long or a
double starts in the last that was declared. -/
theorem pool_shape (count : UInt16) (input : List UInt8) (hwithin : PoolLoop.Within count input) :
    (∀ s, PoolLoop.Reached count input s → s.index.toNat = s.pool.size) ∧
      (∃ s, PoolLoop.Reached count input s ∧ s.Ends count (constantPool count input)) ∧
      (∀ e, constantPool count input = .error e →
        (∀ cause, e ≠ .poolFull cause) ∧
          ∃ s, PoolLoop.Reached count input s ∧
            (∀ entry, (s.pool.push entry).map Prod.fst = .ok s.index) ∧
            PoolLoop.Refused s.index.toNat s.input e) ∧
      ∀ pool items rest, constantPool count input = .ok ((pool, items), rest) →
        pool.Shaped count.toNat := by
  obtain ⟨s, hs, hend⟩ := PoolLoop.Reached.exists_end .start hwithin
  have hends := hs.ends hwithin hend
  refine ⟨fun s hs => (hs.sound hwithin).index, ⟨s, hs, hends⟩, fun e herror => ?_,
    fun pool items rest hread => ?_⟩
  · have hsound := hs.sound hwithin
    rw [herror] at hends
    obtain ⟨hlt, hround⟩ := hends
    have hrefused := hsound.refused hwithin hlt hround
    exact ⟨hrefused.ne_poolFull, s, hs, hsound.push_eq hlt, hrefused⟩
  · obtain ⟨⟨hpool, hitems, hfill, -⟩, -⟩ := (constantPool_exact count _ _ _).1 hread
    dsimp only at hpool hitems hfill
    rw [hpool]
    exact hfill.shaped hitems

/-- A long and a double, and nothing else. -/
def PoolLoop.twoWide : List UInt8 :=
  [5, 0, 0, 0, 0, 0, 0, 0, 9, 6, 0, 0, 0, 0, 0, 0, 0, 9]

/-- In a pool of four slots the double starts in the last, so there is a fifth. In the place of the
double another byte is refused for slot 3. -/
theorem pool_shape_twoWide :
    PoolLoop.Within 4 PoolLoop.twoWide ∧
      ConstantPool.Shaped 4
        ⟨#[.reserved, .unsupported 5, .reserved, .unsupported 6, .reserved]⟩ ∧
      ∃ s, PoolLoop.Reached 4 (PoolLoop.twoWide.take 9 ++ [2]) s ∧
        (∀ entry, (s.pool.push entry).map Prod.fst = .ok s.index) ∧
        PoolLoop.Refused s.index.toNat s.input (.unknownTag 2 3) := by
  have hwithin (input : List UInt8) : PoolLoop.Within 4 input := by
    rintro ⟨hcount, -⟩
    cases hcount
  have hread : constantPool 4 PoolLoop.twoWide =
      .ok ((⟨#[.reserved, .unsupported 5, .reserved, .unsupported 6, .reserved]⟩,
        [.wide 5 [0, 0, 0, 0, 0, 0, 0, 9], .wide 6 [0, 0, 0, 0, 0, 0, 0, 9]]), []) := rfl
  have herror : constantPool 4 (PoolLoop.twoWide.take 9 ++ [2]) = .error (.unknownTag 2 3) := rfl
  exact ⟨hwithin _, (pool_shape 4 _ (hwithin _)).2.2.2 _ _ _ hread,
    ((pool_shape 4 _ (hwithin _)).2.2.1 _ herror).2⟩

end TieredJvm
