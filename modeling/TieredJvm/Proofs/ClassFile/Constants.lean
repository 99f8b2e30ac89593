import TieredJvm.Proofs.ClassFile.Readers

/-!
# Constants as they are read and printed

Which constants have a printed form (`PoolItem.WellFormed`), and how many of them a file has: as
many as it takes to fill the slots that it declares, and no more (`PoolItem.Fill`). A constant is
read exactly (`ClassFile.Parser.poolItem_exact`), and so are all of them
(`ClassFile.Parser.constantPool_exact`).

The pool that the reader builds on its way is the one that the constants make, and the index of the
next entry is its size (`ClassFile.Parser.poolItems_eq_ok`). In one case the size leaves 16 bits,
and the index does not: a long or a double starts in the last slot of the largest pool that can be
declared (`PoolItem.Overruns`). Then there is no room for another entry, but the index is 0 and asks
for one, so nothing is read.
-/

namespace TieredJvm

/-! ## Well-formed constants -/

namespace PoolItem

/-- The number of slots that a constant takes. -/
def slots : PoolItem → Nat
  | wide _ _ => 2
  | _ => 1

/-- The tags of the constants that are not used and take one slot, with the sizes of their
payloads. -/
def narrowSizes : List (UInt8 × Nat) :=
  [(4, 4), (11, 4), (15, 3), (16, 2), (17, 4), (18, 4), (19, 2), (20, 2)]

/-- A text can be written with its length before it. A constant that is not used has a tag for
which there are such constants, and a payload of the size that belongs to the tag. -/
def WellFormed : PoolItem → Prop
  | utf8 text => text.toUTF8.data.toList.length < UInt16.size
  | narrow tag payload => (tag, payload.length) ∈ narrowSizes
  | wide tag payload => (tag = 5 ∨ tag = 6) ∧ payload.length = 8
  | _ => True

/-- The sizes by which constants are read are those of the list. -/
theorem narrowSize?_eq_some_iff {tag : UInt8} {size : Nat} :
    narrowSize? tag = some size ↔ (tag, size) ∈ narrowSizes := by
  unfold narrowSize?
  constructor
  · intro h
    split at h <;> cases h <;> decide
  · intro h
    simp only [narrowSizes, List.mem_cons, List.not_mem_nil, or_false, Prod.mk.injEq] at h
    rcases h with h | h | h | h | h | h | h | h <;> obtain ⟨rfl, rfl⟩ := h <;> rfl

/-- The number of slots that constants take together. -/
def slotCount : List PoolItem → Nat
  | [] => 0
  | item :: items => item.slots + slotCount items

/-- The constants are just as many as it takes to fill `count` slots, of which `filled` were filled
before: all of them together reach the count, and fewer would not. -/
def Fill (count filled : Nat) (items : List PoolItem) : Prop :=
  count ≤ filled + slotCount items ∧
    ∀ n < items.length, filled + slotCount (items.take n) < count

/-- A constant makes as many entries as it takes slots. -/
theorem length_entries (item : PoolItem) : item.entries.length = item.slots := by
  cases item with
  | _ => rfl

/-- A constant takes one slot or two. -/
theorem slots_pos_le (item : PoolItem) : 0 < item.slots ∧ item.slots ≤ 2 := by
  cases item with
  | _ => simp [slots]

/-- Constants make as many entries as they take slots. -/
theorem length_flatMap_entries (items : List PoolItem) :
    (items.flatMap entries).length = slotCount items := by
  induction items with
  | nil => rfl
  | cons item items ih =>
    rw [List.flatMap_cons, List.length_append, ih, length_entries, slotCount]

/-- The slots of constants and of others after them add up. -/
theorem slotCount_append (items others : List PoolItem) :
    slotCount (items ++ others) = slotCount items + slotCount others := by
  rw [← length_flatMap_entries, List.flatMap_append, List.length_append, length_flatMap_entries,
    length_flatMap_entries]

/-- No constants fill what is filled already. -/
theorem fill_nil {count filled : Nat} : Fill count filled [] ↔ count ≤ filled := by
  simp [Fill, slotCount]

/-- Constants fill what is not filled yet, and all but the first of them the rest of it. -/
theorem fill_cons {count filled : Nat} {item : PoolItem} {items : List PoolItem} :
    Fill count filled (item :: items) ↔
      filled < count ∧ Fill count (filled + item.slots) items := by
  unfold Fill
  rw [slotCount, ← Nat.add_assoc]
  constructor
  · rintro ⟨hreach, hshort⟩
    -- A beginning of the rest is a longer beginning of the whole.
    refine ⟨hshort 0 (Nat.succ_pos _), hreach, fun n hn => ?_⟩
    have h := hshort (n + 1) (Nat.succ_lt_succ hn)
    rw [List.take_succ_cons, slotCount, ← Nat.add_assoc] at h
    exact h
  · rintro ⟨hlt, hreach, hshort⟩
    refine ⟨hreach, fun n hn => ?_⟩
    cases n with
    | zero => exact hlt
    | succ n =>
      rw [List.take_succ_cons, slotCount, ← Nat.add_assoc]
      exact hshort n (Nat.lt_of_succ_lt_succ hn)

/-- The last of the constants that fill a pool starts below the declared size. -/
theorem Fill.last {count : Nat} {items : List PoolItem} (h : Fill count 1 items) :
    items = [] ∨ ∃ init last, items = init ++ [last] ∧ 1 + slotCount init < count ∧
      slotCount items = slotCount init + last.slots := by
  obtain rfl | ⟨init, last, rfl⟩ := items.eq_nil_or_concat
  · exact .inl rfl
  · rw [List.concat_eq_append] at h ⊢
    have hshort := h.2 init.length (by simp)
    rw [List.take_left] at hshort
    refine .inr ⟨init, last, rfl, hshort, ?_⟩
    rw [slotCount_append]
    rfl

/-- The constants that fill a pool take one slot more than was declared for them at most. -/
theorem Fill.slotCount_le {count : Nat} {items : List PoolItem} (h : Fill count 1 items) :
    slotCount items ≤ count := by
  obtain rfl | ⟨init, last, -, hshort, hsum⟩ := h.last
  · exact Nat.zero_le _
  · have hslots := last.slots_pos_le
    omega

/-- Among the constants of a pool with the largest count that can be declared, a long or a double
starts in the last slot. The second of its slots has the last index of 16 bits. -/
def Overruns (count : UInt16) (items : List PoolItem) : Prop :=
  count = 65535 ∧ ∃ before tag payload rest,
    items = before ++ wide tag payload :: rest ∧ 1 + slotCount before = 65534

/-- Constants that fill a pool leave an index for the next entry, unless they overrun it. -/
theorem Fill.not_overruns_iff {count : UInt16} {items : List PoolItem}
    (h : Fill count.toNat 1 items) : ¬Overruns count items ↔ 1 + slotCount items < 65536 := by
  constructor
  · intro hwithin
    have hcount := count.toNat_lt
    refine Nat.lt_of_not_le fun hfull => ?_
    obtain rfl | ⟨init, last, rfl, hshort, hsum⟩ := h.last
    · exact absurd hfull (by decide)
    · -- Only a second slot of the last constant can lie so far.
      have hslots := last.slots_pos_le
      have hmax : count.toNat = 65535 := by omega
      have htwo : last.slots = 2 := by omega
      refine hwithin ⟨UInt16.toNat_inj.1 hmax, ?_⟩
      cases last with
      | wide tag payload => exact ⟨init, tag, payload, [], rfl, by omega⟩
      | _ => cases htwo
  · rintro hlt ⟨-, before, tag, payload, rest, rfl, hbefore⟩
    rw [slotCount_append, slotCount, slots] at hlt
    omega

end PoolItem

namespace ConstantPool

/-- A pool has one slot more than the entries from which it is made. -/
theorem size_ofList (entries : List Constant) : (ofList entries).size = entries.length + 1 := by
  simp [ofList, size]

/-- Entries can be added as long as there is an index for them. -/
theorem pushAll_ofList {entries more : List Constant}
    (h : entries.length + more.length < 65536) :
    (ofList entries).pushAll more = .ok (ofList (entries ++ more)) := by
  induction more generalizing entries with
  | nil => rw [pushAll, List.append_nil]
  | cons entry more ih =>
    rw [List.length_cons] at h
    have hroom : (ofList entries).size < 65536 := by
      rw [size_ofList]
      omega
    have hpushed : (⟨(ofList entries).entries.push entry⟩ : ConstantPool) =
        ofList (entries ++ [entry]) := by
      simp [ofList]
    have hmore : (entries ++ [entry]).length + more.length < 65536 := by
      rw [List.length_append, List.length_singleton]
      omega
    rw [pushAll, push_of_lt hroom]
    dsimp only
    rw [hpushed, ih hmore, List.append_assoc]
    rfl

end ConstantPool

/-! ## The entries that constants make -/

/-- A constant makes some entries of the pool. -/
inductive PoolItem.Makes : PoolItem → List Constant → Prop where
  /-- A text. -/
  | utf8 (text : String) : Makes (.utf8 text) [.utf8 text]
  /-- A number. -/
  | integer (value : Int32) : Makes (.integer value) [.integer value]
  /-- A class. -/
  | classRef (name : UInt16) : Makes (.classRef name) [.classRef name]
  /-- A string literal. -/
  | string (text : UInt16) : Makes (.string text) [.string text]
  /-- A field. -/
  | fieldRef (owner member : UInt16) : Makes (.fieldRef owner member) [.fieldRef owner member]
  /-- A method. -/
  | methodRef (owner member : UInt16) : Makes (.methodRef owner member) [.methodRef owner member]
  /-- A name with a descriptor. -/
  | nameAndType (name descriptor : UInt16) :
    Makes (.nameAndType name descriptor) [.nameAndType name descriptor]
  /-- Of a constant that is not used the pool knows the tag. -/
  | narrow (tag : UInt8) (payload : List UInt8) : Makes (.narrow tag payload) [.unsupported tag]
  /-- After a long or a double a slot is left empty. -/
  | wide (tag : UInt8) (payload : List UInt8) :
    Makes (.wide tag payload) [.unsupported tag, .reserved]

/-- Constants make their entries one after another. -/
inductive PoolItem.MakeAll : List PoolItem → List Constant → Prop where
  /-- No constants. -/
  | nil : MakeAll [] []
  /-- One more before the others. -/
  | cons {item : PoolItem} {items : List PoolItem} {entries others : List Constant}
    (first : item.Makes entries) (rest : MakeAll items others) :
    MakeAll (item :: items) (entries ++ others)

/-- The pool has an empty slot 0, and after it the entries that the constants make. -/
def ConstantPool.MadeOf (pool : ConstantPool) (items : List PoolItem) : Prop :=
  ∃ entries, PoolItem.MakeAll items entries ∧ pool.entries.toList = .reserved :: entries

/-- The entries that the reader adds for a constant are those that it makes. -/
theorem PoolItem.makes_iff {item : PoolItem} {entries : List Constant} :
    item.Makes entries ↔ entries = item.entries := by
  constructor
  · rintro ⟨⟩ <;> rfl
  · rintro rfl
    cases item with
    | _ => constructor

/-- So it is with the entries of several constants. -/
theorem PoolItem.makeAll_iff {items : List PoolItem} {entries : List Constant} :
    MakeAll items entries ↔ entries = items.flatMap PoolItem.entries := by
  constructor
  · intro h
    induction h with
    | nil => rfl
    | cons first rest ih => rw [List.flatMap_cons, makes_iff.1 first, ih]
  · rintro rfl
    induction items with
    | nil => exact .nil
    | cons item items ih => exact .cons (makes_iff.2 rfl) ih

/-- Constants make one pool, and it is the one that the reader builds of their entries. -/
theorem ConstantPool.madeOf_iff {pool : ConstantPool} {items : List PoolItem} :
    pool.MadeOf items ↔ pool = .ofList (items.flatMap PoolItem.entries) := by
  obtain ⟨⟨entries⟩⟩ := pool
  simp only [MadeOf, PoolItem.makeAll_iff, exists_eq_left, ofList, ConstantPool.mk.injEq,
    Array.mk.injEq]

namespace ClassFile.Parser

open Reader

/-! ## One constant -/

/-- The texts that bytes are read as are those that are written with these bytes. -/
theorem fromUTF8?_eq_some {bytes : ByteArray} {text : String} :
    String.fromUTF8? bytes = some text ↔ text.toUTF8 = bytes := by
  unfold String.fromUTF8?
  constructor
  · intro h
    split at h
    · cases h
      rfl
    · cases h
  · rintro rfl
    exact dif_pos text.isValidUTF8

/-- Text constants are read exactly, after their tag. -/
theorem textItem_eq_ok {index : Nat} {input rest : List UInt8} {item : PoolItem} :
    textItem index input = .ok (item, rest) ↔
      ∃ text, item = .utf8 text ∧ item.WellFormed ∧ 1 :: input = item.bytes ++ rest := by
  rw [textItem]
  constructor
  · intro h
    obtain ⟨length, mid₁, -, rfl, h₁⟩ := u2_exact.of_bind h
    obtain ⟨raw, mid₂, hraw, rfl, h₂⟩ := (block_exact _).of_bind h₁
    obtain ⟨hlength, hlt⟩ := length_toUInt16 hraw
    cases htext : String.fromUTF8? ⟨raw.toArray⟩ with
    | none =>
      rw [htext] at h₂
      cases h₂
    | some text =>
      rw [htext] at h₂
      obtain ⟨rfl, rfl⟩ := pure_eq_ok.1 h₂
      have hdata : text.toUTF8.data.toList = raw := by rw [fromUTF8?_eq_some.1 htext]
      refine ⟨text, rfl, ?_, ?_⟩
      · rw [PoolItem.WellFormed, hdata]
        exact hlt
      · simp only [PoolItem.bytes, hdata, hlength, List.cons_append, List.append_assoc, id]
  · rintro ⟨text, rfl, hlen, hinput⟩
    have hblock := (toNat_length_toUInt16 hlen).symm
    -- The bytes of a text are read as that text and no other.
    have htext : String.fromUTF8? ⟨text.toUTF8.data.toList.toArray⟩ = some text :=
      fromUTF8?_eq_some.2 rfl
    simp only [PoolItem.bytes, List.cons_append, List.append_assoc] at hinput
    rw [(List.cons.inj hinput).2, u2_exact.bind_print _ trivial]
    refine ((block_exact _).bind_print _ hblock rest).trans ?_
    rw [htext]
    rfl

/-- A constant that is made of two indices is read exactly, after its tag. -/
theorem indexPair_eq_ok (make : UInt16 → UInt16 → PoolItem) {input rest : List UInt8}
    {item : PoolItem} :
    (do return make (← u2) (← u2) : Reader PoolItem) input = .ok (item, rest) ↔
      ∃ x y, make x y = item ∧ input = Printer.u2 x ++ Printer.u2 y ++ rest := by
  constructor
  · intro h
    obtain ⟨x, mid, -, rfl, hmid⟩ := u2_exact.of_bind h
    obtain ⟨y, -, rfl, rfl⟩ := (u2_exact.bind_pure_eq_ok (make x)).1 hmid
    exact ⟨x, y, rfl, (List.append_assoc ..).symm⟩
  · rintro ⟨x, y, rfl, rfl⟩
    rw [List.append_assoc, u2_exact.bind_print _ trivial, u2_exact.bind_print _ trivial]
    rfl

/-- What is read as a constant is one as printed. -/
theorem of_poolItem {index : Nat} {input rest : List UInt8} {item : PoolItem}
    (h : poolItem index input = .ok (item, rest)) :
    item.WellFormed ∧ input = item.bytes ++ rest := by
  obtain ⟨tag, mid, -, rfl, hmid⟩ := u1_exact.of_bind h
  clear h
  -- One case for each tag, in the order of the reader.
  split at hmid
  · obtain ⟨text, -, hitem, hinput⟩ := textItem_eq_ok.1 hmid
    exact ⟨hitem, hinput⟩
  · obtain ⟨w, -, rfl, rfl⟩ := (u4_exact.bind_pure_eq_ok _).1 hmid
    exact ⟨trivial, rfl⟩
  · obtain ⟨w, -, rfl, rfl⟩ := (u2_exact.bind_pure_eq_ok _).1 hmid
    exact ⟨trivial, rfl⟩
  · obtain ⟨w, -, rfl, rfl⟩ := (u2_exact.bind_pure_eq_ok _).1 hmid
    exact ⟨trivial, rfl⟩
  · obtain ⟨x, y, rfl, rfl⟩ := (indexPair_eq_ok _).1 hmid
    exact ⟨trivial, rfl⟩
  · obtain ⟨x, y, rfl, rfl⟩ := (indexPair_eq_ok _).1 hmid
    exact ⟨trivial, rfl⟩
  · obtain ⟨x, y, rfl, rfl⟩ := (indexPair_eq_ok _).1 hmid
    exact ⟨trivial, rfl⟩
  · obtain ⟨payload, hsize, rfl, rfl⟩ := ((block_exact _).bind_pure_eq_ok _).1 hmid
    exact ⟨⟨.inl rfl, hsize⟩, rfl⟩
  · obtain ⟨payload, hsize, rfl, rfl⟩ := ((block_exact _).bind_pure_eq_ok _).1 hmid
    exact ⟨⟨.inr rfl, hsize⟩, rfl⟩
  · cases htag : PoolItem.narrowSize? tag with
    | none =>
      rw [htag] at hmid
      cases hmid
    | some size =>
      rw [htag] at hmid
      obtain ⟨payload, hsize, rfl, rfl⟩ := ((block_exact _).bind_pure_eq_ok _).1 hmid
      rw [← hsize] at htag
      exact ⟨PoolItem.narrowSize?_eq_some_iff.1 htag, rfl⟩

/-- After the tag of a constant that is not used, as many bytes are taken as belong to the tag. -/
theorem poolItem_of_narrowSize? {index size : Nat} {tag : UInt8} {input : List UInt8}
    (h : PoolItem.narrowSize? tag = some size) :
    poolItem index (tag :: input) = (do return .narrow tag (← block size) : Reader _) input := by
  -- No tag of such a constant is one of the tags before it.
  unfold PoolItem.narrowSize? at h
  split at h <;> cases h <;> rfl

/-- Constants are read exactly. -/
theorem poolItem_exact (index : Nat) :
    Exact (poolItem index) PoolItem.bytes PoolItem.WellFormed := by
  intro input item rest
  refine ⟨of_poolItem, ?_⟩
  rintro ⟨hitem, rfl⟩
  cases item with
  | utf8 text => exact textItem_eq_ok.2 ⟨text, rfl, hitem, rfl⟩
  | integer value =>
    exact (u4_exact.bind_pure_eq_ok fun w => PoolItem.integer w.toInt32).2
      ⟨value.toUInt32, trivial, rfl, rfl⟩
  | classRef name => exact (u2_exact.bind_pure_eq_ok _).2 ⟨name, trivial, rfl, rfl⟩
  | string text => exact (u2_exact.bind_pure_eq_ok _).2 ⟨text, trivial, rfl, rfl⟩
  | fieldRef c n => exact (indexPair_eq_ok _).2 ⟨c, n, rfl, rfl⟩
  | methodRef c n => exact (indexPair_eq_ok _).2 ⟨c, n, rfl, rfl⟩
  | nameAndType n d => exact (indexPair_eq_ok _).2 ⟨n, d, rfl, rfl⟩
  | wide tag payload =>
    obtain ⟨rfl | rfl, hsize⟩ := hitem
    · exact ((block_exact _).bind_pure_eq_ok _).2 ⟨payload, hsize, rfl, rfl⟩
    · exact ((block_exact _).bind_pure_eq_ok _).2 ⟨payload, hsize, rfl, rfl⟩
  | narrow tag payload =>
    refine (poolItem_of_narrowSize? (PoolItem.narrowSize?_eq_some_iff.2 hitem)).trans ?_
    exact ((block_exact _).bind_pure_eq_ok _).2 ⟨payload, rfl, rfl, rfl⟩

/-! ## All constants -/

/-- The size of the pool that some constants make. -/
theorem size_ofList_flatMap (items : List PoolItem) :
    (ConstantPool.ofList (items.flatMap PoolItem.entries)).size =
      1 + PoolItem.slotCount items := by
  rw [ConstantPool.size_ofList, PoolItem.length_flatMap_entries, Nat.add_comm]

/-- The pool of some constants grows by the slots of a further one. -/
theorem size_ofList_append (items : List PoolItem) (item : PoolItem) :
    (ConstantPool.ofList ((items ++ [item]).flatMap PoolItem.entries)).size =
      (ConstantPool.ofList (items.flatMap PoolItem.entries)).size + item.slots := by
  rw [size_ofList_flatMap, size_ofList_flatMap, PoolItem.slotCount_append, ← Nat.add_assoc]
  rfl

/-- A further constant takes two slots at most, so it has room in a pool that leaves the last index
free. -/
theorem pushAll_entries {items : List PoolItem}
    (hlt : (ConstantPool.ofList (items.flatMap PoolItem.entries)).size < 65535) (item : PoolItem) :
    (ConstantPool.ofList (items.flatMap PoolItem.entries)).pushAll item.entries =
      .ok (.ofList ((items ++ [item]).flatMap PoolItem.entries)) := by
  have hslots := item.slots_pos_le
  have hroom : (items.flatMap PoolItem.entries).length + item.entries.length < 65536 := by
    rw [ConstantPool.size_ofList] at hlt
    rw [item.length_entries]
    omega
  rw [ConstantPool.pushAll_ofList hroom]
  simp

/-- To the constants that were `read`, and made the pool, come those at the start of the input, as
many as it takes to fill `count` slots, and they leave an index for the next entry; `r` is the pool
that all of them make, and all of them. -/
def Completes (count : Nat) (pool : ConstantPool) (read : List PoolItem)
    (input rest : List UInt8) (r : ConstantPool × List PoolItem) : Prop :=
  ∃ more, r = (.ofList ((read ++ more).flatMap PoolItem.entries), read ++ more) ∧
    (∀ item ∈ more, item.WellFormed) ∧ PoolItem.Fill count pool.size more ∧
    pool.size + PoolItem.slotCount more < 65536 ∧ input = more.flatMap PoolItem.bytes ++ rest

section Completion

variable {count : Nat} {pool : ConstantPool} {read : List PoolItem} {input rest : List UInt8}
  {r : ConstantPool × List PoolItem}

/-- A full pool is complete. -/
theorem completes_of_full (hpool : pool = .ofList (read.flatMap PoolItem.entries))
    (hfull : count ≤ pool.size) (hroom : pool.size < 65536) :
    (pure (pool, read) : Reader _) input = .ok (r, rest) ↔
      Completes count pool read input rest r := by
  rw [pure_eq_ok]
  constructor
  · rintro ⟨rfl, rfl⟩
    refine ⟨[], ?_, by simp, PoolItem.fill_nil.2 hfull, hroom, rfl⟩
    rw [List.append_nil, hpool]
  · rintro ⟨more, rfl, -, hfill, -, rfl⟩
    cases more with
    | nil =>
      rw [List.append_nil, hpool]
      exact ⟨rfl, rfl⟩
    | cons item more =>
      -- One more constant would only be read if there were room.
      have hlt := (PoolItem.fill_cons.1 hfill).1
      omega

/-- A pool with no index for the next entry cannot be completed. -/
theorem not_completes_of_overrun (hfull : 65536 ≤ pool.size) :
    ¬Completes count pool read input rest r := by
  rintro ⟨more, -, -, -, hroom, -⟩
  omega

/-- A pool with room is completed by a constant and by what completes the pool with it. -/
theorem completes_of_room {pool' : PoolItem → ConstantPool} (hlt : pool.size < count)
    (hpool' : ∀ item, (pool' item).size = pool.size + item.slots) :
    Completes count pool read input rest r ↔
      ∃ item mid, item.WellFormed ∧ input = item.bytes ++ mid ∧
        Completes count (pool' item) (read ++ [item]) mid rest r := by
  constructor
  · rintro ⟨more, rfl, hmore, hfill, hroom, rfl⟩
    cases more with
    | nil =>
      have hfull := PoolItem.fill_nil.1 hfill
      omega
    | cons item more =>
      obtain ⟨hitem, hmore⟩ := List.forall_mem_cons.1 hmore
      obtain ⟨-, hfill⟩ := PoolItem.fill_cons.1 hfill
      rw [PoolItem.slotCount, ← Nat.add_assoc] at hroom
      rw [← hpool'] at hfill hroom
      exact ⟨item, more.flatMap PoolItem.bytes ++ rest, hitem, by simp, more, by simp, hmore,
        hfill, hroom, rfl⟩
  · rintro ⟨item, mid, hitem, rfl, more, rfl, hmore, hfill, hroom, rfl⟩
    rw [hpool'] at hfill hroom
    exact ⟨item :: more, by simp, List.forall_mem_cons.2 ⟨hitem, hmore⟩,
      PoolItem.fill_cons.2 ⟨hlt, hfill⟩, by rw [PoolItem.slotCount, ← Nat.add_assoc]; exact hroom,
      by simp⟩

end Completion

/-- The index goes up by the slots that a constant takes, in 16 bits. -/
theorem toNat_add_length_entries (index : UInt16) (item : PoolItem) :
    (index + item.entries.length.toUInt16).toNat = (index.toNat + item.slots) % 65536 := by
  rw [item.length_entries, UInt16.toNat_add, Nat.toUInt16_eq, UInt16.toNat_ofNat', Nat.add_mod_mod]

/-- An index that leaves 16 bits is 0 again, and so below a count that it was below. -/
theorem add_length_entries_lt {count index : UInt16} (hlt : index < count) (item : PoolItem)
    (hwrap : 65536 ≤ index.toNat + item.slots) :
    index + item.entries.length.toUInt16 < count := by
  have hcount := count.toNat_lt
  have hslots := item.slots_pos_le
  rw [UInt16.lt_iff_toNat_lt] at hlt ⊢
  rw [toNat_add_length_entries]
  omega

/-- With no room for another entry, but an index below the count, nothing is read. -/
theorem poolItems_of_overrun {count index : UInt16} {pool : ConstantPool}
    (hlt : index < count) (hfull : 65536 ≤ pool.size) (rounds : Nat) (read : Array PoolItem)
    (input : List UInt8) (r : (ConstantPool × List PoolItem) × List UInt8) :
    poolItems count (rounds + 1) index pool read input ≠ .ok r := by
  have hpush (item : PoolItem) :
      pool.pushAll item.entries = .error ⟨pool.size⟩ := by
    have hrefused (entry : Constant) : pool.push entry = .error ⟨pool.size⟩ :=
      if_neg (Nat.not_lt.2 hfull)
    cases item with
    | _ => simp only [PoolItem.entries, ConstantPool.pushAll, hrefused]
  intro h
  rw [poolItems, if_pos hlt] at h
  obtain ⟨item, mid, -, -, hmid⟩ := (poolItem_exact _).of_bind h
  rw [hpush] at hmid
  cases hmid

/-- Constants are read one after another, until they fill the slots that were declared. The pool
that is built of them is the one that they make, and the index stays at its end as long as it has 16
bits. -/
theorem poolItems_eq_ok {count index : UInt16} {rounds : Nat} {read : Array PoolItem}
    {pool : ConstantPool} (hindex : index.toNat = pool.size)
    (hpool : pool = .ofList (read.toList.flatMap PoolItem.entries))
    (hrounds : count.toNat < pool.size + rounds) {input rest : List UInt8}
    {r : ConstantPool × List PoolItem} :
    poolItems count rounds index pool read input = .ok (r, rest) ↔
      Completes count.toNat pool read.toList input rest r := by
  have hcount := count.toNat_lt
  -- The rounds are enough because every constant fills a slot; they run out with a full pool.
  induction rounds generalizing index read pool input with
  | zero =>
    rw [poolItems]
    exact completes_of_full hpool (by omega) (hindex ▸ index.toNat_lt)
  | succ rounds ih =>
    rw [poolItems]
    split
    · next hbelow =>
      have hlt := UInt16.lt_iff_toNat_lt.1 hbelow
      rw [hindex] at hlt
      have hpush (item : PoolItem) : pool.pushAll item.entries =
          .ok (.ofList ((read.toList ++ [item]).flatMap PoolItem.entries)) := by
        rw [hpool] at hlt ⊢
        exact pushAll_entries (by omega) item
      have hsize (item : PoolItem) :
          (ConstantPool.ofList ((read.toList ++ [item]).flatMap PoolItem.entries)).size =
            pool.size + item.slots := by
        rw [hpool]
        exact size_ofList_append _ item
      have hmore (item : PoolItem) (mid : List UInt8) :
          poolItems count rounds (index + item.entries.length.toUInt16)
              (.ofList ((read.toList ++ [item]).flatMap PoolItem.entries)) (read.push item) mid =
                .ok (r, rest) ↔
            Completes count.toNat (.ofList ((read.toList ++ [item]).flatMap PoolItem.entries))
              (read.toList ++ [item]) mid rest r := by
        have hslots := item.slots_pos_le
        have hsize' := hsize item
        by_cases hroom : pool.size + item.slots < 65536
        · have hnext := toNat_add_length_entries index item
          rw [hindex, Nat.mod_eq_of_lt hroom, ← hsize] at hnext
          have hpool' : ConstantPool.ofList ((read.toList ++ [item]).flatMap PoolItem.entries) =
              .ofList ((read.push item).toList.flatMap PoolItem.entries) := by
            rw [Array.toList_push]
          simpa only [Array.toList_push] using ih hnext hpool' (by omega)
        · -- The constant takes the last index. The next is 0, and there is a round left to see it.
          obtain ⟨rounds, rfl⟩ : ∃ n, rounds = n + 1 := ⟨rounds - 1, by omega⟩
          have hbelow' := add_length_entries_lt hbelow item (by omega)
          exact iff_of_false (poolItems_of_overrun hbelow' (by omega) _ _ _ _)
            (not_completes_of_overrun (by omega))
      rw [hindex, completes_of_room hlt hsize]
      constructor
      · intro h
        obtain ⟨item, mid, hitem, rfl, hmid⟩ := (poolItem_exact _).of_bind h
        rw [hpush] at hmid
        exact ⟨item, mid, hitem, rfl, (hmore item mid).1 hmid⟩
      · rintro ⟨item, mid, hitem, rfl, hmid⟩
        rw [(poolItem_exact _).bind_print _ hitem, hpush]
        exact (hmore item mid).2 hmid
    · next hbelow =>
      rw [UInt16.lt_iff_toNat_lt, hindex] at hbelow
      exact completes_of_full hpool (Nat.not_lt.1 hbelow) (hindex ▸ index.toNat_lt)

/-- The constants of a pool are read exactly, and the pool that is built is the one that they
make. -/
theorem constantPool_exact (count : UInt16) :
    Exact (constantPool count) (fun r => r.2.flatMap PoolItem.bytes) fun r =>
      r.1 = .ofList (r.2.flatMap PoolItem.entries) ∧ (∀ item ∈ r.2, item.WellFormed) ∧
        PoolItem.Fill count.toNat 1 r.2 ∧ ¬PoolItem.Overruns count r.2 := by
  rintro input ⟨pool, items⟩ rest
  have hempty : ConstantPool.empty =
      .ofList ((#[] : Array PoolItem).toList.flatMap PoolItem.entries) := rfl
  have hrounds : count.toNat < ConstantPool.empty.size + count.toNat :=
    Nat.lt_add_of_pos_left Nat.one_pos
  rw [constantPool, poolItems_eq_ok rfl hempty hrounds]
  constructor
  · rintro ⟨more, hr, hmore, hfill, hroom, rfl⟩
    cases hr
    exact ⟨⟨rfl, hmore, hfill, hfill.not_overruns_iff.2 hroom⟩, rfl⟩
  · rintro ⟨⟨hpool, hitems, hfill, hwithin⟩, rfl⟩
    exact ⟨items, Prod.ext hpool rfl, hitems, hfill, hfill.not_overruns_iff.1 hwithin, rfl⟩

end ClassFile.Parser

end TieredJvm
