import TieredJvm.ClassFile.Parser
import TieredJvm.ClassFile.Printer

/-!
# Readers that accept exactly what a printer writes

A reader is exact for a printer if it reads a value, and leaves a rest, if and only if the input is
the value as printed, followed by the rest (`Reader.Exact`). Of the values that have no printed
form of their own, such as a list too long for its count, a predicate says that they are not meant.

The primitives are exact, and so are lists with their length before them, if what they hold is read
exactly. For readers in sequence there is one lemma in each direction: `Reader.Exact.of_bind` takes
apart an input that was read, and `Reader.Exact.bind_print` reads one that was printed. Where the
primitives fail, there are not enough bytes (`Reader.OnlyTruncates`).
-/

namespace TieredJvm

namespace Reader

variable {α β : Type}

/-! ## Readers in sequence -/

/-- Two readers in sequence read what the second reads of what the first leaves. -/
theorem bind_eq_ok {r : Reader α} {k : α → Reader β} {input rest : List UInt8} {b : β} :
    (r >>= k) input = .ok (b, rest) ↔
      ∃ a mid, r input = .ok (a, mid) ∧ k a mid = .ok (b, rest) := by
  show (r input >>= fun (a, mid) => k a mid) = .ok (b, rest) ↔ _
  constructor
  · intro h
    cases hr : r input with
    | error e =>
      rw [hr] at h
      cases h
    | ok p =>
      rw [hr] at h
      exact ⟨p.1, p.2, rfl, h⟩
  · rintro ⟨a, mid, hr, hk⟩
    rw [hr]
    exact hk

/-- What the first of two readers in sequence leaves is read by the second. -/
theorem bind_of_eq_ok {r : Reader α} {input mid : List UInt8} {a : α} (h : r input = .ok (a, mid))
    (k : α → Reader β) : (r >>= k) input = k a mid := by
  show (r input >>= fun (a, mid) => k a mid) = k a mid
  rw [h]
  rfl

/-- Two readers in sequence fail as the first does, or as the second does on what the first
leaves. -/
theorem bind_eq_error {r : Reader α} {k : α → Reader β} {input : List UInt8} {e : LoadError} :
    (r >>= k) input = .error e ↔
      r input = .error e ∨ ∃ a mid, r input = .ok (a, mid) ∧ k a mid = .error e := by
  show (r input >>= fun (a, mid) => k a mid) = .error e ↔ _
  cases r input with
  | error e' => simp [bind, Except.bind]
  | ok p =>
    constructor
    · intro h
      exact .inr ⟨p.1, p.2, rfl, h⟩
    · rintro (h | ⟨a, mid, h, hk⟩)
      · cases h
      · cases h
        exact hk

/-- A reader that takes nothing leaves all. -/
theorem pure_eq_ok {a b : α} {input rest : List UInt8} :
    (pure a : Reader α) input = .ok (b, rest) ↔ a = b ∧ input = rest := by
  show Except.ok (a, input) = .ok (b, rest) ↔ _
  rw [Except.ok.injEq, Prod.mk.injEq]

/-- What `r` reads is what `print` writes, for the values that are `Valid`. -/
def Exact (r : Reader α) (print : α → List UInt8) (Valid : α → Prop) : Prop :=
  ∀ input a rest, r input = .ok (a, rest) ↔ Valid a ∧ input = print a ++ rest

namespace Exact

variable {r : Reader α} {print : α → List UInt8} {Valid : α → Prop}

/-- What was read in sequence starts with a printed value. -/
theorem of_bind (hr : Exact r print Valid) {k : α → Reader β} {input rest : List UInt8} {b : β}
    (h : (r >>= k) input = .ok (b, rest)) :
    ∃ a mid, Valid a ∧ input = print a ++ mid ∧ k a mid = .ok (b, rest) := by
  obtain ⟨a, mid, ha, hk⟩ := bind_eq_ok.1 h
  obtain ⟨hvalid, hinput⟩ := (hr input a mid).1 ha
  exact ⟨a, mid, hvalid, hinput, hk⟩

/-- A printed value is read, and the next reader starts after it. -/
theorem bind_print (hr : Exact r print Valid) (k : α → Reader β) {a : α} (ha : Valid a)
    (rest : List UInt8) : (r >>= k) (print a ++ rest) = k a rest := by
  show (r (print a ++ rest) >>= fun (a, mid) => k a mid) = k a rest
  rw [(hr _ a rest).2 ⟨ha, rfl⟩]
  rfl

/-- What is made of a value that was read is made of a printed value. -/
theorem bind_pure_eq_ok (hr : Exact r print Valid) (make : α → β) {input rest : List UInt8}
    {b : β} :
    (r >>= fun a => pure (make a)) input = .ok (b, rest) ↔
      ∃ a, Valid a ∧ make a = b ∧ input = print a ++ rest := by
  constructor
  · intro h
    obtain ⟨a, mid, ha, rfl, hmid⟩ := hr.of_bind h
    obtain ⟨rfl, rfl⟩ := pure_eq_ok.1 hmid
    exact ⟨a, ha, rfl, rfl⟩
  · rintro ⟨a, ha, rfl, rfl⟩
    rw [hr.bind_print _ ha]
    rfl

end Exact

/-! ## Numbers -/

/-- A bitwise or of a multiple of a power of two with something below that power is a sum. -/
theorem or_eq_add {k x y : Nat} (hk : k.isPowerOfTwo) (hx : x % k = 0) (hy : y < k) :
    x ||| y = x + y := by
  obtain ⟨i, rfl⟩ := hk
  obtain ⟨z, rfl⟩ := Nat.dvd_of_mod_eq_zero hx
  exact (Nat.two_pow_add_eq_or_of_lt hy z).symm

/-- The number that two bytes stand for. -/
theorem toNat_u2 (a b : UInt8) :
    (a.toUInt16 <<< 8 ||| b.toUInt16).toNat = a.toNat * 256 + b.toNat := by
  have ha := a.toNat_lt
  have hb := b.toNat_lt
  have hshift : (a.toUInt16 <<< 8).toNat = a.toNat * 256 := by
    rw [UInt16.toNat_shiftLeft, UInt8.toNat_toUInt16, Nat.shiftLeft_eq]
    show a.toNat * 256 % 65536 = a.toNat * 256
    omega
  rw [UInt16.toNat_or, UInt8.toNat_toUInt16, hshift]
  exact or_eq_add ⟨8, rfl⟩ (by omega) hb

/-- A byte, shifted within a number of four bytes, keeps all its bits. -/
theorem toNat_shiftLeft_byte (x : UInt8) {i : UInt32} (hi : i.toNat ≤ 24) :
    (x.toUInt32 <<< i).toNat = x.toNat <<< i.toNat := by
  have hx := x.toNat_lt
  have hlt : x.toNat * 2 ^ i.toNat < 2 ^ 32 :=
    calc x.toNat * 2 ^ i.toNat ≤ x.toNat * 2 ^ 24 :=
          Nat.mul_le_mul_left _ (Nat.pow_le_pow_right (by decide) hi)
      _ < 2 ^ 32 := by omega
  -- Neither the number nor the distance is reduced.
  have hmod : i.toNat % 32 = i.toNat := by omega
  rw [UInt32.toNat_shiftLeft, UInt8.toNat_toUInt32, hmod, Nat.shiftLeft_eq, Nat.mod_eq_of_lt hlt]

/-- The number that four bytes stand for. -/
theorem toNat_u4 (a b c d : UInt8) :
    (a.toUInt32 <<< 24 ||| b.toUInt32 <<< 16 ||| c.toUInt32 <<< 8 ||| d.toUInt32).toNat =
      a.toNat * 16777216 + b.toNat * 65536 + c.toNat * 256 + d.toNat := by
  have hb := b.toNat_lt
  have hc := c.toNat_lt
  have hd := d.toNat_lt
  have ha24 : (a.toUInt32 <<< 24).toNat = a.toNat * 16777216 :=
    (toNat_shiftLeft_byte a (by decide)).trans (Nat.shiftLeft_eq ..)
  have hb16 : (b.toUInt32 <<< 16).toNat = b.toNat * 65536 :=
    (toNat_shiftLeft_byte b (by decide)).trans (Nat.shiftLeft_eq ..)
  have hc8 : (c.toUInt32 <<< 8).toNat = c.toNat * 256 :=
    (toNat_shiftLeft_byte c (by decide)).trans (Nat.shiftLeft_eq ..)
  -- Each byte lies below the bits that are already there, so every `|||` is a sum.
  have hab : a.toNat * 16777216 ||| b.toNat * 65536 = a.toNat * 16777216 + b.toNat * 65536 :=
    or_eq_add ⟨24, rfl⟩ (by omega) (by omega)
  have habc : a.toNat * 16777216 + b.toNat * 65536 ||| c.toNat * 256 =
      a.toNat * 16777216 + b.toNat * 65536 + c.toNat * 256 :=
    or_eq_add ⟨16, rfl⟩ (by omega) (by omega)
  rw [UInt32.toNat_or, UInt32.toNat_or, UInt32.toNat_or, UInt8.toNat_toUInt32, ha24, hb16, hc8,
    hab, habc]
  exact or_eq_add ⟨8, rfl⟩ (by omega) hd

/-- A byte is read as it is. -/
theorem u1_exact : Exact u1 (fun b => [b]) fun _ => True := by
  intro input a rest
  cases input with
  | nil => simp [u1]
  | cons b input => simp [u1]

/-- Numbers of two bytes are read exactly. -/
theorem u2_exact : Exact u2 Printer.u2 fun _ => True := by
  intro input w rest
  have hw := w.toNat_lt
  have hbyte8 (w : UInt16) : (w >>> 8).toUInt8.toNat = w.toNat / 256 % 256 := by
    rw [UInt16.toNat_toUInt8, UInt16.toNat_shiftRight, Nat.shiftRight_eq_div_pow]
    rfl
  constructor
  · intro h
    match input, h with
    | a :: b :: input, h =>
      have ha := a.toNat_lt
      have hb := b.toNat_lt
      obtain ⟨hword, rfl⟩ := Prod.mk.inj (Except.ok.inj h)
      have hnat := toNat_u2 a b
      rw [hword] at hnat
      have h8 : (w >>> 8).toUInt8 = a := UInt8.toNat_inj.1 (by rw [hbyte8, hnat]; omega)
      have h0 : w.toUInt8 = b := UInt8.toNat_inj.1 (by rw [UInt16.toNat_toUInt8, hnat]; omega)
      refine ⟨trivial, ?_⟩
      rw [Printer.u2, h8, h0]
      rfl
  · rintro ⟨-, rfl⟩
    show Except.ok (_, rest) = Except.ok (w, rest)
    congr 2
    apply UInt16.toNat_inj.1
    rw [toNat_u2, hbyte8, UInt16.toNat_toUInt8]
    omega

/-- The byte of a number that starts at the bit `i`. -/
theorem toNat_byte (w i : UInt32) (hi : i.toNat < 32) :
    (w >>> i).toUInt8.toNat = (w.toNat >>> i.toNat) % 256 := by
  rw [UInt32.toNat_toUInt8, UInt32.toNat_shiftRight, Nat.mod_eq_of_lt hi]

/-- Numbers of four bytes are read exactly. -/
theorem u4_exact : Exact u4 Printer.u4 fun _ => True := by
  intro input w rest
  have hw := w.toNat_lt
  have hbyte24 (w : UInt32) : (w >>> 24).toUInt8.toNat = w.toNat / 16777216 % 256 := by
    rw [toNat_byte w 24 (by decide), Nat.shiftRight_eq_div_pow]
    rfl
  have hbyte16 (w : UInt32) : (w >>> 16).toUInt8.toNat = w.toNat / 65536 % 256 := by
    rw [toNat_byte w 16 (by decide), Nat.shiftRight_eq_div_pow]
    rfl
  have hbyte8 (w : UInt32) : (w >>> 8).toUInt8.toNat = w.toNat / 256 % 256 := by
    rw [toNat_byte w 8 (by decide), Nat.shiftRight_eq_div_pow]
    rfl
  constructor
  · intro h
    match input, h with
    | a :: b :: c :: d :: input, h =>
      have ha := a.toNat_lt
      have hb := b.toNat_lt
      have hc := c.toNat_lt
      have hd := d.toNat_lt
      obtain ⟨hword, rfl⟩ := Prod.mk.inj (Except.ok.inj h)
      have hnat := toNat_u4 a b c d
      rw [hword] at hnat
      have h24 : (w >>> 24).toUInt8 = a := UInt8.toNat_inj.1 (by rw [hbyte24, hnat]; omega)
      have h16 : (w >>> 16).toUInt8 = b := UInt8.toNat_inj.1 (by rw [hbyte16, hnat]; omega)
      have h8 : (w >>> 8).toUInt8 = c := UInt8.toNat_inj.1 (by rw [hbyte8, hnat]; omega)
      have h0 : w.toUInt8 = d := UInt8.toNat_inj.1 (by rw [UInt32.toNat_toUInt8, hnat]; omega)
      refine ⟨trivial, ?_⟩
      rw [Printer.u4, h24, h16, h8, h0]
      rfl
  · rintro ⟨-, rfl⟩
    show Except.ok (_, rest) = Except.ok (w, rest)
    congr 2
    apply UInt32.toNat_inj.1
    rw [toNat_u4, hbyte24, hbyte16, hbyte8, UInt32.toNat_toUInt8]
    omega

/-! ## Blocks and lists -/

/-- A block of a given length is read as it is. -/
theorem block_exact (n : Nat) : Exact (block n) id (·.length = n) := by
  intro input bytes rest
  simp only [block]
  constructor
  · intro h
    split at h
    · next hlen =>
      obtain ⟨rfl, rfl⟩ := Prod.mk.inj (Except.ok.inj h)
      exact ⟨hlen, (List.take_append_drop n input).symm⟩
    · cases h
  · rintro ⟨rfl, rfl⟩
    rw [id, List.take_left, List.drop_left, if_pos rfl]

/-- A list can be written with its length in two bytes before it, and its members can be written. -/
def Counted (Valid : α → Prop) (items : List α) : Prop :=
  items.length < UInt16.size ∧ ∀ a ∈ items, Valid a

/-- A list with its length in two bytes before it. -/
def counted (r : Reader α) : Reader (List α) := do
  let count ← u2
  times count.toNat r

/-- A block with its length in four bytes before it. -/
def sizedBlock : Reader (List UInt8) := do
  let length ← u4
  block length.toNat

/-- A list that is read at once and one that is read by its count and then by its members are the
same. -/
theorem counted_bind (r : Reader α) (k : List α → Reader β) :
    (do
      let count ← u2
      let items ← times count.toNat r
      k items) = counted r >>= k :=
  (bind_assoc ..).symm

/-- A block that is read at once and one that is read by its length and then by its contents are
the same. -/
theorem sizedBlock_bind (k : List UInt8 → Reader β) :
    (do
      let length ← u4
      let bytes ← block length.toNat
      k bytes) = sizedBlock >>= k :=
  (bind_assoc ..).symm

section Lists

variable {r : Reader α} {print : α → List UInt8} {Valid : α → Prop}

/-- What is read over and over is one printed value after another. -/
theorem Exact.timesFrom (hr : Exact r print Valid) (n : Nat) (read : Array α)
    (input : List UInt8) (items : List α) (rest : List UInt8) :
    Reader.timesFrom r n read input = .ok (items, rest) ↔
      ∃ more, items = read.toList ++ more ∧ more.length = n ∧ (∀ a ∈ more, Valid a) ∧
        input = more.flatMap print ++ rest := by
  -- What was read before stands in front, so the induction is over all such beginnings.
  induction n generalizing read input with
  | zero =>
    rw [Reader.timesFrom, pure_eq_ok]
    constructor
    · rintro ⟨rfl, rfl⟩
      exact ⟨[], by simp⟩
    · rintro ⟨more, rfl, hlen, -, rfl⟩
      rw [List.length_eq_zero_iff.1 hlen]
      simp
  | succ n ih =>
    rw [Reader.timesFrom]
    constructor
    · intro h
      obtain ⟨a, mid, ha, rfl, hmid⟩ := hr.of_bind h
      obtain ⟨more, rfl, rfl, hmore, rfl⟩ := (ih _ _).1 hmid
      refine ⟨a :: more, by simp, rfl, ?_, by simp⟩
      exact List.forall_mem_cons.2 ⟨ha, hmore⟩
    · rintro ⟨more, rfl, hlen, hmore, rfl⟩
      -- There is a first value to read, because one more is asked for.
      match more, hlen, hmore with
      | a :: more, hlen, hmore =>
        obtain ⟨ha, hmore⟩ := List.forall_mem_cons.1 hmore
        rw [List.flatMap_cons, List.append_assoc, hr.bind_print _ ha]
        exact (ih _ _).2 ⟨more, by simp, Nat.succ.inj hlen, hmore, rfl⟩

/-- What is read a number of times is so many printed values. -/
theorem Exact.times (hr : Exact r print Valid) (n : Nat) :
    Exact (Reader.times n r) (·.flatMap print) fun items =>
      items.length = n ∧ ∀ a ∈ items, Valid a := by
  intro input items rest
  rw [Reader.times, hr.timesFrom]
  constructor
  · rintro ⟨more, rfl, hlen, hmore, hinput⟩
    exact ⟨⟨hlen, hmore⟩, hinput⟩
  · rintro ⟨⟨hlen, hitems⟩, hinput⟩
    exact ⟨items, rfl, hlen, hitems, hinput⟩

/-- Of two printed lists with which some bytes start, the beginnings of the same length are equal.
-/
theorem Exact.take_eq_take (hr : Exact r print Valid) {items others : List α}
    (hitems : ∀ a ∈ items, Valid a) (hothers : ∀ a ∈ others, Valid a) {rest rest' : List UInt8}
    (h : items.flatMap print ++ rest = others.flatMap print ++ rest') {n : Nat}
    (hn : n ≤ items.length) (hn' : n ≤ others.length) : items.take n = others.take n := by
  have hread {items : List α} (hitems : ∀ a ∈ items, Valid a) (hn : n ≤ items.length)
      (rest : List UInt8) : Reader.times n r (items.flatMap print ++ rest) =
        .ok (items.take n, (items.drop n).flatMap print ++ rest) := by
    refine (hr.times n _ _ _).2 ⟨⟨List.length_take_of_le hn, fun a ha =>
      hitems a (List.mem_of_mem_take ha)⟩, ?_⟩
    rw [← List.append_assoc, ← List.flatMap_append, List.take_append_drop]
  have hsame := hread hitems hn rest
  rw [h, hread hothers hn' rest'] at hsame
  exact (congrArg Prod.fst (Except.ok.inj hsame)).symm

/-- The length of a list that is not too long is had back from two bytes. -/
theorem toNat_length_toUInt16 {items : List α} (h : items.length < UInt16.size) :
    items.length.toUInt16.toNat = items.length := by
  rw [Nat.toUInt16_eq]
  exact UInt16.toNat_ofNat_of_lt' h

/-- The length of a list that is not too long is had back from four bytes. -/
theorem toNat_length_toUInt32 {items : List α} (h : items.length < UInt32.size) :
    items.length.toUInt32.toNat = items.length := by
  rw [Nat.toUInt32_eq]
  exact UInt32.toNat_ofNat_of_lt' h

/-- A list that is as long as two bytes say is not too long for two bytes. -/
theorem length_toUInt16 {items : List α} {count : UInt16} (h : items.length = count.toNat) :
    items.length.toUInt16 = count ∧ items.length < UInt16.size := by
  have hlt := count.toNat_lt
  rw [h, Nat.toUInt16_eq, UInt16.ofNat_toNat]
  exact ⟨rfl, hlt⟩

/-- A list that is as long as four bytes say is not too long for four bytes. -/
theorem length_toUInt32 {items : List α} {length : UInt32} (h : items.length = length.toNat) :
    items.length.toUInt32 = length ∧ items.length < UInt32.size := by
  have hlt := length.toNat_lt
  rw [h, Nat.toUInt32_eq, UInt32.ofNat_toNat]
  exact ⟨rfl, hlt⟩

/-- Lists with their length before them are read exactly. -/
theorem Exact.counted (hr : Exact r print Valid) :
    Exact (Reader.counted r) (Printer.counted print) (Counted Valid) := by
  intro input items rest
  rw [Reader.counted]
  constructor
  · intro h
    obtain ⟨count, mid, -, rfl, hmid⟩ := u2_exact.of_bind h
    obtain ⟨⟨hlen, hitems⟩, rfl⟩ := (hr.times _ _ _ _).1 hmid
    -- The count that was read is the one that is printed.
    obtain ⟨hcount, hlt⟩ := length_toUInt16 hlen
    refine ⟨⟨hlt, hitems⟩, ?_⟩
    rw [Printer.counted, hcount, List.append_assoc]
  · rintro ⟨⟨hlen, hitems⟩, rfl⟩
    rw [Printer.counted, List.append_assoc, u2_exact.bind_print _ trivial]
    exact (hr.times _ _ _ _).2 ⟨⟨(toNat_length_toUInt16 hlen).symm, hitems⟩, rfl⟩

/-- Blocks with their length before them are read exactly. -/
theorem sizedBlock_exact :
    Exact sizedBlock (fun bytes => Printer.u4 bytes.length.toUInt32 ++ bytes)
      (·.length < UInt32.size) := by
  intro input bytes rest
  rw [sizedBlock]
  constructor
  · intro h
    obtain ⟨length, mid, -, rfl, hmid⟩ := u4_exact.of_bind h
    obtain ⟨hlen, rfl⟩ := (block_exact _ _ _ _).1 hmid
    obtain ⟨hlength, hlt⟩ := length_toUInt32 hlen
    refine ⟨hlt, ?_⟩
    dsimp only
    rw [hlength, List.append_assoc]
    rfl
  · rintro ⟨hlen, rfl⟩
    rw [List.append_assoc, u4_exact.bind_print _ trivial]
    exact (block_exact _ _ _ _).2 ⟨(toNat_length_toUInt32 hlen).symm, rfl⟩

/-- A printed block is read, and the next reader starts after it. -/
theorem sizedBlock_bind_print (k : List UInt8 → Reader β) {bytes : List UInt8}
    (h : bytes.length < UInt32.size) (rest : List UInt8) :
    (sizedBlock >>= k) (Printer.u4 bytes.length.toUInt32 ++ (bytes ++ rest)) = k bytes rest := by
  rw [← List.append_assoc]
  exact sizedBlock_exact.bind_print k h rest

end Lists

/-! ## Running out of bytes -/

/-- A reader that fails only where the bytes end. -/
def OnlyTruncates (r : Reader α) : Prop :=
  ∀ input e, r input = .error e → e = .truncated

/-- Numbers of two bytes are refused only where the bytes end. -/
theorem u2_onlyTruncates : OnlyTruncates u2 := by
  intro input e h
  match input, h with
  | [], h | [_], h =>
    cases h
    rfl

/-- Numbers of four bytes are refused only where the bytes end. -/
theorem u4_onlyTruncates : OnlyTruncates u4 := by
  intro input e h
  match input, h with
  | [], h | [_], h | [_, _], h | [_, _, _], h =>
    cases h
    rfl

/-- Blocks are refused only where the bytes end. -/
theorem block_onlyTruncates (n : Nat) : OnlyTruncates (block n) := by
  intro input e h
  simp only [block] at h
  split at h
  · cases h
  · cases h
    rfl

/-- So is what is made of a value that is refused only there. -/
theorem OnlyTruncates.bind_pure {r : Reader α} (hr : OnlyTruncates r) (make : α → β) :
    OnlyTruncates (r >>= fun a => pure (make a)) := by
  intro input e h
  obtain h | ⟨a, mid, -, h⟩ := bind_eq_error.1 h
  · exact hr input e h
  · cases h

/-- So is what is read after it, if that is refused only there. -/
theorem OnlyTruncates.bind {r : Reader α} {k : α → Reader β} (hr : OnlyTruncates r)
    (hk : ∀ a, OnlyTruncates (k a)) : OnlyTruncates (r >>= k) := by
  intro input e h
  obtain h | ⟨a, mid, -, h⟩ := bind_eq_error.1 h
  · exact hr input e h
  · exact hk a mid e h

end Reader

end TieredJvm
