import Mathlib.Data.List.Forall2
import TieredJvm.ClassFile.Loading
import TieredJvm.Proofs.Program.Table
import TieredJvm.Table

/-!
# How a table of methods is built

A class file becomes a program in two passes over its methods. The first reads the descriptors, and
stops at the first that is malformed. The second gives each method its number, under its key, and
stops at the first key that has a number already. So a malformed descriptor comes before a repeated
key, wherever the two stand (`Program.table_construction`).

The second pass writes into an index of the methods that it has passed (`indexFrom`). What it keeps
is `Numbers`: a key has a number exactly if the method with that number has the key. One number is
written under a key that had none, so the next method is the only one to have it (`Numbers.set`);
where the key had a number, it is the first key to be repeated (`Numbers.indexFrom_cases`).
-/

namespace TieredJvm

/-! ## The first repeat -/

section FirstRepeat

variable {α : Type} [DecidableEq α] {seen before items rest : List α} {a : α}

/-- Different items that were not seen are passed, and are seen from then on. -/
theorem firstRepeat?_append (hnodup : before.Nodup) (hnew : ∀ b ∈ before, b ∉ seen) :
    firstRepeat? seen (before ++ rest) = firstRepeat? (before.reverse ++ seen) rest := by
  induction before generalizing seen with
  | nil => rfl
  | cons b before ih =>
    obtain ⟨hb, hnodup⟩ := List.nodup_cons.1 hnodup
    obtain ⟨hseen, hnew⟩ := List.forall_mem_cons.1 hnew
    rw [List.cons_append, firstRepeat?, if_neg hseen, ih hnodup, List.reverse_cons,
      List.append_assoc, List.singleton_append]
    intro b' hb' hmem
    rcases List.mem_cons.1 hmem with rfl | hmem
    · exact hb hb'
    · exact hnew b' hb' hmem

/-- There is no repeat exactly in a list of different items, none of which was seen. -/
theorem firstRepeat?_eq_none_iff :
    firstRepeat? seen items = none ↔ items.Nodup ∧ ∀ a ∈ items, a ∉ seen := by
  refine ⟨nodup_of_firstRepeat?_eq_none, fun ⟨hnodup, hnew⟩ => ?_⟩
  have hpass : firstRepeat? seen (items ++ []) = _ := firstRepeat?_append hnodup hnew
  simpa [firstRepeat?] using hpass

/-- The items before the first repeat are different and were not seen. The repeat was, or is one of
them. -/
theorem exists_of_firstRepeat?_eq_some (h : firstRepeat? seen items = some a) :
    ∃ before after, items = before ++ a :: after ∧ before.Nodup ∧ (∀ b ∈ before, b ∉ seen) ∧
      (a ∈ before ∨ a ∈ seen) := by
  induction items generalizing seen with
  | nil => cases h
  | cons b rest ih =>
    rw [firstRepeat?] at h
    split at h
    next hseen =>
      cases h
      exact ⟨[], rest, rfl, .nil, nofun, .inr hseen⟩
    next hseen =>
      obtain ⟨before, after, rfl, hnodup, hnew, ha⟩ := ih h
      refine ⟨b :: before, after, rfl, List.nodup_cons.2 ⟨fun hb => ?_, hnodup⟩,
        List.forall_mem_cons.2 ⟨hseen, fun b' hb' hmem => ?_⟩, ?_⟩
      · exact hnew b hb (List.mem_cons_self ..)
      · exact hnew b' hb' (List.mem_cons_of_mem _ hmem)
      · rcases ha with ha | ha
        · exact .inl (List.mem_cons_of_mem _ ha)
        · exact (List.mem_cons.1 ha).imp (fun heq => List.mem_cons.2 (.inl heq)) id

/-- The first repeat of a list is the item that stands behind different ones and is one of them. -/
theorem firstRepeat?_eq_some_iff :
    firstRepeat? [] items = some a ↔
      ∃ before after, items = before ++ a :: after ∧ before.Nodup ∧ a ∈ before := by
  constructor
  · intro h
    obtain ⟨before, after, heq, hnodup, -, ha⟩ := exists_of_firstRepeat?_eq_some h
    exact ⟨before, after, heq, hnodup, ha.resolve_right List.not_mem_nil⟩
  · rintro ⟨before, after, rfl, hnodup, ha⟩
    rw [firstRepeat?_append hnodup (fun _ _ => List.not_mem_nil), firstRepeat?,
      if_pos (by simpa using ha)]

end FirstRepeat

/-! ## The index -/

/-- A key is a name and a descriptor. -/
theorem Method.key_eq_iff {m : Method} {name descriptor : String} :
    m.key = ⟨name, descriptor⟩ ↔ m.name = name ∧ m.descriptor = descriptor :=
  Iff.of_eq (MethodKey.mk.injEq ..)

/-- The index of a list of methods by key: the methods are numbered from `next` on, and `index` is
of those before them. Refused with the first method whose key has a number. -/
def indexFrom (next : Nat) (index : Table MethodKey Nat) :
    List Method → Except ProgramError (Table MethodKey Nat)
  | [] => .ok index
  | m :: rest =>
    match index.get? m.key with
    | some _ => .error (.duplicateMethod m.key)
    | none => indexFrom (next + 1) (index.set m.key next) rest

/-- An index gives the number of each method of a list under its key, and nothing else. -/
def Numbers (index : Table MethodKey Nat) (methods : List Method) : Prop :=
  ∀ key i, index.get? key = some i ↔ ∃ m, methods[i]? = some m ∧ m.key = key

/-- What stands in a list with one more item at its end. -/
theorem getElem?_concat_eq_some_iff {α : Type} {items : List α} {a b : α} {i : Nat} :
    (items ++ [a])[i]? = some b ↔ items[i]? = some b ∨ i = items.length ∧ a = b := by
  rw [List.getElem?_append]
  split
  next hlt => simp [Nat.ne_of_lt hlt]
  next hge =>
    rw [List.getElem?_eq_none (Nat.le_of_not_lt hge), List.getElem?_singleton]
    split
    next heq => simp; omega
    next hne => simp; omega

namespace Numbers

variable {index : Table MethodKey Nat} {methods : List Method}

/-- The index with nothing in it is that of no methods. -/
theorem empty : Numbers ⟨[]⟩ [] := by
  simp [Numbers]

/-- The keys that have a number are those of the methods. -/
theorem get?_eq_none_iff (h : Numbers index methods) (key : MethodKey) :
    index.get? key = none ↔ key ∉ methods.map Method.key := by
  rw [Option.eq_none_iff_forall_ne_some]
  constructor
  · intro hnone hmem
    obtain ⟨m, hm, rfl⟩ := List.mem_map.1 hmem
    obtain ⟨i, hi⟩ := List.getElem?_of_mem hm
    exact hnone i ((h m.key i).2 ⟨m, hi, rfl⟩)
  · rintro hnew i hi
    obtain ⟨m, hm, rfl⟩ := (h key i).1 hi
    exact hnew (List.mem_map_of_mem (List.mem_of_getElem? hm))

/-- The next method is numbered under its key, if that has no number yet. -/
theorem set (h : Numbers index methods) {m : Method} (hnew : index.get? m.key = none) :
    Numbers (index.set m.key methods.length) (methods ++ [m]) := by
  intro key i
  simp only [getElem?_concat_eq_some_iff]
  by_cases hkey : key = m.key
  · subst hkey
    rw [Table.get?_set_self, Option.some_inj]
    constructor
    · rintro rfl
      exact ⟨m, .inr ⟨rfl, rfl⟩, rfl⟩
    · rintro ⟨m', hm' | ⟨rfl, -⟩, hkey⟩
      · -- No method before has the key.
        have hold := (h m.key i).2 ⟨m', hm', hkey⟩
        rw [hnew] at hold
        cases hold
      · rfl
  · rw [Table.get?_set_of_ne _ _ hkey, h key i]
    constructor
    · rintro ⟨m', hm', rfl⟩
      exact ⟨m', .inl hm', rfl⟩
    · rintro ⟨m', hm' | ⟨-, rfl⟩, rfl⟩
      · exact ⟨m', hm', rfl⟩
      · exact absurd rfl hkey

/-- The rest of a list is numbered up to the first key that is repeated, or to its end. -/
theorem indexFrom_cases (h : Numbers index methods) (rest : List Method) {seen : List MethodKey}
    (hseen : ∀ key, key ∈ seen ↔ key ∈ methods.map Method.key) :
    (∃ key, firstRepeat? seen (rest.map Method.key) = some key ∧
      indexFrom methods.length index rest = .error (.duplicateMethod key)) ∨
    (firstRepeat? seen (rest.map Method.key) = none ∧
      ∃ out, indexFrom methods.length index rest = .ok out ∧ Numbers out (methods ++ rest)) := by
  induction rest generalizing index methods seen with
  | nil => exact .inr ⟨rfl, index, rfl, by simpa using h⟩
  | cons m rest ih =>
    rw [List.map_cons, firstRepeat?, indexFrom]
    cases hget : index.get? m.key with
    | some i =>
      obtain ⟨m', hm', hkey⟩ := (h m.key i).1 hget
      have hold : m.key ∈ seen :=
        (hseen _).2 (hkey ▸ List.mem_map_of_mem (List.mem_of_getElem? hm'))
      rw [if_pos hold]
      exact .inl ⟨m.key, rfl, rfl⟩
    | none =>
      have hnew : m.key ∉ seen := (hseen _).not.2 ((h.get?_eq_none_iff _).1 hget)
      rw [if_neg hnew]
      have hseen' : ∀ key, key ∈ m.key :: seen ↔ key ∈ (methods ++ [m]).map Method.key := by
        simp [hseen, or_comm, eq_comm]
      simpa using ih (h.set hget) hseen'

end Numbers

/-- All methods of a list are numbered if no key is repeated, and else the first that is, is
reported. -/
theorem indexFrom_zero_cases (methods : List Method) :
    (∃ key, firstRepeat? [] (methods.map Method.key) = some key ∧
      indexFrom 0 ⟨[]⟩ methods = .error (.duplicateMethod key)) ∨
    (firstRepeat? [] (methods.map Method.key) = none ∧
      ∃ index, indexFrom 0 ⟨[]⟩ methods = .ok index ∧ Numbers index methods) := by
  have hseen : ∀ key, key ∈ ([] : List MethodKey) ↔ key ∈ ([] : List Method).map Method.key :=
    fun _ => Iff.rfl
  exact Numbers.empty.indexFrom_cases methods hseen

/-! ## The first pass -/

section MapM

variable {ε α β : Type} {f : α → Except ε β} {items : List α}

/-- If each computation of a list gives a result, then the list gives the list of these. -/
theorem exists_mapM_eq_ok (h : ∀ a ∈ items, ∃ b, f a = .ok b) :
    ∃ results, items.mapM f = .ok results ∧
      List.Forall₂ (fun a b => f a = .ok b) items results := by
  induction items with
  | nil => exact ⟨[], rfl, .nil⟩
  | cons a items ih =>
    obtain ⟨⟨b, hb⟩, hrest⟩ := List.forall_mem_cons.1 h
    obtain ⟨results, hresults, hpairs⟩ := ih hrest
    exact ⟨b :: results, by rw [List.mapM_cons, hb, hresults]; rfl, .cons hb hpairs⟩

/-- Otherwise the list fails with the first that fails. -/
theorem mapM_eq_error {before after : List α} {a : α} {e : ε}
    (hbefore : ∀ a ∈ before, ∃ b, f a = .ok b) (ha : f a = .error e) :
    (before ++ a :: after).mapM f = .error e := by
  obtain ⟨results, hresults, -⟩ := exists_mapM_eq_ok hbefore
  rw [List.mapM_append, hresults, List.mapM_cons, ha]
  rfl

end MapM

/-- A declaration has a descriptor that is one. -/
def MethodInfo.IsTyped (m : MethodInfo) : Prop :=
  ∃ s, Signature.ofDescriptor m.descriptor.text = .ok s

/-- A method is what a declaration and its code say: it has the name, the descriptor, the code and
the frame sizes that are written there. -/
structure Method.Declared (info : MethodInfo) (body : CodeBody) (m : Method) : Prop where
  /-- The name. -/
  name : m.name = info.name.text
  /-- The descriptor. -/
  descriptor : m.descriptor = info.descriptor.text
  /-- The code. -/
  code : m.code = body.code.toArray
  /-- The size of the operand stack. -/
  maxStack : m.maxStack = body.maxStack.toNat
  /-- The number of local variables. -/
  maxLocals : m.maxLocals = body.maxLocals.toNat

namespace ClassFile

variable {info : MethodInfo} {body : CodeBody}

/-- A declaration with a descriptor gives the method that it declares. -/
theorem exists_methodOf (h : info.IsTyped) (body : CodeBody) :
    ∃ m, methodOf info body = .ok m := by
  obtain ⟨s, hs⟩ := h
  unfold methodOf Method.ofParts
  split
  · exact ⟨_, rfl⟩
  next herror =>
    exact absurd (hs.symm.trans herror) nofun

/-- A method that a declaration gives is the one that it declares. -/
theorem declared_of_methodOf {m : Method} (h : methodOf info body = .ok m) :
    m.Declared info body := by
  unfold methodOf Method.ofParts at h
  split at h
  · cases h
    exact ⟨rfl, rfl, rfl, rfl, rfl⟩
  · cases h

/-- A declaration without a descriptor is refused with the text that is there. -/
theorem methodOf_eq_error (h : ¬info.IsTyped) (body : CodeBody) :
    methodOf info body = .error (.malformedDescriptor info.descriptor.text) := by
  unfold methodOf Method.ofParts
  split
  next s hs => exact absurd ⟨s, hs⟩ h
  next herror => rw [Signature.ofDescriptor_eq_error herror]; rfl

/-- The first descriptor that is malformed is reported, whatever else the methods are. -/
theorem program_eq_error {c : ClassFile} {before after : List (MethodInfo × CodeBody)}
    (hsplit : c.codedMethods = before ++ (info, body) :: after)
    (hbefore : ∀ x ∈ before, x.1.IsTyped) (hinfo : ¬info.IsTyped) :
    c.program = .error (.malformedDescriptor info.descriptor.text) := by
  have hread : c.codedMethods.mapM (fun x => methodOf x.1 x.2) =
      .error (.malformedDescriptor info.descriptor.text) := by
    rw [hsplit]
    exact mapM_eq_error (fun x hx => exists_methodOf (hbefore x hx) x.2)
      (methodOf_eq_error hinfo body)
  unfold program
  rw [hread]
  rfl

/-- If none is, the program is that of the methods which the file declares. -/
theorem exists_methods {c : ClassFile} (h : ∀ x ∈ c.codedMethods, x.1.IsTyped) :
    ∃ methods, List.Forall₂ (fun x m => Method.Declared x.1 x.2 m) c.codedMethods methods ∧
      c.program = Program.ofMethods c.pool methods := by
  have hread : ∀ x ∈ c.codedMethods, ∃ m, methodOf x.1 x.2 = .ok m :=
    fun x hx => exists_methodOf (h x hx) x.2
  obtain ⟨methods, hmethods, hpairs⟩ := exists_mapM_eq_ok hread
  refine ⟨methods, hpairs.imp fun x m => declared_of_methodOf, ?_⟩
  unfold program
  rw [hmethods]
  rfl

end ClassFile

/-! ## The table -/

namespace Program

variable {pool : ConstantPool} {methods : List Method} {p : Program}

/-- Methods are refused exactly with the first key that is repeated. -/
theorem ofMethods_eq_error_iff {e : ProgramError} :
    ofMethods pool methods = .error e ↔
      ∃ key, firstRepeat? [] (methods.map Method.key) = some key ∧ e = .duplicateMethod key := by
  unfold ofMethods
  split
  next key hrepeat => simp [hrepeat, eq_comm]
  next hrepeat => simp [hrepeat]

/-- They make a program exactly if no key is repeated. -/
theorem exists_ofMethods_iff :
    (∃ p, ofMethods pool methods = .ok p) ↔ (methods.map Method.key).Nodup := by
  constructor
  · rintro ⟨p, hp⟩
    exact (ofMethods_eq_ok hp).2 ▸ p.nodup_keys
  · intro hnodup
    cases hmethods : ofMethods pool methods with
    | ok p => exact ⟨p, rfl⟩
    | error e =>
      obtain ⟨key, hrepeat, -⟩ := ofMethods_eq_error_iff.1 hmethods
      rw [firstRepeat?_eq_none_iff.2 ⟨hnodup, fun _ _ => List.not_mem_nil⟩] at hrepeat
      cases hrepeat

/-- The first key that is repeated is that of a method behind others, which have different keys, one
of them the same. -/
theorem firstRepeat?_key_iff {key : MethodKey} :
    firstRepeat? [] (methods.map Method.key) = some key ↔
      ∃ before m after, methods = before ++ m :: after ∧ (before.map Method.key).Nodup ∧
        m.key ∈ before.map Method.key ∧ key = m.key := by
  rw [firstRepeat?_eq_some_iff]
  constructor
  · rintro ⟨keys, keys', hsplit, hnodup, hmem⟩
    obtain ⟨before, behind, rfl, rfl, hbehind⟩ := List.map_eq_append_iff.1 hsplit
    obtain ⟨m, after, rfl, rfl, -⟩ := List.map_eq_cons_iff.1 hbehind
    exact ⟨before, m, after, rfl, hnodup, hmem, rfl⟩
  · rintro ⟨before, m, after, rfl, hnodup, hmem, rfl⟩
    exact ⟨before.map Method.key, after.map Method.key, by simp, hnodup, hmem⟩

/-- The index is refused as the methods are. -/
theorem indexFrom_eq_error_iff {e : ProgramError} :
    indexFrom 0 ⟨[]⟩ methods = .error e ↔ ofMethods pool methods = .error e := by
  rw [ofMethods_eq_error_iff]
  obtain ⟨key, hrepeat, hindex⟩ | ⟨hrepeat, index, hindex, -⟩ := indexFrom_zero_cases methods
  · simp [hrepeat, hindex, eq_comm]
  · simp [hrepeat, hindex]

/-- The methods of a program have an index. -/
theorem exists_index (p : Program) :
    ∃ index, indexFrom 0 ⟨[]⟩ p.methods = .ok index ∧ Numbers index p.methods := by
  obtain ⟨key, hrepeat, -⟩ | ⟨-, hindex⟩ := indexFrom_zero_cases p.methods
  · rw [firstRepeat?_eq_none_iff.2 ⟨p.nodup_keys, fun _ _ => List.not_mem_nil⟩] at hrepeat
    cases hrepeat
  · exact hindex

/-- What a key finds in the table is the method whose number is under the key in the index. -/
theorem find?_eq_of_numbers {index : Table MethodKey Nat} (h : Numbers index p.methods)
    (key : MethodKey) : p.find? key = (index.get? key).bind (p.methods[·]?) := by
  cases hget : index.get? key with
  | none => exact find?_eq_none_iff.2 ((h.get?_eq_none_iff key).1 hget)
  | some i =>
    obtain ⟨m, hm, hkey⟩ := (h key i).1 hget
    rw [Option.bind_some, hm]
    exact find?_eq_some_iff.2 ⟨List.mem_of_getElem? hm, hkey⟩

/-- How a table of methods is built. From a pool and a list of methods a program is made exactly if
the methods differ in name or descriptor. They are refused otherwise with the first method that has
the name and the descriptor of one before it, in the table as in the index that is built by writing
one number after another. The index of a program gives the number of a method exactly under its name
and its descriptor, and a method is found by its number; the entry point is `main` with arguments if
there is one, else `main` without, and if there is neither, it is missing. A class file is refused
for the first of its methods with a malformed descriptor, also if a key is repeated before it. If
there is none, the program is built as above from the methods in the order of the file, with the
code and the frame sizes that they have there. -/
theorem table_construction (pool : ConstantPool) (methods : List Method) (c : ClassFile) :
    ((∃ p, ofMethods pool methods = .ok p) ↔ (methods.map Method.key).Nodup) ∧
      (∀ e, ofMethods pool methods = .error e ↔
        ∃ before m after, methods = before ++ m :: after ∧ (before.map Method.key).Nodup ∧
          m.key ∈ before.map Method.key ∧ e = .duplicateMethod m.key) ∧
      (∀ e, indexFrom 0 ⟨[]⟩ methods = .error e ↔ ofMethods pool methods = .error e) ∧
      (∀ p, ofMethods pool methods = .ok p → p.pool = pool ∧ p.methods = methods ∧
        (∃ index, indexFrom 0 ⟨[]⟩ methods = .ok index ∧
          (∀ name descriptor i, index.get? ⟨name, descriptor⟩ = some i ↔
            ∃ m, methods[i]? = some m ∧ m.name = name ∧ m.descriptor = descriptor) ∧
          ∀ key, p.find? key = (index.get? key).bind (methods[·]?)) ∧
        (∀ m, p.entryPoint = .ok m ↔ m ∈ methods ∧
          (m.key = mainKey ∨ m.key = bareMainKey ∧ ∀ m' ∈ methods, m'.key ≠ mainKey)) ∧
        ∀ e, p.entryPoint = .error e ↔
          e = .missingMain ∧ ∀ m ∈ methods, m.key ≠ mainKey ∧ m.key ≠ bareMainKey) ∧
      (∀ before info body after, c.codedMethods = before ++ (info, body) :: after →
        (∀ x ∈ before, x.1.IsTyped) → ¬info.IsTyped →
        c.program = .error (.malformedDescriptor info.descriptor.text)) ∧
      ((∀ x ∈ c.codedMethods, x.1.IsTyped) →
        ∃ declared, List.Forall₂ (fun x m => Method.Declared x.1 x.2 m) c.codedMethods declared ∧
          c.program = ofMethods c.pool declared) := by
  refine ⟨exists_ofMethods_iff, fun e => ?_, fun e => indexFrom_eq_error_iff, fun p hp => ?_,
    fun before info body after hsplit hbefore hinfo =>
      ClassFile.program_eq_error hsplit hbefore hinfo, ClassFile.exists_methods⟩
  · rw [ofMethods_eq_error_iff]
    simp only [firstRepeat?_key_iff]
    constructor
    · rintro ⟨key, ⟨before, m, after, hsplit, hnodup, hmem, rfl⟩, rfl⟩
      exact ⟨before, m, after, hsplit, hnodup, hmem, rfl⟩
    · rintro ⟨before, m, after, hsplit, hnodup, hmem, rfl⟩
      exact ⟨m.key, ⟨before, m, after, hsplit, hnodup, hmem, rfl⟩, rfl⟩
  · obtain ⟨hpool, rfl⟩ := ofMethods_eq_ok hp
    obtain ⟨index, hindex, hnumbers⟩ := p.exists_index
    refine ⟨hpool, rfl, ⟨index, hindex, fun name descriptor i => ?_, find?_eq_of_numbers hnumbers⟩,
      fun m => entryPoint_eq_ok_iff, fun e => ?_⟩
    · simp only [hnumbers _ i, Method.key_eq_iff]
    · rw [entryPoint_eq_error_iff, find?_eq_none_iff, find?_eq_none_iff]
      simp [forall_and]

end Program

/-- A method that takes nothing and only returns. -/
def Method.idle : Method where
  key := Program.bareMainKey
  signature := ⟨[], none⟩
  ofDescriptor_eq := by cbv
  code := #[0xb1]
  maxStack := 0
  maxLocals := 0

/-- One of the same name that takes an integer. -/
def Method.idleInt : Method where
  key := ⟨"main", "(I)V"⟩
  signature := ⟨[.int], none⟩
  ofDescriptor_eq := by cbv
  code := #[0xb1]
  maxStack := 0
  maxLocals := 1

/-- The declaration of a method that only returns. -/
def MethodInfo.idle (descriptorIndex : UInt16) (descriptor : String) : MethodInfo where
  accessFlags := 9
  name := ⟨2, "f"⟩
  descriptor := ⟨descriptorIndex, descriptor⟩
  attributes := [.code 1 13 ⟨0, 0, [0xb1], [], []⟩]

/-- A class that has one method twice, and behind the two a method whose descriptor has no end. -/
def ClassFile.unclosed : ClassFile where
  minorVersion := 0
  majorVersion := 52
  poolCount := 5
  constants := [.utf8 "Code", .utf8 "f", .utf8 "()V", .utf8 "("]
  accessFlags := 0x21
  thisClass := 0
  superClass := 0
  interfaces := []
  fields := []
  methods := [.idle 3 "()V", .idle 3 "()V", .idle 4 "("]
  attributes := []

/-- The two methods of one name make a program, which starts with the one that takes nothing. With
both repeated, the first that is repeated is reported. The class is refused for its descriptor. -/
theorem Program.table_construction_idle :
    (∃ p, ofMethods .empty [.idleInt, .idle] = .ok p ∧ p.entryPoint = .ok .idle) ∧
      ofMethods .empty [.idleInt, .idle, .idle, .idleInt] =
        .error (.duplicateMethod Method.idle.key) ∧
      ClassFile.unclosed.program = .error (.malformedDescriptor "(") := by
  obtain ⟨hok, -, -, hp, -⟩ := table_construction .empty [.idleInt, .idle] .unclosed
  obtain ⟨-, herror, -, -, hmalformed, -⟩ :=
    table_construction .empty [.idleInt, .idle, .idle, .idleInt] .unclosed
  refine ⟨?_, ?_, ?_⟩
  · obtain ⟨p, hmethods⟩ := hok.2 (by decide)
    obtain ⟨-, -, -, hentry, -⟩ := hp p hmethods
    exact ⟨p, hmethods, (hentry .idle).2 ⟨by simp, .inr ⟨rfl, by decide⟩⟩⟩
  · exact (herror _).2 ⟨[.idleInt, .idle], .idle, [.idleInt], rfl, by decide, by decide, rfl⟩
  · have hvoid : (MethodInfo.idle 3 "()V").IsTyped := ⟨⟨[], none⟩, by cbv⟩
    have hunclosed : ¬(MethodInfo.idle 4 "(").IsTyped := by
      rintro ⟨s, hs⟩
      have herror : Signature.ofDescriptor "(" = .error (.malformedDescriptor "(") := by cbv
      cases herror.symm.trans hs
    exact hmalformed [(.idle 3 "()V", _), (.idle 3 "()V", _)] (.idle 4 "(") _ [] rfl
      (by simp [hvoid]) hunclosed

end TieredJvm
