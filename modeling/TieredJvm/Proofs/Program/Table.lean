import TieredJvm.Program.Basic

/-!
# Tables of methods

What a key finds in the table of a program: the one method that has it
(`Program.find?_eq_some_iff`), because no two methods have the same key. The entry point is found in
this way under its two keys. A program is refused before that if a descriptor is malformed or a key
is repeated.
-/

namespace TieredJvm

/-- A descriptor is refused as malformed, and in no other way. -/
theorem Signature.ofDescriptor_eq_error {text : String} {cause : ProgramError}
    (h : ofDescriptor text = .error cause) : cause = .malformedDescriptor text := by
  unfold ofDescriptor at h
  split at h
  · cases h
  · cases h
    rfl

namespace Program

variable {pool : ConstantPool} {methods : List Method} {p : Program} {key : MethodKey} {m : Method}

/-- The program of a pool and a list of methods has that pool and those methods. -/
theorem ofMethods_eq_ok (h : ofMethods pool methods = .ok p) :
    p.pool = pool ∧ p.methods = methods := by
  unfold ofMethods at h
  split at h
  · cases h
  · cases h
    exact ⟨rfl, rfl⟩

/-- The method that a key finds has that key. -/
theorem key_of_find? (h : p.find? key = some m) : m.key = key := by
  simpa using List.find?_some h

/-- The program has one method of a key. -/
theorem eq_of_find? {m' : Method} (h : p.find? m.key = some m) (h' : p.find? m'.key = some m')
    (hkey : m.key = m'.key) : m = m' := by
  rw [hkey, h'] at h
  exact (Option.some.inj h).symm

/-- A method of a program is the one that its key finds. -/
theorem find?_key (h : m ∈ p.methods) : p.find? m.key = some m := by
  have hnodup := p.nodup_keys
  unfold find?
  generalize p.methods = methods at h hnodup
  induction methods with
  | nil => cases h
  | cons m' rest ih =>
    rw [List.map_cons, List.nodup_cons] at hnodup
    rcases List.mem_cons.1 h with rfl | hrest
    · rw [List.find?_cons_of_pos (by simp)]
    · have hne : m'.key ≠ m.key := fun heq => hnodup.1 (heq ▸ List.mem_map_of_mem hrest)
      rw [List.find?_cons_of_neg (by simp [hne])]
      exact ih hrest hnodup.2

/-- A key finds the method of the table that has it. -/
theorem find?_eq_some_iff : p.find? key = some m ↔ m ∈ p.methods ∧ m.key = key := by
  constructor
  · intro hfind
    exact ⟨List.mem_of_find?_eq_some hfind, key_of_find? hfind⟩
  · rintro ⟨hm, rfl⟩
    exact find?_key hm

/-- A key finds nothing if no method of the table has it. -/
theorem find?_eq_none_iff : p.find? key = none ↔ key ∉ p.methods.map Method.key := by
  simp [find?]

/-- The entry point is the method with one of the keys of entry points, the one with arguments if
there is one. -/
theorem entryPoint_eq_ok_iff :
    p.entryPoint = .ok m ↔ m ∈ p.methods ∧
      (m.key = mainKey ∨ m.key = bareMainKey ∧ ∀ m' ∈ p.methods, m'.key ≠ mainKey) := by
  constructor
  · intro h
    unfold entryPoint at h
    split at h
    next hfind =>
      cases h
      obtain ⟨hm, hkey⟩ := find?_eq_some_iff.1 hfind
      exact ⟨hm, .inl hkey⟩
    next hnone =>
      split at h
      next hfind =>
        cases h
        obtain ⟨hm, hkey⟩ := find?_eq_some_iff.1 hfind
        rw [find?_eq_none_iff] at hnone
        exact ⟨hm, .inr ⟨hkey, fun m' hm' heq => hnone (heq ▸ List.mem_map_of_mem hm')⟩⟩
      next => cases h
  · rintro ⟨hm, hkey | ⟨hkey, hnone⟩⟩
    · rw [entryPoint, find?_eq_some_iff.2 ⟨hm, hkey⟩]
    · have hmain : p.find? mainKey = none := by
        rw [find?_eq_none_iff]
        simpa using hnone
      rw [entryPoint, hmain, find?_eq_some_iff.2 ⟨hm, hkey⟩]

/-- So it is found under its own key, which is one of the two. -/
theorem entryPoint_eq_ok (h : p.entryPoint = .ok m) :
    p.find? m.key = some m ∧ (m.key = mainKey ∨ m.key = bareMainKey) := by
  obtain ⟨hm, hkey⟩ := entryPoint_eq_ok_iff.1 h
  exact ⟨find?_key hm, hkey.imp_right And.left⟩

/-- There is no entry point exactly if there is no method under either of its keys. -/
theorem entryPoint_eq_error_iff {cause : ProgramError} :
    p.entryPoint = .error cause ↔
      cause = .missingMain ∧ p.find? mainKey = none ∧ p.find? bareMainKey = none := by
  unfold entryPoint
  cases p.find? mainKey with
  | some m => simp
  | none =>
    cases p.find? bareMainKey with
    | some m => simp
    | none => simp [eq_comm]

end Program

end TieredJvm
