import Mathlib.Data.List.Forall2
import Mathlib.Data.List.TakeWhile
import TieredJvm.Signature

/-!
# The grammar of descriptors

A descriptor is `(`, the types of the arguments one after another, `)`, and the type of the result.
A type is written in one way only (`FieldType`), and none is the beginning of another, so the
arguments need nothing between them. `Signature.ofDescriptor` accepts exactly what the grammar
derives, and gives the kinds of the types in it (`descriptor_grammar`).

The reader takes a type off the front of a text whatever stands behind it
(`fieldType?_eq_some_iff`). Everything else follows from that: the same text has no two types in
front, so a list of types is read back from its texts put together (`fieldTypes?_eq_some_iff`), and
in one way only (`FieldType.types_unique`). The parentheses are found first; that they are the right
ones is the law of `first_split`.
-/

namespace TieredJvm.Signature

/-! ## Texts up to a mark -/

/-- A text is taken up to its first mark, which stands behind what was taken. -/
theorem first_split {mark a : Char} {text front rest : List Char}
    (htake : text.takeWhile (· != mark) = front) (hdrop : text.dropWhile (· != mark) = a :: rest) :
    mark ∉ front ∧ text = front ++ mark :: rest := by
  have hmark : a = mark := by
    have hhead := List.head?_dropWhile_not (· != mark) text
    simpa [hdrop] using hhead
  constructor
  · intro hmem
    rw [← htake] at hmem
    simpa using List.mem_takeWhile_imp hmem
  · rw [← hmark, ← htake, ← hdrop, List.takeWhile_append_dropWhile]

/-- Where there is no mark in front, the text is taken up to the mark. -/
theorem takeWhile_front {mark : Char} {front : List Char} (h : mark ∉ front) (rest : List Char) :
    (front ++ mark :: rest).takeWhile (· != mark) = front ∧
      (front ++ mark :: rest).dropWhile (· != mark) = mark :: rest := by
  have hfront : ∀ c ∈ front, (c != mark) = true := fun c hc => by
    rw [bne_iff_ne]
    exact fun heq => h (heq ▸ hc)
  rw [List.takeWhile_append_of_pos hfront, List.dropWhile_append_of_pos hfront]
  simp

/-! ## The grammar -/

/-- The texts of field types, each with the kind of the values of that type. -/
inductive FieldType : List Char → ValueKind → Prop where
  /-- An integer of up to one word. -/
  | int {c : Char} (h : c ∈ ['B', 'C', 'I', 'S', 'Z']) : FieldType [c] .int
  /-- An integer of two words. -/
  | long : FieldType ['J'] .long
  /-- A floating-point number of one word. -/
  | float : FieldType ['F'] .float
  /-- A floating-point number of two words. -/
  | double : FieldType ['D'] .double
  /-- An object of a class. -/
  | object {name : List Char} (nonempty : name ≠ []) (unmarked : ';' ∉ name) :
    FieldType ('L' :: (name ++ [';'])) .reference
  /-- An array. -/
  | array {text : List Char} {kind : ValueKind} (items : FieldType text kind) :
    FieldType ('[' :: text) .reference

/-- The texts of types of results, each with the kind of the value if there is one. -/
inductive ResultType : List Char → Option ValueKind → Prop where
  /-- There is no value. -/
  | void : ResultType ['V'] none
  /-- There is a value of a field type. -/
  | field {text : List Char} {kind : ValueKind} (h : FieldType text kind) :
    ResultType text (some kind)

/-- The parts of a descriptor. -/
structure Parts where
  /-- The texts of the types of the arguments, in order. -/
  types : List (List Char)
  /-- The text of the type of the result. -/
  result : List Char

/-- The text that the parts make up. -/
def Parts.text (d : Parts) : List Char :=
  '(' :: (d.types.flatten ++ ')' :: d.result)

/-- The parts are those of a descriptor for the signature. -/
structure Parts.Spells (d : Parts) (s : Signature) : Prop where
  /-- The types of the arguments are field types of these kinds. -/
  args : List.Forall₂ FieldType d.types s.args
  /-- No type of an argument holds a closing parenthesis. -/
  closed : ∀ text ∈ d.types, ')' ∉ text
  /-- The type of the result is of this kind. -/
  result : ResultType d.result s.result
  /-- The type of the result holds no line break. -/
  unbroken : '\n' ∉ d.result

/-! ## One type -/

/-- A field type is read off the front of any text. -/
theorem fieldType?_append {text : List Char} {kind : ValueKind} (h : FieldType text kind)
    (rest : List Char) : fieldType? (text ++ rest) = some (kind, rest) := by
  induction h with
  | int h =>
    simp only [List.mem_cons, List.not_mem_nil, or_false] at h
    rcases h with rfl | rfl | rfl | rfl | rfl <;> rfl
  | long | float | double => rfl
  | @object name nonempty unmarked =>
    obtain ⟨htake, hdrop⟩ := takeWhile_front unmarked rest
    rw [List.cons_append, List.append_assoc, List.singleton_append]
    obtain ⟨c, name, rfl⟩ := List.exists_cons_of_ne_nil nonempty
    simp only [fieldType?, htake, hdrop]
  | array items ih =>
    rw [List.cons_append]
    simp only [fieldType?, ih, Option.map_some]

/-- What is read off the front of a text is a field type. -/
theorem exists_of_fieldType? {text rest : List Char} {kind : ValueKind}
    (h : fieldType? text = some (kind, rest)) :
    ∃ front, FieldType front kind ∧ text = front ++ rest := by
  induction text generalizing kind with
  | nil => cases h
  | cons c text ih =>
    unfold fieldType? at h
    split at h
    -- The numbers of other kinds than `int`.
    case h_6 =>
      cases h
      exact ⟨_, .long, rfl⟩
    case h_7 =>
      cases h
      exact ⟨_, .float, rfl⟩
    case h_8 =>
      cases h
      exact ⟨_, .double, rfl⟩
    -- An object: its class ends at the first `;`.
    case h_9 =>
      split at h
      case h_1 htake hdrop =>
        cases h
        obtain ⟨hunmarked, htext⟩ := first_split htake hdrop
        exact ⟨_, .object (List.cons_ne_nil _ _) hunmarked, by simp [htext]⟩
      case h_2 => cases h
    -- An array: its items are a type in front of what is behind the bracket.
    case h_10 =>
      obtain ⟨⟨item, after⟩, hitem, heq⟩ := Option.map_eq_some_iff.1 h
      cases heq
      obtain ⟨front, hfront, htext⟩ := ih hitem
      exact ⟨_, .array hfront, by rw [htext, List.cons_append]⟩
    case h_11 => cases h
    all_goals
      cases h
      exact ⟨[_], .int (by simp), rfl⟩

/-- A field type is read off a text exactly if the text begins with one. -/
theorem fieldType?_eq_some_iff {text rest : List Char} {kind : ValueKind} :
    fieldType? text = some (kind, rest) ↔ ∃ front, FieldType front kind ∧ text = front ++ rest := by
  constructor
  · exact exists_of_fieldType?
  · rintro ⟨front, hfront, rfl⟩
    exact fieldType?_append hfront rest

/-- Two field types in front of the same text are the same. -/
theorem FieldType.unique {text text' rest rest' : List Char} {kind kind' : ValueKind}
    (h : FieldType text kind) (h' : FieldType text' kind') (heq : text ++ rest = text' ++ rest') :
    text = text' ∧ kind = kind' ∧ rest = rest' := by
  have hread : fieldType? (text ++ rest) = some (kind, rest) :=
    fieldType?_eq_some_iff.2 ⟨text, h, rfl⟩
  rw [fieldType?_eq_some_iff.2 ⟨text', h', heq⟩] at hread
  obtain ⟨rfl, rfl⟩ := Prod.mk.inj (Option.some.inj hread)
  exact ⟨List.append_cancel_right heq, rfl, rfl⟩

/-- A field type takes at least one character. -/
theorem FieldType.ne_nil {text : List Char} {kind : ValueKind} (h : FieldType text kind) :
    text ≠ [] := by
  cases h <;> exact List.cons_ne_nil _ _

/-! ## Lists of types -/

/-- Where a type stands in front, it is read first, and then the types behind it. -/
theorem fieldTypes?_append {text : List Char} {kind : ValueKind} (h : FieldType text kind)
    (rest : List Char) : fieldTypes? (text ++ rest) = (fieldTypes? rest).map (kind :: ·) := by
  have hread : fieldType? (text ++ rest) = some (kind, rest) :=
    fieldType?_eq_some_iff.2 ⟨text, h, rfl⟩
  obtain ⟨c, text, rfl⟩ := List.exists_cons_of_ne_nil h.ne_nil
  rw [List.cons_append] at hread ⊢
  rw [fieldTypes?]
  split
  · next hnone =>
    rw [hnone] at hread
    cases hread
  · next hsome =>
    rw [hsome] at hread
    cases hread
    rfl

/-- A text is read as a list of types exactly if it consists of types of these kinds. -/
theorem fieldTypes?_eq_some_iff {text : List Char} {kinds : List ValueKind} :
    fieldTypes? text = some kinds ↔
      ∃ types, List.Forall₂ FieldType types kinds ∧ text = types.flatten := by
  constructor
  · intro h
    induction text using fieldTypes?.induct generalizing kinds with
    | case1 =>
      rw [fieldTypes?] at h
      cases h
      exact ⟨[], .nil, rfl⟩
    | case2 c text hnone =>
      rw [fieldTypes?] at h
      split at h
      · cases h
      · next hsome =>
        rw [hnone] at hsome
        cases hsome
    | case3 c text kind rest hsome hlt ih =>
      obtain ⟨front, hfront, htext⟩ := fieldType?_eq_some_iff.1 hsome
      rw [htext, fieldTypes?_append hfront] at h
      obtain ⟨kinds, hkinds, rfl⟩ := Option.map_eq_some_iff.1 h
      obtain ⟨types, htypes, rfl⟩ := ih hkinds
      exact ⟨front :: types, .cons hfront htypes, htext⟩
  · rintro ⟨types, htypes, rfl⟩
    induction htypes with
    | nil => rw [List.flatten_nil, fieldTypes?]
    | cons hfirst htypes ih =>
      rw [List.flatten_cons, fieldTypes?_append hfirst, ih, Option.map_some]

/-- A text consists of types in one way only. -/
theorem FieldType.types_unique {types types' : List (List Char)} {kinds kinds' : List ValueKind}
    (h : List.Forall₂ FieldType types kinds) (h' : List.Forall₂ FieldType types' kinds')
    (heq : types.flatten = types'.flatten) : types = types' ∧ kinds = kinds' := by
  induction h generalizing types' kinds' with
  | nil =>
    cases h' with
    | nil => exact ⟨rfl, rfl⟩
    | cons hfirst _ => simp [hfirst.ne_nil] at heq
  | cons hfirst _ ih =>
    cases h' with
    | nil => simp [hfirst.ne_nil] at heq
    | cons hfirst' hothers' =>
      rw [List.flatten_cons, List.flatten_cons] at heq
      obtain ⟨rfl, rfl, hrest⟩ := hfirst.unique hfirst' heq
      obtain ⟨rfl, rfl⟩ := ih hothers' hrest
      exact ⟨rfl, rfl⟩

/-! ## The result -/

/-- A text is read as the type of a result exactly if it is one. -/
theorem resultType?_eq_some_iff {text : List Char} {result : Option ValueKind} :
    resultType? text = some result ↔ ResultType text result := by
  constructor
  · intro h
    unfold resultType? at h
    split at h
    · next hvoid =>
      cases h
      rw [hvoid]
      exact .void
    · split at h
      · next kind hread =>
        cases h
        obtain ⟨front, hfront, htext⟩ := fieldType?_eq_some_iff.1 hread
        rw [List.append_nil] at htext
        rw [htext]
        exact .field hfront
      · cases h
  · intro h
    cases h with
    | void => rfl
    | field h =>
      have hread := fieldType?_eq_some_iff.2 ⟨text, h, (List.append_nil text).symm⟩
      unfold resultType?
      split
      · next hvoid =>
        -- There is no field type of that text.
        rw [hvoid] at hread
        cases hread
      · rw [hread]

/-! ## Descriptors -/

/-- The types of the arguments hold no closing parenthesis. -/
theorem Parts.Spells.closed_flatten {d : Parts} {s : Signature} (h : d.Spells s) :
    ')' ∉ d.types.flatten := by
  intro hmem
  obtain ⟨text, htext, hmem⟩ := List.mem_flatten.1 hmem
  exact h.closed text htext hmem

/-- The characters of a descriptor are read as a signature exactly if its parts spell that. -/
theorem ofChars?_eq_some_iff {text : List Char} {s : Signature} :
    ofChars? text = some s ↔ ∃ d : Parts, d.text = text ∧ d.Spells s := by
  constructor
  · intro h
    unfold ofChars? at h
    split at h
    · next text =>
      split at h
      · next mark result hdrop =>
        split at h
        · cases h
        · next hunbroken =>
          obtain ⟨kinds, hkinds, h⟩ := Option.bind_eq_some_iff.1 h
          obtain ⟨value, hvalue, h⟩ := Option.bind_eq_some_iff.1 h
          cases h
          obtain ⟨types, htypes, hflatten⟩ := fieldTypes?_eq_some_iff.1 hkinds
          obtain ⟨hclosed, htext⟩ := first_split rfl hdrop
          rw [hflatten] at hclosed htext
          refine ⟨⟨types, result⟩, ?_, htypes, ?_, resultType?_eq_some_iff.1 hvalue, hunbroken⟩
          · rw [Parts.text, htext]
          · exact fun t ht hmem => hclosed (List.mem_flatten.2 ⟨t, ht, hmem⟩)
      · cases h
    · cases h
  · rintro ⟨d, rfl, h⟩
    obtain ⟨htake, hdrop⟩ := takeWhile_front h.closed_flatten d.result
    have hargs := fieldTypes?_eq_some_iff.2 ⟨d.types, h.args, rfl⟩
    simp only [Parts.text, ofChars?, htake, hdrop, hargs, resultType?_eq_some_iff.2 h.result,
      if_neg h.unbroken]
    rfl

/-- A text has the parts of a descriptor in one way only. -/
theorem Parts.Spells.unique {d d' : Parts} {s s' : Signature} (h : d.Spells s) (h' : d'.Spells s')
    (heq : d.text = d'.text) : d = d' ∧ s = s' := by
  obtain ⟨types, result⟩ := d
  obtain ⟨types', result'⟩ := d'
  obtain ⟨args, value⟩ := s
  obtain ⟨args', value'⟩ := s'
  have htext : types.flatten ++ ')' :: result = types'.flatten ++ ')' :: result' :=
    (List.cons.inj heq).2
  -- The arguments of both end at the first parenthesis.
  obtain ⟨htake, hdrop⟩ := takeWhile_front h.closed_flatten result
  obtain ⟨htake', hdrop'⟩ := takeWhile_front h'.closed_flatten result'
  dsimp only at htake hdrop htake' hdrop'
  rw [htext, htake'] at htake
  rw [htext, hdrop'] at hdrop
  obtain ⟨-, rfl⟩ := List.cons.inj hdrop
  obtain ⟨rfl, rfl⟩ := FieldType.types_unique h.args h'.args htake.symm
  have hvalue := resultType?_eq_some_iff.2 h.result
  rw [resultType?_eq_some_iff.2 h'.result] at hvalue
  cases hvalue
  exact ⟨rfl, rfl⟩

/-- The arguments take one word each, and one more for each number of two words. -/
theorem argSlots_eq (s : Signature) :
    s.argSlots = s.args.length + s.args.countP fun kind => kind = .long ∨ kind = .double := by
  obtain ⟨args, result⟩ := s
  induction args with
  | nil => rfl
  | cons kind args ih =>
    simp only [argSlots, List.foldr_cons, List.length_cons, List.countP_cons] at ih ⊢
    rw [ih]
    cases kind <;> simp [ValueKind.slots] <;> omega

/-- A descriptor is read as its characters are, or is refused with its text. -/
theorem ofDescriptor_eq (text : String) :
    ofDescriptor text = (ofChars? text.toList).elim (.error (.malformedDescriptor text)) .ok := by
  unfold ofDescriptor
  cases ofChars? text.toList <;> rfl

/-- A descriptor is accepted exactly if it is in the grammar. It is read as the signature that its
parts spell, it has those parts in one way only, and every other text is refused with the text
itself. The arguments take as many words as there are types, and one more for each number of two
words; an array is none of these, whatever its items. -/
theorem descriptor_grammar (text : String) :
    (∀ s, ofDescriptor text = .ok s ↔ ∃ d : Parts, d.text = text.toList ∧ d.Spells s) ∧
      (∀ e, ofDescriptor text = .error e ↔
        e = .malformedDescriptor text ∧ ∀ (d : Parts) s, d.text = text.toList → ¬d.Spells s) ∧
      (∀ (d d' : Parts) s s', d.text = text.toList → d.Spells s → d'.text = text.toList →
        d'.Spells s' → d = d' ∧ s = s') ∧
      ∀ (d : Parts) s, d.text = text.toList → d.Spells s →
        s.argSlots = d.types.length + s.args.countP fun kind => kind = .long ∨ kind = .double := by
  have hread (s : Signature) :
      ofChars? text.toList = some s ↔ ∃ d : Parts, d.text = text.toList ∧ d.Spells s :=
    ofChars?_eq_some_iff
  rw [ofDescriptor_eq]
  refine ⟨fun s => ?_, fun e => ?_, fun d d' s s' htext h htext' h' => ?_, fun d s _ h => ?_⟩
  · rw [← hread]
    cases ofChars? text.toList <;> simp
  · cases hchars : ofChars? text.toList with
    | none =>
      have hnone (d : Parts) (s : Signature) (htext : d.text = text.toList) : ¬d.Spells s := by
        intro h
        rw [(hread s).2 ⟨d, htext, h⟩] at hchars
        cases hchars
      simp only [Option.elim_none, Except.error.injEq]
      exact ⟨fun heq => ⟨heq.symm, hnone⟩, fun heq => heq.1.symm⟩
    | some s =>
      obtain ⟨d, htext, h⟩ := (hread s).1 hchars
      simp only [Option.elim_some, reduceCtorEq, false_iff]
      exact fun heq => heq.2 d s htext h
  · exact h.unique h' (htext.trans htext'.symm)
  · rw [argSlots_eq, h.args.length_eq]

/-- A class name may hold an opening parenthesis, and in the result a closing one too. -/
example : ofDescriptor "(J[[IL(V;Z)La)b;" =
    .ok ⟨[.long, .reference, .reference, .int], some .reference⟩ := by
  cbv

end TieredJvm.Signature
