import Forwarder.Proofs.CallSite.Link

/-!
# The grammar of method descriptors

`FieldType.IsText` and `MethodDescriptor.Spells` are the grammar of types and of descriptors, on
texts alone. A text of the grammar is that of exactly one well-formed type or descriptor
(`isText_iff`, `spells_iff`), so `parse_accepts_grammar` follows from what the reader accepts: it
takes the texts of the grammar and no others, it finds their parts, and it inverts printing.
-/

namespace Forwarder

namespace FieldType

/-- The grammar of types: the letter of a primitive type, a class name between `L` and a semicolon,
or a bracket in front of a type. -/
inductive IsText : List Char → Prop where
  | base {c : Char} : c ∈ ['B', 'C', 'D', 'F', 'I', 'J', 'S', 'Z'] → IsText [c]
  | object {name : List Char} : name ≠ [] → (∀ c ∈ name, c ∉ [';', '[', '.']) →
      IsText ('L' :: (name ++ [';']))
  | array {element : List Char} : IsText element → IsText ('[' :: element)

variable {t : FieldType} {text : List Char}

/-- The letters of the grammar are those of the primitive types. -/
theorem exists_letter_iff {c : Char} :
    (∃ b : BaseType, b.letter = c) ↔ c ∈ ['B', 'C', 'D', 'F', 'I', 'J', 'S', 'Z'] := by
  constructor
  · rintro ⟨b, rfl⟩
    cases b <;> decide
  · intro h
    simp only [List.mem_cons, List.not_mem_nil, or_false] at h
    rcases h with rfl | rfl | rfl | rfl | rfl | rfl | rfl | rfl
    exacts [⟨.byte, rfl⟩, ⟨.char, rfl⟩, ⟨.double, rfl⟩, ⟨.float, rfl⟩, ⟨.int, rfl⟩, ⟨.long, rfl⟩,
      ⟨.short, rfl⟩, ⟨.boolean, rfl⟩]

theorem isNameChar_iff {c : Char} : isNameChar c ↔ c ∉ [';', '[', '.'] := by
  simp [isNameChar, and_assoc]

/-- A well-formed type spells a text of the grammar. -/
theorem WellFormed.isText (h : t.WellFormed) : IsText t.chars := by
  induction t with
  | base b => exact .base (exists_letter_iff.1 ⟨b, rfl⟩)
  | object name => exact .object h.1 fun c hc => isNameChar_iff.1 (h.2 c hc)
  | array t ih => exact .array (ih h)

/-- The texts of the grammar are those of the well-formed types. -/
theorem isText_iff : IsText text ↔ ∃ t : FieldType, t.WellFormed ∧ t.chars = text := by
  constructor
  · intro h
    induction h with
    | base hc =>
      obtain ⟨b, rfl⟩ := exists_letter_iff.2 hc
      exact ⟨.base b, trivial, rfl⟩
    | @object name hne hall =>
      exact ⟨.object name, ⟨hne, fun c hc => isNameChar_iff.2 (hall c hc)⟩, rfl⟩
    | array _ ih =>
      obtain ⟨t, ht, rfl⟩ := ih
      exact ⟨.array t, ht, rfl⟩
  · rintro ⟨t, ht, rfl⟩
    exact ht.isText

/-- No type ends as the return type of a method that returns nothing does. -/
theorem getLast?_chars_ne (t : FieldType) : t.chars.getLast? ≠ some 'V' := by
  induction t with
  | base b => cases b <;> decide
  | object name => simp [chars, List.getLast?_cons]
  | array t ih =>
    obtain ⟨c, cs, hc⟩ := List.exists_cons_of_ne_nil t.chars_ne_nil
    rw [hc] at ih
    rwa [chars, hc, List.getLast?_cons_cons]

end FieldType

namespace MethodDescriptor

/-- The grammar of descriptors: the texts of some parameter types in parentheses, followed by that
of a return type or by `V`. -/
structure Spells (text : List Char) (parameters : List (List Char)) (result : List Char) :
    Prop where
  text_eq : text = '(' :: (parameters.flatten ++ ')' :: result)
  parameters : ∀ p ∈ parameters, FieldType.IsText p
  result : FieldType.IsText result ∨ result = ['V']

variable {d : MethodDescriptor} {text : List Char} {parameters : List (List Char)}
  {result : List Char}

/-- Texts of parameters are those of well-formed types. -/
theorem exists_parameters (h : ∀ p ∈ parameters, FieldType.IsText p) :
    ∃ ts : List FieldType, (∀ t ∈ ts, t.WellFormed) ∧ ts.map FieldType.chars = parameters := by
  induction parameters with
  | nil => exact ⟨[], by simp, rfl⟩
  | cons p parameters ih =>
    obtain ⟨hp, htail⟩ := List.forall_mem_cons.1 h
    obtain ⟨t, ht, rfl⟩ := FieldType.isText_iff.1 hp
    obtain ⟨ts, hts, rfl⟩ := ih htail
    exact ⟨t :: ts, List.forall_mem_cons.2 ⟨ht, hts⟩, rfl⟩

/-- The text of a result is that of a well-formed type or of none. -/
theorem exists_returnType (h : FieldType.IsText result ∨ result = ['V']) :
    ∃ r : Option FieldType, (∀ t ∈ r, t.WellFormed) ∧ returnChars r = result := by
  rcases h with h | rfl
  · obtain ⟨t, ht, rfl⟩ := FieldType.isText_iff.1 h
    exact ⟨some t, by simpa using ht, rfl⟩
  · exact ⟨none, by simp, rfl⟩

/-- The texts of the grammar are those of the well-formed descriptors, part by part. -/
theorem spells_iff : Spells text parameters result ↔
    ∃ d : MethodDescriptor, d.WellFormed ∧ d.chars = text ∧
      d.parameters.map FieldType.chars = parameters ∧ returnChars d.returnType = result := by
  constructor
  · rintro ⟨rfl, hparameters, hresult⟩
    obtain ⟨ts, hts, rfl⟩ := exists_parameters hparameters
    obtain ⟨r, hr, rfl⟩ := exists_returnType hresult
    exact ⟨⟨ts, r⟩, ⟨hts, hr⟩, by rw [chars, List.flatMap_def], rfl, rfl⟩
  · rintro ⟨d, ⟨hparameters, hreturn⟩, rfl, rfl, rfl⟩
    refine ⟨by rw [chars, List.flatMap_def], ?_, ?_⟩
    · rw [List.forall_mem_map]
      exact fun t ht => (hparameters t ht).isText
    · cases hr : d.returnType with
      | none => exact .inr rfl
      | some t => exact .inl (hreturn t hr).isText

/-- A method has no parameters exactly if the parentheses of its descriptor hold nothing. -/
theorem arity_eq_zero_iff : d.arity = 0 ↔ ['(', ')'] <+: d.chars := by
  rw [arity, List.length_eq_zero_iff, chars, List.cons_prefix_cons]
  cases d.parameters with
  | nil => simp
  | cons t ts =>
    obtain ⟨c, cs, hc, hne⟩ := t.exists_chars_eq_cons
    simp [hc, hne.symm]

/-- A method returns nothing exactly if its descriptor ends so. -/
theorem isVoid_iff : d.isVoid ↔ [')', 'V'] <:+ d.chars := by
  rw [isVoid, chars]
  cases d.returnType with
  | none => exact ⟨fun _ => ⟨'(' :: d.parameters.flatMap FieldType.chars, by simp [returnChars]⟩,
      fun _ => rfl⟩
  | some t =>
    refine ⟨fun hvoid => absurd hvoid Bool.false_ne_true, fun h => absurd ?_ t.getLast?_chars_ne⟩
    -- the last character of the descriptor is that of its return type
    obtain ⟨front, hfront⟩ := h
    have hlast := congrArg List.getLast? hfront
    rw [List.getLast?_append_of_ne_nil _ (by simp)] at hlast
    rw [returnChars, List.append_cons, ← List.cons_append,
      List.getLast?_append_of_ne_nil _ t.chars_ne_nil] at hlast
    exact hlast.symm

/-- **The reader accepts exactly the grammar and inverts printing.** It accepts a text exactly if
the grammar spells it, and otherwise fails for that text. What it accepts is what the result prints,
in one way only: the parts that the grammar finds are the parameter types and the return type, in
order. Every well-formed descriptor is read back. So the start and the end of an accepted text tell
whether there are parameters and whether anything is returned. -/
theorem parse_accepts_grammar :
    (∀ text : String, (∃ d, MethodDescriptor.parse text = .ok d) ↔
        ∃ parameters result, Spells text.toList parameters result) ∧
      (∀ text : String, (¬ ∃ parameters result, Spells text.toList parameters result) →
        MethodDescriptor.parse text = .error (.malformedDescriptor text)) ∧
      (∀ (text : String) (d : MethodDescriptor), MethodDescriptor.parse text = .ok d →
        d.toString = text ∧
          (∀ parameters result, Spells text.toList parameters result ↔
            d.parameters.map FieldType.chars = parameters ∧
              returnChars d.returnType = result) ∧
          (d.arity = 0 ↔ "()".toList <+: text.toList) ∧
          (d.isVoid ↔ ")V".toList <:+ text.toList)) ∧
      ∀ d : MethodDescriptor, d.WellFormed → MethodDescriptor.parse d.toString = .ok d := by
  have hparse (text : String) :
      (∃ d, MethodDescriptor.parse text = .ok d) ↔
        ∃ parameters result, Spells text.toList parameters result := by
    simp only [parse_eq_ok, spells_iff, MethodDescriptor.toString, ← String.toList_inj,
      String.toList_ofList]
    constructor
    · rintro ⟨d, hd, htext⟩
      exact ⟨_, _, d, hd, htext.symm, rfl, rfl⟩
    · rintro ⟨_, _, d, hd, htext, -, -⟩
      exact ⟨d, hd, htext.symm⟩
  refine ⟨hparse, fun text h => ?_, fun text d h => ?_, fun d hd => parse_eq_ok.2 ⟨hd, rfl⟩⟩
  · rw [← hparse] at h
    cases hread : parse? text with
    | none => rw [MethodDescriptor.parse, hread]
    | some d => exact absurd ⟨d, by rw [MethodDescriptor.parse, hread]⟩ h
  · obtain ⟨hd, rfl⟩ := parse_eq_ok.1 h
    rw [MethodDescriptor.toString, String.toList_ofList]
    refine ⟨rfl, fun parameters result => ?_, arity_eq_zero_iff, isVoid_iff⟩
    rw [spells_iff]
    constructor
    · rintro ⟨d', hd', hchars, rfl, rfl⟩
      -- two well-formed descriptors of one text are both what is read from it
      have htext : d.toString = d'.toString := congrArg String.ofList hchars.symm
      have hread := parse_eq_ok.2 ⟨hd', htext⟩
      cases h.symm.trans hread
      exact ⟨rfl, rfl⟩
    · rintro ⟨rfl, rfl⟩
      exact ⟨d, hd, rfl, rfl, rfl⟩

/-- A class name may hold parentheses and the letter `V`: neither of them ends anything there. -/
theorem parse_accepts_grammar_name :
    MethodDescriptor.parse "(IL()V;[[J)V" =
        .ok ⟨[.base .int, .object ['(', ')', 'V'], .array (.array (.base .long))], none⟩ ∧
      Spells "(IL()V;[[J)V".toList [['I'], ['L', '(', ')', 'V', ';'], ['[', '[', 'J']] ['V'] ∧
      MethodDescriptor.parse "(L;)V" = .error (.malformedDescriptor "(L;)V") := by
  have hread : MethodDescriptor.parse "(IL()V;[[J)V" =
      .ok ⟨[.base .int, .object ['(', ')', 'V'], .array (.array (.base .long))], none⟩ :=
    parse_accepts_grammar.2.2.2 ⟨[.base .int, .object ['(', ')', 'V'],
      .array (.array (.base .long))], none⟩ (by simp [WellFormed, FieldType.WellFormed,
        FieldType.isNameChar])
  refine ⟨hread, ((parse_accepts_grammar.2.2.1 _ _ hread).2.1 _ _).2 ⟨rfl, rfl⟩, ?_⟩
  refine parse_accepts_grammar.2.1 _ fun h => ?_
  obtain ⟨d, hd⟩ := (parse_accepts_grammar.1 _).2 h
  have hnone : parse? "(L;)V" = none := by decide +kernel
  rw [MethodDescriptor.parse, hnone] at hd
  cases hd

end MethodDescriptor

end Forwarder
