import Forwarder.Descriptor.Parse

/-!
# Reading and writing method descriptors

The reader of method descriptors accepts exactly the texts of well-formed descriptors, and gives the
descriptor that a text spells (`parse?_eq_some_iff`). The lemmas about the parts of a descriptor
come in pairs: what is read is the text of a well-formed part, and the text of a well-formed part is
read back whatever follows it.
-/

namespace Forwarder

namespace FieldType

variable {t : FieldType} {name rest : List Char}

theorem isNameChar_semicolon : isNameChar ';' = false := by
  decide

/-- A class name is read back from its text. -/
theorem parseName_append (hne : name ≠ []) (hall : ∀ c ∈ name, isNameChar c) :
    parseName (name ++ ';' :: rest) = some (name, rest) := by
  have htake : (name ++ ';' :: rest).takeWhile isNameChar = name := by
    rw [List.takeWhile_append_of_pos hall,
      List.takeWhile_cons_of_neg (by simp [isNameChar_semicolon]), List.append_nil]
  have hdrop : (name ++ ';' :: rest).dropWhile isNameChar = ';' :: rest := by
    rw [List.dropWhile_append_of_pos hall,
      List.dropWhile_cons_of_neg (by simp [isNameChar_semicolon])]
  obtain ⟨c, name', rfl⟩ := List.exists_cons_of_ne_nil hne
  unfold parseName
  rw [htake, hdrop]
  rfl

/-- The letter of a base type begins neither an array nor a class. -/
theorem letter_ne (b : BaseType) : b.letter ≠ '[' ∧ b.letter ≠ 'L' := by
  cases b <;> decide

/-- A well-formed type is read back from its text. -/
theorem parse_chars_append (h : t.WellFormed) : parse (t.chars ++ rest) = some (t, rest) := by
  induction t with
  | base b =>
    obtain ⟨h₁, h₂⟩ := letter_ne b
    simp [chars, parse, h₁, h₂]
  | object name =>
    have hname : parseName (name ++ ';' :: rest) = some (name, rest) := parseName_append h.1 h.2
    simp [chars, parse, hname]
  | array t ih => simp [chars, parse, ih h]

/-- The text of a type does not begin with the parenthesis that closes a list of parameters. -/
theorem exists_chars_eq_cons (t : FieldType) : ∃ c cs, t.chars = c :: cs ∧ c ≠ ')' := by
  cases t with
  | base b => exact ⟨b.letter, [], rfl, by cases b <;> decide⟩
  | object name => exact ⟨'L', _, rfl, by decide⟩
  | array t => exact ⟨'[', _, rfl, by decide⟩

end FieldType

namespace MethodDescriptor

variable {ts : List FieldType} {result : Option FieldType} {cs rest : List Char}

/-- Parameters that are read are well formed, and their text is what was read. -/
theorem parseParameters_eq_some (h : parseParameters cs = some (ts, rest)) :
    cs = ts.flatMap FieldType.chars ++ ')' :: rest ∧ ∀ t ∈ ts, t.WellFormed := by
  induction cs using parseParameters.induct generalizing ts with
  | case1 => simp [parseParameters] at h
  | case2 cs =>
    rw [parseParameters, if_pos rfl] at h
    cases h
    exact ⟨rfl, by simp⟩
  | case3 c cs hc hparse =>
    rw [parseParameters, if_neg hc] at h
    split at h
    · cases h
    · rename_i h'
      rw [hparse] at h'
      cases h'
  | case4 c cs hc t rest' hparse ih =>
    rw [parseParameters, if_neg hc] at h
    split at h
    · cases h
    · rename_i t' rest'' h'
      rw [hparse] at h'
      cases h'
      obtain ⟨⟨ts', rest''⟩, hrest, h⟩ := Option.map_eq_some_iff.1 h
      cases h
      obtain ⟨hcs, hwf⟩ := FieldType.parse_eq_some hparse
      obtain ⟨rfl, hall⟩ := ih hrest
      refine ⟨by rw [hcs, List.flatMap_cons, List.append_assoc], fun t' ht' => ?_⟩
      rcases List.mem_cons.1 ht' with rfl | ht'
      · exact hwf
      · exact hall t' ht'

/-- Well-formed parameters are read back from their text. -/
theorem parseParameters_append (h : ∀ t ∈ ts, t.WellFormed) :
    parseParameters (ts.flatMap FieldType.chars ++ ')' :: rest) = some (ts, rest) := by
  induction ts with
  | nil => rw [List.flatMap_nil, List.nil_append, parseParameters, if_pos rfl]
  | cons t ts ih =>
    have hparse : FieldType.parse (t.chars ++ (ts.flatMap FieldType.chars ++ ')' :: rest)) =
        some (t, ts.flatMap FieldType.chars ++ ')' :: rest) :=
      FieldType.parse_chars_append (h t List.mem_cons_self)
    obtain ⟨c, cs, hc, hne⟩ := t.exists_chars_eq_cons
    rw [List.flatMap_cons, List.append_assoc]
    rw [hc, List.cons_append] at hparse ⊢
    rw [parseParameters, if_neg hne]
    split
    · rename_i h'
      rw [hparse] at h'
      cases h'
    · rename_i h'
      rw [hparse] at h'
      cases h'
      rw [ih fun t' ht' => h t' (List.mem_cons_of_mem _ ht')]
      rfl

/-- A return type that is read is well formed, and its text is what was read. -/
theorem parseReturn_eq_some (h : parseReturn cs = some (result, rest)) :
    cs = returnChars result ++ rest ∧ ∀ t ∈ result, t.WellFormed := by
  unfold parseReturn at h
  split at h
  · cases h
    exact ⟨rfl, by simp⟩
  · obtain ⟨⟨t, rest'⟩, hparse, h⟩ := Option.map_eq_some_iff.1 h
    cases h
    obtain ⟨hcs, hwf⟩ := FieldType.parse_eq_some hparse
    exact ⟨hcs, by simpa using hwf⟩

/-- A well-formed return type is read back from its text. -/
theorem parseReturn_append (h : ∀ t ∈ result, t.WellFormed) :
    parseReturn (returnChars result ++ rest) = some (result, rest) := by
  cases result with
  | none => rfl
  | some t =>
    have hparse : FieldType.parse (t.chars ++ rest) = some (t, rest) :=
      FieldType.parse_chars_append (h t rfl)
    show parseReturn (t.chars ++ rest) = _
    unfold parseReturn
    split
    · rename_i hcs
      rw [hcs] at hparse
      simp [FieldType.parse, BaseType.ofLetter?] at hparse
    · rw [hparse]
      rfl

/-- The reader accepts exactly the texts of well-formed descriptors. -/
theorem parse?_eq_some_iff {text : String} {d : MethodDescriptor} :
    parse? text = some d ↔ d.WellFormed ∧ text = d.toString := by
  unfold parse? MethodDescriptor.toString
  rw [← String.toList_inj, String.toList_ofList]
  generalize text.toList = cs
  constructor
  · intro h
    unfold parseChars at h
    split at h
    · split at h
      · cases h
      · rename_i ts rest hparams
        split at h
        · rename_i result hresult
          cases h
          obtain ⟨rfl, hts⟩ := parseParameters_eq_some hparams
          obtain ⟨rfl, hr⟩ := parseReturn_eq_some hresult
          exact ⟨⟨hts, hr⟩, by simp [chars]⟩
        · cases h
    · cases h
  · rintro ⟨⟨hts, hr⟩, rfl⟩
    have hresult : parseReturn (returnChars d.returnType ++ []) = some (d.returnType, []) :=
      parseReturn_append hr
    rw [List.append_nil] at hresult
    simp only [chars, parseChars]
    rw [parseParameters_append hts]
    simp only [hresult]

end MethodDescriptor

end Forwarder
