import Forwarder.Descriptor

/-!
# Reading method descriptors

`FieldType.parse` reads one type from the front of a text and `MethodDescriptor.parse?` reads a whole
descriptor. A class name extends to the first semicolon and may hold any characters but `[` and `.`,
among them blanks and parentheses.
-/

namespace Forwarder

namespace FieldType

/-- The class name at the front of a text and what follows its semicolon. -/
def parseName (cs : List Char) : Option (List Char × List Char) :=
  match cs.takeWhile isNameChar, cs.dropWhile isNameChar with
  | c :: name, ';' :: rest => some (c :: name, rest)
  | _, _ => none

/-- The type at the front of a text and what follows it. -/
def parse : List Char → Option (FieldType × List Char)
  | [] => none
  | c :: cs =>
    if c = '[' then (parse cs).map fun (t, rest) => (array t, rest)
    else if c = 'L' then (parseName cs).map fun (name, rest) => (object name, rest)
    else (BaseType.ofLetter? c).map fun t => (base t, cs)

section

variable {cs rest name : List Char} {t : FieldType}

/-- A name that is parsed stands in front of a semicolon, is not empty and holds name characters
only. -/
theorem parseName_eq_some (h : parseName cs = some (name, rest)) :
    cs = name ++ ';' :: rest ∧ name ≠ [] ∧ ∀ c ∈ name, isNameChar c := by
  unfold parseName at h
  split at h
  · rename_i c name' rest' htake hdrop
    obtain ⟨rfl, rfl⟩ : c :: name' = name ∧ rest' = rest := by simpa using h
    refine ⟨?_, by simp, ?_⟩
    · rw [← htake, ← hdrop, List.takeWhile_append_dropWhile]
    · rw [← htake]
      exact List.all_eq_true.1 List.all_takeWhile
  · cases h

/-- A type that is read is well formed, and its text is what was read. -/
theorem parse_eq_some (h : parse cs = some (t, rest)) : cs = t.chars ++ rest ∧ t.WellFormed := by
  induction cs generalizing t rest with
  | nil => cases h
  | cons c cs ih =>
    simp only [parse] at h
    split at h
    · rename_i hc
      obtain ⟨⟨t', rest'⟩, h', h⟩ := Option.map_eq_some_iff.1 h
      cases h
      obtain ⟨rfl, hwf⟩ := ih h'
      exact ⟨by simp [chars, hc], hwf⟩
    · split at h
      · rename_i hc
        obtain ⟨⟨name, rest'⟩, h', h⟩ := Option.map_eq_some_iff.1 h
        cases h
        obtain ⟨rfl, hwf⟩ := parseName_eq_some h'
        exact ⟨by simp [chars, hc], hwf⟩
      · obtain ⟨b, h', h⟩ := Option.map_eq_some_iff.1 h
        cases h
        refine ⟨?_, trivial⟩
        have : b.letter = c := by
          unfold BaseType.ofLetter? at h'
          split at h' <;> cases h' <;> rfl
        simp [chars, this]

/-- What follows a type is shorter than the text that begins with it. -/
theorem length_parse (h : parse cs = some (t, rest)) : rest.length < cs.length := by
  obtain ⟨rfl, -⟩ := parse_eq_some h
  have := List.length_pos_iff.2 t.chars_ne_nil
  rw [List.length_append]
  omega

end

end FieldType

namespace MethodDescriptor

/-- The parameter types at the front of a text and what follows their closing parenthesis. -/
def parseParameters : List Char → Option (List FieldType × List Char)
  | [] => none
  | c :: cs =>
    if c = ')' then some ([], cs)
    else
      match _h : FieldType.parse (c :: cs) with
      | none => none
      | some (t, rest) => (parseParameters rest).map fun (ts, rest) => (t :: ts, rest)
termination_by cs => cs.length
decreasing_by exact FieldType.length_parse _h

/-- The return type at the front of a text and what follows it. -/
def parseReturn : List Char → Option (Option FieldType × List Char)
  | 'V' :: rest => some (none, rest)
  | cs => (FieldType.parse cs).map fun (t, rest) => (some t, rest)

/-- The descriptor that a list of characters spells. -/
def parseChars : List Char → Option MethodDescriptor
  | '(' :: cs =>
    match parseParameters cs with
    | none => none
    | some (ts, rest) =>
      match parseReturn rest with
      | some (result, []) => some ⟨ts, result⟩
      | _ => none
  | _ => none

/-- The descriptor that a text spells. -/
def parse? (text : String) : Option MethodDescriptor := parseChars text.toList

end MethodDescriptor

end Forwarder
