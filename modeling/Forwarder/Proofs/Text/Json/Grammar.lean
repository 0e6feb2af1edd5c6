import Forwarder.Text.Json

/-!
# What a JSON text denotes

`Json.Denotes` says which value a text stands for, by the grammar of JSON: a value between blanks,
where blanks may stand around every token, too. `Json.Reads` holds the rules for a value and for the
items and fields of arrays and objects, `ReadsNumber` and `ReadsChar` those for a number and for a
character of a string. Each of them relates a text to what it begins with and to what is left of it,
and leaves no choice: `Denotes.unique` says that a text denotes at most one value.

`Json` has neither truth values nor fractions, so the texts of these denote nothing here. Neither do
the escapes of single surrogates, which are no character.
-/

namespace Forwarder.Json

/-! ## Blanks and numbers -/

/-- A character that may stand between two tokens. -/
def isBlank (c : Char) : Bool := c = ' ' || c = '\t' || c = '\n' || c = '\r'

/-- What is left of a text behind the blanks at its front. -/
def skipBlanks (text : List Char) : List Char := text.dropWhile isBlank

/-- The digits of a number, without a zero in front of others. -/
structure IsWhole (digits : List Char) : Prop where
  isDigit : ∀ c ∈ digits, c.isDigit = true
  ne_nil : digits ≠ []
  eq_zero : digits.head? = some '0' → digits = ['0']

/-- A text does not go on with what could belong to a number: a digit, a fraction or an exponent. -/
def EndsNumber (text : List Char) : Prop :=
  ∀ c ∈ text.head?, c.isDigit = false ∧ c ≠ '.' ∧ c ≠ 'e' ∧ c ≠ 'E'

/-- A text begins with a number. -/
inductive ReadsNumber : List Char → Int → List Char → Prop where
  | natural {digits rest : List Char} (h : IsWhole digits) (hend : EndsNumber rest) :
      ReadsNumber (digits ++ rest) (Nat.ofDigitChars 10 digits 0) rest
  | negative {digits rest : List Char} (h : IsWhole digits) (hend : EndsNumber rest) :
      ReadsNumber ('-' :: (digits ++ rest)) (-(Nat.ofDigitChars 10 digits 0)) rest

/-! ## Strings -/

/-- The character that a character behind a backslash stands for, the escapes of units apart. -/
def unescape? : Char → Option Char
  | '"' => some '"'
  | '\\' => some '\\'
  | '/' => some '/'
  | 'b' => some '\x08'
  | 'f' => some '\x0c'
  | 'n' => some '\n'
  | 'r' => some '\r'
  | 't' => some '\t'
  | _ => none

/-- The number that a hexadecimal digit stands for, in lower or upper case. -/
def hexValue? (c : Char) : Option Nat :=
  if '0' ≤ c ∧ c ≤ '9' then some (c.toNat - 0x30)
  else if 'a' ≤ c ∧ c ≤ 'f' then some (c.toNat - 0x61 + 10)
  else if 'A' ≤ c ∧ c ≤ 'F' then some (c.toNat - 0x41 + 10)
  else none

/-- A text begins with the escape of a UTF-16 unit. -/
inductive ReadsUnit : List Char → Nat → List Char → Prop where
  | intro {a b c d : Char} {i j k l : Nat} {rest : List Char} (ha : hexValue? a = some i)
      (hb : hexValue? b = some j) (hc : hexValue? c = some k) (hd : hexValue? d = some l) :
      ReadsUnit ('\\' :: 'u' :: a :: b :: c :: d :: rest) (4096 * i + 256 * j + 16 * k + l) rest

/-- A text begins with a character of a string. It stands for itself if it is no control character,
quote or backslash; all can be escaped, those beyond the basic plane by a pair of surrogates. -/
inductive ReadsChar : List Char → Char → List Char → Prop where
  | plain {c : Char} {rest : List Char} (hc : ' ' ≤ c) (hquote : c ≠ '"') (hslash : c ≠ '\\') :
      ReadsChar (c :: rest) c rest
  | escaped {e c : Char} {rest : List Char} (h : unescape? e = some c) :
      ReadsChar ('\\' :: e :: rest) c rest
  | unit {n : Nat} {text rest : List Char} (h : ReadsUnit text n rest)
      (hrange : n < 0xD800 ∨ 0xDFFF < n) : ReadsChar text (Char.ofNat n) rest
  | pair {high low : Nat} {text text' rest : List Char} (hhigh : ReadsUnit text high text')
      (hhighRange : 0xD800 ≤ high ∧ high < 0xDC00) (hlow : ReadsUnit text' low rest)
      (hlowRange : 0xDC00 ≤ low ∧ low < 0xE000) :
      ReadsChar text (Char.ofNat (0x10000 + 1024 * (high - 0xD800) + (low - 0xDC00))) rest

/-- A text begins with the characters of a string and the quote that ends it. -/
inductive ReadsChars : List Char → List Char → List Char → Prop where
  | nil {rest : List Char} : ReadsChars ('"' :: rest) [] rest
  | cons {c : Char} {text text' chars rest : List Char} (h : ReadsChar text c text')
      (hrest : ReadsChars text' chars rest) : ReadsChars text (c :: chars) rest

/-! ## Values -/

/-- A part of a text: a value, a field of an object, and what follows the opening bracket or an item
of an array or object, up to the closing bracket. -/
inductive Part where
  | value (v : Json)
  | field (name : String) (v : Json)
  | items (vs : List Json)
  | moreItems (vs : List Json)
  | fields (fs : List (String × Json))
  | moreFields (fs : List (String × Json))

/-- A text begins with a part. -/
inductive Reads : List Char → Part → List Char → Prop where
  | null {rest : List Char} : Reads ('n' :: 'u' :: 'l' :: 'l' :: rest) (.value .null) rest
  | number {text rest : List Char} {n : Int} (h : ReadsNumber text n rest) :
      Reads text (.value (.number n)) rest
  | string {text chars rest : List Char} (h : ReadsChars text chars rest) :
      Reads ('"' :: text) (.value (.string (String.ofList chars))) rest
  | array {text rest : List Char} {vs : List Json} (h : Reads (skipBlanks text) (.items vs) rest) :
      Reads ('[' :: text) (.value (.array vs)) rest
  | object {text rest : List Char} {fs : List (String × Json)}
      (h : Reads (skipBlanks text) (.fields fs) rest) :
      Reads ('\x7b' :: text) (.value (.object fs)) rest
  | field {text text₁ text₂ name rest : List Char} {v : Json}
      (hname : ReadsChars text name text₁) (hcolon : skipBlanks text₁ = ':' :: text₂)
      (h : Reads (skipBlanks text₂) (.value v) rest) :
      Reads ('"' :: text) (.field (String.ofList name) v) rest
  | noItems {rest : List Char} : Reads (']' :: rest) (.items []) rest
  | items {text text' rest : List Char} {v : Json} {vs : List Json}
      (h : Reads text (.value v) text') (hmore : Reads (skipBlanks text') (.moreItems vs) rest) :
      Reads text (.items (v :: vs)) rest
  | noMoreItems {rest : List Char} : Reads (']' :: rest) (.moreItems []) rest
  | moreItems {text text' rest : List Char} {v : Json} {vs : List Json}
      (h : Reads (skipBlanks text) (.value v) text')
      (hmore : Reads (skipBlanks text') (.moreItems vs) rest) :
      Reads (',' :: text) (.moreItems (v :: vs)) rest
  | noFields {rest : List Char} : Reads ('\x7d' :: rest) (.fields []) rest
  | fields {text text' rest : List Char} {name : String} {v : Json} {fs : List (String × Json)}
      (h : Reads text (.field name v) text')
      (hmore : Reads (skipBlanks text') (.moreFields fs) rest) :
      Reads text (.fields ((name, v) :: fs)) rest
  | noMoreFields {rest : List Char} : Reads ('\x7d' :: rest) (.moreFields []) rest
  | moreFields {text text' rest : List Char} {name : String} {v : Json}
      {fs : List (String × Json)} (h : Reads (skipBlanks text) (.field name v) text')
      (hmore : Reads (skipBlanks text') (.moreFields fs) rest) :
      Reads (',' :: text) (.moreFields ((name, v) :: fs)) rest

/-- A text is that of a value, with blanks around it. -/
def Denotes (text : List Char) (v : Json) : Prop :=
  ∃ rest, Reads (skipBlanks text) (.value v) rest ∧ skipBlanks rest = []

/-! ## A text denotes one value -/

section Unique

variable {text rest rest' digits : List Char}

theorem takeWhile_whole (h : IsWhole digits) (hend : EndsNumber rest) :
    (digits ++ rest).takeWhile Char.isDigit = digits := by
  rw [List.takeWhile_append_of_pos h.isDigit]
  cases rest with
  | nil => rw [List.takeWhile_nil, List.append_nil]
  | cons c rest =>
    have hc : c.isDigit = false := (hend c rfl).1
    rw [List.takeWhile_cons_of_neg (by simp [hc]), List.append_nil]

/-- The digits of a number are all that stand at the front of its text. -/
theorem IsWhole.unique {digits' : List Char} (h : IsWhole digits) (hend : EndsNumber rest)
    (h' : IsWhole digits') (hend' : EndsNumber rest') (heq : digits ++ rest = digits' ++ rest') :
    digits = digits' ∧ rest = rest' := by
  have hdigits : digits = digits' := by
    rw [← takeWhile_whole h hend, heq, takeWhile_whole h' hend']
  subst hdigits
  exact ⟨rfl, List.append_cancel_left heq⟩

/-- The text of a natural number begins with a digit. -/
theorem IsWhole.exists_cons (h : IsWhole digits) :
    ∃ c tail, digits = c :: tail ∧ c.isDigit = true := by
  obtain ⟨c, tail, rfl⟩ := List.exists_cons_of_ne_nil h.ne_nil
  exact ⟨c, tail, rfl, h.isDigit c List.mem_cons_self⟩

/-- The text of a number begins with a digit or with a minus sign. -/
theorem ReadsNumber.exists_cons {n : Int} (h : ReadsNumber text n rest) :
    ∃ c tail, text = c :: tail ∧ (c.isDigit = true ∨ c = '-') := by
  cases h with
  | natural h hend =>
    obtain ⟨c, tail, rfl, hc⟩ := h.exists_cons
    exact ⟨c, _, rfl, .inl hc⟩
  | negative h hend => exact ⟨'-', _, rfl, .inr rfl⟩

/-- At most one number is read at the front of a text. -/
theorem ReadsNumber.unique {n n' : Int} (h : ReadsNumber text n rest)
    (h' : ReadsNumber text n' rest') : n = n' ∧ rest = rest' := by
  generalize htext : text = text' at h'
  cases h with
  | natural h hend =>
    cases h' with
    | natural h' hend' =>
      obtain ⟨rfl, rfl⟩ := h.unique hend h' hend' htext
      exact ⟨rfl, rfl⟩
    | negative h' hend' =>
      obtain ⟨c, tail, rfl, hc⟩ := h.exists_cons
      obtain ⟨rfl, -⟩ := List.cons.inj htext
      cases hc
  | negative h hend =>
    cases h' with
    | natural h' hend' =>
      obtain ⟨c, tail, rfl, hc⟩ := h'.exists_cons
      obtain ⟨rfl, -⟩ := List.cons.inj htext
      cases hc
    | negative h' hend' =>
      obtain ⟨rfl, rfl⟩ := h.unique hend h' hend' (List.cons.inj htext).2
      exact ⟨rfl, rfl⟩

/-- At most one escaped unit is read at the front of a text. -/
theorem ReadsUnit.unique {n n' : Nat} (h : ReadsUnit text n rest) (h' : ReadsUnit text n' rest') :
    n = n' ∧ rest = rest' := by
  generalize htext : text = text' at h'
  obtain ⟨ha, hb, hc, hd⟩ := h
  obtain ⟨ha', hb', hc', hd'⟩ := h'
  simp only [List.cons.injEq, true_and] at htext
  obtain ⟨rfl, rfl, rfl, rfl, rfl⟩ := htext
  cases ha.symm.trans ha'
  cases hb.symm.trans hb'
  cases hc.symm.trans hc'
  cases hd.symm.trans hd'
  exact ⟨rfl, rfl⟩

/-- The escape of a unit is not one of a character by a letter. -/
theorem ReadsUnit.not_escaped {n : Nat} (h : ReadsUnit text n rest) {e c : Char}
    {rest' : List Char} (hc : unescape? e = some c) : text ≠ '\\' :: e :: rest' := by
  rintro rfl
  cases h
  cases hc

theorem ReadsUnit.not_plain {n : Nat} (h : ReadsUnit text n rest) {c : Char} {rest' : List Char}
    (hc : c ≠ '\\') : text ≠ c :: rest' := by
  rintro rfl
  cases h
  exact hc rfl

/-- At most one character is read at the front of a text. -/
theorem ReadsChar.unique {c c' : Char} (h : ReadsChar text c rest)
    (h' : ReadsChar text c' rest') : c = c' ∧ rest = rest' := by
  generalize htext : text = text' at h'
  cases h with
  | plain hc hquote hslash =>
    cases h' with
    | plain => exact ⟨(List.cons.inj htext).1, (List.cons.inj htext).2⟩
    | escaped => exact absurd (List.cons.inj htext).1 hslash
    | unit h' => exact absurd htext.symm (h'.not_plain hslash)
    | pair h' => exact absurd htext.symm (h'.not_plain hslash)
  | escaped h =>
    cases h' with
    | plain _ _ hslash => exact absurd (List.cons.inj htext).1.symm hslash
    | escaped h' =>
      obtain ⟨-, htext⟩ := List.cons.inj htext
      obtain ⟨rfl, rfl⟩ := List.cons.inj htext
      exact ⟨Option.some.inj (h.symm.trans h'), rfl⟩
    | unit h' => exact absurd htext.symm (h'.not_escaped h)
    | pair h' => exact absurd htext.symm (h'.not_escaped h)
  | unit h hrange =>
    subst htext
    cases h' with
    | plain _ _ hslash => exact absurd rfl (h.not_plain hslash)
    | escaped h' => exact absurd rfl (h.not_escaped h')
    | unit h' =>
      obtain ⟨rfl, rfl⟩ := h.unique h'
      exact ⟨rfl, rfl⟩
    | pair h' hrange' =>
      obtain ⟨rfl, rfl⟩ := h.unique h'
      omega
  | pair h hrange hlow =>
    subst htext
    cases h' with
    | plain _ _ hslash => exact absurd rfl (h.not_plain hslash)
    | escaped h' => exact absurd rfl (h.not_escaped h')
    | unit h' hrange' =>
      obtain ⟨rfl, rfl⟩ := h.unique h'
      omega
    | pair h' _ hlow' =>
      obtain ⟨rfl, rfl⟩ := h.unique h'
      obtain ⟨rfl, rfl⟩ := hlow.unique hlow'
      exact ⟨rfl, rfl⟩

/-- No character is read from a quotation mark. -/
theorem ReadsChar.ne_quote {c : Char} (h : ReadsChar text c rest) : text ≠ '"' :: rest' := by
  cases h with
  | plain _ hquote => exact fun htext => hquote (List.cons.inj htext).1
  | escaped => exact fun htext => absurd (List.cons.inj htext).1 (by decide)
  | unit h => exact h.not_plain (by decide)
  | pair h => exact h.not_plain (by decide)

/-- At most one string of characters is read up to its quotation mark. -/
theorem ReadsChars.unique {chars chars' : List Char} (h : ReadsChars text chars rest)
    (h' : ReadsChars text chars' rest') : chars = chars' ∧ rest = rest' := by
  induction h generalizing chars' with
  | nil =>
    generalize htext : '"' :: _ = text' at h'
    cases h' with
    | nil => exact ⟨rfl, (List.cons.inj htext).2⟩
    | cons h' => exact absurd htext.symm h'.ne_quote
  | cons h hrest ih =>
    cases h' with
    | nil => exact absurd rfl h.ne_quote
    | cons h' hrest' =>
      obtain ⟨rfl, rfl⟩ := h.unique h'
      obtain ⟨rfl, rfl⟩ := ih hrest'
      exact ⟨rfl, rfl⟩

/-- The kinds of parts, those of values by the character that their texts begin with. -/
inductive Kind where
  | null | number | string | array | object | field | items | moreItems | fields | moreFields

/-- The kind of a part. -/
def Part.kind : Part → Kind
  | value .null => .null
  | value (.number _) => .number
  | value (.string _) => .string
  | value (.array _) => .array
  | value (.object _) => .object
  | field _ _ => .field
  | items _ => .items
  | moreItems _ => .moreItems
  | fields _ => .fields
  | moreFields _ => .moreFields

/-- The kind of the values whose texts begin with a character. -/
def kindOf? (c : Char) : Option Kind :=
  if c = 'n' then some .null
  else if c = '"' then some .string
  else if c = '[' then some .array
  else if c = '\x7b' then some .object
  else if c.isDigit ∨ c = '-' then some .number
  else none

theorem kindOf?_of_number {c : Char} (h : c.isDigit = true ∨ c = '-') :
    kindOf? c = some .number := by
  have hne : c ≠ 'n' ∧ c ≠ '"' ∧ c ≠ '[' ∧ c ≠ '\x7b' := by
    refine ⟨?_, ?_, ?_, ?_⟩ <;> rintro rfl <;> revert h <;> decide
  rw [kindOf?, if_neg hne.1, if_neg hne.2.1, if_neg hne.2.2.1, if_neg hne.2.2.2, if_pos h]

/-- The first character of a value's text tells the kind of the value. -/
theorem Reads.exists_cons {v : Json} (h : Reads text (.value v) rest) :
    ∃ c tail, text = c :: tail ∧ kindOf? c = some (Part.value v).kind := by
  cases h with
  | null | string | array | object => exact ⟨_, _, rfl, rfl⟩
  | number h =>
    obtain ⟨c, tail, rfl, hc⟩ := h.exists_cons
    exact ⟨c, tail, rfl, kindOf?_of_number hc⟩

/-- Values of one text are of one kind. -/
theorem Reads.kind_eq {v v' : Json} (h : Reads text (.value v) rest)
    (h' : Reads text (.value v') rest') : (Part.value v).kind = (Part.value v').kind := by
  obtain ⟨c, tail, rfl, hc⟩ := h.exists_cons
  obtain ⟨c', tail', htext, hc'⟩ := h'.exists_cons
  obtain ⟨rfl, -⟩ := List.cons.inj htext
  exact Option.some.inj (hc.symm.trans hc')

/-- No value's text begins with a closing bracket. -/
theorem Reads.ne_cons {v : Json} (h : Reads text (.value v) rest) {c : Char}
    (hc : kindOf? c = none) : text ≠ c :: rest' := by
  rintro rfl
  obtain ⟨c', tail, htext, hc'⟩ := h.exists_cons
  obtain ⟨rfl, -⟩ := List.cons.inj htext
  cases hc.symm.trans hc'

/-- A text begins with at most one part of a kind. -/
theorem Reads.unique {p p' : Part} (h : Reads text p rest) (h' : Reads text p' rest')
    (hkind : p.kind = p'.kind) : p = p' ∧ rest = rest' := by
  induction h generalizing p' rest' with
  | null =>
    generalize htext : 'n' :: _ = text' at h'
    cases h' with
    | null =>
      simp only [List.cons.injEq, true_and] at htext
      exact ⟨rfl, htext⟩
    | _ => cases hkind
  | number h =>
    cases h' with
    | number h' =>
      obtain ⟨rfl, rfl⟩ := h.unique h'
      exact ⟨rfl, rfl⟩
    | _ => cases hkind
  | string h =>
    generalize htext : '"' :: _ = text' at h'
    cases h' with
    | string h' =>
      obtain ⟨-, rfl⟩ := List.cons.inj htext
      obtain ⟨rfl, rfl⟩ := h.unique h'
      exact ⟨rfl, rfl⟩
    | _ => cases hkind
  | array h ih =>
    generalize htext : '[' :: _ = text' at h'
    cases h' with
    | array h' =>
      obtain ⟨-, rfl⟩ := List.cons.inj htext
      obtain ⟨hvs, rfl⟩ := ih h' rfl
      cases hvs
      exact ⟨rfl, rfl⟩
    | _ => cases hkind
  | object h ih =>
    generalize htext : '\x7b' :: _ = text' at h'
    cases h' with
    | object h' =>
      obtain ⟨-, rfl⟩ := List.cons.inj htext
      obtain ⟨hfs, rfl⟩ := ih h' rfl
      cases hfs
      exact ⟨rfl, rfl⟩
    | _ => cases hkind
  | field hname hcolon h ih =>
    generalize htext : '"' :: _ = text' at h'
    cases h' with
    | field hname' hcolon' h' =>
      obtain ⟨-, rfl⟩ := List.cons.inj htext
      obtain ⟨rfl, rfl⟩ := hname.unique hname'
      cases hcolon.symm.trans hcolon'
      obtain ⟨hv, rfl⟩ := ih h' (h.kind_eq h')
      cases hv
      exact ⟨rfl, rfl⟩
    | _ => cases hkind
  | noItems =>
    generalize htext : ']' :: _ = text' at h'
    cases h' with
    | noItems => exact ⟨rfl, (List.cons.inj htext).2⟩
    | items h' => exact absurd htext.symm (h'.ne_cons rfl)
    | _ => cases hkind
  | items h hmore ih ihmore =>
    cases h' with
    | noItems => exact absurd rfl (h.ne_cons rfl)
    | items h' hmore' =>
      obtain ⟨hv, rfl⟩ := ih h' (h.kind_eq h')
      obtain ⟨hvs, rfl⟩ := ihmore hmore' rfl
      cases hv
      cases hvs
      exact ⟨rfl, rfl⟩
    | _ => cases hkind
  | noMoreItems =>
    generalize htext : ']' :: _ = text' at h'
    cases h' with
    | noMoreItems => exact ⟨rfl, (List.cons.inj htext).2⟩
    | moreItems => exact absurd (List.cons.inj htext).1 (by decide)
    | _ => cases hkind
  | moreItems h hmore ih ihmore =>
    generalize htext : ',' :: _ = text' at h'
    cases h' with
    | noMoreItems => exact absurd (List.cons.inj htext).1 (by decide)
    | moreItems h' hmore' =>
      obtain ⟨-, rfl⟩ := List.cons.inj htext
      obtain ⟨hv, rfl⟩ := ih h' (h.kind_eq h')
      obtain ⟨hvs, rfl⟩ := ihmore hmore' rfl
      cases hv
      cases hvs
      exact ⟨rfl, rfl⟩
    | _ => cases hkind
  | noFields =>
    generalize htext : '\x7d' :: _ = text' at h'
    cases h' with
    | noFields => exact ⟨rfl, (List.cons.inj htext).2⟩
    | fields h' =>
      cases h'
      exact absurd (List.cons.inj htext).1 (by decide)
    | _ => cases hkind
  | fields h hmore ih ihmore =>
    cases h' with
    | noFields => cases h
    | fields h' hmore' =>
      obtain ⟨hf, rfl⟩ := ih h' rfl
      obtain ⟨hfs, rfl⟩ := ihmore hmore' rfl
      cases hf
      cases hfs
      exact ⟨rfl, rfl⟩
    | _ => cases hkind
  | noMoreFields =>
    generalize htext : '\x7d' :: _ = text' at h'
    cases h' with
    | noMoreFields => exact ⟨rfl, (List.cons.inj htext).2⟩
    | moreFields => exact absurd (List.cons.inj htext).1 (by decide)
    | _ => cases hkind
  | moreFields h hmore ih ihmore =>
    generalize htext : ',' :: _ = text' at h'
    cases h' with
    | noMoreFields => exact absurd (List.cons.inj htext).1 (by decide)
    | moreFields h' hmore' =>
      obtain ⟨-, rfl⟩ := List.cons.inj htext
      obtain ⟨hf, rfl⟩ := ih h' rfl
      obtain ⟨hfs, rfl⟩ := ihmore hmore' rfl
      cases hf
      cases hfs
      exact ⟨rfl, rfl⟩
    | _ => cases hkind

/-- **A text denotes at most one value.** -/
theorem Denotes.unique {v v' : Json} (h : Denotes text v) (h' : Denotes text v') : v = v' := by
  obtain ⟨rest, h, -⟩ := h
  obtain ⟨rest', h', -⟩ := h'
  obtain ⟨hv, -⟩ := h.unique h' (h.kind_eq h')
  cases hv
  rfl

end Unique

end Forwarder.Json
