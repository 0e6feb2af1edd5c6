import Mathlib.Tactic.SplitIfs
import Forwarder.Proofs.Text.Json.Grammar

/-!
# JSON text denotes the value it was written from

`Json.denotes_render`: where a layout puts nothing but blanks between tokens, the text of a value
denotes that value. The proof goes along the rendering: each part of the text reads as the part of
the value that it was written from, whatever follows. `Json.render_ascii` says that the text holds
ASCII characters only.
-/

namespace Forwarder.Json

section Number

variable {rest : List Char}

/-- Only zero is written with a zero in front. -/
theorem eq_zero_of_head?_toDigits (n : Nat) (h : (Nat.toDigits 10 n).head? = some '0') :
    n = 0 := by
  induction n using Nat.strongRecOn with
  | ind n ih =>
    by_cases hn : n < 10
    · rw [Nat.toDigits_of_lt_base hn] at h
      exact Nat.digitChar_eq_zero.1 (Option.some.inj h)
    · rw [Nat.toDigits_of_base_le (by decide) (by omega), List.head?_append,
        Option.or_eq_left_of_isSome (List.isSome_head?.2 Nat.toDigits_ne_nil)] at h
      have htenth : n / 10 = 0 := ih (n / 10) (by omega) h
      omega

/-- The digits of a number are those of a whole number. -/
theorem toDigits_whole (n : Nat) : IsWhole (Nat.toDigits 10 n) where
  isDigit _ hc := Nat.isDigit_of_mem_toDigits (by decide) (by decide) hc
  ne_nil := Nat.toDigits_ne_nil
  eq_zero h := by rw [eq_zero_of_head?_toDigits n h, Nat.toDigits_zero]

/-- A number is written in decimal digits, with a minus sign in front if it is negative. -/
theorem toList_toString (n : Int) : (toString n).toList =
    if 0 ≤ n then Nat.toDigits 10 n.toNat else '-' :: Nat.toDigits 10 (-n).toNat := by
  rw [Int.toString_eq_repr, Int.repr_eq_if]
  split
  · rw [Nat.repr_eq_ofList_toDigits, String.toList_ofList]
  · rw [Nat.repr_eq_ofList_toDigits, String.toList_append, String.toList_ofList]
    exact congrArg ('-' :: ·) String.toList_ofList

/-- The text of a number reads as the number. -/
theorem readsNumber_toString (n : Int) (hend : EndsNumber rest) :
    ReadsNumber ((toString n).toList ++ rest) n rest := by
  have hdigits (m : Nat) : Nat.ofDigitChars 10 (Nat.toDigits 10 m) 0 = m :=
    Nat.ofDigitChars_toDigits (by decide) (by decide)
  rw [toList_toString]
  split
  case isTrue hn =>
    have h := ReadsNumber.natural (toDigits_whole n.toNat) hend
    rwa [hdigits, Int.toNat_of_nonneg hn] at h
  case isFalse hn =>
    have h := ReadsNumber.negative (toDigits_whole (-n).toNat) hend
    rwa [hdigits, Int.toNat_of_nonneg (by omega), Int.neg_neg] at h

end Number

section String

/-- A hexadecimal digit has the value that it is written for. -/
theorem hexValue?_digitChar : ∀ d < 16, hexValue? (Nat.digitChar d) = some d := by decide

/-- The escape of a unit reads as the unit. -/
theorem readsUnit_escapeUnit {n : Nat} (hn : n < 0x10000) (rest : List Char) :
    ReadsUnit (escapeUnit n ++ rest) n rest := by
  have hdigit (m : Nat) : hexValue? (Nat.digitChar (m % 16)) = some (m % 16) :=
    hexValue?_digitChar _ (Nat.mod_lt m (by decide))
  have hsum : 4096 * (n / 4096 % 16) + 256 * (n / 256 % 16) + 16 * (n / 16 % 16) + n % 16 = n := by
    omega
  have h : ReadsUnit (escapeUnit n ++ rest) _ rest :=
    .intro (hdigit (n / 4096)) (hdigit (n / 256)) (hdigit (n / 16)) (hdigit n)
  rwa [hsum] at h

/-- A character inside a string reads as itself, however it is written. -/
theorem readsChar_escapeChar (c : Char) (rest : List Char) :
    ReadsChar (escapeChar c ++ rest) c rest := by
  have hc : Char.ofNat c.toNat = c := Char.ofNat_toNat c
  have hvalid : c.toNat < 0xD800 ∨ 0xDFFF < c.toNat ∧ c.toNat < 0x110000 := c.valid
  rw [escapeChar]
  split_ifs with hquote hslash hn hr ht hb hf hplain hunit
  · subst hquote
    exact .escaped rfl
  · subst hslash
    exact .escaped rfl
  · subst hn
    exact .escaped rfl
  · subst hr
    exact .escaped rfl
  · subst ht
    exact .escaped rfl
  · subst hb
    exact .escaped rfl
  · subst hf
    exact .escaped rfl
  · exact .plain hplain.1 hquote hslash
  · have h := ReadsChar.unit (readsUnit_escapeUnit hunit rest) (by omega)
    rwa [hc] at h
  · -- The two halves of the offset are the ten bits that each surrogate carries.
    rw [List.append_assoc]
    have hoffset : c.toNat - 0x10000 < 0x100000 := by omega
    have h := ReadsChar.pair
      (readsUnit_escapeUnit (n := 0xD800 + (c.toNat - 0x10000) / 1024) (by omega) _) (by omega)
      (readsUnit_escapeUnit (n := 0xDC00 + (c.toNat - 0x10000) % 1024) (by omega) rest)
      (by omega)
    have hsum : 0x10000 + 1024 * (0xD800 + (c.toNat - 0x10000) / 1024 - 0xD800)
        + (0xDC00 + (c.toNat - 0x10000) % 1024 - 0xDC00) = c.toNat := by omega
    rwa [hsum, hc] at h

/-- The characters of a string read as themselves, up to the quote behind them. -/
theorem readsChars_flatMap (chars rest : List Char) :
    ReadsChars (chars.flatMap escapeChar ++ '"' :: rest) chars rest := by
  induction chars with
  | nil => exact .nil
  | cons c chars ih =>
    rw [List.flatMap_cons, List.append_assoc]
    exact .cons (readsChar_escapeChar c _) ih

theorem quote_append (s : String) (rest : List Char) :
    quote s ++ rest = '"' :: (s.toList.flatMap escapeChar ++ '"' :: rest) := by
  rw [quote, List.cons_append, List.append_assoc, List.singleton_append]

end String

section Layout

variable {layout : Layout} {gap text rest : List Char} {c : Char}

/-- The layouts that put nothing but blanks between tokens: those on one line, and those that indent
by a number of spaces or by other blanks. -/
inductive Layout.IsBlank : Layout → Prop where
  | line : IsBlank .line
  | spaces (n : Int) : IsBlank (.spaces n)
  | indented {unit : String} (h : ∀ c ∈ unit.toList, isBlank c = true) : IsBlank (.indented unit)

/-- Breaks are blanks, apart from the comma between two items. -/
structure Layout.Breaks.IsBlank (breaks : Layout.Breaks) : Prop where
  first : ∀ c ∈ breaks.first, isBlank c = true
  between : ∃ gap, breaks.between = ',' :: gap ∧ ∀ c ∈ gap, isBlank c = true
  last : ∀ c ∈ breaks.last, isBlank c = true

/-- A layout with a blank unit breaks lines with blanks only. -/
theorem Layout.breaks_isBlank_of_unit {unit : String} (h : ∀ c ∈ unit.toList, isBlank c = true)
    (depth : Nat) : ((Layout.indented unit).breaks depth).IsBlank := by
  have houter : ∀ c ∈ '\n' :: (List.replicate depth unit.toList).flatten, isBlank c = true := by
    intro c hc
    obtain rfl | hc := List.mem_cons.1 hc
    · rfl
    · obtain ⟨l, hl, hc⟩ := List.mem_flatten.1 hc
      exact h c (List.eq_of_mem_replicate hl ▸ hc)
  have hinner := List.forall_mem_append.2 ⟨houter, h⟩
  exact ⟨hinner, ⟨_, rfl, hinner⟩, houter⟩

/-- The breaks of a layout that indents by blanks are blanks. -/
theorem Layout.IsBlank.breaks (h : layout.IsBlank) (depth : Nat) :
    (layout.breaks depth).IsBlank := by
  cases h with
  | line => exact ⟨nofun, ⟨[' '], rfl, List.forall_mem_singleton.2 rfl⟩, nofun⟩
  | spaces n =>
    refine breaks_isBlank_of_unit (fun c hc => ?_) depth
    rw [String.toList_ofList] at hc
    rw [List.eq_of_mem_replicate hc]
    rfl
  | indented h => exact breaks_isBlank_of_unit h depth

theorem eq_of_isBlank (h : isBlank c = true) : c = ' ' ∨ c = '\t' ∨ c = '\n' ∨ c = '\r' := by
  simpa [isBlank, or_assoc] using h

/-- Blanks in front of a text are skipped. -/
theorem skipBlanks_append (hgap : ∀ c ∈ gap, isBlank c = true) :
    skipBlanks (gap ++ text) = skipBlanks text :=
  List.dropWhile_append_of_pos hgap

/-- A value's text does not begin with a blank. -/
theorem Reads.skipBlanks_value {v : Json} (h : Reads text (.value v) rest) :
    skipBlanks text = text := by
  obtain ⟨c, tail, rfl, hc⟩ := h.exists_cons
  refine List.dropWhile_cons_of_neg fun hblank => ?_
  obtain rfl | rfl | rfl | rfl := eq_of_isBlank hblank <;> cases hc

/-- A field's text does not begin with a blank. -/
theorem Reads.skipBlanks_field {name : String} {v : Json} (h : Reads text (.field name v) rest) :
    skipBlanks text = text := by
  cases h
  rfl

theorem endsNumber_cons (h : c.isDigit = false ∧ c ≠ '.' ∧ c ≠ 'e' ∧ c ≠ 'E') :
    EndsNumber (c :: text) := by
  rintro _ ⟨⟩
  exact h

/-- A number ends in front of blanks, too. -/
theorem EndsNumber.append (hgap : ∀ c ∈ gap, isBlank c = true) (h : EndsNumber rest) :
    EndsNumber (gap ++ rest) := by
  cases gap with
  | nil => exact h
  | cons c gap =>
    refine endsNumber_cons ?_
    obtain rfl | rfl | rfl | rfl := eq_of_isBlank (hgap c List.mem_cons_self) <;> decide

end Layout

section Value

variable {layout : Layout}

mutual

/-- The text of a value reads as the value. -/
theorem reads_renderAt (hlayout : layout.IsBlank) (depth : Nat) {rest : List Char}
    (hend : EndsNumber rest) : ∀ v, Reads (renderAt layout depth v ++ rest) (.value v) rest
  | .null => .null
  | .number n => .number (readsNumber_toString n hend)
  | .string s => by
    have h := Reads.string (readsChars_flatMap s.toList rest)
    rwa [String.ofList_toList, ← quote_append] at h
  | .array [] => .array .noItems
  | .array (item :: items) => by
    obtain ⟨hfirst, ⟨gap, hbetween, hgap⟩, hlast⟩ := hlayout.breaks depth
    simp only [renderAt, hbetween, List.cons_append, List.append_assoc, List.nil_append]
    obtain ⟨hends, hitems⟩ := reads_renderItems hlayout (depth + 1) rest hgap hlast items
    have hitem := reads_renderAt hlayout (depth + 1) hends item
    refine .array ?_
    rw [skipBlanks_append hfirst, hitem.skipBlanks_value]
    exact .items hitem hitems
  | .object [] => .object .noFields
  | .object (field :: fields) => by
    obtain ⟨hfirst, ⟨gap, hbetween, hgap⟩, hlast⟩ := hlayout.breaks depth
    simp only [renderAt, hbetween, List.cons_append, List.append_assoc, List.nil_append]
    obtain ⟨hends, hfields⟩ :=
      reads_renderFields hlayout (depth + 1) rest hgap hlast fields
    have hfield := reads_renderField hlayout (depth + 1) hends field
    refine .object ?_
    rw [skipBlanks_append hfirst, hfield.skipBlanks_field]
    exact .fields hfield hfields

/-- The text of further items of an array reads as the items, and a number ends in front of it. -/
theorem reads_renderItems (hlayout : layout.IsBlank) (depth : Nat) {gap last : List Char}
    (rest : List Char) (hgap : ∀ c ∈ gap, isBlank c = true)
    (hlast : ∀ c ∈ last, isBlank c = true) : ∀ items,
    EndsNumber (renderItems layout depth (',' :: gap) items ++ (last ++ ']' :: rest)) ∧
      Reads (skipBlanks (renderItems layout depth (',' :: gap) items ++ (last ++ ']' :: rest)))
        (.moreItems items) rest
  | [] => by
    rw [renderItems, List.nil_append, skipBlanks_append hlast]
    exact ⟨.append hlast (endsNumber_cons (by decide)), .noMoreItems⟩
  | item :: items => by
    simp only [renderItems, List.cons_append, List.append_assoc]
    obtain ⟨hends, hitems⟩ := reads_renderItems hlayout depth rest hgap hlast items
    have hitem := reads_renderAt hlayout depth hends item
    refine ⟨endsNumber_cons (by decide), .moreItems ?_ hitems⟩
    rwa [skipBlanks_append hgap, hitem.skipBlanks_value]

/-- The text of a field of an object reads as the field. -/
theorem reads_renderField (hlayout : layout.IsBlank) (depth : Nat) {rest : List Char}
    (hend : EndsNumber rest) : ∀ field : String × Json,
    Reads (renderField layout depth field ++ rest) (.field field.1 field.2) rest
  | (name, v) => by
    have hv := reads_renderAt hlayout depth hend v
    have hblank : skipBlanks (' ' :: (renderAt layout depth v ++ rest)) =
        renderAt layout depth v ++ rest := hv.skipBlanks_value
    rw [← hblank] at hv
    have h := Reads.field (readsChars_flatMap name.toList (':' :: _)) rfl hv
    rw [String.ofList_toList, ← quote_append] at h
    rw [renderField, List.append_assoc, List.append_assoc]
    exact h

/-- The text of further fields of an object reads as the fields, and a number ends in front of
it. -/
theorem reads_renderFields (hlayout : layout.IsBlank) (depth : Nat) {gap last : List Char}
    (rest : List Char) (hgap : ∀ c ∈ gap, isBlank c = true)
    (hlast : ∀ c ∈ last, isBlank c = true) : ∀ fields,
    EndsNumber (renderFields layout depth (',' :: gap) fields ++ (last ++ '\x7d' :: rest)) ∧
      Reads (skipBlanks
        (renderFields layout depth (',' :: gap) fields ++ (last ++ '\x7d' :: rest)))
        (.moreFields fields) rest
  | [] => by
    rw [renderFields, List.nil_append, skipBlanks_append hlast]
    exact ⟨.append hlast (endsNumber_cons (by decide)), .noMoreFields⟩
  | field :: fields => by
    simp only [renderFields, List.cons_append, List.append_assoc]
    obtain ⟨hends, hfields⟩ := reads_renderFields hlayout depth rest hgap hlast fields
    have hfield := reads_renderField hlayout depth hends field
    refine ⟨endsNumber_cons (by decide), .moreFields ?_ hfields⟩
    rwa [skipBlanks_append hgap, hfield.skipBlanks_field]

end

/-- **The text of a value denotes the value.** -/
theorem denotes_render (hlayout : layout.IsBlank) (v : Json) :
    Denotes (render layout v).toList v := by
  have h : Reads (renderAt layout 0 v ++ []) (.value v) [] :=
    reads_renderAt hlayout 0 (by rintro _ ⟨⟩) v
  rw [List.append_nil] at h
  rw [render, String.toList_ofList]
  exact ⟨[], by rwa [h.skipBlanks_value], rfl⟩

end Value

section Ascii

variable {layout : Layout}

theorem pair_ascii {c c' : Char} (hc : c.toNat < 0x80) (hc' : c'.toNat < 0x80) :
    ∀ d ∈ [c, c'], d.toNat < 0x80 :=
  List.forall_mem_cons.2 ⟨hc, List.forall_mem_singleton.2 hc'⟩

/-- A number is written with ASCII characters only. -/
theorem toString_ascii (n : Int) : ∀ c ∈ (toString n).toList, c.toNat < 0x80 := by
  have hdigits (m : Nat) : ∀ c ∈ Nat.toDigits 10 m, c.toNat < 0x80 := by
    intro c hc
    have hdigit := (toDigits_whole m).isDigit c hc
    simp only [Char.isDigit, ge_iff_le, Bool.and_eq_true, decide_eq_true_eq] at hdigit
    exact Nat.lt_of_le_of_lt (UInt32.le_iff_toNat_le.1 hdigit.2) (by decide)
  rw [toList_toString]
  split
  · exact hdigits n.toNat
  · exact List.forall_mem_cons.2 ⟨by decide, hdigits (-n).toNat⟩

theorem escapeUnit_ascii (n : Nat) : ∀ c ∈ escapeUnit n, c.toNat < 0x80 := by
  have hdigit (m : Nat) : (Nat.digitChar (m % 16)).toNat < 0x80 :=
    (by decide : ∀ d < 16, (Nat.digitChar d).toNat < 0x80) _ (Nat.mod_lt m (by decide))
  simp only [escapeUnit, List.forall_mem_cons, hdigit, true_and]
  exact ⟨by decide, by decide, nofun⟩

/-- A character is escaped with ASCII characters only. -/
theorem escapeChar_ascii (c : Char) : ∀ c' ∈ escapeChar c, c'.toNat < 0x80 := by
  rw [escapeChar]
  split_ifs with hquote hslash hn hr ht hb hf hplain hunit
  iterate 7 exact pair_ascii (by decide) (by decide)
  · have hlast : c.toNat ≤ '~'.toNat := UInt32.le_iff_toNat_le.1 hplain.2
    simpa only [List.forall_mem_singleton] using Nat.lt_of_le_of_lt hlast (by decide)
  · exact escapeUnit_ascii c.toNat
  · exact List.forall_mem_append.2 ⟨escapeUnit_ascii _, escapeUnit_ascii _⟩

/-- A text is quoted with ASCII characters only. -/
theorem quote_ascii (s : String) : ∀ c ∈ quote s, c.toNat < 0x80 := by
  simp only [quote, List.forall_mem_cons, List.forall_mem_append, List.forall_mem_flatMap]
  exact ⟨by decide, fun c _ => escapeChar_ascii c, by decide, nofun⟩

theorem ascii_of_isBlank {text : List Char} (h : ∀ c ∈ text, isBlank c = true) :
    ∀ c ∈ text, c.toNat < 0x80 := by
  intro c hc
  obtain rfl | rfl | rfl | rfl := eq_of_isBlank (h c hc) <;> decide

mutual

/-- A value is rendered with ASCII characters only; the induction goes along its parts. -/
theorem renderAt_ascii (hlayout : layout.IsBlank) (depth : Nat) :
    ∀ v, ∀ c ∈ renderAt layout depth v, c.toNat < 0x80
  | .null => by
    simp [renderAt]
  | .number n => toString_ascii n
  | .string s => quote_ascii s
  | .array [] => by
    simp [renderAt]
  | .array (item :: items) => by
    obtain ⟨hfirst, ⟨gap, hbetween, hgap⟩, hlast⟩ := hlayout.breaks depth
    have hitem := renderAt_ascii hlayout (depth + 1) item
    have hitems := renderItems_ascii hlayout (depth + 1) (ascii_of_isBlank hgap) items
    simp only [renderAt, hbetween, List.forall_mem_cons, List.forall_mem_append]
    exact ⟨by decide, ⟨⟨⟨ascii_of_isBlank hfirst, hitem⟩, hitems⟩, ascii_of_isBlank hlast⟩,
      by decide, nofun⟩
  | .object [] => by
    simp [renderAt]
  | .object (field :: fields) => by
    obtain ⟨hfirst, ⟨gap, hbetween, hgap⟩, hlast⟩ := hlayout.breaks depth
    have hfield := renderField_ascii hlayout (depth + 1) field
    have hfields := renderFields_ascii hlayout (depth + 1) (ascii_of_isBlank hgap) fields
    simp only [renderAt, hbetween, List.forall_mem_cons, List.forall_mem_append]
    exact ⟨by decide, ⟨⟨⟨ascii_of_isBlank hfirst, hfield⟩, hfields⟩, ascii_of_isBlank hlast⟩,
      by decide, nofun⟩

theorem renderItems_ascii (hlayout : layout.IsBlank) (depth : Nat) {gap : List Char}
    (hgap : ∀ c ∈ gap, c.toNat < 0x80) :
    ∀ items, ∀ c ∈ renderItems layout depth (',' :: gap) items, c.toNat < 0x80
  | [] => nofun
  | item :: items => by
    have hitem := renderAt_ascii hlayout depth item
    have hitems := renderItems_ascii hlayout depth hgap items
    simp only [renderItems, List.forall_mem_cons, List.forall_mem_append]
    exact ⟨⟨⟨by decide, hgap⟩, hitem⟩, hitems⟩

theorem renderField_ascii (hlayout : layout.IsBlank) (depth : Nat) :
    ∀ field, ∀ c ∈ renderField layout depth field, c.toNat < 0x80
  | (name, v) => by
    have hv := renderAt_ascii hlayout depth v
    simp only [renderField, List.forall_mem_append]
    exact ⟨⟨quote_ascii name, pair_ascii (by decide) (by decide)⟩, hv⟩

theorem renderFields_ascii (hlayout : layout.IsBlank) (depth : Nat) {gap : List Char}
    (hgap : ∀ c ∈ gap, c.toNat < 0x80) :
    ∀ fields, ∀ c ∈ renderFields layout depth (',' :: gap) fields, c.toNat < 0x80
  | [] => nofun
  | field :: fields => by
    have hfield := renderField_ascii hlayout depth field
    have hfields := renderFields_ascii hlayout depth hgap fields
    simp only [renderFields, List.forall_mem_cons, List.forall_mem_append]
    exact ⟨⟨⟨by decide, hgap⟩, hfield⟩, hfields⟩

end

/-- **The text of a value holds ASCII characters only.** -/
theorem render_ascii (hlayout : layout.IsBlank) (v : Json) :
    ∀ c ∈ (render layout v).toList, c.toNat < 0x80 := by
  rw [render, String.toList_ofList]
  exact renderAt_ascii hlayout 0 v

example : render .line (.array [.string "\"\x7f😀", .number (-10), .object []]) =
    "[\"\\\"\\u007f\\ud83d\\ude00\", -10, \x7b\x7d]" := by
  decide

end Ascii

end Forwarder.Json
