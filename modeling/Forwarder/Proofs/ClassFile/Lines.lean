import Mathlib
import Forwarder.ClassFile.Read
import Forwarder.Proofs.ClassFile.CodeSpelling

/-!
# The source line of an offset

The line number tables of a code are read into one table, which is sorted, and the lookup goes
through it up to the first entry that starts too late. `ClassFile.lineOf_readCode`: so an offset gets
the line of the greatest entry that does not start behind it, among the entries that the bytes of the
code spell (`Code.SpelledBy`), and no line exactly if there is no such entry. Neither the order of the
entries matters nor which of them stand in which table.
-/

namespace Forwarder

/-! ## The order of line entries -/

namespace LineEntry

/-- The offset and the line of an entry, ordered by offset and then by line. -/
def pair (e : LineEntry) : ℤ ×ₗ ℤ := toLex (e.startPc, e.line)

/-- The comparison of entries is that of the pairs of their offsets and lines. -/
theorem ble_iff {a b : LineEntry} : a.ble b ↔ a.pair ≤ b.pair := by
  rw [pair, pair, Prod.Lex.toLex_le_toLex]
  simp only [ble, Bool.or_eq_true, Bool.and_eq_true, decide_eq_true_eq, beq_iff_eq]

/-- The comparison of entries is transitive. -/
theorem ble_trans (a b c : LineEntry) (h : a.ble b) (h' : b.ble c) : a.ble c :=
  ble_iff.2 ((ble_iff.1 h).trans (ble_iff.1 h'))

/-- Of two entries one stands before the other or equals it. -/
theorem ble_total (a b : LineEntry) : a.ble b || b.ble a := by
  rw [Bool.or_eq_true, ble_iff, ble_iff]
  exact le_total a.pair b.pair

/-- An entry is its offset and its line. -/
theorem pair_injective {a b : LineEntry} (h : a.pair = b.pair) : a = b := by
  obtain ⟨hpc, hline⟩ := Prod.mk.inj (toLex.injective h)
  cases a
  cases b
  cases hpc
  cases hline
  rfl

/-- Entries that stand before each other are the same. -/
theorem ble_antisymm {a b : LineEntry} (h : a.ble b) (h' : b.ble a) : a = b :=
  pair_injective (le_antisymm (ble_iff.1 h) (ble_iff.1 h'))

/-- In a sorted table the starts do not decrease. -/
theorem startPc_le_of_ble {a b : LineEntry} (h : a.ble b) : a.startPc ≤ b.startPc :=
  Prod.Lex.monotone_fst _ _ (ble_iff.1 h)

/-- Entries in another order have their starts in the same order, if these do not decrease. -/
theorem startPcs_eq_of_perm {lines lines' : List LineEntry} (hperm : lines.Perm lines')
    (h : lines.Pairwise fun a b => a.startPc ≤ b.startPc)
    (h' : lines'.Pairwise fun a b => a.startPc ≤ b.startPc) :
    lines.map startPc = lines'.map startPc :=
  (hperm.map startPc).eq_of_pairwise (fun _ _ _ _ => le_antisymm) (List.pairwise_map.2 h)
    (List.pairwise_map.2 h')

/-- An entry is the greatest of those that do not start behind an offset. -/
structure Covers (e : LineEntry) (entries : List LineEntry) (pc : Int) : Prop where
  mem : e ∈ entries
  startPc_le : e.startPc ≤ pc
  greatest : ∀ e' ∈ entries, e'.startPc ≤ pc → e'.pair ≤ e.pair

variable {e e' : LineEntry} {entries entries' : List LineEntry} {pc : Int}

/-- At most one entry is the greatest. -/
theorem Covers.unique (h : e.Covers entries pc) (h' : e'.Covers entries pc) : e = e' :=
  pair_injective (le_antisymm (h'.greatest e h.mem h.startPc_le) (h.greatest e' h'.mem h'.startPc_le))

/-- Which entry is the greatest does not depend on their order. -/
theorem Covers.of_perm (h : e.Covers entries pc) (hperm : entries.Perm entries') :
    e.Covers entries' pc :=
  ⟨hperm.mem_iff.1 h.mem, h.startPc_le, fun e' he' => h.greatest e' (hperm.mem_iff.2 he')⟩

end LineEntry

/-! ## Looking up a line -/

section Lookup

variable {e : LineEntry} {lines : List LineEntry} {pc line : Int}

/-- An entry that does not start too late has the line, unless one behind it does. -/
theorem lineOf_cons_of_le (h : e.startPc ≤ pc) :
    lineOf (e :: lines) pc = some ((lineOf lines pc).getD e.line) := by
  unfold lineOf
  rw [List.takeWhile_cons, if_pos (decide_eq_true h), List.getLast?_cons]
  cases (lines.takeWhile fun e => e.startPc ≤ pc).getLast? <;> rfl

/-- An entry that starts too late ends the lookup. -/
theorem lineOf_cons_of_lt (h : pc < e.startPc) : lineOf (e :: lines) pc = none := by
  unfold lineOf
  rw [List.takeWhile_cons, if_neg (by simpa using h)]
  rfl

/-- In a sorted table an offset has the line of the greatest entry that does not start behind it,
unless all of them do. -/
theorem lineOf_spec (hsorted : lines.Pairwise fun a b => a.ble b) (pc : Int) :
    (lineOf lines pc = none ∧ ∀ e ∈ lines, pc < e.startPc) ∨
      ∃ e : LineEntry, lineOf lines pc = some e.line ∧ e.Covers lines pc := by
  induction lines with
  | nil => exact .inl ⟨rfl, by simp⟩
  | cons e lines ih =>
    obtain ⟨hle, hsorted⟩ := List.pairwise_cons.1 hsorted
    have hpair : ∀ e' ∈ lines, e.pair ≤ e'.pair := fun e' he' => LineEntry.ble_iff.1 (hle e' he')
    rcases lt_or_ge pc e.startPc with hlt | hge
    · -- the entries behind one that starts too late do so, too
      refine .inl ⟨lineOf_cons_of_lt hlt, List.forall_mem_cons.2 ⟨hlt, fun e' he' => ?_⟩⟩
      exact lt_of_lt_of_le hlt (Prod.Lex.monotone_fst _ _ (hpair e' he'))
    · rw [lineOf_cons_of_le hge]
      rcases ih hsorted with ⟨hnone, hlater⟩ | ⟨e', hsome, hcovers⟩
      · rw [hnone]
        refine .inr ⟨e, rfl, List.mem_cons_self, hge, List.forall_mem_cons.2 ⟨fun _ => le_rfl, ?_⟩⟩
        exact fun e' he' h => absurd h (Int.not_le.2 (hlater e' he'))
      · rw [hsome]
        exact .inr ⟨e', rfl, List.mem_cons_of_mem _ hcovers.mem, hcovers.startPc_le,
          List.forall_mem_cons.2 ⟨fun _ => hpair e' hcovers.mem, hcovers.greatest⟩⟩

/-- In a sorted table there is no line exactly if all entries start too late. -/
theorem lineOf_eq_none_iff (hsorted : lines.Pairwise fun a b => a.ble b) :
    lineOf lines pc = none ↔ ∀ e ∈ lines, pc < e.startPc := by
  rcases lineOf_spec hsorted pc with ⟨hnone, hlater⟩ | ⟨e, hsome, hcovers⟩
  · exact iff_of_true hnone hlater
  · have hne : lineOf lines pc ≠ none := by rw [hsome]; exact Option.some_ne_none _
    exact iff_of_false hne fun hlater => Int.not_le.2 (hlater e hcovers.mem) hcovers.startPc_le

/-- In a sorted table the line is that of the entry that is the greatest. -/
theorem lineOf_eq_some_iff (hsorted : lines.Pairwise fun a b => a.ble b) :
    lineOf lines pc = some line ↔ ∃ e : LineEntry, e.line = line ∧ e.Covers lines pc := by
  rcases lineOf_spec hsorted pc with ⟨hnone, hlater⟩ | ⟨e, hsome, hcovers⟩
  · rw [hnone]
    refine iff_of_false nofun ?_
    rintro ⟨e, -, he⟩
    exact Int.not_le.2 (hlater e he.mem) he.startPc_le
  · rw [hsome, Option.some.injEq]
    constructor
    · exact fun hline => ⟨e, hline, hcovers⟩
    · rintro ⟨e', rfl, he'⟩
      rw [hcovers.unique he']

end Lookup

/-! ## The tables of a code -/

namespace ClassFile

open Cursor

section Code

variable {pool : ConstantPool} {data : Bytes} {code : Code}

/-- The lines of a code that is read are the entries that its bytes spell, sorted. -/
theorem exists_spelledBy_of_readCode (h : within data (readCode pool) = .ok code) :
    ∃ raw : Code, raw.SpelledBy pool data ∧ code.lines.Perm raw.lines ∧
      code.lines.Pairwise fun a b => a.ble b := by
  obtain ⟨raw, hraw, rfl⟩ := within_readCode_eq_ok_iff.1 h
  exact ⟨raw, hraw, List.mergeSort_perm ..,
    List.pairwise_mergeSort LineEntry.ble_trans LineEntry.ble_total raw.lines⟩

/-- **The line of an offset is that of the greatest entry that does not start behind it,** by offset
and then by line, among the entries of all line number tables that the bytes of a code spell; there is
no line exactly if there is no such entry. So other bytes that spell the same entries, in whatever
order they come and however they are distributed over tables among other attributes, are accepted, too,
and give every offset the same line. -/
theorem lineOf_readCode (h : within data (readCode pool) = .ok code) :
    ∃ raw : Code, raw.SpelledBy pool data ∧
      (∀ raw' : Code, raw'.SpelledBy pool data → raw' = raw) ∧
      (∀ pc, lineOf code.lines pc = none ↔ ∀ e ∈ raw.lines, pc < e.startPc) ∧
      (∀ pc line, lineOf code.lines pc = some line ↔
        ∃ e : LineEntry, e.line = line ∧ e.Covers raw.lines pc) ∧
      ∀ (pool' : ConstantPool) (data' : Bytes) (raw' : Code), raw'.SpelledBy pool' data' →
        raw.lines.Perm raw'.lines →
          ∃ code', within data' (readCode pool') = .ok code' ∧
            ∀ pc, lineOf code'.lines pc = lineOf code.lines pc := by
  obtain ⟨raw, hraw, hperm, hsorted⟩ := exists_spelledBy_of_readCode h
  refine ⟨raw, hraw, fun raw' hraw' => hraw'.unique hraw, fun pc => ?_, fun pc line => ?_, ?_⟩
  · rw [lineOf_eq_none_iff hsorted]
    exact ⟨fun hlater e he => hlater e (hperm.mem_iff.2 he),
      fun hlater e he => hlater e (hperm.mem_iff.1 he)⟩
  · rw [lineOf_eq_some_iff hsorted]
    exact ⟨fun ⟨e, hline, he⟩ => ⟨e, hline, he.of_perm hperm⟩,
      fun ⟨e, hline, he⟩ => ⟨e, hline, he.of_perm hperm.symm⟩⟩
  · intro pool' data' raw' hraw' hsame
    have hread := within_readCode_eq_ok_iff.2 ⟨raw', hraw', rfl⟩
    refine ⟨_, hread, fun pc => ?_⟩
    obtain ⟨raw'', hraw'', hperm', hsorted'⟩ := exists_spelledBy_of_readCode hread
    obtain rfl := hraw''.unique hraw'
    -- one order puts the same entries into one list
    have heq := (hperm'.trans (hsame.symm.trans hperm.symm)).eq_of_pairwise
      (fun _ _ _ _ => LineEntry.ble_antisymm) hsorted' hsorted
    rw [heq]

end Code

namespace SplitTable

/-- The names of two attributes. -/
def pool : ConstantPool := ⟨#[none, some (.utf8 "LineNumberTable"), some (.utf8 "Other")]⟩

/-- The body of a line number table that is not sorted. -/
def first : Bytes := [0, 2, 0, 4, 0, 30, 0, 0, 0, 10]

/-- The body of another one, with an entry of the first. -/
def second : Bytes := [0, 3, 0, 0, 0, 20, 0, 4, 0, 5, 0, 0, 0, 10]

/-- The body of a table with the entries of both, in order. -/
def both : Bytes := [0, 5, 0, 0, 0, 10, 0, 0, 0, 10, 0, 0, 0, 20, 0, 4, 0, 5, 0, 4, 0, 30]

/-- A code with two line number tables and another attribute between them. -/
def split : Bytes :=
  [0, 0, 0, 0, 0, 0, 0, 1, 0xB1, 0, 0, 0, 3] ++ [0, 1, 0, 0, 0, 10] ++ first ++
    [0, 2, 0, 0, 0, 1, 9] ++ [0, 1, 0, 0, 0, 14] ++ second

/-- A code with one table. -/
def merged : Bytes :=
  [0, 0, 0, 0, 0, 0, 0, 1, 0xB1, 0, 0, 0, 1] ++ [0, 1, 0, 0, 0, 22] ++ both

/-- What is read of the code with two tables. -/
def code : Code := ⟨0, 0, [0xB1], [⟨0, 10⟩, ⟨0, 10⟩, ⟨0, 20⟩, ⟨4, 5⟩, ⟨4, 30⟩]⟩

/-- Both tables are read, and their entries are sorted. -/
theorem within_split : within split (readCode pool) = .ok code := by cbv

/-- The first body tabulates two entries. -/
theorem tabulatedBy_first : LineEntry.TabulatedBy [⟨4, 30⟩, ⟨0, 10⟩] first := by
  have late := @LineEntry.SpelledBy.intro 4 30 (by decide) (by decide)
  have early := @LineEntry.SpelledBy.intro 0 10 (by decide) (by decide)
  exact @LineEntry.TabulatedBy.intro _ _ [] (by decide) (.cons late (.cons early .nil))

/-- The second body tabulates three entries. -/
theorem tabulatedBy_second : LineEntry.TabulatedBy [⟨0, 20⟩, ⟨4, 5⟩, ⟨0, 10⟩] second := by
  have early := @LineEntry.SpelledBy.intro 0 20 (by decide) (by decide)
  have late := @LineEntry.SpelledBy.intro 4 5 (by decide) (by decide)
  have again := @LineEntry.SpelledBy.intro 0 10 (by decide) (by decide)
  exact @LineEntry.TabulatedBy.intro _ _ [] (by decide) (.cons early (.cons late (.cons again .nil)))

/-- The body of the one table tabulates the entries in order. -/
theorem tabulatedBy_both : LineEntry.TabulatedBy code.lines both := by
  have ten := @LineEntry.SpelledBy.intro 0 10 (by decide) (by decide)
  have twenty := @LineEntry.SpelledBy.intro 0 20 (by decide) (by decide)
  have five := @LineEntry.SpelledBy.intro 4 5 (by decide) (by decide)
  have thirty := @LineEntry.SpelledBy.intro 4 30 (by decide) (by decide)
  exact @LineEntry.TabulatedBy.intro _ _ [] (by decide)
    (.cons ten (.cons ten (.cons twenty (.cons five (.cons thirty .nil)))))

/-- The two tables and the attribute between them spell their entries in the order in which they
stand. -/
theorem spelledBy_split :
    Code.SpelledBy pool ⟨0, 0, [0xB1], [⟨4, 30⟩, ⟨0, 10⟩, ⟨0, 20⟩, ⟨4, 5⟩, ⟨0, 10⟩]⟩ split := by
  have one := @AttributeSpelledBy.intro pool 1 "LineNumberTable" first (by decide) (by decide) rfl
    (by decide)
  have other := @AttributeSpelledBy.intro pool 2 "Other" [9] (by decide) (by decide) rfl (by decide)
  have two := @AttributeSpelledBy.intro pool 1 "LineNumberTable" second (by decide) (by decide) rfl
    (by decide)
  have hold := List.Forall₂.cons (HoldsLines.table one tabulatedBy_first)
    (.cons (.other other (by decide)) (.cons (.table two tabulatedBy_second) .nil))
  exact @Code.SpelledBy.intro pool 0 0 0 [0xB1] [] [] _ _ (by decide) (by decide) (by decide)
    (by decide) rfl (by decide) hold

/-- The one table spells its entries in order. -/
theorem spelledBy_merged : Code.SpelledBy pool code merged := by
  have one := @AttributeSpelledBy.intro pool 1 "LineNumberTable" both (by decide) (by decide) rfl
    (by decide)
  have hold := List.Forall₂.cons (HoldsLines.table one tabulatedBy_both) .nil
  exact @Code.SpelledBy.intro pool 0 0 0 [0xB1] [] [] _ _ (by decide) (by decide) (by decide)
    (by decide) rfl (by decide) hold

end SplitTable

/-- Of the entries of two tables the greatest that does not start behind an offset gives it its line,
and one table with all of them is read and gives every offset the same line. -/
theorem lineOf_readCode_split : lineOf SplitTable.code.lines 3 = some 20 ∧
    lineOf SplitTable.code.lines (-1) = none ∧
    ∃ code, within SplitTable.merged (readCode SplitTable.pool) = .ok code ∧
      ∀ pc, lineOf code.lines pc = lineOf SplitTable.code.lines pc := by
  obtain ⟨raw, -, hunique, hnone, hsome, hsame⟩ := lineOf_readCode SplitTable.within_split
  obtain rfl := hunique _ SplitTable.spelledBy_split
  refine ⟨(hsome 3 20).2 ⟨⟨0, 20⟩, rfl, ⟨by decide, by decide, ?_⟩⟩, (hnone (-1)).2 (by decide), ?_⟩
  · simp only [← LineEntry.ble_iff]
    decide
  · exact hsame _ _ _ SplitTable.spelledBy_merged (by decide)

end ClassFile

end Forwarder
