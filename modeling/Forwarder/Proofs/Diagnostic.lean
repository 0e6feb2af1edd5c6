import Forwarder.Diagnostic
import Forwarder.Proofs.Text.Json

/-!
# The JSON text of diagnostics can be read back

`Diagnostic.json_faithful`: the JSON text of a list of diagnostics is ASCII, and whoever reads it
gets the fields of every diagnostic, in order, whatever characters its strings hold.
-/

namespace Forwarder

theorem Json.ofString?_eq_elim (s : Option String) : ofString? s = s.elim null string := by
  cases s <;> rfl

theorem Json.ofInt?_eq_elim (n : Option Int) : ofInt? n = n.elim null number := by
  cases n <;> rfl

namespace Diagnostic

/-- **The JSON text of diagnostics is ASCII and denotes one value, the array of their objects.** -/
theorem json_faithful {layout : Json.Layout} (hlayout : layout.IsBlank) (ds : List Diagnostic) :
    (∀ c ∈ (json layout ds).toList, c.toNat < 0x80) ∧
      ∀ v, Json.Denotes (json layout ds).toList v ↔ v = .array (ds.map fun d => .object [
        ("bug_type", .string "FII_USE_METHOD_HANDLE"),
        ("priority", .string d.priority.name),
        ("class_name", .string (dotted d.className)),
        ("method_name", .string d.methodName),
        ("method_descriptor", .string d.methodDescriptor),
        ("pc", .number d.pc),
        ("line", d.line.elim .null .number),
        ("source_file", d.sourceFile.elim .null .string),
        ("target", d.target.elim .null .string)]) := by
  simp only [← Json.ofInt?_eq_elim, ← Json.ofString?_eq_elim]
  have hdenotes := Json.denotes_render hlayout (.array (ds.map toJson))
  refine ⟨Json.render_ascii hlayout _, fun v => ⟨fun hv => hv.unique hdenotes, ?_⟩⟩
  rintro rfl
  exact hdenotes

/-- A diagnostic whose strings hold quotes, backslashes, control characters and an emoji. -/
def ofEscapes : Diagnostic where
  priority := .low
  className := "p/\"Q\\"
  methodName := "tab\t\x00"
  methodDescriptor := "()\x7f"
  pc := 5
  line := none
  sourceFile := some "😀.java"
  target := none

theorem json_faithful_ofEscapes : (∀ c ∈ (json (.spaces 2) [ofEscapes]).toList, c.toNat < 0x80) ∧
    Json.Denotes (json (.spaces 2) [ofEscapes]).toList (.array [.object [
      ("bug_type", .string "FII_USE_METHOD_HANDLE"), ("priority", .string "LOW"),
      ("class_name", .string "p.\"Q\\"), ("method_name", .string "tab\t\x00"),
      ("method_descriptor", .string "()\x7f"), ("pc", .number 5), ("line", .null),
      ("source_file", .string "😀.java"), ("target", .null)]]) := by
  obtain ⟨hascii, hdenotes⟩ := json_faithful (.spaces 2) [ofEscapes]
  have hdotted : dotted ofEscapes.className = "p.\"Q\\" := by decide
  refine ⟨hascii, (hdenotes _).2 ?_⟩
  rw [List.map_singleton, hdotted]
  rfl

end Diagnostic

end Forwarder
