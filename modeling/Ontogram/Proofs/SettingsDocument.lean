import Ontogram.Proofs.ValueTree
import Ontogram.Settings.Document

set_option autoImplicit false

namespace Ontogram

theorem Scalar.same_self {s : Scalar} (visible : s.isVisible = true) : s.same s = true := by
  cases s with
  | null => rfl
  | bool b => cases b <;> rfl
  | int n => simp [same, int?]
  | text s => simp [same]
  | real | moment | octets => cases visible

namespace Value

mutual

theorem same_self (v : Value) (visible : v.isVisible = true) : v.same v = true := by
  cases v with
  | scalar s => exact Scalar.same_self visible
  | list items => cases visible
  | map es =>
    rw [same, beq_self_eq_true, Bool.true_and]
    exact sameEntries_self es visible fun _ h => h

theorem sameEntries_self (es : List (Scalar × Value)) (visible : areVisible es = true)
    {others : List (Scalar × Value)} (sub : es ⊆ others) : sameEntries es others = true := by
  cases es with
  | nil => rfl
  | cons e es =>
    obtain ⟨k, v⟩ := e
    obtain ⟨key, -, inner, -, rest⟩ := Yaml.areVisible_cons visible
    rw [sameEntries, Bool.and_eq_true, List.any_eq_true]
    refine ⟨⟨(k, v), sub List.mem_cons_self, ?_⟩, ?_⟩
    · rw [Scalar.same_self key, same_self v inner, Bool.and_self]
    · exact sameEntries_self es rest fun e he => sub (List.mem_cons_of_mem _ he)

end

end Value

namespace Settings

variable (s : Settings)

/-- The value of settings holds nothing but visible values if they do. -/
theorem isVisible_value : s.value.isVisible =
    (s.naming.base.isVisible && s.naming.baseName.isVisible && s.naming.language.isVisible &&
      Value.areVisible s.naming.namespaces && s.query.timeout.isVisible &&
        s.query.maxSolutions.isVisible) := by
  have keys : ["translation", "base_iri", "default_prefix", "language", "include_inferred",
      "namespaces", "query", "timeout_seconds", "max_solutions"].all (fun key =>
        (Scalar.text key).isVisible && (Yaml.Sheet.ofScalar (.text key)).isSimpleKey) = true := by
    decide
  simp only [List.all_cons, List.all_nil, Bool.and_eq_true] at keys
  have inferred : (Scalar.bool s.naming.inferred).isVisible = true := rfl
  simp [value, Value.isVisible, Value.areVisible, keys, Scalar.same, inferred, Bool.and_assoc]

/-- Settings whose values are visible are read back from the document that keeps them, and are
checked then. -/
theorem ofDocument_document (visible : s.value.isVisible = true) (path : String) :
    ofDocument path s.document = s.checked := by
  have whole : Yaml.read s.document = .ok s.value := Yaml.read_write (by simp) visible
  rw [ofDocument, whole]
  exact read_value s

/-- Valid settings are the same when they are read again. -/
theorem reloads_eq_true (visible : s.value.isVisible = true) (valid : s.validate = .ok ()) :
    s.reloads = .ok true := by
  have checked : s.checked = .ok s := by rw [Settings.checked, valid]
  rw [reloads, ofDocument_document s visible, checked]
  exact congrArg Except.ok (Value.same_self s.value visible)

end Settings

end Ontogram
