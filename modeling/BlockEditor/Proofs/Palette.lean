import BlockEditor.Palette
import BlockEditor.Proofs.Fields

/-!
# The palette as a registry

What is looked up in the palette is one of its definitions.
-/

namespace BlockEditor

namespace Registry

variable {r : Registry} {d : BlockDefinition} {typeName : String}

theorem get?_register (r : Registry) (d : BlockDefinition) (typeName : String) :
    (r.register d).get? typeName = if d.typeName = typeName then some d else r.get? typeName := by
  simp only [get?, register, Std.ExtTreeMap.getElem?_insert, Std.LawfulEqCmp.compare_eq_iff_eq]

/-- A definition is found under its own type, and is one of those that were added. -/
theorem mem_of_registerAll (ds : List BlockDefinition)
    (h : (r.registerAll ds).get? typeName = some d) :
    (d ∈ ds ∧ d.typeName = typeName) ∨ r.get? typeName = some d := by
  induction ds generalizing r with
  | nil => exact Or.inr h
  | cons e rest ih =>
    rcases ih (r := r.register e) h with ⟨hd, ht⟩ | h
    · exact Or.inl ⟨List.mem_cons_of_mem e hd, ht⟩
    · rw [get?_register] at h
      split at h
      next ht =>
        cases h
        exact Or.inl ⟨List.mem_cons_self, ht⟩
      next => exact Or.inr h

end Registry

namespace Palette

theorem mem_of_get? {d : BlockDefinition} {typeName : String}
    (h : registry.get? typeName = some d) :
    d ∈ containers ++ values ++ statements ∧ d.typeName = typeName := by
  refine (Registry.mem_of_registerAll _ h).resolve_right fun h => ?_
  rw [Registry.get?, Registry.empty, Std.ExtTreeMap.getElem?_empty] at h
  cases h

theorem registry_onePlug : registry.OnePlug := by
  have hall : ∀ d ∈ containers ++ values ++ statements, d.output = none ∨ d.previous = none := by
    decide
  exact fun typeName d h => hall d (mem_of_get? h).1

theorem registry_tidy : registry.Tidy := by
  have hall : ∀ d ∈ containers ++ values ++ statements, (d.container.isSome → d.inputs = []) ∧
      ∀ t ∈ d.inputs, t.name ≠ Container.controlsInput := by
    decide
  refine ⟨fun h => (mem_of_get? h).2, fun h => ?_, fun h => ?_⟩
  · exact (hall _ (mem_of_get? h).1).1
  · exact (hall _ (mem_of_get? h).1).2

theorem registry_distinct : registry.Distinct := by
  have hall : ∀ d ∈ containers ++ values ++ statements, (InputTemplate.socketNames d.inputs).Nodup ∧
      (Field.names (InputTemplate.allFields d.inputs)).Nodup := by
    decide
  exact ⟨fun h => (hall _ (mem_of_get? h).1).1, fun h => (hall _ (mem_of_get? h).1).2⟩

end Palette

end BlockEditor
