import BlockEditor.Assoc
import Mathlib.Data.List.Sort

/-!
# Tables made of lists
-/

namespace BlockEditor.Assoc

variable {β : Type} {l : List (String × β)} {name : String} {x : β}

/-- What is looked up in a table was in the list, unless it was in the table before. -/
theorem mem_of_getElem?_insertMany {m : Std.ExtTreeMap String β}
    (h : (m.insertMany l)[name]? = some x) : m[name]? = some x ∨ (name, x) ∈ l := by
  induction l generalizing m with
  | nil =>
    rw [Std.ExtTreeMap.insertMany_nil] at h
    exact Or.inl h
  | cons entry rest ih =>
    obtain ⟨key, y⟩ := entry
    rw [Std.ExtTreeMap.insertMany_cons] at h
    rcases ih h with h | h
    · rw [Std.ExtTreeMap.getElem?_insert] at h
      by_cases hk : compare key name = .eq
      · rw [if_pos hk, Option.some.injEq] at h
        rw [Std.LawfulEqCmp.eq_of_compare hk, h]
        exact Or.inr List.mem_cons_self
      · rw [if_neg hk] at h
        exact Or.inl h
    · exact Or.inr (List.mem_cons_of_mem (key, y) h)

theorem mem_of_getElem?_ofList
    (h : (Std.ExtTreeMap.ofList l : Std.ExtTreeMap String β)[name]? = some x) :
    (name, x) ∈ l := by
  rw [Std.ExtTreeMap.ofList_eq_insertMany_empty] at h
  rcases mem_of_getElem?_insertMany h with h | h
  · simp at h
  · exact h

/-- A list in which each name stands once, as a table. -/
theorem getElem?_ofList (h : (l.map Prod.fst).Nodup) :
    (Std.ExtTreeMap.ofList l : Std.ExtTreeMap String β)[name]? = some x ↔ (name, x) ∈ l := by
  refine ⟨mem_of_getElem?_ofList, fun hmem => ?_⟩
  refine Std.ExtTreeMap.getElem?_ofList_of_mem Std.ReflCmp.compare_self ?_ hmem
  refine (List.pairwise_map.mp h).imp fun hne he => ?_
  exact hne (Std.LawfulEqCmp.eq_of_compare he)

theorem mem_ofList (h : (l.map Prod.fst).Nodup) {e : String × β} : e ∈ ofList l ↔ e ∈ l := by
  obtain ⟨name, x⟩ := e
  rw [ofList, Std.ExtTreeMap.mem_toList_iff_getElem?_eq_some, getElem?_ofList h]

theorem nodup_names_ofList (l : List (String × β)) : ((ofList l).map Prod.fst).Nodup := by
  refine List.pairwise_map.mpr (Std.ExtTreeMap.distinct_keys_toList.imp fun hne he => ?_)
  exact hne (he ▸ Std.ReflCmp.compare_self)

theorem mem_of_mem_ofList {e : String × β} (h : e ∈ ofList l) : e ∈ l := by
  obtain ⟨name, x⟩ := e
  exact mem_of_getElem?_ofList (Std.ExtTreeMap.mem_toList_iff_getElem?_eq_some.mp h)

theorem ordered_ofList (l : List (String × β)) : Ordered (ofList l) := by
  have h := Std.ExtTreeMap.ordered_keys_toList (t := (.ofList l : Std.ExtTreeMap String β))
  exact h.imp fun hlt => compareOfLessAndEq_eq_lt.mp hlt

theorem Ordered.nodup_names (h : Ordered l) : (l.map Prod.fst).Nodup := by
  refine List.pairwise_map.mpr (List.Pairwise.imp (fun {a b} hlt he => ?_) h)
  rw [he] at hlt
  exact String.lt_irrefl b.1 hlt

/-- A list that is in order already stays as it is. -/
theorem Ordered.ofList_eq (h : Ordered l) : ofList l = l := by
  have irrefl : Std.Irrefl fun a b : String × β => a.1 < b.1 := ⟨fun a => String.lt_irrefl a.1⟩
  have antisymm : Std.Antisymm fun a b : String × β => a.1 < b.1 :=
    ⟨fun a b hab hba => (String.lt_asymm hab hba).elim⟩
  exact List.Pairwise.eq_of_mem_iff (ordered_ofList l) h fun e => mem_ofList h.nodup_names

end BlockEditor.Assoc
