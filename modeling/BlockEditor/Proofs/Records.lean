import BlockEditor.Json.Decode
import BlockEditor.Proofs.Assoc

/-!
# Records as JSON values

A record is written without the fields that have no value, and a reader finds each field that was
written under its name. A value that was brought into canonical form is not changed by that again.
-/

namespace BlockEditor

namespace Json

theorem induct {P : Json → Prop} (null : P .null) (bool : ∀ b, P (.bool b)) (num : ∀ n, P (.num n))
    (str : ∀ s, P (.str s)) (arr : ∀ items, (∀ j ∈ items, P j) → P (.arr items))
    (obj : ∀ members, (∀ m ∈ members, P m.2) → P (.obj members)) : ∀ j, P j := by
  intro j
  -- The motives for the lists of items and of members are what `arr` and `obj` ask for.
  refine @Json.rec P (fun l => ∀ j ∈ l, P j) (fun l => ∀ m ∈ l, P m.2) (fun m => P m.2)
    null bool num str arr obj ?_ ?_ ?_ ?_ ?_ j
  · intro j hj
    cases hj
  · intro j rest hj hrest k hk
    rcases List.mem_cons.mp hk with rfl | hk
    · exact hj
    · exact hrest k hk
  · intro m hm
    cases hm
  · intro m rest hm hrest k hk
    rcases List.mem_cons.mp hk with rfl | hk
    · exact hm
    · exact hrest k hk
  · exact fun _ _ h => h

/-! ### Canonical form -/

theorem canonicalItems_eq (items : List Json) : canonicalItems items = items.map canonical := by
  induction items with
  | nil => rfl
  | cons item rest ih => rw [canonicalItems, ih, List.map_cons]

theorem canonicalMembers_eq (members : List (String × Json)) :
    canonicalMembers members = members.map fun m => (m.1, m.2.canonical) := by
  induction members with
  | nil => rfl
  | cons m rest ih => rw [canonicalMembers, ih, List.map_cons]

theorem canonical_canonical (j : Json) : j.canonical.canonical = j.canonical := by
  induction j using induct with
  | null => rfl
  | bool b => rfl
  | num n => rfl
  | str s => rfl
  | arr items ih =>
    simp only [canonical, canonicalItems_eq, List.map_map]
    exact congrArg Json.arr (List.map_congr_left ih)
  | obj members ih =>
    simp only [canonical, canonicalMembers_eq]
    -- the members that are left are some of those that were made canonical
    have hfixed : ∀ m ∈ Assoc.ofList (members.map fun m => (m.1, m.2.canonical)),
        (m.1, m.2.canonical) = m := by
      intro m hm
      obtain ⟨m', hm', rfl⟩ := List.mem_map.mp (Assoc.mem_of_mem_ofList hm)
      rw [ih m' hm']
    rw [List.map_congr_left hfixed, List.map_id', (Assoc.ordered_ofList _).ofList_eq]

theorem isNull_canonical (j : Json) : j.canonical.isNull = j.isNull := by
  cases j <;> rfl

/-! ### Nesting -/

theorem nesting_le_nestingOfMembers {members : List (String × Json)} {name : String} {j : Json}
    (h : (name, j) ∈ members) : j.nesting ≤ nestingOfMembers members := by
  induction members with
  | nil => cases h
  | cons m rest ih =>
    rw [nestingOfMembers]
    rcases List.mem_cons.mp h with rfl | h
    · exact Nat.le_max_left _ _
    · exact Nat.le_trans (ih h) (Nat.le_max_right _ _)

/-- What a member holds lies deeper. -/
theorem nesting_lt_of_mem {members : List (String × Json)} {name : String} {j : Json}
    (h : (name, j) ∈ members) : j.nesting < (Json.obj members).nesting := by
  rw [nesting]
  exact Nat.lt_succ_of_le (nesting_le_nestingOfMembers h)

variable {fields : List (String × Option Json)} {name : String} {j : Json}

theorem mem_record (h : (name, some j) ∈ fields) :
    (name, j) ∈ fields.filterMap fun f => f.2.map fun v => (f.1, v) :=
  List.mem_filterMap.mpr ⟨(name, some j), h, rfl⟩

theorem nesting_lt_record (name : String) (h : (name, some j) ∈ fields) :
    j.nesting < (record fields).nesting :=
  nesting_lt_of_mem (mem_record h)

/-! ### Fields -/

/-- Of the members that were written, the field of a name has at most one. -/
theorem filter_record {value : Option Json} (hnames : (fields.map Prod.fst).Nodup)
    (h : (name, value) ∈ fields) :
    (fields.filterMap fun f => f.2.map fun v => (f.1, v)).filter (·.1 == name)
      = (value.map fun v => (name, v)).toList := by
  have hothers : ∀ l : List (String × Option Json), name ∉ l.map Prod.fst →
      (l.filterMap fun f => f.2.map fun v => (f.1, v)).filter (·.1 == name) = [] := by
    intro l hl
    refine List.filter_eq_nil_iff.mpr fun m hm => ?_
    obtain ⟨f, hf, hfm⟩ := List.mem_filterMap.mp hm
    obtain ⟨v, -, rfl⟩ := Option.map_eq_some_iff.mp hfm
    simpa using fun he : f.1 = name => hl (he ▸ List.mem_map_of_mem hf)
  obtain ⟨before, after, rfl⟩ := List.append_of_mem h
  simp only [List.map_append, List.map_cons] at hnames
  obtain ⟨-, hafter, hdistinct⟩ := List.nodup_append.mp hnames
  have hbefore : name ∉ before.map Prod.fst := fun hmem =>
    hdistinct name hmem name List.mem_cons_self rfl
  rw [List.filterMap_append, List.filter_append, hothers before hbefore, List.nil_append]
  have hrest := hothers after (List.nodup_cons.mp hafter).1
  cases value with
  | none =>
    rw [List.filterMap_cons_none (by rfl)]
    exact hrest
  | some v =>
    rw [List.filterMap_cons_some (b := (name, v)) (by rfl), List.filter_cons_of_pos (by simp),
      hrest]
    rfl

theorem unique?_record {value : Option Json} (hnames : (fields.map Prod.fst).Nodup)
    (h : (name, value) ∈ fields) :
    unique? name (fields.filterMap fun f => f.2.map fun v => (f.1, v)) = some value := by
  unfold unique?
  rw [filter_record hnames h]
  cases value <;> rfl

theorem mapM_eq_some {β γ : Type} {f : β → Option γ} {g : β → γ} {l : List β}
    (h : ∀ x ∈ l, f x = some (g x)) : l.mapM f = some (l.map g) := by
  induction l with
  | nil => rfl
  | cons x rest ih =>
    rw [List.mapM_cons, h x List.mem_cons_self, ih fun y hy => h y (List.mem_cons_of_mem x hy)]
    rfl

/-- A reader that knows the names of the fields finds what was written. -/
theorem fields?_record (fields : List (String × Option Json))
    (hnames : (fields.map Prod.fst).Nodup) :
    (record fields).fields? (fields.map Prod.fst) = some fun i => (fields[i]?).bind Prod.snd := by
  have hvalues : (fields.map Prod.fst).mapM
      (unique? · (fields.filterMap fun f => f.2.map fun v => (f.1, v)))
        = some (fields.map Prod.snd) := by
    rw [List.mapM_map]
    exact mapM_eq_some fun f hf => unique?_record hnames hf
  unfold record fields?
  dsimp only
  rw [hvalues]
  refine congrArg some (funext fun i => ?_)
  rw [List.getElem?_map]
  cases fields[i]? <;> rfl

end Json

end BlockEditor
