import BlockEditor.Proofs.Assoc
import BlockEditor.Workspace.Restore

/-!
# Induction on snapshots

A snapshot holds snapshots in its inputs, as blocks and as templates, and one more as its next
statement. What is built from it is built from these.
-/

namespace BlockEditor

/-- What holds of all the parts of a snapshot, if there are any. -/
def InputSnapshot.All {σ : Type} (P : σ → Prop) (i : InputSnapshot σ) : Prop :=
  (∀ s, i.block = some s → P s) ∧ ∀ s, i.template = some s → P s

namespace Snapshot

theorem induct {P : Snapshot → Prop}
    (step : ∀ s : Snapshot, (∀ i ∈ s.inputs, i.2.All P) → (∀ n, s.next = some n → P n) → P s) :
    ∀ s, P s := by
  intro s
  -- The motives for the lists of inputs and for the parts are what `step` asks for.
  refine @Snapshot.rec P (fun l => ∀ i ∈ l, i.2.All P) (fun o => ∀ n, o = some n → P n)
    (fun i => i.2.All P) (fun i => i.All P) ?_ ?_ ?_ ?_ ?_ ?_ ?_ s
  · exact fun typeName placeholder fields extra inputs next copyOnDrag hi hn =>
      step ⟨typeName, placeholder, fields, extra, inputs, next, copyOnDrag⟩ hi hn
  · intro i hi
    cases hi
  · intro i rest hi hrest j hj
    rcases List.mem_cons.mp hj with rfl | hj
    · exact hi
    · exact hrest j hj
  · intro n hn
    cases hn
  · intro s hs n hn
    cases hn
    exact hs
  · exact fun _ _ h => h
  · exact fun _ _ hb ht => ⟨hb, ht⟩

end Snapshot

namespace Edit

variable {α : Type} [Scalar α]

theorem buildIfAny_eq (o : Option Snapshot) (on : Bool) :
    (buildIfAny o on : Option (Edit α BlockId)) = o.map (build · on) := by
  cases o <;> rfl

/-- What fills an input after its snapshot. -/
def filler (i : InputSnapshot Snapshot) : ConnectionId → Edit α Unit :=
  fillInput i.template (i.block.map (build · false) <|> i.template.map (build · true))

theorem fillers_eq (l : List (String × InputSnapshot Snapshot)) :
    (fillers l : List (String × (ConnectionId → Edit α Unit)))
      = l.map fun i => (i.1, filler i.2) := by
  induction l with
  | nil => rfl
  | cons i rest ih =>
    obtain ⟨name, block, template⟩ := i
    rw [fillers, ih, buildIfAny_eq, buildIfAny_eq]
    rfl

/-- What is plugged into an input is built from one of the parts. -/
theorem exists_part {P : Snapshot → Prop} {i : InputSnapshot Snapshot} {make : Edit α BlockId}
    (h : i.All P)
    (hm : (i.block.map (build · false) <|> i.template.map (build · true)) = some make) :
    ∃ s on, P s ∧ make = build s on := by
  cases hb : i.block with
  | some s =>
    rw [hb] at hm
    cases hm
    exact ⟨s, false, h.1 s hb, rfl⟩
  | none =>
    rw [hb] at hm
    obtain ⟨s, hs, rfl⟩ := Option.map_eq_some_iff.mp hm
    exact ⟨s, true, h.2 s hs, rfl⟩

/-- Whatever fills an input is found in the snapshot. -/
theorem exists_filler {l : List (String × InputSnapshot Snapshot)} {name : String}
    {fill : ConnectionId → Edit α Unit}
    (hf : (Std.ExtTreeMap.ofList (fillers l) : Fillers α)[name]? = some fill) :
    ∃ i ∈ l, fill = filler i.2 := by
  have hmem := Assoc.mem_of_getElem?_ofList hf
  rw [fillers_eq, List.mem_map] at hmem
  obtain ⟨i, hi, he⟩ := hmem
  cases he
  exact ⟨i, hi, rfl⟩

/-- Plug into a new block what its snapshot holds. -/
def populate (s : Snapshot) (id : BlockId) : Edit α BlockId := do
  fillInputs id (.ofList (fillers s.inputs))
  (s.next.map (build · false)).forM (fillNext id)
  return id

/-- Give a new block what its snapshot holds. -/
def furnish (s : Snapshot) (id : BlockId) : Edit α BlockId := do
  s.extra.forM (fillShape id)
  s.fields.forM fun (name, value) => setField id name value
  setCopyOnDrag id s.copyOnDrag
  populate s id

theorem build_eq (s : Snapshot) (asPlaceholder : Bool) : (build s asPlaceholder : Edit α BlockId) = (do
    let id ← newBlock s.typeName
    if s.placeholder || asPlaceholder then setPlaceholder id true
    furnish s id) := by
  obtain ⟨typeName, placeholder, fields, extra, inputs, next, copyOnDrag⟩ := s
  rw [build, buildIfAny_eq]
  rfl

end Edit

end BlockEditor
