import BlockEditor.Proofs.Workspace.Mounting

/-!
# Adding, removing and cutting inputs

These edits are refused only if the block is gone, which can happen halfway if the block hangs below
itself.
-/

namespace BlockEditor

variable {α : Type}

namespace Workspace

variable {ws ws' : Workspace α} {id : BlockId} {keep gone : List Input} {b : Block α}

/-- A block has lost some of its inputs, with what hung on them. If the block does not hang below
itself, then it is still there and nothing else came loose. -/
def Sheds (ws : Workspace α) (id : BlockId) (keep gone : List Input) (ws' : Workspace α) : Prop :=
  ∃ R, ws.Loses id keep gone R ws' ∧ (ws.graph.Tame id → ws.Seals gone R ∧ id ∉ R)

theorem Sheds.sound (h : ws.Sheds id keep gone ws') (hs : ws.Sound) : ws'.Sound := by
  obtain ⟨R, h, -⟩ := h
  exact h.sound hs

theorem Sheds.under (h : ws.Sheds id keep gone ws') (hs : ws.Sound) {a x : BlockId}
    (hu : ws'.graph.Under a x) : ws.graph.Under a x := by
  obtain ⟨R, h, -⟩ := h
  exact h.under hs hu

theorem Sheds.stays (h : ws.Sheds id keep gone ws') (ht : ws.graph.Tame id) : ws'.Live id := by
  obtain ⟨R, h, hR⟩ := h
  obtain ⟨b, hb⟩ := h.live
  exact ⟨_, by rw [h.kept id (hR ht).2, hb, Option.map_some]⟩

/-- The first input of a name, with those before and after it. -/
theorem input?_split {name : String} {i : Input} (h : b.input? name = some i) :
    ∃ l₁ l₂, b.inputs = l₁ ++ [i] ++ l₂ ∧ i.name = name ∧ (∀ j ∈ l₁, j.name ≠ name) ∧
      b.inputs.eraseP (·.name = name) = l₁ ++ l₂ := by
  obtain ⟨hn, l₁, l₂, hi, hl⟩ := List.find?_eq_some_iff_append.mp h
  have hne : ∀ j ∈ l₁, j.name ≠ name := by
    intro j hj hjn
    have := hl j hj
    simp [hjn] at this
  refine ⟨l₁, l₂, by simpa using hi, by simpa using hn, hne, ?_⟩
  rw [hi, List.eraseP_append_right]
  · simp [show i.name = name by simpa using hn]
  · simpa using hne

end Workspace

namespace Edit

open Workspace

variable [Scalar α]

theorem addInput_leads (ws : Workspace α) (id : BlockId) (t : InputTemplate) :
    Leads (fun s => s = ws ∧ ws.Sound) (addInput id t)
      (fun _ s => ∃ is l u, ws.Pushes id [t] is l u ∧ u.Shifts (u.Branch id) s)
      fun s => s = ws ∧ ¬ ws.Live id := by
  unfold addInput
  refine Leads.bind (Q := fun _ u => ws.Sound ∧ ∃ is l, ws.Pushes id [t] is l u) ?_ fun _ => ?_
  · refine ((pushInputs_leads ws id [t]).frame (c := ws.Sound)).weaken (fun _ h => h) ?_ fun _ h => h.1
    exact fun _ u h => ⟨h.2, h.1⟩
  · refine Leads.fix fun u => ?_
    refine ((layOut_leads u id).frame (c := ws.Sound ∧ ∃ is l, ws.Pushes id [t] is l u)).weaken ?_ ?_ ?_
    · rintro _ ⟨rfl, hs, is, l, h⟩
      exact ⟨⟨rfl, h.sound hs⟩, hs, is, l, h⟩
    · rintro _ s ⟨⟨-, h'⟩, -, is, l, h⟩
      exact ⟨is, l, u, h, h'⟩
    · rintro s ⟨⟨-, hn⟩, -, is, l, h⟩
      exact (hn (h.stays h.live)).elim

omit [Scalar α] in
theorem cutInputs_leads (ws : Workspace α) (id : BlockId) (length : Nat) :
    Leads (fun s => s = ws ∧ ws.Sound) (cutInputs id length)
      (fun _ s => ∃ b, ws.blocks[id]? = some b ∧
        ws.Sheds id (b.inputs.take length) (b.inputs.drop length) s)
      fun s => s = ws ∧ ¬ ws.Live id := by
  unfold cutInputs
  refine (Leads.block ?_).bind fun b => ?_
  · rintro _ ⟨rfl, -⟩ hn
    exact ⟨rfl, not_live hn⟩
  refine Leads.bind (Q := fun _ s => s = ws.setInputs id b (b.inputs.take length ++ []) ∧
    ws.Sound ∧ ws.blocks[id]? = some b ∧
      b.inputs = b.inputs.take length ++ b.inputs.drop length ++ []) ?_ fun _ => ?_
  · refine Leads.updateBlock ?_ ?_
    · rintro _ b' ⟨⟨rfl, hs⟩, hb⟩ hb'
      rw [hb] at hb'
      cases hb'
      exact ⟨by rw [List.append_nil]; rfl, hs, hb, by simp⟩
    · rintro _ ⟨⟨rfl, -⟩, hb⟩ hn
      rw [hb] at hn
      cases hn
  · refine ((disposeInputs_leads ws id b (b.inputs.take length) (b.inputs.drop length) []).frame
      (c := ws.blocks[id]? = some b)).weaken ?_ ?_ ?_
    · exact fun s h => ⟨h, h.2.2.1⟩
    · rintro _ s ⟨⟨R, h, hl⟩, hb⟩
      rw [List.append_nil] at h
      exact ⟨b, hb, R, h, hl⟩
    · exact fun _ h => h.1.elim

/-- Remove the first input of a name without laying the block out. Whether there was one. -/
def dropInput (id : BlockId) (name : String) : Edit α Bool := do
  match (← query (·.block id)).input? name with
  | none => return false
  | some input =>
    updateBlock id fun b => { b with inputs := b.inputs.eraseP (·.name = name) }
    disposeInputs [input]
    return true

theorem removeInput_eq (id : BlockId) (name : String) :
    (removeInput id name : Edit α Unit) =
      dropInput id name >>= fun found => if found then layOut id else pure () := by
  unfold removeInput dropInput
  rw [bind_assoc]
  congr 1
  funext b
  cases b.input? name with
  | none => rfl
  | some input => simp only [bind_assoc, pure_bind, ite_true]

omit [Scalar α] in
theorem dropInput_leads (ws : Workspace α) (id : BlockId) (name : String) :
    Leads (fun s => s = ws ∧ ws.Sound) (dropInput id name)
      (fun found s => ∃ b, ws.blocks[id]? = some b ∧ if found then
        ∃ l₁ i l₂, b.inputs = l₁ ++ [i] ++ l₂ ∧ i.name = name ∧ (∀ j ∈ l₁, j.name ≠ name) ∧
          ws.Sheds id (l₁ ++ l₂) [i] s
        else b.input? name = none ∧ s = ws)
      fun s => s = ws ∧ ¬ ws.Live id := by
  unfold dropInput
  refine (Leads.block ?_).bind fun b => ?_
  · rintro _ ⟨rfl, -⟩ hn
    exact ⟨rfl, not_live hn⟩
  cases hi : b.input? name with
  | none =>
    refine Leads.pure ?_
    rintro _ ⟨⟨rfl, -⟩, hb⟩
    exact ⟨b, hb, hi, rfl⟩
  | some i =>
    obtain ⟨l₁, l₂, hl, hn, hne, he⟩ := input?_split hi
    refine Leads.bind (Q := fun _ s => s = ws.setInputs id b (l₁ ++ l₂) ∧
      ws.Sound ∧ ws.blocks[id]? = some b ∧ b.inputs = l₁ ++ [i] ++ l₂) ?_ fun _ => ?_
    · refine Leads.updateBlock ?_ ?_
      · rintro _ b' ⟨⟨rfl, hs⟩, hb⟩ hb'
        rw [hb] at hb'
        cases hb'
        exact ⟨by rw [← he]; rfl, hs, hb, hl⟩
      · rintro _ ⟨⟨rfl, -⟩, hb⟩ hn
        rw [hb] at hn
        cases hn
    refine Leads.bind (((disposeInputs_leads ws id b l₁ [i] l₂).frame
      (c := ws.blocks[id]? = some b)).weaken ?_ (fun _ _ h => h) fun _ h => h.1.elim)
      fun _ => Leads.pure ?_
    · exact fun s h => ⟨h, h.2.2.1⟩
    · exact fun s h => ⟨b, h.2, l₁, i, l₂, hl, hn, hne, h.1⟩

theorem removeInput_leads (ws : Workspace α) (id : BlockId) (name : String) :
    Leads (fun s => s = ws ∧ ws.Sound) (removeInput id name)
      (fun _ s => ∃ b, ws.blocks[id]? = some b ∧ ((b.input? name = none ∧ s = ws) ∨
        ∃ l₁ i l₂ u, b.inputs = l₁ ++ [i] ++ l₂ ∧ i.name = name ∧ (∀ j ∈ l₁, j.name ≠ name) ∧
          ws.Sheds id (l₁ ++ l₂) [i] u ∧ u.Live id ∧ u.Shifts (u.Branch id) s))
      fun s => (s = ws ∧ ¬ ws.Live id) ∨ ∃ keep gone, ws.Sheds id keep gone s ∧ ¬ s.Live id := by
  rw [removeInput_eq]
  refine Leads.bind (((dropInput_leads ws id name).frame (c := ws.Sound)).weaken
    (fun _ h => ⟨h, h.2⟩) (fun _ _ h => h) fun _ h => Or.inl h.1) fun found => ?_
  cases found with
  | false =>
    refine Leads.pure ?_
    rintro s ⟨⟨b, hb, hnone⟩, -⟩
    exact ⟨b, hb, Or.inl hnone⟩
  | true =>
    refine Leads.fix fun u => ?_
    refine ((layOut_leads u id).frame (c := ws.Sound ∧ ∃ b, ws.blocks[id]? = some b ∧
      ∃ l₁ i l₂, b.inputs = l₁ ++ [i] ++ l₂ ∧ i.name = name ∧ (∀ j ∈ l₁, j.name ≠ name) ∧
        ws.Sheds id (l₁ ++ l₂) [i] u)).weaken ?_ ?_ ?_
    · rintro _ ⟨rfl, ⟨b, hb, l₁, i, l₂, hl, hn, hne, h⟩, hs⟩
      exact ⟨⟨rfl, h.sound hs⟩, hs, b, hb, l₁, i, l₂, hl, hn, hne, h⟩
    · rintro _ s ⟨⟨hlive, h'⟩, -, b, hb, l₁, i, l₂, hl, hn, hne, h⟩
      exact ⟨b, hb, Or.inr ⟨l₁, i, l₂, u, hl, hn, hne, h, hlive, h'⟩⟩
    · rintro _ ⟨⟨rfl, hn⟩, -, -, -, l₁, i, l₂, -, -, -, h⟩
      exact Or.inr ⟨_, _, h, hn⟩

end Edit

end BlockEditor
