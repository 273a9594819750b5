import BlockEditor.Proofs.Graph.Tree

/-!
# Adding several ends to a block

New ends are free, so nothing hangs on anything new. A block gets one plug at most.
-/

namespace BlockEditor

/-- An end that is added to a block. -/
structure NewEnd where
  connection : ConnectionId
  kind : ConnectionKind
  check : Option (List String)
deriving DecidableEq

namespace Graph

variable {g : Graph} {a b x : BlockId} {c : ConnectionId} {w : Wire} {l : List NewEnd}

def addEnds (g : Graph) (b : BlockId) (l : List NewEnd) : Graph :=
  l.foldl (fun g e => g.addEnd b e.connection e.kind e.check) g

theorem addEnds_ends : (g.addEnds b l).ends x = if x = b then
    (g.ends x).map (· ++ l.map fun e => (e.connection, some e.kind)) else g.ends x := by
  induction l generalizing g with
  | nil =>
    cases h : g.ends x <;> simp [addEnds, h]
  | cons e rest ih =>
    change ((g.addEnd b e.connection e.kind e.check).addEnds b rest).ends x = _
    rw [ih]
    by_cases hx : x = b
    · subst hx
      cases h : g.ends x <;> simp [addEnd, h]
    · simp [addEnd, hx]

theorem addEnds_wire_of_ne (hc : ∀ e ∈ l, c ≠ e.connection) :
    (g.addEnds b l).wire c = g.wire c := by
  induction l generalizing g with
  | nil => rfl
  | cons e rest ih =>
    refine (ih (g := g.addEnd b e.connection e.kind e.check)
      fun f hf => hc f (List.mem_cons_of_mem e hf)).trans ?_
    exact addEnd_wire_of_ne (hc e List.mem_cons_self)

theorem addEnds_wire_of_mem {e : NewEnd} (hl : (l.map (·.connection)).Nodup) (he : e ∈ l) :
    (g.addEnds b l).wire e.connection = some ⟨b, e.kind, e.check, none⟩ := by
  induction l generalizing g with
  | nil => cases he
  | cons f rest ih =>
    change ((g.addEnd b f.connection f.kind f.check).addEnds b rest).wire e.connection = _
    rw [List.map_cons, List.nodup_cons] at hl
    rcases List.mem_cons.mp he with rfl | he
    · have hne : ∀ f ∈ rest, e.connection ≠ f.connection := fun f hf he =>
        hl.1 (List.mem_map.mpr ⟨f, hf, he.symm⟩)
      rw [addEnds_wire_of_ne hne]
      exact addEnd_wire_self
    · exact ih hl.2 he

/-- Ends that may be added to a block together. -/
structure Addable (g : Graph) (b : BlockId) (l : List NewEnd) : Prop where
  nodup : (l.map (·.connection)).Nodup
  fresh : ∀ e ∈ l, g.wire e.connection = none
  onePlug : l.Pairwise fun e f => e.kind.isPlug → f.kind.isPlug = false
  plug : ∀ e ∈ l, e.kind.isPlug → ∀ d w, g.wire d = some w → w.block = b → w.kind.isPlug = false

theorem Addable.tail {e : NewEnd} (h : g.Addable b (e :: l)) :
    (g.addEnd b e.connection e.kind e.check).Addable b l := by
  obtain ⟨hnodup, hfresh, hone, hplug⟩ := h
  rw [List.map_cons, List.nodup_cons] at hnodup
  rw [List.pairwise_cons] at hone
  refine ⟨hnodup.2, fun f hf => ?_, hone.2, fun f hf hk d w hw hb => ?_⟩
  · rw [addEnd_wire_of_ne]
    · exact hfresh f (List.mem_cons_of_mem e hf)
    · intro h
      exact hnodup.1 (h ▸ List.mem_map_of_mem hf)
  · rcases addEnd_wire hw with hw | ⟨-, rfl⟩
    · exact hplug f (List.mem_cons_of_mem e hf) hk d w hw hb
    · cases he : e.kind.isPlug with
      | false => rfl
      | true =>
        rw [hone.1 f hf he] at hk
        cases hk

theorem Wired.addEnds (hg : g.Wired) {m : List Role} (hb : g.ends b = some m)
    (h : g.Addable b l) : (g.addEnds b l).Wired := by
  induction l generalizing g m with
  | nil => exact hg
  | cons e rest ih =>
    have hc : g.wire e.connection = none := h.fresh e List.mem_cons_self
    have hg' := hg.addEnd e.check hb hc (h.plug e List.mem_cons_self)
    refine ih hg' (m := m ++ [(e.connection, some e.kind)]) ?_ h.tail
    simp [Graph.addEnd, hb]

theorem under_of_addEnds {m : List Role} (hg : g.Wired) (hb : g.ends b = some m)
    (h : g.Addable b l) (hu : (g.addEnds b l).Under a x) : g.Under a x := by
  induction l generalizing g m with
  | nil => exact hu
  | cons e rest ih =>
    have hc : g.wire e.connection = none := h.fresh e List.mem_cons_self
    have hg' := hg.addEnd e.check hb hc (h.plug e List.mem_cons_self)
    refine under_of_addEnd hg hc (ih hg' (m := m ++ [(e.connection, some e.kind)]) ?_ h.tail hu)
    simp [Graph.addEnd, hb]

/-- New ends leave every link as it was. -/
theorem under_addEnds (h : g.Addable b l) (hu : g.Under a x) : (g.addEnds b l).Under a x := by
  have old : ∀ c w, g.wire c = some w → (g.addEnds b l).wire c = g.wire c := by
    refine fun c w hw => addEnds_wire_of_ne fun e he => ?_
    rintro rfl
    rw [h.fresh e he] at hw
    cases hw
  obtain ⟨s, p, w, v, hl, rfl, rfl⟩ := hu
  exact hl.under_of_wires (old s w hl.socket) (old p v hl.plug)

theorem loose_addEnds (h : g.Addable b l) : (g.addEnds b l).Loose x ↔ g.Loose x := by
  induction l generalizing g with
  | nil => exact Iff.rfl
  | cons e rest ih =>
    have hc : g.wire e.connection = none := h.fresh e List.mem_cons_self
    exact (ih h.tail).trans (loose_addEnd hc)

theorem Wired.free_of_addBlock (hg : g.Wired) (hb : g.ends b = none) (hw : g.wire c = some w) :
    w.block ≠ b := by
  rintro rfl
  obtain ⟨l, hl, -⟩ := hg.owned hw
  rw [hb] at hl
  cases hl

/-- A block without ends hangs on nothing. -/
theorem Wired.loose_of_none (hg : g.Wired) (hb : g.ends b = none) : g.Loose b :=
  fun _ _ hv hvb _ => (hg.free_of_addBlock hb hv hvb).elim

theorem under_addBlock : (g.addBlock b).Under a x ↔ g.Under a x := by
  constructor <;> rintro ⟨s, p, w, v, hl, h⟩ <;> exact ⟨s, p, w, v, ⟨hl.1, hl.2, hl.3, hl.4⟩, h⟩

theorem loose_addBlock : (g.addBlock b).Loose x ↔ g.Loose x :=
  Iff.rfl

end Graph

end BlockEditor
