import BlockEditor.Proofs.Graph.Ends

/-!
# What hangs on a socket

The links of a graph are told by their sockets and the blocks that hang on them. Making and cutting
a link changes one of these pairs, and taking away changes only those of what is taken away.
-/

namespace BlockEditor.Graph

variable {g : Graph} {a b x : BlockId} {c d s p t : ConnectionId} {w v : Wire}

/-- The block hangs on the socket. -/
def Hangs (g : Graph) (s : ConnectionId) (x : BlockId) : Prop :=
  ∃ p w v, g.Link s p w v ∧ v.block = x

theorem Hangs.unique (h : g.Hangs s x) (h' : g.Hangs s b) : x = b := by
  obtain ⟨p, w, v, hl, rfl⟩ := h
  obtain ⟨p', w', v', hl', rfl⟩ := h'
  obtain rfl := Option.some.inj (hl.socket.symm.trans hl'.socket)
  obtain rfl := Option.some.inj (hl.down.symm.trans hl'.down)
  obtain rfl := Option.some.inj (hl.plug.symm.trans hl'.plug)
  rfl

/-- No end is both a socket and a plug. -/
theorem Link.socket_ne_plug {s' p' : ConnectionId} {w' v' : Wire} (hg : g.Wired)
    (h : g.Link s p w v) (h' : g.Link s' p' w' v') : s ≠ p' := by
  rintro rfl
  obtain rfl := Option.some.inj (h.socket.symm.trans h'.plug)
  have hk := h'.isPlug hg
  rw [ConnectionKind.isPlug_eq_not, h.isSocket] at hk
  cases hk

/-- Every block but the one that is cut off hangs where it hung. -/
theorem Link.under_cut (h : g.Link s p w v) (hg : g.Wired) (hu : g.Under a b) (hne : a ≠ v.block) :
    (g.cut s p).Under a b := by
  obtain ⟨s', p', w', v', hl, rfl, rfl⟩ := hu
  have hpp : p' ≠ p := by
    rintro rfl
    exact hne (congrArg Wire.block (Option.some.inj (hl.plug.symm.trans h.plug)))
  have hss : s' ≠ s := by
    rintro rfl
    obtain rfl := Option.some.inj (hl.socket.symm.trans h.socket)
    exact hpp (Option.some.inj (hl.down.symm.trans h.down))
  apply hl.under_of_wires
  · exact cut_wire_of_ne hss (hl.socket_ne_plug hg h)
  · exact cut_wire_of_ne (h.socket_ne_plug hg hl).symm hpp

theorem hangs_cut (hg : g.Wired) (h : g.Link s p w v) :
    (g.cut s p).Hangs t x ↔ g.Hangs t x ∧ t ≠ s := by
  constructor
  · rintro ⟨q, w', v', hl, rfl⟩
    obtain ⟨hl, hts⟩ := link_of_cut hg h hl
    exact ⟨⟨q, w', v', hl, rfl⟩, hts⟩
  · rintro ⟨⟨q, w', v', hl, rfl⟩, hts⟩
    have hqp : q ≠ p := by
      rintro rfl
      exact hts (hg.target_unique hl.socket h.socket hl.down h.down)
    refine ⟨q, w', v', ⟨?_, ?_, hl.isSocket, hl.down⟩, rfl⟩
    · rw [cut_wire_of_ne hts (hl.socket_ne_plug hg h), hl.socket]
    · rw [cut_wire_of_ne (h.socket_ne_plug hg hl).symm hqp, hl.plug]

theorem hangs_tie (hg : g.Wired) (h : g.Mates s p w v) (hs : w.target = none)
    (hp : v.target = none) : (g.tie s p).Hangs t x ↔ g.Hangs t x ∨ t = s ∧ x = v.block := by
  have hfree : ∀ {d w' q}, g.wire d = some w' → w'.target = some q → q ≠ s ∧ q ≠ p := by
    intro d w' q hd ht
    constructor
    · rintro rfl
      exact hg.target_ne_of_free h.socket hs hd ht
    · rintro rfl
      exact hg.target_ne_of_free h.plug hp hd ht
  constructor
  · rintro ⟨q, w', v', hl, rfl⟩
    rcases tie_wire h hl.socket with ⟨rfl, rfl⟩ | ⟨rfl, rfl⟩ | ⟨-, -, hw'⟩
    · obtain rfl : p = q := Option.some.inj hl.down
      obtain rfl := Option.some.inj (hl.plug.symm.trans (tie_wire_plug h))
      exact Or.inr ⟨rfl, rfl⟩
    · have hk : v.kind.isSocket := hl.isSocket
      have hplug := h.isPlug
      rw [ConnectionKind.isPlug_eq_not, hk] at hplug
      cases hplug
    · obtain ⟨hqs, hqp⟩ := hfree hw' hl.down
      refine Or.inl ⟨q, w', v', ⟨hw', ?_, hl.isSocket, hl.down⟩, rfl⟩
      rw [← tie_wire_of_ne hqs hqp, hl.plug]
  · rintro (⟨q, w', v', hl, rfl⟩ | ⟨rfl, rfl⟩)
    · obtain ⟨hqs, hqp⟩ := hfree hl.socket hl.down
      obtain ⟨hts, htp⟩ := hfree hl.plug (hl.up hg)
      refine ⟨q, w', v', ⟨?_, ?_, hl.isSocket, hl.down⟩, rfl⟩
      · rw [tie_wire_of_ne hts htp, hl.socket]
      · rw [tie_wire_of_ne hqs hqp, hl.plug]
    · exact ⟨p, _, _, tie_link h, rfl⟩

/-- If what hangs on something taken away is taken away too, then the links of all else stay. -/
theorem hangs_prune {D : ConnectionId → Bool} {R : BlockId → Bool} (hg : g.Wired)
    (hD : ∀ c w, g.wire c = some w → D c → w.kind.isPlug → R w.block)
    (hD' : ∀ c w, g.wire c = some w → R w.block → D c)
    (hR : ∀ s p w v, g.Link s p w v → D s → R v.block) :
    (g.prune D R).Hangs t x ↔ g.Hangs t x ∧ R x = false := by
  constructor
  · rintro ⟨q, w, v, hl, rfl⟩
    obtain ⟨-, w', hw', rfl⟩ := prune_wire hl.socket
    obtain ⟨hq, v', hv', rfl⟩ := prune_wire hl.plug
    refine ⟨⟨q, w', v', ⟨hw', hv', hl.isSocket, (prune_target hl.down).1⟩, rfl⟩, ?_⟩
    rw [Bool.eq_false_iff]
    intro hx
    rw [hD' q v' hv' hx] at hq
    cases hq
  · rintro ⟨⟨q, w, v, hl, rfl⟩, hx⟩
    have ht : D t = false := by
      rw [Bool.eq_false_iff]
      intro ht
      rw [hR t q w v hl ht] at hx
      cases hx
    have hq : D q = false := by
      rw [Bool.eq_false_iff]
      intro hq
      rw [hD q v hl.plug hq (hl.isPlug hg)] at hx
      cases hx
    refine ⟨q, _, _, ⟨prune_wire_of hl.socket ht, prune_wire_of hl.plug hq, hl.isSocket, ?_⟩, rfl⟩
    simp [hl.down, hq]

theorem hangs_addEnd {k : ConnectionKind} {check : Option (List String)} (hg : g.Wired)
    (hc : g.wire c = none) : (g.addEnd b c k check).Hangs t x ↔ g.Hangs t x := by
  constructor
  · rintro ⟨q, w, v, hl, rfl⟩
    exact ⟨q, w, v, link_of_addEnd hg hc hl, rfl⟩
  · rintro ⟨q, w, v, hl, rfl⟩
    exact ⟨q, w, v, ⟨addEnd_wire_of_some hc hl.socket, addEnd_wire_of_some hc hl.plug, hl.isSocket,
      hl.down⟩, rfl⟩

theorem hangs_addEnds {l : List NewEnd} {m : List Role} (hg : g.Wired) (hb : g.ends b = some m)
    (h : g.Addable b l) : (g.addEnds b l).Hangs t x ↔ g.Hangs t x := by
  induction l generalizing g m with
  | nil => exact Iff.rfl
  | cons e rest ih =>
    have hc : g.wire e.connection = none := h.fresh e List.mem_cons_self
    have hg' := hg.addEnd e.check hb hc (h.plug e List.mem_cons_self)
    refine (ih hg' (m := m ++ [(e.connection, some e.kind)]) ?_ h.tail).trans (hangs_addEnd hg hc)
    simp [Graph.addEnd, hb]

theorem hangs_addBlock : (g.addBlock b).Hangs t x ↔ g.Hangs t x := by
  constructor <;> rintro ⟨q, w, v, hl, h⟩ <;> exact ⟨q, w, v, ⟨hl.1, hl.2, hl.3, hl.4⟩, h⟩

end BlockEditor.Graph
