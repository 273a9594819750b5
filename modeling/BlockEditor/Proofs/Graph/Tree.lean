import BlockEditor.Proofs.Graph.Change

/-!
# What hangs on what after a change

A link that is made hangs one block on another, and a link that is cut sets one loose. Whatever is
added hangs on nothing, and whatever is taken away leaves the rest as it was.
-/

namespace BlockEditor.Graph

variable {g g' : Graph} {a b x : BlockId} {c d e s p : ConnectionId} {w v u : Wire}

theorem Below.mono (h : ∀ a b, g'.Under a b → g.Under a b) (hb : g'.Below a b) : g.Below a b :=
  Relation.TransGen.mono h a b hb

theorem Tame.mono (ht : g.Tame b) (h : ∀ a b, g'.Under a b → g.Under a b) : g'.Tame b :=
  fun hb => ht (hb.mono h)

/-! ### Adding -/

section AddEnd

variable {k : ConnectionKind} {check : Option (List String)}

theorem link_of_addEnd (hg : g.Wired) (hc : g.wire c = none)
    (hl : (g.addEnd x c k check).Link s p w v) : g.Link s p w v := by
  rcases addEnd_wire hl.socket with hw | ⟨-, rfl⟩
  · rcases addEnd_wire hl.plug with hv | ⟨rfl, -⟩
    · exact ⟨hw, hv, hl.isSocket, hl.down⟩
    · exact (hg.target_ne hc hw hl.down).elim
  · cases hl.down

theorem under_of_addEnd (hg : g.Wired) (hc : g.wire c = none)
    (h : (g.addEnd x c k check).Under a b) : g.Under a b := by
  obtain ⟨s, p, w, v, hl, ha, hb⟩ := h
  exact ⟨s, p, w, v, link_of_addEnd hg hc hl, ha, hb⟩

theorem loose_addEnd (hc : g.wire c = none) :
    (g.addEnd x c k check).Loose b ↔ g.Loose b := by
  constructor
  · intro h p v hv hb hk
    exact h p v (addEnd_wire_of_some hc hv) hb hk
  · intro h p v hv hb hk
    rcases addEnd_wire hv with hv | ⟨-, rfl⟩
    · exact h p v hv hb hk
    · rfl

end AddEnd

/-- A link stays as long as both of its ends do. -/
theorem Link.under_of_wires (h : g.Link s p w v) (hs : g'.wire s = g.wire s)
    (hp : g'.wire p = g.wire p) : g'.Under v.block w.block :=
  ⟨s, p, w, v, ⟨hs.trans h.socket, hp.trans h.plug, h.isSocket, h.down⟩, rfl, rfl⟩

/-! ### Linking -/

theorem tie_wire (h : g.Mates s p w v) (hu : (g.tie s p).wire c = some u) :
    (c = s ∧ u = { w with target := some p }) ∨ (c = p ∧ u = { v with target := some s }) ∨
      (c ≠ s ∧ c ≠ p ∧ g.wire c = some u) := by
  by_cases hs : c = s
  · subst hs
    rw [tie_wire_socket h, Option.some.injEq] at hu
    exact Or.inl ⟨rfl, hu.symm⟩
  · by_cases hp : c = p
    · subst hp
      rw [tie_wire_plug h, Option.some.injEq] at hu
      exact Or.inr (Or.inl ⟨rfl, hu.symm⟩)
    · rw [tie_wire_of_ne hs hp] at hu
      exact Or.inr (Or.inr ⟨hs, hp, hu⟩)

theorem Mates.isPlug (h : g.Mates s p w v) : v.kind.isPlug := by
  rw [h.opposite, ConnectionKind.isPlug_opposite]
  exact h.isSocket

theorem tie_link (h : g.Mates s p w v) :
    (g.tie s p).Link s p { w with target := some p } { v with target := some s } :=
  ⟨tie_wire_socket h, tie_wire_plug h, h.isSocket, rfl⟩

theorem under_tie (hg : g.Wired) (h : g.Mates s p w v) (hs : w.target = none)
    (hp : v.target = none) (hu : (g.tie s p).Under a b) :
    g.Under a b ∨ a = v.block ∧ b = w.block := by
  obtain ⟨s', p', w', v', hl, ha, hb⟩ := hu
  have hg' := hg.tie h hs hp
  rcases tie_wire h hl.socket with ⟨rfl, rfl⟩ | ⟨rfl, rfl⟩ | ⟨hs', hp', hw'⟩
  · cases hl.down
    have := (tie_wire_plug h).symm.trans hl.plug
    cases this
    exact Or.inr ⟨ha.symm, hb.symm⟩
  · have hk := h.isPlug
    rw [ConnectionKind.isPlug_eq_not, hl.isSocket] at hk
    cases hk
  · rcases tie_wire h hl.plug with ⟨rfl, rfl⟩ | ⟨rfl, rfl⟩ | ⟨hs'', hp'', hv'⟩
    · exact (hg.target_ne_of_free h.socket hs hw' hl.down).elim
    · exact (hg.target_ne_of_free h.plug hp hw' hl.down).elim
    · exact Or.inl ⟨s', p', w', v', ⟨hw', hv', hl.isSocket, hl.down⟩, ha, hb⟩

/-- A link stays when two free ends are linked. -/
theorem Link.tie {s' p' : ConnectionId} {w' v' : Wire} (hl : g.Link s' p' w' v')
    (h : g.Mates s p w v) (hs : w.target = none) (hg : g.Wired) (hp : v.target = none) :
    (g.tie s p).Link s' p' w' v' := by
  have hs' : s' ≠ s ∧ s' ≠ p := by
    constructor <;> rintro rfl
    · have hw := hl.socket.symm.trans h.socket
      cases hw
      rw [hl.down] at hs
      cases hs
    · have hw := hl.socket.symm.trans h.plug
      cases hw
      rw [hl.down] at hp
      cases hp
  have hp' : p' ≠ s ∧ p' ≠ p := by
    constructor <;> rintro rfl
    · have hv := hl.plug.symm.trans h.socket
      cases hv
      rw [hl.up hg] at hs
      cases hs
    · have hv := hl.plug.symm.trans h.plug
      cases hv
      rw [hl.up hg] at hp
      cases hp
  exact ⟨(tie_wire_of_ne hs'.1 hs'.2).trans hl.socket, (tie_wire_of_ne hp'.1 hp'.2).trans hl.plug,
    hl.isSocket, hl.down⟩

/-- What hangs on something stays there when two free ends are linked. -/
theorem under_of_tie (h : g.Mates s p w v) (hs : w.target = none) (hg : g.Wired)
    (hp : v.target = none) (hu : g.Under a b) : (g.tie s p).Under a b := by
  obtain ⟨s', p', w', v', hl, ha, hb⟩ := hu
  exact ⟨s', p', w', v', hl.tie h hs hg hp, ha, hb⟩

/-- What hangs below something after a link was made hung there before, or the link leads there. -/
theorem below_tie (hg : g.Wired) (h : g.Mates s p w v) (hs : w.target = none)
    (hp : v.target = none) (hb : (g.tie s p).Below a b) : g.Below a b ∨
      (a = v.block ∨ g.Below a v.block) ∧ (b = w.block ∨ g.Below w.block b) := by
  induction hb using Relation.TransGen.head_induction_on with
  | single hu =>
    rcases under_tie hg h hs hp hu with hu | ⟨rfl, rfl⟩
    · exact Or.inl (.single hu)
    · exact Or.inr ⟨Or.inl rfl, Or.inl rfl⟩
  | head hu _ ih =>
    rcases under_tie hg h hs hp hu with hu | ⟨rfl, rfl⟩
    · rcases ih with ih | ⟨ha, hw⟩
      · exact Or.inl (.head hu ih)
      · refine Or.inr ⟨Or.inr ?_, hw⟩
        rcases ha with rfl | ha
        · exact .single hu
        · exact .head hu ha
    · rcases ih with ih | ⟨-, hw⟩
      · exact Or.inr ⟨Or.inl rfl, Or.inr ih⟩
      · exact Or.inr ⟨Or.inl rfl, hw⟩

/-- No cycle comes of a link unless the owner of the socket hangs below the owner of the plug. -/
theorem Acyclic.tie (hg : g.Wired) (hac : g.Acyclic) (h : g.Mates s p w v)
    (hs : w.target = none) (hp : v.target = none) (hclear : ¬ g.Below w.block v.block) :
    (g.tie s p).Acyclic := by
  intro b hb
  rcases below_tie hg h hs hp hb with hb | ⟨hv, hw⟩
  · exact hac b hb
  · rcases hv with rfl | hv
    · rcases hw with hw | hw
      · exact h.apart hw
      · exact hclear hw
    · rcases hw with rfl | hw
      · exact hclear hv
      · exact hclear (hw.trans hv)

theorem loose_tie (h : g.Mates s p w v) :
    (g.tie s p).Loose b ↔ g.Loose b ∧ b ≠ v.block := by
  constructor
  · intro hl
    have hne : b ≠ v.block := by
      rintro rfl
      have := hl p _ (tie_wire_plug h) rfl h.isPlug
      cases this
    refine ⟨fun q y hy hb hk => ?_, hne⟩
    refine hl q y ?_ hb hk
    rw [tie_wire_of_ne, hy]
    · rintro rfl
      have := hy.symm.trans h.socket
      cases this
      simp [ConnectionKind.isPlug_eq_not, h.isSocket] at hk
    · rintro rfl
      have := hy.symm.trans h.plug
      cases this
      exact hne hb.symm
  · rintro ⟨hl, hne⟩ q y hy hb hk
    rcases tie_wire h hy with ⟨rfl, rfl⟩ | ⟨rfl, rfl⟩ | ⟨-, -, hy'⟩
    · simp [ConnectionKind.isPlug_eq_not, h.isSocket] at hk
    · exact (hne hb.symm).elim
    · exact hl q y hy' hb hk

/-- Every end is there still, and differs in its target at most. -/
def Spares (g g' : Graph) : Prop :=
  ∀ c w, g.wire c = some w → ∃ t, g'.wire c = some { w with target := t }

theorem Spares.refl (g : Graph) : g.Spares g :=
  fun _ w h => ⟨w.target, h⟩

theorem Spares.trans {g'' : Graph} (h : g.Spares g') (h' : g'.Spares g'') : g.Spares g'' := by
  intro c w hw
  obtain ⟨t, ht⟩ := h c w hw
  obtain ⟨t', ht'⟩ := h' c _ ht
  exact ⟨t', ht'⟩

theorem Spares.mates (h : g.Spares g') (hm : g.Mates s p w v) :
    ∃ t t', g'.Mates s p { w with target := t } { v with target := t' } := by
  obtain ⟨t, ht⟩ := h s w hm.socket
  obtain ⟨t', ht'⟩ := h p v hm.plug
  exact ⟨t, t', ht, ht', hm.isSocket, hm.opposite, hm.fits, hm.apart⟩

/-- A socket, and a plug of the block, that may be linked. -/
def Poised (g : Graph) (s p : ConnectionId) (b : BlockId) : Prop :=
  ∃ w v, g.Mates s p w v ∧ v.block = b

/-- Nothing is linked to the end. -/
def Idle (g : Graph) (c : ConnectionId) : Prop :=
  ∀ w, g.wire c = some w → w.target = none

/-- The end is a plug of the block. -/
def PlugOf (g : Graph) (p : ConnectionId) (b : BlockId) : Prop :=
  ∃ v, g.wire p = some v ∧ v.block = b ∧ v.kind.isPlug

theorem Spares.poised (h : g.Spares g') (hp : g.Poised s p b) : g'.Poised s p b := by
  obtain ⟨w, v, hm, hb⟩ := hp
  obtain ⟨t, t', hm'⟩ := h.mates hm
  exact ⟨_, _, hm', hb⟩

theorem Spares.plugOf (h : g.Spares g') (hp : g.PlugOf p b) : g'.PlugOf p b := by
  obtain ⟨v, hv, hb, hk⟩ := hp
  obtain ⟨t, ht⟩ := h p v hv
  exact ⟨_, ht, hb, hk⟩

theorem Poised.plugOf (h : g.Poised s p b) : g.PlugOf p b := by
  obtain ⟨w, v, hm, hb⟩ := h
  refine ⟨v, hm.plug, hb, ?_⟩
  rw [hm.opposite, ConnectionKind.isPlug_opposite]
  exact hm.isSocket

/-- A block is loose if its only plug is free. -/
theorem PlugOf.loose (hg : g.Wired) (h : g.PlugOf p b) (hp : g.Idle p) : g.Loose b := by
  obtain ⟨v, hv, hb, hk⟩ := h
  intro q u hu hub huk
  obtain rfl := hg.onePlug hv hu (hb.trans hub.symm) hk huk
  exact hp u hu

theorem spares_retarget (c : ConnectionId) (t : Option ConnectionId) :
    g.Spares (g.retarget c t) := by
  intro d w hw
  by_cases hd : d = c
  · subst hd
    exact ⟨t, retarget_wire_self hw⟩
  · exact ⟨w.target, by rw [retarget_wire_of_ne hd, hw]⟩

theorem spares_tie (s p : ConnectionId) : g.Spares (g.tie s p) :=
  (spares_retarget s _).trans (spares_retarget p _)

theorem spares_cut (s p : ConnectionId) : g.Spares (g.cut s p) :=
  (spares_retarget s _).trans (spares_retarget p _)

theorem cut_wire (hg : g.Wired) (h : g.Link s p w v) (hu : (g.cut s p).wire c = some u) :
    (c = s ∧ u = { w with target := none }) ∨ (c = p ∧ u = { v with target := none }) ∨
      (c ≠ s ∧ c ≠ p ∧ g.wire c = some u) := by
  by_cases hs : c = s
  · subst hs
    rw [cut_wire_socket hg h, Option.some.injEq] at hu
    exact Or.inl ⟨rfl, hu.symm⟩
  · by_cases hp : c = p
    · subst hp
      rw [cut_wire_plug hg h, Option.some.injEq] at hu
      exact Or.inr (Or.inl ⟨rfl, hu.symm⟩)
    · rw [cut_wire_of_ne hs hp] at hu
      exact Or.inr (Or.inr ⟨hs, hp, hu⟩)

/-- A link that is left is none of the two ends that were parted. -/
theorem link_of_cut (hg : g.Wired) (h : g.Link s p w v) {t q : ConnectionId} {w' v' : Wire}
    (hl : (g.cut s p).Link t q w' v') : g.Link t q w' v' ∧ t ≠ s := by
  rcases cut_wire hg h hl.socket with ⟨-, rfl⟩ | ⟨-, rfl⟩ | ⟨hts, -, hw'⟩
  · cases hl.down
  · cases hl.down
  · rcases cut_wire hg h hl.plug with ⟨-, rfl⟩ | ⟨-, rfl⟩ | ⟨-, -, hv'⟩
    · cases hl.up (hg.cut h)
    · cases hl.up (hg.cut h)
    · exact ⟨⟨hw', hv', hl.isSocket, hl.down⟩, hts⟩

theorem under_of_cut (hg : g.Wired) (h : g.Link s p w v) (hu : (g.cut s p).Under a b) :
    g.Under a b := by
  obtain ⟨t, q, w', v', hl, ha, hb⟩ := hu
  exact ⟨t, q, w', v', (link_of_cut hg h hl).1, ha, hb⟩

theorem loose_cut (hg : g.Wired) (h : g.Link s p w v) :
    (g.cut s p).Loose b ↔ g.Loose b ∨ b = v.block := by
  constructor
  · intro hl
    by_cases hb : b = v.block
    · exact Or.inr hb
    · refine Or.inl fun q y hy hyb hk => hl q y ?_ hyb hk
      rw [cut_wire_of_ne, hy]
      · rintro rfl
        have := hy.symm.trans h.socket
        cases this
        simp [ConnectionKind.isPlug_eq_not, h.isSocket] at hk
      · rintro rfl
        have := hy.symm.trans h.plug
        cases this
        exact hb hyb.symm
  · intro hl q y hy hyb hk
    rcases cut_wire hg h hy with ⟨-, rfl⟩ | ⟨-, rfl⟩ | ⟨-, hqp, hy'⟩
    · rfl
    · rfl
    · rcases hl with hl | rfl
      · exact hl q y hy' hyb hk
      · exact (hqp (hg.onePlug hy' h.plug hyb hk (h.isPlug hg))).elim

/-! ### Taking away -/

section Prune

variable {D : ConnectionId → Bool} {R : BlockId → Bool}

theorem under_of_prune (h : (g.prune D R).Under a b) : g.Under a b := by
  obtain ⟨s, p, w, v, hl, ha, hb⟩ := h
  obtain ⟨-, w', hw', rfl⟩ := prune_wire hl.socket
  obtain ⟨-, v', hv', rfl⟩ := prune_wire hl.plug
  exact ⟨s, p, w', v', ⟨hw', hv', hl.isSocket, (prune_target hl.down).1⟩, ha, hb⟩

/-- A link stays if neither of its ends is taken away. -/
theorem Link.prune (h : g.Link s p w v) (hs : D s = false) (hp : D p = false) :
    (g.prune D R).Link s p w { v with target := v.target.filter (!D ·) } := by
  have hw := prune_wire_of (R := R) h.socket hs
  have ht : w.target.filter (!D ·) = w.target := by simp [h.down, hp]
  rw [ht] at hw
  exact ⟨hw, prune_wire_of h.plug hp, h.isSocket, h.down⟩

theorem loose_prune_of (h : g.Loose b) : (g.prune D R).Loose b := by
  intro p v hv hb hk
  obtain ⟨-, u, hu, rfl⟩ := prune_wire hv
  simp [h p u hu hb hk]

/-- If what hangs on something taken away is taken away too, then nothing else comes loose. -/
theorem loose_prune (hg : g.Wired) (hD : ∀ c w, g.wire c = some w → D c → w.kind.isPlug → R w.block)
    (hR : ∀ s p w v, g.Link s p w v → D s → R v.block) (hb : R b = false) :
    (g.prune D R).Loose b ↔ g.Loose b := by
  refine ⟨fun h p v hv hvb hk => ?_, loose_prune_of⟩
  have hp : D p = false := by
    rw [Bool.eq_false_iff]
    intro hp
    have := hD p v hv hp hk
    rw [hvb, hb] at this
    cases this
  have ht := h p _ (prune_wire_of hv hp) hvb hk
  cases hs : v.target with
  | none => rfl
  | some s =>
    obtain ⟨w, hl⟩ := link_of_plug hg hv hk hs
    have hDs : D s = false := by
      rw [Bool.eq_false_iff]
      intro hDs
      have := hR s p w v hl hDs
      rw [hvb, hb] at this
      cases this
    simp [hs, hDs] at ht

end Prune

end BlockEditor.Graph
