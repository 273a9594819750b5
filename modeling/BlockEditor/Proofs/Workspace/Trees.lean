import BlockEditor.Proofs.Workspace.Drifting

/-!
# Staying a forest

To cut links and to take blocks away makes no cycle, and neither does what is built anew. A link
makes one only if the socket belongs to a block that the plug's block carries.
-/

namespace BlockEditor.Workspace

variable {α : Type} {ws ws' u t : Workspace α} {id r a x child : BlockId} {c s p : ConnectionId}

theorem Branch.mono (h : ∀ a x, ws'.graph.Under a x → ws.graph.Under a x) (hx : ws'.Branch r x) :
    ws.Branch r x :=
  hx.imp_right fun hb => hb.mono h

/-- What is above a block that a loose block carries is carried by it too. -/
theorem Sound.branch_of_loose (hs : ws.Sound) (hl : ws.graph.Loose r) (hx : ws.Branch r x)
    (ha : ws.Branch a x) : ws.Branch r a := by
  rcases ha with rfl | ha
  · exact hx
  · rcases hx with rfl | hx
    · exact (hl.not_below hs.wired ha).elim
    · rcases Graph.below_or_below hs.wired ha hx with rfl | h | h
      · exact branch_self ws a
      · exact Or.inr h
      · exact (hl.not_below hs.wired h).elim

/-! ### Cutting and taking away -/

theorem Cuts.under_of (h : ws.Cuts s p child ws') (hs : ws.Sound)
    (hu : ws'.graph.Under a x) : ws.graph.Under a x := by
  obtain ⟨w, v, hl, -⟩ := h.link
  rw [h.graph] at hu
  exact Graph.under_of_cut hs.wired hl hu

theorem Cuts.acyclic (h : ws.Cuts s p child ws') (hs : ws.Sound) (hac : ws.graph.Acyclic) :
    ws'.graph.Acyclic :=
  fun b => (hac b).mono fun _ _ hu => h.under_of hs hu

theorem Loses.acyclic {keep gone : List Input} {R : List BlockId}
    (h : ws.Loses id keep gone R ws') (hs : ws.Sound) (hac : ws.graph.Acyclic) :
    ws'.graph.Acyclic :=
  fun b => (hac b).mono fun _ _ hu => h.under hs hu

/-! ### Linking -/

/-- The end `s` is a socket of a block that the owner of the end `p` carries, or of that owner
itself, so that a link of the two would close a cycle. -/
def Closes (ws : Workspace α) (s p : ConnectionId) : Prop :=
  ∃ x y, ws.connections[s]? = some x ∧ ws.connections[p]? = some y ∧ x.kind.isSocket ∧
    ws.Branch y.block x.block

theorem Ties.acyclic (h : ws.Ties s p child ws') (hs : ws.Sound) (hac : ws.graph.Acyclic)
    (hclear : ¬ ws.Closes s p) : ws'.graph.Acyclic := by
  obtain ⟨w, v, hm, hw, hv, -⟩ := h.mates
  obtain ⟨x, hx, rfl⟩ := connection_of_wire hm.socket
  obtain ⟨y, hy, rfl⟩ := connection_of_wire hm.plug
  rw [h.graph]
  exact hac.tie hs.wired hm hw hv fun hb => hclear ⟨x, y, hx, hy, hm.isSocket, Or.inr hb⟩

/-! ### Building -/

theorem Grafts.acyclic (h : ws.Grafts u s child ws') (hf : ws.Fresh child u) (hu : u.Sound)
    (hac : u.graph.Acyclic) {y : Connection α} (hy : ws.connections[s]? = some y) :
    ws'.graph.Acyclic := by
  obtain ⟨p, t, ht, hstep⟩ := h.step
  obtain ⟨w, v, hm, -, -, hv⟩ := ht.mates
  obtain ⟨z, hz, rfl⟩ := connection_of_wire hm.plug
  rw [hstep.graph]
  refine ht.acyclic hu hac ?_
  rintro ⟨x, z', hx, hz', -, hbranch⟩
  rw [hz, Option.some.injEq] at hz'
  subst hz'
  rw [hf.extend.connection hf.start hy (Set.notMem_empty s), Option.some.injEq] at hx
  subst hx
  rw [show z.block = child from hv] at hbranch
  have hnew := hf.extend.branch_new hf.start hu hf.new hbranch
  obtain ⟨b, hb, -⟩ := hf.start.owner hy
  have hold := hf.start.blockIds hb
  omega

theorem Refills.acyclic (h : ws.Refills c ws') (hac : ws.graph.Acyclic) :
    ws'.graph.Acyclic := by
  cases h with
  | kept => exact hac
  | filled hy _ _ hf hfs _ hg => exact hg.acyclic hf hfs (hf.acyclic hfs hac) hy

theorem Refills.below_old (h : ws.Refills c ws') (hs : ws.Sound)
    (ha : a.index.toNat < ws.ids.blocks) (hb : ws'.graph.Below a x) : ws.graph.Below a x := by
  induction hb using Relation.TransGen.head_induction_on with
  | single hu => exact .single (h.under_old hs ha hu)
  | head hu _ ih =>
    have hold := h.under_old hs ha hu
    obtain ⟨b, hb⟩ := hs.exists_upper hold
    exact .head hold (ih (hs.blockIds hb))

theorem Frees.acyclic (h : ws.Frees c ws') (hs : ws.Sound) (hac : ws.graph.Acyclic) :
    ws'.graph.Acyclic := by
  cases h with
  | kept => exact hac
  | cut _ hc hr => exact hr.acyclic (hc.acyclic hs hac)

theorem Frees.below_old (h : ws.Frees c ws') (hs : ws.Sound)
    (ha : a.index.toNat < ws.ids.blocks) (hb : ws'.graph.Below a x) : ws.graph.Below a x := by
  cases h with
  | kept => exact hb
  | cut _ hc hr =>
    refine (hr.below_old (hc.sound hs) ?_ hb).mono fun _ _ hu => hc.under_of hs hu
    rw [hc.ids]
    exact ha

/-- A socket and a plug whose link would close no cycle are like that still when one end is free. -/
theorem Frees.not_closes (h : ws.Frees c ws') (hs : ws.Sound) {x y : Connection α}
    (hx : ws.connections[s]? = some x) (hy : ws.connections[p]? = some y)
    (hclear : ¬ ws.Closes s p) (hsp : ws.graph.Spares ws'.graph) : ¬ ws'.Closes s p := by
  have same : ∀ {d : ConnectionId} {z z' : Connection α}, ws.connections[d]? = some z →
      ws'.connections[d]? = some z' → z'.block = z.block ∧ z'.kind = z.kind := by
    intro d z z' hz hz'
    obtain ⟨target, hw⟩ := hsp d z.wire (wire_of_connection hz)
    rw [wire_of_connection hz', Option.some.injEq] at hw
    exact ⟨congrArg Wire.block hw, congrArg Wire.kind hw⟩
  rintro ⟨x', y', hx', hy', hk, hbranch⟩
  obtain ⟨hxb, hxk⟩ := same hx hx'
  obtain ⟨hyb, -⟩ := same hy hy'
  rw [hxb, hyb] at hbranch
  rw [hxk] at hk
  obtain ⟨b, hb, -⟩ := hs.owner hx
  refine hclear ⟨x, y, hx, hy, hk, ?_⟩
  exact hbranch.imp_right fun hbelow => h.below_old hs (hs.blockIds hb) hbelow

end BlockEditor.Workspace
