import BlockEditor.Proofs.Outcomes

/-!
# Taking a block out and putting it back

While a block is away from its socket, a placeholder may stand in for it, and other blocks may be
built. When it is put back the placeholder goes, and everything that was there before is as it was.
-/

namespace BlockEditor

variable {α : Type}

namespace Workspace

variable {ws u v t t' : Workspace α} {x z k : BlockId} {c s p q : ConnectionId}
  {C C' : Set ConnectionId} {n : Nat}

/-! ### Steps that touch new things only -/

namespace Extends

/-- To take something new out of a socket changes nothing else that is old. -/
theorem cuts (h : Extends C u t) (hu : u.Sound) (hc : t.Cuts s q z t') (hq : q ∉ C)
    (hz : u.ids.blocks ≤ z.index.toNat) : Extends (insert s C) u t' where
  blocks x hx := by
    rw [hc.blocks]
    exact h.blocks x hx
  connections c hC hlt := by
    rw [Set.mem_insert_iff, not_or] at hC
    have hne : c ≠ q := by
      rintro rfl
      obtain ⟨w, v, hl, rfl⟩ := hc.link
      obtain ⟨y, hy, rfl⟩ := connection_of_wire hl.plug
      exact Nat.not_lt_of_le hz (h.owner_old hu hq hlt hy)
    rw [hc.connections, ← h.connections c hC.2 hlt]
    cases t.connections[c]? <;> simp [hC.1, hne]
  blockCount := by
    rw [hc.ids]
    exact h.blockCount
  endCount := by
    rw [hc.ids]
    exact h.endCount
  registry := by
    rw [hc.registry]
    exact h.registry
  top := by
    rw [hc.rest]
    dsimp only
    split
    · exact h.top
    · rw [earlier_append _ hz]
      exact h.top

theorem endows {template : Option Snapshot} (h : Extends C u t) (he : t.Endows s template t') :
    Extends (insert s C) u t' where
  blocks x hx := by
    rw [he.blocks]
    exact h.blocks x hx
  connections c hC hlt := by
    rw [Set.mem_insert_iff, not_or] at hC
    rw [he.connections, ← h.connections c hC.2 hlt]
    cases t.connections[c]? <;> simp [hC.1]
  blockCount := by
    rw [he.rest]
    exact h.blockCount
  endCount := by
    rw [he.rest]
    exact h.endCount
  registry := by
    rw [he.rest]
    exact h.registry
  top := by
    rw [he.rest]
    exact h.top

theorem targetOf {y : Connection α} (h : Extends ∅ u t) (hu : u.Sound)
    (hy : u.connections[c]? = some y) : t.targetOf c = u.targetOf c := by
  rw [targetOf_eq hy, targetOf_eq (h.connection hu hy (Set.notMem_empty c))]

theorem across {y : Connection α} (h : Extends ∅ u t) (hu : u.Sound)
    (hy : u.connections[c]? = some y) : t.across c = u.across c := by
  rw [Workspace.across, Workspace.across, h.targetOf hu hy, targetOf_eq hy]
  cases ht : y.target with
  | none => rfl
  | some d =>
    obtain ⟨y', hy', -⟩ := hu.target hy ht
    rw [Option.bind_some, Option.bind_some, hy', h.connection hu hy' (Set.notMem_empty d)]

end Extends

theorem Cuts.spares (h : ws.Cuts s p x t) : ws.graph.Spares t.graph := by
  rw [h.graph]
  exact Graph.spares_cut s p

/-- The socket of a link that was cut is free. -/
theorem Cuts.targetOf_socket (h : ws.Cuts s p x t) : t.targetOf s = none := by
  obtain ⟨w, v, hl, -⟩ := h.link
  obtain ⟨y, hy, -⟩ := connection_of_wire hl.socket
  have ht := h.connections s
  rw [hy, Option.map_some, if_pos (Or.inl rfl)] at ht
  rw [targetOf_eq ht]

/-! ### What stands in for a block -/

/-- What is in the socket is a placeholder, and it is newer than the first `n` blocks. -/
def Stopgap (ws : Workspace α) (n : Nat) (s : ConnectionId) : Prop :=
  ∀ a, ws.across s = some a → ws.isPlaceholder a ∧ n ≤ a.index.toNat

theorem stopgap_of_free (h : ws.targetOf s = none) : ws.Stopgap n s := by
  intro a ha
  rw [across, h] at ha
  cases ha

theorem Refills.stopgap (h : u.Refills s v) (hfree : u.targetOf s = none) :
    v.Stopgap u.ids.blocks s := by
  cases h with
  | kept => exact stopgap_of_free hfree
  | filled _ _ _ hf hsound hmark hg =>
    obtain ⟨p, t, ht, hstep⟩ := hg.step
    obtain ⟨w, y, hm, -, -, rfl⟩ := ht.mates
    have hl := Graph.tie_link hm
    rw [← ht.graph, ← hstep.graph] at hl
    obtain ⟨z, hz, hzw⟩ := connection_of_wire hl.socket
    have hacross := (across_socket hz (by rw [show z.kind = w.kind from congrArg Wire.kind hzw]
                                          exact hl.isSocket)).mpr ⟨p, _, hzw ▸ hl, rfl⟩
    intro a ha
    rw [hacross, Option.some.injEq] at ha
    subst ha
    refine ⟨?_, hf.new⟩
    rw [isPlaceholder, ← ht.blocks, Option.any_eq_true] at hmark
    obtain ⟨b, hb, hp⟩ := hmark
    obtain ⟨b', hb', he⟩ := hstep.block hb
    have hsame : b'.placeholder = b.placeholder := congrArg (fun b : Block Unit => b.placeholder) he
    have hb'' : v.blocks[({ y with target := some s } : Wire).block]? = some b' := hb'
    rw [isPlaceholder, hb'', Option.any_some, hsame]
    exact hp

theorem Stopgap.extend {y : Connection α} (h : u.Stopgap n s) (hu : u.Sound) (he : Extends ∅ u t)
    (hy : u.connections[s]? = some y) : t.Stopgap n s := by
  intro a ha
  rw [he.across hu hy] at ha
  obtain ⟨hmark, hnew⟩ := h a ha
  obtain ⟨b, hb⟩ := hu.live_across ha
  rw [isPlaceholder, hb] at hmark
  exact ⟨by rw [isPlaceholder, he.block hu hb]; exact hmark, hnew⟩

/-- Something new is taken out of a socket and disposed, and nothing else that is old changes. -/
theorem Extends.cuts_loses {w : Wire} {l : List Input} {R : List BlockId} (h : Extends {s} u t)
    (hu : u.Sound) (ht : t.Sound) (hsp : u.graph.Spares t.graph) (hw : u.graph.wire s = some w)
    (hc : t.Cuts s q z t') (hnew : u.ids.blocks ≤ z.index.toNat) (hl : t'.Loses z l [] R v) :
    Extends {s} u v ∧ v.graph.wire s = some { w with target := none } := by
  obtain ⟨target, hwt⟩ := hsp s w hw
  obtain ⟨w', y, hlink, rfl⟩ := hc.link
  have hsw := hlink.socket
  rw [hwt, Option.some.injEq] at hsw
  subst hsw
  have hqs : q ∉ ({s} : Set ConnectionId) := fun hq => hlink.ne ht.wired (Eq.symm hq)
  have hcut := h.cuts hu hc hqs hnew
  rw [Set.insert_eq_of_mem (Set.mem_singleton s)] at hcut
  have ht' := hc.sound ht
  have hwire : t'.graph.wire s = some { w with target := none } := by
    rw [hc.graph, Graph.cut_wire_socket ht.wired hlink]
  have hbranch : ∀ r ∈ R, u.ids.blocks ≤ r.index.toNat := by
    intro r hr
    refine hcut.branch_new_of_free hu ht' ?_ hnew (hl.below r hr)
    rintro _ rfl
    exact hc.targetOf_socket
  have halive : ∀ c : ConnectionId, c.index.toNat < u.ids.connections →
      t'.dead (([] : List Input).filterMap (·.connection)) R c = false := by
    intro c hlt
    refine Bool.eq_false_iff.mpr fun hd => ?_
    obtain ⟨z', hz', hzb⟩ := hl.owner_of_dead ht' hd
    have hold : z'.block.index.toNat < u.ids.blocks := by
      by_cases hcs : c = s
      · subst hcs
        have hsame := (wire_of_connection hz').symm.trans hwire
        rw [Option.some.injEq] at hsame
        obtain ⟨y₀, hy₀, rfl⟩ := connection_of_wire hw
        obtain ⟨b₀, hb₀, -⟩ := hu.owner hy₀
        rw [show z'.block = y₀.block from congrArg Wire.block hsame]
        exact hu.blockIds hb₀
      · exact hcut.owner_old hu hcs hlt hz'
    rcases hzb with hzb | hzb
    · exact Nat.not_lt_of_le hnew (hzb ▸ hold)
    · exact Nat.not_lt_of_le (hbranch _ hzb) hold
  refine ⟨hcut.loses hu hl hnew hbranch halive, ?_⟩
  rw [hl.graph ht']
  obtain ⟨y₀, hy₀, -⟩ := connection_of_wire hw
  exact Graph.prune_wire_of hwire (halive s (hu.connectionIds hy₀))

/-- A stopgap leaves its socket, and nothing else that is old changes. -/
theorem Extends.evicts {w : Wire} (h : Extends {s} u t) (hu : u.Sound) (ht : t.Sound)
    (hsp : u.graph.Spares t.graph) (hw : u.graph.wire s = some w)
    (hstop : t.Stopgap u.ids.blocks s) (he : t.Evicts s none t') :
    Extends {s} u t' ∧ t'.graph.wire s = some { w with target := none } := by
  cases he with
  | free hy hfree =>
    obtain ⟨target, hwt⟩ := hsp s w hw
    rw [wire_of_connection hy, Option.some.injEq] at hwt
    have htarget : target = none := (congrArg Wire.target hwt).symm.trans hfree
    refine ⟨h, ?_⟩
    rw [wire_of_connection hy, hwt, htarget]
  | stored hc _ _ _ hl _ hendow =>
    obtain ⟨w', y, hlink, rfl⟩ := hc.link
    obtain ⟨y₀, hy₀, rfl⟩ := connection_of_wire hlink.socket
    have hacross : t.across s = some y.block :=
      (across_socket hy₀ hlink.isSocket).mpr ⟨_, y, hlink, rfl⟩
    obtain ⟨hlost, hwire⟩ := h.cuts_loses hu ht hsp hw hc (hstop _ hacross).2 hl
    have hend := hlost.endows hendow
    rw [Set.insert_eq_of_mem (Set.mem_singleton s)] at hend
    exact ⟨hend, hendow.graph ▸ hwire⟩

/-! ### Templates -/

/-- The template of a connection, if the connection is there. -/
def templateAt (ws : Workspace α) (c : ConnectionId) : Option (Option Snapshot) :=
  (ws.connections[c]?).map (·.template)

theorem templateAt_congr (h : t.connections[c]? = u.connections[c]?) :
    t.templateAt c = u.templateAt c := by
  rw [templateAt, h, templateAt]

theorem Cuts.templateAt (h : ws.Cuts s p x t) (c : ConnectionId) :
    t.templateAt c = ws.templateAt c := by
  rw [Workspace.templateAt, h.connections, Option.map_map, Workspace.templateAt]
  refine congrArg (Option.map · _) (funext fun y => ?_)
  rw [Function.comp_apply]
  split <;> rfl

theorem Ties.templateAt (h : ws.Ties s p x t) (c : ConnectionId) :
    t.templateAt c = ws.templateAt c := by
  rw [Workspace.templateAt, h.connections, Option.map_map, Workspace.templateAt]
  refine congrArg (Option.map · _) (funext fun y => ?_)
  rw [Function.comp_apply]
  split
  · rfl
  · split <;> rfl

theorem Drifts.templateAt (h : ws.Drifts t) (c : ConnectionId) :
    t.templateAt c = ws.templateAt c := by
  have hsame := congrArg (Option.map (·.template)) (h.connections c)
  rw [Option.map_map, Option.map_map] at hsame
  exact hsame

/-! ### Away and back -/

/-- A block was taken out of its socket. Something may stand in for it, if the socket is in `C`, and
other blocks may have been made. Nothing else has changed. -/
structure Parted (C : Set ConnectionId) (ws : Workspace α) (s p : ConnectionId) (x : BlockId)
    (t : Workspace α) : Prop where
  sound : t.Sound
  acyclic : t.graph.Acyclic
  within : C ⊆ {s}
  cut : ∃ u, ws.Cuts s p x u ∧ Extends C u t ∧ u.graph.Spares t.graph
  stopgap : t.Stopgap ws.ids.blocks s

/-- What was there is there as it was, wherever it lies. Connections in `C` may have other
templates. -/
structure Recovers (C : Set ConnectionId) (ws t : Workspace α) : Prop where
  blocks : ∀ x : BlockId, x.index.toNat < ws.ids.blocks →
    (t.blocks[x]?).map Block.looks = (ws.blocks[x]?).map Block.looks
  wires : ∀ c : ConnectionId, c.index.toNat < ws.ids.connections → t.graph.wire c = ws.graph.wire c
  templates : ∀ c : ConnectionId, c ∉ C → c.index.toNat < ws.ids.connections →
    t.templateAt c = ws.templateAt c
  top : earlier ws.ids.blocks t.top = ws.top

namespace Parted

/-- The placeholder that was to stand in for the block could not be built. -/
theorem of_strands (hs : ws.Sound) (hac : ws.graph.Acyclic) (hc : ws.Cuts s p x u)
    (h : u.Strands s t) : ws.Parted ∅ s p x t where
  sound := h.sound
  acyclic := h.acyclic (hc.acyclic hs hac)
  within := Set.empty_subset _
  cut := ⟨u, hc, h.extend, h.extend.spares (hc.sound hs)⟩
  stopgap := by
    obtain ⟨w, v, hl, -⟩ := hc.link
    obtain ⟨y, hy, -⟩ := connection_of_wire hl.socket
    have hy' := hc.connections s
    rw [hy] at hy'
    exact (stopgap_of_free hc.targetOf_socket).extend (hc.sound hs) h.extend hy'

/-- The socket got its placeholder back, if it has a template. -/
theorem of_refills (hs : ws.Sound) (hac : ws.graph.Acyclic) (hc : ws.Cuts s p x u)
    (hr : u.Refills s t) : ws.Parted {s} s p x t where
  sound := hr.sound (hc.sound hs)
  acyclic := hr.acyclic (hc.acyclic hs hac)
  within := Set.Subset.rfl
  cut := ⟨u, hc, hr.extend, hr.spares (hc.sound hs)⟩
  stopgap := by
    have hstop := hr.stopgap hc.targetOf_socket
    rw [hc.ids] at hstop
    exact hstop

/-- More may be built while the block is away. -/
theorem extend (h : ws.Parted C s p x t) (he : Extends ∅ t t') (ht : t'.Sound)
    (hac : t'.graph.Acyclic) : ws.Parted C s p x t' where
  sound := ht
  acyclic := hac
  within := h.within
  cut := by
    obtain ⟨u, hc, hu, hsp⟩ := h.cut
    exact ⟨u, hc, hu.trans he fun _ h => h.elim, hsp.trans (he.spares h.sound)⟩
  stopgap := by
    obtain ⟨u, hc, -, hsp⟩ := h.cut
    obtain ⟨w, z, hl, -⟩ := hc.link
    obtain ⟨target, hw⟩ := (hc.spares.trans hsp) s w hl.socket
    obtain ⟨y, hy, -⟩ := connection_of_wire hw
    exact h.stopgap.extend h.sound he hy

/-- What was built in the meantime may be disposed. -/
theorem fells (h : ws.Parted C s p x t) (hf : t.Fresh k t') (ht : t'.Sound)
    (hfell : t'.Fells k u) : ws.Parted C s p x u := by
  obtain ⟨b, R, -, hl, -⟩ := hfell.step
  exact h.extend (hf.loses ht hl) (hl.sound ht) (hl.acyclic ht (hf.acyclic ht h.acyclic))

theorem block {b : Block α} {y : BlockId} (h : ws.Parted C s p x t) (hs : ws.Sound)
    (hb : ws.blocks[y]? = some b) : t.blocks[y]? = some b := by
  obtain ⟨u, hc, he, -⟩ := h.cut
  exact he.block (hc.sound hs) (by rw [hc.blocks, hb])

theorem connection {y : Connection α} (h : ws.Parted C s p x t) (hs : ws.Sound)
    (hy : ws.connections[c]? = some y) (hcs : c ≠ s) (hcp : c ≠ p) :
    t.connections[c]? = some y := by
  obtain ⟨u, hc, he, -⟩ := h.cut
  refine he.connection (hc.sound hs) ?_ fun hC => hcs (h.within hC)
  rw [hc.connections, hy]
  simp [hcs, hcp]

/-- The block can be put back. -/
theorem ready (h : ws.Parted C s p x t) (hs : ws.Sound) : t.Ready s p x := by
  obtain ⟨u, hc, he, hsp⟩ := h.cut
  obtain ⟨w, v, hl, hv⟩ := hc.link
  refine ⟨h.sound, h.acyclic, ?_, ?_⟩
  · exact (hc.spares.trans hsp).poised ⟨w, v, hl.mates hs.wired, hv⟩
  · have hplug := Graph.cut_wire_plug hs.wired hl
    rw [← hc.graph] at hplug
    obtain ⟨y, hy, hyv⟩ := connection_of_wire hplug
    have hp : p ∉ C := fun hp => hl.ne hs.wired (Eq.symm (h.within hp))
    intro w' hw'
    rw [wire_of_connection (he.connection (hc.sound hs) hy hp), hyv, Option.some.injEq] at hw'
    rw [← hw']

theorem vacant (h : ws.Parted C s p x t) : ∀ a, t.across s = some a → t.isPlaceholder a :=
  fun a ha => (h.stopgap a ha).1

/-- When the stopgap leaves, all that was there is there as it was when the block had left. -/
theorem evicts (h : ws.Parted C s p x t) (hs : ws.Sound) (hev : t.Evicts s none t') :
    ∃ u, ws.Cuts s p x u ∧ Extends C u t ∧ Extends {s} u t' ∧
      t'.graph.wire s = u.graph.wire s := by
  obtain ⟨u, hc, he, hsp⟩ := h.cut
  obtain ⟨w, v, hl, -⟩ := hc.link
  have hus := Graph.cut_wire_socket hs.wired hl
  rw [← hc.graph] at hus
  have hstop : t.Stopgap u.ids.blocks s := by
    rw [hc.ids]
    exact h.stopgap
  obtain ⟨he', hs'⟩ := (he.shrink fun c hc => Or.inl (h.within hc)).evicts (hc.sound hs) h.sound
    hsp hus hstop hev
  exact ⟨u, hc, he, he', hs'.trans hus.symm⟩

/-- Whatever is plugged in where the block was, the blocks look as before. -/
theorem looks {y : BlockId} (h : ws.Parted C s p x t) (hs : ws.Sound)
    (hseat : t.Seats s q k none t') (hy : y.index.toNat < ws.ids.blocks) :
    (t'.blocks[y]?).map Block.looks = (ws.blocks[y]?).map Block.looks := by
  obtain ⟨t₁, t₂, hev, ht, hstep⟩ := hseat
  obtain ⟨u, hc, -, he, -⟩ := h.evicts hs hev
  rw [hstep.drifts.blocks, ht.blocks, he.blocks y (by rw [hc.ids]; exact hy), hc.blocks]

/-- When the block is put back, everything is as it was. -/
theorem recovers (h : ws.Parted C s p x t) (hs : ws.Sound) (htop : x ∉ ws.top)
    (hold : ∀ y ∈ ws.top, y.index.toNat < ws.ids.blocks) (hseat : t.Seats s p x none t') :
    ws.Recovers C t' := by
  have hlooks := fun y => h.looks (y := y) hs hseat
  obtain ⟨t₁, t₂, hev, ht, hstep⟩ := hseat
  obtain ⟨u, hc, he, he₁, hs₁⟩ := h.evicts hs hev
  have hu := hc.sound hs
  obtain ⟨w, v, hl, hv⟩ := hc.link
  have hus := Graph.cut_wire_socket hs.wired hl
  have hup := Graph.cut_wire_plug hs.wired hl
  rw [← hc.graph] at hus hup
  rw [hus] at hs₁
  have hp : p ∉ ({s} : Set ConnectionId) := fun hp => hl.ne hs.wired (Eq.symm hp)
  have hp₁ : t₁.graph.wire p = some { v with target := none } := by
    obtain ⟨y, hy, hyv⟩ := connection_of_wire hup
    rw [wire_of_connection (he₁.connection hu hy hp), hyv]
  obtain ⟨w', v', hm, -, -, -⟩ := ht.mates
  obtain rfl : { w with target := none } = w' := Option.some.inj (hs₁.symm.trans hm.socket)
  obtain rfl : { v with target := none } = v' := Option.some.inj (hp₁.symm.trans hm.plug)
  refine ⟨hlooks, ?_, ?_, ?_⟩
  · intro c hlt
    rw [hstep.graph, ht.graph]
    by_cases hcs : c = s
    · subst hcs
      rw [Graph.tie_wire_socket hm, hl.socket, ← hl.down]
    by_cases hcp : c = p
    · subst hcp
      rw [Graph.tie_wire_plug hm, hl.plug, ← hl.up hs.wired]
    · have hsame := he₁.connections c hcs (by rw [hc.ids]; exact hlt)
      rw [Graph.tie_wire_of_ne hcs hcp, ← Graph.cut_wire_of_ne (g := ws.graph) hcs hcp, ← hc.graph]
      simp only [graph, hsame]
  · intro c hcC hlt
    have hlt' : c.index.toNat < u.ids.connections := by
      rw [hc.ids]
      exact hlt
    have hkept : t₁.connections[c]? = u.connections[c]? := by
      by_cases hcs : c = s
      · subst hcs
        have hsame := he.connections c hcC hlt'
        have hfree : t.targetOf c = none := by
          rw [targetOf, hsame]
          exact hc.targetOf_socket
        cases hev with
        | free => exact hsame
        | stored hc' =>
          obtain ⟨w', v', hl', -⟩ := hc'.link
          obtain ⟨y, hy, rfl⟩ := connection_of_wire hl'.socket
          rw [targetOf_eq hy, show y.target = _ from hl'.down] at hfree
          cases hfree
      · exact he₁.connections c hcs hlt'
    rw [hstep.drifts.templateAt, ht.templateAt, templateAt_congr hkept, hc.templateAt]
  · have swap : ∀ l : List BlockId, earlier ws.ids.blocks (l.filter fun y => decide (y ≠ x)) =
        (earlier u.ids.blocks l).filter fun y => decide (y ≠ x) := by
      intro l
      rw [hc.ids, earlier, earlier, List.filter_filter, List.filter_filter]
      exact List.filter_congr fun y _ => Bool.and_comm _ _
    have hlater : earlier ws.ids.blocks t'.top =
        earlier ws.ids.blocks (u.top.filter fun y => decide (y ≠ x)) :=
      calc earlier ws.ids.blocks t'.top
        _ = earlier ws.ids.blocks (t₁.top.filter fun y => decide (y ≠ x)) := by
          rw [hstep.top, ht.rest]
        _ = (earlier u.ids.blocks t₁.top).filter fun y => decide (y ≠ x) := swap t₁.top
        _ = (earlier u.ids.blocks u.top).filter fun y => decide (y ≠ x) := by rw [he₁.top]
        _ = _ := (swap u.top).symm
    have hcut : u.top.filter (fun y => decide (y ≠ x)) = ws.top := by
      have hkeep : ws.top.filter (fun y => decide (y ≠ x)) = ws.top :=
        List.filter_eq_self.mpr fun y hy => decide_eq_true fun h => htop (h ▸ hy)
      rw [hc.rest]
      simp only [List.contains_iff_mem, htop, if_false, List.filter_append, hkeep]
      simp
    rw [hlater, hcut]
    exact List.filter_eq_self.mpr fun y hy => decide_eq_true (hold y hy)

end Parted

end Workspace

end BlockEditor
