import BlockEditor.Proofs.Gestures
import BlockEditor.Proofs.Outcomes

/-!
# Picking a block up

When a block has been picked up it hangs on nothing, and the blocks are a forest as before, whatever
stays behind: the statement below, a placeholder or a copy.
-/

namespace BlockEditor

variable {α : Type}

namespace Workspace

variable {ws ws' t u : Workspace α} {id x child : BlockId} {c s p : ConnectionId}
  {o : Option Edit.Orphan}

/-- The blocks are a forest, in which the block is a root. -/
structure Lifted (ws : Workspace α) (x : BlockId) : Prop where
  sound : ws.Sound
  acyclic : ws.graph.Acyclic
  live : ws.Live x
  loose : ws.graph.Loose x

namespace Lifted

theorem drifts (h : ws.Lifted x) (hd : ws.Drifts t) : t.Lifted x where
  sound := hd.sound h.sound
  acyclic := by
    rw [hd.graph]
    exact h.acyclic
  live := hd.live h.live
  loose := by
    rw [hd.graph]
    exact h.loose

theorem cuts (h : ws.Lifted x) (hc : ws.Cuts s p child t) : t.Lifted x where
  sound := hc.sound h.sound
  acyclic := hc.acyclic h.sound h.acyclic
  live := by
    obtain ⟨b, hb⟩ := h.live
    exact ⟨b, by rw [hc.blocks, hb]⟩
  loose := by
    obtain ⟨w, v, hl, -⟩ := hc.link
    rw [hc.graph]
    exact (Graph.loose_cut h.sound.wired hl).mpr (Or.inl h.loose)

theorem fresh (h : ws.Lifted x) (hf : ws.Fresh id t) (ht : t.Sound) : t.Lifted x where
  sound := ht
  acyclic := hf.acyclic ht h.acyclic
  live := hf.extend.live h.sound h.live
  loose := hf.extend.loose h.sound ht h.live h.loose

theorem refills (h : ws.Lifted x) (hr : ws.Refills c t) : t.Lifted x where
  sound := hr.sound h.sound
  acyclic := hr.acyclic h.acyclic
  live := hr.extend.live h.sound h.live
  loose := by
    cases hr with
    | kept => exact h.loose
    | filled _ _ _ hf hfs _ hg =>
      refine hg.loose ?_ (hf.extend.loose h.sound hfs h.live h.loose)
      rintro rfl
      obtain ⟨b, hb⟩ := h.live
      have hold := h.sound.blockIds hb
      have hnew := hf.new
      omega

theorem frees (h : ws.Lifted x) (hf : ws.Frees c t) : t.Lifted x := by
  cases hf with
  | kept => exact h
  | cut _ hc hr => exact (h.cuts hc).refills hr

/-- Nothing that hangs on something leaves with a root. -/
theorem evicts (h : ws.Lifted x) (he : ws.Evicts s o t) : t.Lifted x := by
  have hs := he.sound h.sound
  have hac := he.acyclic h.sound h.acyclic
  cases he with
  | free => exact h
  | moved hc => exact h.cuts hc
  | @stored q z b template R u t hc hb hp hsave hl hseal he =>
    have hu := h.cuts hc
    obtain ⟨w, v, hlink, rfl⟩ := hc.link
    have hR : x ∉ R := by
      intro hR
      rcases hl.below _ hR with rfl | hbelow
      · exact h.loose.not_under h.sound.wired hlink.under
      · exact hu.loose.not_below hu.sound.wired hbelow
    refine ⟨hs, hac, ?_, ?_⟩
    · obtain ⟨b, hb⟩ := hu.live
      have hkept := hl.kept x hR
      rw [hb] at hkept
      exact ⟨_, by rw [he.blocks, hkept]; rfl⟩
    · rw [he.graph]
      exact (hl.loose hu.sound hseal hR).mpr hu.loose

theorem seats (h : ws.Lifted x) (hseat : ws.Seats s p child o t) (hne : x ≠ child)
    (hclear : ¬ ws.Closes s p) : t.Lifted x := by
  have hs := hseat.sound h.sound
  have hac := hseat.acyclic h.sound h.acyclic hclear
  obtain ⟨u, v, he, ht, hstep⟩ := hseat
  have hu := h.evicts he
  obtain ⟨w, z, hm, -, -, rfl⟩ := ht.mates
  refine ⟨hs, hac, ?_, ?_⟩
  · obtain ⟨b, hb⟩ := hu.live
    have hbv : v.blocks[x]? = some b := by rw [ht.blocks, hb]
    obtain ⟨b', hb', -⟩ := hstep.block hbv
    exact ⟨b', hb'⟩
  · rw [hstep.graph, ht.graph]
    exact (Graph.loose_tie hm).mpr ⟨hu.loose, hne⟩

/-- A root stays one when another block is plugged in. -/
theorem joins (h : ws.Lifted x) (hj : ws.Joins s p t) (hpoised : ws.graph.Poised s p child)
    (hclear : ¬ ws.Closes s p) (hne : x ≠ child) : t.Lifted x := by
  cases hj with
  | already => exact h
  | only hy hfree hseat =>
    rw [block_of_poised hpoised hy] at hseat
    obtain ⟨-, hclear'⟩ := hfree.ready h.sound h.acyclic hpoised hclear
    exact (h.frees hfree).seats hseat hne hclear'
  | @swapped y o u v t hy hfree hseat hsettle =>
    rw [block_of_poised hpoised hy] at hseat hsettle
    obtain ⟨hready, hclear'⟩ := hfree.ready h.sound h.acyclic hpoised hclear
    have hu := h.frees hfree
    have hv := hu.seats hseat hne hclear'
    obtain ⟨-, -, hlive, -⟩ := hseat.seated hready hclear'
    rcases hsettle.cases hv.sound hlive with ⟨-, hd⟩ | ⟨d, -, hvacant, hseat'⟩
    · exact hv.drifts hd
    · refine hv.seats hseat' ?_ ?_
      · rintro rfl
        obtain ⟨w, z, hm, -⟩ := hready.poised
        obtain ⟨y₀, hy₀, rfl⟩ := connection_of_wire hm.socket
        obtain ⟨u', v', he, -⟩ := hseat
        obtain ⟨hunder, -⟩ := he.orphan hu.sound hy₀
        exact hu.loose.not_under hu.sound.wired hunder
      · exact hseat.not_closes hu.sound hu.acyclic hclear' hready.idle hvacant

end Lifted

/-- What is new carries nothing that is old. -/
theorem Fresh.not_closes {y : Connection α} (h : ws.Fresh id t) (ht : t.Sound)
    (hy : ws.connections[s]? = some y) {z : Connection α} (hz : t.connections[p]? = some z)
    (hzb : z.block = id) : ¬ t.Closes s p := by
  rintro ⟨x, z', hx, hz', -, hbranch⟩
  rw [hz, Option.some.injEq] at hz'
  subst hz'
  rw [h.extend.connection h.start hy (Set.notMem_empty s), Option.some.injEq] at hx
  subst hx
  rw [hzb] at hbranch
  have hnew := h.extend.branch_new h.start ht h.new hbranch
  obtain ⟨b, hb, -⟩ := h.start.owner hy
  have hold := h.start.blockIds hb
  omega

/-- A block that is freed hangs on nothing. -/
theorem Frees.lifted {b : Block α} {p : ConnectionId} (h : ws.Frees p t) (hs : ws.Sound)
    (hac : ws.graph.Acyclic) (hb : ws.blocks[id]? = some b) (hp : p ∈ b.plugs) : t.Lifted id := by
  have hsev := Edit.severed_of_frees hs h
  obtain ⟨y, hy, hyb, hk⟩ := hs.plug hb hp
  have hplugOf : ws.graph.PlugOf p id := ⟨_, wire_of_connection hy, hyb, hk⟩
  have ht := h.sound hs
  exact ⟨ht, h.acyclic hs hac, ⟨b, hsev.blocks id b hb⟩,
    (hsev.spares.plugOf hplugOf).loose ht.wired (hsev.idle _ hplugOf)⟩

/-- A root stays one when the statement below it is left behind, and goes to a socket that the root
does not carry. -/
theorem Heals.lifted {b : Block α} {next : ConnectionId} {above : Option ConnectionId}
    (h : ws.Heals next above t) (hl : ws.Lifted id) (hb : ws.blocks[id]? = some b)
    (hn : b.next = some next)
    (habove : ∀ s y, above = some s → ws.connections[s]? = some y → ¬ ws.Branch id y.block) :
    t.Lifted id := by
  obtain ⟨y, hy, hyb, -⟩ := hl.sound.socket hb (mem_sockets.mpr (Or.inr hn))
  have under : ∀ {q below u}, ws.Cuts next q below u → ws.graph.Under below id := by
    intro q below u hc
    obtain ⟨w, v, hlink, hv⟩ := hc.link
    obtain ⟨y', hy', rfl⟩ := connection_of_wire hlink.socket
    rw [hy, Option.some.injEq] at hy'
    subst hy'
    exact ⟨_, _, _, _, hlink, hv, hyb⟩
  cases h with
  | stays => exact hl
  | left hc => exact hl.cuts hc
  | healed hs hc _ _ hseats =>
    have hu := hl.cuts hc
    obtain ⟨w₀, v₀, hlq, hv⟩ := hc.link
    refine hu.seats hseats ?_ ?_
    · rintro rfl
      exact hl.acyclic _ (.single (under hc))
    · rintro ⟨x, v, hx, hv', -, hbranch⟩
      have hwire := Graph.cut_wire_plug hl.sound.wired hlq
      rw [← hc.graph, wire_of_connection hv', Option.some.injEq] at hwire
      have hvb : v.block = v₀.block := congrArg Wire.block hwire
      rw [hc.connections, Option.map_eq_some_iff] at hx
      obtain ⟨x', hx', hxx⟩ := hx
      have hxb : x.block = x'.block := by
        rw [← hxx]
        split <;> rfl
      rw [hvb, hv, hxb] at hbranch
      refine habove _ x' hs hx' ((hbranch.mono fun _ _ => hc.under_of hl.sound).trans (Or.inr ?_))
      exact .single (under hc)

/-- A block that was taken away from its parent hangs on nothing. -/
theorem Pulls.lifted {heal : Bool} (h : ws.Pulls id heal t) (hs : ws.Sound)
    (hac : ws.graph.Acyclic) : t.Lifted id := by
  cases h with
  | value hb ho hf => exact hf.lifted hs hac hb (mem_plugs.mpr (Or.inl ho))
  | root hb ho hp =>
    refine ⟨hs, hac, ⟨_, hb⟩, fun p v hv hvb hk => ?_⟩
    obtain ⟨y, hy, rfl⟩ := connection_of_wire hv
    have hmem := hs.mem_plugs_of hy hk (hvb ▸ hb)
    rw [mem_plugs, ho, hp] at hmem
    rcases hmem with hmem | hmem <;> cases hmem
  | statement hb _ hp hf => exact hf.lifted hs hac hb (mem_plugs.mpr (Or.inr hp))
  | @healed b previous next u _ hb _ hp hf _ hn hheals =>
    have hmem := mem_plugs.mpr (Or.inr hp)
    have hsev := Edit.severed_of_frees hs hf
    refine hheals.lifted (hf.lifted hs hac hb hmem) (hsev.blocks id b hb) hn ?_
    intro s w' habove hw' hbranch
    obtain ⟨y, hy, hyb, hk⟩ := hs.plug hb hmem
    rw [targetOf_eq hy] at habove
    obtain ⟨w, hlink⟩ := Graph.link_of_plug hs.wired (wire_of_connection hy) hk habove
    obtain ⟨x, hx, rfl⟩ := connection_of_wire hlink.socket
    obtain ⟨target, hxt⟩ := hsev.spares s _ hlink.socket
    rw [wire_of_connection hw', Option.some.injEq] at hxt
    have hxb : w'.block = x.block := congrArg Wire.block hxt
    have hunder : ws.graph.Under id x.block := ⟨s, previous, _, _, hlink, hyb, rfl⟩
    obtain ⟨bx, hbx, -⟩ := hs.owner hx
    rw [hxb] at hbranch
    rcases hbranch with heq | hbelow
    · rw [heq] at hunder
      exact hac _ (.single hunder)
    · exact hac _ (.tail (hf.below_old hs (hs.blockIds hbx) hbelow) hunder)

/-- Whatever gives a value leaves its socket where it is. -/
theorem Pulls.spares {heal : Bool} {b : Block α} (h : ws.Pulls id heal t) (hs : ws.Sound)
    (hb : ws.blocks[id]? = some b) (ho : b.output.isSome) : ws.graph.Spares t.graph := by
  cases h with
  | value _ _ hf => exact (Edit.severed_of_frees hs hf).spares
  | root hb' ho' | statement hb' ho' | healed hb' ho' =>
    rw [hb, Option.some.injEq] at hb'
    subst hb'
    rw [ho'] at ho
    cases ho

end Workspace

namespace Edit

open Workspace

variable [Scalar α] {ws : Workspace α} {id : BlockId} {c : ConnectionId}

/-- A root stays one when another root is linked to something that it does not carry. -/
theorem connect_lifts {a b : ConnectionId} (hl : ws.Lifted id) (hclear : ¬ ws.Closes a b)
    (hclear' : ¬ ws.Closes b a)
    (hother : ∀ p y, p = a ∨ p = b → ws.connections[p]? = some y → y.kind.isPlug → y.block ≠ id) :
    Leads (· = ws) (connect a b) (fun _ t => t.Lifted id) fun _ => True := by
  by_cases hon : ws.canConnect a b = .ok true
  · refine Tells.weaken (connect_tells (D := fun _ _ => True) hl.sound hl.acyclic hon hclear hclear'
      fun p _ _ _ _ => (disconnect_frees hl.sound p).refused fun _ _ => trivial) (fun _ h => h) ?_
      fun _ _ _ => trivial
    rintro _ t ⟨s, p, child, hends, hpoised, hj⟩
    obtain ⟨w, v, hm, rfl⟩ := hpoised
    obtain ⟨y, hy, rfl⟩ := connection_of_wire hm.plug
    rcases hends with ⟨rfl, rfl⟩ | ⟨rfl, rfl⟩
    · exact hl.joins hj ⟨_, _, hm, rfl⟩ hclear (hother p y (Or.inr rfl) hy hm.isPlug).symm
    · exact hl.joins hj ⟨_, _, hm, rfl⟩ hclear' (hother p y (Or.inl rfl) hy hm.isPlug).symm
  · refine Tells.of_result (connect_keeps (X := ∅) (Editor.stable_true (α := α)) a b) ?_
    rintro _ rfl
    unfold connect
    simp only [bind, EStateM.bind, query]
    cases hc : canConnect _ a b with
    | error e => trivial
    | ok on =>
      cases on with
      | true => exact (hon hc).elim
      | false => trivial

/-- A block that was pulled out hangs on nothing. If it gives a value, then its socket is there
still. -/
theorem pullOut_lifts (hs : ws.Sound) (hac : ws.graph.Acyclic) (id : BlockId) (heal : Bool) :
    Leads (· = ws) (pullOut id heal) (fun _ t => t.Lifted id ∧
        ∀ b, ws.blocks[id]? = some b → b.output.isSome → ws.graph.Spares t.graph)
      fun _ => True :=
  (pullOut_pulls hs hac id heal).weaken (fun _ h => h)
    (fun _ _ h => ⟨h.lifted hs hac, fun _ hb ho => h.spares hs hb ho⟩) fun _ _ => trivial

end Edit

end BlockEditor
