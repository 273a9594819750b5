import BlockEditor.Proofs.Absence
import BlockEditor.Proofs.Detaching

/-!
# Taking the statement below back

A block may leave the statement below it behind, which then lies at the top or takes the block's
place. Linking it to the block again undoes either.
-/

namespace BlockEditor

open Workspace

variable {α : Type}

namespace Graph

variable {g : Graph} {s p : ConnectionId} {w v : Wire}

/-- A link that is cut can be made again. -/
theorem Link.tie_cut (h : g.Link s p w v) (hg : g.Wired) : (g.cut s p).tie s p = g := by
  have hm := (spares_cut (g := g) s p).poised ⟨w, v, h.mates hg, rfl⟩
  obtain ⟨w', v', hm, -⟩ := hm
  have hs := cut_wire_socket hg h
  have hp := cut_wire_plug hg h
  rw [hm.socket, Option.some.injEq] at hs
  rw [hm.plug, Option.some.injEq] at hp
  subst w' v'
  have same : ∀ c, ((g.cut s p).tie s p).wire c = g.wire c := by
    intro c
    by_cases hcs : c = s
    · rw [hcs, tie_wire_socket hm, h.socket, ← h.down]
    by_cases hcp : c = p
    · rw [hcp, tie_wire_plug hm, h.plug, ← h.up hg]
    · rw [tie_wire_of_ne hcs hcp, cut_wire_of_ne hcs hcp]
  exact congrArg₂ Graph.mk rfl (funext same)

/-- A link that is new can be cut again. -/
theorem Mates.cut_tie (h : g.Mates s p w v) (hg : g.Wired) (hs : w.target = none)
    (hp : v.target = none) : (g.tie s p).cut s p = g := by
  have hg' : (g.tie s p).Wired := hg.tie h hs hp
  have hl := tie_link h
  have same : ∀ c, ((g.tie s p).cut s p).wire c = g.wire c := by
    intro c
    by_cases hcs : c = s
    · rw [hcs, cut_wire_socket hg' hl, h.socket, ← hs]
    by_cases hcp : c = p
    · rw [hcp, cut_wire_plug hg' hl, h.plug, ← hp]
    · rw [cut_wire_of_ne hcs hcp, tie_wire_of_ne hcs hcp]
  exact congrArg₂ Graph.mk rfl (funext same)

end Graph

namespace Workspace

variable {ws u v w t t' : Workspace α} {x y : BlockId} {b : Block α} {c m n s p q : ConnectionId}
  {next childPlug above : Option ConnectionId} {o : Option Edit.Orphan} {heal : Bool}

/-! ### Links that are cut and made again -/

theorem rest_of_fields (hconfig : t.config = ws.config) (hregistry : t.registry = ws.registry)
    (hids : t.ids = ws.ids) (htop : t.top = ws.top) (hprocedures : t.procedures = ws.procedures)
    (hviewport : t.viewport = ws.viewport) : t = { ws with
      blocks := t.blocks
      connections := t.connections
      events := t.events
      tasks := t.tasks } := by
  cases t
  cases ws
  simp_all

/-- Connections with the same wires and templates differ in their offsets at most. -/
theorem unplaced_of_graph (hgraph : t.graph = ws.graph)
    (htemplates : ∀ c, t.templateAt c = ws.templateAt c) (c : ConnectionId) :
    (t.connections[c]?).map Connection.unplaced = (ws.connections[c]?).map Connection.unplaced := by
  have hw := congrArg (·.wire c) hgraph
  have ht := htemplates c
  simp only [graph, templateAt] at hw ht
  cases hy : ws.connections[c]? with
  | none => simpa [hy] using hw
  | some y =>
    rw [hy, Option.map_some, Option.map_eq_some_iff] at hw ht
    obtain ⟨y', hy', hw⟩ := hw
    obtain ⟨y'', hy'', ht⟩ := ht
    obtain rfl := Option.some.inj (hy'.symm.trans hy'')
    rw [hy', Option.map_some, Option.map_some]
    cases y
    cases y'
    cases hw
    cases ht
    rfl

/-- A link that was cut is made again. -/
theorem Cuts.ties_drifts (hc : ws.Cuts s p x u) (htop : x ∉ ws.top) (hd : u.Drifts v)
    (ht : v.Ties s p x t) (hs : ws.Sound) : ws.Drifts t where
  blocks y := by rw [ht.blocks, hd.blocks, hc.blocks]
  connections := by
    obtain ⟨w, z, hl, -⟩ := hc.link
    refine unplaced_of_graph ?_ fun c => ?_
    · rw [ht.graph, hd.graph, hc.graph, hl.tie_cut hs.wired]
    · rw [ht.templateAt, hd.templateAt, hc.templateAt]
  rest := by
    have hkeep : ws.top.filter (fun y => decide (y ≠ x)) = ws.top :=
      List.filter_eq_self.mpr fun y hy => decide_eq_true fun h => htop (h ▸ hy)
    refine rest_of_fields ?_ ?_ ?_ ?_ ?_ ?_ <;> rw [ht.rest, hd.rest, hc.rest]
    simp only [List.contains_iff_mem, htop, if_false, List.filter_append, hkeep]
    simp

/-- A link that was made is cut again. The block was the last one at the top. -/
theorem Ties.cuts_drifts {l : List BlockId} (ht : u.Ties s p x v) (hd : v.Drifts w)
    (hc : w.Cuts s p x t) (hs : u.Sound) (htop : u.top = l ++ [x]) (hnot : x ∉ l) : u.Drifts t where
  blocks y := by rw [hc.blocks, hd.blocks, ht.blocks]
  connections := by
    obtain ⟨w', z, hm, hw, hz, -⟩ := ht.mates
    refine unplaced_of_graph ?_ fun c => ?_
    · rw [hc.graph, hd.graph, ht.graph, hm.cut_tie hs.wired hw hz]
    · rw [hc.templateAt, hd.templateAt, ht.templateAt]
  rest := by
    have hkeep : l.filter (fun y => decide (y ≠ x)) = l :=
      List.filter_eq_self.mpr fun y hy => decide_eq_true fun h => hnot (h ▸ hy)
    refine rest_of_fields ?_ ?_ ?_ ?_ ?_ ?_ <;> rw [hc.rest, hd.rest, ht.rest]
    simp only [htop, List.filter_append, hkeep]
    simp [hnot]

theorem Cuts.idle (hc : ws.Cuts s p x u) (hs : ws.Sound) : u.graph.Idle p := by
  obtain ⟨w, z, hl, -⟩ := hc.link
  intro w' hw'
  rw [hc.graph, Graph.cut_wire_plug hs.wired hl, Option.some.injEq] at hw'
  rw [← hw']

/-- After a cut the plug waits for its socket. -/
theorem Cuts.ready (hc : ws.Cuts s p x u) (hs : ws.Sound) (hac : ws.graph.Acyclic)
    (hd : u.Drifts v) : v.Ready s p x := by
  obtain ⟨w, z, hl, hz⟩ := hc.link
  have hu := hc.sound hs
  refine ⟨hd.sound hu, ?_, ?_, ?_⟩
  · rw [hd.graph]
    exact hc.acyclic hs hac
  · rw [hd.graph]
    exact hc.spares.poised ⟨w, z, hl.mates hs.wired, hz⟩
  · rw [hd.graph]
    exact hc.idle hs

theorem Evicts.of_free (h : ws.Evicts s o t) (hfree : ws.targetOf s = none) : t = ws := by
  have taken : ∀ {q z u}, ¬ ws.Cuts s q z u := by
    intro q z u hc
    obtain ⟨w, v, hl, -⟩ := hc.link
    obtain ⟨y, hy, rfl⟩ := connection_of_wire hl.socket
    rw [targetOf_eq hy, show y.target = some q from hl.down] at hfree
    cases hfree
  cases h with
  | free => rfl
  | stored hc => exact (taken hc).elim
  | moved hc => exact (taken hc).elim

/-- A block is put into a free socket. -/
theorem Seats.ties (h : ws.Seats s p x o t) (hfree : ws.targetOf s = none) :
    ∃ v, ws.Ties s p x v ∧ v.Shifts (v.Branch x) t := by
  obtain ⟨u, v, hev, ht, hstep⟩ := h
  obtain rfl := hev.of_free hfree
  exact ⟨v, ht, hstep⟩

/-! ### The statement below -/

/-- The statement below a block is left behind, if there is one and it is to be. It may go to the
socket `above`. -/
inductive Unstacks (u : Workspace α) (next childPlug above : Option ConnectionId) :
    Workspace α → Prop
  | whole : (∀ q, childPlug = some q → ∃ n, next = some n ∧ u.targetOf n = some q) →
      Unstacks u next childPlug above u
  | left {n q : ConnectionId} {below : BlockId} {v : Workspace α} : next = some n →
      childPlug = some q → below ∉ u.top → u.Cuts n q below v → Unstacks u next childPlug above v
  | healed {n q s : ConnectionId} {below : BlockId} {v t : Workspace α} : next = some n →
      childPlug = some q → above = some s → n ≠ s → below ∉ u.top → u.Cuts n q below v →
      v.targetOf s = none → v.Seats s q below none t → Unstacks u next childPlug above t

namespace Unstacks

theorem blocks (h : u.Unstacks next childPlug above v) (y : BlockId) :
    (v.blocks[y]?).map Block.looks = (u.blocks[y]?).map Block.looks := by
  cases h with
  | whole => rfl
  | left _ _ _ hc => rw [hc.blocks]
  | healed _ _ _ _ _ hc hfree hseat =>
    obtain ⟨v', ht, hstep⟩ := hseat.ties hfree
    rw [hstep.drifts.blocks, ht.blocks, hc.blocks]

/-- No block moves if the statement has no place to go to. -/
theorem blocks_of_root (h : u.Unstacks next childPlug none v) : v.blocks = u.blocks := by
  cases h with
  | whole => rfl
  | left _ _ _ hc => exact hc.blocks
  | healed _ _ habove => cases habove

end Unstacks

/-! ### The block itself -/

/-- A block hangs on nothing: it never did, or it was taken out of the socket. -/
inductive Unplugs (ws : Workspace α) (x : BlockId) : Option ConnectionId → Workspace α → Prop
  | loose : ws.graph.Loose x → Unplugs ws x none ws
  | out {s p : ConnectionId} {u : Workspace α} : ws.Waits s p x u → Unplugs ws x (some s) u

namespace Unplugs

variable {socket : Option ConnectionId}

theorem sound (h : ws.Unplugs x socket u) (hs : ws.Sound) : u.Sound := by
  cases h with
  | loose => exact hs
  | out hwaits => exact hwaits.sound

theorem acyclic (h : ws.Unplugs x socket u) (hac : ws.graph.Acyclic) : u.graph.Acyclic := by
  cases h with
  | loose => exact hac
  | out hwaits => exact hwaits.acyclic

theorem block (h : ws.Unplugs x socket u) (hs : ws.Sound) (hb : ws.blocks[y]? = some b) :
    u.blocks[y]? = some b := by
  cases h with
  | loose => exact hb
  | out hwaits => exact hwaits.parted.block hs hb

theorem spares (h : ws.Unplugs x socket u) : ws.graph.Spares u.graph := by
  cases h with
  | loose => exact Graph.Spares.refl _
  | out hwaits =>
    obtain ⟨v, hc, -, hsp⟩ := hwaits.cut
    exact hc.spares.trans hsp

theorem stocked (h : ws.Unplugs x socket u) : ∀ s, socket = some s → u.Stocked s := by
  rintro s rfl
  cases h with
  | out hwaits => exact hwaits.stocked

theorem targetOf_next (h : ws.Unplugs x socket u) (hs : ws.Sound) (hb : ws.blocks[x]? = some b)
    (hn : b.next = some n) : u.targetOf n = ws.targetOf n := by
  cases h with
  | loose => rfl
  | out hwaits => exact hwaits.parted.targetOf_next hs hb hn

/-- What hangs on the block is not at the top. -/
theorem not_top (h : ws.Unplugs x socket u) (hs : ws.Sound) (hac : ws.graph.Acyclic)
    (hroot : ws.Rooted) (hu : ws.graph.Under y x) : y ∉ u.top := by
  have hnot : y ∉ ws.top := fun hy => (hroot y hy).2.not_under hs.wired hu
  cases h with
  | loose => exact hnot
  | @out s p u hwaits =>
    obtain ⟨v, hc, hext, -⟩ := hwaits.cut
    intro hy
    have hold : y.index.toNat < v.ids.blocks := by
      rw [hc.ids]
      obtain ⟨b, hb⟩ := hs.exists_lower hu
      exact hs.blockIds hb
    have hmem : y ∈ earlier v.ids.blocks u.top := List.mem_filter.mpr ⟨hy, decide_eq_true hold⟩
    rw [hext.top, hc.rest] at hmem
    replace hmem := List.mem_of_mem_filter hmem
    dsimp only at hmem
    split at hmem
    · exact hnot hmem
    · rcases List.mem_append.mp hmem with hmem | hmem
      · exact hnot hmem
      · rw [List.mem_singleton.mp hmem] at hu
        exact hac _ (.single hu)

/-- What is cut off from the next connection was linked to it all along. -/
theorem cuts_next (h : ws.Unplugs x socket u) (hs : ws.Sound) (hac : ws.graph.Acyclic)
    (hroot : ws.Rooted) (hb : ws.blocks[x]? = some b) (hn : b.next = some n)
    (hc : u.Cuts n q y v) : ws.targetOf n = some q ∧ y ∉ u.top := by
  obtain ⟨w, z, hl, rfl⟩ := hc.link
  obtain ⟨y, hy, rfl⟩ := connection_of_wire hl.socket
  have htarget : ws.targetOf n = some q := by
    rw [← h.targetOf_next hs hb hn, targetOf_eq hy]
    exact hl.down
  refine ⟨htarget, ?_⟩
  obtain ⟨y', hy', hyx, hk⟩ := hs.socket hb (mem_sockets.mpr (Or.inr hn))
  rw [targetOf_eq hy'] at htarget
  obtain ⟨z', hl'⟩ := Graph.link_of_socket hs.wired (wire_of_connection hy') hk htarget
  obtain ⟨target, hz⟩ := h.spares _ _ hl'.plug
  obtain rfl := Option.some.inj (hl.plug.symm.trans hz)
  exact h.not_top hs hac hroot ⟨n, q, _, z', hl', rfl, hyx⟩

end Unplugs

/-- No block is plugged into itself. -/
theorem Sound.targetOf_plug_ne (hs : ws.Sound) (hac : ws.graph.Acyclic)
    (hb : ws.blocks[x]? = some b) (hp : p ∈ b.plugs) (hn : b.next = some n) :
    ws.targetOf p ≠ some n := by
  intro habove
  obtain ⟨y, hy, hyx, hk⟩ := hs.plug hb hp
  rw [targetOf_eq hy] at habove
  obtain ⟨w, hl⟩ := Graph.link_of_plug hs.wired (wire_of_connection hy) hk habove
  obtain ⟨y', hy', hyx', -⟩ := hs.socket hb (mem_sockets.mpr (Or.inr hn))
  obtain rfl := Option.some.inj ((wire_of_connection hy').symm.trans hl.socket)
  exact hac x (.single ⟨n, p, _, _, hl, hyx, hyx'⟩)

/-- A block whose plug was freed hangs on nothing. -/
theorem Frees.unplugs (h : ws.Frees p u) (hs : ws.Sound) (hac : ws.graph.Acyclic)
    (hb : ws.blocks[x]? = some b) (hp : p ∈ b.plugs) :
    ws.Unplugs x (b.plugs.findSome? ws.targetOf) u := by
  cases h with
  | kept hlink =>
    obtain ⟨y, hy, hyx, hk⟩ := hs.plug hb hp
    obtain ⟨y', hy', hfree⟩ := link?_eq_none hlink
    obtain rfl := Option.some.inj (hy.symm.trans hy')
    have hloose : ws.graph.Loose x := by
      refine Graph.PlugOf.loose hs.wired ⟨_, wire_of_connection hy, hyx, hk⟩ fun w hw => ?_
      obtain rfl := Option.some.inj ((wire_of_connection hy).symm.trans hw)
      exact hfree
    have hnone : b.plugs.findSome? ws.targetOf = none := by
      refine Option.eq_none_iff_forall_ne_some.mpr fun s hsome => ?_
      obtain ⟨q, w, v, hl, rfl⟩ := (hs.findSome?_plugs hb).mp hsome
      exact hloose.not_under hs.wired hl.under
    rw [hnone]
    exact .loose hloose
  | @cut s _ _ _ _ hlink hc hr =>
    obtain ⟨rfl, w, v, hl, hv⟩ := link_of_plug hs hb hp hlink
    obtain ⟨w', v', hl', rfl⟩ := hc.link
    obtain rfl := Option.some.inj (hl.plug.symm.trans hl'.plug)
    rw [(hs.findSome?_plugs hb).mpr ⟨_, w, v, hl, hv⟩]
    exact .out ((hv ▸ hc).waits hs hac hr)

/-- A block is taken away from its parent, and perhaps from the statement below. -/
theorem Pulls.unplugs [Scalar α] (h : ws.Pulls x heal t) (hs : ws.Sound) (hac : ws.graph.Acyclic)
    (hroot : ws.Rooted) (hb : ws.blocks[x]? = some b) :
    ∃ u, ws.Unplugs x (b.plugs.findSome? ws.targetOf) u ∧
      u.Unstacks b.next (if heal then b.next.bind ws.targetOf else none)
        (b.plugs.findSome? ws.targetOf) t := by
  have whole : ∀ {u}, ws.Unplugs x (b.plugs.findSome? ws.targetOf) u →
      u.Unstacks b.next (if heal then b.next.bind ws.targetOf else none)
        (b.plugs.findSome? ws.targetOf) u := by
    refine fun hu => .whole fun q hq => ?_
    split at hq
    · obtain ⟨n, hn, ht⟩ := Option.bind_eq_some_iff.mp hq
      exact ⟨n, hn, (hu.targetOf_next hs hb hn).trans ht⟩
    · cases hq
  cases h with
  | value hb' ho hfree =>
    obtain rfl := Option.some.inj (hb.symm.trans hb')
    have hu := hfree.unplugs hs hac hb (mem_plugs.mpr (Or.inl ho))
    exact ⟨_, hu, whole hu⟩
  | root hb' ho hp =>
    obtain rfl := Option.some.inj (hb.symm.trans hb')
    have hplugs : b.plugs = [] := by
      rw [Block.plugs, ho, hp]
      rfl
    have hu : ws.Unplugs x (b.plugs.findSome? ws.targetOf) ws := by
      rcases hs.parentSocket_cases hb with ⟨s, p, w, v, -, hl, hv⟩ | ⟨-, hloose⟩
      · have hsome := (hs.findSome?_plugs hb).mpr ⟨p, w, v, hl, hv⟩
        rw [hplugs] at hsome
        cases hsome
      · rw [hplugs]
        exact .loose hloose
    exact ⟨_, hu, whole hu⟩
  | statement hb' ho hp hfree =>
    obtain rfl := Option.some.inj (hb.symm.trans hb')
    have hu := hfree.unplugs hs hac hb (mem_plugs.mpr (Or.inr hp))
    exact ⟨_, hu, whole hu⟩
  | @healed _ previous next u _ hb' ho hp hfree hheal hn hheals =>
    obtain rfl := Option.some.inj (hb.symm.trans hb')
    have hmem := mem_plugs.mpr (Or.inr hp)
    have hu := hfree.unplugs hs hac hb hmem
    refine ⟨u, hu, ?_⟩
    have hplug : b.plugs.findSome? ws.targetOf = ws.targetOf previous := by
      rw [Block.plugs, ho, hp]
      simp
    have below : ∀ {q below v}, u.Cuts next q below v →
        (if heal then b.next.bind ws.targetOf else none) = some q ∧ below ∉ u.top := by
      intro q below v hc
      obtain ⟨htarget, htop⟩ := hu.cuts_next hs hac hroot hb hn hc
      exact ⟨by rw [hheal, if_pos rfl, hn, Option.bind_some, htarget], htop⟩
    cases hheals with
    | stays => exact whole hu
    | left hc => exact .left hn (below hc).1 (below hc).2 hc
    | healed habove hc _ hfree' hseat =>
      refine .healed hn (below hc).1 (hplug.trans habove) ?_ (below hc).2 hc hfree' hseat
      rintro rfl
      exact hs.targetOf_plug_ne hac hb hmem hn habove

/-! ### A stack that was hung elsewhere -/

theorem Ties.link_drifts (ht : u.Ties s p x v) (hd : v.Drifts w) :
    ∃ w₁ z₁, w.graph.Link s p w₁ z₁ ∧ z₁.block = x := by
  obtain ⟨w₀, z₀, hm, -, -, hz⟩ := ht.mates
  rw [hd.graph, ht.graph]
  exact ⟨_, _, Graph.tie_link hm, hz⟩

section Elsewhere

variable {below : BlockId} {v₀ : Workspace α} (hc : u.Cuts n q below v) (ht : v.Ties s q below v₀)
  (hd : v₀.Drifts w) (hs : u.Sound)

include hc ht hd

/-- The socket that it was hung on was free, so it has no template. -/
theorem Cuts.tied_bare (hne : s ≠ n) (hstock : u.Stocked s) : w.templateAt s = some none := by
  obtain ⟨w₀, z₀, hm, hw, -, -⟩ := ht.mates
  obtain ⟨y, hy, rfl⟩ := connection_of_wire hm.socket
  obtain ⟨y₀, hy₀, he⟩ := Option.map_eq_some_iff.mp ((hc.connections s).symm.trans hy)
  rw [if_neg (not_or.mpr ⟨hne, hm.ne⟩)] at he
  subst he
  have hplain := (hstock y₀ hy₀).not.mp (by
    rw [show y₀.target = none from hw]
    exact Bool.false_ne_true)
  rw [hd.templateAt, ht.templateAt, Workspace.templateAt, hy, Option.map_some]
  exact congrArg some (by simpa using hplain)

include hs

/-- The socket that it was taken from is free. -/
theorem Cuts.tied_free (hne : s ≠ n) : w.targetOf n = none := by
  obtain ⟨w₁, z₁, hl, -⟩ := hc.link
  obtain ⟨y, hy, -⟩ := connection_of_wire hl.socket
  have hfreed := hc.connections n
  rw [hy, Option.map_some, if_pos (Or.inl rfl)] at hfreed
  rw [hd.targetOf, targetOf, ht.connections, hfreed, Option.map_some, if_neg hne.symm,
    if_neg (hl.ne hs.wired)]
  rfl

theorem Cuts.tied_poised : w.graph.Poised n q below := by
  obtain ⟨w₁, z₁, hl, hz⟩ := hc.link
  rw [hd.graph, ht.graph]
  exact (hc.spares.trans (Graph.spares_tie s q)).poised ⟨w₁, z₁, hl.mates hs.wired, hz⟩

theorem Cuts.tied_acyclic (hac : u.graph.Acyclic) : (w.graph.cut s q).Acyclic := by
  obtain ⟨w₀, z₀, hm, hw, hz, -⟩ := ht.mates
  rw [hd.graph, ht.graph, hm.cut_tie (hc.sound hs).wired hw hz]
  exact hc.acyclic hs hac

end Elsewhere

end Workspace

namespace Edit

variable [Scalar α] {ws u v w t : Workspace α} {x y : BlockId} {b : Block α}
  {c n s p q : ConnectionId} {childPlug above : Option ConnectionId}

/-- To take a plug out of a socket without a template is not refused. -/
theorem disconnect_cuts (hs : ws.Sound) {w v : Wire} (hl : ws.graph.Link s p w v)
    (htemplate : ws.templateAt s = some none) :
    Leads (· = ws) (disconnect p) (fun _ t => ws.Cuts s p v.block t) fun _ => False := by
  have hlink := link?_of_link hs hl (Or.inr rfl)
  have bare : ∀ {s' p' : ConnectionId} {z : BlockId} {u : Workspace α},
      ws.link? p = .ok (some (s', p')) → ws.Cuts s' p' z u → s' = s ∧ ws.Cuts s p v.block u ∧
        ∀ y, u.connections[s]? = some y → y.template = none := by
    intro s' p' z u hlink' hc
    rw [hlink, Except.ok.injEq, Option.some.injEq, Prod.mk.injEq] at hlink'
    obtain ⟨rfl, rfl⟩ := hlink'
    obtain ⟨w', v', hl', rfl⟩ := id hc.link
    obtain rfl := Option.some.inj (hl.plug.symm.trans hl'.plug)
    refine ⟨rfl, hc, fun y hy => ?_⟩
    have hsame := hc.templateAt s
    rw [templateAt, hy, htemplate] at hsame
    exact Option.some.inj hsame
  refine (disconnect_frees hs p).weaken (fun _ h => h) (fun _ t h => ?_) fun t h => ?_
  · cases h with
    | kept hnone =>
      rw [hlink] at hnone
      cases hnone
    | cut hlink' hc hr =>
      obtain ⟨rfl, hc, hplain⟩ := bare hlink' hc
      cases hr with
      | kept => exact hc
      | filled hy _ hm =>
        rw [hplain _ hy] at hm
        cases hm
  · cases h with
    | absent hnone =>
      have hplug := hl.plug
      simp [Workspace.graph, hnone] at hplug
    | cut hlink' hc hstrands =>
      obtain ⟨rfl, hc, hplain⟩ := bare hlink' hc
      have hw := hc.spares _ _ hl.socket
      obtain ⟨target, hw⟩ := hw
      obtain ⟨y, hy, -⟩ := connection_of_wire hw
      obtain ⟨-, hm⟩ := hstrands.unfilled y hy
      rw [hplain y hy] at hm
      cases hm

/-- A block that waits for a free socket is put there. -/
theorem connect_ties (hr : ws.Ready n q y) (hfree : ws.targetOf n = none) :
    Leads (· = ws) (connect q n) (fun _ t => ∃ v, ws.Ties n q y v ∧ v.Shifts (v.Branch y) t)
      fun _ => False := by
  refine (connect_seats hr (fun a ha => ?_) (Or.inr ⟨rfl, rfl⟩)).post fun _ t h => h.ties hfree
  rw [across, hfree] at ha
  cases ha

/-- A block that is in a socket without a template is put into a free socket. -/
theorem connect_moves {w₀ z₀ : Wire} (hs : ws.Sound) (hac : (ws.graph.cut s q).Acyclic)
    (hl : ws.graph.Link s q w₀ z₀) (htemplate : ws.templateAt s = some none)
    (hpoised : ws.graph.Poised n q z₀.block) (hfree : ws.targetOf n = none) :
    Leads (· = ws) (connect q n) (fun _ t => ∃ u v, ws.Cuts s q z₀.block u ∧ u.Ties n q z₀.block v ∧
      v.Shifts (v.Branch z₀.block) t) fun _ => False := by
  have heq := connect_eq_fit hpoised (Or.inr ⟨rfl, rfl⟩)
  obtain ⟨w, v, hm, hv⟩ := hpoised
  obtain ⟨x, hx, rfl⟩ := connection_of_wire hm.socket
  obtain ⟨y, hy, rfl⟩ := connection_of_wire hm.plug
  obtain rfl := Option.some.inj (hl.plug.symm.trans hm.plug)
  have hne : x.target ≠ some q := by
    intro ht
    rw [targetOf_eq hx, ht] at hfree
    cases hfree
  rw [fit_eq hx hy, if_neg hne, plugIn_eq_seat] at heq
  have hmove : Leads (· = ws) (do
      let o ← disconnect q >>= fun _ => seat n q y.block
      o.forM (resettle y.block)) (fun _ t => ∃ u v, ws.Cuts s q y.block u ∧
        u.Ties n q y.block v ∧ v.Shifts (v.Branch y.block) t) fun _ => False := by
    rw [bind_assoc]
    refine (disconnect_cuts hs hl htemplate).bind fun _ => ?_
    refine Leads.bind (Q := fun o t => o = none ∧ ∃ u v, ws.Cuts s q y.block u ∧
      u.Ties n q y.block v ∧ v.Shifts (v.Branch y.block) t) (Tells.each (seat_leads ws n q y.block)
        fun u hc => ?_) fun o => ?_
    · have hapt : u.Apt n q y.block :=
        ⟨hc.sound hs, hc.spares.poised ⟨_, _, hm, rfl⟩, hc.idle hs⟩
      have hfree' : u.targetOf n = none := by
        rw [targetOf, hc.connections, hx, Option.map_some, Option.bind_some]
        split
        · rfl
        · rwa [targetOf_eq hx] at hfree
      refine (seat_vacant hapt fun a ha => ?_).weaken (fun _ h => h) ?_ fun _ h => ?_
      · rw [across, hfree'] at ha
        cases ha
      · rintro o t ⟨ho, hseat⟩
        obtain ⟨v, ht, hstep⟩ := hseat.ties hfree'
        exact ⟨ho, u, v, hc, ht, hstep⟩
      · exact (h (hc.graph ▸ hac)).elim
    · cases o with
      | none => exact Leads.pure fun _ h => h.2
      | some o =>
        refine Leads.pre (P := fun _ => False) (Leads.fix fun t => ?_) fun t h =>
          Option.some_ne_none o h.1
        exact Tells.assuming (resettle_keeps (X := ∅) Editor.stable_true y.block o) False.elim
  refine Tells.congr (connect_keeps (X := ∅) (Editor.stable_true (α := α)) q n) hmove ?_
  rintro _ rfl
  exact heq

omit [Scalar α] in
/-- A block whose statement was hung below it again lies where it lay. -/
theorem position_of_rejoins (hac : t.graph.Acyclic) (hblocks : v.blocks = ws.blocks)
    (hstep : v.Shifts (v.Branch y) t) (hu : t.graph.Under y x) :
    t.blocks[x]? = ws.blocks[x]? := by
  rw [hstep.graph] at hu hac
  rw [hstep.still x, hblocks]
  rintro (rfl | hb)
  · exact hac _ (.single hu)
  · exact hac _ (.tail hb hu)

omit [Scalar α] in
/-- Once the stack that was cut off hangs on its socket again, everything is as it was, and the
block lies where it lay. -/
theorem rejoins_of_ties {below : BlockId} {u₁ u₂ u₃ : Workspace α} (hs : u.Sound)
    (hac : u.graph.Acyclic) (hb : u.blocks[x]? = some b) (hn : b.next = some n)
    (htop : below ∉ u.top) (hc : u.Cuts n q below u₁) (hd : u₁.Drifts u₂)
    (ht : u₂.Ties n q below u₃) (hstep : u₃.Shifts (u₃.Branch below) t) :
    u.Drifts t ∧ t.blocks[x]? = u₂.blocks[x]? := by
  have hdrift := (hc.ties_drifts htop hd ht hs).trans hstep.drifts
  have hunder : t.graph.Under below x := by
    rw [hdrift.graph]
    obtain ⟨w', z, hl, hz⟩ := hc.link
    obtain ⟨y, hy, rfl⟩ := connection_of_wire hl.socket
    obtain ⟨y', hy', hyx, -⟩ := hs.socket hb (mem_sockets.mpr (Or.inr hn))
    obtain rfl := Option.some.inj (hy.symm.trans hy')
    exact ⟨n, q, _, z, hl, hz, hyx⟩
  exact ⟨hdrift, position_of_rejoins (hdrift.graph ▸ hac) ht.blocks hstep hunder⟩

/-- The statement that was left behind is hung below its block again, and everything else is as it
was. The block has not been moved. -/
theorem takeBackStack_rejoins (hs : u.Sound) (hac : u.graph.Acyclic) (hb : u.blocks[x]? = some b)
    (hstock : ∀ s, above = some s → u.Stocked s) (h : u.Unstacks b.next childPlug above v)
    (hd : v.Drifts w) :
    Leads (· = w) (childPlug.forM (takeBackStack x))
      (fun _ t => u.Drifts t ∧ t.blocks[x]? = w.blocks[x]?) fun _ => False := by
  refine Leads.forM_option _ (fun q hq => ?_) fun hnone t ht => ?_
  · have base := takeBackStack_keeps (X := ∅) (Editor.stable_true (α := α)) x q
    have next : ∀ {v : Workspace α}, v.Drifts w → v.blocks[x]? = some b →
        ∃ b', w.blocks[x]? = some b' ∧ b'.next = b.next := by
      intro v hdv hbv
      obtain ⟨b', hb', he⟩ := hdv.block hbv
      exact ⟨b', hb', congrArg (fun b : Block Unit => b.next) he⟩
    cases h with
    | whole h =>
      obtain ⟨n, hn, htarget⟩ := h q hq
      obtain ⟨b', hb', hn'⟩ := next hd hb
      refine Tells.of_result base ?_
      rintro _ rfl
      rw [takeBackStack_eq_self (hd.sound hs) hb' (hn'.trans hn) (hd.targetOf n ▸ htarget)]
      exact ⟨hd, rfl⟩
    | @left n q' below v hn hq' htop hc =>
      obtain rfl := Option.some.inj (hq.symm.trans hq')
      obtain ⟨b', hb', hn'⟩ := next hd (by rw [hc.blocks, hb])
      have hready := hc.ready hs hac hd
      obtain ⟨_, _, hm, -⟩ := hready.poised
      obtain ⟨y, hy, -⟩ := connection_of_wire hm.plug
      have hfree : w.targetOf n = none := (hd.targetOf n).trans hc.targetOf_socket
      refine Tells.congr base ((connect_ties hready hfree).post ?_) ?_
      · rintro _ t ⟨u₃, ht, hstep⟩
        exact rejoins_of_ties hs hac hb hn htop hc hd ht hstep
      · rintro _ rfl
        exact takeBackStack_eq hb' (hn'.trans hn) hy
    | @healed n q' s below v v' hn hq' habove hne htop hc hfree hseat =>
      obtain rfl := Option.some.inj (hq.symm.trans hq')
      obtain ⟨v₀, ht₀, hstep₀⟩ := hseat.ties hfree
      have hd₀ := hstep₀.drifts.trans hd
      have hv := hc.sound hs
      obtain ⟨b', hb', hn'⟩ := next hd₀ (by rw [ht₀.blocks, hc.blocks, hb])
      obtain ⟨w₁, z₁, hl, rfl⟩ := ht₀.link_drifts hd₀
      obtain ⟨y, hy, -⟩ := connection_of_wire hl.plug
      refine Tells.congr base ((connect_moves (hd₀.sound (ht₀.sound hv))
        (hc.tied_acyclic ht₀ hd₀ hs hac) hl (hc.tied_bare ht₀ hd₀ hne.symm (hstock s habove))
        (hc.tied_poised ht₀ hd₀ hs) (hc.tied_free ht₀ hd₀ hs hne.symm)).post ?_) ?_
      · rintro _ t ⟨u₂, u₃, hc', ht, hstep⟩
        have hback : v.Drifts u₂ := ht₀.cuts_drifts hd₀ hc' hv (l := u.top) ?_ htop
        · rw [← hc'.blocks]
          exact rejoins_of_ties hs hac hb hn htop hc hback ht hstep
        · rw [hc.rest]
          simp [htop]
      · rintro _ rfl
        exact takeBackStack_eq hb' (hn'.trans hn) hy
  · subst ht
    cases h with
    | whole => exact ⟨hd, rfl⟩
    | left _ hq => rw [hnone] at hq; cases hq
    | healed _ hq => rw [hnone] at hq; cases hq

end Edit

end BlockEditor
