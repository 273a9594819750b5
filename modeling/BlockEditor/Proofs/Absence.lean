import BlockEditor.Proofs.Guests

/-!
# While a block is away

A drag takes its block out of a socket. Until it ends, a placeholder or a copy is in the socket, and
all else stays as it was, but for where it lies. So the block can be put back, and then the workspace
is what it was before.
-/

namespace BlockEditor

open Workspace

variable {α : Type}

namespace Workspace

variable {ws ws' u v t t' : Workspace α} {x y z k : BlockId} {b b' : Block α}
  {c s p q : ConnectionId} {C : Set ConnectionId} {n : Nat}

/-- The block was taken out of the socket. All that is new hangs there, and nothing else has
changed. -/
structure Astray (ws : Workspace α) (s p : ConnectionId) (x : BlockId) (t : Workspace α) : Prop where
  sound : t.Sound
  acyclic : t.graph.Acyclic
  cut : ∃ u, ws.Cuts s p x u ∧ Extends {s} u t ∧ u.graph.Spares t.graph
  guests : t.Guests ws.ids.blocks s
  new : ∀ a, t.across s = some a → ws.ids.blocks ≤ a.index.toNat
  stock : ws.SameStock t s

/-- The socket has its placeholder, if it has a template. -/
structure Waits (ws : Workspace α) (s p : ConnectionId) (x : BlockId) (t : Workspace α) : Prop
    extends Astray ws s p x t where
  stopgap : t.Stopgap ws.ids.blocks s
  stocked : t.Stocked s

theorem Extends.spares_of {w : Wire} {target : Option ConnectionId} (h : Extends {s} u t)
    (hu : u.Sound) (hs : u.graph.wire s = some w)
    (ht : t.graph.wire s = some { w with target := target }) : u.graph.Spares t.graph := by
  intro c w' hw'
  by_cases hc : c = s
  · subst hc
    rw [hs, Option.some.injEq] at hw'
    exact ⟨target, hw' ▸ ht⟩
  · obtain ⟨y, hy, rfl⟩ := connection_of_wire hw'
    exact ⟨y.target, wire_of_connection (h.connection hu hy hc)⟩

theorem Cuts.waits (hc : ws.Cuts s p x u) (hs : ws.Sound) (hac : ws.graph.Acyclic)
    (hr : u.Refills s t) : ws.Waits s p x t := by
  have hu := hc.sound hs
  have hparted := Parted.of_refills hs hac hc hr
  obtain ⟨y, hy⟩ := hr.present
  exact {
    sound := hparted.sound
    acyclic := hparted.acyclic
    cut := hparted.cut
    guests := hr.guests (hc.aged hs)
    new := fun a ha => (hparted.stopgap a ha).2
    stock := .of_eq ((hr.templateAt hu hy).trans (hc.templateAt s))
    stopgap := hparted.stopgap
    stocked := hr.stocked hu hc.targetOf_socket }

/-- Something new takes the place of what stands in for the block. -/
theorem Parted.seats_new (h : ws.Parted {s} s p x v) (hs : ws.Sound)
    (hnew : ws.ids.blocks ≤ k.index.toNat) (hseat : v.Seats s q k none t) :
    ∃ u, ws.Cuts s p x u ∧ Extends {s} u t ∧ u.graph.Spares t.graph := by
  obtain ⟨t₁, t₂, hev, ht, hstep⟩ := hseat
  obtain ⟨u, hc, -, hext, hs₁⟩ := h.evicts hs hev
  have hu := hc.sound hs
  have ht₁ := hev.sound h.sound
  rw [← hc.ids] at hnew
  obtain ⟨w, y, hm, hfree, -, -⟩ := ht.mates
  have hus : u.graph.wire s = some w := hs₁.symm.trans hm.socket
  have hq : q ∉ ({s} : Set ConnectionId) := fun hq => hm.ne (Eq.symm hq)
  have hties := hext.ties hu hq hnew ht
  rw [Set.insert_eq_of_mem (Set.mem_singleton s)] at hties
  have hout : ∀ c ∈ ({s} : Set ConnectionId), t₁.targetOf c = none := by
    rintro c rfl
    obtain ⟨y', hy', rfl⟩ := connection_of_wire hm.socket
    exact (targetOf_eq hy').trans hfree
  have hfinal := hties.shifts hu hstep fun z hz =>
    hext.branch_new_of_free hu ht₁ hout hnew (ht.branch ht₁ hz)
  have hwire : t.graph.wire s = some { w with target := some q } := by
    rw [hstep.graph, ht.graph, Graph.tie_wire_socket hm]
  exact ⟨u, hc, hfinal, hfinal.spares_of hu hus hwire⟩

theorem Seats.across (h : ws.Seats s p k none t) : t.across s = some k := by
  obtain ⟨w, v, hl, rfl⟩ := h.link
  exact across_of_link hl

theorem Seats.templateAt {o : Option Edit.Orphan} (h : ws.Seats s p k o t) :
    ∃ u, ws.Evicts s o u ∧ (∃ w, u.graph.wire s = some w) ∧
      ∀ c, t.templateAt c = u.templateAt c := by
  obtain ⟨u, v, hev, ht, hstep⟩ := h
  obtain ⟨w, y, hm, -⟩ := ht.mates
  exact ⟨u, hev, ⟨w, hm.socket⟩, fun c => (hstep.drifts.templateAt c).trans (ht.templateAt c)⟩

/-- What takes the place of a placeholder leaves it a template. -/
theorem Seats.sameStock (h : ws.Seats s p k none t) (hstock : ws.Stocked s) : ws.SameStock t s := by
  obtain ⟨u, hev, ⟨w, hw⟩, hsame⟩ := h.templateAt
  exact (hev.sameStock hstock hw).trans (.of_eq (hsame s))

namespace Waits

theorem parted (h : ws.Waits s p x t) : ws.Parted {s} s p x t where
  sound := h.sound
  acyclic := h.acyclic
  within := Set.Subset.rfl
  cut := h.cut
  stopgap := h.stopgap

theorem connection (h : ws.Waits s p x t) : ∃ y, t.connections[s]? = some y := by
  obtain ⟨u, hc, -, hsp⟩ := h.cut
  obtain ⟨w, v, hl, -⟩ := hc.link
  obtain ⟨target, hw⟩ := (hc.spares.trans hsp) s w hl.socket
  obtain ⟨y, hy, -⟩ := connection_of_wire hw
  exact ⟨y, hy⟩

/-- A copy takes the place of the placeholder. -/
theorem seats (h : ws.Waits s p x u) (hs : ws.Sound) (hf : u.Fresh k v) (hv : v.Sound)
    (hseat : v.Seats s q k none t) : ws.Astray s p x t := by
  obtain ⟨y, hy⟩ := h.connection
  have hac := hf.acyclic hv h.acyclic
  have hold := h.parted.extend hf.extend hv hac
  have hcount : ws.ids.blocks ≤ u.ids.blocks := by
    obtain ⟨u₀, hc, he, -⟩ := h.cut
    rw [← hc.ids]
    exact he.blockCount
  have hnew : ws.ids.blocks ≤ k.index.toNat := hcount.trans hf.new
  obtain ⟨w', v', hl, hk⟩ := hseat.link
  have hclear : ¬ v.Closes s q := by
    obtain ⟨y', hy', rfl⟩ := connection_of_wire hl.plug
    obtain ⟨z, hz, hzb, -⟩ := hseat.old hy'
    exact hf.not_closes hv hy hz (hzb.symm.trans hk)
  have hsame : u.SameStock v s := .of_eq (templateAt_congr (by
    rw [hf.extend.connection h.sound hy (Set.notMem_empty s), hy]))
  exact {
    sound := hseat.sound hv
    acyclic := hseat.acyclic hv hac hclear
    cut := hold.seats_new hs hnew hseat
    guests := h.guests.seats h.sound hf hv hac hseat
    new := fun a ha => by
      rw [hseat.across, Option.some.injEq] at ha
      exact ha ▸ hnew
    stock := (h.stock.trans hsame).trans
      (hseat.sameStock (h.stocked.extend h.sound hf.extend hy)) }

end Waits

namespace Astray

/-- The copy is disposed, and the socket gets its placeholder back. -/
theorem refills (h : ws.Astray s p x t) (hs : ws.Sound) (hc : t.Cuts s q k u) (hf : u.Fells k v)
    (hr : v.Refills s t') : ws.Waits s p x t' := by
  obtain ⟨u₀, hc₀, hext, hsp⟩ := h.cut
  have hu₀ := hc₀.sound hs
  have hu := hc.sound h.sound
  have hv := hf.sound hu
  obtain ⟨w, z, hl, -⟩ := hc₀.link
  have hwire := Graph.cut_wire_socket hs.wired hl
  rw [← hc₀.graph] at hwire
  obtain ⟨b, R, hb, hloses, -⟩ := hf.step
  have hnew : u₀.ids.blocks ≤ k.index.toNat := by
    obtain ⟨w', v', hl', rfl⟩ := hc.link
    rw [hc₀.ids]
    exact h.new _ (across_of_link hl')
  obtain ⟨hext', hwire'⟩ := hext.cuts_loses hu₀ h.sound hsp hwire hc hnew hloses
  obtain ⟨y, hy, hyw⟩ := connection_of_wire hwire'
  have hfree : v.targetOf s = none := by
    rw [targetOf_eq hy]
    exact congrArg Wire.target hyw
  have hcount : ws.ids.blocks ≤ v.ids.blocks := by
    rw [← hc₀.ids]
    exact hext'.blockCount
  have hstop : t'.Stopgap ws.ids.blocks s := fun a ha =>
    ⟨(hr.stopgap hfree a ha).1, hcount.trans (hr.stopgap hfree a ha).2⟩
  have hsame := hr.templateAt hv hy
  rw [(hloses.connection_of_kept hy hc.targetOf_socket).2, hc.templateAt] at hsame
  exact {
    sound := hr.sound hv
    acyclic := hr.acyclic (hloses.acyclic hu (hc.acyclic h.sound h.acyclic))
    cut := ⟨u₀, hc₀, hext'.trans hr.extend fun c hc => Or.inl hc,
      (hext'.spares_of hu₀ hwire hwire').trans (hr.spares hv)⟩
    guests := hr.guests (h.guests.fells h.sound h.acyclic hc hf)
    new := fun a ha => (hstop a ha).2
    stock := h.stock.trans (.of_eq hsame)
    stopgap := hstop
    stocked := hr.stocked hv hfree }

end Astray

/-! ### Blocks that look otherwise -/

/-- The ends, their links and their templates are the same; the blocks may look otherwise. -/
structure Recasts (ws t : Workspace α) : Prop where
  graph : t.graph = ws.graph
  templates : ∀ c, t.templateAt c = ws.templateAt c
  ids : t.ids = ws.ids
  registry : t.registry = ws.registry
  top : t.top = ws.top

theorem Drifts.recasts (h : ws.Drifts t) : ws.Recasts t :=
  ⟨h.graph, h.templateAt, h.ids, h.registry, h.top⟩

/-- The workspace with its blocks as they are in `t`. -/
def recast (ws t : Workspace α) : Workspace α :=
  { ws with
    blocks := ws.blocks.map fun x b => (t.blocks[x]?).getD b
    connections := ws.connections.map fun c y =>
      { y with offset := ((t.connections[c]?).getD y).offset } }

theorem recast_block (ws t : Workspace α) (x : BlockId) :
    (ws.recast t).blocks[x]? = (ws.blocks[x]?).map fun b => (t.blocks[x]?).getD b :=
  Std.ExtTreeMap.getElem?_map

theorem recast_connection (ws t : Workspace α) (c : ConnectionId) :
    (ws.recast t).connections[c]? = (ws.connections[c]?).map fun y =>
      { y with offset := ((t.connections[c]?).getD y).offset } :=
  Std.ExtTreeMap.getElem?_map

namespace Recasts

theorem ends (h : t.Recasts t') (y : BlockId) :
    (t'.blocks[y]?).map Block.roles = (t.blocks[y]?).map Block.roles :=
  congrArg (·.ends y) h.graph

theorem block (h : t.Recasts t') (hb : t.blocks[x]? = some b) :
    ∃ b', t'.blocks[x]? = some b' ∧ b'.roles = b.roles := by
  have hsame := h.ends x
  rw [hb, Option.map_some, Option.map_eq_some_iff] at hsame
  exact hsame

theorem live_of (h : t.Recasts t') (hx : t'.Live x) : t.Live x := by
  obtain ⟨b, hb⟩ := hx
  have hsame := h.ends x
  rw [hb, Option.map_some, eq_comm, Option.map_eq_some_iff] at hsame
  obtain ⟨b₀, hb₀, -⟩ := hsame
  exact ⟨b₀, hb₀⟩

theorem none (h : t.Recasts t') (hb : t.blocks[x]? = none) : t'.blocks[x]? = none := by
  have hsame := h.ends x
  rwa [hb, Option.map_none, Option.map_eq_none_iff] at hsame

/-- A connection keeps all but its place. -/
theorem connection {y : Connection α} (h : t.Recasts t') (hy : t.connections[c]? = some y) :
    ∃ y', t'.connections[c]? = some y' ∧ y' = { y with offset := y'.offset } := by
  have hw := congrArg (·.wire c) h.graph
  simp only [Workspace.graph, hy, Option.map_some, Option.map_eq_some_iff] at hw
  obtain ⟨y', hy', hw⟩ := hw
  have htemplate := h.templates c
  rw [templateAt, hy', templateAt, hy, Option.map_some, Option.map_some, Option.some.injEq] at htemplate
  refine ⟨y', hy', ?_⟩
  cases y
  cases y'
  cases hw
  cases htemplate
  rfl

theorem connection_none (h : t.Recasts t') (hy : t.connections[c]? = Option.none) :
    t'.connections[c]? = Option.none := by
  have hw := congrArg (·.wire c) h.graph
  simpa [Workspace.graph, hy] using hw

theorem sound (h : t.Recasts t') (hs : t.Sound) : t'.Sound where
  wired := by
    rw [h.graph]
    exact hs.wired
  blockIds hb := by
    obtain ⟨b₀, hb₀⟩ := h.live_of ⟨_, hb⟩
    rw [h.ids]
    exact hs.blockIds hb₀
  connectionIds {c y} hy := by
    rw [h.ids]
    cases hy₀ : t.connections[c]? with
    | none =>
      rw [h.connection_none hy₀] at hy
      cases hy
    | some y₀ => exact hs.connectionIds hy₀
  registry := by
    rw [h.registry]
    exact hs.registry

end Recasts

/-- The blocks of `ws` have the same ends in `t`. -/
def Shares (ws t : Workspace α) : Prop :=
  ∀ (y : BlockId) (b : Block α), ws.blocks[y]? = some b →
    ∃ b', t.blocks[y]? = some b' ∧ b'.roles = b.roles

theorem Shares.graph (h : ws.Shares t) : (ws.recast t).graph = ws.graph := by
  have hends : (ws.recast t).graph.ends = ws.graph.ends := by
    funext y
    change ((ws.recast t).blocks[y]?).map Block.roles = (ws.blocks[y]?).map Block.roles
    rw [recast_block]
    cases hb : ws.blocks[y]? with
    | none => rfl
    | some b =>
      obtain ⟨b', hb', hr⟩ := h y b hb
      rw [hb']
      exact congrArg some hr
  have hwire : (ws.recast t).graph.wire = ws.graph.wire := by
    funext c
    change ((ws.recast t).connections[c]?).map Connection.wire = (ws.connections[c]?).map Connection.wire
    rw [recast_connection, Option.map_map]
    rfl
  exact congrArg₂ Graph.mk hends hwire

theorem templateAt_recast (ws t : Workspace α) (c : ConnectionId) :
    (ws.recast t).templateAt c = ws.templateAt c := by
  rw [templateAt, recast_connection, Option.map_map]
  rfl

theorem Cuts.recast (h : ws.Cuts s p x u) (ht : ws.Shares t) : (ws.recast t).Cuts s p x (u.recast t) where
  link := by
    rw [ht.graph]
    exact h.link
  connections c := by
    rw [recast_connection, recast_connection, h.connections, Option.map_map, Option.map_map]
    refine congrArg (Option.map · _) (funext fun y => ?_)
    simp only [Function.comp_apply]
    cases t.connections[c]? <;> split <;> rfl
  rest := by
    rw [h.rest]
    rfl

theorem Extends.recast (h : Extends C u t) (hr : t.Recasts t') : Extends C (u.recast t') t' where
  blocks y hy := by
    rw [recast_block]
    have hsame := h.blocks y hy
    cases hb : u.blocks[y]? with
    | none => exact hr.none (hsame.trans hb)
    | some b =>
      obtain ⟨b', hb', -⟩ := hr.block (hsame.trans hb)
      rw [hb']
      rfl
  connections c hC hlt := by
    rw [recast_connection]
    have hsame := h.connections c hC hlt
    cases hy : u.connections[c]? with
    | none => exact hr.connection_none (hsame.trans hy)
    | some y =>
      obtain ⟨y', hy', he⟩ := hr.connection (hsame.trans hy)
      rw [hy', he]
      rfl
  blockCount := by
    rw [hr.ids]
    exact h.blockCount
  endCount := by
    rw [hr.ids]
    exact h.endCount
  registry := hr.registry.trans h.registry
  top := by
    rw [hr.top]
    exact h.top

theorem Astray.shares (h : ws.Astray s p x t) (hs : ws.Sound) (hr : t.Recasts t') : ws.Shares t' := by
  obtain ⟨u, hc, hext, -⟩ := h.cut
  intro y b hb
  exact hr.block (hext.block (hc.sound hs) (by rw [hc.blocks, hb]))

/-- Blocks that look otherwise could have looked so before. -/
theorem Astray.recast (h : ws.Astray s p x t) (hs : ws.Sound) (hr : t.Recasts t') :
    (ws.recast t').Astray s p x t' where
  sound := hr.sound h.sound
  acyclic := by
    rw [hr.graph]
    exact h.acyclic
  cut := by
    have hshares := h.shares hs hr
    obtain ⟨u, hc, hext, hsp⟩ := h.cut
    have hshares' : u.Shares t' := by
      rw [Shares, hc.blocks]
      exact hshares
    refine ⟨u.recast t', hc.recast hshares, hext.recast hr, ?_⟩
    rw [hshares'.graph, hr.graph]
    exact hsp
  guests y hy hnew := (carried_congr hr.graph).mpr (h.guests y (hr.live_of hy) hnew)
  new a ha := h.new a ((across_congr hr.graph s).symm.trans ha)
  stock := by
    rw [SameStock, templateAt_recast, hr.templates]
    exact h.stock

theorem Waits.recast (h : ws.Waits s p x t) (hs : ws.Sound) (hr : t.Recasts t')
    (hmark : ∀ a : BlockId, ws.ids.blocks ≤ a.index.toNat → t.isPlaceholder a → t'.isPlaceholder a) :
    (ws.recast t').Waits s p x t' where
  toAstray := h.toAstray.recast hs hr
  stopgap a ha := by
    obtain ⟨hplaceholder, hnew⟩ := h.stopgap a ((across_congr hr.graph s).symm.trans ha)
    exact ⟨hmark a hnew hplaceholder, hnew⟩
  stocked y hy := by
    obtain ⟨y₀, hy₀⟩ := h.connection
    obtain ⟨y', hy', he⟩ := hr.connection hy₀
    rw [hy, Option.some.injEq] at hy'
    rw [hy', he]
    exact h.stocked y₀ hy₀

theorem drifts_recast (h : ∀ (y : BlockId) (b : Block α), ws.blocks[y]? = some b →
    ∃ b', t.blocks[y]? = some b' ∧ b'.looks = b.looks) : ws.Drifts (ws.recast t) where
  blocks y := by
    rw [recast_block]
    cases hb : ws.blocks[y]? with
    | none => rfl
    | some b =>
      obtain ⟨b', hb', he⟩ := h y b hb
      rw [hb']
      exact congrArg some he
  connections c := by
    rw [recast_connection, Option.map_map]
    rfl
  rest := rfl

/-- While the block is away the blocks may be moved and marked. -/
theorem Astray.drifts (h : ws.Astray s p x t) (hs : ws.Sound) (hd : t.Drifts t') :
    ∃ ws', ws.Drifts ws' ∧ ws'.Astray s p x t' := by
  refine ⟨ws.recast t', drifts_recast fun y b hb => ?_, h.recast hs hd.recasts⟩
  obtain ⟨u, hc, hext, -⟩ := h.cut
  exact hd.block (hext.block (hc.sound hs) (by rw [hc.blocks, hb]))

theorem Waits.drifts (h : ws.Waits s p x t) (hs : ws.Sound) (hd : t.Drifts t') :
    ∃ ws', ws.Drifts ws' ∧ ws'.Waits s p x t' := by
  refine ⟨ws.recast t', drifts_recast fun y b hb => ?_,
    h.recast hs hd.recasts fun a _ ha => ((hd.agrees a).isPlaceholder (branch_self t a)).trans ha⟩
  exact hd.block (h.parted.block hs hb)

/-! ### The override of a block -/

def withOverride (ws : Workspace α) (x : BlockId) (value : Option Bool) : Workspace α :=
  { ws with blocks := ws.blocks.modify x fun b => { b with copyOnDrag := value } }

section Override

variable {value value' : Option Bool}

theorem withOverride_block (ws : Workspace α) (x : BlockId) (value : Option Bool) (y : BlockId) :
    (ws.withOverride x value).blocks[y]? = (ws.blocks[y]?).map fun b =>
      if y = x then { b with copyOnDrag := value } else b := by
  change (ws.blocks.modify x _)[y]? = _
  rw [Std.ExtTreeMap.getElem?_modify]
  simp only [Std.LawfulEqCmp.compare_eq_iff_eq]
  by_cases h : x = y
  · subst h
    simp
  · simp [h, Ne.symm h]

theorem insert_eq_withOverride (hb : ws.blocks[x]? = some b) (value : Option Bool) :
    { ws with blocks := ws.blocks.insert x { b with copyOnDrag := value } } =
      ws.withOverride x value := by
  have hsame : ws.blocks.insert x { b with copyOnDrag := value } =
      ws.blocks.modify x fun b => { b with copyOnDrag := value } := by
    refine Std.ExtTreeMap.ext_getElem? fun y => ?_
    have hmodify := withOverride_block ws x value y
    rw [getElem?_insert]
    refine Eq.trans ?_ hmodify.symm
    split
    · next h =>
      rw [h, hb]
      simp
    · simp
  rw [withOverride, hsame]

theorem recasts_withOverride (ws : Workspace α) (x : BlockId) (value : Option Bool) :
    ws.Recasts (ws.withOverride x value) where
  graph := by
    have hends : (ws.withOverride x value).graph.ends = ws.graph.ends := by
      funext y
      change ((ws.withOverride x value).blocks[y]?).map Block.roles = (ws.blocks[y]?).map Block.roles
      rw [withOverride_block, Option.map_map]
      refine congrArg (Option.map · _) (funext fun b => ?_)
      rw [Function.comp_apply]
      split <;> rfl
    exact congrArg₂ Graph.mk hends rfl
  templates _ := rfl
  ids := rfl
  registry := rfl
  top := rfl

/-- Blocks look the same if they looked the same but for the override. -/
theorem Drifts.withOverride (h : ws.Drifts t) (x : BlockId) (value : Option Bool) :
    (ws.withOverride x value).Drifts (t.withOverride x value) where
  blocks y := by
    rw [withOverride_block, withOverride_block, Option.map_map, Option.map_map]
    have hsame := congrArg (Option.map fun u : Block Unit =>
      if y = x then { u with copyOnDrag := value } else u) (h.blocks y)
    rw [Option.map_map, Option.map_map] at hsame
    have hcomm : Block.looks ∘ (fun b : Block α => if y = x then { b with copyOnDrag := value } else b) =
        (fun u : Block Unit => if y = x then { u with copyOnDrag := value } else u) ∘ Block.looks := by
      funext b
      rw [Function.comp_apply, Function.comp_apply]
      split <;> rfl
    rw [hcomm]
    exact hsame
  connections := h.connections
  rest := by
    rw [h.rest]
    rfl

theorem withOverride_eq (h : ∀ y : BlockId, (t.blocks[y]?).map (fun b : Block α =>
    if y = x then { b with copyOnDrag := value } else b) = ws.blocks[y]?)
    (hrest : ws = { t with blocks := ws.blocks }) : t.withOverride x value = ws := by
  have hsame : (t.withOverride x value).blocks = ws.blocks := by
    refine Std.ExtTreeMap.ext_getElem? fun y => ?_
    rw [withOverride_block]
    exact h y
  rw [hrest, ← hsame]
  rfl

/-- The last override counts. -/
theorem withOverride_again (ws : Workspace α) (x : BlockId) (value value' : Option Bool) :
    (ws.withOverride x value).withOverride x value' = ws.withOverride x value' := by
  refine withOverride_eq (fun y => ?_) rfl
  rw [withOverride_block, withOverride_block, Option.map_map]
  refine congrArg (Option.map · _) (funext fun b => ?_)
  rw [Function.comp_apply]
  split <;> rfl

theorem withOverride_self (hb : ws.blocks[x]? = some b) : ws.withOverride x b.copyOnDrag = ws := by
  refine withOverride_eq (fun y => ?_) rfl
  by_cases h : y = x
  · rw [h, hb]
    simp
  · simp [h]

theorem drifts_recast_withOverride (hkept : ∀ (y : BlockId) (b : Block α), ws.blocks[y]? = some b →
    t.blocks[y]? = some b) (z : BlockId) (value : Option Bool) :
    (ws.withOverride z value).Drifts (ws.recast (t.withOverride z value)) where
  blocks y := by
    rw [recast_block, withOverride_block, withOverride_block]
    cases hb : ws.blocks[y]? with
    | none => rfl
    | some b =>
      rw [hkept y b hb]
      rfl
  connections c := by
    rw [recast_connection, Option.map_map]
    rfl
  rest := rfl

theorem Astray.withOverride (h : ws.Astray s p x t) (hs : ws.Sound) (z : BlockId)
    (value : Option Bool) : ∃ ws', (ws.withOverride z value).Drifts ws' ∧
      ws'.Astray s p x (t.withOverride z value) := by
  refine ⟨_, drifts_recast_withOverride (fun y b hb => ?_) z value,
    h.recast hs (recasts_withOverride t z value)⟩
  obtain ⟨u, hc, hext, -⟩ := h.cut
  exact hext.block (hc.sound hs) (by rw [hc.blocks, hb])

theorem Waits.withOverride (h : ws.Waits s p x t) (hs : ws.Sound) (z : BlockId)
    (value : Option Bool) : ∃ ws', (ws.withOverride z value).Drifts ws' ∧
      ws'.Waits s p x (t.withOverride z value) := by
  refine ⟨_, drifts_recast_withOverride (fun y b hb => h.parted.block hs hb) z value,
    h.recast hs (recasts_withOverride t z value) fun a _ ha => ?_⟩
  rw [isPlaceholder, withOverride_block, Option.any_map]
  refine (congrArg (Option.any · t.blocks[a]?) (funext fun b => ?_)).trans ha
  split <;> rfl

end Override

end Workspace

namespace Edit

variable {ws : Workspace α} {x : BlockId} {b : Block α}

theorem setCopyOnDrag_eq (hb : ws.blocks[x]? = some b) (value : Option Bool) :
    setCopyOnDrag x value ws = .ok () (ws.withOverride x value) := by
  unfold setCopyOnDrag updateBlock
  simp only [bind, EStateM.bind, query, block_eq_ok.mpr hb]
  exact congrArg (EStateM.Result.ok ()) (insert_eq_withOverride hb value)

end Edit

end BlockEditor
