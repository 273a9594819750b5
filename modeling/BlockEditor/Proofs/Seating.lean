import BlockEditor.Proofs.Graph.Sockets
import BlockEditor.Proofs.Rewiring
import BlockEditor.Proofs.Runs
import BlockEditor.Proofs.Workspace.Saving
import BlockEditor.Proofs.Workspace.Trees

/-!
# Seating a block

A free plug is put into a socket. What is in the way leaves first: a placeholder for good, its
snapshot is the socket's template from then on; a real block to a vacant socket below the newcomer,
or aside. Nothing of this is refused except a place.
-/

namespace BlockEditor

variable {α : Type}

namespace Workspace

variable {ws ws' t u : Workspace α} {s p c : ConnectionId} {child a x below : BlockId}
  {o : Option Edit.Orphan}

/-- A connection is given a template, or loses it. -/
structure Endows (ws : Workspace α) (c : ConnectionId) (template : Option Snapshot)
    (ws' : Workspace α) : Prop where
  connections : ∀ d : ConnectionId, ws'.connections[d]? = (ws.connections[d]?).map
    fun y : Connection α => if d = c then { y with template := template } else y
  rest : ws' = { ws with connections := ws'.connections }

/-- A block is taken out with everything below it. -/
structure Fells (ws : Workspace α) (id : BlockId) (t : Workspace α) : Prop where
  live : ws.Live id
  step : ∃ b R, ws.blocks[id]? = some b ∧ ws.Loses id b.inputs [] R t ∧ ws.Seals [] R
  eq : t = ws.removeTree id

/-- A socket was emptied. -/
inductive Evicts (ws : Workspace α) (s : ConnectionId) :
    Option Edit.Orphan → Workspace α → Prop
  | free {y : Connection α} : ws.connections[s]? = some y → y.target = none → Evicts ws s none ws
  /-- A placeholder becomes the template. -/
  | stored {q : ConnectionId} {x : BlockId} {b : Block α} {template : Snapshot}
      {R : List BlockId} {u t : Workspace α} : ws.Cuts s q x u → u.blocks[x]? = some b →
      b.placeholder → u.save x = .ok template → u.Loses x b.inputs [] R (u.removeTree x) →
      u.Seals [] R → (u.removeTree x).Endows s template t → Evicts ws s none t
  /-- A real block is handed back. -/
  | moved {q : ConnectionId} {x : BlockId} {b : Block α} {u : Workspace α} : ws.Cuts s q x u →
      u.blocks[x]? = some b → b.placeholder = false → Evicts ws s (some ⟨x, q⟩) u

/-- A block was plugged into a socket in place of what was in it. -/
def Seats (ws : Workspace α) (s p : ConnectionId) (child : BlockId) (o : Option Edit.Orphan)
    (t : Workspace α) : Prop :=
  ∃ u v, ws.Evicts s o u ∧ u.Ties s p child v ∧ v.Shifts (v.Branch child) t

/-- An orphan got a new place below a block, or was pushed aside. -/
inductive Settles (ws : Workspace α) (below : BlockId) (o : Edit.Orphan) (t : Workspace α) : Prop
  | aside : ws.orphanHome below o.plug = .ok none → ws.Drifts t → Settles ws below o t
  | housed {c : ConnectionId} : ws.orphanHome below o.plug = .ok (some c) →
      ws.Seats c o.plug o.block none t → Settles ws below o t

/-- The ends are, or become, linked. -/
inductive Joins (ws : Workspace α) (s p : ConnectionId) : Workspace α → Prop
  | already {y : Connection α} : ws.connections[s]? = some y → y.target = some p → Joins ws s p ws
  | only {y : Connection α} {u t : Workspace α} : ws.connections[p]? = some y → ws.Frees p u →
      u.Seats s p y.block none t → Joins ws s p t
  | swapped {y : Connection α} {o : Edit.Orphan} {u v t : Workspace α} :
      ws.connections[p]? = some y → ws.Frees p u → u.Seats s p y.block (some o) v →
      v.Settles y.block o t → Joins ws s p t

/-- How two ends are linked, whichever of them is the socket. -/
def Links (ws : Workspace α) (a b : ConnectionId) (t : Workspace α) : Prop :=
  ∃ s p child, (s = a ∧ p = b ∨ s = b ∧ p = a) ∧ ws.graph.Poised s p child ∧ ws.Joins s p t

/-- A free plug of a block, and a socket that it may be put into. -/
structure Apt (ws : Workspace α) (s p : ConnectionId) (child : BlockId) : Prop where
  sound : ws.Sound
  poised : ws.graph.Poised s p child
  idle : ws.graph.Idle p

/-- What is more, no block hangs below itself. -/
structure Ready (ws : Workspace α) (s p : ConnectionId) (child : BlockId) : Prop where
  sound : ws.Sound
  acyclic : ws.graph.Acyclic
  poised : ws.graph.Poised s p child
  idle : ws.graph.Idle p

theorem Ready.apt (h : ws.Ready s p child) : ws.Apt s p child :=
  ⟨h.sound, h.poised, h.idle⟩

theorem Fells.sound (h : ws.Fells x t) (hs : ws.Sound) : t.Sound := by
  obtain ⟨_, _, -, hl, -⟩ := h.step
  exact hl.sound hs

/-! ### Templates -/

namespace Endows

variable {template : Option Snapshot}

theorem blocks (h : ws.Endows c template ws') : ws'.blocks = ws.blocks := by
  rw [h.rest]

theorem graph (h : ws.Endows c template ws') : ws'.graph = ws.graph :=
  graph_template h.connections h.blocks

theorem sound (h : ws.Endows c template ws') (hs : ws.Sound) : ws'.Sound :=
  hs.template h.connections h.rest

end Endows

/-! ### Emptying a socket -/

namespace Evicts

theorem sound (h : ws.Evicts s o t) (hs : ws.Sound) : t.Sound := by
  cases h with
  | free => exact hs
  | stored hc _ _ _ hl _ he => exact he.sound (hl.sound (hc.sound hs))
  | moved hc => exact hc.sound hs

theorem under_of (h : ws.Evicts s o t) (hs : ws.Sound) (hu : t.graph.Under a x) :
    ws.graph.Under a x := by
  cases h with
  | free => exact hu
  | stored hc _ _ _ hl _ he =>
    rw [he.graph] at hu
    exact hc.under_of hs (hl.under (hc.sound hs) hu)
  | moved hc => exact hc.under_of hs hu

theorem acyclic (h : ws.Evicts s o t) (hs : ws.Sound) (hac : ws.graph.Acyclic) :
    t.graph.Acyclic :=
  fun b => (hac b).mono fun _ _ hu => h.under_of hs hu

/-- An orphan hung on the owner of the socket, and hangs on nothing now. -/
theorem orphan {y : Connection α} {o : Edit.Orphan} (h : ws.Evicts s (some o) t) (hs : ws.Sound)
    (hy : ws.connections[s]? = some y) : ws.graph.Under o.block y.block ∧
      t.graph.PlugOf o.plug o.block ∧ t.graph.Idle o.plug := by
  cases h with
  | moved hc =>
    obtain ⟨w, v, hl, rfl⟩ := hc.link
    have hw := hl.socket
    rw [wire_of_connection hy, Option.some.injEq] at hw
    subst hw
    have hplug := Graph.cut_wire_plug hs.wired hl
    rw [← hc.graph] at hplug
    have hk : v.kind.isPlug := hl.isPlug hs.wired
    refine ⟨hl.under, ⟨_, hplug, rfl, hk⟩, fun w hw => ?_⟩
    rw [hplug, Option.some.injEq] at hw
    rw [← hw]

/-- What is in a vacant socket is not handed back. -/
theorem of_vacant (h : ws.Evicts s o t) (hv : ∀ a, ws.across s = some a → ws.isPlaceholder a) :
    o = none := by
  cases h with
  | free => rfl
  | stored => rfl
  | moved hc hb hp =>
    obtain ⟨w, v, hl, rfl⟩ := hc.link
    obtain ⟨y, hy, rfl⟩ := connection_of_wire hl.socket
    have hacross := (across_socket hy hl.isSocket).mpr ⟨_, v, hl, rfl⟩
    have hplaceholder := hv _ hacross
    rw [hc.blocks] at hb
    simp [isPlaceholder, hb, hp] at hplaceholder

/-- No connection changes hands. -/
theorem owner {y' : Connection α} (h : ws.Evicts s o t) (hy : t.connections[c]? = some y') :
    ∃ y, ws.connections[c]? = some y ∧ y'.block = y.block ∧ y'.kind = y.kind := by
  have cut : ∀ {q x u} {z : Connection α}, ws.Cuts s q x u → u.connections[c]? = some z →
      ∃ y, ws.connections[c]? = some y ∧ z.block = y.block ∧ z.kind = y.kind := by
    intro q x u z hc hz
    rw [hc.connections, Option.map_eq_some_iff] at hz
    obtain ⟨y, hy, rfl⟩ := hz
    refine ⟨y, hy, ?_⟩
    split <;> exact ⟨rfl, rfl⟩
  cases h with
  | free => exact ⟨y', hy, rfl, rfl⟩
  | stored hc _ _ _ hl _ he =>
    rw [he.connections, Option.map_eq_some_iff] at hy
    obtain ⟨z, hz, rfl⟩ := hy
    obtain ⟨-, z₀, hz₀, rfl⟩ := hl.old_connection hz
    obtain ⟨y, hy, hb⟩ := cut hc hz₀
    refine ⟨y, hy, ?_⟩
    split <;> exact hb
  | moved hc => exact cut hc hy

theorem not_closes (h : ws.Evicts s o t) (hs : ws.Sound) (hclear : ¬ ws.Closes c p) :
    ¬ t.Closes c p := by
  rintro ⟨x', y', hx', hy', hk, hbranch⟩
  obtain ⟨x, hx, hxb, hxk⟩ := h.owner hx'
  obtain ⟨y, hy, hyb, -⟩ := h.owner hy'
  rw [hxb, hyb] at hbranch
  rw [hxk] at hk
  exact hclear ⟨x, y, hx, hy, hk, hbranch.mono fun _ _ => h.under_of hs⟩

/-- Every other link stays, apart from those in what left. -/
theorem link {s' p' : ConnectionId} {w v : Wire} (h : ws.Evicts s o t) (hs : ws.Sound)
    (hl : ws.graph.Link s' p' w v) (hv : ∀ z, ws.across s = some z → ¬ ws.Branch z v.block) :
    ∃ w' v', t.graph.Link s' p' w' v' ∧ w'.block = w.block ∧ v'.block = v.block := by
  have cut : ∀ {q x u}, ws.Cuts s q x u → u.graph.Link s' p' w v ∧ ¬ u.Branch x v.block := by
    intro q x u hc
    obtain ⟨w₀, v₀, hl₀, rfl⟩ := hc.link
    obtain ⟨y, hy, rfl⟩ := connection_of_wire hl₀.socket
    have hnot := hv v₀.block ((across_socket hy hl₀.isSocket).mpr ⟨q, v₀, hl₀, rfl⟩)
    have hne : s' ≠ s := by
      rintro rfl
      have hq : p' = q := by
        have hw := hl.socket.symm.trans hl₀.socket
        cases hw
        exact Option.some.inj (hl.down.symm.trans hl₀.down)
      subst hq
      have hv := hl.plug.symm.trans hl₀.plug
      cases hv
      exact hnot (branch_self ws _)
    have hne' : p' ≠ q := by
      rintro rfl
      have hv := hl.plug.symm.trans hl₀.plug
      cases hv
      exact hnot (branch_self ws _)
    refine ⟨?_, fun hb => hnot (hb.mono fun _ _ => hc.under_of hs)⟩
    have hsq : s' ≠ q := Graph.Link.socket_ne_plug hs.wired hl hl₀
    have hps : p' ≠ s := (Graph.Link.socket_ne_plug hs.wired hl₀ hl).symm
    rw [hc.graph]
    exact ⟨(Graph.cut_wire_of_ne hne hsq).trans hl.socket,
      (Graph.cut_wire_of_ne hps hne').trans hl.plug, hl.isSocket, hl.down⟩
  cases h with
  | free => exact ⟨w, v, hl, rfl, rfl⟩
  | stored hc _ _ _ hloses hseal he =>
    obtain ⟨hlu, hnot⟩ := cut hc
    obtain ⟨v', hl', hv'⟩ := hloses.link_of_kept (hc.sound hs) hseal hlu
      fun hR => hnot (hloses.below _ hR)
    rw [he.graph]
    exact ⟨w, v', hl', rfl, hv'⟩
  | moved hc => exact ⟨w, v, (cut hc).1, rfl, rfl⟩

theorem under (h : ws.Evicts s o t) (hs : ws.Sound) (hu : ws.graph.Under a x)
    (ha : ∀ z, ws.across s = some z → ¬ ws.Branch z a) : t.graph.Under a x := by
  obtain ⟨s', p', w, v, hl, rfl, rfl⟩ := hu
  obtain ⟨w', v', hl', hw, hv⟩ := h.link hs hl ha
  exact ⟨s', p', w', v', hl', hv, hw⟩

/-- Whatever does not leave stays below all that it was below. -/
theorem branch {r : BlockId} (h : ws.Evicts s o t) (hs : ws.Sound) (ha : ws.Branch r a)
    (hkept : ∀ z, ws.across s = some z → ¬ ws.Branch z a) : t.Branch r a := by
  rcases ha with rfl | ha
  · exact branch_self t a
  · induction ha using Relation.TransGen.head_induction_on with
    | single hu => exact Or.inr (.single (h.under hs hu hkept))
    | head hu _ ih =>
      refine branch_of_under (h.under hs hu hkept) (ih fun z hz hb => hkept z hz ?_)
      exact branch_of_under hu hb

end Evicts

/-! ### Plugging in -/

namespace Seats

theorem sound (h : ws.Seats s p child o t) (hs : ws.Sound) : t.Sound := by
  obtain ⟨u, v, he, ht, hstep⟩ := h
  exact hstep.sound (ht.sound (he.sound hs))

theorem acyclic (h : ws.Seats s p child o t) (hs : ws.Sound) (hac : ws.graph.Acyclic)
    (hclear : ¬ ws.Closes s p) : t.graph.Acyclic := by
  obtain ⟨u, v, he, ht, hstep⟩ := h
  rw [hstep.graph]
  exact ht.acyclic (he.sound hs) (he.acyclic hs hac) (he.not_closes hs hclear)

/-- The ends are linked. -/
theorem link (h : ws.Seats s p child o t) :
    ∃ w v, t.graph.Link s p w v ∧ v.block = child := by
  obtain ⟨u, v, -, ht, hstep⟩ := h
  obtain ⟨w, z, hm, -, -, hz⟩ := ht.mates
  have hl := Graph.tie_link hm
  rw [← ht.graph, ← hstep.graph] at hl
  exact ⟨_, _, hl, hz⟩

theorem owner {y y' : Connection α} (h : ws.Seats s p child o t)
    (hy : ws.connections[c]? = some y) (hy' : t.connections[c]? = some y') :
    y'.block = y.block := by
  obtain ⟨u, v, he, ht, hstep⟩ := h
  obtain ⟨y₁, hy₁, he₁⟩ := hstep.symm_connection hy'
  rw [ht.connections, Option.map_eq_some_iff] at hy₁
  obtain ⟨y₂, hy₂, rfl⟩ := hy₁
  obtain ⟨y₀, hy₀, hb, -⟩ := he.owner hy₂
  rw [hy, Option.some.injEq] at hy₀
  subst hy₀
  have hb' := congrArg (fun u : Connection Unit => u.block) he₁
  refine Eq.trans (Eq.trans hb'.symm ?_) hb
  change (if c = s then _ else _ : Connection α).block = _
  split
  · rfl
  · split <;> rfl

/-- The orphan keeps its plug, and nothing is linked to that. -/
theorem orphan {o : Edit.Orphan} (h : ws.Seats s p child (some o) t) (hs : ws.Sound)
    (hp : ws.graph.Idle p) : t.graph.PlugOf o.plug o.block ∧ t.graph.Idle o.plug := by
  obtain ⟨u, v, he, ht, hstep⟩ := h
  obtain ⟨w, z, hm, -, -, hz⟩ := ht.mates
  have hu := he.sound hs
  obtain ⟨y, hy, rfl⟩ := connection_of_wire hm.socket
  obtain ⟨y₀, hy₀, -⟩ := he.owner hy
  obtain ⟨hunder, ⟨q, hq, hqb, hqk⟩, hidle⟩ := he.orphan hs hy₀
  have hne : o.plug ≠ s := by
    intro heq
    rw [heq, hm.socket, Option.some.injEq] at hq
    rw [← hq, ConnectionKind.isPlug_eq_not, hm.isSocket] at hqk
    cases hqk
  have hne' : o.plug ≠ p := by
    intro heq
    cases he with
    | moved hc =>
      obtain ⟨w', v', hl, -⟩ := hc.link
      have hfree := hp v' (heq ▸ hl.plug)
      rw [hl.up hs.wired] at hfree
      cases hfree
  have hwire : t.graph.wire o.plug = u.graph.wire o.plug := by
    rw [hstep.graph, ht.graph, Graph.tie_wire_of_ne hne hne']
  refine ⟨⟨q, ?_, hqb, hqk⟩, fun w' hw' => hidle w' ?_⟩
  · rw [hwire, hq]
  · rw [← hwire, hw']

/-- No cycle comes of putting the orphan into a vacant socket below the block in its place: it
would have had to carry the socket that it was in. -/
theorem not_closes {o : Edit.Orphan} (h : ws.Seats s p child (some o) t) (hs : ws.Sound)
    (hac : ws.graph.Acyclic) (hclear : ¬ ws.Closes s p) (hp : ws.graph.Idle p)
    (hv : t.Vacant child c) : ¬ t.Closes c o.plug := by
  have ht := h.sound hs
  obtain ⟨hplugOf, hidle⟩ := h.orphan hs hp
  have hloose := hplugOf.loose ht.wired hidle
  obtain ⟨u, v, he, hties, hstep⟩ := h
  have hu := he.sound hs
  obtain ⟨w, z, hm, hw, hz, rfl⟩ := hties.mates
  obtain ⟨x, hx, rfl⟩ := connection_of_wire hm.socket
  obtain ⟨y, hy, rfl⟩ := connection_of_wire hm.plug
  have hgraph : t.graph = u.graph.tie s p := by rw [hstep.graph, hties.graph]
  have hunder : t.graph.Under y.block x.block := by
    rw [hgraph]
    exact (Graph.tie_link hm).under
  rintro ⟨d, d', hd, hd', -, hcarried⟩
  obtain ⟨e, he', -, hbranch⟩ := hv.socket
  rw [hd, Option.some.injEq] at he'
  subst he'
  have howner : d'.block = o.block := by
    obtain ⟨q, hq, hqb, -⟩ := hplugOf
    rw [wire_of_connection hd', Option.some.injEq] at hq
    rw [← hqb, ← hq]
    rfl
  rw [howner] at hcarried
  have hchild : t.Branch o.block y.block := ht.branch_of_loose hloose hcarried hbranch
  have hold : ws.Branch o.block x.block := by
    rcases hchild with hself | hbelow
    · rw [show y.block = o.block from hself] at hunder
      exact (hloose.not_under ht.wired hunder).elim
    · obtain ⟨a, ha, hrest⟩ := Relation.TransGen.head'_iff.mp hbelow
      obtain rfl := Graph.under_unique ht.wired hunder ha
      rcases Relation.reflTransGen_iff_eq_or_transGen.mp hrest with heq | hrest
      · exact Or.inl heq.symm
      · rw [hgraph] at hrest
        rcases Graph.below_tie hu.wired hm hw hz hrest with hrest | ⟨hcycle, -⟩
        · exact Or.inr (hrest.mono fun _ _ => he.under_of hs)
        · exact (he.not_closes hs hclear ⟨x, y, hx, hy, hm.isSocket, hcycle⟩).elim
  obtain ⟨x₀, hx₀, hxb, -⟩ := he.owner hx
  obtain ⟨hout, -⟩ := he.orphan hs hx₀
  rw [← hxb] at hout
  rcases hold with hself | hbelow
  · rw [hself] at hout
    exact hac _ (.single hout)
  · exact hac _ (.tail hbelow hout)

/-- Every other link stays, apart from those in what left. -/
theorem link_of {s' p' : ConnectionId} {w v : Wire} (h : ws.Seats s p child o t) (hs : ws.Sound)
    (hl : ws.graph.Link s' p' w v) (hv : ∀ z, ws.across s = some z → ¬ ws.Branch z v.block) :
    ∃ w' v', t.graph.Link s' p' w' v' ∧ w'.block = w.block ∧ v'.block = v.block := by
  obtain ⟨u, y, he, ht, hstep⟩ := h
  obtain ⟨wu, vu, hm, hw, hz, -⟩ := ht.mates
  obtain ⟨w', v', hl', hblocks⟩ := he.link hs hl hv
  rw [hstep.graph, ht.graph]
  exact ⟨w', v', hl'.tie hm hw (he.sound hs).wired hz, hblocks⟩

/-- What is above the socket has not left. -/
theorem branch {r : BlockId} (h : ws.Seats s p child o t) (hs : ws.Sound) (ha : ws.Branch r a)
    (hkept : ∀ z, ws.across s = some z → ¬ ws.Branch z a) : t.Branch r a := by
  obtain ⟨u, v, he, ht, hstep⟩ := h
  obtain ⟨w, z, hm, hw, hz, -⟩ := ht.mates
  have hunder : ∀ a x, u.graph.Under a x → t.graph.Under a x := by
    intro a x hu
    rw [hstep.graph, ht.graph]
    exact Graph.under_of_tie hm hw (he.sound hs).wired hz hu
  exact (he.branch hs ha hkept).mono hunder

end Seats

/-- What is plugged in carries none of what is above the socket. -/
theorem not_branch_of_across {y : Connection α} {r z : BlockId} (hac : ws.graph.Acyclic)
    (hy : ws.connections[c]? = some y) (hk : y.kind.isSocket) (hz : ws.across c = some z)
    (hr : ws.Branch r y.block) : ¬ ws.Branch z r := by
  intro hcycle
  obtain ⟨p, v, hl, hv⟩ := (across_socket hy hk).mp hz
  have hunder : ws.graph.Under z y.block := ⟨c, p, _, v, hl, hv, rfl⟩
  rcases hr.trans hcycle with heq | hbelow
  · rw [heq] at hunder
    exact hac _ (.single hunder)
  · exact hac _ (.tail hbelow hunder)

namespace Settles

variable {o : Edit.Orphan}

/-- An orphan that is housed hangs below the block then. -/
theorem cases (h : ws.Settles below o t) (hs : ws.Sound) (hl : ws.Live below) :
    (ws.orphanHome below o.plug = .ok none ∧ ws.Drifts t) ∨ ∃ c,
      ws.orphanHome below o.plug = .ok (some c) ∧ ws.Vacant below c ∧
        ws.Seats c o.plug o.block none t := by
  cases h with
  | aside hhome hd => exact Or.inl ⟨hhome, hd⟩
  | housed hhome hseat =>
    obtain ⟨x, -, hq, -⟩ := canConnect_eq_ok (orphanHome_fits hhome)
    obtain ⟨found, hfound, hvacant⟩ := hs.furnished.orphanHome_vacant hq hl
    rw [hhome] at hfound
    cases hfound
    exact Or.inr ⟨_, hhome, hvacant _ rfl, hseat⟩

theorem sound (h : ws.Settles below o t) (hs : ws.Sound) : t.Sound := by
  cases h with
  | aside _ hd => exact hd.sound hs
  | housed _ hseat => exact hseat.sound hs

theorem acyclic (h : ws.Settles below o t) (hs : ws.Sound) (hl : ws.Live below)
    (hac : ws.graph.Acyclic) (hclear : ∀ c, ws.Vacant below c → ¬ ws.Closes c o.plug) :
    t.graph.Acyclic := by
  rcases h.cases hs hl with ⟨-, hd⟩ | ⟨c, -, hvacant, hseat⟩
  · rw [hd.graph]
    exact hac
  · exact hseat.acyclic hs hac (hclear c hvacant)

/-- The link by which the block hangs stays. -/
theorem link {w v : Wire} (h : ws.Settles below o t) (hs : ws.Sound) (hl : ws.Live below)
    (hac : ws.graph.Acyclic) (hlink : ws.graph.Link s p w v) (hv : v.block = below) :
    ∃ w' v', t.graph.Link s p w' v' ∧ w'.block = w.block ∧ v'.block = v.block := by
  rcases h.cases hs hl with ⟨-, hd⟩ | ⟨c, -, hvacant, hseat⟩
  · rw [hd.graph]
    exact ⟨w, v, hlink, rfl, rfl⟩
  · obtain ⟨y, hy, hk, hbranch⟩ := hvacant.socket
    refine hseat.link_of hs hlink fun z hz => ?_
    rw [hv]
    exact not_branch_of_across hac hy hk hz hbranch

/-- The orphan hangs below the block, or on nothing. -/
theorem orphan (h : ws.Settles below o t) (hs : ws.Sound) (hl : ws.Live below)
    (hac : ws.graph.Acyclic) (ho : ws.graph.Loose o.block) :
    (ws.orphanHome below o.plug = .ok none → t.graph.Loose o.block) ∧
      ((∃ c, ws.orphanHome below o.plug = .ok (some c)) → t.graph.Below o.block below) := by
  rcases h.cases hs hl with ⟨hhome, hd⟩ | ⟨c, hhome, hvacant, hseat⟩
  · refine ⟨fun _ => ?_, fun ⟨c, hc⟩ => ?_⟩
    · rw [hd.graph]
      exact ho
    · rw [hhome] at hc
      cases hc
  · refine ⟨fun hn => ?_, fun _ => ?_⟩
    · rw [hhome] at hn
      cases hn
    · obtain ⟨y, hy, hk, hbranch⟩ := hvacant.socket
      have hkept : ∀ z, ws.across c = some z → ¬ ws.Branch z y.block := fun z hz =>
        not_branch_of_across hac hy hk hz (branch_self ws _)
      have hbranch' := hseat.branch hs hbranch hkept
      obtain ⟨w, v, hlink, hv⟩ := hseat.link
      obtain ⟨z, hz, rfl⟩ := connection_of_wire hlink.socket
      have howner : z.block = y.block := hseat.owner hy hz
      have hunder : t.graph.Under o.block y.block := ⟨c, o.plug, _, v, hlink, hv, howner⟩
      rcases hbranch' with heq | hbelow
      · rw [← heq]
        exact .single hunder
      · exact .head hunder hbelow

end Settles

theorem Frees.apt (h : ws.Frees p u) (hs : ws.Sound) (hpoised : ws.graph.Poised s p child) :
    u.Apt s p child := by
  have hsev := Edit.severed_of_frees hs h
  exact ⟨h.sound hs, hsev.spares.poised hpoised, hsev.idle _ hpoised.plugOf⟩

/-- Once its plug is free, a block can be seated. -/
theorem Frees.ready (h : ws.Frees p u) (hs : ws.Sound) (hac : ws.graph.Acyclic)
    (hpoised : ws.graph.Poised s p child) (hclear : ¬ ws.Closes s p) :
    u.Ready s p child ∧ ¬ u.Closes s p := by
  obtain ⟨w, v, hm, rfl⟩ := hpoised
  obtain ⟨x, hx, rfl⟩ := connection_of_wire hm.socket
  obtain ⟨y, hy, rfl⟩ := connection_of_wire hm.plug
  have hapt := h.apt hs ⟨_, _, hm, rfl⟩
  exact ⟨⟨h.sound hs, h.acyclic hs hac, hapt.poised, hapt.idle⟩,
    h.not_closes hs hx hy hclear (Edit.severed_of_frees hs h).spares⟩

theorem Seats.live_child (h : ws.Seats s p child o t) (hs : ws.Sound) : t.Live child := by
  obtain ⟨w, v, hl, rfl⟩ := h.link
  exact (h.sound hs).exists_lower hl.under

/-- A block that was seated, before its orphan is settled. -/
theorem Seats.seated (h : ws.Seats s p child o t) (hr : ws.Ready s p child)
    (hclear : ¬ ws.Closes s p) : t.Sound ∧ t.graph.Acyclic ∧ t.Live child ∧
      ∃ w v, t.graph.Link s p w v ∧ v.block = child :=
  ⟨h.sound hr.sound, h.acyclic hr.sound hr.acyclic hclear, h.live_child hr.sound, h.link⟩

theorem Joins.sound (h : ws.Joins s p t) (hs : ws.Sound) : t.Sound := by
  cases h with
  | already => exact hs
  | only _ hfree hseat => exact hseat.sound (hfree.sound hs)
  | swapped _ hfree hseat hsettle => exact hsettle.sound (hseat.sound (hfree.sound hs))

theorem Links.sound {e : ConnectionId} (h : ws.Links c e t) (hs : ws.Sound) : t.Sound := by
  obtain ⟨_, _, _, -, -, hj⟩ := h
  exact hj.sound hs

/-- Ends that were linked without need of a cycle are linked, and there is no cycle. -/
theorem Joins.linked (h : ws.Joins s p t) (hs : ws.Sound) (hac : ws.graph.Acyclic)
    (hpoised : ws.graph.Poised s p child) (hclear : ¬ ws.Closes s p) :
    t.Sound ∧ t.graph.Acyclic ∧ ∃ w v, t.graph.Link s p w v ∧ v.block = child := by
  cases h with
  | already hy ht =>
    obtain ⟨w, v, hm, hv⟩ := hpoised
    have hw := hm.socket
    rw [wire_of_connection hy, Option.some.injEq] at hw
    subst hw
    exact ⟨hs, hac, _, v, ⟨hm.socket, hm.plug, hm.isSocket, ht⟩, hv⟩
  | only hy hfree hseat =>
    rw [block_of_poised hpoised hy] at hseat
    obtain ⟨hready, hclear'⟩ := hfree.ready hs hac hpoised hclear
    obtain ⟨hts, htac, -, hlink⟩ := hseat.seated hready hclear'
    exact ⟨hts, htac, hlink⟩
  | swapped hy hfree hseat hsettle =>
    rw [block_of_poised hpoised hy] at hseat hsettle
    obtain ⟨hready, hclear'⟩ := hfree.ready hs hac hpoised hclear
    obtain ⟨hvs, hvac, hlive, w, v, hl, hv⟩ := hseat.seated hready hclear'
    obtain ⟨w', v', hl', -, hv'⟩ := hsettle.link hvs hlive hvac hl hv
    refine ⟨hsettle.sound hvs, hsettle.acyclic hvs hlive hvac fun c hvacant => ?_, w', v', hl',
      hv'.trans hv⟩
    exact hseat.not_closes hready.sound hready.acyclic hclear' hready.idle hvacant

end Workspace

namespace Edit

open Workspace

variable {ws : Workspace α} {s p c : ConnectionId} {child below : BlockId}

theorem fells_of_loose {id : BlockId} (hs : ws.Sound) (hl : ws.Live id) (hloose : ws.graph.Loose id) :
    ws.Fells id (ws.removeTree id) := by
  obtain ⟨b, hb⟩ := hl
  obtain ⟨R, hloses, hseals⟩ := hs.removeTree hb hloose
  exact ⟨⟨b, hb⟩, ⟨b, R, hb, hloses, hseals⟩, rfl⟩

/-- The socket that a block was cut off from does not go with the block, unless it is below it. -/
theorem socket_stays {q : ConnectionId} {x : BlockId} {u t : Workspace α} {l : List Input}
    {R : List BlockId} (hs : ws.Sound) (hac : ws.graph.Acyclic) (hc : ws.Cuts s q x u)
    (hl : u.Loses x l [] R t) : ∃ y, t.connections[s]? = some y := by
  obtain ⟨w, v, hlink, hv⟩ := hc.link
  obtain ⟨y, hy, rfl⟩ := connection_of_wire hlink.socket
  have huy := hc.connections s
  rw [hy, Option.map_some, if_pos (Or.inl rfl)] at huy
  have hdead : ¬ u.dead [] R s := by
    intro hd
    rcases (dead_iff huy).mp hd with hd | hd
    · cases hd
    · have hbranch := (hl.below _ hd).mono fun _ _ => hc.under_of hs
      have hunder : ws.graph.Under x y.block := ⟨s, q, _, v, hlink, hv, rfl⟩
      rcases hbranch with hself | hbelow
      · exact hac _ (.single (hself ▸ hunder))
      · exact hac _ (.tail hbelow hunder)
  have hkept := hl.connections s
  rw [List.filterMap_nil, if_neg hdead, huy, Option.map_some] at hkept
  exact ⟨_, hkept⟩

/-- A socket is emptied, unless it goes itself with the placeholder that was in it. -/
theorem evict_leads (ws : Workspace α) (s : ConnectionId) :
    Leads (fun t => t = ws ∧ ws.Sound ∧ ∃ y, ws.connections[s]? = some y ∧ y.kind.isSocket)
      (evict s) (fun o t => ws.Evicts s o t)
      fun t => ¬ ws.graph.Acyclic ∧ ∃ q x u, ws.Cuts s q x u ∧ u.Fells x t := by
  unfold evict
  refine (Leads.connection ?_).bind fun y => ?_
  · rintro _ ⟨rfl, -, y, hy, -⟩ hn
    rw [hn] at hy
    cases hy
  cases ht : y.target with
  | none =>
    refine Leads.pure ?_
    rintro _ ⟨⟨rfl, -⟩, hy⟩
    exact .free hy ht
  | some q =>
    refine (Leads.connection ?_).bind fun z => ?_
    · rintro _ ⟨⟨rfl, hs, -⟩, hy⟩ hn
      obtain ⟨z, hz, -⟩ := hs.target hy ht
      rw [hn] at hz
      cases hz
    dsimp only
    refine Leads.bind (Q := fun _ u => ws.Cuts s q z.block u ∧ ws.Sound) ?_ fun _ => ?_
    · refine ((unlink_socket ws s q z.block).frame (c := ws.Sound)).pre
        ?_ |>.refused fun _ h => h.1.elim
      rintro _ ⟨⟨⟨rfl, hs, y', hy', hk⟩, hy⟩, hz⟩
      rw [hy', Option.some.injEq] at hy
      subst hy
      exact ⟨⟨rfl, hs, y'.wire, z.wire, ⟨wire_of_connection hy', wire_of_connection hz, hk, ht⟩,
        rfl⟩, hs⟩
    have live : ∀ u, ws.Cuts s q z.block u ∧ ws.Sound → u.Sound ∧ u.Live z.block ∧
        u.graph.Loose z.block := by
      rintro u ⟨hc, hs⟩
      obtain ⟨b, hb⟩ := hc.exists_child hs
      exact ⟨hc.sound hs, ⟨b, by rw [hc.blocks, hb]⟩, hc.loose_child hs⟩
    refine (Leads.block fun u h hn => (not_live hn (live u h).2.1).elim).bind fun b => ?_
    refine Leads.ite (fun hp => ?_) fun hp => Leads.pure ?_
    · refine (Leads.ask fun u e h he => ?_).bind fun template => ?_
      · obtain ⟨hus, hul, -⟩ := live u h.1
        obtain ⟨template, ht⟩ := hus.save_ok hul
        rw [he] at ht
        cases ht
      refine Leads.bind (Q := fun _ t => ∃ u, (ws.Cuts s q z.block u ∧ ws.Sound) ∧
        u.blocks[z.block]? = some b ∧ u.save z.block = .ok template ∧ t = u.removeTree z.block)
        (Leads.alter ?_ fun t => removeTree_ids t z.block) fun _ => ?_
      · rintro u ⟨⟨h, hb⟩, hsave⟩
        exact ⟨u, h, hb, hsave, rfl⟩
      refine Leads.bind (Q := fun _ t => ws.Evicts s none t) (Leads.updateConnection ?_ ?_)
        fun _ => Leads.pure fun _ h => h
      · rintro _ t y ⟨u, h, hb, hsave, rfl⟩ - hc hr
        obtain ⟨hus, -, hul⟩ := live u h
        obtain ⟨R, hl, hseal⟩ := hus.removeTree hb hul
        exact .stored h.1 hb hp hsave hl hseal ⟨hc, hr⟩
      · rintro _ ⟨u, h, hb, -, rfl⟩ hn
        obtain ⟨hus, hlive, hul⟩ := live u h
        refine ⟨fun hac => ?_, q, z.block, u, h.1, fells_of_loose hus hlive hul⟩
        obtain ⟨R, hl, -⟩ := hus.removeTree hb hul
        obtain ⟨y, hy⟩ := socket_stays h.2 hac h.1 hl
        rw [hn] at hy
        cases hy
    · rintro u ⟨⟨hc, -⟩, hb⟩
      exact .moved hc hb (by simpa using hp)

variable [Scalar α]

/-- What is left of plugging in once the plug is free. -/
def seat (socket plug : ConnectionId) (child : BlockId) : Edit α (Option Orphan) := do
  let orphan ← evict socket
  join socket plug child
  return orphan

theorem plugIn_eq_seat (socket plug : ConnectionId) (child : BlockId) :
    (plugIn socket plug child : Edit α (Option Orphan)) =
      disconnect plug >>= fun _ => seat socket plug child :=
  rfl

theorem seat_leads (ws : Workspace α) (s p : ConnectionId) (child : BlockId) :
    Leads (fun t => t = ws ∧ ws.Apt s p child) (seat s p child)
      (fun o t => ws.Seats s p child o t) fun _ => ¬ ws.graph.Acyclic := by
  have hevict := (evict_leads ws s).and (evict_keeps (X := Set.univ) Editor.stable_true ws s p child)
  refine Leads.bind (Q := fun o u => (ws.Evicts s o u ∧ u.Sound) ∧ u.graph.Poised s p child ∧
    u.graph.Idle s ∧ u.graph.Idle p) (hevict.weaken ?_ ?_ fun _ h => h.1.1) fun o => ?_
  · rintro _ ⟨rfl, h⟩
    obtain ⟨w, v, hm, hv⟩ := h.poised
    obtain ⟨y, hy, rfl⟩ := connection_of_wire hm.socket
    exact ⟨⟨rfl, h.sound, y, hy, hm.isSocket⟩, rfl, ⟨h.sound, trivial⟩, ⟨_, v, hm, hv⟩, h.idle⟩
  · rintro o u ⟨he, ⟨hsteady, hpoised, hs, hp⟩, -⟩
    exact ⟨⟨he, hsteady.sound⟩, hpoised, hs, hp⟩
  · refine Leads.bind (Q := fun _ t => ws.Seats s p child o t) (Leads.fix fun u => ?_) fun _ =>
      Leads.pure fun _ h => h
    refine ((join_leads u s p child).frame (c := ws.Evicts s o u)).weaken ?_ ?_ fun _ h => h.1.elim
    · rintro _ ⟨rfl, ⟨he, hs⟩, ⟨w, v, hm, hv⟩, hws, hwp⟩
      exact ⟨⟨rfl, hs, w, v, hm, hws w hm.socket, hwp v hm.plug, hv⟩, he⟩
    · rintro _ t ⟨⟨v, hties, hstep⟩, he⟩
      exact ⟨u, v, he, hties, hstep.toShifts⟩

/-- From a socket that holds no real block nothing is handed back. -/
theorem seat_vacant (hr : ws.Apt s p child)
    (hv : ∀ a, ws.across s = some a → ws.isPlaceholder a) :
    Leads (· = ws) (seat s p child) (fun o t => o = none ∧ ws.Seats s p child none t)
      fun _ => ¬ ws.graph.Acyclic := by
  refine (seat_leads ws s p child).weaken ?_ ?_ fun _ h => h
  · rintro _ rfl
    exact ⟨rfl, hr⟩
  · rintro o t ⟨u, v, he, hrest⟩
    obtain rfl := he.of_vacant hv
    exact ⟨rfl, u, v, he, hrest⟩

omit [Scalar α] in
theorem link?_of_idle {y : Connection α} (hy : ws.connections[p]? = some y) (ht : y.target = none) :
    ws.link? p = .ok none := by
  simp [Workspace.link?, connection_eq_ok.mpr hy, ht, bind, Except.bind, pure, Except.pure]

theorem disconnect_eq_self (h : ws.link? p = .ok none) : disconnect p ws = .ok () ws := by
  unfold disconnect
  simp only [bind, EStateM.bind, query, h]
  rfl

/-- To disconnect a free end changes nothing. -/
theorem disconnect_idle (p : ConnectionId) :
    Leads (fun t => t = ws ∧ ws.link? p = .ok none) (disconnect p) (fun _ t => t = ws)
      fun _ => False := by
  refine Tells.of_result (disconnect_safe (X := ∅) Editor.stable_true p) ?_
  rintro _ ⟨rfl, h⟩
  rw [disconnect_eq_self h]

/-- A socket that holds no real block takes in a root, and nothing is handed back. -/
theorem plugIn_vacant (hr : ws.Apt s p child)
    (hv : ∀ a, ws.across s = some a → ws.isPlaceholder a) :
    Leads (· = ws) (plugIn s p child) (fun o t => o = none ∧ ws.Seats s p child none t)
      fun _ => ¬ ws.graph.Acyclic := by
  obtain ⟨v, hplug, -⟩ := hr.poised.plugOf
  obtain ⟨y, hy, rfl⟩ := connection_of_wire hplug
  rw [plugIn_eq_seat]
  refine Leads.bind (Q := fun _ t => t = ws) ?_ fun _ => ?_
  · refine ((disconnect_idle p).pre ?_).refused fun _ h => h.elim
    rintro _ rfl
    exact ⟨rfl, link?_of_idle hy (hr.idle _ hplug)⟩
  · exact seat_vacant hr hv

/-- An orphan is refused nothing but a place to lie at, unless a block hangs below itself. -/
theorem resettle_tells (ws : Workspace α) (below : BlockId) (o : Orphan) :
    Tells (fun t => t = ws ∧ (ws.Sound ∧ ws.Live below) ∧
        ws.graph.PlugOf o.plug o.block ∧ ws.graph.Idle o.plug)
      (resettle below o) (fun _ t => ws.Settles below o t)
      fun e t => e.NonFinite ∧ ws.Settles below o t ∨ ¬ ws.graph.Acyclic := by
  unfold resettle
  refine Tells.bind (Q := fun found t => t = ws ∧ (ws.Sound ∧ ws.Live below) ∧
    (ws.graph.PlugOf o.plug o.block ∧ ws.graph.Idle o.plug) ∧
      ws.orphanHome below o.plug = .ok found ∧ ∀ c, found = some c → ws.Vacant below c)
    (Tells.of_leads ((Leads.ask ?_).post ?_)) fun found => ?_
  · rintro _ e ⟨rfl, ⟨hs, hl⟩, ⟨v, hv, -⟩, -⟩ he
    obtain ⟨y, hy, -⟩ := connection_of_wire hv
    obtain ⟨found, hfound, -⟩ := hs.furnished.orphanHome_vacant hy hl
    rw [he] at hfound
    cases hfound
  · rintro found _ ⟨⟨rfl, h, ⟨v, hv, hvb⟩, hidle⟩, hfound⟩
    obtain ⟨y, hy, -⟩ := connection_of_wire hv
    obtain ⟨found', hfound', hvacant⟩ := h.1.furnished.orphanHome_vacant hy h.2
    rw [hfound] at hfound'
    cases hfound'
    exact ⟨rfl, h, ⟨⟨v, hv, hvb⟩, hidle⟩, hfound, hvacant⟩
  cases found with
  | none =>
    refine (Tells.assuming (c := (ws.Sound ∧ ws.Live o.block) ∧ ws.orphanHome below o.plug = .ok none)
      (bumpAside_keeps Editor.calm_true o.block) fun h =>
        (bumpAside_wanders h.1.1 h.1.2).weaken (fun _ ht => ht) (fun _ t ht => .aside h.2 ht)
          fun _ t ht => Or.inl ⟨ht.1, .aside h.2 ht.2⟩).pre ?_
    rintro _ ⟨rfl, ⟨hs, -⟩, ⟨⟨v, hv, hvb, -⟩, -⟩, hhome, -⟩
    obtain ⟨y, hy, rfl⟩ := connection_of_wire hv
    obtain ⟨b, hb, -⟩ := hs.owner hy
    exact ⟨.refl _, ⟨hs, b, hvb ▸ hb⟩, hhome⟩
  | some c =>
    have base := (plugIn_keeps (X := ∅) (Editor.stable_true (α := α)) c o.plug o.block).bind
      fun _ => Leads.pure (a := ()) (Q := fun _ _ => True) fun _ _ => trivial
    refine (Tells.assuming (P := (· = ws)) (c := (ws.Apt c o.plug o.block ∧
      ws.Vacant below c) ∧ ws.orphanHome below o.plug = .ok (some c)) base fun h => ?_).pre ?_
    · refine Tells.weaken (Leads.bind (plugIn_vacant h.1.1 h.1.2.vacant) fun found => Leads.pure ?_)
        (fun _ ht => ht) (fun _ _ ht => ht) fun _ _ ht => Or.inr ht
      rintro t ⟨rfl, hseat⟩
      exact .housed h.2 hseat
    · rintro _ ⟨rfl, ⟨hs, -⟩, ⟨hplug, hidle⟩, hhome, hvacant⟩
      exact ⟨rfl, ⟨⟨hs, poised_of_orphanHome hplug hhome, hidle⟩, hvacant c rfl⟩, hhome⟩

/-! ### Linking two ends -/

variable {a b : ConnectionId} {D : EditError α → Workspace α → Prop}

/-- How the plug is freed decides what else may be refused, unless a block is to hang below itself. -/
theorem plugIn_tells (hs : ws.Sound) (hpoised : ws.graph.Poised s p child)
    (free : Tells (· = ws) (disconnect p) (fun _ u => ws.Frees p u) D) :
    Tells (· = ws) (do (← plugIn s p child).forM (resettle child)) (fun _ t => ws.Joins s p t)
      fun e t => D e t ∨ e.NonFinite ∧ ws.Joins s p t ∨ ¬ (ws.graph.Acyclic ∧ ¬ ws.Closes s p) := by
  have apt := fun (u : Workspace α) (h : ws.Frees p u) => h.apt hs hpoised
  have ready := fun (u : Workspace α) (h : ws.Frees p u)
    (hclear : ws.graph.Acyclic ∧ ¬ ws.Closes s p) => h.ready hs hclear.1 hpoised hclear.2
  obtain ⟨w, v, hm, rfl⟩ := hpoised
  obtain ⟨y, hy, rfl⟩ := connection_of_wire hm.plug
  rw [plugIn_eq_seat]
  simp only [bind_assoc]
  refine Tells.bind (Q := fun _ u => ws.Frees p u)
    (free.weaken (fun _ h => h) (fun _ _ h => h) fun _ _ h => Or.inl h) fun _ => ?_
  refine Tells.bind (Q := fun o v => ∃ u, ws.Frees p u ∧ u.Seats s p y.block o v) ?_ fun o => ?_
  · refine Tells.weaken (P := fun u => ws.Frees p u) (E := fun _ _ =>
      ¬ (ws.graph.Acyclic ∧ ¬ ws.Closes s p)) (Leads.fix fun u => ?_) (fun _ h => h) (fun _ _ h => h)
      fun _ _ h => Or.inr (Or.inr h)
    refine ((seat_leads u s p y.block).frame (c := ws.Frees p u)).weaken ?_ ?_ ?_
    · rintro _ ⟨rfl, h⟩
      exact ⟨⟨rfl, apt _ h⟩, h⟩
    · rintro o v ⟨hseat, h⟩
      exact ⟨u, h, hseat⟩
    · exact fun _ h hclear => h.1 (ready u h.2 hclear).1.acyclic
  cases o with
  | none =>
    refine Tells.of_leads (Leads.pure ?_)
    rintro v ⟨u, h, hseat⟩
    exact .only hy h hseat
  | some o =>
    refine Tells.weaken (P := fun v => ∃ u, ws.Frees p u ∧ u.Seats s p y.block (some o) v)
      (Tells.fix fun v => ?_) (fun _ h => h) (fun _ _ h => h) fun _ _ h => Or.inr h
    refine Tells.pre (P := fun t => t = v ∧ ∃ u, ws.Frees p u ∧ u.Seats s p y.block (some o) v)
      (Tells.assuming (resettle_keeps (X := ∅) Editor.stable_true y.block o) fun h =>
        (resettle_tells v y.block o).weaken ?_ ?_ ?_) fun t h => ⟨h.1, h.2⟩
    · rintro _ rfl
      obtain ⟨u, hfree, hseat⟩ := h
      have hapt := apt u hfree
      exact ⟨rfl, ⟨hseat.sound hapt.sound, hseat.live_child hapt.sound⟩,
        hseat.orphan hapt.sound hapt.idle⟩
    · intro _ t hsettle
      obtain ⟨u, hfree, hseat⟩ := h
      exact .swapped hy hfree hseat hsettle
    · obtain ⟨u, hfree, hseat⟩ := h
      rintro e t (⟨he, hsettle⟩ | hcyclic)
      · exact Or.inl ⟨he, .swapped hy hfree hseat hsettle⟩
      · refine Or.inr fun hclear => hcyclic ?_
        obtain ⟨hready, hclear'⟩ := ready u hfree hclear
        exact (hseat.seated hready hclear').2.1

theorem fit_eq {x y : Connection α} (hx : ws.connections[s]? = some x)
    (hy : ws.connections[p]? = some y) : fit s p ws =
      if x.target = some p then .ok () ws
      else (do (← plugIn s p y.block).forM (resettle y.block) : Edit α Unit) ws := by
  unfold fit
  simp only [bind, EStateM.bind, query, connection_eq_ok.mpr hx]
  by_cases ht : x.target = some p
  · rw [if_pos ht, if_pos ht]
    rfl
  · rw [if_neg ht, if_neg ht]
    simp only [EStateM.bind, query, connection_eq_ok.mpr hy]

theorem connect_eq {x : Connection α} (hon : ws.canConnect a b = .ok true)
    (hx : ws.connections[a]? = some x) :
    connect a b ws = (if x.kind.isSocket then fit a b else fit b a : Edit α Unit) ws := by
  unfold connect
  simp only [bind, EStateM.bind, query, hon, connection_eq_ok.mpr hx, if_true]
  cases x.kind.isSocket <;> rfl

/-- Two ends that may be linked are linked. What else may be refused depends on whether a block comes
to hang below itself. -/
theorem connect_joins (hs : ws.Sound) (hon : ws.canConnect a b = .ok true)
    (free : ∀ p y, p = a ∨ p = b → ws.connections[p]? = some y → y.kind.isPlug →
      Tells (· = ws) (disconnect p) (fun _ u => ws.Frees p u) D) :
    Tells (· = ws) (connect a b) (fun _ t => ws.Links a b t)
      fun e t => D e t ∨ e.NonFinite ∧ ws.Links a b t ∨
        ¬ (ws.graph.Acyclic ∧ ¬ (ws.Closes a b ∨ ws.Closes b a)) := by
  obtain ⟨x, y, hx, hy, -⟩ := canConnect_eq_ok hon
  have hpoised := poised_of_canConnect hon hx hy
  have base := connect_keeps (X := ∅) (Editor.stable_true (α := α)) a b
  have link : ∀ (s p : ConnectionId) (w v : Connection α), ws.connections[s]? = some w →
      ws.connections[p]? = some v → ws.graph.Poised s p v.block →
      Tells (· = ws) (disconnect p) (fun _ u => ws.Frees p u) D →
      connect a b ws = (fit s p : Edit α Unit) ws →
      Tells (· = ws) (connect a b) (fun _ t => ws.Joins s p t)
        fun e t => D e t ∨ e.NonFinite ∧ ws.Joins s p t ∨
          ¬ (ws.graph.Acyclic ∧ ¬ ws.Closes s p) := by
    intro s p w v hw hv hp hfree heq
    rw [fit_eq hw hv] at heq
    by_cases ht : w.target = some p
    · rw [if_pos ht] at heq
      refine Tells.of_result base ?_
      rintro _ rfl
      rw [heq]
      exact .already hw ht
    · rw [if_neg ht] at heq
      refine Tells.congr base (plugIn_tells hs hp hfree) ?_
      rintro _ rfl
      exact heq
  have heq := connect_eq hon hx
  cases hk : x.kind.isSocket with
  | true =>
    rw [if_pos hk] at heq
    have hp := hpoised.1 hk
    obtain ⟨v, hv, -, hvk⟩ := hp.plugOf
    rw [wire_of_connection hy, Option.some.injEq] at hv
    subst hv
    have links : ∀ t, ws.Joins a b t → ws.Links a b t := fun t h =>
      ⟨a, b, y.block, Or.inl ⟨rfl, rfl⟩, hp, h⟩
    exact (link a b x y hx hy hp (free b y (Or.inr rfl) hy hvk) heq).weaken
      (fun _ h => h) (fun _ => links) fun _ t h => h.imp_right fun h => h.imp
        (fun he => ⟨he.1, links t he.2⟩) fun hc hclear => hc ⟨hclear.1, fun h => hclear.2 (Or.inl h)⟩
  | false =>
    have hxk : x.kind.isPlug := by
      rw [ConnectionKind.isPlug_eq_not, hk]
      rfl
    rw [if_neg (by rw [hk]; exact Bool.false_ne_true)] at heq
    have hp := hpoised.2 hxk
    have links : ∀ t, ws.Joins b a t → ws.Links a b t := fun t h =>
      ⟨b, a, x.block, Or.inr ⟨rfl, rfl⟩, hp, h⟩
    exact (link b a y x hy hx hp (free a x (Or.inl rfl) hx hxk) heq).weaken
      (fun _ h => h) (fun _ => links) fun _ t h => h.imp_right fun h => h.imp
        (fun he => ⟨he.1, links t he.2⟩) fun hc hclear => hc ⟨hclear.1, fun h => hclear.2 (Or.inr h)⟩

/-- Two ends that may be linked, and whose link closes no cycle, are linked. -/
theorem connect_tells (hs : ws.Sound) (hac : ws.graph.Acyclic) (hon : ws.canConnect a b = .ok true)
    (hclear : ¬ ws.Closes a b) (hclear' : ¬ ws.Closes b a)
    (free : ∀ p y, p = a ∨ p = b → ws.connections[p]? = some y → y.kind.isPlug →
      Tells (· = ws) (disconnect p) (fun _ u => ws.Frees p u) D) :
    Tells (· = ws) (connect a b) (fun _ t => ws.Links a b t)
      fun e t => D e t ∨ e.NonFinite ∧ ws.Links a b t := by
  refine (connect_joins hs hon free).weaken (fun _ h => h) (fun _ _ h => h) ?_
  rintro e t (h | h | h)
  · exact Or.inl h
  · exact Or.inr h
  · exact (h ⟨hac, fun hor => hor.elim hclear hclear'⟩).elim

end Edit

end BlockEditor
