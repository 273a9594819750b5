import BlockEditor.Proofs.Abandoning
import BlockEditor.Proofs.Landing
import BlockEditor.Proofs.Refusals
import BlockEditor.Proofs.Whole

/-!
# Stand-ins

An input with a template is never empty. When the block that it holds is unlinked, pulled out,
disposed, linked elsewhere or picked up, a placeholder has taken its place by the time the action is
over. Only a drag that leaves a copy leaves that instead.
-/

namespace BlockEditor

variable {α : Type}

namespace Workspace

variable {ws u t real : Workspace α} {x child : BlockId} {b : Block α} {c d s p : ConnectionId}
  {o : Option Edit.Orphan} {template : Snapshot} {heal : Bool} {session : DragSession α}

/-- A placeholder is plugged into the socket. -/
def StoodIn (ws : Workspace α) (c : ConnectionId) : Prop :=
  ∃ a, ws.graph.Hangs c a ∧ ws.isPlaceholder a

/-- The socket has a template, and the block is plugged into it with the plug `p`. -/
structure Hosts (ws : Workspace α) (c p : ConnectionId) (x : BlockId) : Prop where
  link : ∃ w v, ws.graph.Link c p w v ∧ v.block = x
  template : ∃ template, ws.templateAt c = some (some template)

theorem isPlaceholder_congr {b' : Block α} (hb : ws.blocks[x]? = some b)
    (hb' : t.blocks[x]? = some b') (h : b'.placeholder = b.placeholder) :
    t.isPlaceholder x = ws.isPlaceholder x := by
  rw [isPlaceholder, isPlaceholder, hb, hb', Option.any_some, Option.any_some, h]

theorem live_of_hangs (hs : ws.Sound) (h : ws.graph.Hangs c x) : ws.Live x := by
  obtain ⟨p, w, v, hl, rfl⟩ := h
  exact hs.exists_lower hl.under

theorem StoodIn.across (h : ws.StoodIn c) : ∃ a, ws.across c = some a ∧ ws.isPlaceholder a := by
  obtain ⟨a, ⟨p, w, v, hl, hv⟩, hmark⟩ := h
  obtain ⟨y, hy, rfl⟩ := connection_of_wire hl.socket
  exact ⟨a, (across_socket hy hl.isSocket).mpr ⟨p, v, hl, hv⟩, hmark⟩

theorem StoodIn.drifts (h : ws.StoodIn c) (hd : ws.Drifts t) : t.StoodIn c := by
  obtain ⟨a, ha, hmark⟩ := h
  exact ⟨a, by rwa [hd.graph], by rwa [hd.isPlaceholder]⟩

/-- Whether a block is hosted is seen from the two ends. -/
theorem hosts_of_any (hc : (ws.connections[c]?).any fun y =>
      y.kind.isSocket && decide (y.target = some p) && y.template.isSome)
    (hp : (ws.connections[p]?).any fun z => decide (z.block = x)) : ws.Hosts c p x := by
  obtain ⟨y, hy, hcheck⟩ := (Option.any_eq_true _ _).mp hc
  obtain ⟨z, hz, hx⟩ := (Option.any_eq_true _ _).mp hp
  simp only [Bool.and_eq_true, decide_eq_true_eq] at hcheck hx
  obtain ⟨⟨hk, ht⟩, htemplate⟩ := hcheck
  obtain ⟨template, htemplate⟩ := Option.isSome_iff_exists.mp htemplate
  exact ⟨⟨y.wire, z.wire, ⟨wire_of_connection hy, wire_of_connection hz, hk, ht⟩, hx⟩, template,
    by rw [templateAt, hy, Option.map_some, htemplate]⟩

namespace Hosts

theorem hangs (h : ws.Hosts c p x) : ws.graph.Hangs c x := by
  obtain ⟨w, v, hl, hv⟩ := h.link
  exact ⟨p, w, v, hl, hv⟩

/-- Asked at either end, the link is the one that the block hangs by. -/
theorem link?_eq (h : ws.Hosts c p x) (hs : ws.Sound) (hd : d = c ∨ d = p) :
    ws.link? d = .ok (some (c, p)) := by
  obtain ⟨w, v, hl, -⟩ := h.link
  exact link?_of_link hs hl hd

/-- A block is in the socket with its only plug. -/
theorem plug_eq (h : ws.Hosts c p x) (hs : ws.Sound) (hb : ws.blocks[x]? = some b)
    (hd : d ∈ b.plugs) : d = p := by
  obtain ⟨w, v, hl, rfl⟩ := h.link
  obtain ⟨y, hy, hyb, hk⟩ := hs.plug hb hd
  exact hs.wired.onePlug (wire_of_connection hy) hl.plug hyb hk (hl.isPlug hs.wired)

theorem mem_plugs (h : ws.Hosts c p x) (hs : ws.Sound) (hb : ws.blocks[x]? = some b) :
    p ∈ b.plugs := by
  obtain ⟨w, v, hl, hv⟩ := h.link
  obtain ⟨y, hy, rfl⟩ := connection_of_wire hl.plug
  have hyb : y.block = x := hv
  exact hs.mem_plugs_of hy (hl.isPlug hs.wired) (hyb ▸ hb)

/-- The socket is none of the block's own. -/
theorem ne_socket (h : ws.Hosts c p x) (hs : ws.Sound) (hb : ws.blocks[x]? = some b)
    (hd : d ∈ b.sockets) : c ≠ d := by
  rintro rfl
  obtain ⟨w, v, hl, hv⟩ := h.link
  obtain ⟨y, hy, hyb, -⟩ := hs.socket hb hd
  obtain ⟨v', hplug, -, -, -, hne⟩ := hs.wired.joined hl.socket hl.down
  obtain rfl : v = v' := Option.some.inj (hl.plug.symm.trans hplug)
  obtain rfl : w = y.wire := Option.some.inj (hl.socket.symm.trans (wire_of_connection hy))
  exact hne (hv.trans hyb.symm)

/-- A link of the socket and the plug would close no cycle, for there is one already. -/
theorem not_closes (h : ws.Hosts c p x) (hac : ws.graph.Acyclic) : ¬ ws.Closes c p := by
  obtain ⟨w, v, hl, -⟩ := h.link
  rintro ⟨y, z, hy, hz, -, hbranch⟩
  obtain rfl : w = y.wire := Option.some.inj (hl.socket.symm.trans (wire_of_connection hy))
  obtain rfl : v = z.wire := Option.some.inj (hl.plug.symm.trans (wire_of_connection hz))
  have hunder : ws.graph.Under z.block y.block := hl.under
  rcases hbranch with heq | hbelow
  · exact hac z.block (.single (heq ▸ hunder))
  · exact hac z.block (.head hunder hbelow)

end Hosts

/-! ### A socket gets its placeholder -/

theorem Grafts.hangs (h : ws.Grafts u s child t) : t.graph.Hangs s child := by
  obtain ⟨p, v, ht, hstep⟩ := h.step
  obtain ⟨w, z, hm, -, -, hz⟩ := ht.mates
  have hl := Graph.tie_link hm
  rw [← ht.graph, ← hstep.graph] at hl
  exact ⟨p, _, _, hl, hz⟩

theorem Grafts.isPlaceholder (h : ws.Grafts u s child t) (hmark : u.isPlaceholder x) :
    t.isPlaceholder x := by
  obtain ⟨p, v, ht, hstep⟩ := h.step
  rw [hstep.drifts.isPlaceholder, Workspace.isPlaceholder, ht.blocks]
  exact hmark

theorem Refills.stoodIn (h : ws.Refills c t) (hfree : ws.targetOf c = none)
    (htemplate : ws.templateAt c = some (some template)) : t.StoodIn c := by
  cases h with
  | kept hy hkept =>
    rw [targetOf_eq hy] at hfree
    rw [templateAt, hy, Option.map_some, Option.some.injEq] at htemplate
    simp [hfree, htemplate] at hkept
  | filled _ _ _ _ _ hmark hgraft => exact ⟨_, hgraft.hangs, hgraft.isPlaceholder hmark⟩

theorem Refills.present (h : ws.Refills c t) : ∃ y, ws.connections[c]? = some y := by
  cases h with
  | kept hy => exact ⟨_, hy⟩
  | filled hy => exact ⟨_, hy⟩

theorem Frees.stoodIn (h : ws.Frees d t) (hs : ws.Sound) (hhost : ws.Hosts c p x)
    (hd : d = c ∨ d = p) : t.StoodIn c := by
  have hlink := hhost.link?_eq hs hd
  obtain ⟨template, htemplate⟩ := hhost.template
  cases h with
  | kept hnone =>
    rw [hlink] at hnone
    cases hnone
  | cut hsome hcut hrefill =>
    rw [hlink] at hsome
    cases hsome
    exact hrefill.stoodIn hcut.targetOf_socket ((hcut.templateAt c).trans htemplate)

/-- What is in one socket stays when another one is emptied. -/
theorem Cuts.stoodIn (h : ws.Cuts s p child t) (hs : ws.Sound) (hin : ws.StoodIn c)
    (hne : c ≠ s) : t.StoodIn c := by
  obtain ⟨w, v, hl, -⟩ := h.link
  obtain ⟨a, ha, hmark⟩ := hin
  refine ⟨a, ?_, ?_⟩
  · rw [h.graph]
    exact (Graph.hangs_cut hs.wired hl).mpr ⟨ha, hne⟩
  · rwa [isPlaceholder, h.blocks]

/-- To pull a block out of its socket makes a placeholder of it, and the statement below the block
does not take the place of that. -/
theorem Pulls.stoodIn (h : ws.Pulls x heal t) (hs : ws.Sound) (hhost : ws.Hosts c p x) :
    t.StoodIn c := by
  cases h with
  | value hb ho hfree =>
    exact hfree.stoodIn hs hhost (Or.inr (hhost.plug_eq hs hb (mem_plugs.mpr (Or.inl ho))))
  | root hb ho hprevious =>
    have hp := hhost.mem_plugs hs hb
    rw [mem_plugs, ho, hprevious] at hp
    rcases hp with hp | hp <;> cases hp
  | statement hb _ hprevious hfree =>
    exact hfree.stoodIn hs hhost (Or.inr (hhost.plug_eq hs hb (mem_plugs.mpr (Or.inr hprevious))))
  | @healed b previous next u t hb _ hprevious hfree _ hnext hheal =>
    have hp : previous = p := hhost.plug_eq hs hb (mem_plugs.mpr (Or.inr hprevious))
    have hin : u.StoodIn c := hfree.stoodIn hs hhost (Or.inr hp)
    have hne : c ≠ next := hhost.ne_socket hs hb (mem_sockets.mpr (Or.inr hnext))
    cases hheal with
    | stays => exact hin
    | left hcut => exact hcut.stoodIn (hfree.sound hs) hin hne
    | healed habove hcut _ hempty =>
      -- The socket above is the one that was left, and it is taken.
      have htarget : ws.targetOf previous = some c := by
        obtain ⟨w, v, hl, -⟩ := hhost.link
        obtain ⟨y, hy, rfl⟩ := connection_of_wire hl.plug
        rw [hp, targetOf_eq hy]
        exact hl.up hs.wired
      rw [htarget, Option.some.injEq] at habove
      subst habove
      obtain ⟨a, ⟨q, w, v, hl, -⟩, -⟩ := hcut.stoodIn (hfree.sound hs) hin hne
      obtain ⟨y, hy, rfl⟩ := connection_of_wire hl.socket
      rw [targetOf_eq hy] at hempty
      have hdown : y.target = some q := hl.down
      rw [hdown] at hempty
      cases hempty

theorem Loses.connection_of_kept {keep gone : List Input} {R : List BlockId} {y : Connection α}
    (h : ws.Loses x keep gone R t) (hy : t.connections[c]? = some y)
    (hfree : ws.targetOf c = none) : t.targetOf c = none ∧ t.templateAt c = ws.templateAt c := by
  obtain ⟨-, y₀, hy₀, rfl⟩ := h.old_connection hy
  rw [targetOf_eq hy₀] at hfree
  refine ⟨?_, ?_⟩
  · rw [targetOf_eq hy, hfree]
    rfl
  · rw [templateAt, templateAt, hy, hy₀]
    rfl

theorem Disposes.stoodIn (h : ws.Disposes x t) (hs : ws.Sound) (hhost : ws.Hosts c p x) :
    t.StoodIn c := by
  obtain ⟨w, v, hl, hv⟩ := hhost.link
  obtain ⟨template, htemplate⟩ := hhost.template
  cases h with
  | root hloose =>
    have hfree := hloose p v hl.plug hv (hl.isPlug hs.wired)
    rw [hl.up hs.wired] at hfree
    cases hfree
  | child hcut hfell hrefill =>
    obtain ⟨w', v', hl', hv'⟩ := hcut.link
    obtain rfl := hl.same_socket hs.wired hl' (hv.trans hv'.symm)
    obtain ⟨b, R, -, hloses, -⟩ := hfell.step
    obtain ⟨y, hy⟩ := hrefill.present
    have hkept := hloses.connection_of_kept hy hcut.targetOf_socket
    exact hrefill.stoodIn hkept.1 (hkept.2.trans ((hcut.templateAt c).trans htemplate))

/-! ### A socket keeps its placeholder -/

/-- What is in one socket stays when another one is vacated, if the socket itself stays. -/
theorem Evicts.stoodIn {y : Connection α} (h : ws.Evicts s o t) (hs : ws.Sound)
    (hin : ws.StoodIn c) (hne : c ≠ s) (hy : t.connections[c]? = some y) : t.StoodIn c := by
  cases h with
  | free => exact hin
  | moved hcut => exact hcut.stoodIn hs hin hne
  | @stored _ _ _ _ R u _ hcut _ _ _ hloses hseals hendow =>
    obtain ⟨a, ⟨q, w, v, hl, rfl⟩, hmark⟩ := hcut.stoodIn hs hin hne
    rw [hendow.connections, Option.map_eq_some_iff] at hy
    obtain ⟨z, hz, -⟩ := hy
    obtain ⟨halive, -⟩ := hloses.old_connection hz
    have hkept : v.block ∉ R := by
      intro hgone
      rw [hloses.hangs hl hgone] at halive
      cases halive
    obtain ⟨v', hl', hv'⟩ := hloses.link_of_kept (hcut.sound hs) hseals hl hkept
    refine ⟨v.block, ⟨q, w, v', ?_, hv'⟩, ?_⟩
    · rwa [hendow.graph]
    · obtain ⟨b, hb⟩ := live_of_hangs (hcut.sound hs) ⟨q, w, v, hl, rfl⟩
      have hb' := hloses.kept v.block hkept
      rw [hb, Option.map_some] at hb'
      rw [isPlaceholder, hendow.blocks, ← isPlaceholder, isPlaceholder_congr hb hb' ?_]
      · exact hmark
      · split <;> rfl

theorem Ties.stoodIn (h : ws.Ties s p child t) (hs : ws.Sound) (hin : ws.StoodIn c) :
    t.StoodIn c := by
  obtain ⟨a, ha, hmark⟩ := hin
  obtain ⟨w, v, hm, hw, hv, -⟩ := h.mates
  refine ⟨a, ?_, ?_⟩
  · rw [h.graph]
    exact (Graph.hangs_tie hs.wired hm hw hv).mpr (Or.inl ha)
  · rwa [isPlaceholder, h.blocks]

/-- Plugging in makes no connections, and none changes hands. -/
theorem Seats.old {y' : Connection α} (h : ws.Seats s p child o t)
    (hy' : t.connections[c]? = some y') :
    ∃ y, ws.connections[c]? = some y ∧ y'.block = y.block ∧ y'.kind = y.kind := by
  obtain ⟨u, v, hevict, htie, hstep⟩ := h
  obtain ⟨y, hy, hsame⟩ := hstep.symm_connection hy'
  rw [htie.connections, Option.map_eq_some_iff] at hy
  obtain ⟨z, hz, rfl⟩ := hy
  obtain ⟨y₀, hy₀, hblock, hkind⟩ := hevict.owner hz
  have htwins := Connection.twins_of_unplaced hsame
  refine ⟨y₀, hy₀, ?_, ?_⟩
  · rw [← htwins.block, ← hblock]
    split
    · rfl
    · split <;> rfl
  · rw [← htwins.kind, ← hkind]
    split
    · rfl
    · split <;> rfl

theorem Seats.stoodIn {y : Connection α} (h : ws.Seats s p child o t) (hs : ws.Sound)
    (hin : ws.StoodIn c) (hne : c ≠ s) (hy : t.connections[c]? = some y) : t.StoodIn c := by
  obtain ⟨u, v, hevict, htie, hstep⟩ := h
  obtain ⟨z, hz, -⟩ := hstep.symm_connection hy
  rw [htie.connections, Option.map_eq_some_iff] at hz
  obtain ⟨z, hz, -⟩ := hz
  have hu := hevict.stoodIn hs hin hne hz
  exact (htie.stoodIn (hevict.sound hs) hu).drifts hstep.drifts

/-- A block carries nothing more when it was plugged in. -/
theorem Seats.branch_of (h : ws.Seats s p child o t) (hs : ws.Sound) (hx : t.Branch child x) :
    ws.Branch child x := by
  obtain ⟨u, v, hevict, htie, hstep⟩ := h
  rw [Branch, hstep.graph] at hx
  exact (htie.branch (hevict.sound hs) hx).mono fun _ _ => hevict.under_of hs

/-- The orphan finds its place below the block that pushed it out, and nowhere else. -/
theorem Settles.stoodIn {o : Edit.Orphan} {y : Connection α} (h : ws.Settles child o t)
    (hs : ws.Sound) (hl : ws.Live child) (hin : ws.StoodIn c)
    (hout : ∀ z, ws.connections[c]? = some z → ¬ ws.Branch child z.block)
    (hy : t.connections[c]? = some y) : t.StoodIn c := by
  rcases h.cases hs hl with ⟨-, hdrift⟩ | ⟨home, -, hvacant, hseat⟩
  · exact hin.drifts hdrift
  · refine hseat.stoodIn hs hin ?_ hy
    rintro rfl
    obtain ⟨z, hz, -, hbranch⟩ := hvacant.socket
    exact hout z hz hbranch

/-- A block that leaves its socket does not carry the owner of that. -/
theorem Frees.not_branch {z : Connection α} (h : ws.Frees p t) (hs : ws.Sound)
    (hac : ws.graph.Acyclic) (hhost : ws.Hosts c p x) (hz : t.connections[c]? = some z) :
    ¬ t.Branch x z.block := by
  obtain ⟨w, v, hl, hv⟩ := hhost.link
  obtain ⟨hready, hclear⟩ := h.ready hs hac ⟨w, v, hl.mates hs.wired, hv⟩ (hhost.not_closes hac)
  obtain ⟨w', v', hm, hv'⟩ := hready.poised
  obtain rfl : w' = z.wire := Option.some.inj (hm.socket.symm.trans (wire_of_connection hz))
  obtain ⟨y, hy, rfl⟩ := connection_of_wire hm.plug
  intro hbranch
  have howner : y.block = x := hv'
  exact hclear ⟨z, y, hz, hy, hm.isSocket, howner ▸ hbranch⟩

/-- A block that is linked elsewhere leaves a placeholder behind, unless its socket is taken away
together with a placeholder that makes room. -/
theorem Joins.stoodIn {y : Connection α} (h : ws.Joins s p t) (hs : ws.Sound)
    (hac : ws.graph.Acyclic) (hpoised : ws.graph.Poised s p x) (hclear : ¬ ws.Closes s p)
    (hhost : ws.Hosts c p x) (hne : c ≠ s) (hy : t.connections[c]? = some y) : t.StoodIn c := by
  cases h with
  | already hz htarget =>
    obtain ⟨w, v, hl, -⟩ := hhost.link
    obtain ⟨z, hz', hback, -⟩ := hs.target hz htarget
    obtain rfl : v = z.wire := Option.some.inj (hl.plug.symm.trans (wire_of_connection hz'))
    have hup : z.target = some c := hl.up hs.wired
    rw [hback, Option.some.injEq] at hup
    exact (hne hup.symm).elim
  | only _ hfree hseat =>
    exact hseat.stoodIn (hfree.sound hs) (hfree.stoodIn hs hhost (Or.inr rfl)) hne hy
  | @swapped z o u m _ hz hfree hseat hsettle =>
    have hu := hfree.sound hs
    have hchild : z.block = x := by
      obtain ⟨_, v', hm, hv'⟩ := hpoised
      obtain rfl : v' = z.wire := Option.some.inj (hm.plug.symm.trans (wire_of_connection hz))
      exact hv'
    rw [hchild] at hseat hsettle
    obtain ⟨hready, hclear'⟩ := hfree.ready hs hac hpoised hclear
    obtain ⟨hsound, -, hlive, -⟩ := hseat.seated hready hclear'
    obtain ⟨z', hz'⟩ : ∃ z', m.connections[c]? = some z' := by
      rcases hsettle.cases hsound hlive with ⟨-, hdrift⟩ | ⟨home, -, -, hseat'⟩
      · obtain ⟨z', hz', -⟩ := hdrift.symm_connection hy
        exact ⟨z', hz'⟩
      · obtain ⟨z', hz', -⟩ := hseat'.old hy
        exact ⟨z', hz'⟩
    have hin := hseat.stoodIn hu (hfree.stoodIn hs hhost (Or.inr rfl)) hne hz'
    refine hsettle.stoodIn hsound hlive hin (fun z₁ hz₁ hbranch => ?_) hy
    obtain ⟨z₀, hz₀, hblock, -⟩ := hseat.old hz₁
    exact hfree.not_branch hs hac hhost hz₀ (hblock ▸ hseat.branch_of hu hbranch)

theorem Links.stoodIn {a e : ConnectionId} {y : Connection α} (h : ws.Links a e t) (hs : ws.Sound)
    (hac : ws.graph.Acyclic) (hclear : ¬ ws.Closes a e) (hclear' : ¬ ws.Closes e a)
    (hhost : ws.Hosts c p x) (hends : a = p ∧ e ≠ c ∨ e = p ∧ a ≠ c)
    (hy : t.connections[c]? = some y) : t.StoodIn c := by
  obtain ⟨s, q, child, hpair, hpoised, hjoin⟩ := h
  obtain ⟨w, v, hl, hv⟩ := hhost.link
  obtain ⟨w', v', hm, hv'⟩ := hpoised
  have hsocket : s ≠ p := by
    rintro rfl
    obtain rfl : w' = v := Option.some.inj (hm.socket.symm.trans hl.plug)
    have hk := hl.isPlug hs.wired
    rw [ConnectionKind.isPlug_eq_not, hm.isSocket] at hk
    cases hk
  obtain ⟨rfl, hne, hsq⟩ : q = p ∧ c ≠ s ∧ ¬ ws.Closes s q := by
    rcases hpair with ⟨rfl, rfl⟩ | ⟨rfl, rfl⟩
    · rcases hends with ⟨rfl, -⟩ | ⟨rfl, hne⟩
      · exact (hsocket rfl).elim
      · exact ⟨rfl, hne.symm, hclear⟩
    · rcases hends with ⟨rfl, hne⟩ | ⟨rfl, -⟩
      · exact ⟨rfl, hne.symm, hclear'⟩
      · exact (hsocket rfl).elim
  obtain rfl : v' = v := Option.some.inj (hm.plug.symm.trans hl.plug)
  exact hjoin.stoodIn hs hac ⟨w', v', hm, hv⟩ hsq hhost hne hy

/-! ### Picking up -/

theorem Hosts.congr (h : ws.Hosts c p x) (hgraph : t.graph = ws.graph)
    (htemplate : t.templateAt c = ws.templateAt c) : t.Hosts c p x where
  link := by
    rw [hgraph]
    exact h.link
  template := by
    rw [htemplate]
    exact h.template

/-- The template that a drag stores is none that was there. -/
theorem Bares.hosts (h : ws.Bares b session real) (hb : ws.blocks[session.block]? = some b)
    (hhost : ws.Hosts c p x) : real.Hosts c p x := by
  refine hhost.congr (h.graph hb) ?_
  cases h with
  | real => rfl
  | told => rfl
  | @given e v _ _ _ _ _ hnone hendow =>
    have hne : c ≠ e := by
      rintro rfl
      obtain ⟨template, htemplate⟩ := hhost.template
      rw [hnone] at htemplate
      cases htemplate
    have hkept := hendow.templateAt c
    rw [if_neg hne] at hkept
    exact hkept

/-- The copy that is left is in the socket of the block. -/
theorem Leaves.hangs [Scalar α] {k : BlockId} (h : ws.Leaves heal s p x k t) : t.graph.Hangs s k := by
  obtain ⟨u, v, q, w, b, -, -, -, -, hseat, hb, rfl⟩ := h.steps
  obtain ⟨w', v', hl, hv⟩ := hseat.link
  have hroles : Block.roles { b with copyOnDrag := some false } = b.roles := rfl
  have hgraph := graph_insert hb hroles
  exact ⟨q, w', v', by rwa [hgraph], hv⟩

/-- The actions that take the block `x` out of the socket `c`, in which it is with its plug `p`. -/
inductive Vacates [Scalar α] (ws : Workspace α) (c p : ConnectionId) (x : BlockId) :
    Action α → Prop
  | disconnect {d : ConnectionId} : d = c ∨ d = p → Vacates ws c p x (.disconnect d)
  | pullOut (heal : Bool) : Vacates ws c p x (.pullOut x heal)
  | dispose : Vacates ws c p x (.dispose x)
  | connect {a b : ConnectionId} : a = p ∧ b ≠ c ∨ b = p ∧ a ≠ c →
      Vacates ws c p x (.connect a b)
  | pickUp {block : BlockId} {offset : Point α} (heal : Bool) :
      ws.dragTarget block = .ok (x, offset) → Vacates ws c p x (.pickUp block heal)

end Workspace

namespace Edit

open Workspace

theorem discardCopy_stoodIn [Scalar α] {ws : Workspace α} {c p : ConnectionId} {x : BlockId}
    (hs : ws.Sound) (hhost : ws.Hosts c p x) :
    Leads (· = ws) (discardCopy x) (fun _ t => t.StoodIn c) fun _ => True := by
  have hlive : ws.hasBlock x := hasBlock_iff.mpr (live_of_hangs hs hhost.hangs)
  refine Leads.bind (Leads.get (Q := fun now t => now = t ∧ t = ws) fun _ h => ⟨rfl, h⟩)
    fun now => ?_
  refine Leads.ite (fun _ => ?_) fun hnot => Leads.pure ?_
  · refine (dispose_disposes hs x).weaken (fun _ h => h.2) ?_ fun _ _ => trivial
    exact fun _ t h => h.stoodIn hs hhost
  · rintro t ⟨rfl, rfl⟩
    exact (hnot hlive).elim

end Edit

namespace Act

open Workspace

variable [Scalar α] {ws : Workspace α} {block x : BlockId} {heal : Bool} {c p : ConnectionId}
  {e : Editor α}

/-- The session that is under way has left a copy of its block in the socket. -/
def CopyIn (c : ConnectionId) (e : Editor α) : Prop :=
  ∃ s k, e.session = some s ∧ s.copy = some k ∧ e.workspace.graph.Hangs c k

theorem Started.stoodIn (h : Started ws block heal x e) (hs : ws.Sound)
    (hhost : ws.Hosts c p x) : e.workspace.StoodIn c ∨ CopyIn c e := by
  obtain ⟨offset, b, s, u, v, -, ⟨log, rfl⟩, hb, hloosened, hrest, hsession⟩ := h
  have hdrift := hrest.toDrifts
  have hs' : Workspace.Sound { ws with events := log } := (drifts_aside ws log ws.tasks).sound hs
  have hhost' : Workspace.Hosts { ws with events := log } c p x := hhost.congr rfl rfl
  cases hloosened with
  | still _ hloose =>
    obtain ⟨w, v, hl, hv⟩ := hhost'.link
    have hfree := hloose p v hl.plug hv (hl.isPlug hs'.wired)
    rw [hl.up hs'.wired] at hfree
    cases hfree
  | @detached keeps d d' real t _ _ hprimed hout =>
    have hx : d.block = x := by
      rw [hprimed.session]
      rfl
    have hb' := hb
    rw [← hx] at hb'
    have hreal := hprimed.bares.sound hs' hb'
    have hin := hprimed.bares.hosts hb' hhost'
    generalize copySocket { ws with events := log } b keeps = copied at hout
    cases hout with
    | bare hpull => exact Or.inl ((hpull.stoodIn hreal (hx ▸ hin)).drifts hdrift)
    | @copied s' q k t hleaves =>
      refine Or.inr ⟨_, k, hsession, rfl, ?_⟩
      rw [hdrift.graph]
      obtain ⟨u, -, -, -, -, ⟨-, hparted, -⟩, -⟩ := hleaves.steps
      obtain ⟨m, hcut, -⟩ := hparted.cut
      obtain ⟨w, v, hl, hv⟩ := hin.link
      obtain ⟨w', v', hl', hv'⟩ := hcut.link
      obtain rfl := hl.same_socket hreal.wired hl' (hv.trans (hx.symm.trans hv'.symm))
      exact hleaves.hangs

end Act

namespace Editor

open Workspace

section Vacated

variable [Scalar α] {config : EditorConfig α} {registry : Registry} {e t : Editor α}
  {actions : List (Action α)} {a : Action α} {c p : ConnectionId} {x : BlockId}

theorem start_whole (hone : registry.OnePlug) (hstart : create config registry = .ok e) :
    Steady Whole ∅ e.workspace := by
  obtain ⟨-, rfl⟩ := create_eq_ok hstart
  refine ⟨empty_sound hone, fun c _ y b i z hb => ?_⟩
  simp [fresh] at hb

/-- What is in a socket after an action has taken a block out of it. Only a drag may leave a copy,
and only a link may take away the socket as well. -/
inductive Refilled (c : ConnectionId) (t : Editor α) : Action α → Prop
  | stoodIn {a : Action α} : t.workspace.StoodIn c → Refilled c t a
  | copied {block : BlockId} {heal : Bool} : Act.CopyIn c t → Refilled c t (.pickUp block heal)
  | gone {a b : ConnectionId} : t.workspace.connections[c]? = none → Refilled c t (.connect a b)

theorem vacate_refills (hs : e.workspace.Sound) (hac : e.workspace.graph.Acyclic)
    (hroot : e.workspace.Rooted) (hhost : e.workspace.Hosts c p x)
    (ha : e.workspace.Vacates c p x a) (hclear : e.workspace.Clear a) :
    Leads (· = e) (perform a) (fun _ t => Refilled c t a) fun _ => True := by
  have start : ∀ s : Editor α, s = e → s.workspace = e.workspace := by
    rintro _ rfl
    rfl
  cases ha with
  | @disconnect d hd =>
    refine (Act.edit_leads (Edit.disconnect_frees hs d)).weaken start ?_ fun _ _ => trivial
    exact fun _ t h => .stoodIn (h.stoodIn hs hhost hd)
  | pullOut heal =>
    refine (Act.edit_leads (Edit.pullOut_pulls hs hac x heal)).weaken start ?_ fun _ _ => trivial
    exact fun _ t h => .stoodIn (h.stoodIn hs hhost)
  | dispose =>
    refine (Act.edit_leads (Edit.dispose_disposes hs x)).weaken start ?_ fun _ _ => trivial
    exact fun _ t h => .stoodIn (h.stoodIn hs hhost)
  | @connect a b hends =>
    have hlink := (Edit.connect_links hs hac hclear.1 hclear.2).weaken (fun _ h => h)
      (fun _ _ h => h) fun _ _ _ => trivial
    refine (Act.edit_leads hlink).weaken start (fun _ t h => ?_) fun _ _ => trivial
    cases hy : t.workspace.connections[c]? with
    | none => exact .gone hy
    | some y => exact .stoodIn (h.stoodIn hs hac hclear.1 hclear.2 hhost hends hy)
  | @pickUp block offset heal htarget =>
    refine Leads.bind (Leads.weaken (Act.pickUp_tells hs hac hroot block heal) (fun _ h => h)
      (fun _ _ h => h) fun _ _ => trivial) fun target => Leads.pure ?_
    rintro t ⟨-, hstarted⟩
    obtain ⟨offset', b, s, u, v, htarget', hrest⟩ := id hstarted
    have hsame := htarget'.1
    rw [htarget, Except.ok.injEq, Prod.mk.injEq] at hsame
    obtain ⟨rfl, -⟩ := hsame
    rcases hstarted.stoodIn hs hhost with hin | hcopy
    · exact .stoodIn hin
    · exact .copied hcopy

/-- In a run of which nothing is refused no input with a template is ever empty. Whatever action
takes a block out of a socket that has a template, something has taken its place when the action is
over: a placeholder, or the copy that a drag leaves. When a drag is given up, a placeholder takes the
place of the copy first. -/
theorem run_filled (hone : registry.OnePlug) (hstart : create config registry = .ok e)
    (hlast : Lasts (e.run actions)) (haccepted : e.Accepted actions)
    (hacyclic : e.StaysAcyclic actions) :
    (∀ c, (e.run actions).workspace.Full c) ∧
    ∀ c p x, (e.run actions).workspace.Hosts c p x →
      (∀ a, (e.run actions).workspace.Vacates c p x a → (e.run actions).workspace.Clear a →
        (e.run actions).accepts a → Lasts ((e.run actions).after a) →
          Refilled c ((e.run actions).after a) a) ∧
      ∀ t, Act.edit (Edit.discardCopy x) (e.run actions) = .ok () t → Lasts t →
        t.workspace.StoodIn c := by
  have hsound := run_wired hone hstart hlast
  have hac := hacyclic actions List.prefix_rfl
  refine ⟨fun c => ?_, fun c p x hhost => ⟨fun a ha hclear haccept hlast' => ?_, ?_⟩⟩
  · have hwhole := run_accepted stable_whole (start_whole hone hstart) hlast False.elim haccepted
    exact hwhole.keeps c (Set.notMem_empty c)
  · exact after_of_accepts (vacate_refills hsound hac (run_rooted hone hstart hlast) hhost ha hclear)
      haccept hlast'
  · intro t hdiscard hlast'
    exact (Act.edit_leads (Edit.discardCopy_stoodIn hsound hhost)).ok hdiscard hlast' rfl

end Vacated

/-- A name is returned by a statement, where it has taken the place of a placeholder. A drag of it
leaves a copy. -/
def namePlaced : List (Action Int) :=
  [.newBlock "Return", .setTemplate ⟨1⟩ (some (.ofType "int")), .newBlock "Name",
    .connect ⟨1⟩ ⟨3⟩, .setCopyOnDrag ⟨2⟩ (some true)]

theorem run_filled_name :
    (∀ c, ((fresh (.standard : EditorConfig Int) Palette.registry).run namePlaced).workspace.Full c) ∧
    Refilled ⟨1⟩ (((fresh (.standard : EditorConfig Int) Palette.registry).run namePlaced).after
      (.dispose ⟨2⟩)) (.dispose ⟨2⟩) ∧
    ∃ t, Act.edit (Edit.discardCopy ⟨2⟩) ((fresh (.standard : EditorConfig Int)
      Palette.registry).run namePlaced) = .ok () t ∧ t.workspace.StoodIn ⟨1⟩ := by
  have haccepted : (fresh (.standard : EditorConfig Int) Palette.registry).Accepted namePlaced :=
    accepted_of_acceptsAll (by decide +kernel)
  have hrun := run_filled Palette.registry_onePlug (create_fresh (by decide)) (by decide +kernel)
    haccepted (staysAcyclic_of_ordered (by decide +kernel))
  have hname := hrun.2 ⟨1⟩ ⟨3⟩ ⟨2⟩ (hosts_of_any (by decide +kernel) (by decide +kernel))
  have hdiscard : Act.edit (Edit.discardCopy ⟨2⟩) ((fresh (.standard : EditorConfig Int)
      Palette.registry).run namePlaced) = .ok () _ := Act.eq_ok_of_answer (by decide +kernel)
  exact ⟨hrun.1, hname.1 _ .dispose trivial (by decide +kernel) (by decide +kernel), _, hdiscard,
    hname.2 _ hdiscard (by decide +kernel)⟩

/-- What a drag of the name leaves in its place is a name again. -/
theorem pickUp_leaves_copy :
    (fresh (.standard : EditorConfig Int) Palette.registry).Accepted
      (namePlaced ++ [.pickUp ⟨2⟩ false]) ∧
    (fresh (.standard : EditorConfig Int) Palette.registry).StaysAcyclic
      (namePlaced ++ [.pickUp ⟨2⟩ false]) ∧
    ((fresh (.standard : EditorConfig Int) Palette.registry).run namePlaced).workspace.Hosts
      ⟨1⟩ ⟨3⟩ ⟨2⟩ ∧
    ((fresh (.standard : EditorConfig Int) Palette.registry).run
      (namePlaced ++ [.pickUp ⟨2⟩ false])).workspace.across ⟨1⟩ = some ⟨4⟩ ∧
    ¬ ((fresh (.standard : EditorConfig Int) Palette.registry).run
      (namePlaced ++ [.pickUp ⟨2⟩ false])).workspace.StoodIn ⟨1⟩ := by
  have hcopy : ((fresh (.standard : EditorConfig Int) Palette.registry).run
      (namePlaced ++ [.pickUp ⟨2⟩ false])).workspace.across ⟨1⟩ = some ⟨4⟩ := by decide +kernel
  refine ⟨accepted_of_acceptsAll (by decide +kernel), staysAcyclic_of_ordered (by decide +kernel),
    hosts_of_any (by decide +kernel) (by decide +kernel), hcopy, fun hin => ?_⟩
  obtain ⟨a, ha, hmark⟩ := hin.across
  rw [hcopy, Option.some.injEq] at ha
  subst ha
  exact absurd hmark (by decide +kernel)

end Editor

end BlockEditor
