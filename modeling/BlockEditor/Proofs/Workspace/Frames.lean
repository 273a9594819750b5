import BlockEditor.Proofs.Reuniting

/-!
# What a change of links leaves alone

To cut a link or to make one changes what its two ends are linked to, and whose the ends are never
changes. A block that carries neither the socket nor what leaves it keeps its whole branch.
-/

namespace BlockEditor

variable {α : Type}

theorem Block.sockets_of_looks {b b' : Block α} (h : b'.looks = b.looks) : b'.sockets = b.sockets := by
  rw [Block.eq_of_looks h]
  rfl

namespace Workspace

variable {ws t : Workspace α} {x : BlockId} {c s p : ConnectionId}

/-- The block that an end belongs to. -/
def ownerOf (ws : Workspace α) (c : ConnectionId) : Option BlockId :=
  (ws.connections[c]?).map (·.block)

theorem across_eq (ws : Workspace α) (c : ConnectionId) :
    ws.across c = (ws.targetOf c).bind ws.ownerOf :=
  rfl

theorem ownerOf_congr (h : t.graph = ws.graph) : t.ownerOf = ws.ownerOf := by
  funext c
  have hw : (t.graph.wire c).map (·.block) = (ws.graph.wire c).map (·.block) := by rw [h]
  simpa [graph, ownerOf, Option.map_map, Function.comp_def, Connection.wire] using hw

/-- The two ends of a link that is cut are free, and all others are as before. -/
theorem Cuts.targetOf (h : ws.Cuts s p x t) (c : ConnectionId) :
    t.targetOf c = if c = s ∨ c = p then none else ws.targetOf c := by
  unfold Workspace.targetOf
  rw [h.connections]
  cases ws.connections[c]? with
  | none => exact (ite_self none).symm
  | some y =>
    rw [Option.map_some, Option.bind_some, Option.bind_some]
    split <;> rfl

theorem Cuts.ownerOf (h : ws.Cuts s p x t) : t.ownerOf = ws.ownerOf := by
  funext c
  unfold Workspace.ownerOf
  rw [h.connections, Option.map_map]
  congr 1
  funext y
  dsimp only [Function.comp_apply]
  split <;> rfl

/-- The two ends of a new link have each other for a target, and all others are as before. -/
theorem Ties.targetOf (h : ws.Ties s p x t) (c : ConnectionId) :
    t.targetOf c = if c = s then some p else if c = p then some s else ws.targetOf c := by
  obtain ⟨w, v, hm, -⟩ := h.mates
  obtain ⟨y, hy, -⟩ := connection_of_wire hm.socket
  obtain ⟨z, hz, -⟩ := connection_of_wire hm.plug
  unfold Workspace.targetOf
  rw [h.connections]
  by_cases hs : c = s
  · rw [if_pos hs, hs, hy, Option.map_some, Option.bind_some, if_pos rfl]
  by_cases hp : c = p
  · rw [if_neg hs, if_pos hp, hp, hz, Option.map_some, Option.bind_some, if_neg (hp ▸ hs),
      if_pos rfl]
  · rw [if_neg hs, if_neg hp]
    cases ws.connections[c]? with
    | none => rfl
    | some y =>
      rw [Option.map_some, Option.bind_some, Option.bind_some, if_neg hs, if_neg hp]

theorem Ties.ownerOf (h : ws.Ties s p x t) : t.ownerOf = ws.ownerOf := by
  funext c
  unfold Workspace.ownerOf
  rw [h.connections, Option.map_map]
  congr 1
  funext y
  dsimp only [Function.comp_apply]
  split
  · rfl
  · split <;> rfl

/-- A block that is put into a free socket has taken it, and all other ends are as before. -/
theorem Seats.targetOf_of_free {o : Option Edit.Orphan} (h : ws.Seats s p x o t)
    (hfree : ws.targetOf s = none) (c : ConnectionId) :
    t.targetOf c = if c = s then some p else if c = p then some s else ws.targetOf c := by
  obtain ⟨v, hties, hstep⟩ := h.ties hfree
  rw [targetOf_congr hstep.graph, hties.targetOf]

theorem Seats.ownerOf_of_free {o : Option Edit.Orphan} (h : ws.Seats s p x o t)
    (hfree : ws.targetOf s = none) : t.ownerOf = ws.ownerOf := by
  obtain ⟨v, hties, hstep⟩ := h.ties hfree
  rw [ownerOf_congr hstep.graph, hties.ownerOf]

theorem ownerOf_eq_some : ws.ownerOf c = some x ↔ ∃ y, ws.connections[c]? = some y ∧ y.block = x :=
  Option.map_eq_some_iff

/-! ### Branches -/

variable {u : Workspace α} {y r : BlockId} {o : Option Edit.Orphan}

/-- Nothing comes to hang in a branch that looks the same. -/
theorem Agrees.under_of (h : Agrees r ws t) (hs : ws.Sound) (ht : t.Sound) (hx : ws.Branch r x)
    (hlive : ws.Live x) (hu : t.graph.Under y x) : ws.graph.Under y x := by
  obtain ⟨b, hb⟩ := hlive
  have hbelow := h.below hx
  obtain ⟨b', hb', hlooks⟩ := hbelow.block hb
  obtain ⟨s, p, w, v, hl, rfl, rfl⟩ := hu
  obtain ⟨z, hz, rfl⟩ := connection_of_wire hl.socket
  have hin : s ∈ b.sockets := by
    rw [← Block.sockets_of_looks hlooks]
    exact ht.mem_sockets_of hz hl.isSocket hb'
  have hacross := hbelow.across hs hb hin
  rw [across_of_link hl] at hacross
  exact hs.under_of_across hb hin hacross.symm

theorem Agrees.branch_iff (h : Agrees r ws t) (hs : ws.Sound) (ht : t.Sound) (hr : ws.Live r) :
    t.Branch r x ↔ ws.Branch r x := by
  refine ⟨fun hx => ?_, h.branch⟩
  obtain ⟨b, hb⟩ := hr
  rcases hx with rfl | hx
  · exact branch_self ws x
  induction hx using Relation.TransGen.head_induction_on with
  | single hu => exact branch_of_under (h.under_of hs ht (branch_self ws r) ⟨b, hb⟩ hu) (branch_self ws r)
  | head hu _ ih => exact branch_of_under (h.under_of hs ht ih (hs.live_of_branch hb ih) hu) ih

/-- The socket of a link is not in the branch that hangs there. -/
theorem outside_of_link {w v : Wire} {z : Connection α} (hl : ws.graph.Link s p w v)
    (hac : ws.graph.Acyclic) (hz : ws.connections[s]? = some z) : ¬ ws.Branch v.block z.block := by
  have hw := hl.socket
  rw [wire_of_connection hz, Option.some.injEq] at hw
  have hunder : ws.graph.Under v.block z.block := ⟨s, p, w, v, hl, rfl, hw ▸ rfl⟩
  rintro (heq | hbelow)
  · rw [show z.block = v.block from heq] at hunder
    exact hac _ (.single hunder)
  · exact hac _ (.head hunder hbelow)

/-- A branch without the socket stays as it is when the socket is emptied, and perhaps filled anew. -/
theorem Cuts.agrees_extends (h : ws.Cuts s p x u) (he : Extends {s} u t) (hs : ws.Sound)
    (hr : ws.Live r) (hout : ∀ z, ws.connections[s]? = some z → ¬ ws.Branch r z.block) :
    Agrees r ws t := by
  have hcut : Agrees r ws u := h.agrees hs hout
  obtain ⟨b, hb⟩ := hr
  obtain ⟨b', hb', -⟩ := hcut.block hb
  refine hcut.trans (he.agrees (h.sound hs) ⟨b', hb'⟩ ?_)
  rintro c rfl y hy hbranch
  have howner : ws.ownerOf c = some y.block := by
    rw [← h.ownerOf]
    exact ownerOf_eq_some.mpr ⟨y, hy, rfl⟩
  obtain ⟨y₀, hy₀, hyb⟩ := ownerOf_eq_some.mp howner
  refine hout y₀ hy₀ ?_
  rw [hyb]
  exact hbranch.mono fun _ _ => h.under_of hs

/-- A branch is left alone when a socket outside of it is emptied, if it does not leave as well. -/
theorem Evicts.agrees (h : ws.Evicts s o t) (hs : ws.Sound)
    (hout : ∀ y, ws.connections[s]? = some y → ¬ ws.Branch r y.block)
    (hkept : ∀ z, ws.across s = some z → ¬ ws.Branch z r) : Agrees r ws t := by
  cases h with
  | free => exact .refl r ws
  | moved hc => exact hc.agrees hs hout
  | @stored q z b template R u _ hc hb _ _ hl _ he =>
    have hu := hc.sound hs
    obtain ⟨w, v, hlink, rfl⟩ := hc.link
    have hz : ¬ u.Branch v.block r := by
      obtain ⟨y, hy, rfl⟩ := connection_of_wire hlink.socket
      refine fun hbranch => hkept v.block ?_ (hbranch.mono fun _ _ => hc.under_of hs)
      exact across_of_link hlink
    have hloose : u.graph.Loose v.block := hc.loose_child hs
    have hcut : Agrees r ws u := hc.agrees hs hout
    have hlost : Agrees r u (u.removeTree v.block) := hl.agrees hb hu fun x hx hR =>
      hz (hu.branch_of_loose hloose (hl.below x hR) hx)
    refine (hcut.trans hlost).trans (agrees_template he.blocks he.connections ?_)
    intro y hy hbranch
    obtain ⟨-, y₁, hy₁, rfl⟩ := hl.old_connection hy
    have howner : u.ownerOf s = ws.ownerOf s := by rw [hc.ownerOf]
    obtain ⟨y₀, hy₀, hy₀b⟩ := ownerOf_eq_some.mp (howner ▸ ownerOf_eq_some.mpr ⟨y₁, hy₁, rfl⟩)
    refine hout y₀ hy₀ ?_
    rw [hy₀b]
    exact (hbranch.mono fun _ _ => hl.under hu).mono fun _ _ => hc.under_of hs

/-- A branch is left alone when something is plugged in outside of it, if it does not leave. -/
theorem Seats.agrees_of (h : ws.Seats s p x o t) (hs : ws.Sound)
    (hout : ∀ y, ws.connections[s]? = some y → ¬ ws.Branch r y.block)
    (hkept : ∀ z, ws.across s = some z → ¬ ws.Branch z r) : Agrees r ws t := by
  obtain ⟨u, v, he, ht, hstep⟩ := h
  have hevict : Agrees r ws u := he.agrees hs hout hkept
  have htie : Agrees r u v := ht.agrees fun y hy hbranch => by
    obtain ⟨y₀, hy₀, hb, -⟩ := he.owner hy
    rw [hb] at hbranch
    exact hout y₀ hy₀ (hbranch.mono fun _ _ => he.under_of hs)
  exact (hevict.trans htie).trans (hstep.agrees r)

theorem idle_of_targetOf (h : ws.targetOf c = none) : ws.graph.Idle c := by
  intro w hw
  obtain ⟨y, hy, rfl⟩ := connection_of_wire hw
  rw [targetOf_eq hy] at h
  exact h

end Workspace

end BlockEditor
