import BlockEditor.Proofs.Workspace.Extending
import BlockEditor.Proofs.Workspace.Linking

/-!
# Hanging a new block on a socket

A block that was just built hangs on nothing. To plug it into a free socket touches that socket and
new things only.
-/

namespace BlockEditor

variable {α : Type}

namespace Workspace

variable {ws u t ws' : Workspace α} {id child x : BlockId} {c s p : ConnectionId} {b : Block α}
  {C : Set ConnectionId}

theorem plugFor_eq_ok (h : ws.plugFor s child = .ok p) : ∃ x b, ws.connections[s]? = some x ∧
    ws.blocks[child]? = some b ∧ b.plugFor? x.kind = some p := by
  unfold Workspace.plugFor at h
  cases hx : ws.connections[s]? with
  | none => simp [Workspace.connection, hx, bind, Except.bind] at h
  | some x =>
    cases hb : ws.blocks[child]? with
    | none =>
      simp [connection_eq_ok.mpr hx, Workspace.block, hb, bind, Except.bind] at h
    | some b =>
      simp only [connection_eq_ok.mpr hx, block_eq_ok.mpr hb, bind, Except.bind] at h
      refine ⟨x, b, rfl, rfl, ?_⟩
      cases hp : b.plugFor? x.kind with
      | none => simp [hp, throw, throwThe, MonadExceptOf.throw] at h
      | some q =>
        simp only [hp, pure, Except.pure, Except.ok.injEq] at h
        rw [h]

/-- The plug for a socket is of the opposite kind. -/
theorem Sound.plugFor? (hs : ws.Sound) (hb : ws.blocks[child]? = some b) {k : ConnectionKind}
    (h : b.plugFor? k = some p) : ∃ y, ws.connections[p]? = some y ∧ y.block = child ∧
      y.kind = k.opposite ∧ k.isSocket := by
  cases k with
  | inputValue =>
    obtain ⟨y, hy, hyb, hk⟩ := hs.listed hb (r := (p, some .outputValue))
      (mem_roles.mpr (Or.inl ⟨h, rfl⟩))
    exact ⟨y, hy, hyb, Option.some.inj hk, rfl⟩
  | nextStatement =>
    obtain ⟨y, hy, hyb, hk⟩ := hs.listed hb (r := (p, some .previousStatement))
      (mem_roles.mpr (Or.inr (Or.inl ⟨h, rfl⟩)))
    exact ⟨y, hy, hyb, Option.some.inj hk, rfl⟩
  | outputValue => cases h
  | previousStatement => cases h

/-- The block has a plug that goes into the socket. -/
def Welcomes (ws : Workspace α) (s : ConnectionId) (child : BlockId) : Prop :=
  ∃ p, ws.plugFor s child = .ok p ∧ ws.canConnect s p = .ok true

theorem canConnect_eq_ok {on : Bool} (h : ws.canConnect s p = .ok on) :
    ∃ x y, ws.connections[s]? = some x ∧ ws.connections[p]? = some y ∧
      on = (decide (x.block ≠ y.block) && decide (x.kind.opposite = y.kind) && x.fits y) := by
  unfold Workspace.canConnect at h
  cases hx : ws.connections[s]? with
  | none => simp [Workspace.connection, hx, bind, Except.bind] at h
  | some x =>
    cases hy : ws.connections[p]? with
    | none => simp [Workspace.connection, hx, hy, bind, Except.bind] at h
    | some y =>
      simp only [connection_eq_ok.mpr hx, connection_eq_ok.mpr hy, bind, Except.bind, pure,
        Except.pure, Except.ok.injEq] at h
      exact ⟨x, y, rfl, rfl, h.symm⟩

/-- A socket and a plug that may be linked are mates. -/
theorem mates_of_canConnect (h : ws.canConnect s p = .ok true) {x : Connection α}
    (hx : ws.connections[s]? = some x) (hk : x.kind.isSocket) :
    ∃ y, ws.connections[p]? = some y ∧ ws.graph.Mates s p x.wire y.wire := by
  obtain ⟨x', y, hx', hy, hon⟩ := canConnect_eq_ok h
  rw [hx, Option.some.injEq] at hx'
  subst hx'
  replace hon := hon.symm
  rw [Bool.and_eq_true, Bool.and_eq_true, decide_eq_true_eq, decide_eq_true_eq] at hon
  obtain ⟨⟨hne, hop⟩, hfit⟩ := hon
  exact ⟨y, hy, wire_of_connection hx, wire_of_connection hy, hk, hop.symm, hfit,
    fun h => hne h.symm⟩

/-- A block that gets a new parent carries no more than before. -/
theorem Ties.branch (h : u.Ties s p child t) (hs : u.Sound) (hx : t.Branch child x) :
    u.Branch child x := by
  obtain ⟨w, v, hm, hw, hv, rfl⟩ := h.mates
  rcases hx with rfl | hx
  · exact Or.inl rfl
  · have hunder : ∀ a y, t.graph.Under a y → u.Branch v.block y → u.Branch v.block a := by
      intro a y hu hy
      rw [h.graph] at hu
      rcases Graph.under_tie hs.wired hm hw hv hu with hu | ⟨rfl, -⟩
      · rcases hy with rfl | hy
        · exact Or.inr (.single hu)
        · exact Or.inr (.head hu hy)
      · exact Or.inl rfl
    induction hx using Relation.TransGen.head_induction_on with
    | single hu => exact hunder _ _ hu (Or.inl rfl)
    | head hu _ ih => exact hunder _ _ hu ih

namespace Extends

/-- To hang something new on a socket touches that socket and new things only. -/
theorem ties (h : Extends C ws u) (hs : ws.Sound) (hC : p ∉ C)
    (hchild : ws.ids.blocks ≤ child.index.toNat) (ht : u.Ties s p child t) :
    Extends (insert s C) ws t where
  blocks x hx := by
    rw [ht.blocks, h.blocks x hx]
  connections c hc hlt := by
    rw [Set.mem_insert_iff, not_or] at hc
    rw [ht.connections, ← h.connections c hc.2 hlt]
    have hcp : c ≠ p := by
      rintro rfl
      obtain ⟨w, v, hm, -, -, rfl⟩ := ht.mates
      obtain ⟨y, hy, rfl⟩ := connection_of_wire hm.plug
      have hold := h.owner_old hs hC hlt hy
      have hle : ws.ids.blocks ≤ y.block.index.toNat := hchild
      omega
    cases u.connections[c]? with
    | none => rfl
    | some y => simp [hc.1, hcp]
  blockCount := by
    rw [ht.ids]
    exact h.blockCount
  endCount := by
    rw [ht.ids]
    exact h.endCount
  registry := by
    rw [ht.registry]
    exact h.registry
  top := by
    have hnew : ∀ x : BlockId, x.index.toNat < ws.ids.blocks → x ≠ child := by
      rintro x hx rfl
      omega
    rw [ht.rest, earlier_filter _ fun x hx => decide_eq_true (hnew x hx)]
    exact h.top

/-- Connections that are new need no mention. -/
theorem shrink (h : Extends C ws ws') (hC : ∀ c ∈ C, c ∈ C' ∨ ws.ids.connections ≤ c.index.toNat) :
    Extends C' ws ws' :=
  (Extends.refl C' ws).trans h hC

theorem hang {S : BlockId → Prop} (h : Extends ∅ ws u) (hs : ws.Sound) (hu : u.Sound)
    (hchild : ws.ids.blocks ≤ child.index.toNat) (ht : u.Ties s p child t)
    (hstep : t.Shifts S ws') (hS : ∀ x, S x → t.Branch child x) : Extends {s} ws ws' := by
  have ht' := h.ties hs (Set.notMem_empty p) hchild ht
  rw [insert_empty_eq] at ht'
  refine ht'.shifts hs hstep fun x hx => ?_
  exact h.branch_new hs hu hchild (ht.branch hu (hS x hx))

theorem spares (h : Extends ∅ ws ws') (hs : ws.Sound) : ws.graph.Spares ws'.graph := by
  intro c w hw
  obtain ⟨y, hy, rfl⟩ := connection_of_wire hw
  exact ⟨_, wire_of_connection (h.connection hs hy (Set.notMem_empty c))⟩

/-- What is old and loose stays loose. -/
theorem loose (h : Extends ∅ ws ws') (hs : ws.Sound) (hs' : ws'.Sound) (hx : ws.Live x)
    (hl : ws.graph.Loose x) : ws'.graph.Loose x := by
  obtain ⟨b, hb⟩ := hx
  refine (Graph.loose_iff hs'.wired).mpr fun y hy => ?_
  exact hl.not_under hs.wired (h.under_old hs hs' (hs.blockIds hb) hy)

end Extends

/-- A block that is new since `ws` was plugged into the socket `s`. -/
structure Grafts (ws u : Workspace α) (s : ConnectionId) (child : BlockId) (ws' : Workspace α) :
    Prop where
  extend : Extends {s} ws ws'
  step : ∃ p t, u.Ties s p child t ∧ t.Shifts (t.Branch child) ws'

namespace Grafts

theorem spares (h : ws.Grafts u s child ws') : u.graph.Spares ws'.graph := by
  obtain ⟨p, t, ht, hstep⟩ := h.step
  rw [hstep.graph, ht.graph]
  exact Graph.spares_tie s p

theorem loose (h : ws.Grafts u s child ws') (hx : x ≠ child) (hl : u.graph.Loose x) :
    ws'.graph.Loose x := by
  obtain ⟨p, t, ht, hstep⟩ := h.step
  obtain ⟨w, v, hm, -, -, rfl⟩ := ht.mates
  rw [hstep.graph, ht.graph]
  exact (Graph.loose_tie hm).mpr ⟨hl, hx⟩

theorem live (h : ws.Grafts u s child ws') (hx : ws'.Live x) : u.Live x := by
  obtain ⟨p, t, ht, hstep⟩ := h.step
  obtain ⟨b, hb⟩ := hx
  obtain ⟨b₀, hb₀, -⟩ := hstep.symm_block hb
  rw [ht.blocks] at hb₀
  exact ⟨b₀, hb₀⟩

/-- What hung on something hangs there still. -/
theorem under (h : ws.Grafts u s child ws') (hu : u.Sound) {a : BlockId}
    (ha : u.graph.Under a x) : ws'.graph.Under a x := by
  obtain ⟨p, t, ht, hstep⟩ := h.step
  obtain ⟨w, v, hm, hw, hv, -⟩ := ht.mates
  rw [hstep.graph, ht.graph]
  exact Graph.under_of_tie hm hw hu.wired hv ha

theorem branch (h : ws.Grafts u s child ws') (hu : u.Sound) {a : BlockId}
    (ha : u.Branch x a) : ws'.Branch x a :=
  ha.imp_right fun hb => hb.mono fun _ _ => h.under hu

/-- The new block hangs on the owner of the socket. -/
theorem under_owner (h : ws.Grafts u s child ws') {y : Connection α}
    (hy : u.connections[s]? = some y) : ws'.graph.Under child y.block := by
  obtain ⟨p, t, ht, hstep⟩ := h.step
  obtain ⟨w, v, hm, -, -, rfl⟩ := ht.mates
  have hw := hm.socket
  rw [wire_of_connection hy, Option.some.injEq] at hw
  subst hw
  rw [hstep.graph, ht.graph]
  exact (Graph.tie_link hm).under

end Grafts

/-- A socket is as it was, or it was free and got what its template asks for. -/
inductive Refills (ws : Workspace α) (c : ConnectionId) : Workspace α → Prop
  | kept {y : Connection α} : ws.connections[c]? = some y → y.target.isSome ∨ y.template = none →
      Refills ws c ws
  | filled {y : Connection α} {template : Snapshot} {u t : Workspace α} {child : BlockId} :
      ws.connections[c]? = some y → y.target = none → y.template = some template →
      ws.Fresh child u → u.Sound → u.isPlaceholder child → ws.Grafts u c child t →
      Refills ws c t

theorem Refills.extend (h : ws.Refills c ws') : Extends {c} ws ws' := by
  cases h with
  | kept => exact Extends.refl _ _
  | filled _ _ _ _ _ _ hg => exact hg.extend

theorem Refills.spares (h : ws.Refills c ws') (hs : ws.Sound) : ws.graph.Spares ws'.graph := by
  cases h with
  | kept => exact Graph.Spares.refl _
  | filled _ _ _ hf _ _ hg => exact (hf.extend.spares hs).trans hg.spares

theorem Grafts.sound (h : ws.Grafts u s child ws') (hu : u.Sound) : ws'.Sound := by
  obtain ⟨p, t, ht, hstep⟩ := h.step
  exact hstep.sound (ht.sound hu)

theorem Refills.sound (h : ws.Refills c ws') (hs : ws.Sound) : ws'.Sound := by
  cases h with
  | kept => exact hs
  | filled _ _ _ _ hfs _ hg => exact hg.sound hfs

/-- What an old block hangs on then is what it hung on before. -/
theorem Refills.under_old (h : ws.Refills c ws') (hs : ws.Sound) {a : BlockId}
    (ha : a.index.toNat < ws.ids.blocks) (hu : ws'.graph.Under a x) : ws.graph.Under a x := by
  cases h with
  | kept => exact hu
  | filled _ _ _ hf hfs _ hg =>
    obtain ⟨p, v, ht, hstep⟩ := hg.step
    obtain ⟨w, y, hm, hw, hv, rfl⟩ := ht.mates
    rw [hstep.graph, ht.graph] at hu
    rcases Graph.under_tie hfs.wired hm hw hv hu with hu | ⟨rfl, -⟩
    · exact hf.extend.under_old hs hfs ha hu
    · have := hf.new
      omega

/-- An end is free, and the socket that it was linked to, or that it is, has its placeholder. -/
inductive Frees (ws : Workspace α) (c : ConnectionId) : Workspace α → Prop
  | kept : ws.link? c = .ok none → Frees ws c ws
  | cut {s p : ConnectionId} {child : BlockId} {u t : Workspace α} :
      ws.link? c = .ok (some (s, p)) → ws.Cuts s p child u → u.Refills s t → Frees ws c t

/-- The placeholder of an empty socket could not be built. Something new may have been left, but what
was there before is as it was. -/
structure Strands (ws : Workspace α) (c : ConnectionId) (ws' : Workspace α) : Prop where
  sound : ws'.Sound
  extend : Extends ∅ ws ws'
  acyclic : ws.graph.Acyclic → ws'.graph.Acyclic
  unfilled : ∀ y, ws.connections[c]? = some y → y.target = none ∧ y.template.isSome

/-- How an end fails to be freed: the link that it was part of is cut, and the socket does not get its
placeholder back. -/
inductive Breaks (ws : Workspace α) (c : ConnectionId) : Workspace α → Prop
  | absent : ws.connections[c]? = none → Breaks ws c ws
  | cut {s p : ConnectionId} {child : BlockId} {u t : Workspace α} :
      ws.link? c = .ok (some (s, p)) → ws.Cuts s p child u → u.Strands s t → Breaks ws c t

theorem Frees.sound (h : ws.Frees c ws') (hs : ws.Sound) : ws'.Sound := by
  cases h with
  | kept => exact hs
  | cut _ hc hr => exact hr.sound (hc.sound hs)

theorem Fresh.grafts (h : ws.Fresh child u) (hu : u.Sound) (ht : u.Ties s p child t)
    (hstep : t.Shifts (t.Branch child) ws') : ws.Grafts u s child ws' where
  extend := h.extend.hang h.start hu h.new ht hstep fun _ hx => hx
  step := ⟨p, t, ht, hstep⟩

/-- The socket that the new block was plugged into is otherwise as it was. -/
theorem Fresh.socket {y : Connection α} (h : ws.Fresh child u) (hu : u.Sound)
    (hg : ws.Grafts u s child t) (hy : ws.connections[s]? = some y) :
    ∃ p z, t.connections[s]? = some { y with target := some p } ∧
      t.connections[p]? = some z ∧ z.block = child := by
  obtain ⟨p, v, ht, hstep⟩ := hg.step
  obtain ⟨w, z, hm, -, -, hz⟩ := ht.mates
  have hyu := h.extend.connection h.start hy (Set.notMem_empty s)
  have hyv : v.connections[s]? = some { y with target := some p } := by
    rw [ht.connections, hyu, Option.map_some, if_pos rfl]
  have hnot : ¬ v.Branch child y.block := by
    intro hbranch
    obtain ⟨b, hb, -⟩ := h.start.owner hy
    have hold := h.start.blockIds hb
    have hnew := h.extend.branch_new h.start hu h.new (ht.branch hu hbranch)
    omega
  have hlink := Graph.tie_link hm
  rw [← ht.graph, ← hstep.graph] at hlink
  obtain ⟨z', hz', he⟩ := connection_of_wire hlink.plug
  exact ⟨p, z', hstep.fixed s _ hyv hnot, hz', (congrArg Wire.block he).trans hz⟩

end Workspace

namespace Edit

open Workspace

variable [Scalar α]

omit [Scalar α] in
/-- What fits goes together, if the socket is free and the block hangs on nothing. -/
theorem mates_of_hang {ws : Workspace α} {s p : ConnectionId} {child : BlockId} {x : Connection α}
    (hs : ws.Sound) (hx : ws.connections[s]? = some x) (hfree : x.target = none)
    (hl : ws.graph.Loose child) (hp : ws.plugFor s child = .ok p)
    (hc : ws.canConnect s p = .ok true) :
    ∃ w v, ws.graph.Mates s p w v ∧ w.target = none ∧ v.target = none ∧ v.block = child := by
  obtain ⟨x', b, hx', hb, hp⟩ := plugFor_eq_ok hp
  rw [hx, Option.some.injEq] at hx'
  subst hx'
  obtain ⟨y, hy, hyb, hk, hsock⟩ := hs.plugFor? hb hp
  obtain ⟨y', hy', hm⟩ := mates_of_canConnect hc hx hsock
  rw [hy, Option.some.injEq] at hy'
  subst hy'
  exact ⟨x.wire, y.wire, hm, hfree, hl p y.wire hm.plug hyb hm.isPlug, hyb⟩

/-- A free socket and a loose block are linked, or nothing happens as they do not go together. -/
theorem hang_leads (ws : Workspace α) (s : ConnectionId) (child : BlockId) :
    Leads (fun t => t = ws ∧ ws.Sound ∧ (∃ x, ws.connections[s]? = some x ∧ x.target = none) ∧
        ws.graph.Loose child)
      (hang s child)
      (fun _ t => ∃ p t₁, ws.Ties s p child t₁ ∧ t₁.Glides (t₁.Branch child) t)
      fun t => t = ws ∧ ¬ ws.Welcomes s child := by
  unfold hang
  refine Leads.bind (Leads.ask ?_) fun p => Leads.bind (Leads.ask ?_) fun on =>
    Leads.ite (fun hon => ?_) fun hoff => Leads.throw ?_
  · rintro _ e ⟨rfl, -⟩ he
    refine ⟨rfl, fun ⟨p, hp, _⟩ => ?_⟩
    rw [he] at hp
    cases hp
  · rintro _ e ⟨⟨rfl, -⟩, hp⟩ he
    refine ⟨rfl, fun ⟨q, hq, hfits⟩ => ?_⟩
    rw [hp] at hq
    cases hq
    rw [he] at hfits
    cases hfits
  · refine ((join_leads ws s p child).pre ?_).weaken (fun _ h => h) ?_ fun _ h => h.elim
    · rintro _ ⟨⟨⟨rfl, hs, ⟨x, hx, hfree⟩, hl⟩, hp⟩, hc⟩
      exact ⟨rfl, hs, mates_of_hang hs hx hfree hl hp (hon ▸ hc)⟩
    · rintro _ t ⟨t₁, h⟩
      exact ⟨p, t₁, h⟩
  · rintro _ ⟨⟨⟨rfl, -⟩, hp⟩, hc⟩
    refine ⟨rfl, fun ⟨q, hq, hfits⟩ => ?_⟩
    rw [hp] at hq
    cases hq
    rw [hc] at hfits
    exact hoff (Except.ok.inj hfits)

end Edit

end BlockEditor
