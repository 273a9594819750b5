import BlockEditor.Proofs.Building
import BlockEditor.Proofs.Workspace.Homes
import BlockEditor.Workspace.Press

/-!
# Connecting and disconnecting keep properties

An edit that moves blocks from one place to another leaves a hole at the socket that it empties, and
fills the hole before it is done.
-/

namespace BlockEditor.Edit

open Workspace

variable {α : Type} [Scalar α] {strict : Prop} {J : Set ConnectionId → Workspace α → Prop}
  {X : Set ConnectionId} {ws : Workspace α} {s p c : ConnectionId} {id child : BlockId}

/-! ### Cutting a link -/

omit [Scalar α] in
/-- A link is cut at its socket. -/
theorem unlink_socket (ws : Workspace α) (s p : ConnectionId) (child : BlockId) :
    Leads (fun t => t = ws ∧ ws.Sound ∧ ∃ w v, ws.graph.Link s p w v ∧ v.block = child) (unlink s)
      (fun _ t => ws.Cuts s p child t) fun _ => False := by
  refine ((unlink_leads ws s).frame (c := ws.Sound ∧ ∃ w v, ws.graph.Link s p w v ∧
    v.block = child)).weaken ?_ ?_ ?_
  · rintro _ ⟨rfl, hs, h⟩
    exact ⟨⟨rfl, hs⟩, hs, h⟩
  · rintro _ t ⟨⟨rfl, hn⟩ | ⟨s', p', child', hl, hc⟩, hs, w, v, h, rfl⟩
    · obtain ⟨y, hy, ht⟩ := link?_eq_none hn
      obtain ⟨z, hz, rfl⟩ := connection_of_wire h.socket
      rw [hy, Option.some.injEq] at hz
      subst hz
      have hd : y.target = some p := h.down
      rw [ht] at hd
      cases hd
    · obtain ⟨⟨w', v', h'⟩, hor⟩ := link?_eq_some hl hs
      obtain ⟨w'', v'', hcl, rfl⟩ := hc.link
      rcases hor with rfl | rfl
      · have hw := h.socket.symm.trans hcl.socket
        cases hw
        have hp := h.down.symm.trans hcl.down
        cases hp
        have hv := h.plug.symm.trans hcl.plug
        cases hv
        exact hc
      · have hk := h'.isPlug hs.wired
        have hw := h.socket.symm.trans h'.plug
        cases hw
        rw [ConnectionKind.isPlug_eq_not, h.isSocket] at hk
        cases hk
  · rintro _ ⟨⟨rfl, hn⟩, -, w, v, h, -⟩
    obtain ⟨z, hz, -⟩ := connection_of_wire h.socket
    rw [hn] at hz
    cases hz

/-- What is left of a workspace after a link was cut, apart from new things. -/
structure Severed (ws : Workspace α) (c : ConnectionId) (t : Workspace α) : Prop where
  blocks : ∀ (x : BlockId) (b : Block α), ws.blocks[x]? = some b → t.blocks[x]? = some b
  spares : ws.graph.Spares t.graph
  idle : ∀ b, ws.graph.PlugOf c b → t.graph.Idle c

omit [Scalar α] in
theorem severed_of_cuts {u t : Workspace α} (hs : ws.Sound) (hc : ws.Cuts s p child u)
    (hor : c = s ∨ c = p) (hext : Extends {s} u t) (hsp : u.graph.Spares t.graph) :
    Severed ws c t where
  blocks x b hb := by
    refine hext.block (hc.sound hs) ?_
    rw [hc.blocks]
    exact hb
  spares := by
    refine Graph.Spares.trans ?_ hsp
    rw [hc.graph]
    exact Graph.spares_cut s p
  idle b hpl w hw := by
    obtain ⟨w', v, hl, -⟩ := hc.link
    have hcp : c = p := by
      rcases hor with rfl | rfl
      · obtain ⟨v', hv', -, hk⟩ := hpl
        have hw := hl.socket.symm.trans hv'
        cases hw
        rw [ConnectionKind.isPlug_eq_not, hl.isSocket] at hk
        cases hk
      · rfl
    subst hcp
    have hwire := Graph.cut_wire_plug hs.wired hl
    rw [← hc.graph] at hwire
    obtain ⟨y, hy, hyw⟩ := connection_of_wire hwire
    have hyt := wire_of_connection (hext.connection (hc.sound hs) hy (hl.ne hs.wired).symm)
    rw [hw, Option.some.injEq] at hyt
    rw [hyt]
    exact congrArg Wire.target hyw

omit [Scalar α] in
theorem severed_of_frees {t : Workspace α} (hs : ws.Sound) (h : ws.Frees c t) : Severed ws c t := by
  cases h with
  | kept hn =>
    refine ⟨fun _ _ hb => hb, Graph.Spares.refl _, fun _ _ w hw => ?_⟩
    obtain ⟨y, hy, ht⟩ := link?_eq_none hn
    obtain ⟨z, hz, rfl⟩ := connection_of_wire hw
    rw [hy, Option.some.injEq] at hz
    subst hz
    exact ht
  | cut hl hc hr =>
    exact severed_of_cuts hs hc (link?_eq_some hl hs).2 hr.extend (hr.spares (hc.sound hs))

/-- A plug that is disconnected is free, and the socket that it was in gets its placeholder. -/
theorem disconnect_keeps (hJ : Stable strict J) (ws : Workspace α) (c : ConnectionId) :
    Leads (fun t => t = ws ∧ Steady J X ws) (disconnect c)
      (fun _ t => Steady J X t ∧ ws.Frees c t)
      (fun t => Steady J Set.univ t ∧ ws.Breaks c t) := by
  have absent : ∀ t, t = ws ∧ Steady J X ws → ws.connections[c]? = none →
      Steady J Set.univ t ∧ ws.Breaks c t := by
    rintro _ ⟨rfl, h⟩ hn
    exact ⟨h.anyway hJ, .absent hn⟩
  unfold disconnect
  refine (Leads.ask ?_).bind fun found => ?_
  · rintro _ e ⟨rfl, h⟩ hl
    exact absent _ ⟨rfl, h⟩ (link?_eq_error hl)
  cases found with
  | none =>
    refine Leads.pure ?_
    rintro _ ⟨⟨rfl, h⟩, hn⟩
    exact ⟨h, .kept hn⟩
  | some l =>
    obtain ⟨s, p⟩ := l
    refine Leads.bind (Q := fun _ u => ∃ child, ws.Cuts s p child u ∧ Steady J X ws ∧
      ws.link? c = .ok (some (s, p))) ?_ fun _ => ?_
    · refine ((unlink_leads ws c).frame (c := Steady J X ws ∧
        ws.link? c = .ok (some (s, p)))).weaken ?_ ?_ ?_
      · rintro _ ⟨⟨rfl, h⟩, hl⟩
        exact ⟨⟨rfl, h.sound⟩, h, hl⟩
      · rintro _ u ⟨⟨-, hn⟩ | ⟨s', p', child, hl', hc⟩, h, hl⟩
        · rw [hl] at hn
          cases hn
        · rw [hl] at hl'
          cases hl'
          exact ⟨child, hc, h, hl⟩
      · rintro t ⟨⟨rfl, hn⟩, h, -⟩
        exact absent t ⟨rfl, h⟩ hn
    refine Leads.bind (Q := fun _ t => Steady J X t ∧ ws.Frees c t) (Leads.fix fun u => ?_)
      fun _ => Leads.pure fun _ h => h
    refine ((respawn_keeps (X := X) hJ.growing u s).frame (c := ∃ child, ws.Cuts s p child u ∧
      Steady J X ws ∧ ws.link? c = .ok (some (s, p)))).weaken ?_ ?_ ?_
    · rintro _ ⟨rfl, child, hc, h, hl⟩
      exact ⟨⟨rfl, hc.sound h.sound, hJ.cuts h.sound hc h.keeps⟩, child, hc, h, hl⟩
    · rintro _ t ⟨⟨ht, hr⟩, child, hc, h, hl⟩
      exact ⟨ht, .cut hl hc hr⟩
    · rintro t ⟨⟨ht, hr⟩, child, hc, h, hl⟩
      exact ⟨ht, .cut hl hc hr⟩

/-! ### Emptying a socket -/

/-- A plug waits for a socket to become free. -/
structure Waiting (J : Set ConnectionId → Workspace α → Prop) (X : Set ConnectionId)
    (s p : ConnectionId) (child : BlockId) (t : Workspace α) : Prop where
  steady : Steady J X t
  poised : (∃ y, t.connections[s]? = some y) → t.graph.Poised s p child
  plugOf : t.graph.PlugOf p child
  plug : t.graph.Idle p

omit [Scalar α] in
theorem removeTree_ids (ws : Workspace α) (x : BlockId) : (ws.removeTree x).ids = ws.ids :=
  takeOutWithin_ids ws.walkBound (ws, Removal.empty) x

/-- Removing a loose block does no harm to a plug that belongs to another block. -/
theorem Waiting.removeTree (hJ : Stable strict J) {t : Workspace α} {x : BlockId} {b : Block α}
    (h : Waiting J X s p child t) (hb : t.blocks[x]? = some b) (hx : t.graph.Loose x)
    (hne : child ≠ x) (hs : t.graph.Idle s) :
    Waiting J X s p child (t.removeTree x) ∧ (t.removeTree x).graph.Idle s := by
  obtain ⟨R, hl, hseal⟩ := h.steady.sound.removeTree hb hx
  have hloose : t.graph.Loose child := h.plugOf.loose h.steady.sound.wired h.plug
  have hchild : child ∉ R := by
    intro hR
    rcases hl.below child hR with hc | hc
    · exact hne hc
    · exact hloose.not_below h.steady.sound.wired hc
  have hold : ∀ c w, t.graph.Idle c → (t.removeTree x).graph.wire c = some w →
      t.graph.wire c = some w := by
    intro c w hc hw
    obtain ⟨y, hy, rfl⟩ := connection_of_wire hw
    obtain ⟨-, y₀, hy₀, rfl⟩ := hl.old_connection hy
    have ht : y₀.target = none := hc _ (wire_of_connection hy₀)
    rw [wire_of_connection hy₀]
    simp [Connection.wire, ht]
  have hkept : ∀ v, t.graph.wire p = some v → v.block = child →
      (t.removeTree x).graph.wire p = some v := by
    intro v hv hvb
    obtain ⟨y, hy, rfl⟩ := connection_of_wire hv
    have ht : y.target = none := h.plug _ hv
    have hdead : ¬ t.dead [] R p := by
      rw [dead_iff hy]
      rintro (hp | hp)
      · cases hp
      · exact hchild (hvb ▸ hp)
    have hp := hl.connections p
    rw [List.filterMap_nil, if_neg hdead, hy, Option.map_some] at hp
    rw [wire_of_connection hp]
    simp [Connection.wire, ht]
  refine ⟨⟨⟨hl.sound h.steady.sound, hJ.prunes h.steady.sound hb hl hseal h.steady.keeps⟩,
    ?_, ?_, ?_⟩, fun w hw => hs w (hold s w hs hw)⟩
  · rintro ⟨y, hy⟩
    have hw := hold s _ hs (wire_of_connection hy)
    obtain ⟨z, hz, -⟩ := connection_of_wire hw
    obtain ⟨w, v, hm, hvb⟩ := h.poised ⟨z, hz⟩
    rw [hm.socket, Option.some.injEq] at hw
    subst hw
    exact ⟨_, v, ⟨wire_of_connection hy, hkept v hm.plug hvb, hm.isSocket, hm.opposite, hm.fits,
      hm.apart⟩, hvb⟩
  · obtain ⟨v, hv, hvb, hk⟩ := h.plugOf
    exact ⟨v, hkept v hv hvb, hvb, hk⟩
  · exact fun w hw => h.plug w (hold p w h.plug hw)

/-- The plug of an orphan belongs to it. -/
def Orphaned (orphan : Option Orphan) (t : Workspace α) : Prop :=
  ∀ o, orphan = some o → t.graph.PlugOf o.plug o.block

/-- What is in the way was unplugged, and has not left yet. -/
structure Displaced (J : Set ConnectionId → Workspace α → Prop) (X : Set ConnectionId)
    (s p : ConnectionId) (child : BlockId) (o : Orphan) (t : Workspace α) : Prop where
  steady : Steady J (insert s X) t
  poised : t.graph.Poised s p child
  socket : t.graph.Idle s
  plug : t.graph.Idle p
  plugOf : t.graph.PlugOf o.plug o.block
  loose : t.graph.Loose o.block
  apart : child ≠ o.block

theorem displaced_of_cuts (hJ : Stable strict J) {q : ConnectionId} {x : BlockId} {t : Workspace α}
    (h : Steady J X ws) (hc : ws.Cuts s q x t) (hpoised : ws.graph.Poised s p child)
    (hidle : ws.graph.Idle p) : Displaced J X s p child ⟨x, q⟩ t := by
  have hw := h.sound.wired
  have hp := hpoised.plugOf
  have hsp : ws.graph.Spares t.graph := by
    rw [hc.graph]
    exact Graph.spares_cut s q
  obtain ⟨w, v, hl, rfl⟩ := hc.link
  refine ⟨⟨hc.sound h.sound, hJ.cuts h.sound hc h.keeps⟩, hsp.poised hpoised, fun u hu => ?_,
    fun u hu => ?_, hsp.plugOf ⟨v, hl.plug, rfl, hl.isPlug hw⟩, ?_, ?_⟩
  · rw [hc.graph, Graph.cut_wire_socket hw hl, Option.some.injEq] at hu
    subst hu
    rfl
  · rw [hc.graph] at hu
    rcases Graph.cut_wire hw hl hu with ⟨-, rfl⟩ | ⟨-, rfl⟩ | ⟨-, -, hu⟩
    · rfl
    · rfl
    · exact hidle u hu
  · exact hc.loose_child h.sound
  · rintro rfl
    obtain ⟨v', hv', hb, hk⟩ := hp
    obtain rfl := hw.onePlug hv' hl.plug hb hk (hl.isPlug hw)
    have ht := hidle v hl.plug
    rw [hl.up hw] at ht
    cases ht

omit [Scalar α] in
theorem Displaced.waiting {o : Orphan} {t : Workspace α} (h : Displaced J X s p child o t) :
    Waiting J (insert s X) s p child t :=
  ⟨h.steady, fun _ => h.poised, h.poised.plugOf, h.plug⟩

theorem evict_keeps (hJ : Stable strict J) (ws : Workspace α) (s p : ConnectionId)
    (child : BlockId) :
    Leads (fun t => t = ws ∧ Steady J X ws ∧ ws.graph.Poised s p child ∧ ws.graph.Idle p) (evict s)
      (fun orphan t => (Steady J (insert s X) t ∧ t.graph.Poised s p child ∧ t.graph.Idle s ∧
        t.graph.Idle p) ∧ Orphaned orphan t)
      (Steady J Set.univ) := by
  unfold evict
  refine (Leads.connection ?_).bind fun y => ?_
  · rintro _ ⟨rfl, h, -⟩ -
    exact h.anyway hJ
  cases ht : y.target with
  | none =>
    refine Leads.pure ?_
    rintro _ ⟨⟨rfl, h, hpoised, hidle⟩, hy⟩
    refine ⟨⟨h.mono hJ (Set.subset_insert s X), hpoised, fun w hw => ?_, hidle⟩, fun o ho => ?_⟩
    · rw [wire_of_connection hy, Option.some.injEq] at hw
      subst hw
      exact ht
    · cases ho
  | some q =>
    refine (Leads.connection ?_).bind fun z => ?_
    · rintro _ ⟨⟨rfl, h, -⟩, -⟩ -
      exact h.anyway hJ
    dsimp only
    refine Leads.bind (Q := fun _ => Displaced J X s p child ⟨z.block, q⟩) ?_ fun _ => ?_
    · refine ((unlink_socket ws s q z.block).frame (c := Steady J X ws ∧
        ws.graph.Poised s p child ∧ ws.graph.Idle p)).weaken ?_ ?_ fun _ h => h.1.elim
      · rintro _ ⟨⟨⟨rfl, h, hpoised, hidle⟩, hy⟩, hz⟩
        refine ⟨⟨rfl, h.sound, y.wire, z.wire, ?_, rfl⟩, h, hpoised, hidle⟩
        obtain ⟨w, v, hm, -⟩ := hpoised
        have hw := hm.socket
        rw [wire_of_connection hy, Option.some.injEq] at hw
        exact ⟨wire_of_connection hy, wire_of_connection hz, hw ▸ hm.isSocket, ht⟩
      · rintro _ t ⟨hc, h, hpoised, hidle⟩
        exact displaced_of_cuts hJ h hc hpoised hidle
    refine (Leads.block fun _ h _ => h.steady.anyway hJ).bind fun b => ?_
    refine Leads.ite (fun _ => ?_) fun _ => Leads.pure ?_
    · refine (Leads.ask fun _ _ h _ => h.1.steady.anyway hJ).bind fun template => ?_
      refine Leads.bind (Q := fun _ t => Waiting J (insert s X) s p child t ∧ t.graph.Idle s)
        (Leads.alter ?_ fun t => removeTree_ids t z.block) fun _ => ?_
      · rintro t ⟨⟨h, hb⟩, -⟩
        exact h.waiting.removeTree hJ hb h.loose h.apart h.socket
      refine Leads.bind (Q := fun _ t => Steady J (insert s X) t ∧ t.graph.Poised s p child ∧
        t.graph.Idle s ∧ t.graph.Idle p) (Leads.updateConnection ?_ ?_) fun _ => Leads.pure ?_
      · rintro t t' y ⟨h, hidle⟩ hy hc hr
        have hg : t'.graph = t.graph := graph_template hc (by rw [hr])
        have hj := hJ.template h.steady.sound hc hr h.steady.keeps
        rw [Set.insert_idem] at hj
        rw [hg]
        exact ⟨⟨h.steady.sound.template hc hr, hj⟩, h.poised ⟨y, hy⟩, hidle, h.plug⟩
      · exact fun t h _ => h.1.steady.anyway hJ
      · refine fun t h => ⟨h, fun o ho => ?_⟩
        cases ho
    · rintro t ⟨h, -⟩
      refine ⟨⟨h.steady, h.poised, h.socket, h.plug⟩, fun o ho => ?_⟩
      cases ho
      exact h.plugOf

/-! ### Plugging in -/

theorem join_keeps (hJ : Stable strict J) (ws : Workspace α) (s p : ConnectionId)
    (child : BlockId) :
    Leads (fun t => t = ws ∧ Steady J (insert s X) ws ∧ ws.graph.Poised s p child ∧
        ws.graph.Idle s ∧ ws.graph.Idle p)
      (join s p child) (fun _ t => Steady J X t ∧ ws.graph.Spares t.graph) fun _ => False := by
  refine ((join_leads ws s p child).frame (c := Steady J (insert s X) ws)).weaken ?_ ?_
    fun _ h => h.1
  · rintro _ ⟨rfl, h, ⟨w, v, hm, hb⟩, hs, hp⟩
    exact ⟨⟨rfl, h.sound, w, v, hm, hs w hm.socket, hp v hm.plug, hb⟩, h⟩
  · rintro _ t ⟨⟨t₁, ht, hstep⟩, h⟩
    refine ⟨h.joined hJ ht hstep, ?_⟩
    rw [hstep.graph, ht.graph]
    exact Graph.spares_tie s p

theorem plugIn_keeps (hJ : Stable strict J) (s p : ConnectionId) (child : BlockId) :
    Leads (fun t => Steady J X t ∧ t.graph.Poised s p child) (plugIn s p child)
      (fun orphan t => Steady J X t ∧ Orphaned orphan t) (Steady J Set.univ) := by
  unfold plugIn
  refine Leads.bind (Q := fun _ t => Steady J X t ∧ t.graph.Poised s p child ∧ t.graph.Idle p)
    (Leads.fix fun ws => ?_) fun _ => Leads.bind (Q := fun orphan t => (Steady J (insert s X) t ∧
      t.graph.Poised s p child ∧ t.graph.Idle s ∧ t.graph.Idle p) ∧ Orphaned orphan t)
    (Leads.fix fun ws => ?_) fun orphan => Leads.bind (Q := fun _ t => Steady J X t ∧
      Orphaned orphan t) (Leads.fix fun ws => ?_) fun _ => Leads.pure fun _ h => h
  · refine ((disconnect_keeps (X := X) hJ ws p).frame (c := ws.Sound ∧
      ws.graph.Poised s p child)).weaken ?_ ?_ fun _ h => h.1.1
    · rintro _ ⟨rfl, h, hp⟩
      exact ⟨⟨rfl, h⟩, h.sound, hp⟩
    · rintro _ t ⟨⟨h, hfree⟩, hs, hp⟩
      have hsev := severed_of_frees hs hfree
      exact ⟨h, hsev.spares.poised hp, hsev.idle child hp.plugOf⟩
  · refine (evict_keeps hJ ws s p child).pre ?_
    rintro _ ⟨rfl, h⟩
    exact ⟨rfl, h⟩
  · refine ((join_keeps (X := X) hJ ws s p child).frame (c := Orphaned orphan ws)).weaken
      ?_ ?_ fun _ h => h.1.elim
    · rintro _ ⟨rfl, h, ho⟩
      exact ⟨⟨rfl, h⟩, ho⟩
    · rintro _ t ⟨⟨h, hsp⟩, ho⟩
      exact ⟨h, fun o hm => hsp.plugOf (ho o hm)⟩

theorem resettle_keeps (hJ : Stable strict J) (below : BlockId) (o : Orphan) :
    Leads (fun t => Steady J X t ∧ t.graph.PlugOf o.plug o.block) (resettle below o)
      (fun _ => Steady J X) (Steady J Set.univ) := by
  unfold resettle
  refine (Leads.ask fun _ _ h _ => h.1.anyway hJ).bind fun home => ?_
  cases home with
  | none =>
    exact (bumpAside_keeps (hJ.calm (X := X)) o.block).weaken (fun _ h => h.1.1) (fun _ _ h => h)
      fun _ h => h.anyway hJ
  | some s =>
    refine Leads.bind ((plugIn_keeps hJ s o.plug o.block).pre ?_) fun _ =>
      Leads.pure fun _ h => h.1
    rintro t ⟨⟨h, hplug⟩, hhome⟩
    exact ⟨h, poised_of_orphanHome hplug hhome⟩

/-- Link a socket and a plug that may be linked. -/
def fit (socket plug : ConnectionId) : Edit α Unit := do
  if (← query (·.connection socket)).target = some plug then return ()
  let child := (← query (·.connection plug)).block
  (← plugIn socket plug child).forM (resettle child)

/-- Whatever holds of linking a socket and a plug that may be linked holds of linking two ends. -/
theorem connect_fits {P Q E : Workspace α → Prop} (refused : ∀ t, P t → E t)
    (link : ∀ s p, Leads (fun t => P t ∧ ∀ y, t.connections[p]? = some y → t.graph.Poised s p y.block)
      (fit s p) (fun _ => Q) E) (a b : ConnectionId) :
    Leads P (connect a b) (fun _ => Q) E := by
  unfold connect
  refine (Leads.ask fun _ _ h _ => refused _ h).bind fun on => Leads.ite (fun hon => ?_) fun _ =>
    Leads.throw fun _ h => refused _ h.1
  refine (Leads.connection fun _ h _ => refused _ h.1).bind fun x => ?_
  cases hk : x.kind.isSocket with
  | true =>
    refine (link a b).pre ?_
    rintro t ⟨⟨h, hcan⟩, hx⟩
    rw [hon] at hcan
    exact ⟨h, fun y hy => (poised_of_canConnect hcan hx hy).1 hk⟩
  | false =>
    refine (link b a).pre ?_
    rintro t ⟨⟨h, hcan⟩, hx⟩
    rw [hon] at hcan
    obtain ⟨-, y, -, hy, -⟩ := canConnect_eq_ok hcan
    refine ⟨h, fun x' hx' => ?_⟩
    rw [hx, Option.some.injEq] at hx'
    subst hx'
    refine (poised_of_canConnect hcan hx hy).2 ?_
    rw [ConnectionKind.isPlug_eq_not, hk]
    rfl

theorem connect_keeps (hJ : Stable strict J) (a b : ConnectionId) :
    Safe J X (connect a b : Edit α Unit) := by
  refine connect_fits (fun _ h => h.anyway hJ) (fun s p => ?_) a b
  unfold fit
  refine (Leads.connection fun _ h _ => h.1.anyway hJ).bind fun x => ?_
  refine Leads.ite (fun _ => Leads.pure fun _ h => h.1.1) fun _ => ?_
  refine (Leads.connection fun _ h _ => h.1.1.anyway hJ).bind fun y => ?_
  refine Leads.bind ((plugIn_keeps (X := X) hJ s p y.block).pre ?_) fun orphan => ?_
  · rintro t ⟨⟨⟨h, hp⟩, -⟩, hy⟩
    exact ⟨h, hp y hy⟩
  · refine Leads.forM_option _ (fun o ho => (resettle_keeps hJ y.block o).pre ?_)
      fun _ _ h => h.1
    exact fun t h => ⟨h.1, h.2 o ho⟩

theorem attach_keeps (hJ : Stable strict J) (s : ConnectionId) (child : BlockId) :
    Safe J X (attach s child : Edit α Unit) :=
  (Leads.ask fun _ _ h _ => h.anyway hJ).bind fun p => (connect_keeps hJ s p).pre fun _ h => h.1

/-! ### Taking away -/

omit [Scalar α] in
/-- The next connection of a block belongs to none of its inputs. -/
theorem full_of_next {b : Block α} (hs : ws.Sound) (hb : ws.blocks[id]? = some b)
    (hn : b.next = some c) : ws.Full c := by
  intro x b' i y hb' hi hc hy _
  obtain ⟨z, hz, hzb, -⟩ := hs.listed hb (r := (c, some .nextStatement))
    (mem_roles.mpr (Or.inr (Or.inr (Or.inl ⟨hn, rfl⟩))))
  obtain ⟨z', hz', hzb', -⟩ := hs.listed hb' (r := (c, i.kind.connection?))
    (mem_roles.mpr (Or.inr (Or.inr (Or.inr ⟨i, hi, hc, rfl⟩))))
  rw [hz, Option.some.injEq] at hz'
  subst hz'
  have hx : id = x := hzb.symm.trans hzb'
  subst hx
  rw [hb, Option.some.injEq] at hb'
  subst hb'
  have hnodup := hs.nodup_sockets hb
  rw [Block.sockets, hn, List.nodup_append] at hnodup
  refine absurd rfl (hnodup.2.2 c ?_ c (by simp))
  exact List.mem_filterMap.mpr ⟨i, hi, hc⟩

theorem healStack_keeps (hJ : Stable strict J) (next : ConnectionId)
    (above : Option ConnectionId) :
    Leads (fun t => Steady J X t ∧ ∃ (x : BlockId) (b : Block α), t.blocks[x]? = some b ∧
        b.next = some next)
      (healStack next above) (fun _ => Steady J X) (Steady J Set.univ) := by
  unfold healStack
  refine (Leads.connection fun _ h _ => h.1.anyway hJ).bind fun y => ?_
  cases ht : y.target with
  | none => exact Leads.pure fun _ h => h.1.1
  | some q =>
    refine (Leads.connection fun _ h _ => h.1.1.anyway hJ).bind fun z => ?_
    refine (Leads.block fun _ h _ => h.1.1.1.anyway hJ).bind fun b => ?_
    refine Leads.ite (fun _ => Leads.pure fun _ h => h.1.1.1.1) fun _ => ?_
    refine Leads.bind (Q := fun _ => Steady J X) (Leads.fix fun ws => ?_) fun _ => ?_
    · refine ((unlink_socket ws next q z.block).frame (c := Steady J X ws ∧
        ∃ (x : BlockId) (b : Block α), ws.blocks[x]? = some b ∧ b.next = some next)).weaken
        ?_ ?_ fun _ h => h.1.elim
      · rintro _ ⟨rfl, ⟨⟨⟨h, x, b, hb, hn⟩, hy⟩, hz⟩, -⟩
        obtain ⟨y', hy', -, hk⟩ := h.sound.socket hb (mem_sockets.mpr (Or.inr hn))
        rw [hy, Option.some.injEq] at hy'
        subst hy'
        exact ⟨⟨rfl, h.sound, y.wire, z.wire, ⟨wire_of_connection hy, wire_of_connection hz, hk, ht⟩,
          rfl⟩, h, x, b, hb, hn⟩
      · rintro _ t ⟨hc, h, x, b, hb, hn⟩
        have ht : Steady J (insert next X) t := ⟨hc.sound h.sound, hJ.cuts h.sound hc h.keeps⟩
        exact ht.fill hJ (full_of_next ht.sound (hc.blocks ▸ hb) hn)
    · refine Leads.forM_option _ (fun socket _ => ?_) fun _ _ h => h
      refine (Leads.ask fun _ _ h _ => h.anyway hJ).bind fun fits => ?_
      refine (Leads.connection fun _ h _ => h.1.anyway hJ).bind fun w => ?_
      exact Leads.ite (fun _ => (connect_keeps hJ socket q).pre fun _ h => h.1.1) fun _ =>
        Leads.pure fun _ h => h.1.1

theorem pullOut_keeps (hJ : Stable strict J) (id : BlockId) (heal : Bool) :
    Safe J X (pullOut id heal : Edit α Unit) := by
  have cut : ∀ (b : Block α) (c : ConnectionId), Leads (fun t => Steady J X t ∧
      t.blocks[id]? = some b) (disconnect c) (fun _ t => Steady J X t ∧ t.blocks[id]? = some b)
      (Steady J Set.univ) := by
    intro b c
    refine Leads.fix fun ws => ?_
    refine ((disconnect_keeps (X := X) hJ ws c).frame (c := ws.Sound ∧
      ws.blocks[id]? = some b)).weaken ?_ ?_ fun _ h => h.1.1
    · rintro _ ⟨rfl, h, hb⟩
      exact ⟨⟨rfl, h⟩, h.sound, hb⟩
    · rintro _ t ⟨⟨h, hfree⟩, hs, hb⟩
      exact ⟨h, (severed_of_frees hs hfree).blocks id b hb⟩
  unfold pullOut
  refine (Leads.block fun _ h _ => h.anyway hJ).bind fun b => ?_
  cases b.output with
  | some output => exact (cut b output).post fun _ _ h => h.1
  | none =>
    cases b.previous with
    | none => exact Leads.pure fun _ h => h.1
    | some previous =>
      refine (Leads.connection fun _ h _ => h.1.anyway hJ).bind fun y => ?_
      refine Leads.bind ((cut b previous).pre fun _ h => h.1) fun _ => ?_
      refine Leads.ite (fun _ => ?_) fun _ => Leads.pure fun _ h => h.1
      refine Leads.forM_option _ (fun next hn => (healStack_keeps hJ next y.target).pre ?_)
        fun _ _ h => h.1
      exact fun t h => ⟨h.1, id, b, h.2, hn⟩

theorem Steady.removeTree (hJ : Stable strict J) {b : Block α} (h : Steady J X ws)
    (hb : ws.blocks[id]? = some b) (hl : ws.graph.Loose id) : Steady J X (ws.removeTree id) := by
  obtain ⟨R, hloses, hseal⟩ := h.sound.removeTree hb hl
  exact ⟨hloses.sound h.sound, hJ.prunes h.sound hb hloses hseal h.keeps⟩

omit [Scalar α] in
/-- A block that has no socket to be in hangs on nothing. -/
theorem loose_of_parentSocket (hs : ws.Sound) (hp : ws.parentSocket id = .ok none) :
    ws.graph.Loose id ∧ ws.Live id := by
  obtain ⟨b, hb, -⟩ := bind_eq_ok hp
  have hb := block_eq_ok.mp hb
  rcases hs.parentSocket_cases hb with ⟨s, -, -, -, hs, -⟩ | ⟨-, hl⟩
  · rw [hp] at hs
    cases hs
  · exact ⟨hl, b, hb⟩

omit [Scalar α] in
/-- A block is cut off from the socket that it is in. -/
theorem unlink_parent (ws : Workspace α) (id : BlockId) (s : ConnectionId) :
    Leads (fun t => t = ws ∧ ws.Sound ∧ ws.parentSocket id = .ok (some s)) (unlink s)
      (fun _ t => ∃ p, ws.Cuts s p id t ∧ t.graph.Loose id ∧ t.Live id) fun _ => False := by
  have hcut : Leads (fun t => ∃ p, t = ws ∧ ws.Sound ∧ ∃ w v, ws.graph.Link s p w v ∧
      v.block = id) (unlink s) (fun _ t => ∃ p, ws.Cuts s p id t) fun _ => False :=
    Leads.choose fun p => (unlink_socket ws s p id).post fun _ _ h => ⟨p, h⟩
  refine (hcut.frame (c := ws.Sound ∧ ws.Live id)).weaken ?_ ?_ fun _ h => h.1
  · rintro _ ⟨rfl, hs, hp⟩
    obtain ⟨b, hb, -⟩ := bind_eq_ok hp
    have hb := block_eq_ok.mp hb
    rcases hs.parentSocket_cases hb with ⟨s', p, w, v, hs', hl, hv⟩ | ⟨hn, -⟩
    · rw [hp] at hs'
      cases hs'
      exact ⟨⟨p, rfl, hs, w, v, hl, hv⟩, hs, b, hb⟩
    · rw [hp] at hn
      cases hn
  · rintro _ t ⟨⟨p, hc⟩, hs, b, hb⟩
    exact ⟨p, hc, hc.loose_child hs, b, by rw [hc.blocks, hb]⟩

theorem dispose_keeps (hJ : Stable strict J) (id : BlockId) :
    Safe J X (dispose id : Edit α Unit) := by
  unfold dispose
  refine (Leads.ask fun _ _ h _ => h.anyway hJ).bind fun socket => ?_
  have remove : ∀ Y, Leads (fun t => Steady J Y t ∧ t.graph.Loose id ∧ t.Live id)
      (modify (·.removeTree id) : Edit α Unit) (fun _ => Steady J Y) (Steady J Set.univ) := by
    refine fun Y => Leads.alter ?_ fun t => removeTree_ids t id
    rintro t ⟨h, hl, b, hb⟩
    exact Steady.removeTree hJ h hb hl
  cases socket with
  | none =>
    refine Leads.bind (Leads.pure (Q := fun _ t => Steady J X t ∧ t.graph.Loose id ∧ t.Live id) ?_)
      fun _ => (remove X).bind fun _ => Leads.pure fun _ h => h
    exact fun t h => ⟨h.1, loose_of_parentSocket h.1.sound h.2⟩
  | some s =>
    refine Leads.bind (Q := fun _ t => Steady J (insert s X) t ∧ t.graph.Loose id ∧ t.Live id)
      (Leads.fix fun ws => ?_) fun _ => ?_
    · refine ((unlink_parent ws id s).frame (c := Steady J X ws)).weaken ?_ ?_ fun _ h => h.1.elim
      · rintro _ ⟨rfl, h, hp⟩
        exact ⟨⟨rfl, h.sound, hp⟩, h⟩
      · rintro _ t ⟨⟨p, hc, hrest⟩, h⟩
        exact ⟨⟨hc.sound h.sound, hJ.cuts h.sound hc h.keeps⟩, hrest⟩
    refine (remove _).bind fun _ => Leads.bind (Q := fun _ => Steady J X) (Leads.fix fun ws => ?_)
      fun _ => Leads.pure fun _ h => h
    exact (respawn_keeps hJ.growing ws s).weaken (fun _ h => by obtain ⟨rfl, h⟩ := h; exact ⟨rfl, h⟩)
      (fun _ _ h => h.1) fun _ h => h.1

/-! ### The other edits -/

theorem disconnect_safe (hJ : Stable strict J) (c : ConnectionId) :
    Safe J X (disconnect c : Edit α Unit) :=
  Leads.fix fun ws => (disconnect_keeps (X := X) hJ ws c).weaken
    (fun _ h => by obtain ⟨rfl, h⟩ := h; exact ⟨rfl, h⟩) (fun _ _ h => h.1) fun _ h => h.1

theorem respawn_safe (hJ : Stable strict J) (c : ConnectionId) :
    Leads (Steady J X) (respawn c : Edit α (Option BlockId)) (fun _ => Steady J X)
      (Steady J Set.univ) :=
  Leads.fix fun ws => (respawn_keeps (X := X) hJ.growing ws c).weaken
    (fun _ h => by obtain ⟨rfl, h⟩ := h; exact ⟨rfl, h.mono hJ (Set.subset_insert c X)⟩)
    (fun _ _ h => h.1) fun _ h => h.1

theorem setTemplate_keeps (hJ : Stable strict J) (c : ConnectionId) (template : Option Snapshot) :
    Leads (Steady J X) (setTemplate c template : Edit α (Option BlockId)) (fun _ => Steady J X)
      (Steady J Set.univ) := by
  unfold setTemplate
  refine Leads.bind (Q := fun _ => Steady J (insert c X)) (Leads.updateConnection ?_ ?_) fun _ => ?_
  · exact fun t t' y h _ hc hr => ⟨h.sound.template hc hr, hJ.template h.sound hc hr h.keeps⟩
  · exact fun t h _ => h.anyway hJ
  · refine Leads.fix fun ws => (respawn_keeps (X := X) hJ.growing ws c).weaken ?_ (fun _ _ h => h.1)
      fun _ h => h.1
    rintro _ ⟨rfl, h⟩
    exact ⟨rfl, h⟩

theorem restore_keeps (hJ : Stable strict J) (s : Snapshot) :
    Leads (Steady J X) (restore s : Edit α BlockId) (fun _ => Steady J X) (Steady J Set.univ) :=
  Leads.fix fun ws => (build_grows hJ.growing s false X ws).weaken
    (fun _ h => by obtain ⟨rfl, h⟩ := h; exact ⟨rfl, h⟩) (fun _ _ h => h.1) fun _ h => h.steady

theorem newBlock_safe (hJ : Stable strict J) (typeName : String) :
    Leads (Steady J X) (newBlock typeName : Edit α BlockId) (fun _ => Steady J X)
      (Steady J Set.univ) :=
  Leads.fix fun ws => (newBlock_sprouts hJ.growing ws typeName).weaken
    (fun _ h => by obtain ⟨rfl, h⟩ := h; exact ⟨rfl, h⟩) (fun _ _ h => h.steady) fun _ h => h.steady

theorem newPlaceholder_keeps (hJ : Stable strict J) (typeName : String) :
    Leads (Steady J X) (newPlaceholder typeName : Edit α BlockId) (fun _ => Steady J X)
      (Steady J Set.univ) :=
  (newBlock_safe hJ typeName).bind fun id =>
    ((setPlaceholder_keeps hJ id true).refused fun _ h => h.anyway hJ).bind fun _ =>
      Leads.pure fun _ h => h

theorem setUnits_safe (hJ : Stable strict J) (id : BlockId) (n : Nat) :
    Leads (fun t => Steady J X t ∧ (strict → t.graph.Tame id)) (setUnits id n)
      (fun _ t => Steady J X t ∧ (strict → t.graph.Tame id)) (Steady J Set.univ) := by
  have hgood := coarse_true.setUnits (fine_true (α := α) strict id) n
  refine ((hJ.setUnits (X := X) id n).and hgood).weaken ?_ ?_ ?_
  · exact fun t h => ⟨⟨h.1.sound, h.1.keeps, h.2⟩, h.1.sound, h.2, trivial⟩
  · exact fun _ t h => ⟨⟨h.2.1.sound, h.1⟩, h.2.1.tame⟩
  · exact fun t h => ⟨h.2.1, h.1⟩

theorem refreshControls_safe (hJ : Stable strict J) (id : BlockId) :
    Leads (fun t => Steady J X t ∧ (strict → t.graph.Tame id)) (refreshControls id : Edit α Unit)
      (fun _ => Steady J X) (Steady J Set.univ) := by
  refine ((hJ.refreshControls (X := X) id).and
    (refreshControls_keeps (fine_true strict id).handles)).weaken ?_ ?_ ?_
  · exact fun t h => ⟨⟨h.1.sound, h.1.keeps, h.2⟩, h.1.sound, h.2, trivial⟩
  · exact fun _ t h => ⟨h.2.1.sound, h.1⟩
  · exact fun t h => ⟨h.2.sound, h.1⟩

theorem loadShape_keeps (hJ : Stable strict J) (id : BlockId) (shape : Json) :
    Leads (fun t => Steady J X t ∧ (strict → t.graph.Tame id)) (loadShape id shape)
      (fun _ => Steady J X) (Steady J Set.univ) :=
  (setUnits_safe hJ id 0).bind fun _ => (setUnits_safe hJ id _).bind fun _ =>
    Leads.pure fun _ h => h.1

theorem fillUnit_keeps (hJ : Stable strict J) (id : BlockId) (unit : Nat) :
    Safe J X (fillUnit id unit : Edit α Unit) :=
  (newBlock_safe hJ "dict_item").bind fun entry =>
    (Leads.ask fun _ _ h _ => h.anyway hJ).bind fun slot =>
      (attach_keeps hJ slot entry).pre fun _ h => h.1

theorem press_keeps (hJ : Stable strict J) (id : BlockId) (control : Control) :
    Leads (fun t => Steady J X t ∧ (strict → t.graph.Tame id)) (press id control : Edit α Unit)
      (fun _ => Steady J X) (Steady J Set.univ) := by
  unfold press
  refine (Leads.ask fun _ _ h _ => h.1.anyway hJ).bind fun kind => ?_
  refine (Leads.ask fun _ _ h _ => h.1.1.anyway hJ).bind fun shown => ?_
  refine Leads.ite (fun _ => ?_) fun _ => Leads.throw fun _ h => h.1.1.1.anyway hJ
  refine (Leads.block fun _ h _ => h.1.1.1.anyway hJ).bind fun b => ?_
  cases control with
  | add =>
    unfold pressAdd
    refine Leads.optional (fun _ => Leads.throw fun _ h => h.1.1.1.1.anyway hJ) ?_
    refine ((setUnits_safe hJ id _).pre fun _ h => h.1.1.1).bind fun _ => ?_
    refine Leads.ite (fun _ => (fillUnit_keeps hJ id _).pre fun _ h => h.1) fun _ =>
      Leads.pure fun _ h => h.1
  | remove => exact ((setUnits_safe hJ id _).pre fun _ h => h.1.1.1).post fun _ _ h => h.1

end BlockEditor.Edit
