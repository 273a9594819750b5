import BlockEditor.Proofs.Workspace.Shifts
import BlockEditor.Workspace.Links

/-!
# Single links

A link is cut at both of its ends, and its lower block becomes a top block. A link is made between
two free ends that fit, and its lower block is no top block any more.
-/

namespace BlockEditor

variable {α : Type}

namespace Workspace

variable {ws ws' : Workspace α} {id a x child : BlockId} {c s p : ConnectionId} {b : Block α}
  {w v : Wire}

structure Cuts (ws : Workspace α) (s p : ConnectionId) (child : BlockId) (ws' : Workspace α) :
    Prop where
  link : ∃ w v, ws.graph.Link s p w v ∧ v.block = child
  connections : ∀ c : ConnectionId, ws'.connections[c]? = (ws.connections[c]?).map
    fun y : Connection α => if c = s ∨ c = p then { y with target := none } else y
  rest : ws' = { ws with
    connections := ws'.connections
    top := if ws.top.contains child then ws.top else ws.top ++ [child]
    events := ws.events.fire (.disconnect s child) }

structure Ties (ws : Workspace α) (s p : ConnectionId) (child : BlockId) (ws' : Workspace α) :
    Prop where
  mates : ∃ w v, ws.graph.Mates s p w v ∧ w.target = none ∧ v.target = none ∧ v.block = child
  connections : ∀ c : ConnectionId, ws'.connections[c]? = (ws.connections[c]?).map
    fun y : Connection α => if c = s then { y with target := some p }
      else if c = p then { y with target := some s } else y
  rest : ws' = { ws with
    connections := ws'.connections
    top := ws.top.filter (· ≠ child)
    events := ws.events.fire (.connect s child) }

namespace Cuts

theorem blocks (h : ws.Cuts s p child ws') : ws'.blocks = ws.blocks := by
  rw [h.rest]

theorem ids (h : ws.Cuts s p child ws') : ws'.ids = ws.ids := by
  rw [h.rest]

theorem registry (h : ws.Cuts s p child ws') : ws'.registry = ws.registry := by
  rw [h.rest]

theorem graph (h : ws.Cuts s p child ws') : ws'.graph = ws.graph.cut s p := by
  have hends : ws'.graph.ends = (ws.graph.cut s p).ends := by
    funext x
    simp only [Workspace.graph, Graph.cut, Graph.retarget, h.blocks]
  have hwire : ws'.graph.wire = (ws.graph.cut s p).wire := by
    funext c
    simp only [Workspace.graph, Graph.cut, Graph.retarget, h.connections]
    cases ws.connections[c]? with
    | none => simp
    | some y =>
      by_cases hs : c = s
      · simp [hs, Connection.wire]
      · by_cases hp : c = p
        · subst hp
          simp [hs, Connection.wire]
        · simp [hs, hp]
  exact congrArg₂ Graph.mk hends hwire

theorem sound (h : ws.Cuts s p child ws') (hs : ws.Sound) : ws'.Sound where
  wired := by
    obtain ⟨w, v, hl, -⟩ := h.link
    rw [h.graph]
    exact hs.wired.cut hl
  blockIds hb := by
    rw [h.blocks] at hb
    rw [h.ids]
    exact hs.blockIds hb
  connectionIds hx := by
    rw [h.connections, Option.map_eq_some_iff] at hx
    obtain ⟨y, hy, -⟩ := hx
    rw [h.ids]
    exact hs.connectionIds hy
  registry := by
    rw [h.registry]
    exact hs.registry

/-- What is cut off was there. -/
theorem exists_child (h : ws.Cuts s p child ws') (hs : ws.Sound) :
    ∃ b, ws.blocks[child]? = some b := by
  obtain ⟨w, v, hl, rfl⟩ := h.link
  exact hs.exists_lower hl.under

/-- What was cut off hangs on nothing. -/
theorem loose_child (h : ws.Cuts s p child ws') (hs : ws.Sound) : ws'.graph.Loose child := by
  obtain ⟨w, v, hl, rfl⟩ := h.link
  rw [h.graph]
  exact (Graph.loose_cut hs.wired hl).mpr (Or.inr rfl)

end Cuts

namespace Ties

theorem blocks (h : ws.Ties s p child ws') : ws'.blocks = ws.blocks := by
  rw [h.rest]

theorem ids (h : ws.Ties s p child ws') : ws'.ids = ws.ids := by
  rw [h.rest]

theorem registry (h : ws.Ties s p child ws') : ws'.registry = ws.registry := by
  rw [h.rest]

theorem graph (h : ws.Ties s p child ws') : ws'.graph = ws.graph.tie s p := by
  obtain ⟨w, v, hm, -⟩ := h.mates
  have hends : ws'.graph.ends = (ws.graph.tie s p).ends := by
    funext x
    simp only [Workspace.graph, Graph.tie, Graph.retarget, h.blocks]
  have hwire : ws'.graph.wire = (ws.graph.tie s p).wire := by
    funext c
    simp only [Workspace.graph, Graph.tie, Graph.retarget, h.connections]
    cases ws.connections[c]? with
    | none => simp
    | some y =>
      by_cases hs : c = s
      · subst hs
        simp [hm.ne, Connection.wire]
      · by_cases hp : c = p
        · subst hp
          simp [hs, Connection.wire]
        · simp [hs, hp]
  exact congrArg₂ Graph.mk hends hwire

theorem sound (h : ws.Ties s p child ws') (hs : ws.Sound) : ws'.Sound where
  wired := by
    obtain ⟨w, v, hm, hw, hv, -⟩ := h.mates
    rw [h.graph]
    exact hs.wired.tie hm hw hv
  blockIds hb := by
    rw [h.blocks] at hb
    rw [h.ids]
    exact hs.blockIds hb
  connectionIds hx := by
    rw [h.connections, Option.map_eq_some_iff] at hx
    obtain ⟨y, hy, -⟩ := hx
    rw [h.ids]
    exact hs.connectionIds hy
  registry := by
    rw [h.registry]
    exact hs.registry

end Ties

/-- The log may grow on both sides. -/
theorem Glides.withEvents {S : BlockId → Prop} (h : ws.Glides S ws') (e : EventLog α) :
    Glides S { ws with events := e } { ws' with events := e } where
  blocks := h.blocks
  connections := h.connections
  still := h.still
  fixed := h.fixed
  rest := by
    rw [h.rest]
  ends := h.ends

theorem link?_eq_some (h : ws.link? c = .ok (some (s, p))) (hs : ws.Sound) :
    (∃ w v, ws.graph.Link s p w v) ∧ (c = s ∨ c = p) := by
  unfold Workspace.link? at h
  cases hx : ws.connections[c]? with
  | none => simp [Workspace.connection, hx, bind, Except.bind] at h
  | some x =>
    simp only [connection_eq_ok.mpr hx, bind, Except.bind, pure, Except.pure, Except.ok.injEq,
      Option.map_eq_some_iff] at h
    obtain ⟨d, ht, hd⟩ := h
    by_cases hk : x.kind.isSocket
    · rw [if_pos hk, Prod.mk.injEq] at hd
      obtain ⟨rfl, rfl⟩ := hd
      obtain ⟨v, hl⟩ := Graph.link_of_socket hs.wired (wire_of_connection hx) hk ht
      exact ⟨⟨x.wire, v, hl⟩, Or.inl rfl⟩
    · rw [if_neg hk, Prod.mk.injEq] at hd
      obtain ⟨rfl, rfl⟩ := hd
      have hk' : x.kind.isPlug := by
        rw [ConnectionKind.isPlug_eq_not]
        simpa using hk
      obtain ⟨w, hl⟩ := Graph.link_of_plug hs.wired (wire_of_connection hx) hk' ht
      exact ⟨⟨w, x.wire, hl⟩, Or.inr rfl⟩

/-- Asked at either end of a link, it is found. -/
theorem link?_of_link {w v : Wire} (hs : ws.Sound) (hl : ws.graph.Link s p w v)
    (hc : c = s ∨ c = p) : ws.link? c = .ok (some (s, p)) := by
  rcases hc with rfl | rfl
  · obtain ⟨y, hy, rfl⟩ := connection_of_wire hl.socket
    have hk : y.kind.isSocket := hl.isSocket
    have ht : y.target = some p := hl.down
    simp [Workspace.link?, connection_eq_ok.mpr hy, bind, Except.bind, pure, Except.pure, ht, hk]
  · obtain ⟨y, hy, rfl⟩ := connection_of_wire hl.plug
    have hk : y.kind.isSocket = false := by
      have hplug : y.kind.isPlug := hl.isPlug hs.wired
      rwa [ConnectionKind.isPlug_eq_not, Bool.not_eq_true'] at hplug
    have ht : y.target = some s := hl.up hs.wired
    simp [Workspace.link?, connection_eq_ok.mpr hy, bind, Except.bind, pure, Except.pure, ht, hk]

theorem link?_eq_none (h : ws.link? c = .ok none) :
    ∃ x, ws.connections[c]? = some x ∧ x.target = none := by
  unfold Workspace.link? at h
  cases hx : ws.connections[c]? with
  | none => simp [Workspace.connection, hx, bind, Except.bind] at h
  | some x =>
    simp only [connection_eq_ok.mpr hx, bind, Except.bind, pure, Except.pure, Except.ok.injEq,
      Option.map_eq_none_iff] at h
    exact ⟨x, rfl, h⟩

theorem link?_eq_error {e : EditError α} (h : ws.link? c = .error e) :
    ws.connections[c]? = none := by
  unfold Workspace.link? at h
  cases hx : ws.connections[c]? with
  | none => rfl
  | some x => simp [connection_eq_ok.mpr hx, bind, Except.bind, pure, Except.pure] at h

end Workspace

namespace Edit

open Workspace

variable {ws : Workspace α} {c s p : ConnectionId} {child : BlockId}

theorem unlink_leads (ws : Workspace α) (c : ConnectionId) :
    Leads (fun t => t = ws ∧ ws.Sound) (unlink c)
      (fun _ t => (t = ws ∧ ws.link? c = .ok none) ∨
        ∃ s p child, ws.link? c = .ok (some (s, p)) ∧ ws.Cuts s p child t)
      fun t => t = ws ∧ ws.connections[c]? = none := by
  unfold unlink
  refine (Leads.ask ?_).bind fun found => ?_
  · rintro _ e ⟨rfl, -⟩ he
    exact ⟨rfl, link?_eq_error he⟩
  cases found with
  | none =>
    refine Leads.pure ?_
    rintro _ ⟨⟨rfl, -⟩, h⟩
    exact Or.inl ⟨rfl, h⟩
  | some l =>
    obtain ⟨s, p⟩ := l
    refine (Leads.connection ?_).bind fun y => ?_
    · rintro _ ⟨⟨rfl, hs⟩, h⟩ hn
      obtain ⟨⟨w, v, hl⟩, -⟩ := link?_eq_some h hs
      obtain ⟨z, hz, -⟩ := connection_of_wire hl.plug
      rw [hn] at hz
      cases hz
    refine (Leads.updateConnection (Q := fun _ t =>
      (ws.Sound ∧ ws.link? c = .ok (some (s, p)) ∧ ws.connections[p]? = some y) ∧
      (∀ d : ConnectionId, t.connections[d]? = (ws.connections[d]?).map
        fun y : Connection α => if d = s then { y with target := none } else y) ∧
      t = { ws with connections := t.connections }) ?_ ?_).bind fun _ => ?_
    · rintro _ t x ⟨⟨⟨rfl, hs⟩, h⟩, hy⟩ - hc ht
      exact ⟨⟨hs, h, hy⟩, hc, ht⟩
    · rintro _ ⟨⟨⟨rfl, hs⟩, h⟩, -⟩ hn
      obtain ⟨⟨w, v, hl⟩, -⟩ := link?_eq_some h hs
      obtain ⟨z, hz, -⟩ := connection_of_wire hl.socket
      rw [hn] at hz
      cases hz
    refine (Leads.updateConnection (Q := fun _ t =>
      (ws.Sound ∧ ws.link? c = .ok (some (s, p)) ∧ ws.connections[p]? = some y) ∧
      (∀ d : ConnectionId, t.connections[d]? = (ws.connections[d]?).map
        fun y : Connection α => if d = s ∨ d = p then { y with target := none } else y) ∧
      t = { ws with connections := t.connections }) ?_ ?_).bind fun _ => ?_
    · rintro t t' x ⟨hf, hc, ht⟩ - hc' ht'
      refine ⟨hf, fun d => ?_, by rw [ht', ht]⟩
      rw [hc', hc, Option.map_map]
      congr 1
      funext z
      by_cases hd : d = p
      · subst hd
        by_cases hd' : d = s <;> simp [hd']
      · simp [hd]
    · rintro t ⟨⟨hs, h, hy⟩, hc, ht⟩ hn
      rw [hc, hy] at hn
      cases hn
    refine (Leads.alter (Q := fun _ (t : Workspace α) =>
      (ws.Sound ∧ ws.link? c = .ok (some (s, p)) ∧ ws.connections[p]? = some y) ∧
      (∀ d : ConnectionId, t.connections[d]? = (ws.connections[d]?).map
        fun y : Connection α => if d = s ∨ d = p then { y with target := none } else y) ∧
      t = { ws with
        connections := t.connections
        top := if ws.top.contains y.block then ws.top else ws.top ++ [y.block] })
      ?_).bind fun _ => ?_
    · rintro t ⟨hf, hc, ht⟩
      exact ⟨hf, hc, by rw [ht]⟩
    refine Leads.fire ?_
    rintro t ⟨⟨hs, h, hy⟩, hc, ht⟩
    obtain ⟨⟨w, v, hl⟩, -⟩ := link?_eq_some h hs
    obtain ⟨z, hz, rfl⟩ := connection_of_wire hl.plug
    rw [hy] at hz
    cases hz
    exact Or.inr ⟨s, p, y.block, h, ⟨w, _, hl, rfl⟩, hc, by rw [ht]⟩

/-- Link two ends without regard to where they lie. -/
def mate (socket plug : ConnectionId) (child : BlockId) : Edit α Unit := do
  updateConnection socket fun c => { c with target := some plug }
  updateConnection plug fun c => { c with target := some socket }
  modify fun ws => { ws with top := ws.top.filter (· ≠ child) }

theorem join_eq_mate [Scalar α] (socket plug : ConnectionId) (child : BlockId) :
    (join socket plug child : Edit α Unit) =
      mate socket plug child >>= fun _ => bringToSocket socket >>= fun _ =>
        fire (.connect socket child) := by
  simp only [join, mate, bind_assoc]

/-- Two ends are tied but for the report. -/
theorem mate_leads (ws : Workspace α) (s p : ConnectionId) (child : BlockId) :
    Leads (fun t => t = ws ∧ ws.Sound ∧
        ∃ w v, ws.graph.Mates s p w v ∧ w.target = none ∧ v.target = none ∧ v.block = child)
      (mate s p child)
      (fun _ t => ws.Ties s p child { t with events := ws.events.fire (.connect s child) } ∧
        t.events = ws.events)
      fun _ => False := by
  unfold mate
  refine (Leads.updateConnection (Q := fun _ t =>
    (∃ w v, ws.graph.Mates s p w v ∧ w.target = none ∧ v.target = none ∧ v.block = child) ∧
    (∀ d : ConnectionId, t.connections[d]? = (ws.connections[d]?).map
      fun y : Connection α => if d = s then { y with target := some p } else y) ∧
    t = { ws with connections := t.connections }) ?_ ?_).bind fun _ => ?_
  · rintro _ t x ⟨rfl, -, h⟩ - hc ht
    exact ⟨h, hc, ht⟩
  · rintro _ ⟨rfl, -, w, v, hm, -⟩ hn
    obtain ⟨z, hz, -⟩ := connection_of_wire hm.socket
    rw [hn] at hz
    cases hz
  refine (Leads.updateConnection (Q := fun _ t =>
    (∃ w v, ws.graph.Mates s p w v ∧ w.target = none ∧ v.target = none ∧ v.block = child) ∧
    (∀ d : ConnectionId, t.connections[d]? = (ws.connections[d]?).map
      fun y : Connection α => if d = s then { y with target := some p }
        else if d = p then { y with target := some s } else y) ∧
    t = { ws with connections := t.connections }) ?_ ?_).bind fun _ => ?_
  · rintro t t' x ⟨⟨w, v, hm, h⟩, hc, ht⟩ - hc' ht'
    refine ⟨⟨w, v, hm, h⟩, fun d => ?_, by rw [ht', ht]⟩
    rw [hc', hc, Option.map_map]
    congr 1
    funext z
    by_cases hd : d = s
    · subst hd
      simp [hm.ne]
    · simp [hd]
  · rintro t ⟨⟨w, v, hm, -⟩, hc, ht⟩ hn
    obtain ⟨z, hz, -⟩ := connection_of_wire hm.plug
    rw [hc, hz] at hn
    cases hn
  refine Leads.alter ?_
  rintro t ⟨hm, hc, ht⟩
  exact ⟨⟨hm, hc, by rw [ht]⟩, by rw [ht]⟩

/-- The plug ends up on the socket, and what hangs on it moves along. -/
theorem join_leads [Scalar α] (ws : Workspace α) (s p : ConnectionId) (child : BlockId) :
    Leads (fun t => t = ws ∧ ws.Sound ∧
        ∃ w v, ws.graph.Mates s p w v ∧ w.target = none ∧ v.target = none ∧ v.block = child)
      (join s p child)
      (fun _ t => ∃ t₁, ws.Ties s p child t₁ ∧ t₁.Glides (t₁.Branch child) t)
      fun _ => False := by
  rw [join_eq_mate]
  refine Leads.bind (Q := fun _ t => ws.Sound ∧
    ws.Ties s p child { t with events := ws.events.fire (.connect s child) } ∧
      t.events = ws.events) ?_ fun _ => ?_
  · exact ((mate_leads ws s p child).frame (c := ws.Sound)).weaken
      (fun _ h => ⟨h, h.2.1⟩) (fun _ _ h => ⟨h.2, h.1⟩) fun _ h => h.1
  refine Leads.bind (Q := fun _ t => ∃ t₁ : Workspace α, ws.Ties s p child
    { t₁ with events := ws.events.fire (.connect s child) } ∧ t₁.events = ws.events ∧
      t₁.Glides (t₁.Branch child) t) ?_ fun _ => ?_
  · refine Leads.fix fun t => ?_
    refine ((bringToSocket_leads t s).frame (c := ws.Sound ∧
      ws.Ties s p child { t with events := ws.events.fire (.connect s child) } ∧
        t.events = ws.events)).weaken ?_ ?_ ?_
    · rintro _ ⟨rfl, hs, ht, he⟩
      obtain ⟨w, v, hm, -⟩ := ht.mates
      obtain ⟨x, hx, -⟩ := connection_of_wire hm.socket
      have hsound := ht.sound hs
      exact ⟨⟨rfl, ⟨hsound.wired, hsound.blockIds, hsound.connectionIds, hsound.registry⟩,
        _, by rw [ht.connections, hx]; rfl⟩, hs, ht, he⟩
    · rintro _ t' ⟨h, hs, ht, he⟩
      refine ⟨t, ht, he, h.mono ?_⟩
      rintro z ⟨a, ha, hz⟩
      have hchild : t.across s = some child := by
        obtain ⟨w, v, hm, -, -, rfl⟩ := ht.mates
        obtain ⟨x, hx, rfl⟩ := connection_of_wire hm.socket
        obtain ⟨y, hy, rfl⟩ := connection_of_wire hm.plug
        have hts : t.connections[s]? = some { x with target := some p } := by
          have := ht.connections s
          rw [hx, Option.map_some, if_pos rfl] at this
          exact this
        have htp : t.connections[p]? = some { y with target := some s } := by
          have := ht.connections p
          rw [hy, Option.map_some, if_neg hm.ne.symm, if_pos rfl] at this
          exact this
        simp [across, targetOf_eq hts, htp, Connection.wire]
      rw [hchild, Option.some.injEq] at ha
      exact ha ▸ hz
    · exact fun _ h => h.1
  · refine Leads.fire ?_
    rintro t ⟨t₁, ht, he, h⟩
    refine ⟨_, ht, ?_⟩
    rw [h.events, he]
    exact h.withEvents _

end Edit

end BlockEditor
