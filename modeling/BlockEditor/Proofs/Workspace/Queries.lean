import BlockEditor.Proofs.Workspace.View

/-!
# Questions about what hangs on what

In a sound workspace the children of a block are what hangs on it in the graph, each once, and its
parent is what it hangs on. A walk down from a live block comes to live blocks only.
-/

namespace BlockEditor

/-- Two questions are answered if the first one is, and then the second one. -/
theorem bind_eq_ok {ε β γ : Type} {x : Except ε β} {f : β → Except ε γ} {r : γ} (h : (x >>= f) = .ok r) :
    ∃ a, x = .ok a ∧ f a = .ok r := by
  cases x with
  | ok a => exact ⟨a, rfl, h⟩
  | error e => cases h

theorem mapM_eq_ok {ε β γ : Type} {f : β → Except ε γ} {g : β → γ} {l : List β}
    (h : ∀ x ∈ l, f x = .ok (g x)) : l.mapM f = .ok (l.map g) := by
  induction l with
  | nil => rfl
  | cons x rest ih =>
    rw [List.mapM_cons, h x List.mem_cons_self, ih fun y hy => h y (List.mem_cons_of_mem x hy)]
    rfl

namespace Workspace

variable {α : Type} {ws : Workspace α} {id a : BlockId} {c d s p : ConnectionId} {b : Block α}
  {x y : Connection α}

def targetOf (ws : Workspace α) (c : ConnectionId) : Option ConnectionId :=
  (ws.connections[c]?).bind (·.target)

/-- The block at the other end of a link, if there is a link. -/
def across (ws : Workspace α) (c : ConnectionId) : Option BlockId :=
  (ws.targetOf c).bind fun d => (ws.connections[d]?).map (·.block)

theorem targetOf_eq (hx : ws.connections[c]? = some x) : ws.targetOf c = x.target := by
  simp [targetOf, hx]

theorem targetOf_eq_some : ws.targetOf c = some d ↔
    ∃ x, ws.connections[c]? = some x ∧ x.target = some d :=
  Option.bind_eq_some_iff

/-- A socket is linked to a block that hangs on its owner. -/
theorem across_socket (hx : ws.connections[s]? = some x) (hk : x.kind.isSocket) :
    ws.across s = some a ↔ ∃ p v, ws.graph.Link s p x.wire v ∧ v.block = a := by
  constructor
  · intro hs
    obtain ⟨p, hp, ha⟩ := Option.bind_eq_some_iff.mp hs
    obtain ⟨y, hy, rfl⟩ := Option.map_eq_some_iff.mp ha
    rw [targetOf_eq hx] at hp
    exact ⟨p, y.wire, ⟨wire_of_connection hx, wire_of_connection hy, hk, hp⟩, rfl⟩
  · rintro ⟨p, v, hl, rfl⟩
    obtain ⟨y, hy, rfl⟩ := connection_of_wire hl.plug
    have hp : x.target = some p := hl.down
    simp [across, targetOf_eq hx, hp, hy, Connection.wire]

/-- The sockets that blocks list are there, and so are the blocks at the other ends of all links. -/
structure Furnished (ws : Workspace α) : Prop where
  socket : ∀ {id : BlockId} {b : Block α} {c : ConnectionId}, ws.blocks[id]? = some b →
    c ∈ b.sockets → ∃ x, ws.connections[c]? = some x ∧ x.block = id ∧ x.kind.isSocket
  target : ∀ {c d : ConnectionId} {x : Connection α}, ws.connections[c]? = some x →
    x.target = some d → ∃ y, ws.connections[d]? = some y ∧ ∃ b, ws.blocks[y.block]? = some b

namespace Furnished

theorem blockAcross (h : ws.Furnished) (hx : ws.connections[c]? = some x) :
    ws.blockAcross c = .ok (ws.across c) := by
  unfold Workspace.blockAcross
  simp only [connection_eq_ok.mpr hx, bind, Except.bind]
  cases ht : x.target with
  | none => simp [across, targetOf_eq hx, ht, pure, Except.pure]
  | some d =>
    obtain ⟨y, hy, -⟩ := h.target hx ht
    simp [across, targetOf_eq hx, ht, hy, connection_eq_ok.mpr hy, pure, Except.pure]

/-- What a socket of a block is linked to hangs on the block. -/
theorem under_of_across (h : ws.Furnished) (hb : ws.blocks[id]? = some b) (hs : s ∈ b.sockets)
    (ha : ws.across s = some a) : ws.graph.Under a id := by
  obtain ⟨x, hx, hxb, hk⟩ := h.socket hb hs
  obtain ⟨p, v, hl, hv⟩ := (across_socket hx hk).mp ha
  exact ⟨s, p, x.wire, v, hl, hv, hxb⟩

end Furnished

namespace Sound

theorem target (h : ws.Sound) (hx : ws.connections[c]? = some x) (ht : x.target = some d) :
    ∃ y, ws.connections[d]? = some y ∧ y.target = some c ∧ y.kind = x.kind.opposite ∧
      checksFit x.check y.check ∧ y.block ≠ x.block := by
  obtain ⟨w, hw, hwt, hwk, hwf, hwb⟩ := h.wired.joined (wire_of_connection hx) ht
  obtain ⟨y, hy, rfl⟩ := connection_of_wire hw
  exact ⟨y, hy, hwt, hwk, hwf, hwb⟩

theorem furnished (h : ws.Sound) : ws.Furnished where
  socket := h.socket
  target hx ht := by
    obtain ⟨y, hy, -⟩ := h.target hx ht
    obtain ⟨b, hb, -⟩ := h.owner hy
    exact ⟨y, hy, b, hb⟩

theorem blockAcross (h : ws.Sound) (hx : ws.connections[c]? = some x) :
    ws.blockAcross c = .ok (ws.across c) :=
  h.furnished.blockAcross hx

theorem children (h : ws.Sound) (hb : ws.blocks[id]? = some b) :
    ws.children id = .ok (b.sockets.filterMap ws.across) := by
  unfold Workspace.children
  have hm : b.sockets.mapM ws.blockAcross = .ok (b.sockets.map ws.across) := by
    refine mapM_eq_ok fun c hc => ?_
    obtain ⟨x, hx, -⟩ := h.socket hb hc
    exact h.blockAcross hx
  simp only [block_eq_ok.mpr hb, hm, bind, Except.bind, pure, Except.pure, List.filterMap_map]
  rfl

theorem mem_children (h : ws.Sound) (hb : ws.blocks[id]? = some b) :
    a ∈ b.sockets.filterMap ws.across ↔ ws.graph.Under a id := by
  rw [List.mem_filterMap]
  constructor
  · rintro ⟨s, hs, ha⟩
    exact h.furnished.under_of_across hb hs ha
  · rintro ⟨s, p, w, v, hl, ha, hw⟩
    obtain ⟨x, hx, rfl⟩ := connection_of_wire hl.socket
    have hxb : x.block = id := hw
    exact ⟨s, h.mem_sockets_of hx hl.isSocket (hxb ▸ hb),
      (across_socket hx hl.isSocket).mpr ⟨p, v, hl, ha⟩⟩

theorem nodup_connections (h : ws.Sound) (hb : ws.blocks[id]? = some b) : b.connections.Nodup := by
  rw [← b.map_fst_roles]
  exact h.wired.once (ends_of_block hb)

theorem nodup_sockets (h : ws.Sound) (hb : ws.blocks[id]? = some b) : b.sockets.Nodup := by
  have hsub : (b.next.toList ++ b.inputs.filterMap (·.connection)).Sublist b.connections := by
    rw [Block.connections, List.append_assoc]
    exact List.sublist_append_right _ _
  exact List.Perm.nodup List.perm_append_comm ((h.nodup_connections hb).sublist hsub)

/-- No block hangs on another one twice. -/
theorem nodup_children (h : ws.Sound) (hb : ws.blocks[id]? = some b) :
    (b.sockets.filterMap ws.across).Nodup := by
  rw [List.nodup_iff_pairwise_ne, List.pairwise_filterMap]
  refine (List.nodup_iff_pairwise_ne.mp (h.nodup_sockets hb)).imp_of_mem
    fun {s t} hs ht hne a ha a' ha' => ?_
  rintro rfl
  obtain ⟨x, hx, -, hk⟩ := h.socket hb hs
  obtain ⟨y, hy, -, hk'⟩ := h.socket hb ht
  obtain ⟨p, v, hl, rfl⟩ := (across_socket hx hk).mp ha
  obtain ⟨q, u, hl', hu⟩ := (across_socket hy hk').mp ha'
  exact hne (hl.same_socket h.wired hl' hu.symm)

theorem firstTarget (l : List ConnectionId) (hl : ∀ c ∈ l, ∃ x, ws.connections[c]? = some x) :
    ws.firstTarget l = .ok (l.findSome? ws.targetOf) := by
  induction l with
  | nil => rfl
  | cons c rest ih =>
    obtain ⟨x, hx⟩ := hl c List.mem_cons_self
    have ih := ih fun d hd => hl d (List.mem_cons_of_mem c hd)
    unfold Workspace.firstTarget
    rw [connection_eq_ok.mpr hx, List.findSome?_cons, targetOf_eq hx]
    cases ht : x.target <;> simp [ht, ih, bind, Except.bind, pure, Except.pure]

theorem parentSocket (h : ws.Sound) (hb : ws.blocks[id]? = some b) :
    ws.parentSocket id = .ok (b.plugs.findSome? ws.targetOf) := by
  unfold Workspace.parentSocket
  rw [block_eq_ok.mpr hb]
  refine Sound.firstTarget b.plugs fun c hc => ?_
  obtain ⟨x, hx, -⟩ := h.plug hb hc
  exact ⟨x, hx⟩

theorem findSome?_plugs (h : ws.Sound) (hb : ws.blocks[id]? = some b) :
    b.plugs.findSome? ws.targetOf = some s ↔
      ∃ p w v, ws.graph.Link s p w v ∧ v.block = id := by
  constructor
  · intro hs
    obtain ⟨p, hp, ht⟩ := List.exists_of_findSome?_eq_some hs
    obtain ⟨x, hx, hxb, hk⟩ := h.plug hb hp
    rw [targetOf_eq hx] at ht
    obtain ⟨w, hl⟩ := Graph.link_of_plug h.wired (wire_of_connection hx) hk ht
    exact ⟨p, w, x.wire, hl, hxb⟩
  · rintro ⟨p, w, v, hl, hv⟩
    obtain ⟨x, hx, rfl⟩ := connection_of_wire hl.plug
    have hxb : x.block = id := hv
    have hp : p ∈ b.plugs := h.mem_plugs_of hx (hl.isPlug h.wired) (hxb ▸ hb)
    have only : ∀ q ∈ b.plugs, q = p := by
      intro q hq
      obtain ⟨y, hy, hyb, hk⟩ := h.plug hb hq
      exact h.wired.onePlug (wire_of_connection hy) hl.plug (hyb.trans hxb.symm) hk
        (hl.isPlug h.wired)
    obtain ⟨t, ht⟩ : ∃ t, b.plugs.findSome? ws.targetOf = some t := by
      rw [← Option.isSome_iff_exists, List.findSome?_isSome_iff]
      exact ⟨p, hp, by rw [targetOf_eq hx]; simp [show x.target = some s from hl.up h.wired]⟩
    obtain ⟨q, hq, hqt⟩ := List.exists_of_findSome?_eq_some ht
    rw [only q hq, targetOf_eq hx, show x.target = some s from hl.up h.wired] at hqt
    rw [ht, ← hqt]

/-- A live block hangs on whatever its parent is said to be, and is loose if it has none. -/
theorem parentSocket_cases (h : ws.Sound) (hb : ws.blocks[id]? = some b) :
    (∃ s p w v, ws.parentSocket id = .ok (some s) ∧ ws.graph.Link s p w v ∧ v.block = id) ∨
      ws.parentSocket id = .ok none ∧ ws.graph.Loose id := by
  rw [h.parentSocket hb]
  cases ht : b.plugs.findSome? ws.targetOf with
  | some s =>
    obtain ⟨p, w, v, hl, hv⟩ := (h.findSome?_plugs hb).mp ht
    exact Or.inl ⟨s, p, w, v, rfl, hl, hv⟩
  | none =>
    refine Or.inr ⟨rfl, (Graph.loose_iff h.wired).mpr fun a => ?_⟩
    rintro ⟨s, p, w, v, hl, hv, -⟩
    have := (h.findSome?_plugs hb).mpr ⟨p, w, v, hl, hv⟩
    rw [ht] at this
    cases this

theorem parent_eq (h : ws.Sound) (hb : ws.blocks[id]? = some b) :
    ws.parent id = .ok ((b.plugs.findSome? ws.targetOf).bind fun s =>
      (ws.connections[s]?).map (·.block)) := by
  unfold Workspace.parent
  simp only [h.parentSocket hb, bind, Except.bind]
  cases ht : b.plugs.findSome? ws.targetOf with
  | none => rfl
  | some s =>
    obtain ⟨p, w, v, hl, -⟩ := (h.findSome?_plugs hb).mp ht
    obtain ⟨x, hx, rfl⟩ := connection_of_wire hl.socket
    simp [hx, connection_eq_ok.mpr hx, pure, Except.pure]

theorem parent_eq_some (h : ws.Sound) (hb : ws.blocks[id]? = some b) :
    ws.parent id = .ok (some a) ↔ ws.graph.Under id a := by
  rw [h.parent_eq hb, Except.ok.injEq, Option.bind_eq_some_iff]
  constructor
  · rintro ⟨s, hs, ha⟩
    obtain ⟨p, w, v, hl, hv⟩ := (h.findSome?_plugs hb).mp hs
    obtain ⟨x, hx, rfl⟩ := connection_of_wire hl.socket
    rw [hx, Option.map_some, Option.some.injEq] at ha
    exact ⟨s, p, x.wire, v, hl, hv, ha⟩
  · rintro ⟨s, p, w, v, hl, hv, rfl⟩
    obtain ⟨x, hx, rfl⟩ := connection_of_wire hl.socket
    exact ⟨s, (h.findSome?_plugs hb).mpr ⟨p, x.wire, v, hl, hv⟩, by rw [hx]; rfl⟩

theorem parent_eq_none (h : ws.Sound) (hb : ws.blocks[id]? = some b) :
    ws.parent id = .ok none ↔ ws.graph.Loose id := by
  rw [Graph.loose_iff h.wired]
  constructor
  · intro hn a ha
    rw [(h.parent_eq_some hb).mpr ha] at hn
    cases hn
  · intro hn
    have hp := h.parent_eq hb
    cases ho : (b.plugs.findSome? ws.targetOf).bind fun s =>
        (ws.connections[s]?).map (·.block) with
    | none => rw [hp, ho]
    | some a =>
      rw [ho] at hp
      exact (hn a ((h.parent_eq_some hb).mp hp)).elim

/-- A walk down from a live block meets the block itself and what hangs below it. -/
theorem descendantsFrom (h : ws.Sound) (n : Nat) (seen : List BlockId)
    (hb : ws.blocks[id]? = some b) : ∃ l, ws.descendantsFrom n seen id = .ok l ∧
      ∀ a ∈ l, a ∈ seen ∨ a = id ∨ ws.graph.Below a id := by
  induction n generalizing seen id b with
  | zero => exact ⟨seen, rfl, fun a ha => Or.inl ha⟩
  | succ n ih =>
    have hfold : ∀ kids : List BlockId, (∀ k ∈ kids, ws.graph.Under k id) → ∀ seen,
        ∃ l, kids.foldlM (ws.descendantsFrom n) seen = .ok l ∧
          ∀ a ∈ l, a ∈ seen ∨ ws.graph.Below a id := by
      intro kids
      induction kids with
      | nil => exact fun _ seen => ⟨seen, rfl, fun a ha => Or.inl ha⟩
      | cons k rest ihk =>
        intro hk seen
        have hku := hk k List.mem_cons_self
        obtain ⟨bk, hbk⟩ := h.exists_lower hku
        obtain ⟨l, hl, hmem⟩ := ih seen hbk
        obtain ⟨l', hl', hmem'⟩ := ihk (fun y hy => hk y (List.mem_cons_of_mem k hy)) l
        refine ⟨l', ?_, fun a ha => ?_⟩
        · rw [List.foldlM_cons, hl]
          exact hl'
        · rcases hmem' a ha with ha | ha
          · rcases hmem a ha with ha | rfl | ha
            · exact Or.inl ha
            · exact Or.inr (.single hku)
            · exact Or.inr (.tail ha hku)
          · exact Or.inr ha
    obtain ⟨l, hl, hmem⟩ := hfold (b.sockets.filterMap ws.across)
      (fun k hk => (h.mem_children hb).mp hk) (id :: seen)
    refine ⟨l, ?_, fun a ha => ?_⟩
    · unfold Workspace.descendantsFrom
      rw [h.children hb]
      exact hl
    · rcases hmem a ha with ha | ha
      · rcases List.mem_cons.mp ha with rfl | ha
        · exact Or.inr (Or.inl rfl)
        · exact Or.inl ha
      · exact Or.inr (Or.inr ha)

theorem descendants (h : ws.Sound) (hb : ws.blocks[id]? = some b) :
    ∃ l, ws.descendants id = .ok l ∧ ∀ a ∈ l, a = id ∨ ws.graph.Below a id := by
  obtain ⟨l, hl, hmem⟩ := h.descendantsFrom ws.walkBound [] hb
  refine ⟨l.reverse, ?_, fun a ha => ?_⟩
  · unfold Workspace.descendants
    rw [hl]
    rfl
  · rcases hmem a (List.mem_reverse.mp ha) with ha | ha
    · cases ha
    · exact ha

theorem live_of_below (h : ws.Sound) (hb : ws.graph.Below a id) : ∃ b, ws.blocks[a]? = some b := by
  obtain ⟨x, hx, -⟩ := Relation.TransGen.head'_iff.mp hb
  exact h.exists_lower hx

theorem exists_of_above (h : ws.Sound) (hb : ws.graph.Below a id) :
    ∃ b, ws.blocks[id]? = some b := by
  obtain ⟨x, -, hx⟩ := Relation.TransGen.tail'_iff.mp hb
  exact h.exists_upper hx

end Sound

end Workspace

end BlockEditor
