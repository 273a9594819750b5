import BlockEditor.Proofs.Leads
import BlockEditor.Proofs.Workspace.Queries
import BlockEditor.Workspace.Layout

/-!
# Steps that only move blocks

Moving blocks changes where they lie, and laying a block out changes where its ends lie. Nothing
else changes, and in a sound workspace none of these steps is refused on a live block.
-/

namespace BlockEditor

variable {α β : Type}

/-- A block apart from where it lies. -/
def Block.unplaced (b : Block α) : Block Unit where
  typeName := b.typeName
  container := b.container
  units := b.units
  inputs := b.inputs
  output := b.output
  previous := b.previous
  next := b.next
  placeholder := b.placeholder
  movable := b.movable
  inFlyout := b.inFlyout
  dragging := b.dragging
  position := ⟨(), ()⟩
  copyOnDrag := b.copyOnDrag

/-- A connection apart from where it lies. -/
def Connection.unplaced (c : Connection α) : Connection Unit where
  block := c.block
  kind := c.kind
  offset := ⟨(), ()⟩
  check := c.check
  target := c.target
  template := c.template

theorem Block.roles_unplaced (b : Block α) : b.unplaced.roles = b.roles :=
  rfl

theorem Connection.wire_unplaced (c : Connection α) : c.unplaced.wire = c.wire :=
  rfl

section Questions

variable {ws ws' : Workspace α} {q : Workspace α → Answer α β} {a : β}

/-- To ask changes nothing. -/
theorem Edit.query_eq (h : q ws = .ok a) : Edit.query q ws = .ok a ws := by
  simp only [Edit.query, h]

theorem Edit.query_ok (h : Edit.query q ws = .ok a ws') : ws' = ws ∧ q ws = .ok a := by
  unfold Edit.query at h
  cases hq : q ws with
  | ok b =>
    simp only [hq] at h
    cases h
    exact ⟨rfl, rfl⟩
  | error refusal =>
    simp only [hq] at h
    cases h

theorem Edit.query_block {id : BlockId} {b : Block α} (hb : ws.blocks[id]? = some b) :
    (Edit.query (·.block id) : Edit α (Block α)) ws = .ok b ws :=
  query_eq (Workspace.block_eq_ok.mpr hb)

end Questions

namespace Leads

variable {P : Workspace α → Prop} {Q : Unit → Workspace α → Prop} {E : Workspace α → Prop}

/-- Ask something. -/
theorem ask {q : Workspace α → Answer α β} (h : ∀ ws e, P ws → q ws = .error e → E ws) :
    Leads P (Edit.query q) (fun a ws => P ws ∧ q ws = .ok a) E :=
  query (fun _ _ hp ha => ⟨hp, ha⟩) h

/-- Ask for a block. -/
theorem block {id : BlockId} (h : ∀ ws, P ws → ws.blocks[id]? = none → E ws) :
    Leads P (Edit.query (·.block id)) (fun b ws => P ws ∧ ws.blocks[id]? = some b) E := by
  refine query (fun ws b hp hb => ⟨hp, Workspace.block_eq_ok.mp hb⟩) fun ws e hp he => h ws hp ?_
  cases hb : ws.blocks[id]? with
  | none => rfl
  | some b =>
    rw [Workspace.block_eq_ok.mpr hb] at he
    cases he

/-- Ask for a connection. -/
theorem connection {c : ConnectionId} (h : ∀ ws, P ws → ws.connections[c]? = none → E ws) :
    Leads P (Edit.query (·.connection c)) (fun x ws => P ws ∧ ws.connections[c]? = some x) E := by
  refine query (fun ws x hp hx => ⟨hp, Workspace.connection_eq_ok.mp hx⟩) fun ws e hp he => h ws hp ?_
  cases hx : ws.connections[c]? with
  | none => rfl
  | some x =>
    rw [Workspace.connection_eq_ok.mpr hx] at he
    cases he

theorem updateBlock {id : BlockId} {f : Block α → Block α}
    (h : ∀ ws b, P ws → ws.blocks[id]? = some b →
      Q () { ws with blocks := ws.blocks.insert id (f b) })
    (h' : ∀ ws, P ws → ws.blocks[id]? = none → E ws) :
    Leads P (Edit.updateBlock id f) Q E :=
  (block h').bind fun b => Leads.modify (fun _ hs => hs) fun ws hp => h ws b hp.1 hp.2

theorem updateConnection {c : ConnectionId} {f : Connection α → Connection α}
    (h : ∀ ws t x, P ws → ws.connections[c]? = some x →
      (∀ d : ConnectionId, t.connections[d]? =
        (ws.connections[d]?).map fun y : Connection α => if d = c then f y else y) →
      t = { ws with connections := t.connections } → Q () t)
    (h' : ∀ ws, P ws → ws.connections[c]? = none → E ws) :
    Leads P (Edit.updateConnection c f) Q E := by
  refine (connection h').bind fun x => Leads.modify (fun _ hs => hs) fun ws ⟨hp, hx⟩ => ?_
  refine h ws _ x hp hx (fun d => ?_) rfl
  simp only [Std.ExtTreeMap.getElem?_insert, Std.LawfulEqCmp.compare_eq_iff_eq]
  by_cases hd : c = d
  · subst hd
    simp [hx]
  · have hd' : ¬ d = c := fun h => hd h.symm
    simp [hd, hd']

theorem fire {e : Event α} (h : ∀ ws, P ws → Q () { ws with events := ws.events.fire e }) :
    Leads P (Edit.fire e) Q E :=
  Leads.alter h

end Leads

namespace Workspace

variable {ws ws' ws'' : Workspace α} {S S' : BlockId → Prop} {id x : BlockId} {c : ConnectionId}

/-- Only the blocks in `S` and their ends lie elsewhere. -/
structure Shifts (S : BlockId → Prop) (ws ws' : Workspace α) : Prop where
  blocks : ∀ x : BlockId, (ws'.blocks[x]?).map Block.unplaced = (ws.blocks[x]?).map Block.unplaced
  connections : ∀ c : ConnectionId,
    (ws'.connections[c]?).map Connection.unplaced = (ws.connections[c]?).map Connection.unplaced
  still : ∀ x : BlockId, ¬ S x → ws'.blocks[x]? = ws.blocks[x]?
  fixed : ∀ (c : ConnectionId) (y : Connection α), ws.connections[c]? = some y → ¬ S y.block →
    ws'.connections[c]? = some y
  rest : ws' = { ws with blocks := ws'.blocks, connections := ws'.connections }

/-- Only the blocks in `S` lie elsewhere, with their ends where they were on them. -/
structure Glides (S : BlockId → Prop) (ws ws' : Workspace α) : Prop extends Shifts S ws ws' where
  ends : ws'.connections = ws.connections

namespace Shifts

theorem refl (S : BlockId → Prop) (ws : Workspace α) : Shifts S ws ws where
  blocks _ := rfl
  connections _ := rfl
  still _ _ := rfl
  fixed _ _ hy _ := hy
  rest := rfl

theorem trans (h : Shifts S ws ws') (h' : Shifts S ws' ws'') : Shifts S ws ws'' where
  blocks x := (h'.blocks x).trans (h.blocks x)
  connections c := (h'.connections c).trans (h.connections c)
  still x hx := (h'.still x hx).trans (h.still x hx)
  fixed c y hy hs := h'.fixed c y (h.fixed c y hy hs) hs
  rest := by rw [h'.rest, h.rest]

theorem mono (h : Shifts S ws ws') (hS : ∀ x, S x → S' x) : Shifts S' ws ws' where
  blocks := h.blocks
  connections := h.connections
  still x hx := h.still x fun hs => hx (hS x hs)
  fixed c y hy hs := h.fixed c y hy fun h' => hs (hS _ h')
  rest := h.rest

theorem graph (h : Shifts S ws ws') : ws'.graph = ws.graph := by
  have hb : ∀ x : BlockId, (ws'.blocks[x]?).map Block.roles = (ws.blocks[x]?).map Block.roles := by
    intro x
    have := congrArg (Option.map Block.roles) (h.blocks x)
    simpa only [Option.map_map, Function.comp_def, Block.roles_unplaced] using this
  have hc : ∀ c : ConnectionId, (ws'.connections[c]?).map Connection.wire
      = (ws.connections[c]?).map Connection.wire := by
    intro c
    have := congrArg (Option.map Connection.wire) (h.connections c)
    simpa only [Option.map_map, Function.comp_def, Connection.wire_unplaced] using this
  simp only [Workspace.graph, funext hb, funext hc]

theorem block (h : Shifts S ws ws') {b : Block α} (hb : ws.blocks[x]? = some b) :
    ∃ b', ws'.blocks[x]? = some b' ∧ b'.unplaced = b.unplaced := by
  have := h.blocks x
  rw [hb, Option.map_some, Option.map_eq_some_iff] at this
  exact this

theorem connection (h : Shifts S ws ws') {y : Connection α} (hy : ws.connections[c]? = some y) :
    ∃ y', ws'.connections[c]? = some y' ∧ y'.unplaced = y.unplaced := by
  have := h.connections c
  rw [hy, Option.map_some, Option.map_eq_some_iff] at this
  exact this

theorem ids (h : Shifts S ws ws') : ws'.ids = ws.ids := by
  rw [h.rest]

theorem registry (h : Shifts S ws ws') : ws'.registry = ws.registry := by
  rw [h.rest]

theorem top (h : Shifts S ws ws') : ws'.top = ws.top := by
  rw [h.rest]

theorem events (h : Shifts S ws ws') : ws'.events = ws.events := by
  rw [h.rest]

theorem symm_block (h : Shifts S ws ws') {b : Block α} (hb : ws'.blocks[x]? = some b) :
    ∃ b', ws.blocks[x]? = some b' ∧ b'.unplaced = b.unplaced := by
  have := h.blocks x
  rw [hb, Option.map_some, eq_comm, Option.map_eq_some_iff] at this
  exact this

theorem symm_connection (h : Shifts S ws ws') {y : Connection α}
    (hy : ws'.connections[c]? = some y) :
    ∃ y', ws.connections[c]? = some y' ∧ y'.unplaced = y.unplaced := by
  have := h.connections c
  rw [hy, Option.map_some, eq_comm, Option.map_eq_some_iff] at this
  exact this

theorem sound (h : Shifts S ws ws') (hs : ws.Sound) : ws'.Sound where
  wired := by
    rw [h.graph]
    exact hs.wired
  blockIds hb := by
    obtain ⟨b', hb', -⟩ := h.symm_block hb
    rw [h.ids]
    exact hs.blockIds hb'
  connectionIds hx := by
    obtain ⟨y', hy', -⟩ := h.symm_connection hx
    rw [h.ids]
    exact hs.connectionIds hy'
  registry := by
    rw [h.registry]
    exact hs.registry

end Shifts

namespace Glides

theorem refl (S : BlockId → Prop) (ws : Workspace α) : Glides S ws ws :=
  ⟨.refl S ws, rfl⟩

theorem trans (h : Glides S ws ws') (h' : Glides S ws' ws'') : Glides S ws ws'' :=
  ⟨h.toShifts.trans h'.toShifts, h'.ends.trans h.ends⟩

theorem mono (h : Glides S ws ws') (hS : ∀ x, S x → S' x) : Glides S' ws ws' :=
  ⟨h.toShifts.mono hS, h.ends⟩

end Glides

/-- A block may be replaced by one with the same ends. -/
theorem graph_insert {b b' : Block α} (hb : ws.blocks[id]? = some b) (hr : b'.roles = b.roles) :
    ({ ws with blocks := ws.blocks.insert id b' } : Workspace α).graph = ws.graph := by
  have hends : ({ ws with blocks := ws.blocks.insert id b' } : Workspace α).graph.ends
      = ws.graph.ends := by
    funext x
    simp only [Workspace.graph, Std.ExtTreeMap.getElem?_insert, Std.LawfulEqCmp.compare_eq_iff_eq]
    by_cases hx : id = x
    · subst hx
      simp [hb, hr]
    · simp [hx]
  exact congrArg₂ Graph.mk hends rfl

theorem Sound.insert {b b' : Block α} (hs : ws.Sound) (hb : ws.blocks[id]? = some b)
    (hr : b'.roles = b.roles) :
    ({ ws with blocks := ws.blocks.insert id b' } : Workspace α).Sound where
  wired := by
    rw [graph_insert hb hr]
    exact hs.wired
  blockIds {x c} hx := by
    simp only [Std.ExtTreeMap.getElem?_insert, Std.LawfulEqCmp.compare_eq_iff_eq] at hx
    by_cases h : id = x
    · subst h
      exact hs.blockIds hb
    · rw [if_neg h] at hx
      exact hs.blockIds hx
  connectionIds := hs.connectionIds
  registry := hs.registry

theorem glides_updateBlock {b b' : Block α} (hb : ws.blocks[id]? = some b)
    (hf : b'.unplaced = b.unplaced) (hS : S id) :
    Glides S ws { ws with blocks := ws.blocks.insert id b' } where
  blocks x := by
    simp only [Std.ExtTreeMap.getElem?_insert, Std.LawfulEqCmp.compare_eq_iff_eq]
    split
    next h => rw [← h, hb, Option.map_some, Option.map_some, hf]
    next => rfl
  connections _ := rfl
  still x hx := by
    have hne : id ≠ x := fun h => hx (h ▸ hS)
    simp [Std.ExtTreeMap.getElem?_insert, hne]
  fixed _ _ hy _ := hy
  rest := rfl
  ends := rfl

def Live (ws : Workspace α) (id : BlockId) : Prop :=
  ∃ b, ws.blocks[id]? = some b

theorem not_live (h : ws.blocks[id]? = none) : ¬ ws.Live id := by
  rintro ⟨b, hb⟩
  rw [h] at hb
  cases hb

/-- The block itself and what hangs below it. -/
def Branch (ws : Workspace α) (id : BlockId) (x : BlockId) : Prop :=
  x = id ∨ ws.graph.Below x id

theorem live_of_parent {above : Option BlockId} (h : ws.parent id = .ok above) : ws.Live id := by
  obtain ⟨s, hs, -⟩ := bind_eq_ok h
  obtain ⟨b, hb, -⟩ := bind_eq_ok hs
  exact ⟨b, block_eq_ok.mp hb⟩

theorem live_of_descendants {l : List BlockId} (h : ws.descendants id = .ok l) : ws.Live id := by
  cases hb : ws.blocks[id]? with
  | some b => exact ⟨b, hb⟩
  | none =>
    have hc : ws.children id = .error (.unknownBlock id) := by
      simp [Workspace.children, Workspace.block, hb, bind, Except.bind]
    simp [Workspace.descendants, walkBound, Workspace.descendantsFrom, hc, bind, Except.bind] at h

/-- What is plugged into an end, with everything below it. -/
def Carried (ws : Workspace α) (s : ConnectionId) (x : BlockId) : Prop :=
  ∃ a, ws.across s = some a ∧ ws.Branch a x

theorem Sound.live_of_branch (h : ws.Sound) {b : Block α} (hb : ws.blocks[id]? = some b)
    (hx : ws.Branch id x) : ws.Live x := by
  rcases hx with rfl | hx
  · exact ⟨b, hb⟩
  · exact h.live_of_below hx

/-- What is plugged into a socket of a block belongs to the branch of the block. -/
theorem branch_of_carried {t : Workspace α} (hs : ws.Sound) (h : ws.Shifts S t)
    {b : Block α}
    (hb : ws.blocks[id]? = some b) (hc : c ∈ b.sockets) {z : BlockId} (hz : t.Carried c z) :
    ws.Branch id z := by
  obtain ⟨x, hx, hxb, hk⟩ := hs.socket hb hc
  obtain ⟨y, hy, he⟩ := h.connection hx
  have hyk : y.kind.isSocket := by
    rw [show y.kind = x.kind from congrArg (fun u : Connection Unit => u.kind) he]
    exact hk
  obtain ⟨a, ha, hza⟩ := hz
  obtain ⟨p, v, hl, hva⟩ := (across_socket hy hyk).mp ha
  rw [Branch, h.graph] at hza
  rw [h.graph] at hl
  have hu : ws.graph.Under a id :=
    ⟨c, p, y.wire, v, hl, hva, (congrArg (fun u : Connection Unit => u.block) he).trans hxb⟩
  rcases hza with rfl | hza
  · exact Or.inr (.single hu)
  · exact Or.inr (.tail hza hu)

theorem getElem?_place (places : List (ConnectionId × Point α))
    (m : Std.ExtTreeMap ConnectionId (Connection α)) (c : ConnectionId) :
    ((places.foldl (fun m (id, offset) => m.modify id fun c => { c with offset := offset }) m)[c]?).map
        Connection.unplaced = (m[c]?).map Connection.unplaced ∧
      (c ∉ places.map Prod.fst →
        (places.foldl (fun m (id, offset) => m.modify id fun c => { c with offset := offset }) m)[c]?
          = m[c]?) := by
  induction places generalizing m with
  | nil => exact ⟨rfl, fun _ => rfl⟩
  | cons place rest ih =>
    obtain ⟨d, offset⟩ := place
    obtain ⟨hi, hj⟩ := ih (m.modify d fun c => { c with offset := offset })
    simp only [List.foldl_cons]
    constructor
    · rw [hi, Std.ExtTreeMap.getElem?_modify]
      split
      next h =>
        rw [Option.map_map, ← Std.LawfulEqCmp.eq_of_compare h]
        rfl
      next => rfl
    · intro hc
      simp only [List.map_cons, List.mem_cons, not_or] at hc
      rw [hj hc.2, Std.ExtTreeMap.getElem?_modify, if_neg]
      intro h
      exact hc.1 (Std.LawfulEqCmp.eq_of_compare h).symm

end Workspace

namespace Edit

open Workspace

variable [Scalar α] {ws : Workspace α} {id : BlockId} {c s p : ConnectionId} {b : Block α}
  {x y : Connection α} {S : BlockId → Prop}

/-- Shifting is refused only if the block is gone. -/
theorem translate_leads (ws : Workspace α) (id : BlockId) (delta : Point α) :
    Leads (fun t => t = ws ∧ ws.Sound) (translate id delta)
      (fun _ t => ws.Glides (ws.Branch id) t) fun t => t = ws ∧ ¬ ws.Live id := by
  unfold translate
  refine Leads.ite (fun _ => Leads.pure ?_) fun _ => ?_
  · rintro _ ⟨rfl, -⟩
    exact Glides.refl _ _
  · refine (Leads.ask ?_).bind fun found => ?_
    · rintro _ e ⟨rfl, hs⟩ he
      refine ⟨rfl, ?_⟩
      rintro ⟨b, hb⟩
      obtain ⟨l, hl, -⟩ := hs.descendants hb
      rw [hl] at he
      cases he
    · have hloop : ∀ y ∈ found, Leads (fun t => ws.Glides (ws.Branch id) t ∧
            ∀ y ∈ found, ws.Branch id y ∧ ws.Live y)
          (updateBlock y fun b => { b with position := b.position + delta })
          (fun _ t => ws.Glides (ws.Branch id) t ∧ ∀ y ∈ found, ws.Branch id y ∧ ws.Live y)
          fun _ => False := by
        intro y hy
        refine Leads.updateBlock ?_ ?_
        · rintro t b ⟨h, hmem⟩ hb
          exact ⟨h.trans (glides_updateBlock hb rfl (hmem y hy).1), hmem⟩
        · rintro t ⟨h, hmem⟩ hn
          obtain ⟨b, hb⟩ := (hmem y hy).2
          obtain ⟨b', hb', -⟩ := h.block hb
          rw [hn] at hb'
          cases hb'
      refine (Leads.forM_list found hloop).weaken ?_ (fun _ _ h => h.1) fun _ h => h.elim
      rintro _ ⟨⟨rfl, hs⟩, hf⟩
      obtain ⟨b, hb⟩ := live_of_descendants hf
      obtain ⟨l, hl, hmem⟩ := hs.descendants hb
      rw [hl] at hf
      cases hf
      exact ⟨Glides.refl _ _, fun y hy => ⟨hmem y hy, hs.live_of_branch hb (hmem y hy)⟩⟩

theorem bringToSocket_leads (ws : Workspace α) (s : ConnectionId) :
    Leads (fun t => t = ws ∧ ws.Sound ∧ ∃ x, ws.connections[s]? = some x) (bringToSocket s)
      (fun _ t => ws.Glides (ws.Carried s) t) fun _ => False := by
  unfold bringToSocket
  refine (Leads.connection ?_).bind fun x => ?_
  · rintro _ ⟨rfl, hs, x, hx⟩ hn
    rw [hn] at hx
    cases hx
  cases ht : x.target with
  | none =>
    refine Leads.pure ?_
    rintro _ ⟨⟨rfl, -⟩, -⟩
    exact Glides.refl _ _
  | some p =>
    refine (Leads.connection ?_).bind fun y => ?_
    · rintro _ ⟨⟨rfl, hs, -⟩, hx⟩ hn
      obtain ⟨y, hy, -⟩ := hs.target hx ht
      rw [hn] at hy
      cases hy
    refine (Leads.ask ?_).bind fun at_ => ?_
    · rintro _ e ⟨⟨⟨rfl, hs, -⟩, hx⟩, -⟩ he
      obtain ⟨b, hb, -⟩ := hs.owner hx
      simp [endPosition, connection_eq_ok.mpr hx, block_eq_ok.mpr hb, bind, Except.bind, pure,
        Except.pure] at he
    refine (Leads.block ?_).bind fun child => ?_
    · rintro _ ⟨⟨⟨⟨rfl, hs, -⟩, -⟩, hy⟩, -⟩ hn
      obtain ⟨b, hb, -⟩ := hs.owner hy
      rw [hn] at hb
      cases hb
    refine ((translate_leads ws _ _).frame
      (c := ws.across s = some y.block ∧ ws.Live y.block)).weaken ?_ ?_ ?_
    · rintro _ ⟨⟨⟨⟨⟨rfl, hs, -⟩, hx⟩, hy⟩, -⟩, hc⟩
      exact ⟨⟨rfl, hs⟩, by simp [across, targetOf_eq hx, ht, hy], child, hc⟩
    · rintro _ t ⟨h, ha, -⟩
      exact h.mono fun z hz => ⟨y.block, ha, hz⟩
    · rintro _ ⟨⟨rfl, hn⟩, -, hl⟩
      exact hn hl

omit [Scalar α] in
theorem shifts_place {places : List (ConnectionId × Point α)}
    (h : ∀ c y, c ∈ places.map Prod.fst → ws.connections[c]? = some y → S y.block) :
    ws.Shifts S (ws.place places) where
  blocks _ := rfl
  connections c := (getElem?_place places ws.connections c).1
  still _ _ := rfl
  fixed c y hy hS := by
    refine Eq.trans ((getElem?_place places ws.connections c).2 fun hc => ?_) hy
    exact hS (h c y hc hy)
  rest := rfl

theorem mem_offsets (h : c ∈ (Layout.offsets b).map Prod.fst) : c ∈ b.plugs ∨ c ∈ b.sockets := by
  simp only [Layout.offsets, Layout.inputOffsets, List.map_append, List.map_map, List.mem_append,
    List.mem_map, Function.comp_apply, List.mem_filterMap, Option.map_eq_some_iff, Option.mem_toList] at h
  rcases h with (⟨d, hd, rfl⟩ | ⟨_, ⟨⟨i, n⟩, hi, d, hd, rfl⟩, rfl⟩) | ⟨d, hd, rfl⟩
  · exact Or.inl hd
  · exact Or.inr (mem_sockets.mpr (Or.inl ⟨i, (List.mem_zipIdx hi).2.2 ▸ List.getElem_mem _, hd⟩))
  · exact Or.inr (mem_sockets.mpr (Or.inr hd))

/-- The ends of the block are put where they belong, and then only blocks move. -/
theorem layOut_places (ws : Workspace α) (id : BlockId) :
    Leads (fun t => t = ws ∧ ws.Sound) (layOut id)
      (fun _ t => ∃ b, ws.blocks[id]? = some b ∧ ws.Shifts (ws.Branch id) (ws.place (Layout.offsets b)) ∧
        (ws.place (Layout.offsets b)).Glides (ws.Branch id) t)
      fun t => t = ws ∧ ¬ ws.Live id := by
  unfold layOut
  refine (Leads.block ?_).bind fun b => ?_
  · rintro _ ⟨rfl, -⟩ hn
    exact ⟨rfl, not_live hn⟩
  refine (Leads.get (Q := fun s t => (s = t) ∧ t = ws ∧ ws.Sound ∧ ws.blocks[id]? = some b) ?_).bind
    fun s => ?_
  · rintro _ ⟨⟨rfl, hs⟩, hb⟩
    exact ⟨rfl, rfl, hs, hb⟩
  dsimp only
  refine (Leads.alter (Q := fun _ t => (ws.Shifts (ws.Branch id) (ws.place (Layout.offsets b)) ∧
    (ws.place (Layout.offsets b)).Glides (ws.Branch id) t) ∧ s = ws ∧ ws.Sound ∧
    ws.blocks[id]? = some b) ?_).bind fun _ => ?_
  · rintro _ ⟨rfl, rfl, hs, hb⟩
    refine ⟨⟨shifts_place fun c y hc hy => Or.inl ?_, .refl _ _⟩, rfl, hs, hb⟩
    rcases mem_offsets hc with hc | hc
    · obtain ⟨x, hx, hxb, -⟩ := hs.plug hb hc
      rw [hy] at hx
      cases hx
      exact hxb
    · obtain ⟨x, hx, hxb, -⟩ := hs.socket hb hc
      rw [hy] at hx
      cases hx
      exact hxb
  refine (Leads.forM_list _ fun c hc => Leads.fix fun t => ?_).post
    fun _ _ h => ⟨b, h.2.2.2, h.1⟩
  have hcs : c ∈ b.sockets := (List.mem_filter.mp hc).1
  refine ((bringToSocket_leads t c).frame (c := (ws.Shifts (ws.Branch id)
    (ws.place (Layout.offsets b)) ∧ (ws.place (Layout.offsets b)).Glides (ws.Branch id) t) ∧ s = ws ∧
    ws.Sound ∧ ws.blocks[id]? = some b)).weaken ?_ ?_ ?_
  · rintro _ ⟨rfl, ⟨hput, h⟩, hsw, hs, hb⟩
    obtain ⟨x, hx, -⟩ := hs.socket hb hcs
    have hshift := hput.trans h.toShifts
    obtain ⟨y, hy, -⟩ := hshift.connection hx
    exact ⟨⟨rfl, hshift.sound hs, y, hy⟩, ⟨hput, h⟩, hsw, hs, hb⟩
  · rintro _ t' ⟨h', ⟨hput, h⟩, hsw, hs, hb⟩
    have hshift := hput.trans h.toShifts
    exact ⟨⟨hput, h.trans (h'.mono fun z hz => branch_of_carried hs hshift hb hcs hz)⟩, hsw, hs, hb⟩
  · exact fun _ h => h.1.elim

/-- Laying out is refused only if the block is gone. -/
theorem layOut_leads (ws : Workspace α) (id : BlockId) :
    Leads (fun t => t = ws ∧ ws.Sound) (layOut id)
      (fun _ t => ws.Live id ∧ ws.Shifts (ws.Branch id) t) fun t => t = ws ∧ ¬ ws.Live id :=
  (layOut_places ws id).post fun _ _ ⟨b, hb, hput, h⟩ => ⟨⟨b, hb⟩, hput.trans h.toShifts⟩

end Edit

end BlockEditor
