import BlockEditor.Proofs.Workspace.Likeness
import BlockEditor.Workspace.Layout

/-!
# Moving blocks about

To move blocks, to mark them as being dragged and to report it changes nothing about what hangs on
what, and nothing about what a block carries. Only a place that is not finite is refused.
-/

namespace BlockEditor

variable {α : Type}

/-- A place was refused, and nothing else. -/
def EditError.NonFinite (e : EditError α) : Prop :=
  ∃ x y, e = .nonFiniteLocation x y

namespace Workspace

variable {ws ws' ws'' : Workspace α} {id x a : BlockId} {c : ConnectionId} {b b' : Block α}
  {y : Connection α}

/-- The workspaces differ in places, in marks of a drag, and in what was reported and put off. -/
structure Drifts (ws ws' : Workspace α) : Prop where
  blocks : ∀ x : BlockId, (ws'.blocks[x]?).map Block.looks = (ws.blocks[x]?).map Block.looks
  connections : ∀ c : ConnectionId,
    (ws'.connections[c]?).map Connection.unplaced = (ws.connections[c]?).map Connection.unplaced
  rest : ws' = { ws with
    blocks := ws'.blocks
    connections := ws'.connections
    events := ws'.events
    tasks := ws'.tasks }

namespace Drifts

theorem refl (ws : Workspace α) : Drifts ws ws :=
  ⟨fun _ => rfl, fun _ => rfl, rfl⟩

theorem trans (h : Drifts ws ws') (h' : Drifts ws' ws'') : Drifts ws ws'' where
  blocks x := (h'.blocks x).trans (h.blocks x)
  connections c := (h'.connections c).trans (h.connections c)
  rest := by
    rw [h'.rest, h.rest]

theorem ids (h : Drifts ws ws') : ws'.ids = ws.ids := by
  rw [h.rest]

theorem registry (h : Drifts ws ws') : ws'.registry = ws.registry := by
  rw [h.rest]

theorem top (h : Drifts ws ws') : ws'.top = ws.top := by
  rw [h.rest]

theorem block (h : Drifts ws ws') (hb : ws.blocks[x]? = some b) :
    ∃ b', ws'.blocks[x]? = some b' ∧ b'.looks = b.looks := by
  have hx := h.blocks x
  rw [hb, Option.map_some, Option.map_eq_some_iff] at hx
  exact hx

theorem symm_block (h : Drifts ws ws') (hb : ws'.blocks[x]? = some b) :
    ∃ b', ws.blocks[x]? = some b' ∧ b'.looks = b.looks := by
  have hx := h.blocks x
  rw [hb, Option.map_some] at hx
  exact Option.map_eq_some_iff.mp hx.symm

theorem connection (h : Drifts ws ws') (hy : ws.connections[c]? = some y) :
    ∃ y', ws'.connections[c]? = some y' ∧ y'.unplaced = y.unplaced := by
  have hc := h.connections c
  rw [hy, Option.map_some, Option.map_eq_some_iff] at hc
  exact hc

theorem symm_connection (h : Drifts ws ws') (hy : ws'.connections[c]? = some y) :
    ∃ y', ws.connections[c]? = some y' ∧ y'.unplaced = y.unplaced := by
  have hc := h.connections c
  rw [hy, Option.map_some] at hc
  exact Option.map_eq_some_iff.mp hc.symm

theorem live (h : Drifts ws ws') (hx : ws.Live x) : ws'.Live x := by
  obtain ⟨b, hb⟩ := hx
  obtain ⟨b', hb', -⟩ := h.block hb
  exact ⟨b', hb'⟩

theorem graph (h : Drifts ws ws') : ws'.graph = ws.graph := by
  have hends : ws'.graph.ends = ws.graph.ends := by
    funext x
    have hx := congrArg (Option.map fun u : Block Unit => u.roles) (h.blocks x)
    rw [Option.map_map, Option.map_map] at hx
    exact hx
  have hwire : ws'.graph.wire = ws.graph.wire := by
    funext c
    have hc := congrArg (Option.map fun u : Connection Unit => u.wire) (h.connections c)
    rw [Option.map_map, Option.map_map] at hc
    exact hc
  exact congrArg₂ Graph.mk hends hwire

theorem sound (h : Drifts ws ws') (hs : ws.Sound) : ws'.Sound where
  wired := by
    rw [h.graph]
    exact hs.wired
  blockIds hb := by
    obtain ⟨b', hb', -⟩ := h.symm_block hb
    rw [h.ids]
    exact hs.blockIds hb'
  connectionIds hy := by
    obtain ⟨y', hy', -⟩ := h.symm_connection hy
    rw [h.ids]
    exact hs.connectionIds hy'
  registry := by
    rw [h.registry]
    exact hs.registry

theorem agrees (h : Drifts ws ws') (r : BlockId) : Agrees r ws ws' where
  blocks x _ := h.blocks x
  sockets _ _ hy _ _ := h.connection hy
  owners _ _ hy _ := by
    obtain ⟨y', hy', he⟩ := h.connection hy
    exact ⟨y', hy', congrArg (fun u : Connection Unit => u.block) he⟩

end Drifts

/-- The workspaces differ in marks of a drag, and in what was reported and put off. -/
structure Rests (ws ws' : Workspace α) : Prop extends Drifts ws ws' where
  places : ∀ x : BlockId,
    (ws'.blocks[x]?).map (·.position) = (ws.blocks[x]?).map (·.position)

theorem Rests.refl (ws : Workspace α) : Rests ws ws :=
  ⟨Drifts.refl ws, fun _ => rfl⟩

theorem Shifts.drifts {S : BlockId → Prop} (h : ws.Shifts S ws') : ws.Drifts ws' where
  blocks := h.looks
  connections := h.connections
  rest := by rw [h.rest]

/-- A block that looks the same but for a mark looks the same once it is marked again. -/
theorem looks_remark (hb : ws.blocks[id]? = some b) (hmark : b.placeholder)
    (hb' : ws'.blocks[id]? = some b') (h : (ws'.blocks[x]?).map Block.looks =
      ((ws.blocks.insert id { b with placeholder := false })[x]?).map Block.looks) :
    ((ws'.blocks.insert id { b' with placeholder := true })[x]?).map Block.looks =
      (ws.blocks[x]?).map Block.looks := by
  rw [getElem?_insert] at h ⊢
  by_cases hx : x = id
  · subst hx
    have hp : b = { b with placeholder := true } := by
      cases b
      simp_all
    rw [if_pos rfl, hb', Option.map_some, Option.map_some, Option.some.injEq] at h
    rw [if_pos rfl, hb, hp, Option.map_some, Option.map_some]
    exact congrArg (fun u : Block Unit => some { u with placeholder := true }) h
  · rwa [if_neg hx] at h ⊢

theorem drifts_insert (hb : ws.blocks[id]? = some b) (h : b'.looks = b.looks) :
    ws.Drifts { ws with blocks := ws.blocks.insert id b' } where
  blocks x := by
    change ((ws.blocks.insert id b')[x]?).map _ = _
    rw [getElem?_insert]
    split
    · next hx =>
      subst hx
      rw [hb, Option.map_some, Option.map_some, h]
    · rfl
  connections _ := rfl
  rest := rfl

theorem drifts_aside (ws : Workspace α) (e : EventLog α) (tasks : TaskQueue) :
    ws.Drifts { ws with events := e, tasks := tasks } :=
  ⟨fun _ => rfl, fun _ => rfl, rfl⟩

end Workspace

namespace Edit

open Workspace

variable {β : Type} {ws : Workspace α} {id : BlockId}

/-- The step moves things about, and refuses nothing but a place. -/
abbrev Wanders (ws : Workspace α) (m : Edit α β) : Prop :=
  Tells ws.Drifts m (fun _ => ws.Drifts) fun e t => e.NonFinite ∧ ws.Drifts t

/-- The step moves things about, and is not refused. -/
abbrev Roams (ws : Workspace α) (m : Edit α β) : Prop :=
  Leads ws.Drifts m (fun _ => ws.Drifts) fun _ => False

theorem Roams.wanders {m : Edit α β} (h : Roams ws m) : Wanders ws m :=
  Tells.of_leads h

theorem fire_roams (e : Event α) : Roams ws (fire e) :=
  Leads.fire fun t h => h.trans (drifts_aside t _ t.tasks)

theorem query_roams {q : Workspace α → Answer α β} (h : ∀ t, ws.Drifts t → ∃ a, q t = .ok a) :
    Leads ws.Drifts (query q) (fun a t => ws.Drifts t ∧ q t = .ok a) fun _ => False := by
  refine Leads.ask fun t e ht he => ?_
  obtain ⟨a, ha⟩ := h t ht
  rw [ha] at he
  cases he

theorem block_roams (hl : ws.Live id) : Leads ws.Drifts (query (·.block id))
    (fun b t => ws.Drifts t ∧ t.blocks[id]? = some b) fun _ => False := by
  refine Leads.block fun t h hn => ?_
  obtain ⟨b, hb⟩ := h.live hl
  rw [hn] at hb
  cases hb

theorem descendants_roams (hs : ws.Sound) (hl : ws.Live id) :
    Leads ws.Drifts (query (·.descendants id))
      (fun found t => ws.Drifts t ∧ ∀ x ∈ found, ws.Live x) fun _ => False := by
  have answer : ∀ t, ws.Drifts t → ∃ found, t.descendants id = .ok found ∧ ∀ x ∈ found, ws.Live x := by
    intro t h
    obtain ⟨b, hb⟩ := h.live hl
    obtain ⟨found, hfound, hmem⟩ := (h.sound hs).descendants hb
    refine ⟨found, hfound, fun x hx => ?_⟩
    obtain ⟨b₀, hb₀⟩ := hl
    have hbranch : ws.Branch id x := by
      have := hmem x hx
      rwa [h.graph] at this
    exact hs.live_of_branch hb₀ hbranch
  refine (query_roams fun t h => ?_).post ?_
  · obtain ⟨found, hfound, -⟩ := answer t h
    exact ⟨found, hfound⟩
  · rintro found t ⟨h, hfound⟩
    obtain ⟨found', hfound', hmem⟩ := answer t h
    rw [hfound] at hfound'
    cases hfound'
    exact ⟨h, hmem⟩

theorem parent_roams (hs : ws.Sound) (hl : ws.Live id) : Leads ws.Drifts (query (·.parent id))
    (fun found t => ws.Drifts t ∧ t.parent id = .ok found) fun _ => False := by
  refine query_roams fun t h => ?_
  obtain ⟨b, hb⟩ := h.live hl
  exact ⟨_, (h.sound hs).parent_eq hb⟩

/-- To change what is no look of a block. -/
theorem updateBlock_roams {f : Block α → Block α} (hf : ∀ b, (f b).looks = b.looks) :
    Leads (fun t => ws.Drifts t ∧ ws.Live id) (updateBlock id f) (fun _ => ws.Drifts)
      fun _ => False := by
  refine Leads.updateBlock (fun t b h hb => h.1.trans (drifts_insert hb (hf b))) fun t h hn => ?_
  obtain ⟨b, hb⟩ := h.1.live h.2
  rw [hn] at hb
  cases hb

/-- To change the looks of no block that was found below. -/
theorem restyle_roams (hs : ws.Sound) (hl : ws.Live id) {f : Block α → Block α}
    (hf : ∀ b, (f b).looks = b.looks) : Roams ws (do
      (← query (·.descendants id)).forM fun x => updateBlock x f) := by
  refine (descendants_roams hs hl).bind fun found => ?_
  refine Leads.post (Q := fun _ t => ws.Drifts t ∧ ∀ x ∈ found, ws.Live x) ?_ fun _ _ h => h.1
  refine Leads.forM_list found fun x hx => ?_
  exact ((updateBlock_roams hf).frame (c := ∀ x ∈ found, ws.Live x)).weaken
    (fun t h => ⟨⟨h.1, h.2 x hx⟩, h.2⟩) (fun _ _ h => h) fun _ h => h.1

theorem markDragging_roams [Scalar α] (hs : ws.Sound) (hl : ws.Live id) (on : Bool) :
    Roams ws (markDragging id on) :=
  restyle_roams hs hl fun _ => rfl

theorem markDragging_rests [Scalar α] (hs : ws.Sound) (hl : ws.Live id) (on : Bool) :
    Leads ws.Rests (markDragging id on) (fun _ => ws.Rests) fun _ => False := by
  have places : Keeps (fun t : Workspace α => ∀ x : BlockId,
      (t.blocks[x]?).map (·.position) = (ws.blocks[x]?).map (·.position)) (markDragging id on) := by
    refine Leads.bind (Leads.ask fun _ _ h _ => h) fun found => ?_
    refine Leads.pre (Leads.forM_list found fun x _ => Leads.updateBlock ?_ fun _ h _ => h)
      fun _ h => h.1
    intro t b h hb y
    rw [← h y]
    change ((t.blocks.insert x _)[y]?).map _ = _
    rw [getElem?_insert]
    split
    · next hxy => rw [hxy, hb]; rfl
    · rfl
  exact ((markDragging_roams hs hl on).and places).weaken (fun _ h => ⟨h.toDrifts, h.places⟩)
    (fun _ _ h => ⟨h.1, h.2⟩) fun _ h => h.1

section Places

variable [Scalar α]

theorem requireFinite_wanders (p : Point α) : Wanders ws (requireFinite p) :=
  Tells.ite (fun _ => Tells.of_leads (Leads.pure fun _ h => h)) fun _ _ ht =>
    ⟨ht, fun h => ⟨⟨p.x, p.y, rfl⟩, h⟩⟩

theorem requireFinite_roams {p : Point α} (hp : p.isFinite) : Roams ws (requireFinite p) := by
  unfold requireFinite
  rw [if_pos hp]
  exact Leads.pure fun _ h => h

theorem translate_roams (hs : ws.Sound) (hl : ws.Live id) (delta : Point α) :
    Roams ws (translate id delta) := by
  unfold translate
  exact Leads.ite (fun _ => Leads.pure fun _ h => h) fun _ => restyle_roams hs hl fun _ => rfl

/-- A move is refused for its place only. -/
theorem moveTo_wanders (hs : ws.Sound) (hl : ws.Live id) (location : Point α) (reason : String) :
    Wanders ws (moveTo id location reason) := by
  refine (requireFinite_wanders location).bind fun _ => ?_
  refine (Tells.of_leads (block_roams hl)).bind fun b => ?_
  refine (Tells.of_leads ((translate_roams hs hl _).pre fun _ h => h.1)).bind fun _ => ?_
  exact (fire_roams _).wanders

theorem moveTo_roams (hs : ws.Sound) (hl : ws.Live id) {location : Point α}
    (hp : location.isFinite) (reason : String) : Roams ws (moveTo id location reason) := by
  refine (requireFinite_roams hp).bind fun _ => (block_roams hl).bind fun b => ?_
  refine ((translate_roams hs hl _).pre fun _ h => h.1).bind fun _ => ?_
  exact fire_roams _

theorem bumpAside_wanders (hs : ws.Sound) (hl : ws.Live id) : Wanders ws (bumpAside id) := by
  refine (Tells.of_leads (Leads.get fun _ h => h)).bind fun u => ?_
  refine (Tells.of_leads (block_roams hl)).bind fun b => ?_
  exact (moveTo_wanders hs hl _ _).pre fun _ h => h.1

theorem moveToGrid_wanders (hs : ws.Sound) (hl : ws.Live id) : Wanders ws (moveToGrid id) := by
  have stay : ∀ on : Bool, Wanders ws (pure on) := fun on =>
    Tells.of_leads (Leads.pure fun _ h => h)
  unfold moveToGrid
  refine (Tells.of_leads (Leads.get fun _ h => h)).bind fun u => ?_
  split
  · exact stay false
  · refine Tells.ite (fun _ => stay false) fun _ => ?_
    refine (Tells.of_leads (parent_roams hs hl)).bind fun above => ?_
    refine Tells.ite (fun _ => (stay false).pre fun _ h => h.1) fun _ => ?_
    refine (Tells.of_leads ((block_roams hl).pre fun _ h => h.1)).bind fun b => ?_
    refine Tells.ite (fun _ => (stay false).pre fun _ h => h.1) fun _ => ?_
    exact ((moveTo_wanders hs hl _ _).pre fun _ h => h.1).bind fun _ => stay true

end Places

end Edit

end BlockEditor
