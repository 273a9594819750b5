import BlockEditor.Proofs.Coherence
import BlockEditor.Proofs.Lifting
import BlockEditor.Proofs.Sessions

/-!
# The start of a gesture

If a drag starts, then the dragged block is a root of the forest, and no candidate is held.
-/

namespace BlockEditor

open Workspace

variable {α : Type} [Scalar α]

namespace Workspace

variable {ws t : Workspace α} {x : BlockId} {b b' : Block α}

omit [Scalar α] in
theorem Lifted.insert {id : BlockId} (h : ws.Lifted x) (hb : ws.blocks[id]? = some b)
    (hr : b'.roles = b.roles) : Lifted { ws with blocks := ws.blocks.insert id b' } x where
  sound := h.sound.insert hb hr
  acyclic := by
    rw [graph_insert hb hr]
    exact h.acyclic
  live := by
    obtain ⟨b₀, hb₀⟩ := h.live
    by_cases hx : x = id
    · exact ⟨b', by change (ws.blocks.insert id b')[x]? = _; rw [getElem?_insert, if_pos hx]⟩
    · exact ⟨b₀, by change (ws.blocks.insert id b')[x]? = _; rw [getElem?_insert, if_neg hx, hb₀]⟩
  loose := by
    rw [graph_insert hb hr]
    exact h.loose

/-- Something has to be cut before a block can be dragged: the block hangs on something, or it
leaves the statement below behind. -/
inductive HasToDetach (ws : Workspace α) (x : BlockId) (heal : Bool) : Prop
  | child {a : BlockId} : ws.parent x = .ok (some a) → HasToDetach ws x heal
  | stack {a : BlockId} : heal = true → ws.nextBlock x = .ok (some a) → HasToDetach ws x heal

/-- No block hangs below itself. -/
structure Forest (ws : Workspace α) : Prop where
  sound : ws.Sound
  acyclic : ws.graph.Acyclic

omit [Scalar α] in
theorem Forest.drifts (h : ws.Forest) (hd : ws.Drifts t) : t.Forest where
  sound := hd.sound h.sound
  acyclic := by
    rw [hd.graph]
    exact h.acyclic

/-- The blocks are a forest, the block has the output, and its place is there. -/
structure Stands (ws : Workspace α) (x : BlockId) (b : Block α) (socket : Option ConnectionId) :
    Prop where
  sound : ws.Sound
  acyclic : ws.graph.Acyclic
  block : ∃ b', ws.blocks[x]? = some b' ∧ b'.output = b.output
  socket : ∀ c, socket = some c → b.output.isSome ∧ ∃ w, ws.graph.wire c = some w

omit [Scalar α] in
theorem Stands.congr {socket : Option ConnectionId} (h : ws.Stands x b socket) (ht : t.Sound)
    (hg : t.graph = ws.graph)
    (hb : ∀ b', ws.blocks[x]? = some b' → ∃ b'', t.blocks[x]? = some b'' ∧ b''.output = b'.output) :
    t.Stands x b socket where
  sound := ht
  acyclic := by
    rw [hg]
    exact h.acyclic
  block := by
    obtain ⟨b', hb', ho⟩ := h.block
    obtain ⟨b'', hb'', ho'⟩ := hb b' hb'
    exact ⟨b'', hb'', ho'.trans ho⟩
  socket := by
    rw [hg]
    exact h.socket

end Workspace

namespace Edit

variable {ws : Workspace α} {id copy : BlockId} {c : ConnectionId}

/-- A new block is plugged in. -/
theorem attach_lifts {u : Workspace α} (hl : ws.Lifted id) (hc : ∃ y, ws.connections[c]? = some y)
    (hf : ws.Fresh copy u) (hu : u.Sound) :
    Leads (· = u) (attach c copy) (fun _ t => t.Lifted id) fun _ => True := by
  have hlu := hl.fresh hf hu
  obtain ⟨y, hy⟩ := hc
  refine (Leads.ask fun _ _ _ _ => trivial).bind fun p => ?_
  refine Tells.each (connect_keeps (X := ∅) (Editor.stable_true (α := α)) c p) ?_
  rintro _ ⟨rfl, hp⟩
  obtain ⟨x, b, hx, hb, hfor⟩ := plugFor_eq_ok hp
  obtain ⟨z, hz, hzb, hk, hsock⟩ := hu.plugFor? hb hfor
  have hzk : z.kind.isPlug := by
    rw [hk, ConnectionKind.isPlug_opposite]
    exact hsock
  refine connect_lifts hlu (hf.not_closes hu hy hz hzb) ?_ ?_
  · rintro ⟨z', -, hz', -, hsocket, -⟩
    rw [hz, Option.some.injEq] at hz'
    subst hz'
    rw [ConnectionKind.isPlug_eq_not, hsocket] at hzk
    cases hzk
  · intro q v hq hv hvk hid
    rcases hq with rfl | rfl
    · rw [hx, Option.some.injEq] at hv
      subst hv
      rw [ConnectionKind.isPlug_eq_not, hsock] at hvk
      cases hvk
    · rw [hz, Option.some.injEq] at hv
      subst hv
      obtain ⟨b₀, hb₀⟩ := hl.live
      have hold := hl.sound.blockIds hb₀
      have hnew := hf.new
      rw [← hid, hzb] at hold
      omega

end Edit

namespace Act

variable {block : BlockId}

/-- A session of the block that holds no candidate. -/
def Empty (block : BlockId) (o : Option (DragSession α)) : Prop :=
  ∃ s, o = some s ∧ s.block = block ∧ s.candidate = none

omit [Scalar α] in
theorem Empty.map {f : DragSession α → DragSession α} (hb : ∀ s, (f s).block = s.block)
    (hc : ∀ s, (f s).candidate = s.candidate) (o : Option (DragSession α)) (h : Empty block o) :
    Empty block (o.map f) := by
  obtain ⟨s, rfl, hs, hcand⟩ := h
  exact ⟨f s, rfl, (hb s).trans hs, (hc s).trans hcand⟩

theorem leaveCopy_lifts (block : BlockId) (c : ConnectionId) (snapshot : Snapshot) :
    Leads (Beside (fun t => t.Lifted block ∧ ∃ y, t.connections[c]? = some y) (Empty block))
      (leaveCopy block c snapshot : Act α Unit) (fun _ => Beside (·.Lifted block) (Empty block))
      fun _ => True := by
  unfold leaveCopy
  refine Leads.bind (Q := fun copy => Beside (fun u => ∃ ws : Workspace α, (ws.Lifted block ∧
    ∃ y, ws.connections[c]? = some y) ∧ ws.Fresh copy u ∧ u.Sound) (Empty block))
    (edit_anyhow (Tells.fix fun ws => ?_)) fun copy => ?_
  · have hgrows := Edit.build_grows Editor.growing_true snapshot false Set.univ ws
    refine (hgrows.frame (c := ws.Lifted block ∧ ∃ y, ws.connections[c]? = some y)).weaken ?_ ?_
      fun _ _ => trivial
    · rintro _ ⟨rfl, h⟩
      exact ⟨⟨rfl, h.1.sound, trivial⟩, h⟩
    · rintro copy u ⟨⟨hsteady, hf, -⟩, h⟩
      exact ⟨ws, h, hf, hsteady.sound⟩
  refine Leads.bind (updateSession_beside (Empty.map (fun _ => rfl) fun _ => rfl)) fun _ => ?_
  refine Leads.bind (Q := fun _ => Beside (·.Lifted block) (Empty block)) (edit_anyhow ?_)
    fun _ => edit_anyhow (Leads.updateBlock (fun t b h hb => h.insert hb rfl) fun _ _ _ => trivial)
  refine Tells.each (Edit.attach_keeps (X := ∅) (Editor.stable_true (α := α)) c copy) ?_
  rintro u ⟨ws, ⟨hl, hc⟩, hf, hu⟩
  exact Edit.attach_lifts hl hc hf hu

omit [Scalar α] in
theorem valueSocket_stands (b : Block α) :
    Leads (Beside (fun t => t.Forest ∧ t.blocks[block]? = some b) (Empty block))
      (valueSocket b) (fun socket => Beside (·.Stands block b socket) (Empty block))
      fun _ => True := by
  unfold valueSocket
  cases ho : b.output with
  | none =>
    refine Leads.pure fun e h => ⟨⟨h.1.1.1, h.1.1.2, ⟨b, h.1.2, rfl⟩, ?_⟩, h.2⟩
    exact fun c hc => by cases hc
  | some output =>
    refine Leads.bind (edit_anyhow (Leads.connection fun _ _ _ => trivial)) fun x => Leads.pure ?_
    rintro e ⟨⟨⟨⟨hs, hac⟩, hb⟩, hx⟩, hsession⟩
    refine ⟨⟨hs, hac, ⟨b, hb, rfl⟩, fun c hc => ⟨by rw [ho]; rfl, ?_⟩⟩, hsession⟩
    obtain ⟨y, hy, -⟩ := hs.target hx hc
    exact ⟨_, wire_of_connection hy⟩

omit [Scalar α] in
theorem makeReal_stands (b : Block α) (socket : Option ConnectionId) :
    Leads (Beside (·.Stands block b socket) (Empty block)) (makeReal block socket)
      (fun _ => Beside (·.Stands block b socket) (Empty block)) fun _ => True := by
  unfold makeReal
  refine Leads.bind (Q := fun _ => Beside (·.Stands block b socket) (Empty block)) ?_ fun _ =>
    edit_anyhow (Leads.updateBlock ?_ fun _ _ _ => trivial)
  · refine Leads.forM_option _ (fun c _ => ?_) fun _ _ h => h
    refine Leads.bind (edit_anyhow (Leads.connection fun _ _ _ => trivial)) fun y => ?_
    refine Leads.ite (fun _ => ?_) fun _ => Leads.pure fun _ h => ⟨h.1.1, h.2⟩
    refine Leads.bind (ask_anyhow _) fun template => ?_
    refine Leads.bind (edit_anyhow (Q := fun _ => (·.Stands block b socket))
      (Leads.updateConnection ?_ fun _ _ _ => trivial)) fun _ =>
        updateSession_beside (Empty.map (fun _ => rfl) fun _ => rfl)
    rintro t t' x ⟨⟨h, -⟩, -⟩ - hc hr
    refine h.congr (h.sound.template hc hr) (graph_template hc (by rw [hr])) fun b' hb' => ?_
    exact ⟨b', by rw [hr, hb'], rfl⟩
  · intro t b' h hb'
    refine h.congr (h.sound.insert hb' rfl) (graph_insert hb' rfl) fun b'' hb'' => ?_
    rw [hb', Option.some.injEq] at hb''
    subst hb''
    refine ⟨{ b' with placeholder := false }, ?_, rfl⟩
    change (t.blocks.insert block _)[block]? = _
    rw [getElem?_insert, if_pos rfl]

theorem pullOut_stands (b : Block α) (socket : Option ConnectionId) (heal : Bool) :
    Leads (Beside (·.Stands block b socket) (Empty block)) (edit (Edit.pullOut block heal))
      (fun _ => Beside (fun t => t.Lifted block ∧
        ∀ c, socket = some c → ∃ y, t.connections[c]? = some y) (Empty block))
      fun _ => True := by
  refine edit_anyhow (Tells.each (Edit.pullOut_keeps (X := ∅) (Editor.stable_true (α := α)) block
    heal) fun ws h => ?_)
  refine (Edit.pullOut_lifts h.sound h.acyclic block heal).post fun _ t ⟨hl, hspares⟩ => ⟨hl, ?_⟩
  intro c hc
  obtain ⟨hsome, w, hw⟩ := h.socket c hc
  obtain ⟨b', hb', ho⟩ := h.block
  obtain ⟨target, ht⟩ := hspares b' hb' (by rw [ho]; exact hsome) c w hw
  obtain ⟨y, hy, -⟩ := connection_of_wire ht
  exact ⟨y, hy⟩

/-- A block that was detached is a root. -/
theorem detach_lifts (block : BlockId) (heal : Bool) :
    Leads (Beside Forest (Empty block)) (detach block heal : Act α Unit)
      (fun _ => Beside (·.Lifted block) (Empty block)) fun _ => True := by
  have empty : ∀ {f : DragSession α → DragSession α}, (∀ s, (f s).block = s.block) →
      (∀ s, (f s).candidate = s.candidate) → ∀ o, Empty block o → Empty block (o.map f) :=
    fun hb hc => Empty.map hb hc
  unfold detach
  refine Leads.bind (ask_anyhow _) fun keepsCopy => ?_
  refine Leads.bind (edit_anyhow (Leads.block fun _ _ _ => trivial)) fun b => ?_
  refine Leads.bind (updateSession_beside (empty (fun _ => rfl) fun _ => rfl)) fun _ => ?_
  refine Leads.bind ((valueSocket_stands b).pre fun _ h => ⟨⟨h.1.1.1, h.1.2⟩, h.2⟩) fun socket => ?_
  refine Leads.optional (c := b.placeholder = true) (fun _ => makeReal_stands b socket) ?_
  refine Leads.bind (ask_anyhow _) fun parentSocket => ?_
  refine Leads.either (Q := fun _ => Beside (·.Stands block b socket) (Empty block)) (fun _ => ?_)
    (fun _ => Leads.pure fun _ h => ⟨h.1.1, h.2⟩) fun childPlug => ?_
  · unfold plugBelow
    split
    · exact Leads.bind (ask_anyhow _) fun _ => Leads.pure fun _ h => ⟨h.1.1.1, h.2⟩
    · exact Leads.pure fun _ h => ⟨h.1.1, h.2⟩
  refine Leads.bind (updateSession_beside (empty (fun _ => rfl) fun _ => rfl)) fun _ => ?_
  dsimp only
  split
  · refine Leads.bind (pullOut_stands b socket heal) fun _ => ?_
    exact Leads.pre (request_beside _) fun _ h => ⟨h.1.1, h.2⟩
  · next c hc =>
    have hsocket : socket = some c := by
      split at hc
      · exact hc
      · cases hc
    refine Leads.bind (ask_anyhow _) fun snapshot => ?_
    refine Leads.bind ((pullOut_stands b socket heal).pre fun _ h => ⟨h.1.1, h.2⟩) fun _ => ?_
    refine Leads.bind ((leaveCopy_lifts block c snapshot).pre fun _ h => ⟨⟨h.1.1, h.1.2 c hsocket⟩,
      h.2⟩) fun _ => request_beside _

omit [Scalar α] in
/-- A block that need not be detached has no parent. -/
theorem hasToDetach_learns {P : Editor α → Prop} (block : BlockId) (heal : Bool) :
    Leads P (hasToDetach block heal)
      (fun on e => P e ∧ (on = true ↔ e.workspace.HasToDetach block heal) ∧
        (on = false → e.workspace.parent block = .ok none)) P := by
  unfold hasToDetach
  refine Leads.bind (ask_learns _) fun above => ?_
  refine Leads.ite (fun hsome => Leads.pure ?_) fun hnone => ?_
  · obtain ⟨a, rfl⟩ := Option.isSome_iff_exists.mp hsome
    rintro e ⟨he, hparent⟩
    exact ⟨he, ⟨fun _ => .child hparent, fun _ => rfl⟩, nofun⟩
  obtain rfl : above = none := by simpa using hnone
  have root : ∀ {e : Editor α} {a : BlockId}, e.workspace.parent block = .ok none →
      e.workspace.parent block ≠ .ok (some a) := by
    intro e a hparent hsome
    rw [hparent] at hsome
    cases hsome
  refine Leads.ite (fun hheal => ?_) fun hheal => Leads.pure ?_
  · refine Leads.bind ((ask_learns _).refused fun _ h => h.1) fun next => Leads.pure ?_
    rintro e ⟨⟨he, hparent⟩, hnext⟩
    refine ⟨he, ⟨fun hon => ?_, fun hhas => ?_⟩, fun _ => hparent⟩
    · obtain ⟨below, rfl⟩ := Option.isSome_iff_exists.mp hon
      exact .stack hheal hnext
    · cases hhas with
      | child hsome => exact (root hparent hsome).elim
      | stack _ hbelow =>
        rw [hnext, Except.ok.injEq] at hbelow
        rw [hbelow]
        rfl
  · rintro e ⟨he, hparent⟩
    refine ⟨he, ⟨nofun, fun hhas => ?_⟩, fun _ => hparent⟩
    cases hhas with
    | child hsome => exact (root hparent hsome).elim
    | stack hon => exact (hheal hon).elim

theorem loosen_lifts (s : DragSession α) (heal : Bool) (hnone : s.candidate = none) :
    Leads (Beside Forest (· = none)) (loosen s heal)
      (fun s' e => Beside (·.Lifted s.block) (· = none) e ∧ Empty s.block (some s'))
      fun _ => True := by
  unfold loosen
  refine Leads.bind ((hasToDetach_learns s.block heal).refused fun _ _ => trivial) fun on => ?_
  refine Leads.ite (fun hon => Leads.pure ?_) fun _ => ?_
  · obtain rfl : on = false := by simpa using hon
    rintro e ⟨⟨⟨hs, hac⟩, hidle⟩, -, hparent⟩
    have hparent := hparent rfl
    obtain ⟨b, hb⟩ := live_of_parent hparent
    exact ⟨⟨⟨hs, hac, ⟨b, hb⟩, (hs.parent_eq_none hb).mp hparent⟩, hidle⟩, s, rfl, rfl, hnone⟩
  refine Leads.bind (Q := fun _ => Beside (Forest) (Empty s.block))
    ?_ fun _ => ?_
  · refine Leads.pre (setSession_beside (S := fun _ => True) ⟨s, rfl, rfl, hnone⟩) ?_
    exact fun e h => ⟨h.1.1, trivial⟩
  refine Leads.bind (Q := fun _ => Beside (·.Lifted s.block) (Empty s.block)) ?_ fun _ =>
    takeSession_beside fun o h => ⟨h.choose, h.choose_spec.1⟩
  refine (detach_lifts s.block heal).tryCatch fun refusal => ?_
  refine Leads.bind (Q := fun _ _ => True) ?_ fun _ => Leads.throw fun _ _ => trivial
  refine Tells.of_result (abandon_keeps (Editor.stable_true (α := α)) s.block) fun e _ => ?_
  split <;> trivial

omit [Scalar α] in
theorem requireIdle_beside : Leads (fun e => e.workspace.Forest) (requireIdle : Act α Unit)
    (fun _ => Beside Forest (· = none)) fun _ => True := by
  refine Leads.bind (Leads.get (Q := fun e' e => e' = e ∧ e.workspace.Forest) fun _ h => ⟨rfl, h⟩)
    fun e => ?_
  cases hs : e.session with
  | none =>
    refine Leads.pure ?_
    rintro _ ⟨rfl, h⟩
    exact ⟨h, hs⟩
  | some s => exact Leads.throw fun _ _ => trivial

theorem takeUp_lifts (block : BlockId) (heal : Bool) :
    Leads (Beside Forest (· = none)) (takeUp block heal : Act α BlockId)
      (fun target => Beside (·.Lifted target) (Empty target)) fun _ => True := by
  unfold takeUp
  refine Leads.bind (ask_anyhow _) fun found => Leads.bind (ask_anyhow _) fun on => ?_
  refine Leads.optional (fun _ => Leads.throw fun _ _ => trivial) ?_
  refine Leads.bind (Q := fun _ => Beside Forest (· = none)) (edit_anyhow (Leads.alter
    fun t h => h.1.1.drifts (drifts_aside t _ t.tasks))) fun _ => ?_
  refine Leads.bind (ask_anyhow _) fun dragged => ?_
  refine Leads.bind (Q := fun _ => Beside Forest (· = none)) (edit_anyhow (Leads.fire
    fun t h => h.1.drifts (drifts_aside t _ t.tasks))) fun _ => ?_
  refine Leads.bind (Q := fun _ => Beside Forest (· = none)) ((ask_anyhow _).post
    fun _ _ h => ⟨h.1.1, h.2⟩) fun b => ?_
  refine Leads.bind (request_beside _) fun _ => Leads.bind (request_beside _) fun _ =>
    Leads.bind (request_beside _) fun _ => ?_
  refine Leads.bind (loosen_lifts _ heal rfl) fun s => ?_
  refine Leads.bind (Q := fun _ e => Beside (·.Lifted found.1) (· = none) e ∧
    Empty found.1 (some s)) ?_ fun _ => ?_
  · refine Leads.refused (Leads.frame (edit_anyhow ?_)) fun _ _ => trivial
    refine Tells.each (Edit.markDragging_keeps Editor.quiet_true found.1 true) fun t h => ?_
    exact (Edit.markDragging_roams h.sound h.live true).weaken
      (fun _ ht => ht ▸ Drifts.refl _) (fun _ _ hd => h.drifts hd) fun _ h => h.elim
  refine Leads.bind (Q := fun _ e => Beside (·.Lifted found.1) (· = none) e ∧
    Empty found.1 (some s)) ?_ fun _ => ?_
  · exact Leads.modify (fun _ ht => ht) fun _ h => h
  refine Leads.bind (Q := fun _ => Beside (·.Lifted found.1) (Empty found.1)) ?_ fun _ =>
    Leads.bind (enter_beside _) fun _ => Leads.pure fun _ h => h
  exact Leads.modify (fun _ ht => ht) fun _ h => ⟨h.1.1, h.2⟩

/-- A drag that is under way is of a block that hangs on nothing, and at first holds no
candidate. -/
theorem pickUp_lifts (block : BlockId) (heal : Bool) :
    Leads (fun e => e.workspace.Forest) (pickUp block heal : Act α BlockId)
      (fun target => Beside (·.Lifted target) (Empty target)) fun _ => True :=
  requireIdle_beside.bind fun _ => takeUp_lifts block heal

end Act

end BlockEditor
