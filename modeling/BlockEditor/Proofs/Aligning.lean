import BlockEditor.Proofs.Outcomes
import BlockEditor.Proofs.Workspace.Levelling

/-!
# Edits leave plugs on their sockets

What is built or plugged in lies where it belongs. A cut disturbs nothing as long as no block hangs
below itself; so an edit starts from a forest, and may leave a cycle behind only with its last link.
-/

namespace BlockEditor

open Workspace

variable {α : Type}

namespace Workspace

variable [Scalar α] {ws t u : Workspace α} {id x child : BlockId} {b b' : Block α}
  {c s p q : ConnectionId} {o : Option Edit.Orphan} {X : Set ConnectionId}

/-- Every plug that is in a socket lies on it. -/
structure Flush (ws : Workspace α) : Prop where
  sound : ws.Sound
  level : ws.Level ∅

/-- What is more, no block hangs below itself. -/
structure Plumb (ws : Workspace α) : Prop extends Flush ws where
  acyclic : ws.graph.Acyclic

theorem Flush.steady (h : ws.Flush) : Steady (fun _ ws => ws.Level ∅) X ws :=
  ⟨h.sound, h.level⟩

theorem Steady.flush (h : Steady (fun _ ws => ws.Level ∅) X ws) : ws.Flush :=
  ⟨h.sound, h.keeps⟩

/-- A step that moves nothing and keeps every link. -/
theorem Flush.of_graph (h : ws.Flush) (ha : ws.Pins t) (ht : t.Sound)
    (hg : t.graph = ws.graph) : t.Flush :=
  ⟨ht, h.level.of_graph ha ht hg⟩

theorem Plumb.of_graph (h : ws.Plumb) (ha : ws.Pins t) (ht : t.Sound)
    (hg : t.graph = ws.graph) : t.Plumb :=
  ⟨h.toFlush.of_graph ha ht hg, hg ▸ h.acyclic⟩

/-- The property depends on nothing but where ends lie and how they are linked. -/
structure Spatial (P : Workspace α → Prop) : Prop where
  sound : ∀ {ws}, P ws → ws.Sound
  kept : ∀ {ws t : Workspace α}, P ws → ws.Pins t → t.Sound → t.graph = ws.graph → P t

theorem spatial_flush : Spatial (α := α) Flush :=
  ⟨fun h => h.sound, fun h => h.of_graph⟩

theorem spatial_plumb : Spatial (α := α) Plumb :=
  ⟨fun h => h.sound, fun h => h.of_graph⟩

namespace Spatial

variable {P : Workspace α → Prop}

theorem insert (hP : Spatial P) (h : P ws) (hb : ws.blocks[id]? = some b)
    (hr : b'.roles = b.roles) (hp : b'.position = b.position) :
    P { ws with blocks := ws.blocks.insert id b' } :=
  hP.kept h (.insert hb hp) ((hP.sound h).insert hb hr) (graph_insert hb hr)

theorem quiet (hP : Spatial P) : Quiet P where
  drag hb h := hP.insert h hb rfl rfl
  note _ h := hP.kept h (.of_eq rfl fun _ => rfl) ((hP.sound h).withEvents _) rfl
  group h := hP.kept h (.of_eq rfl fun _ => rfl) ((hP.sound h).withEvents _) rfl
  tasks h := by
    have hs := hP.sound h
    exact hP.kept h (.of_eq rfl fun _ => rfl) ⟨hs.wired, hs.blockIds, hs.connectionIds, hs.registry⟩
      rfl

end Spatial

theorem Plumb.cuts (h : ws.Plumb) (hc : ws.Cuts s p child t) : t.Plumb :=
  ⟨⟨hc.sound h.sound, h.level.cuts h.sound h.acyclic hc⟩, hc.acyclic h.sound h.acyclic⟩

theorem Flush.fells (h : ws.Flush) (hf : ws.Fells id t) : t.Flush := by
  obtain ⟨b, R, -, hl, hseal⟩ := hf.step
  exact ⟨hl.sound h.sound, h.level.loses h.sound hl hseal⟩

theorem Plumb.fells (h : ws.Plumb) (hf : ws.Fells id t) : t.Plumb := by
  refine ⟨h.toFlush.fells hf, ?_⟩
  obtain ⟨b, R, -, hl, -⟩ := hf.step
  exact hl.acyclic h.sound h.acyclic

omit [Scalar α] in
theorem Sound.loose_of_parent (hs : ws.Sound) (h : ws.parent id = .ok none) :
    ws.graph.Loose id := by
  obtain ⟨b, hb⟩ := live_of_parent h
  exact (hs.parent_eq_none hb).mp h

omit [Scalar α] in
theorem Cuts.under_of_ne {a : BlockId} (hc : ws.Cuts s q x u) (hs : ws.Sound)
    (hu : ws.graph.Under a id) (hne : a ≠ x) : u.graph.Under a id := by
  obtain ⟨w, v, hl, rfl⟩ := hc.link
  rw [hc.graph]
  exact hl.under_cut hs.wired hu hne

/-- A block may be taken out with everything below it, even if that breaks a cycle. -/
theorem Flush.takesOut (h : ws.Flush) (hc : ws.Cuts s q x u) (hf : u.Fells x t) : t.Flush := by
  obtain ⟨b, R, -, hl, hseal⟩ := hf.step
  have hu := hc.sound h.sound
  have hx : x ∈ R := by
    by_contra hx
    obtain ⟨b', hb'⟩ := hf.live
    have hkept := hl.kept x hx
    rw [hb', Option.map_some, hf.eq] at hkept
    exact not_live_removeTree u x ⟨_, hkept⟩
  refine ⟨hl.sound hu, h.level.pins ((Pins.cuts hc).trans (.loses hl hu)) (hl.sound hu) ?_⟩
  intro s' p' w v hlink hv
  obtain ⟨b', hb'⟩ := (hl.sound hu).exists_lower hlink.under
  refine hv.of_kept (R := (· ∈ R)) (hl.old hb').1 fun a y hunder ha => ?_
  have hne : a ≠ x := fun heq => ha (heq ▸ hx)
  obtain ⟨s₁, p₁, w₁, v₁, hl₁, rfl, rfl⟩ := hc.under_of_ne h.sound hunder hne
  obtain ⟨v', hl', hv'⟩ := hl.link_of_kept hu hseal hl₁ ha
  refine ⟨⟨s₁, p₁, w₁, v', hl', hv', rfl⟩, fun hR => ha (hseal hl₁ ?_)⟩
  exact (dead_iff_wire hl₁.socket).mpr (Or.inr hR)

theorem Flush.endows {template : Option Snapshot} (h : ws.Flush) (he : ws.Endows c template t) :
    t.Flush :=
  h.of_graph (.template he.connections he.blocks) (he.sound h.sound) he.graph

variable [Scalar.Exact α]

omit [Scalar.Exact α] in
theorem fine_acyclic (strict : Prop) (id : BlockId) :
    Fine (α := α) strict id fun ws => ws.graph.Acyclic where
  shifts _ hstep h := hstep.graph ▸ h
  sheds hs _ hstep h x := (h x).mono fun _ _ => hstep.under hs
  pushes hs hstep h _ x := (h x).mono fun _ _ => hstep.under hs

omit [Scalar α] [Scalar.Exact α] in
theorem coarse_acyclic : Coarse (α := α) fun ws => ws.graph.Acyclic where
  units {ws id b n} hb h := by
    have hgraph : ({ ws with blocks := ws.blocks.insert id { b with units := n } } :
        Workspace α).graph = ws.graph := graph_insert hb rfl
    rw [hgraph]
    exact h
  events h := h
  procedures h := h

theorem setUnits_level (id : BlockId) (n : Nat) :
    Leads (Good True id (Level (α := α) ∅)) (Edit.setUnits id n)
      (fun _ t => Good True id (Level ∅) t ∧ t.Live id) fun t => t.Sound ∧ t.Level ∅ := by
  refine Edit.setUnits_keeps (K := fun _ _ ws => ws.Level ∅) (Edit.handles_level id)
    (fun _ _ => Edit.handles_level id)
    (fun hs hb h => (spatial_flush.insert ⟨hs, h⟩ hb (by rfl) (by rfl)).level) (fun _ _ h => ?_)
    (fun _ _ h => h) n
  split
  · exact ⟨h.plugs, h.flush⟩
  · exact h

/-- What is built lies where it belongs. -/
theorem growing_level : Growing (α := α) True fun _ ws => ws.Level ∅ where
  mono _ h := h
  decorate hs hb hc hp h := (spatial_flush.insert ⟨hs, h⟩ hb (Block.roles_of_core hc) hp).level
  field {_ ws id b name value inputs} hs hb hf h := by
    have hr : Block.roles { b with inputs := inputs } = b.roles := by
      simp only [Block.roles, Edit.roles_setField hf]
    have hflush : (ws.setInputs id b inputs).Flush := spatial_flush.insert ⟨hs, h⟩ hb hr rfl
    exact ⟨hflush.level.plugs, hflush.level.flush⟩
  template hs hc ht h := (Flush.endows ⟨hs, h⟩ ⟨hc, ht⟩).level
  fill _ _ h := h
  newBlock typeName := by
    have handles := fun id => Edit.handles_level (α := α) (X := ∅) id
    refine (Edit.newBlock_keeps (K := fun _ _ ws => ws.Level ∅) (L := fun _ ws => ws.Level ∅)
      typeName (fun h => h) (fun hs hd hr h => h.raises hs (hs.registry typeName _ hd) hr)
      (fun _ => handles) (fun _ h => ⟨h.plugs, h.flush⟩) handles (fun id n => ?_)
      (fun h => ⟨h.plugs, h.flush⟩) fun h => h).weaken (fun _ h => h) (fun _ _ h => h.1.keeps)
      fun _ h => h.2
    exact setUnits_level id n
  setUnits id n := (setUnits_level id n).weaken (fun _ h => ⟨h.1, h.2.2.1, h.2.1⟩)
    (fun _ _ h => h.1.keeps) fun _ h => h.2
  hang ws c child := by
    refine (((Edit.hang_leads ws c child).and (Edit.hang_levels (X := ∅) ws c child)).frame
      (c := ws.Sound)).weaken ?_ ?_ fun _ _ => trivial
    · rintro _ ⟨rfl, h, hy, hl⟩
      exact ⟨⟨⟨rfl, h.sound, hy, hl⟩, rfl, h.sound, h.keeps, hy, hl⟩, h.sound⟩
    · rintro _ t ⟨⟨⟨p, u, hties, hstep⟩, hl⟩, hs⟩
      exact ⟨hstep.sound (hties.sound hs), hl⟩

end Workspace

namespace Edit

open Workspace

variable [Scalar α] [Scalar.Exact α] {ws t u : Workspace α} {id x child below : BlockId}
  {c s p q a b : ConnectionId} {g : Graph}

/-! ### Looks and texts -/

section Spatial

variable {P : Workspace α → Prop}

omit [Scalar.Exact α]

theorem decorate_stays (hP : Spatial P) (id : BlockId) {f : Block α → Block α}
    (hf : ∀ b, (f b).core = b.core) (hp : ∀ b, (f b).position = b.position) :
    Keeps P (updateBlock id f) :=
  Leads.updateBlock (fun _ _ h hb => hP.insert h hb (Block.roles_of_core (hf _)) (hp _))
    fun _ h _ => h

theorem setPlaceholder_stays (hP : Spatial P) (id : BlockId) (on : Bool) :
    Keeps P (setPlaceholder id on) :=
  decorate_stays hP id (fun _ => rfl) fun _ => rfl

theorem setMovable_stays (hP : Spatial P) (id : BlockId) (on : Bool) :
    Keeps P (setMovable id on) :=
  decorate_stays hP id (fun _ => rfl) fun _ => rfl

theorem setInFlyout_stays (hP : Spatial P) (id : BlockId) (on : Bool) :
    Keeps P (setInFlyout id on) :=
  decorate_stays hP id (fun _ => rfl) fun _ => rfl

theorem setCopyOnDrag_stays (hP : Spatial P) (id : BlockId) (value : Option Bool) :
    Keeps P (setCopyOnDrag id value) :=
  decorate_stays hP id (fun _ => rfl) fun _ => rfl

theorem setViewport_stays (hP : Spatial P) (viewport : Option (Rect α)) :
    Keeps P (setViewport viewport) := by
  refine Leads.alter fun ws h => ?_
  have hs := hP.sound h
  exact hP.kept h (.of_eq rfl fun _ => rfl) ⟨hs.wired, hs.blockIds, hs.connectionIds, hs.registry⟩
    rfl

theorem setField_stays (hP : Spatial P) (id : BlockId) (name value : String) :
    Keeps P (setField id name value) := by
  refine Leads.fix fun ws => ((setField_leads ws id name value).frame (c := P ws)).weaken
    (fun _ h => h) ?_ ?_
  · rintro _ t ⟨⟨b, inputs, procedures, hb, hf, rfl⟩, h⟩
    have hr : Block.roles { b with inputs := inputs } = b.roles := by
      simp only [Block.roles, roles_setField hf]
    have hset : P (ws.setInputs id b inputs) := hP.insert h hb hr rfl
    have hpins : ws.Pins (ws.setInputs id b inputs) := Pins.insert hb rfl
    have hgraph : (ws.setInputs id b inputs).graph = ws.graph := graph_insert hb hr
    have hs := hP.sound hset
    exact hP.kept h (t := { ws.setInputs id b inputs with procedures := procedures }) hpins
      ⟨hs.wired, hs.blockIds, hs.connectionIds, hs.registry⟩ hgraph
  · rintro _ ⟨⟨rfl, -⟩, h⟩
    exact h

theorem endow_stays (hP : Spatial P) (c : ConnectionId) (template : Option Snapshot) :
    Keeps P (updateConnection c fun y : Connection α => { y with template := template }) := by
  refine Leads.updateConnection (fun t t' y h _ hc hr => ?_) fun _ h _ => h
  have he : t.Endows c template t' := ⟨hc, hr⟩
  exact hP.kept h (.template hc he.blocks) (he.sound (hP.sound h)) he.graph

end Spatial

/-! ### Moves -/

/-- The links are as in the graph, and every plug lies on its socket. -/
def Rigid (g : Graph) (ws : Workspace α) : Prop :=
  ws.Flush ∧ ws.graph = g

omit [Scalar.Exact α] in
theorem spatial_rigid : Spatial (Rigid (α := α) g) :=
  ⟨fun h => h.1.sound, fun h hp ht hg => ⟨h.1.of_graph hp ht hg, hg.trans h.2⟩⟩

theorem translate_rigid (hl : g.Loose id) (delta : Point α) :
    Keeps (Rigid g) (translate id delta) := by
  refine Leads.fix fun ws => ?_
  refine (((translate_leads ws id delta).and (translate_levels (X := ∅) ws id delta)).frame
    (c := Rigid g ws)).weaken ?_ ?_ ?_
  · rintro _ ⟨rfl, hflush, rfl⟩
    exact ⟨⟨⟨rfl, hflush.sound⟩, rfl, hflush.sound, hflush.level, hl⟩, hflush, rfl⟩
  · rintro _ t ⟨⟨hshift, hlevel⟩, hflush, rfl⟩
    exact ⟨⟨hshift.sound hflush.sound, hlevel⟩, hshift.graph⟩
  · rintro _ ⟨⟨⟨rfl, -⟩, -⟩, h⟩
    exact h

omit [Scalar.Exact α] in
theorem fire_rigid (e : Event α) : Keeps (Rigid (α := α) g) (fire e) :=
  Leads.fire fun _ h => ⟨⟨h.1.sound.withEvents _, h.1.level.plugs, h.1.level.flush⟩, h.2⟩

/-- A branch that hangs on nothing may be moved. -/
theorem moveTo_rigid (hl : g.Loose id) (location : Point α) (reason : String) :
    Keeps (Rigid g) (moveTo id location reason) :=
  (requireFinite_keeps location).bind fun _ => (query_keeps _).bind fun _ =>
    (translate_rigid hl _).bind fun _ => fire_rigid _

theorem moveTo_loose (id : BlockId) (location : Point α) (reason : String) :
    Leads (fun t => t.Flush ∧ t.graph.Loose id) (moveTo id location reason) (fun _ => Flush)
      Flush := by
  have base := moveTo_keeps (Editor.stable_true.calm (X := ∅)) id location reason
  refine Tells.each base fun ws ⟨h, hl⟩ => ?_
  refine (moveTo_rigid hl location reason).weaken ?_ (fun _ _ h => h.1) fun _ h => h.1
  rintro _ rfl
  exact ⟨h, rfl⟩

theorem moveBy_loose (id : BlockId) (delta : Point α) (reason : String) :
    Leads (fun t => t.Flush ∧ t.graph.Loose id) (moveBy id delta reason) (fun _ => Flush) Flush :=
  ((query_keeps _).refused fun _ h => h.1).bind fun _ => moveTo_loose id _ reason

theorem bumpAside_loose (id : BlockId) :
    Leads (fun t => t.Flush ∧ t.graph.Loose id) (bumpAside (α := α) id) (fun _ => Flush) Flush :=
  Leads.bind (Q := fun _ (t : Workspace α) => t.Flush ∧ t.graph.Loose id) (Leads.get fun _ h => h)
    fun _ => moveBy_loose id _ _

theorem moveToGrid_flush (id : BlockId) : Keeps Flush (moveToGrid (α := α) id) := by
  unfold moveToGrid
  refine get_keeps.bind fun ws => ?_
  split
  · exact Leads.pure fun _ h => h
  refine Leads.ite (fun _ => Leads.pure fun _ h => h) fun _ => ?_
  refine (Leads.ask fun _ _ h _ => h).bind fun parent => ?_
  cases parent with
  | some above => exact Leads.pure fun _ h => h.1
  | none =>
    refine (Leads.block fun _ h _ => h.1).bind fun b => ?_
    refine Leads.ite (fun _ => Leads.pure fun _ h => h.1.1) fun _ => ?_
    refine ((moveTo_loose id _ _).pre ?_).bind fun _ => Leads.pure fun _ h => h
    exact fun t h => ⟨h.1.1, h.1.1.sound.loose_of_parent h.1.2⟩

theorem keepInView_flush (id : BlockId) : Keeps Flush (keepInView (α := α) id) := by
  unfold keepInView
  refine get_keeps.bind fun ws => ?_
  split
  · exact Leads.pure fun _ h => h
  refine (Leads.ask fun _ _ h _ => h).bind fun parent => ?_
  cases parent with
  | some above => exact Leads.pure fun _ h => h.1
  | none =>
    refine (Leads.block fun _ h _ => h.1).bind fun b => ?_
    refine Leads.ite (fun _ => Leads.pure fun _ h => h.1.1) fun _ => ?_
    refine ((moveTo_loose id _ _).pre ?_).bind fun _ => Leads.pure fun _ h => h
    exact fun t h => ⟨h.1.1, h.1.1.sound.loose_of_parent h.1.2⟩

/-! ### Cutting and building -/

theorem respawn_flush (c : ConnectionId) :
    Leads Flush (respawn c : Edit α (Option BlockId)) (fun _ => Flush) Flush := by
  refine Leads.fix fun ws => (respawn_keeps (X := ∅) growing_level ws c).weaken ?_
    (fun _ _ h => h.1.flush) fun _ h => h.1.flush
  rintro _ ⟨rfl, h⟩
  exact ⟨rfl, h.steady⟩

theorem respawn_plumb (c : ConnectionId) :
    Leads Plumb (respawn c : Edit α (Option BlockId)) (fun _ => Plumb) Plumb := by
  refine Leads.fix fun ws => ((respawn_keeps (X := ∅) growing_level ws c).frame
    (c := ws.Plumb)).weaken ?_ ?_ ?_
  · rintro _ ⟨rfl, h⟩
    exact ⟨⟨rfl, h.steady⟩, h⟩
  · rintro _ t ⟨⟨ht, hr⟩, h⟩
    exact ⟨ht.flush, hr.acyclic h.acyclic⟩
  · rintro t ⟨⟨ht, hr⟩, h⟩
    exact ⟨ht.flush, hr.acyclic h.acyclic⟩

omit [Scalar.Exact α] in
theorem unlink_plumb (c : ConnectionId) : Keeps Plumb (unlink c : Edit α Unit) := by
  refine Leads.fix fun ws => ((unlink_leads ws c).frame (c := ws.Plumb)).weaken ?_ ?_ ?_
  · rintro _ ⟨rfl, h⟩
    exact ⟨⟨rfl, h.sound⟩, h⟩
  · rintro _ t ⟨⟨rfl, -⟩ | ⟨s, p, child, -, hc⟩, h⟩
    · exact h
    · exact h.cuts hc
  · rintro _ ⟨⟨rfl, -⟩, h⟩
    exact h

theorem disconnect_plumb (c : ConnectionId) : Keeps Plumb (disconnect c : Edit α Unit) := by
  unfold disconnect
  refine (query_keeps _).bind fun found => ?_
  cases found with
  | none => exact Leads.pure fun _ h => h
  | some l => exact (unlink_plumb c).bind fun _ => (respawn_plumb l.1).bind fun _ =>
      Leads.pure fun _ h => h

theorem restore_plumb (s : Snapshot) :
    Leads Plumb (restore s : Edit α BlockId) (fun _ => Plumb) Plumb := by
  refine Leads.fix fun ws => ((build_grows growing_level s false ∅ ws).frame
    (c := ws.Plumb)).weaken ?_ ?_ ?_
  · rintro _ ⟨rfl, h⟩
    exact ⟨⟨rfl, h.steady⟩, h⟩
  · rintro _ t ⟨⟨ht, hf, -⟩, h⟩
    exact ⟨ht.flush, hf.acyclic ht.sound h.acyclic⟩
  · rintro t ⟨hs, h⟩
    exact ⟨hs.steady.flush, hs.acyclic h.acyclic⟩

theorem newBlock_plumb (typeName : String) :
    Leads Plumb (newBlock typeName : Edit α BlockId) (fun _ => Plumb) Plumb := by
  refine Leads.fix fun ws => ((newBlock_sprouts (X := ∅) growing_level ws typeName).frame
    (c := ws.Plumb)).weaken ?_ ?_ ?_
  · rintro _ ⟨rfl, h⟩
    exact ⟨⟨rfl, h.steady⟩, h⟩
  · rintro _ t ⟨ht, h⟩
    exact ⟨ht.steady.flush, ht.fresh.acyclic ht.steady.sound h.acyclic⟩
  · rintro t ⟨hs, h⟩
    exact ⟨hs.steady.flush, hs.acyclic h.acyclic⟩

/-! ### Plugging in -/

omit [Scalar.Exact α] in
/-- Nothing that is left moves when a socket is emptied, as long as what is handed back was part of
no cycle. -/
theorem evict_flush (s : ConnectionId) :
    Leads (fun t => t.Flush ∧ (∃ y, t.connections[s]? = some y ∧ y.kind.isSocket) ∧
        (t.graph.Acyclic ∨ ∀ a, t.across s = some a → t.isPlaceholder a))
      (evict s : Edit α (Option Orphan)) (fun _ => Flush) Flush := by
  refine Leads.fix fun ws => ((evict_leads ws s).frame (c := ws.Flush ∧
    (ws.graph.Acyclic ∨ ∀ a, ws.across s = some a → ws.isPlaceholder a))).weaken ?_ ?_ ?_
  · rintro _ ⟨rfl, h, hy, hor⟩
    exact ⟨⟨rfl, h.sound, hy⟩, h, hor⟩
  · rintro o t ⟨he, h, hor⟩
    have hvacant := he.of_vacant
    cases he with
    | free => exact h
    | stored hc hb hp _ hl hseal he =>
      exact (h.takesOut hc ⟨⟨_, hb⟩, ⟨_, _, hb, hl, hseal⟩, rfl⟩).endows he
    | moved hc =>
      rcases hor with hac | hv
      · exact (Plumb.cuts ⟨h, hac⟩ hc).toFlush
      · cases hvacant hv
  · rintro t ⟨⟨-, q, x, u, hc, hf⟩, h, -⟩
    exact h.takesOut hc hf

theorem join_flush (s p : ConnectionId) (child : BlockId) :
    Leads (fun t => t.Flush ∧ t.graph.Poised s p child ∧ t.graph.Idle s ∧ t.graph.Idle p)
      (join s p child : Edit α Unit) (fun _ => Flush) fun _ => False := by
  refine Leads.fix fun ws => (((join_leads ws s p child).and
    (join_levels (X := ∅) ws s p child)).frame (c := ws.Sound)).weaken ?_ ?_ fun _ h => h.1.1
  · rintro _ ⟨rfl, h, ⟨w, v, hm, hv⟩, hs, hp⟩
    have hfree := hs w hm.socket
    have hidle := hp v hm.plug
    exact ⟨⟨⟨rfl, h.sound, w, v, hm, hfree, hidle, hv⟩, rfl, h.sound, h.level, w, v, hm, hfree, hidle,
      hv⟩, h.sound⟩
  · rintro _ t ⟨⟨⟨u, hties, hstep⟩, hlevel⟩, hs⟩
    exact ⟨hstep.sound (hties.sound hs), hlevel⟩

theorem seat_flush (s p : ConnectionId) (child : BlockId) :
    Leads (fun t => t.Flush ∧ t.Apt s p child ∧
        (t.graph.Acyclic ∨ ∀ a, t.across s = some a → t.isPlaceholder a))
      (seat s p child : Edit α (Option Orphan)) (fun _ => Flush) Flush := by
  refine Leads.bind (Q := fun _ t => t.Flush ∧ t.graph.Poised s p child ∧ t.graph.Idle s ∧
    t.graph.Idle p) (Leads.fix fun ws => ?_) fun o => ?_
  · refine ((evict_flush (α := α) s).and (evict_keeps (X := ∅) Editor.stable_true ws s p child)).weaken
      ?_ (fun _ _ h => ⟨h.1, h.2.1.2⟩) fun _ h => h.1
    rintro _ ⟨rfl, h, hapt, hor⟩
    obtain ⟨w, v, hm, hv⟩ := hapt.poised
    obtain ⟨y, hy, rfl⟩ := connection_of_wire hm.socket
    exact ⟨⟨h, ⟨y, hy, hm.isSocket⟩, hor⟩, rfl, ⟨h.sound, trivial⟩, ⟨_, v, hm, hv⟩, hapt.idle⟩
  · exact ((join_flush s p child).refused fun _ h => h.elim).bind fun _ => Leads.pure fun _ h => h

theorem plugIn_flush (s p : ConnectionId) (child : BlockId) :
    Leads (fun t => t.Plumb ∧ t.graph.Poised s p child) (plugIn s p child : Edit α (Option Orphan))
      (fun o t => t.Flush ∧ t.Live child ∧
        ∀ x, o = some x → t.graph.PlugOf x.plug x.block ∧ t.graph.Idle x.plug) Flush := by
  rw [plugIn_eq_seat]
  refine Leads.bind (Q := fun _ t => t.Plumb ∧ t.Apt s p child) (Leads.fix fun ws => ?_) fun _ =>
    Leads.fix fun ws => ?_
  · refine (((disconnect_plumb p).and (disconnect_keeps (X := ∅) Editor.stable_true ws p)).frame
      (c := ws.Sound ∧ ws.graph.Poised s p child)).weaken ?_ ?_ fun _ h => h.1.1.toFlush
    · rintro _ ⟨rfl, h, hp⟩
      exact ⟨⟨h, rfl, h.sound, trivial⟩, h.sound, hp⟩
    · rintro _ t ⟨⟨h, -, hf⟩, hs, hp⟩
      exact ⟨h, hf.apt hs hp⟩
  · refine (((seat_flush s p child).and (seat_leads ws s p child)).frame
      (c := ws.Apt s p child)).weaken ?_ ?_ fun _ h => h.1.1
    · rintro _ ⟨rfl, h, hapt⟩
      exact ⟨⟨⟨h.toFlush, hapt, Or.inl h.acyclic⟩, rfl, hapt⟩, hapt⟩
    · rintro o t ⟨⟨h, hseat⟩, hapt⟩
      refine ⟨h, hseat.live_child hapt.sound, fun x hx => ?_⟩
      subst hx
      exact hseat.orphan hapt.sound hapt.idle

/-- A free plug may be put into a socket that holds no real block even if there are cycles. -/
theorem plugIn_vacant_flush (s p : ConnectionId) (child : BlockId) :
    Leads (fun t => t.Flush ∧ t.Apt s p child ∧ ∀ a, t.across s = some a → t.isPlaceholder a)
      (plugIn s p child : Edit α (Option Orphan)) (fun _ => Flush) Flush := by
  rw [plugIn_eq_seat]
  refine Leads.bind (Q := fun _ t => t.Flush ∧ t.Apt s p child ∧
    ∀ a, t.across s = some a → t.isPlaceholder a) (Leads.fix fun ws => ?_) fun _ =>
    (seat_flush s p child).pre fun t h => ⟨h.1, h.2.1, Or.inr h.2.2⟩
  have hsame : Leads (fun t => t = ws ∧ ws.link? p = .ok none) (disconnect p) (fun _ t => t = ws)
      fun _ => False := disconnect_idle p
  refine (hsame.frame (c := ws.Flush ∧ ws.Apt s p child ∧
    ∀ a, ws.across s = some a → ws.isPlaceholder a)).weaken ?_ ?_ fun _ h => h.1.elim
  · rintro _ ⟨rfl, h⟩
    obtain ⟨v, hv, -⟩ := h.2.1.poised.plugOf
    obtain ⟨y, hy, rfl⟩ := connection_of_wire hv
    exact ⟨⟨rfl, link?_of_idle hy (h.2.1.idle _ hv)⟩, h⟩
  · rintro _ _ ⟨rfl, h⟩
    exact h

theorem resettle_flush (below : BlockId) (o : Orphan) :
    Leads (fun t => t.Flush ∧ t.Live below ∧ t.graph.PlugOf o.plug o.block ∧ t.graph.Idle o.plug)
      (resettle below o : Edit α Unit) (fun _ => Flush) Flush := by
  unfold resettle
  refine (Leads.ask fun _ _ h _ => h.1).bind fun found => ?_
  cases found with
  | none =>
    refine (bumpAside_loose o.block).pre ?_
    rintro t ⟨⟨h, -, hplug, hidle⟩, -⟩
    exact ⟨h, hplug.loose h.sound.wired hidle⟩
  | some c =>
    refine ((plugIn_vacant_flush c o.plug o.block).pre ?_).bind fun _ => Leads.pure fun _ h => h
    rintro t ⟨⟨h, hl, hplug, hidle⟩, hhome⟩
    have hpoised := poised_of_orphanHome hplug hhome
    obtain ⟨v, hv, -⟩ := hplug
    obtain ⟨y, hy, rfl⟩ := connection_of_wire hv
    obtain ⟨found, hfound, hvacant⟩ := h.sound.furnished.orphanHome_vacant hy hl
    rw [hhome] at hfound
    cases hfound
    exact ⟨h, ⟨h.sound, hpoised, hidle⟩, (hvacant c rfl).vacant⟩

theorem connect_flush (a b : ConnectionId) :
    Leads Plumb (connect a b : Edit α Unit) (fun _ => Flush) Flush := by
  refine connect_fits (fun _ h => h.toFlush) (fun s p => ?_) a b
  unfold fit
  refine (Leads.connection fun _ h _ => h.1.toFlush).bind fun x => ?_
  refine Leads.ite (fun _ => Leads.pure fun _ h => h.1.1.toFlush) fun _ => ?_
  refine (Leads.connection fun _ h _ => h.1.1.toFlush).bind fun y => ?_
  refine Leads.bind ((plugIn_flush s p y.block).pre ?_) fun orphan => ?_
  · rintro t ⟨⟨⟨h, hp⟩, -⟩, hy⟩
    exact ⟨h, hp y hy⟩
  · refine Leads.forM_option _ (fun o ho => (resettle_flush y.block o).pre ?_) fun _ _ h => h.1
    exact fun t h => ⟨h.1, h.2.1, h.2.2 o ho⟩

theorem attach_flush (s : ConnectionId) (child : BlockId) :
    Leads Plumb (attach s child : Edit α Unit) (fun _ => Flush) Flush :=
  (Leads.ask fun _ _ h _ => h.toFlush).bind fun p => (connect_flush s p).pre fun _ h => h.1

/-! ### Taking away -/

theorem healStack_flush (next : ConnectionId) (above : Option ConnectionId) :
    Leads Plumb (healStack next above : Edit α Unit) (fun _ => Flush) Flush := by
  unfold healStack
  refine (Leads.connection fun _ h _ => h.toFlush).bind fun y => ?_
  cases y.target with
  | none => exact Leads.pure fun _ h => h.1.toFlush
  | some q =>
    refine (Leads.connection fun _ h _ => h.1.toFlush).bind fun z => ?_
    refine (Leads.block fun _ h _ => h.1.1.toFlush).bind fun b => ?_
    refine Leads.ite (fun _ => Leads.pure fun _ h => h.1.1.1.toFlush) fun _ => ?_
    refine Leads.bind (Q := fun _ => Plumb) (((unlink_plumb next).pre fun _ h => h.1.1.1).refused
      fun _ h => h.toFlush) fun _ => ?_
    refine Leads.forM_option _ (fun s _ => ?_) fun _ _ h => h.toFlush
    refine (Leads.ask fun _ _ h _ => h.toFlush).bind fun fits => ?_
    refine (Leads.connection fun _ h _ => h.1.toFlush).bind fun w => ?_
    exact Leads.ite (fun _ => (connect_flush s q).pre fun _ h => h.1.1) fun _ =>
      Leads.pure fun _ h => h.1.1.toFlush

theorem pullOut_flush (id : BlockId) (heal : Bool) :
    Leads Plumb (pullOut id heal : Edit α Unit) (fun _ => Flush) Flush := by
  have cut := fun (c : ConnectionId) => (disconnect_plumb (α := α) c).refused fun _ h => h.toFlush
  unfold pullOut
  refine (Leads.block fun _ h _ => h.toFlush).bind fun b => ?_
  cases b.output with
  | some output => exact ((cut output).pre fun _ h => h.1).post fun _ _ h => h.toFlush
  | none =>
    cases b.previous with
    | none => exact Leads.pure fun _ h => h.1.toFlush
    | some previous =>
      refine (Leads.connection fun _ h _ => h.1.toFlush).bind fun y => ?_
      refine Leads.bind ((cut previous).pre fun _ h => h.1.1) fun _ => ?_
      refine Leads.ite (fun _ => ?_) fun _ => Leads.pure fun _ h => h.toFlush
      exact Leads.forM_option _ (fun next _ => healStack_flush next y.target)
        fun _ _ h => h.toFlush

theorem dispose_plumb (id : BlockId) : Keeps Plumb (dispose id : Edit α Unit) := by
  unfold dispose
  refine (Leads.ask fun _ _ h _ => h).bind fun socket => ?_
  have remove : Leads (fun t => t.Plumb ∧ t.graph.Loose id ∧ t.Live id)
      (modify (·.removeTree id) : Edit α Unit) (fun _ => Plumb) Plumb :=
    Leads.alter (fun t h => h.1.fells (fells_of_loose h.1.sound h.2.2 h.2.1))
      fun t => removeTree_ids t id
  cases socket with
  | none =>
    refine Leads.bind (Leads.pure (Q := fun _ t => t.Plumb ∧ t.graph.Loose id ∧ t.Live id) ?_)
      fun _ => remove.bind fun _ => Leads.pure fun _ h => h
    exact fun t h => ⟨h.1, loose_of_parentSocket h.1.sound h.2⟩
  | some s =>
    refine Leads.bind (Q := fun _ t => t.Plumb ∧ t.graph.Loose id ∧ t.Live id)
      (Leads.fix fun ws => ?_) fun _ => ?_
    · refine ((unlink_parent ws id s).frame (c := ws.Plumb)).weaken ?_ ?_ fun _ h => h.1.elim
      · rintro _ ⟨rfl, h, hp⟩
        exact ⟨⟨rfl, h.sound, hp⟩, h⟩
      · rintro _ t ⟨⟨p, hc, hrest⟩, h⟩
        exact ⟨h.cuts hc, hrest⟩
    · refine remove.bind fun _ => ?_
      exact Leads.bind (Q := fun _ => Plumb) (respawn_plumb s) fun _ => Leads.pure fun _ h => h

/-! ### The other edits -/

theorem setTemplate_flush (c : ConnectionId) (template : Option Snapshot) :
    Leads Flush (setTemplate c template : Edit α (Option BlockId)) (fun _ => Flush) Flush :=
  (endow_stays spatial_flush c template).bind fun _ => respawn_flush c

theorem newPlaceholder_plumb (typeName : String) :
    Leads Plumb (newPlaceholder typeName : Edit α BlockId) (fun _ => Plumb) Plumb :=
  (newBlock_plumb typeName).bind fun id => (setPlaceholder_stays spatial_plumb id true).bind fun _ =>
    Leads.pure fun _ h => h

theorem setUnits_plumb (id : BlockId) (n : Nat) : Keeps Plumb (setUnits (α := α) id n) := by
  refine ((setUnits_level id n).and (coarse_acyclic.setUnits (fine_acyclic True id) n)).weaken ?_ ?_ ?_
  · exact fun t h => ⟨⟨h.sound, fun _ => h.acyclic id, h.level⟩, h.sound, fun _ => h.acyclic id, h.acyclic⟩
  · exact fun _ t h => ⟨⟨h.1.1.sound, h.1.1.keeps⟩, h.2.1.keeps⟩
  · exact fun t h => ⟨⟨h.1.1, h.1.2⟩, h.2.2⟩

theorem refreshControls_flush (id : BlockId) :
    Leads Plumb (refreshControls id : Edit α Unit) (fun _ => Flush) Flush :=
  (refreshControls_keeps (handles_level id)).weaken
    (fun _ h => ⟨h.sound, fun _ => h.acyclic id, h.level⟩)
    (fun _ _ h => ⟨h.1.sound, h.1.keeps⟩) fun _ h => ⟨h.sound, h.keeps⟩

theorem loadShape_plumb (id : BlockId) (shape : Json) :
    Leads Plumb (loadShape (α := α) id shape) (fun _ => Plumb) Plumb :=
  (setUnits_plumb id 0).bind fun _ => (setUnits_plumb id _).bind fun _ => Leads.pure fun _ h => h

theorem fillUnit_flush (id : BlockId) (unit : Nat) :
    Leads Plumb (fillUnit id unit : Edit α Unit) (fun _ => Flush) Flush :=
  ((newBlock_plumb "dict_item").refused fun _ h => h.toFlush).bind fun entry =>
    (Leads.ask fun _ _ h _ => h.toFlush).bind fun slot =>
      (attach_flush slot entry).pre fun _ h => h.1

theorem press_flush (id : BlockId) (control : Control) :
    Leads Plumb (press id control : Edit α Unit) (fun _ => Flush) Flush := by
  have resize := fun n => (setUnits_plumb (α := α) id n).refused fun _ h => h.toFlush
  unfold press
  refine (Leads.ask fun _ _ h _ => h.toFlush).bind fun kind => ?_
  refine (Leads.ask fun _ _ h _ => h.1.toFlush).bind fun shown => ?_
  refine Leads.ite (fun _ => ?_) fun _ => Leads.throw fun _ h => h.1.1.toFlush
  refine (Leads.block fun _ h _ => h.1.1.toFlush).bind fun b => ?_
  cases control with
  | add =>
    unfold pressAdd
    refine Leads.optional (fun _ => Leads.throw fun _ h => h.1.1.1.toFlush) ?_
    refine ((resize _).pre fun _ h => h.1.1.1).bind fun _ => ?_
    exact Leads.ite (fun _ => fillUnit_flush id _) fun _ => Leads.pure fun _ h => h.toFlush
  | remove => exact ((resize _).pre fun _ h => h.1.1.1).post fun _ _ h => h.toFlush

end Edit

end BlockEditor
