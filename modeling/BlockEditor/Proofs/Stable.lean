import BlockEditor.Proofs.Workspace.Extending
import BlockEditor.Proofs.Workspace.Linking
import BlockEditor.Workspace.Connect

/-!
# Properties that edits keep

An edit is made of a few kinds of steps. A property that each of them keeps is kept by every edit,
whether it is refused or not. Between two steps a socket may be a hole, that is, it waits for what
will be plugged in; a property may make an exception for holes, and a refused edit may leave any
number of them.
-/

namespace BlockEditor

variable {α : Type}

/-- A block apart from where it lies and how it is shown. -/
def Block.core (b : Block α) : Block Unit :=
  { b.unplaced with
    placeholder := false
    movable := false
    inFlyout := false
    dragging := false
    copyOnDrag := none }

theorem Block.roles_of_core {b b' : Block α} (h : b'.core = b.core) : b'.roles = b.roles :=
  congrArg (fun u : Block Unit => u.roles) h

/-- Events that do not report a change of the graph or of a count. -/
def Event.isNote : Event α → Bool
  | .drag .. | .move .. => true
  | _ => false

namespace Workspace

/-- A field was set, and the block is registered under the name that it now calls, if it calls one. -/
def withField (ws : Workspace α) (id : BlockId) (b : Block α) (name value : String)
    (inputs : List Input) : Workspace α :=
  { ws.setInputs id b inputs with
    procedures :=
      if b.isCall && name = Container.procedureField then ws.procedures.register value id
      else ws.procedures }

/-- If the connection belongs to an input that has a placeholder, then something is plugged in. -/
def Full (ws : Workspace α) (c : ConnectionId) : Prop :=
  ∀ (x : BlockId) (b : Block α) (i : Input) (y : Connection α), ws.blocks[x]? = some b →
    i ∈ b.inputs → i.connection = some c → ws.connections[c]? = some y →
    y.template.isSome → y.target.isSome

/-- The property with its holes is kept by the steps that edits are made of. If `strict` is set,
then no block is resized that hangs below itself. -/
structure Stable [Scalar α] (strict : Prop) (J : Set ConnectionId → Workspace α → Prop) :
    Prop where
  mono : ∀ {X Y ws}, X ⊆ Y → J X ws → J Y ws
  shifts : ∀ {X ws ws'} {S : BlockId → Prop}, ws.Sound → ws.Glides S ws' → J X ws → J X ws'
  decorate : ∀ {X ws} {id : BlockId} {b b' : Block α}, ws.Sound → ws.blocks[id]? = some b →
    b'.core = b.core → J X ws → J X { ws with blocks := ws.blocks.insert id b' }
  field : ∀ {X ws} {id : BlockId} {b : Block α} {name value : String} {inputs : List Input},
    ws.Sound → ws.blocks[id]? = some b → setFieldAmong name value b.inputs = some inputs →
    J X ws → J X (ws.withField id b name value inputs)
  side : ∀ {X ws viewport tasks}, J X ws → J X { ws with viewport := viewport, tasks := tasks }
  note : ∀ {X ws} {e : Event α}, e.isNote → J X ws →
    J X { ws with events := ws.events.fire e }
  group : ∀ {X ws on}, J X ws → J X { ws with events := ws.events.setGroup on }
  template : ∀ {X ws ws'} {c : ConnectionId} {t : Option Snapshot}, ws.Sound →
    (∀ d : ConnectionId, ws'.connections[d]? = (ws.connections[d]?).map
      fun y : Connection α => if d = c then { y with template := t } else y) →
    ws' = { ws with connections := ws'.connections } → J X ws → J (insert c X) ws'
  cuts : ∀ {X ws s p child ws'}, ws.Sound → ws.Cuts s p child ws' → J X ws → J (insert s X) ws'
  ties : ∀ {X ws s p child ws'}, ws.Sound → ws.Ties s p child ws' → J X ws → J X ws'
  prunes : ∀ {X ws id b R ws'}, ws.Sound → ws.blocks[id]? = some b →
    ws.Loses id b.inputs [] R ws' → ws.Seals [] R → J X ws → J X ws'
  fill : ∀ {X ws c}, ws.Sound → ws.Full c → J (insert c X) ws → J X ws
  newBlock : ∀ {X} typeName, Leads (fun ws => ws.Sound ∧ J X ws) (Edit.newBlock typeName)
    (fun _ => J X) (J Set.univ)
  setUnits : ∀ {X} id n, Leads (fun ws => ws.Sound ∧ J X ws ∧ (strict → ws.graph.Tame id))
    (Edit.setUnits id n) (fun _ => J X) (J Set.univ)
  refreshControls : ∀ {X} id, Leads (fun ws => ws.Sound ∧ J X ws ∧ (strict → ws.graph.Tame id))
    (Edit.refreshControls id) (fun _ => J X) (J Set.univ)

/-- A sound workspace with the property. -/
structure Steady (J : Set ConnectionId → Workspace α → Prop) (X : Set ConnectionId)
    (ws : Workspace α) : Prop where
  sound : ws.Sound
  keeps : J X ws

variable {ws ws' : Workspace α}

theorem graph_template {c : ConnectionId} {t : Option Snapshot}
    (h : ∀ d : ConnectionId, ws'.connections[d]? = (ws.connections[d]?).map
      fun y : Connection α => if d = c then { y with template := t } else y)
    (hb : ws'.blocks = ws.blocks) : ws'.graph = ws.graph := by
  have hwire : ws'.graph.wire = ws.graph.wire := by
    funext d
    simp only [Workspace.graph, h, Option.map_map]
    congr 1
    funext y
    by_cases hd : d = c <;> simp [hd, Connection.wire]
  refine congrArg₂ Graph.mk ?_ hwire
  rw [hb]

theorem Sound.template {c : ConnectionId} {t : Option Snapshot} (hs : ws.Sound)
    (h : ∀ d : ConnectionId, ws'.connections[d]? = (ws.connections[d]?).map
      fun y : Connection α => if d = c then { y with template := t } else y)
    (hr : ws' = { ws with connections := ws'.connections }) : ws'.Sound where
  wired := by
    rw [graph_template h (by rw [hr])]
    exact hs.wired
  blockIds hb := by
    rw [hr] at hb ⊢
    exact hs.blockIds hb
  connectionIds hy := by
    rw [h, Option.map_eq_some_iff] at hy
    obtain ⟨y, hy, -⟩ := hy
    rw [hr]
    exact hs.connectionIds hy
  registry := by
    rw [hr]
    exact hs.registry

theorem Sound.withEvents (hs : ws.Sound) (e : EventLog α) : Sound { ws with events := e } :=
  ⟨hs.wired, hs.blockIds, hs.connectionIds, hs.registry⟩

variable [Scalar α] {strict : Prop} {J : Set ConnectionId → Workspace α → Prop}
  {X Y : Set ConnectionId}

theorem Steady.mono (hJ : Stable strict J) (h : Steady J X ws) (hX : X ⊆ Y) : Steady J Y ws :=
  ⟨h.sound, hJ.mono hX h.keeps⟩

theorem Steady.anyway (hJ : Stable strict J) (h : Steady J X ws) : Steady J Set.univ ws :=
  h.mono hJ (Set.subset_univ X)

theorem Steady.shifts {S : BlockId → Prop} (hJ : Stable strict J) (h : Steady J X ws)
    (hstep : ws.Glides S ws') : Steady J X ws' :=
  ⟨hstep.sound h.sound, hJ.shifts h.sound hstep h.keeps⟩

/-- The property does not depend on where blocks lie, on how a drag is shown, or on which tasks
wait. -/
structure Calm (P : Workspace α → Prop) : Prop where
  sound : ∀ {ws}, P ws → ws.Sound
  shifts : ∀ {ws ws'} {S : BlockId → Prop}, ws.Glides S ws' → P ws → P ws'
  drag : ∀ {ws} {id : BlockId} {b : Block α} {on : Bool}, ws.blocks[id]? = some b → P ws →
    P { ws with blocks := ws.blocks.insert id { b with dragging := on } }
  note : ∀ {ws} {e : Event α}, e.isNote → P ws → P { ws with events := ws.events.fire e }
  group : ∀ {ws on}, P ws → P { ws with events := ws.events.setGroup on }
  tasks : ∀ {ws tasks}, P ws → P { ws with tasks := tasks }

/-- The property does not depend on how a drag is shown, on the report of it, or on which tasks
wait. -/
structure Quiet (P : Workspace α → Prop) : Prop where
  drag : ∀ {ws} {id : BlockId} {b : Block α} {on : Bool}, ws.blocks[id]? = some b → P ws →
    P { ws with blocks := ws.blocks.insert id { b with dragging := on } }
  note : ∀ {ws} {e : Event α}, e.isNote → P ws → P { ws with events := ws.events.fire e }
  group : ∀ {ws on}, P ws → P { ws with events := ws.events.setGroup on }
  tasks : ∀ {ws tasks}, P ws → P { ws with tasks := tasks }

omit [Scalar α] in
theorem Calm.quiet {P : Workspace α → Prop} (h : Calm P) : Quiet P :=
  ⟨h.drag, h.note, h.group, h.tasks⟩

theorem Stable.calm (hJ : Stable strict J) : Calm (Steady J X) where
  sound h := h.sound
  shifts hstep h := h.shifts hJ hstep
  drag hb h := ⟨h.sound.insert hb rfl, hJ.decorate h.sound hb rfl h.keeps⟩
  note he h := ⟨h.sound.withEvents _, hJ.note he h.keeps⟩
  group h := ⟨h.sound.withEvents _, hJ.group h.keeps⟩
  tasks h := ⟨⟨h.sound.wired, h.sound.blockIds, h.sound.connectionIds, h.sound.registry⟩,
    hJ.side h.keeps⟩

theorem Steady.fill {c : ConnectionId} (hJ : Stable strict J) (h : Steady J (insert c X) ws)
    (hc : ws.Full c) : Steady J X ws :=
  ⟨h.sound, hJ.fill h.sound hc h.keeps⟩

omit [Scalar α] in
/-- A connection that something is plugged into is no hole. -/
theorem full_of_target {c : ConnectionId} {y : Connection α} (hy : ws.connections[c]? = some y)
    (ht : y.target.isSome) : ws.Full c := by
  intro x b i z _ _ _ hz _
  rw [hy] at hz
  cases hz
  exact ht

omit [Scalar α] in
theorem full_of_template {c : ConnectionId} {y : Connection α} (hy : ws.connections[c]? = some y)
    (ht : y.template = none) : ws.Full c := by
  intro x b i z _ _ _ hz hm
  rw [hy] at hz
  cases hz
  rw [ht] at hm
  cases hm

end Workspace

namespace Workspace

/-! ### Properties without regard to counts -/

/-- The property does not depend on counts, reports and callers. -/
structure Coarse (J : Workspace α → Prop) : Prop where
  units : ∀ {ws} {id : BlockId} {b : Block α} {n}, ws.blocks[id]? = some b → J ws →
    J { ws with blocks := ws.blocks.insert id { b with units := n } }
  events : ∀ {ws e}, J ws → J { ws with events := e }
  procedures : ∀ {ws p}, J ws → J { ws with procedures := p }

namespace Coarse

variable [Scalar α] {strict : Prop} {id : BlockId} {J : Workspace α → Prop}

theorem setUnits (h : Coarse J) (hJ : Fine strict id J) (n : Nat) :
    Leads (Good strict id J) (Edit.setUnits id n) (fun _ t => Good strict id J t ∧ t.Live id)
      fun t => t.Sound ∧ J t := by
  refine Edit.setUnits_keeps (K := fun _ _ => J) hJ.handles (fun _ _ => hJ.handles)
    (fun _ hb hj => h.units hb hj) (fun {ws old new} _ _ hj => ?_) (fun _ _ hj => hj) n
  split
  · exact h.events hj
  · exact hj

theorem newBlock (h : Coarse J) (hJ : ∀ id, Fine strict id J)
    (raise : ∀ {ws d id b ws'}, ws.Sound → (d.output = none ∨ d.previous = none) →
      ws.Raises d id b ws' → J ws → J ws') (typeName : String) :
    Leads (fun ws => ws.Sound ∧ J ws) (Edit.newBlock typeName)
      (fun id t => Good strict id J t ∧ t.Live id) fun t => t.Sound ∧ J t := by
  refine Edit.newBlock_keeps (K := fun _ _ => J) (L := fun _ => J) typeName (fun hj => hj) ?_
    (fun _ id => (hJ id).handles) (fun _ hj => h.events hj) (fun id => (hJ id).handles)
    (fun id n => h.setUnits (hJ id) n) (fun hj => h.procedures hj) fun hj => hj
  exact fun hs hd hr hj => raise hs (hs.registry typeName _ hd) hr hj

end Coarse

theorem coarse_true : Coarse (α := α) fun _ => True :=
  ⟨fun _ _ => trivial, fun _ => trivial, fun _ => trivial⟩

theorem fine_true [Scalar α] (strict : Prop) (id : BlockId) :
    Fine (α := α) strict id fun _ => True where
  shifts _ _ _ := trivial
  sheds _ _ _ _ := trivial
  pushes _ _ _ _ := trivial

end Workspace

namespace Edit

open Workspace

variable [Scalar α] {strict : Prop} {J : Set ConnectionId → Workspace α → Prop}
  {X : Set ConnectionId}

/-- The edit keeps the property; if it is refused, then there may be holes. -/
abbrev Safe (J : Set ConnectionId → Workspace α → Prop) (X : Set ConnectionId) {β : Type}
    (m : Edit α β) : Prop :=
  Leads (Steady J X) m (fun _ => Steady J X) (Steady J Set.univ)

/-! ### Looks and places -/

theorem decorate_keeps (hJ : Stable strict J) (id : BlockId) {f : Block α → Block α}
    (hf : ∀ b, (f b).core = b.core) : Keeps (Steady J X) (updateBlock id f) := by
  refine Leads.updateBlock (fun ws b h hb => ?_) fun _ h _ => h
  exact ⟨h.sound.insert hb (Block.roles_of_core (hf b)), hJ.decorate h.sound hb (hf b) h.keeps⟩

theorem setPlaceholder_keeps (hJ : Stable strict J) (id : BlockId) (on : Bool) :
    Keeps (Steady J X) (setPlaceholder id on) :=
  decorate_keeps hJ id fun _ => rfl

theorem setMovable_keeps (hJ : Stable strict J) (id : BlockId) (on : Bool) :
    Keeps (Steady J X) (setMovable id on) :=
  decorate_keeps hJ id fun _ => rfl

theorem setInFlyout_keeps (hJ : Stable strict J) (id : BlockId) (on : Bool) :
    Keeps (Steady J X) (setInFlyout id on) :=
  decorate_keeps hJ id fun _ => rfl

theorem setCopyOnDrag_keeps (hJ : Stable strict J) (id : BlockId) (value : Option Bool) :
    Keeps (Steady J X) (setCopyOnDrag id value) :=
  decorate_keeps hJ id fun _ => rfl

theorem setViewport_keeps (hJ : Stable strict J) (viewport : Option (Rect α)) :
    Keeps (Steady J X) (setViewport viewport) :=
  Leads.alter fun _ h => ⟨⟨h.sound.wired, h.sound.blockIds, h.sound.connectionIds,
    h.sound.registry⟩, hJ.side h.keeps⟩

theorem roles_setField {name value : String} {l inputs : List Input}
    (h : setFieldAmong name value l = some inputs) :
    inputs.filterMap Input.role? = l.filterMap Input.role? := by
  induction l generalizing inputs with
  | nil => cases h
  | cons i rest ih =>
    simp only [setFieldAmong] at h
    split at h
    · cases h
      rfl
    · obtain ⟨is, his, rfl⟩ := Option.map_eq_some_iff.mp h
      simp only [List.filterMap_cons, ih his]

omit [Scalar α] in
/-- Setting a field changes the inputs of the block, and perhaps the list of callers. It is refused
if there is no such field. -/
theorem setField_enrols (ws : Workspace α) (id : BlockId) (name value : String) :
    Leads (· = ws) (setField id name value)
      (fun _ t => ∃ b inputs, ws.blocks[id]? = some b ∧
        setFieldAmong name value b.inputs = some inputs ∧ t = ws.withField id b name value inputs)
      fun t => t = ws ∧ ∀ b, ws.blocks[id]? = some b → setFieldAmong name value b.inputs = none := by
  unfold setField
  refine Leads.bind (Leads.block ?_) fun b => ?_
  · rintro _ rfl hdead
    refine ⟨rfl, fun b hb => ?_⟩
    rw [hdead] at hb
    cases hb
  cases hf : setFieldAmong name value b.inputs with
  | none =>
    refine Leads.throw ?_
    rintro _ ⟨rfl, hb⟩
    refine ⟨rfl, fun b' hb' => ?_⟩
    rw [hb] at hb'
    cases hb'
    exact hf
  | some inputs =>
    refine Leads.bind (Q := fun _ t => ws.blocks[id]? = some b ∧ t = ws.setInputs id b inputs)
      (Leads.updateBlock ?_ ?_) fun _ => ?_
    · rintro _ b' ⟨rfl, hb⟩ hb'
      rw [hb] at hb'
      cases hb'
      exact ⟨hb, rfl⟩
    · rintro t ⟨-, hb⟩ hdead
      rw [hdead] at hb
      cases hb
    · refine Leads.ite (fun hcall => Leads.alter ?_) fun hcall => Leads.pure ?_
      · rintro _ ⟨hb, rfl⟩
        exact ⟨b, inputs, hb, hf, by rw [withField, if_pos hcall]; rfl⟩
      · rintro _ ⟨hb, rfl⟩
        exact ⟨b, inputs, hb, hf, by rw [withField, if_neg hcall]; rfl⟩

omit [Scalar α] in
theorem setField_leads (ws : Workspace α) (id : BlockId) (name value : String) :
    Leads (· = ws) (setField id name value)
      (fun _ t => ∃ b inputs procedures, ws.blocks[id]? = some b ∧
        setFieldAmong name value b.inputs = some inputs ∧
        t = { ws.setInputs id b inputs with procedures := procedures })
      fun t => t = ws ∧ ∀ b, ws.blocks[id]? = some b → setFieldAmong name value b.inputs = none :=
  (setField_enrols ws id name value).post fun _ _ ⟨b, inputs, hb, hf, ht⟩ =>
    ⟨b, inputs, _, hb, hf, ht⟩

omit [Scalar α] in
theorem setField_keeps {id : BlockId} {name value : String}
    (hJ : ∀ {ws : Workspace α} {b : Block α} {inputs : List Input}, ws.Sound →
      ws.blocks[id]? = some b → setFieldAmong name value b.inputs = some inputs → J X ws →
      J X (ws.withField id b name value inputs)) :
    Keeps (Steady J X) (setField id name value) := by
  refine Leads.fix fun ws => ?_
  refine ((setField_enrols ws id name value).frame (c := Steady J X ws)).weaken (fun _ h => h) ?_ ?_
  · rintro _ t ⟨⟨b, inputs, hb, hf, rfl⟩, h⟩
    have hs : (ws.setInputs id b inputs).Sound := by
      refine h.sound.insert hb ?_
      simp only [Block.roles, roles_setField hf]
    exact ⟨⟨hs.wired, hs.blockIds, hs.connectionIds, hs.registry⟩,
      hJ h.sound hb hf h.keeps⟩
  · rintro _ ⟨⟨rfl, -⟩, h⟩
    exact h

section Calm

variable {P : Workspace α → Prop}

omit [Scalar α] in
theorem note_keeps (hP : Quiet P) {e : Event α} (he : e.isNote) : Keeps P (fire e) :=
  Leads.fire fun _ h => hP.note he h

theorem requireFinite_keeps (p : Point α) : Keeps P (requireFinite p) :=
  Leads.ite (fun _ => Leads.pure fun _ h => h) fun _ => Leads.throw fun _ h => h

omit [Scalar α] in
theorem query_keeps {β : Type} (q : Workspace α → Answer α β) : Keeps P (query q) :=
  Leads.query (fun _ _ h _ => h) fun _ _ h _ => h

omit [Scalar α] in
theorem get_keeps {E : Workspace α → Prop} :
    Leads P (get : Edit α (Workspace α)) (fun _ => P) E :=
  Leads.get fun _ h => h

theorem translate_keeps (hP : Calm P) (id : BlockId) (delta : Point α) :
    Keeps P (translate id delta) := by
  refine Leads.fix fun ws => ?_
  refine ((translate_leads ws id delta).frame (c := P ws)).weaken ?_ ?_ ?_
  · rintro _ ⟨rfl, h⟩
    exact ⟨⟨rfl, hP.sound h⟩, h⟩
  · rintro _ t ⟨hp, h⟩
    exact hP.shifts hp h
  · rintro _ ⟨⟨rfl, -⟩, h⟩
    exact h

theorem moveTo_keeps (hP : Calm P) (id : BlockId) (location : Point α) (reason : String) :
    Keeps P (moveTo id location reason) := by
  refine (requireFinite_keeps location).bind fun _ => (query_keeps _).bind fun _ => ?_
  exact (translate_keeps hP id _).bind fun _ => note_keeps hP.quiet rfl

theorem moveBy_keeps (hP : Calm P) (id : BlockId) (delta : Point α) (reason : String) :
    Keeps P (moveBy id delta reason) :=
  (query_keeps _).bind fun _ => moveTo_keeps hP id _ reason

theorem moveToGrid_keeps (hP : Calm P) (id : BlockId) : Keeps P (moveToGrid id) := by
  unfold moveToGrid
  refine get_keeps.bind fun ws => ?_
  split
  · exact Leads.pure fun _ h => h
  · refine Leads.ite (fun _ => Leads.pure fun _ h => h) fun _ => ?_
    refine (query_keeps _).bind fun _ => Leads.ite (fun _ => Leads.pure fun _ h => h) fun _ => ?_
    refine (query_keeps _).bind fun _ => Leads.ite (fun _ => Leads.pure fun _ h => h) fun _ => ?_
    exact (moveTo_keeps hP id _ _).bind fun _ => Leads.pure fun _ h => h

theorem keepInView_keeps (hP : Calm P) (id : BlockId) : Keeps P (keepInView id) := by
  unfold keepInView
  refine get_keeps.bind fun ws => ?_
  split
  · exact Leads.pure fun _ h => h
  · refine (query_keeps _).bind fun _ => Leads.ite (fun _ => Leads.pure fun _ h => h) fun _ => ?_
    refine (query_keeps _).bind fun _ => Leads.ite (fun _ => Leads.pure fun _ h => h) fun _ => ?_
    exact (moveTo_keeps hP id _ _).bind fun _ => Leads.pure fun _ h => h

theorem bumpAside_keeps (hP : Calm P) (id : BlockId) : Keeps P (bumpAside id) :=
  get_keeps.bind fun _ => moveBy_keeps hP id _ _

omit [Scalar α] in
theorem markDragging_keeps (hP : Quiet P) (id : BlockId) (on : Bool) :
    Keeps P (markDragging id on) :=
  (query_keeps _).bind fun found => Leads.forM_list found fun _ _ =>
    Leads.updateBlock (fun _ _ h hb => hP.drag hb h) fun _ h _ => h

end Calm

end Edit

end BlockEditor
