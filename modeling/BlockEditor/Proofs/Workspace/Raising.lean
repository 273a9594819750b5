import BlockEditor.Proofs.Workspace.Resizing

/-!
# New blocks

A new block has a new number and new ends, and hangs on nothing.
-/

namespace BlockEditor

variable {α : Type} [Scalar α]

/-- The end that a definition asks for, if it does. -/
def ConnectionTemplate.ends (kind : ConnectionKind) :
    Option ConnectionTemplate → Option ConnectionId → List NewEnd
  | some t, some c => [⟨c, kind, t.check⟩]
  | _, _ => []

namespace Workspace

variable {ws ws' : Workspace α} {id x a : BlockId} {d : BlockDefinition} {b : Block α}
  {c : ConnectionId} {strict : Prop}

/-- The ends of a new block. -/
def newEnds (d : BlockDefinition) (b : Block α) : List NewEnd :=
  ConnectionTemplate.ends .outputValue d.output b.output ++
    ConnectionTemplate.ends .previousStatement d.previous b.previous ++
    ConnectionTemplate.ends .nextStatement d.next b.next

/-- A block of a definition with its ends, before it gets its inputs. -/
def rawBlock (d : BlockDefinition) (output previous next : Option ConnectionId) : Block α where
  typeName := d.typeName
  container := d.container.map (·.kind)
  units := 0
  inputs := []
  output := output
  previous := previous
  next := next
  placeholder := false
  movable := true
  inFlyout := false
  dragging := false
  position := Point.origin
  copyOnDrag := none

structure Unfurnished (d : BlockDefinition) (b : Block α) : Prop where
  block : b = rawBlock d b.output b.previous b.next
  output : b.output.isSome = d.output.isSome
  previous : b.previous.isSome = d.previous.isSome
  next : b.next.isSome = d.next.isSome

/-- A new block with its ends was added, as the last top block. -/
structure Raises (ws : Workspace α) (d : BlockDefinition) (id : BlockId) (b : Block α)
    (ws' : Workspace α) : Prop where
  new : id.index.toNat = ws.ids.blocks
  unfurnished : Unfurnished d b
  step : ∃ t, Mounts { ws with ids := { ws.ids with blocks := ws.ids.blocks + 1 } } id
      (newEnds d b) t ∧
    ws' = { t with blocks := t.blocks.insert id b, top := t.top ++ [id] }

theorem map_ends {k : ConnectionKind} {t : Option ConnectionTemplate} {c : Option ConnectionId}
    (h : c.isSome = t.isSome) : (ConnectionTemplate.ends k t c).map
      (fun e => (e.connection, some e.kind)) = c.toList.map (·, some k) := by
  cases t <;> cases c <;> simp_all [ConnectionTemplate.ends]

theorem mem_ends {k : ConnectionKind} {t : Option ConnectionTemplate} {c : Option ConnectionId}
    {e : NewEnd} (h : e ∈ ConnectionTemplate.ends k t c) :
    ∃ s, t = some s ∧ c = some e.connection ∧ e.kind = k ∧ e.check = s.check := by
  cases t with
  | none => simp [ConnectionTemplate.ends] at h
  | some s =>
    cases c with
    | none => simp [ConnectionTemplate.ends] at h
    | some c =>
      simp only [ConnectionTemplate.ends, List.mem_singleton] at h
      subst h
      exact ⟨s, rfl, rfl, rfl, rfl⟩

theorem Unfurnished.inputs (h : Unfurnished d b) : b.inputs = [] := by
  rw [h.block]
  rfl

theorem Unfurnished.roles (h : Unfurnished d b) :
    b.roles = (newEnds d b).map fun e => (e.connection, some e.kind) := by
  rw [newEnds, List.map_append, List.map_append, map_ends h.output, map_ends h.previous,
    map_ends h.next, Block.roles, h.inputs, List.filterMap_nil, List.append_nil]

omit [Scalar α] in
/-- A definition asks for one plug at most, and so its ends may be added together. -/
theorem pairwise_newEnds (h : d.output = none ∨ d.previous = none) (b : Block α) :
    (newEnds d b).Pairwise fun e f => e.kind.isPlug → f.kind.isPlug = false := by
  have single : ∀ (k : ConnectionKind) (t : Option ConnectionTemplate) (c : Option ConnectionId),
      (ConnectionTemplate.ends k t c).Pairwise fun e f => e.kind.isPlug → f.kind.isPlug = false := by
    intro k t c
    cases t <;> cases c <;> simp [ConnectionTemplate.ends]
  have hnext : ∀ f ∈ ConnectionTemplate.ends .nextStatement d.next b.next, f.kind.isPlug = false := by
    intro f hf
    obtain ⟨-, -, -, hk, -⟩ := mem_ends hf
    rw [hk]
    rfl
  rw [newEnds, List.pairwise_append]
  refine ⟨?_, single _ _ _, fun e _ f hf _ => hnext f hf⟩
  rcases h with h | h
  · rw [h]
    simpa [ConnectionTemplate.ends] using single _ d.previous b.previous
  · rw [h]
    simpa [ConnectionTemplate.ends] using single _ d.output b.output

namespace Raises

theorem blocks (h : ws.Raises d id b ws') :
    ws'.blocks[x]? = if x = id then some b else ws.blocks[x]? := by
  obtain ⟨t, hm, rfl⟩ := h.step
  simp only [Std.ExtTreeMap.getElem?_insert, Std.LawfulEqCmp.compare_eq_iff_eq, hm.blocks]
  by_cases hx : x = id
  · simp [hx]
  · have hx' : ¬ id = x := fun hx' => hx hx'.symm
    simp [hx, hx']

theorem live (h : ws.Raises d id b ws') : ws'.Live id :=
  ⟨b, by rw [h.blocks, if_pos rfl]⟩

theorem made (h : ws.Raises d id b ws') :
    ∀ e ∈ newEnds d b, ws'.connections[e.connection]? = some (e.mount id) := by
  obtain ⟨t, hm, rfl⟩ := h.step
  exact hm.made

theorem kept (h : ws.Raises d id b ws') (hc : ∀ e ∈ newEnds d b, c ≠ e.connection) :
    ws'.connections[c]? = ws.connections[c]? := by
  obtain ⟨t, hm, rfl⟩ := h.step
  exact hm.kept c hc

theorem fresh (h : ws.Raises d id b ws') : ∀ e ∈ newEnds d b,
    ws.ids.connections ≤ e.connection.index.toNat ∧
      e.connection.index.toNat < ws'.ids.connections := by
  obtain ⟨t, hm, rfl⟩ := h.step
  exact hm.fresh

theorem kept_of_old (h : ws.Raises d id b ws') (hc : c.index.toNat < ws.ids.connections) :
    ws'.connections[c]? = ws.connections[c]? := by
  refine h.kept fun e he hce => ?_
  have := (h.fresh e he).1
  rw [hce] at hc
  omega

theorem nodup (h : ws.Raises d id b ws') : ((newEnds d b).map (·.connection)).Nodup := by
  obtain ⟨t, hm, -⟩ := h.step
  exact hm.nodup

theorem count (h : ws.Raises d id b ws') : ws.ids.connections ≤ ws'.ids.connections := by
  obtain ⟨t, hm, rfl⟩ := h.step
  exact hm.count

theorem ids_blocks (h : ws.Raises d id b ws') : ws'.ids.blocks = ws.ids.blocks + 1 := by
  obtain ⟨t, hm, rfl⟩ := h.step
  simp only
  rw [hm.rest]

theorem top (h : ws.Raises d id b ws') : ws'.top = ws.top ++ [id] := by
  obtain ⟨t, hm, rfl⟩ := h.step
  simp only
  rw [hm.rest]

theorem events (h : ws.Raises d id b ws') : ws'.events = ws.events := by
  obtain ⟨t, hm, rfl⟩ := h.step
  simp only
  rw [hm.rest]

theorem registry (h : ws.Raises d id b ws') : ws'.registry = ws.registry := by
  obtain ⟨t, hm, rfl⟩ := h.step
  simp only
  rw [hm.rest]

theorem dead (h : ws.Raises d id b ws') (hs : ws.Sound) : ws.blocks[id]? = none := by
  cases hb : ws.blocks[id]? with
  | none => rfl
  | some b' =>
    have := hs.blockIds hb
    rw [h.new] at this
    omega

theorem ends_none (h : ws.Raises d id b ws') (hs : ws.Sound) : ws.graph.ends id = none := by
  simp [Workspace.graph, h.dead hs]

theorem addable (h : ws.Raises d id b ws') (hs : ws.Sound)
    (hd : d.output = none ∨ d.previous = none) :
    (ws.graph.addBlock id).Addable id (newEnds d b) where
  nodup := h.nodup
  fresh e he := by
    change ws.graph.wire e.connection = none
    cases hw : ws.graph.wire e.connection with
    | none => rfl
    | some w =>
      obtain ⟨y, hy, -⟩ := connection_of_wire hw
      have hlt := hs.connectionIds hy
      have hle := (h.fresh e he).1
      omega
  onePlug := pairwise_newEnds hd b
  plug _ _ _ c w hw hb := (hs.wired.free_of_addBlock (h.ends_none hs) hw hb).elim

theorem graph (h : ws.Raises d id b ws') :
    ws'.graph = (ws.graph.addBlock id).addEnds id (newEnds d b) := by
  have hends : ws'.graph.ends = ((ws.graph.addBlock id).addEnds id (newEnds d b)).ends := by
    funext x
    rw [Graph.addEnds_ends]
    simp only [Workspace.graph, h.blocks, Graph.addBlock]
    by_cases hx : x = id
    · simp [hx, h.unfurnished.roles]
    · simp [hx]
  have hwire : ws'.graph.wire = ((ws.graph.addBlock id).addEnds id (newEnds d b)).wire := by
    funext c
    rcases mem_or_ne (newEnds d b) c with ⟨e, he, rfl⟩ | hc
    · rw [Graph.addEnds_wire_of_mem h.nodup he]
      simp only [Workspace.graph, h.made e he]
      rfl
    · rw [Graph.addEnds_wire_of_ne hc]
      simp only [Workspace.graph, Graph.addBlock, h.kept hc]
  exact congrArg₂ Graph.mk hends hwire

theorem sound (h : ws.Raises d id b ws') (hs : ws.Sound)
    (hd : d.output = none ∨ d.previous = none) : ws'.Sound where
  wired := by
    rw [h.graph]
    refine (hs.wired.addBlock (h.ends_none hs)).addEnds (m := []) ?_ (h.addable hs hd)
    simp [Graph.addBlock]
  blockIds {x b'} hb := by
    rw [h.blocks] at hb
    rw [h.ids_blocks]
    by_cases hx : x = id
    · rw [hx, h.new]
      omega
    · rw [if_neg hx] at hb
      have := hs.blockIds hb
      omega
  connectionIds {c y} hy := by
    rcases mem_or_ne (newEnds d b) c with ⟨e, he, rfl⟩ | hc
    · exact (h.fresh e he).2
    · rw [h.kept hc] at hy
      exact Nat.lt_of_lt_of_le (hs.connectionIds hy) h.count
  registry := by
    rw [h.registry]
    exact hs.registry

theorem loose (h : ws.Raises d id b ws') (hs : ws.Sound)
    (hd : d.output = none ∨ d.previous = none) :
    ws'.graph.Loose x ↔ ws.graph.Loose x := by
  rw [h.graph]
  exact (Graph.loose_addEnds (h.addable hs hd)).trans Graph.loose_addBlock

theorem loose_self (h : ws.Raises d id b ws') (hs : ws.Sound)
    (hd : d.output = none ∨ d.previous = none) : ws'.graph.Loose id :=
  (h.loose hs hd).mpr (hs.wired.loose_of_none (h.ends_none hs))

end Raises

end Workspace

namespace Edit

open Workspace

variable {ws : Workspace α} {id : BlockId} {l : List NewEnd} {E : Workspace α → Prop}
  {strict : Prop}

theorem mountEnd_leads (k : ConnectionKind) (t : Option ConnectionTemplate) :
    Leads (ws.Mounts id l) (mountEnd id k t)
      (fun c t' => ws.Mounts id (l ++ ConnectionTemplate.ends k t c) t' ∧ c.isSome = t.isSome) E := by
  cases t with
  | none => exact Leads.pure fun _ h => ⟨by simpa [ConnectionTemplate.ends] using h, rfl⟩
  | some t =>
    refine (newConnection_leads k t.check).bind fun c => Leads.pure fun t' h => ?_
    exact ⟨h, rfl⟩

/-- Making a block comes down to what is done once it stands with its ends. -/
theorem newBlock_raises {P : Workspace α → Prop} {Q : BlockId → Workspace α → Prop}
    (typeName : String)
    (refused : ∀ ws, ws.Sound → P ws → ws.registry.get? typeName = none → E ws)
    (rest : ∀ (s : Workspace α) d id, s.registry.get? typeName = some d →
      Leads (fun t => P s ∧ s.Sound ∧ ∃ b, s.Raises d id b t)
        (do
          d.inputs.forM (addInput id)
          fire (.create id d.typeName)
          d.container.forM (finishContainer id)
          return id) Q E) :
    Leads (fun ws => ws.Sound ∧ P ws) (newBlock typeName) Q E := by
  unfold newBlock
  refine Leads.bind (Q := fun s t => s = t ∧ t.Sound ∧ P t) (Leads.get fun s h => ⟨rfl, h⟩)
    fun s => ?_
  cases hd : s.registry.get? typeName with
  | none =>
    refine Leads.throw ?_
    rintro t ⟨rfl, hs, hp⟩
    exact refused s hs hp hd
  | some d =>
    refine Leads.bind (Q := fun id t =>
      Mounts { s with ids := { s.ids with blocks := s.ids.blocks + 1 } } id [] t ∧
        id.index.toNat = s.ids.blocks ∧ s.Sound ∧ P s) ?_ fun id => ?_
    · refine Leads.step (f := fun t => (⟨UInt32.ofNat t.ids.blocks⟩,
        { t with ids := { t.ids with blocks := t.ids.blocks + 1 } })) (fun _ => rfl) ?_ ?_
      · intro t ht
        rw [lasts_workspace] at ht ⊢
        have := ht.1
        simp only at this
        exact ⟨by omega, ht.2⟩
      · rintro t ht ⟨rfl, hs, hj⟩
        refine ⟨Mounts.nil _ _, ?_, hs, hj⟩
        have := ht.1
        simp only at this
        change (UInt32.ofNat s.ids.blocks).toNat = s.ids.blocks
        rw [UInt32.toNat_ofNat']
        have h32 : s.ids.blocks + 1 ≤ 2 ^ 32 := this
        omega
    have mount : ∀ (k : ConnectionKind) (t : Option ConnectionTemplate) (l : List NewEnd) (c : Prop),
        Leads (fun u => Mounts { s with ids := { s.ids with blocks := s.ids.blocks + 1 } } id l u ∧
            s.Sound ∧ P s ∧ c)
          (mountEnd id k t)
          (fun o u => Mounts { s with ids := { s.ids with blocks := s.ids.blocks + 1 } } id
            (l ++ ConnectionTemplate.ends k t o) u ∧ s.Sound ∧ P s ∧ c ∧ o.isSome = t.isSome)
          E := by
      intro k t l c
      refine ((mountEnd_leads (E := fun _ => False) k t).frame (c := s.Sound ∧ P s ∧ c)).weaken
        (fun _ h => h) ?_ fun _ h => h.1.elim
      exact fun o u h => ⟨h.1.1, h.2.1, h.2.2.1, h.2.2.2, h.1.2⟩
    refine ((mount _ _ [] (id.index.toNat = s.ids.blocks)).pre ?_).bind fun output =>
      (mount _ _ _ _).bind fun previous => (mount _ _ _ _).bind fun next => ?_
    · exact fun u ⟨hm, hnew, hs, hp⟩ => ⟨hm, hs, hp, hnew⟩
    refine Leads.bind (Leads.alter ?_) fun _ => rest s d id hd
    rintro t ⟨hm, hs, hp, ⟨⟨hnew, ho⟩, hpr⟩, hn⟩
    exact ⟨hp, hs, rawBlock d output previous next,
      ⟨hnew, ⟨rfl, ho, hpr, hn⟩, t, by rw [List.nil_append] at hm; exact hm, rfl⟩⟩

/-- Whatever holds once a new block stands, while it gets its inputs, and after it was reported,
holds of new blocks. -/
theorem newBlock_keeps {P J : Workspace α → Prop}
    {K : BlockDefinition → BlockId → Workspace α → Prop} {L : BlockId → Workspace α → Prop}
    (typeName : String) (start : ∀ {ws}, P ws → J ws)
    (raise : ∀ {ws d id b ws'}, ws.Sound → ws.registry.get? typeName = some d →
      ws.Raises d id b ws' → P ws → K d id ws')
    (fine : ∀ d id, Handles (fun _ => True) strict id (K d id))
    (tell : ∀ {ws d id}, ws.Sound → K d id ws →
      L id { ws with events := ws.events.fire (.create id d.typeName) })
    (fine' : ∀ id, Handles (fun _ => True) strict id (L id))
    (units : ∀ id n, Leads (Good strict id (L id)) (setUnits id n)
      (fun _ t => Good strict id (L id) t ∧ t.Live id) fun t => t.Sound ∧ L id t)
    (enrol : ∀ {ws id name}, L id ws →
      L id { ws with procedures := ws.procedures.register name id })
    (done : ∀ {ws id}, L id ws → J ws) :
    Leads (fun ws => ws.Sound ∧ P ws) (newBlock typeName)
      (fun id t => Good strict id (L id) t ∧ t.Live id) (fun t => t.Sound ∧ J t) := by
  refine newBlock_raises typeName (fun _ hs hp _ => ⟨hs, start hp⟩) fun s d id hd => ?_
  have hraise : ∀ t, (P s ∧ s.Sound ∧ ∃ b, s.Raises d id b t) →
      Good strict id (K d id) t ∧ t.Live id := by
    rintro t ⟨hp, hs, b, hr⟩
    have hone := hs.registry typeName d hd
    have hloose := hr.loose_self hs hone
    exact ⟨⟨hr.sound hs hone, fun _ => hloose.tame (hr.sound hs hone).wired, raise hs hd hr hp⟩,
      hr.live⟩
  refine Leads.bind (Q := fun _ t => Good strict id (K d id) t ∧ t.Live id)
    (((Leads.forM_list _ fun t _ => addInput_stays (fine d id) t).pre hraise).refused
      fun _ h => h.elim) fun _ => ?_
  refine Leads.bind (Q := fun _ t => Good strict id (L id) t ∧ t.Live id)
    (Leads.fire ?_) fun _ => ?_
  · rintro t ⟨h, hl⟩
    exact ⟨⟨⟨h.sound.wired, h.sound.blockIds, h.sound.connectionIds, h.sound.registry⟩, h.tame,
      tell h.sound h.keeps⟩, hl⟩
  refine Leads.bind (Q := fun _ t => Good strict id (L id) t ∧ t.Live id) ?_ fun _ =>
    Leads.pure fun _ h => h
  refine Leads.forM_option _ (fun spec _ => ?_) fun _ _ h => h
  unfold finishContainer initContainer
  refine Leads.bind (Q := fun _ t => Good strict id (L id) t ∧ t.Live id) ?_ fun _ => ?_
  · refine Leads.bind (Q := fun _ t => Good strict id (L id) t ∧ t.Live id)
      ((Leads.forM_list _ fun t _ => addInput_stays (fine' id) t).refused fun _ h => h.elim)
      fun _ => ?_
    exact (units id 0).weaken (fun _ h => h.1) (fun _ _ h => h) fun _ h => ⟨h.1, done h.2⟩
  · refine Leads.ite (fun _ => ?_) fun _ => Leads.pure fun _ h => h
    unfold registerCall
    refine (Leads.block fun _ h hn => (not_live hn h.2).elim).bind fun b => Leads.alter ?_
    rintro t ⟨⟨h, hl⟩, -⟩
    exact ⟨⟨⟨h.sound.wired, h.sound.blockIds, h.sound.connectionIds, h.sound.registry⟩, h.tame,
      enrol h.keeps⟩, hl⟩

end Edit

end BlockEditor
