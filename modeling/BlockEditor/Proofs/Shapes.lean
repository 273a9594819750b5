import BlockEditor.Proofs.Workspace.Styling

/-!
# Containers keep their plan

While a container is resized its inputs follow, step by step, a shorter and a longer list of
templates. If it does not hang below itself then no step is refused; if a step is refused then the
block is gone.
-/

namespace BlockEditor

variable {α : Type}

namespace Workspace

variable {strict : Prop} {ws ws' : Workspace α} {id x : BlockId} {b : Block α}
  {d : BlockDefinition} {spec : ContainerTemplate} {ts us : List InputTemplate} {n : Nat}

theorem containerTemplate_eq_ok (hb : ws.blocks[id]? = some b) :
    ws.containerTemplate id = .ok spec ↔
      (ws.registry.get? b.typeName).bind (·.container) = some spec := by
  unfold containerTemplate
  simp only [block_eq_ok.mpr hb, bind, Except.bind]
  cases (ws.registry.get? b.typeName).bind (·.container) <;>
    simp [pure, Except.pure, throw, throwThe, MonadExceptOf.throw]

/-- All blocks have their shapes, but that the inputs of one follow the templates `ts`. If `strict`
is set, then that block is there and does not hang below itself. -/
structure Forming (strict : Prop) (id : BlockId) (d : BlockDefinition) (n : Nat)
    (ts : List InputTemplate) (ws : Workspace α) : Prop where
  sound : ws.Sound
  tidy : ws.registry.Tidy
  known : ws.registry.get? d.typeName = some d
  others : ∀ x ≠ id, ws.ShapedAt x
  own : ∀ b, ws.blocks[id]? = some b → ws.Styled b d ts ∧ b.units = n
  stays : strict → ws.graph.Tame id ∧ ws.Live id

/-- What is left if a step was refused. -/
def Unformed (strict : Prop) (ws : Workspace α) : Prop :=
  ws.Sound ∧ ws.Shaped ∧ ¬ strict

namespace Forming

theorem unformed (h : Forming strict id d n ts ws) (hn : ¬ ws.Live id) : Unformed strict ws := by
  refine ⟨h.sound, ⟨h.tidy, fun x => ?_⟩, fun hs => hn (h.stays hs).2⟩
  by_cases hx : x = id
  · subst hx
    exact fun b hb => (hn ⟨b, hb⟩).elim
  · exact h.others x hx

theorem shaped (h : Forming strict id d n ts ws) (hplan : d.Planned n ts) : ws.Shaped := by
  refine ⟨h.tidy, fun x => ?_⟩
  by_cases hx : x = id
  · subst hx
    intro b hb
    obtain ⟨hstyled, hn⟩ := h.own b hb
    exact ⟨d, ts, hstyled, by rw [hn]; exact hplan⟩
  · exact h.others x hx

theorem start (strict : Prop) (hs : ws.Sound) (hshaped : ws.Shaped)
    (hstays : strict → ws.graph.Tame id ∧ ws.Live id) (hb : ws.blocks[id]? = some b) :
    ∃ d ts, d.Planned b.units ts ∧ Forming strict id d b.units ts ws := by
  obtain ⟨d, ts, hstyled, hplan⟩ := hshaped.at_ id b hb
  have hknown : ws.registry.get? d.typeName = some d := by
    rw [hshaped.tidy.keyed hstyled.known]
    exact hstyled.known
  refine ⟨d, ts, hplan, hs, hshaped.tidy, hknown, fun x _ => hshaped.at_ x, fun b' hb' => ?_,
    hstays⟩
  rw [hb] at hb'
  cases hb'
  exact ⟨hstyled, rfl⟩

theorem shifts {S : BlockId → Prop} (h : Forming strict id d n ts ws) (hstep : ws.Shifts S ws') :
    Forming strict id d n ts ws' where
  sound := hstep.sound h.sound
  tidy := by
    rw [hstep.registry]
    exact h.tidy
  known := by
    rw [hstep.registry]
    exact h.known
  others x hx := hstep.shapedAt h.sound (h.others x hx)
  own b hb := by
    obtain ⟨b₀, hb₀, he⟩ := hstep.symm_block hb
    obtain ⟨hstyled, hn⟩ := h.own b₀ hb₀
    have hcore : b.core = b₀.core := Block.core_of_unplaced he.symm
    refine ⟨(hstyled.core hcore).carry hstep.registry fun c _ => hstep.retains c, ?_⟩
    rw [units_of_core hcore, hn]
  stays hstrict := by
    rw [hstep.graph]
    exact (h.stays hstrict).imp_right hstep.live

theorem sheds {keep gone : List Input} (h : Forming strict id d n ts ws)
    (hstep : ws.Sheds id keep gone ws')
    (hkeep : ∀ b, ws.blocks[id]? = some b → List.Forall₂ ws.Follows b.inputs ts →
      List.Forall₂ ws.Follows keep us) : Forming strict id d n us ws' := by
  have hunder : ∀ a y, ws'.graph.Under a y → ws.graph.Under a y := fun _ _ => hstep.under h.sound
  have hstays : strict → ws'.graph.Tame id ∧ ws'.Live id := fun hstrict =>
    ⟨(h.stays hstrict).1.mono hunder, hstep.stays (h.stays hstrict).1⟩
  obtain ⟨R, hl, -⟩ := hstep
  refine ⟨hl.sound h.sound, ?_, ?_, fun x hx => hl.shapedAt h.sound hx (h.others x hx), ?_, hstays⟩
  · rw [hl.registry]
    exact h.tidy
  · rw [hl.registry]
    exact h.known
  · intro b hb
    obtain ⟨hid, b₀, hb₀, rfl⟩ := hl.old hb
    obtain ⟨hstyled, hn⟩ := h.own b₀ hb₀
    rw [if_pos rfl]
    exact ⟨hl.styled h.sound hb₀ hid hstyled (hkeep b₀ hb₀ hstyled.inputs), hn⟩

theorem pushes [Scalar α] {is : List Input} {l : List NewEnd} (h : Forming strict id d n ts ws)
    (hstep : ws.Pushes id us is l ws') : Forming strict id d n (ts ++ us) ws' where
  sound := hstep.sound h.sound
  tidy := by
    rw [hstep.registry]
    exact h.tidy
  known := by
    rw [hstep.registry]
    exact h.known
  others x hx := hstep.shapedAt h.sound hx (h.others x hx)
  own b hb := by
    rw [hstep.blocks, Option.map_eq_some_iff] at hb
    obtain ⟨b₀, hb₀, rfl⟩ := hb
    obtain ⟨hstyled, hn⟩ := h.own b₀ hb₀
    rw [if_pos rfl]
    exact ⟨hstep.styled h.sound hstyled, hn⟩
  stays hstrict := by
    refine ⟨(h.stays hstrict).1.mono fun _ _ => hstep.under h.sound, ?_⟩
    exact hstep.stays (h.stays hstrict).2

/-- A block that is put in the place of another and differs from it in its units at most. -/
theorem recount (h : Forming strict id d n ts ws) (hb : ws.blocks[id]? = some b) (m : Nat) :
    Forming strict id d m ts { ws with blocks := ws.blocks.insert id { b with units := m } } := by
  have hr : Block.roles { b with units := m } = b.roles := rfl
  refine ⟨h.sound.insert hb hr, h.tidy, h.known, fun x hx => ?_, fun b' hb' => ?_, fun hstrict => ?_⟩
  · refine (h.others x hx).carry h.sound rfl (fun b' hb' => ⟨b', ?_, rfl⟩)
      fun c _ _ _ => retains_of_eq rfl
    rwa [getElem?_insert, if_neg hx] at hb'
  · rw [getElem?_insert, if_pos rfl, Option.some.injEq] at hb'
    subst hb'
    obtain ⟨hstyled, -⟩ := h.own b hb
    have hstyled' : ws.Styled { b with units := m } d ts :=
      ⟨hstyled.known, hstyled.container, hstyled.output, hstyled.previous, hstyled.next,
        hstyled.inputs⟩
    exact ⟨hstyled'.carry rfl fun c _ => retains_of_eq rfl, rfl⟩
  · refine ⟨?_, _, by rw [getElem?_insert, if_pos rfl]⟩
    rw [graph_insert hb hr]
    exact (h.stays hstrict).1

theorem withEvents (h : Forming strict id d n ts ws) (e : EventLog α) :
    Forming strict id d n ts { ws with events := e } where
  sound := h.sound.withEvents e
  tidy := h.tidy
  known := h.known
  others x hx := (h.others x hx).carry h.sound rfl (fun b hb => ⟨b, hb, rfl⟩)
    fun c _ _ _ => retains_of_eq rfl
  own b hb := by
    obtain ⟨hstyled, hn⟩ := h.own b hb
    exact ⟨hstyled.carry rfl fun c _ => retains_of_eq rfl, hn⟩
  stays := h.stays

theorem withProcedures (h : Forming strict id d n ts ws) (p : Procedures) :
    Forming strict id d n ts { ws with procedures := p } where
  sound := ⟨h.sound.wired, h.sound.blockIds, h.sound.connectionIds, h.sound.registry⟩
  tidy := h.tidy
  known := h.known
  others x hx := (h.others x hx).carry h.sound rfl (fun b hb => ⟨b, hb, rfl⟩)
    fun c _ _ _ => retains_of_eq rfl
  own b hb := by
    obtain ⟨hstyled, hn⟩ := h.own b hb
    exact ⟨hstyled.carry rfl fun c _ => retains_of_eq rfl, hn⟩
  stays := h.stays

/-- A new block is there, and hangs on nothing. -/
theorem raise [Scalar α] (hs : ws.Sound) (hshaped : ws.Shaped) {typeName : String}
    (hd : ws.registry.get? typeName = some d) (hstep : ws.Raises d id b ws') :
    Forming strict id d 0 [] ws' where
  sound := hstep.sound hs (hs.registry typeName d hd)
  tidy := by
    rw [hstep.registry]
    exact hshaped.tidy
  known := by
    rw [hstep.registry, hshaped.tidy.keyed hd]
    exact hd
  others x hx := hstep.shapedAt hs hx (hshaped.at_ x)
  own b' hb' := by
    rw [hstep.blocks, if_pos rfl, Option.some.injEq] at hb'
    subst hb'
    refine ⟨hstep.styled ?_, ?_⟩
    · rw [hshaped.tidy.keyed hd]
      exact hd
    · rw [hstep.unfurnished.block]
      rfl
  stays _ := by
    have hone := hs.registry typeName d hd
    exact ⟨(hstep.loose_self hs hone).tame (hstep.sound hs hone).wired, hstep.live⟩

/-- A container of the definition is built as the definition says. -/
theorem containerTemplate (h : Forming strict id d n ts ws) (hd : d.container = some spec)
    (hb : ws.blocks[id]? = some b) : ws.containerTemplate id = .ok spec := by
  rw [containerTemplate_eq_ok hb, (h.own b hb).1.known]
  exact hd

end Forming

end Workspace

namespace Edit

open Workspace

variable [Scalar α] {strict : Prop} {id : BlockId} {d : BlockDefinition}
  {spec : ContainerTemplate} {ts : List InputTemplate} {n : Nat}

theorem pushInputs_forms (us : List InputTemplate) :
    Leads (Forming (α := α) strict id d n ts) (pushInputs id us)
      (fun _ => Forming strict id d n (ts ++ us)) (Unformed strict) := by
  refine Leads.fix fun ws => ?_
  refine ((pushInputs_leads ws id us).frame (c := Forming strict id d n ts ws)).weaken
    (fun _ h => h) ?_ ?_
  · rintro _ t ⟨⟨is, l, hp⟩, h⟩
    exact h.pushes hp
  · rintro _ ⟨⟨rfl, hn⟩, h⟩
    exact h.unformed hn

theorem addInput_forms (t : InputTemplate) :
    Leads (Forming (α := α) strict id d n ts) (addInput id t)
      (fun _ => Forming strict id d n (ts ++ [t])) (Unformed strict) := by
  refine Leads.fix fun ws => ?_
  refine ((addInput_leads ws id t).frame (c := Forming strict id d n ts ws)).weaken ?_ ?_ ?_
  · rintro _ ⟨rfl, h⟩
    exact ⟨⟨rfl, h.sound⟩, h⟩
  · rintro _ s ⟨⟨is, l, u, hp, hs⟩, h⟩
    exact (h.pushes hp).shifts hs
  · rintro _ ⟨⟨rfl, hn⟩, h⟩
    exact h.unformed hn

theorem addInputs_forms (us : List InputTemplate) :
    Leads (Forming (α := α) strict id d n ts) (us.forM (addInput id))
      (fun _ => Forming strict id d n (ts ++ us)) (Unformed strict) := by
  induction us generalizing ts with
  | nil => exact Leads.pure fun _ h => by rwa [List.append_nil]
  | cons u rest ih =>
    refine (addInput_forms u).bind fun _ => ih.post fun _ t h => ?_
    rwa [List.append_assoc, List.singleton_append] at h

theorem removeInput_forms (name : String) :
    Leads (Forming (α := α) strict id d n ts) (removeInput id name)
      (fun _ => Forming strict id d n (ts.eraseP (·.name = name))) (Unformed strict) := by
  refine Leads.fix fun ws => ?_
  refine ((removeInput_leads ws id name).frame (c := Forming strict id d n ts ws)).weaken ?_ ?_ ?_
  · rintro _ ⟨rfl, h⟩
    exact ⟨⟨rfl, h.sound⟩, h⟩
  · rintro _ t ⟨⟨b, hb, ⟨hi, rfl⟩ | ⟨l₁, i, l₂, u, hl, hi, hne, hp, -, hp'⟩⟩, h⟩
    · have hsame : b.inputs.eraseP (·.name = name) = b.inputs :=
        List.eraseP_of_forall_not fun i hmem => by simpa using List.find?_eq_none.mp hi i hmem
      refine ⟨h.sound, h.tidy, h.known, h.others, fun b' hb' => ?_, h.stays⟩
      rw [hb] at hb'
      cases hb'
      obtain ⟨hstyled, hn⟩ := h.own b hb
      have hinputs := follows_erase name hstyled.inputs
      rw [hsame] at hinputs
      exact ⟨⟨hstyled.known, hstyled.container, hstyled.output, hstyled.previous, hstyled.next,
        hinputs⟩, hn⟩
    · refine (h.sheds hp fun b' hb' hfollows => ?_).shifts hp'
      rw [hb] at hb'
      cases hb'
      have herase : b.inputs.eraseP (·.name = name) = l₁ ++ l₂ := by
        rw [hl, List.append_assoc, List.eraseP_append_right]
        · simp [hi]
        · simpa using hne
      rw [← herase]
      exact follows_erase name hfollows
  · rintro t ⟨⟨rfl, hn⟩ | ⟨keep, gone, hp, hn⟩, h⟩
    · exact h.unformed hn
    · obtain ⟨R, hl, hR⟩ := hp
      refine ⟨hl.sound h.sound, ⟨?_, fun x => ?_⟩, fun hstrict => ?_⟩
      · rw [hl.registry]
        exact h.tidy
      · by_cases hx : x = id
        · subst hx
          exact fun b hb => (hn ⟨b, hb⟩).elim
        · exact hl.shapedAt h.sound hx (h.others x hx)
      · exact hn (Sheds.stays ⟨R, hl, hR⟩ (h.stays hstrict).1)

omit [Scalar α] in
theorem cutInputs_forms (k : Nat) :
    Leads (Forming (α := α) strict id d n ts) (cutInputs id k)
      (fun _ => Forming strict id d n (ts.take k)) (Unformed strict) := by
  refine Leads.fix fun ws => ?_
  refine ((cutInputs_leads ws id k).frame (c := Forming strict id d n ts ws)).weaken ?_ ?_ ?_
  · rintro _ ⟨rfl, h⟩
    exact ⟨⟨rfl, h.sound⟩, h⟩
  · rintro _ t ⟨⟨b, hb, hp⟩, h⟩
    refine h.sheds hp fun b' hb' hfollows => ?_
    rw [hb] at hb'
    cases hb'
    exact List.forall₂_take k hfollows
  · rintro _ ⟨⟨rfl, hn⟩, h⟩
    exact h.unformed hn

theorem refreshControls_forms :
    Leads (Forming (α := α) strict id d n ts) (refreshControls id)
      (fun _ => Forming strict id d n
        (ts.eraseP (·.name = Container.controlsInput) ++ [Container.controls n]))
      (Unformed strict) := by
  unfold refreshControls
  refine Leads.bind (Q := fun b t => Forming strict id d n ts t ∧ b.units = n) ?_ fun b => ?_
  · refine (Leads.block fun ws h hn => h.unformed (not_live hn)).post ?_
    exact fun b ws h => ⟨h.1, (h.1.own b h.2).2⟩
  refine ((removeInput_forms _).frame.refused fun _ h => h.1).bind fun _ => ?_
  refine ((addInput_forms _).frame.refused fun _ h => h.1).post ?_
  rintro _ t ⟨h, rfl⟩
  exact h

omit [Scalar α] in
theorem cutSlots_forms (kind : ContainerKind) (new : Nat) :
    Leads (fun ws : Workspace α => Forming strict id d n (Container.body spec n) ws ∧
        kind = spec.kind ∧ new < n)
      (cutSlots id kind new) (fun _ => Forming strict id d n (Container.body spec new))
      (Unformed strict) := by
  unfold cutSlots
  refine (Leads.block fun ws h hn => h.1.unformed (not_live hn)).bind fun b => ?_
  have hindex : ∀ ws : Workspace α, Forming strict id d n (Container.body spec n) ws →
      kind = spec.kind ∧ new < n → ws.blocks[id]? = some b →
      b.indexOfInput? (Container.slotName kind.firstStem (new + 1)) =
        some (Container.body spec new).length := by
    rintro ws h ⟨rfl, hlt⟩ hb
    rw [Block.indexOfInput?, follows_findIdx? _ (h.own b hb).1.inputs, Container.findIdx?_body hlt]
  split
  next index hi =>
    have hcut : Leads (Forming (α := α) strict id d n (Container.body spec n)) (cutInputs id index)
        (fun _ => Forming strict id d n ((Container.body spec n).take index)) (Unformed strict) :=
      cutInputs_forms index
    refine (hcut.frame (c := index = (Container.body spec new).length ∧ new < n)).weaken ?_ ?_
      fun _ h => h.1
    · rintro ws ⟨⟨h, hk⟩, hb⟩
      have hsome := hindex ws h hk hb
      rw [hi, Option.some.injEq] at hsome
      exact ⟨h, hsome, hk.2⟩
    · rintro _ t ⟨h, rfl, hlt⟩
      rwa [Container.take_body (Nat.le_of_lt hlt)] at h
  next hi =>
    refine Leads.throw ?_
    rintro ws ⟨⟨h, hk⟩, hb⟩
    have hsome := hindex ws h hk hb
    rw [hi] at hsome
    cases hsome

theorem resizeSlots_forms (kind : ContainerKind) (old new : Nat) :
    Leads (fun ws : Workspace α => Forming strict id d n (Container.body spec n) ws ∧
        kind = spec.kind ∧ old = n)
      (resizeSlots id kind old new) (fun _ => Forming strict id d n (Container.body spec new))
      (Unformed strict) := by
  unfold resizeSlots
  refine Leads.ite (fun hlt => ?_) fun _ => Leads.ite (fun hlt => ?_) fun _ => Leads.pure ?_
  · refine ((pushInputs_forms _).frame.refused fun _ h => h.1).post ?_
    rintro _ t ⟨h, rfl, rfl⟩
    rwa [Container.body_append (Nat.le_of_lt hlt)] at h
  · refine (cutSlots_forms kind new).pre ?_
    rintro ws ⟨h, hk, rfl⟩
    exact ⟨h, hk, hlt⟩
  · rintro ws ⟨h, -, rfl⟩
    have he : new = old := by omega
    rwa [he]

/-- A container that follows its plan, or has no units yet, follows its plan for any number of
units after that. -/
theorem setUnits_forms (hd : d.container = some spec)
    (hts : ts = Container.plan spec n ∨ n = 0 ∧ ts = Container.head spec) (wanted : Nat) :
    Leads (Forming (α := α) strict id d n ts) (setUnits id wanted)
      (fun _ => Forming strict id d (Container.capUnits wanted)
        (Container.plan spec (Container.capUnits wanted)))
      (Unformed strict) := by
  unfold setUnits
  refine Leads.bind (Q := fun spec' t => Forming strict id d n ts t ∧ spec' = spec)
    (Leads.query ?_ ?_) fun spec' => ?_
  · intro ws spec' h hq
    obtain ⟨b, hb, -⟩ := bind_eq_ok hq
    rw [h.containerTemplate hd (block_eq_ok.mp hb)] at hq
    cases hq
    exact ⟨h, rfl⟩
  · intro ws e h hq
    refine h.unformed fun ⟨b, hb⟩ => ?_
    rw [h.containerTemplate hd hb] at hq
    cases hq
  refine Leads.bind (Q := fun b t => Forming strict id d n ts t ∧ spec' = spec ∧ b.units = n) ?_
    fun b => ?_
  · refine (Leads.block fun ws h hn => h.1.unformed (not_live hn)).post ?_
    exact fun b ws h => ⟨h.1.1, h.1.2, (h.1.1.own b h.2).2⟩
  dsimp only
  refine ((removeInput_forms _).frame.refused fun _ h => h.1).bind fun _ => ?_
  refine ((removeInput_forms _).frame.refused fun _ h => h.1).bind fun _ => ?_
  rw [Container.erase_marks hts]
  refine Leads.bind (Q := fun _ t =>
    Forming strict id d n (Container.body spec (Container.capUnits wanted)) t ∧ spec' = spec) ?_
    fun _ => ?_
  · refine ((resizeSlots_forms _ _ _).frame (c := spec' = spec)).weaken ?_ (fun _ _ h => h)
      fun _ h => h.1
    rintro ws ⟨h, rfl, hn⟩
    exact ⟨⟨h, rfl, hn⟩, rfl⟩
  refine Leads.bind (Q := fun _ t => Forming strict id d (Container.capUnits wanted)
    (Container.body spec (Container.capUnits wanted)) t ∧ spec' = spec) ?_ fun _ => ?_
  · refine Leads.updateBlock (fun ws b' h hb => ⟨h.1.recount hb _, h.2⟩) ?_
    exact fun ws h hn => h.1.unformed (not_live hn)
  refine Leads.bind (Q := fun _ => Forming strict id d (Container.capUnits wanted)
    (Container.body spec (Container.capUnits wanted) ++ [Container.closing spec])) ?_ fun _ => ?_
  · refine ((pushInputs_forms _).frame.refused fun _ h => h.1).post ?_
    rintro _ t ⟨h, rfl⟩
    exact h
  refine Leads.bind (Q := fun _ => Forming strict id d (Container.capUnits wanted)
    (Container.plan spec (Container.capUnits wanted))) ?_ fun _ => ?_
  · refine refreshControls_forms.post fun _ t h => ?_
    rw [Container.body_closing_erase_controls, List.append_assoc] at h
    exact h
  · exact Leads.ite (fun _ => Leads.fire fun _ h => h.withEvents _) fun _ => Leads.pure fun _ h => h

/-- The templates that a new block follows. -/
def initial (d : BlockDefinition) : List InputTemplate :=
  match d.container with
  | some spec => Container.plan spec 0
  | none => d.inputs

theorem planned_initial (d : BlockDefinition) : d.Planned 0 (initial d) := by
  unfold initial
  cases hd : d.container with
  | some spec => exact .container hd (Nat.zero_le _)
  | none => exact .plain hd

theorem finishContainer_forms (hd : d.container = some spec) :
    Leads (Forming (α := α) strict id d 0 []) (finishContainer id spec)
      (fun _ => Forming strict id d 0 (Container.plan spec 0)) (Unformed strict) := by
  unfold finishContainer initContainer
  refine Leads.bind (Q := fun _ => Forming strict id d 0 (Container.plan spec 0)) ?_ fun _ => ?_
  · refine (addInputs_forms (Container.head spec)).bind fun _ => ?_
    rw [List.nil_append]
    exact setUnits_forms hd (Or.inr ⟨rfl, rfl⟩) 0
  · refine Leads.ite (fun _ => ?_) fun _ => Leads.pure fun _ h => h
    unfold registerCall
    refine (Leads.block fun ws h hn => h.unformed (not_live hn)).bind fun b => Leads.alter ?_
    exact fun ws h => h.1.withProcedures _

/-- A block of a known type is made without fail, if it is made alone. -/
theorem newBlock_forms (strict : Prop) (typeName : String) :
    Leads (fun ws : Workspace α => ws.Sound ∧ ws.Shaped ∧
        (strict → ∃ d, ws.registry.get? typeName = some d))
      (newBlock typeName)
      (fun id t => ∃ d, d.typeName = typeName ∧ Forming strict id d 0 (initial d) t)
      (Unformed strict) := by
  refine newBlock_raises typeName ?_ fun s d id hd => ?_
  · intro ws hs hp hnone
    refine ⟨hs, hp.1, fun hstrict => ?_⟩
    obtain ⟨d, hd⟩ := hp.2 hstrict
    rw [hnone] at hd
    cases hd
  have hraise : ∀ t, ((s.Shaped ∧ (strict → ∃ d, s.registry.get? typeName = some d)) ∧ s.Sound ∧
      ∃ b, s.Raises d id b t) → Forming strict id d 0 [] t ∧ d.typeName = typeName ∧
        (d.container.isSome → d.inputs = []) := by
    rintro t ⟨⟨hshaped, -⟩, hs, b, hr⟩
    exact ⟨Forming.raise hs hshaped hd hr, hshaped.tidy.keyed hd, hshaped.tidy.bare hd⟩
  have hinputs : Leads (Forming (α := α) strict id d 0 []) (d.inputs.forM (addInput id))
      (fun _ => Forming strict id d 0 ([] ++ d.inputs)) (Unformed strict) := addInputs_forms d.inputs
  refine ((hinputs.frame.pre hraise).refused fun _ h => h.1).bind fun _ => ?_
  refine Leads.bind (Leads.fire (Q := fun _ t => Forming strict id d 0 d.inputs t ∧
    d.typeName = typeName ∧ (d.container.isSome → d.inputs = [])) ?_) fun _ => ?_
  · exact fun t h => ⟨h.1.withEvents _, h.2⟩
  refine Leads.bind (Q := fun _ t => Forming strict id d 0 (initial d) t ∧ d.typeName = typeName) ?_
    fun _ => Leads.pure fun _ h => ⟨d, h.2, h.1⟩
  unfold initial
  cases hc : d.container with
  | none => exact Leads.pure fun _ h => ⟨h.1, h.2.1⟩
  | some spec =>
    refine ((finishContainer_forms hc).frame.refused fun _ h => h.1).pre ?_
    rintro t ⟨h, ht, hbare⟩
    rw [hbare (by rfl)] at h
    exact ⟨h, ht⟩

/-! ### Any number of units -/

omit [Scalar α] in
theorem templateOf {ws : Workspace α} {b : Block α} (h : ws.containerTemplate id = .ok spec)
    (hb : ws.blocks[id]? = some b) (hstyled : ws.Styled b d ts) : d.container = some spec := by
  rw [containerTemplate_eq_ok hb, hstyled.known] at h
  exact h

theorem setUnits_of_error {ws : Workspace α} {e : EditError α} (n : Nat)
    (h : ws.containerTemplate id = .error e) : setUnits id n ws = .error e ws := by
  have hquery : query (·.containerTemplate id) ws = .error e ws := by simp only [query, h]
  exact bind_error hquery

/-- A live container that does not hang below itself takes any number of units. -/
theorem setUnits_shapes (strict : Prop) (id : BlockId) (wanted : Nat) :
    Leads (fun ws : Workspace α => ws.Sound ∧ ws.Shaped ∧
        (strict → ws.graph.Tame id ∧ ∃ spec, ws.containerTemplate id = .ok spec))
      (setUnits id wanted)
      (fun _ t => ∃ d spec, d.container = some spec ∧ Forming strict id d (Container.capUnits wanted)
        (Container.plan spec (Container.capUnits wanted)) t)
      (Unformed strict) := by
  refine Leads.from_starts (coarse_true.setUnits (fine_true strict id) wanted) fun ws h => ?_
  obtain ⟨hs, hshaped, hstrict⟩ := h
  cases hq : ws.containerTemplate id with
  | error e =>
    refine Or.inl ⟨e, setUnits_of_error wanted hq, hs, hshaped, fun h => ?_⟩
    obtain ⟨-, spec, hspec⟩ := hstrict h
    rw [hq] at hspec
    cases hspec
  | ok spec =>
    obtain ⟨b, hb, -⟩ := bind_eq_ok hq
    have hb := block_eq_ok.mp hb
    obtain ⟨d, ts, hplan, hform⟩ :=
      Forming.start strict hs hshaped (fun h => ⟨(hstrict h).1, b, hb⟩) hb
    have hd : d.container = some spec := templateOf hq hb (hform.own b hb).1
    refine Or.inr ((setUnits_forms hd (Or.inl (hplan.eq_plan hd).2) wanted).weaken ?_ ?_ fun _ h => h)
    · rintro _ rfl
      exact hform
    · exact fun _ t h => ⟨d, spec, hd, h⟩

omit [Scalar α] in
theorem planned_capUnits (hd : d.container = some spec) (n : Nat) :
    d.Planned (Container.capUnits n) (Container.plan spec (Container.capUnits n)) :=
  .container hd (Nat.min_le_right n _)

theorem planned_refreshed (h : d.Planned n ts) (hne : ∀ t ∈ d.inputs, t.name ≠ Container.controlsInput) :
    d.Planned n (ts.eraseP (·.name = Container.controlsInput) ++ [Container.controls n]) := by
  cases h with
  | container hd hn =>
    rw [Container.plan_erase_controls, List.append_assoc]
    exact .container hd hn
  | plain hd =>
    rw [Container.erase_none hne]
    exact .controlled hd
  | controlled hd =>
    rw [Container.erase_last hne rfl]
    exact .controlled hd

theorem refreshControls_of_error {ws : Workspace α} (h : ws.blocks[id]? = none) :
    refreshControls id ws = .error (.unknownBlock id) ws := by
  unfold refreshControls
  simp only [query, bind, EStateM.bind, Workspace.block, h]

theorem refreshControls_shapes (id : BlockId) :
    Leads (fun ws : Workspace α => ws.Sound ∧ ws.Shaped) (refreshControls id)
      (fun _ t => t.Shaped) fun t => t.Shaped := by
  refine Leads.from_starts (Edit.refreshControls_keeps (fine_true False id).handles) fun ws h => ?_
  obtain ⟨hs, hshaped⟩ := h
  cases hb : ws.blocks[id]? with
  | none => exact Or.inl ⟨_, refreshControls_of_error hb, hshaped⟩
  | some b =>
    obtain ⟨d, ts, hplan, hform⟩ := Forming.start False hs hshaped False.elim hb
    have hrefresh : Leads (Forming (α := α) False id d b.units ts) (refreshControls id)
        (fun _ => Forming False id d b.units
          (ts.eraseP (·.name = Container.controlsInput) ++ [Container.controls b.units]))
        (Unformed False) := refreshControls_forms
    refine Or.inr (hrefresh.weaken ?_ ?_ fun _ h => h.2.1)
    · rintro _ rfl
      exact hform
    · refine fun _ t h => h.shaped (planned_refreshed hplan fun t ht => ?_)
      exact hform.tidy.uncontrolled hform.known t ht

end Edit

/-! ### Every edit -/

namespace Workspace

variable {ws ws' : Workspace α}

theorem Shaped.carry (h : ws.Shaped) (hs : ws.Sound) (hr : ws'.registry = ws.registry)
    (hb : ∀ (x : BlockId) b', ws'.blocks[x]? = some b' → ∃ b, ws.blocks[x]? = some b ∧ b'.core = b.core)
    (hc : ∀ c, ws.Retains ws' c) : ws'.Shaped where
  tidy := by
    rw [hr]
    exact h.tidy
  at_ x := (h.at_ x).carry hs hr (hb x) fun c _ _ _ => hc c

theorem Shaped.congr (h : ws.Shaped) (hr : ws'.registry = ws.registry)
    (hb : ws'.blocks = ws.blocks) (hc : ws'.connections = ws.connections) : ws'.Shaped where
  tidy := by
    rw [hr]
    exact h.tidy
  at_ x b hx := by
    rw [hb] at hx
    obtain ⟨d, ts, hstyled, hplan⟩ := h.at_ x b hx
    exact ⟨d, ts, hstyled.carry hr fun c _ => retains_of_eq (by rw [hc]), hplan⟩

theorem Shaped.setInputs {id : BlockId} {b : Block α} {name value : String} {inputs : List Input}
    (h : ws.Shaped) (hs : ws.Sound) (hb : ws.blocks[id]? = some b)
    (hf : setFieldAmong name value b.inputs = some inputs) : (ws.setInputs id b inputs).Shaped where
  tidy := h.tidy
  at_ x := by
    by_cases hx : x = id
    · subst hx
      intro b' hb'
      rw [getElem?_setInputs, if_pos rfl, Option.some.injEq] at hb'
      subst hb'
      obtain ⟨d, ts, hstyled, hplan⟩ := h.at_ x b hb
      have hset : ws.Styled { b with inputs := inputs } d ts :=
        ⟨hstyled.known, hstyled.container, hstyled.output, hstyled.previous, hstyled.next,
          follows_setField hf hstyled.inputs⟩
      exact ⟨d, ts, hset.carry rfl fun c _ => retains_of_eq rfl, hplan⟩
    · refine (h.at_ x).carry hs rfl (fun b' hb' => ⟨b', ?_, rfl⟩) fun c _ _ _ => retains_of_eq rfl
      rwa [getElem?_setInputs, if_neg hx] at hb'

theorem stable_shaped [Scalar α] : Stable (α := α) False fun _ => Shaped where
  mono _ h := h
  shifts hs hstep h := by
    refine ⟨?_, fun x => hstep.shapedAt hs (h.at_ x)⟩
    rw [hstep.registry]
    exact h.tidy
  decorate {X ws id b b'} hs hb he h := by
    refine h.carry hs rfl (fun x b'' hb'' => ?_) fun c => retains_of_eq rfl
    rw [getElem?_insert] at hb''
    by_cases hx : x = id
    · rw [if_pos hx, Option.some.injEq] at hb''
      subst hx hb''
      exact ⟨b, hb, he⟩
    · rw [if_neg hx] at hb''
      exact ⟨b'', hb'', rfl⟩
  field hs hb hf h := (h.setInputs hs hb hf).congr rfl rfl rfl
  side h := h.congr rfl rfl rfl
  note _ h := h.congr rfl rfl rfl
  group h := h.congr rfl rfl rfl
  template hs ht hr h := by
    refine h.carry hs (by rw [hr]) (fun x b hb => ⟨b, by rw [hr] at hb; exact hb, rfl⟩) fun c => ?_
    refine retains_of_map (ht c) fun y => ?_
    split <;> rfl
  cuts hs hstep h := by
    refine h.carry hs hstep.registry (fun x b hb => ⟨b, by rw [hstep.blocks] at hb; exact hb, rfl⟩)
      fun c => retains_of_map (hstep.connections c) fun y => ?_
    split <;> rfl
  ties hs hstep h := by
    refine h.carry hs hstep.registry (fun x b hb => ⟨b, by rw [hstep.blocks] at hb; exact hb, rfl⟩)
      fun c => retains_of_map (hstep.connections c) fun y => ?_
    split
    · rfl
    · split <;> rfl
  prunes {X ws id b R ws'} hs hb hl _ h := by
    refine ⟨?_, fun x => ?_⟩
    · rw [hl.registry]
      exact h.tidy
    · by_cases hx : x = id
      · subst hx
        intro b' hb'
        obtain ⟨hR, b₀, hb₀, rfl⟩ := hl.old hb'
        rw [hb] at hb₀
        cases hb₀
        obtain ⟨d, ts, hstyled, hplan⟩ := h.at_ x b hb
        rw [if_pos rfl]
        exact ⟨d, ts, hl.styled hs hb hR hstyled hstyled.inputs, hplan⟩
      · exact hl.shapedAt hs hx (h.at_ x)
  fill _ _ h := h
  newBlock typeName := by
    refine (Edit.newBlock_forms False typeName).weaken (fun _ h => ⟨h.1, h.2, False.elim⟩) ?_
      fun _ h => h.2.1
    rintro id t ⟨d, -, hform⟩
    exact hform.shaped (Edit.planned_initial d)
  setUnits id n := by
    refine (Edit.setUnits_shapes False id n).weaken (fun _ h => ⟨h.1, h.2.1, False.elim⟩) ?_
      fun _ h => h.2.1
    rintro _ t ⟨d, spec, hd, hform⟩
    exact hform.shaped (Edit.planned_capUnits hd n)
  refreshControls id := (Edit.refreshControls_shapes id).pre fun _ h => ⟨h.1, h.2.1⟩

end Workspace

end BlockEditor
