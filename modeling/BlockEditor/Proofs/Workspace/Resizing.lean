import BlockEditor.Proofs.Workspace.Trimming

/-!
# Resizing a container

Growing and shrinking a container adds inputs to it and removes inputs from it, and nothing else. A
property that these steps keep is kept by the whole, provided that the count and its report are
accounted for.
-/

namespace BlockEditor

variable {α : Type}

/-- The input has no field that a text can be set in. -/
def InputTemplate.Textless (t : InputTemplate) : Prop :=
  ∀ f ∈ t.fields, f.entry? = none

namespace Container

/-! ### What a container shows for its units -/

theorem textless_slotsAfter {kind : ContainerKind} {old new : Nat} :
    ∀ t ∈ slotsAfter kind old new, t.Textless := by
  intro t ht f hf
  obtain ⟨n, -, ht⟩ := List.mem_flatMap.mp ht
  obtain ⟨stem, -, rfl⟩ := List.mem_map.mp ht
  obtain ⟨label, -, rfl⟩ := List.mem_map.mp hf
  rfl

theorem textless_closing (spec : ContainerTemplate) : (closing spec).Textless := by
  unfold closing
  split
  · rintro f ⟨⟩
  · rintro f hf
    rw [List.mem_singleton.mp hf]
    rfl

theorem textless_controls (units : Nat) : (controls units).Textless := by
  unfold controls
  split
  · rintro f hf
    rcases List.mem_cons.mp hf with rfl | hf
    · rfl
    · rw [List.mem_singleton.mp hf]
      rfl
  · rintro f hf
    rw [List.mem_singleton.mp hf]
    rfl

end Container

namespace Workspace

variable {strict : Prop} {id : BlockId} {J J' : Workspace α → Prop} {ws ws' : Workspace α}
  {T : InputTemplate → Prop}

/-- The property is kept when a block loses inputs, or gets inputs after templates in `T`. If
`strict` is set, then the block does not hang below itself. -/
structure FineFor [Scalar α] (T : InputTemplate → Prop) (strict : Prop) (id : BlockId)
    (J : Workspace α → Prop) : Prop where
  shifts : ∀ {ws ws'}, ws.Sound → ws.Shifts (ws.Branch id) ws' → J ws → J ws'
  sheds : ∀ {ws ws' keep gone}, ws.Sound → (strict → ws.graph.Tame id) →
    ws.Sheds id keep gone ws' → J ws → J ws'
  pushes : ∀ {ws ws' ts is l}, ws.Sound → ws.Pushes id ts is l ws' → J ws → (∀ t ∈ ts, T t) → J ws'

/-- The property is kept when a block gets or loses any inputs. -/
abbrev Fine [Scalar α] (strict : Prop) (id : BlockId) (J : Workspace α → Prop) : Prop :=
  FineFor (fun _ => True) strict id J

/-- What holds between the steps. -/
structure Good (strict : Prop) (id : BlockId) (J : Workspace α → Prop) (ws : Workspace α) :
    Prop where
  sound : ws.Sound
  tame : strict → ws.graph.Tame id
  keeps : J ws

/-- What is left if the block goes away halfway. -/
structure Lost (id : BlockId) (J : Workspace α → Prop) (ws : Workspace α) : Prop where
  sound : ws.Sound
  keeps : J ws
  gone : ¬ ws.Live id

/-- The property is kept when a block is laid out, loses inputs, or gets inputs after templates in
`T`. It may depend on where blocks lie. -/
structure Handles [Scalar α] (T : InputTemplate → Prop) (strict : Prop) (id : BlockId)
    (J : Workspace α → Prop) : Prop where
  layOut : Leads (Good strict id J) (Edit.layOut id) (fun _ t => Good strict id J t ∧ t.Live id)
    (Lost id J)
  sheds : ∀ {ws ws' keep gone}, ws.Sound → (strict → ws.graph.Tame id) →
    ws.Sheds id keep gone ws' → J ws → J ws'
  pushes : ∀ {ws ws' ts is l}, ws.Sound → ws.Pushes id ts is l ws' → J ws → (∀ t ∈ ts, T t) → J ws'

theorem Shifts.live {S : BlockId → Prop} (h : ws.Shifts S ws') (hl : ws.Live id) :
    ws'.Live id := by
  obtain ⟨b, hb⟩ := hl
  obtain ⟨b', hb', -⟩ := h.block hb
  exact ⟨b', hb'⟩

section Fine

variable [Scalar α]

theorem FineFor.mono {T' : InputTemplate → Prop} (h : FineFor T strict id J)
    (hT : ∀ t, T' t → T t) : FineFor T' strict id J where
  shifts := h.shifts
  sheds := h.sheds
  pushes hs hstep hj ht := h.pushes hs hstep hj fun t hmem => hT t (ht t hmem)

theorem FineFor.and (h : FineFor T strict id J) (h' : FineFor T strict id J') :
    FineFor T strict id fun ws => J ws ∧ J' ws where
  shifts hs hstep hj := ⟨h.shifts hs hstep hj.1, h'.shifts hs hstep hj.2⟩
  sheds hs ht hstep hj := ⟨h.sheds hs ht hstep hj.1, h'.sheds hs ht hstep hj.2⟩
  pushes hs hstep hj ht := ⟨h.pushes hs hstep hj.1 ht, h'.pushes hs hstep hj.2 ht⟩

theorem Handles.and (h : Handles T strict id J) (h' : Handles T strict id J') :
    Handles T strict id fun ws => J ws ∧ J' ws where
  layOut := (h.layOut.and h'.layOut).weaken
    (fun _ h => ⟨⟨h.sound, h.tame, h.keeps.1⟩, h.sound, h.tame, h.keeps.2⟩)
    (fun _ _ h => ⟨⟨h.1.1.sound, h.1.1.tame, h.1.1.keeps, h.2.1.keeps⟩, h.1.2⟩)
    fun _ h => ⟨h.1.sound, ⟨h.1.keeps, h.2.keeps⟩, h.1.gone⟩
  sheds hs ht hstep hj := ⟨h.sheds hs ht hstep hj.1, h'.sheds hs ht hstep hj.2⟩
  pushes hs hstep hj ht := ⟨h.pushes hs hstep hj.1 ht, h'.pushes hs hstep hj.2 ht⟩

theorem Good.shifts (hJ : FineFor T strict id J) (h : Good strict id J ws)
    (hstep : ws.Shifts (ws.Branch id) ws') : Good strict id J ws' where
  sound := hstep.sound h.sound
  tame hstrict := by
    rw [hstep.graph]
    exact h.tame hstrict
  keeps := hJ.shifts h.sound hstep h.keeps

theorem FineFor.handles (hJ : FineFor T strict id J) : Handles T strict id J where
  layOut := by
    refine Leads.fix fun ws => ?_
    refine ((Edit.layOut_leads ws id).frame (c := Good strict id J ws)).weaken ?_ ?_ ?_
    · rintro _ ⟨rfl, h⟩
      exact ⟨⟨rfl, h.sound⟩, h⟩
    · rintro _ t ⟨⟨hl, hp⟩, h⟩
      exact ⟨h.shifts hJ hp, hp.live hl⟩
    · rintro _ ⟨⟨rfl, hn⟩, h⟩
      exact ⟨h.sound, h.keeps, hn⟩
  sheds := hJ.sheds
  pushes := hJ.pushes

theorem Good.sheds {keep gone : List Input} (hJ : Handles T strict id J) (h : Good strict id J ws)
    (hstep : ws.Sheds id keep gone ws') : Good strict id J ws' where
  sound := hstep.sound h.sound
  tame hstrict := (h.tame hstrict).mono fun _ _ => hstep.under h.sound
  keeps := hJ.sheds h.sound h.tame hstep h.keeps

theorem Good.pushes {ts : List InputTemplate} {is : List Input} {l : List NewEnd}
    (hJ : Handles T strict id J) (h : Good strict id J ws) (hstep : ws.Pushes id ts is l ws')
    (hT : ∀ t ∈ ts, T t) : Good strict id J ws' where
  sound := hstep.sound h.sound
  tame hstrict := (h.tame hstrict).mono fun _ _ => hstep.under h.sound
  keeps := hJ.pushes h.sound hstep h.keeps hT

/-- The number of units of a block does not change with its inputs. -/
theorem fine_units (strict : Prop) (id : BlockId) (n : Nat) :
    Fine (α := α) strict id fun ws => ∀ b, ws.blocks[id]? = some b → b.units = n where
  shifts _ hstep hj b hb := by
    obtain ⟨b₀, hb₀, he⟩ := hstep.symm_block hb
    have hu : b₀.units = b.units := congrArg (fun u : Block Unit => u.units) he
    exact hu.symm.trans (hj b₀ hb₀)
  sheds _ _ hstep hj b hb := by
    obtain ⟨R, hl, -⟩ := hstep
    obtain ⟨-, b₀, hb₀, rfl⟩ := hl.old hb
    rw [if_pos rfl]
    exact hj b₀ hb₀
  pushes _ hstep hj _ b hb := by
    rw [hstep.blocks, Option.map_eq_some_iff] at hb
    obtain ⟨b₀, hb₀, rfl⟩ := hb
    rw [if_pos rfl]
    exact hj b₀ hb₀

end Fine

end Workspace

namespace Edit

open Workspace

variable [Scalar α] {strict : Prop} {id : BlockId} {J : Workspace α → Prop}
  {T : InputTemplate → Prop}

theorem pushInputs_keeps (hJ : Handles T strict id J) (ts : List InputTemplate)
    (hT : ∀ t ∈ ts, T t := by exact fun _ _ => trivial) :
    Leads (Good strict id J) (pushInputs id ts) (fun _ t => Good strict id J t ∧ t.Live id)
      (Lost id J) := by
  refine Leads.fix fun ws => ?_
  refine ((pushInputs_leads ws id ts).frame (c := Good strict id J ws)).weaken ?_ ?_ ?_
  · rintro _ ⟨rfl, h⟩
    exact ⟨rfl, h⟩
  · rintro _ t ⟨⟨is, l, hp⟩, h⟩
    exact ⟨h.pushes hJ hp hT, hp.stays hp.live⟩
  · rintro _ ⟨⟨rfl, hn⟩, h⟩
    exact ⟨h.sound, h.keeps, hn⟩

theorem addInput_keeps (hJ : Handles T strict id J) (t : InputTemplate)
    (hT : T t := by exact trivial) :
    Leads (Good strict id J) (addInput id t) (fun _ t => Good strict id J t ∧ t.Live id)
      (Lost id J) :=
  (pushInputs_keeps hJ [t] (List.forall_mem_singleton.mpr hT)).bind fun _ =>
    hJ.layOut.pre fun _ h => h.1

theorem addInput_stays (hJ : Handles T strict id J) (t : InputTemplate)
    (hT : T t := by exact trivial) :
    Leads (fun s => Good strict id J s ∧ s.Live id) (addInput id t)
      (fun _ s => Good strict id J s ∧ s.Live id) fun _ => False := by
  refine Leads.fix fun ws => ?_
  refine (((addInput_keeps hJ t hT).and (addInput_leads ws id t)).frame (c := ws.Live id)).weaken
    ?_ (fun _ _ h => h.1.1) ?_
  · rintro _ ⟨rfl, h, hl⟩
    exact ⟨⟨h, rfl, h.sound⟩, hl⟩
  · rintro _ ⟨⟨-, rfl, hn⟩, hl⟩
    exact hn hl

theorem cutInputs_keeps (hJ : Handles T strict id J) (length : Nat) :
    Leads (Good strict id J) (cutInputs id length) (fun _ t => Good strict id J t)
      (Lost id J) := by
  refine Leads.fix fun ws => ?_
  refine ((cutInputs_leads ws id length).frame (c := Good strict id J ws)).weaken ?_ ?_ ?_
  · rintro _ ⟨rfl, h⟩
    exact ⟨⟨rfl, h.sound⟩, h⟩
  · rintro _ t ⟨⟨b, -, hp⟩, h⟩
    exact h.sheds hJ hp
  · rintro _ ⟨⟨rfl, hn⟩, h⟩
    exact ⟨h.sound, h.keeps, hn⟩

theorem removeInput_keeps (hJ : Handles T strict id J) (name : String) :
    Leads (Good strict id J) (removeInput id name) (fun _ t => Good strict id J t ∧ t.Live id)
      (Lost id J) := by
  rw [removeInput_eq]
  refine Leads.fix fun ws => ?_
  refine Leads.bind (Q := fun found t => Good strict id J t ∧ (found = false → t.Live id))
    (((dropInput_leads ws id name).frame (c := Good strict id J ws)).weaken ?_ ?_ ?_) fun found => ?_
  · rintro _ ⟨rfl, h⟩
    exact ⟨⟨rfl, h.sound⟩, h⟩
  · rintro found t ⟨⟨b, hb, hfound⟩, h⟩
    cases found with
    | false =>
      obtain ⟨-, rfl⟩ := hfound
      exact ⟨h, fun _ => ⟨b, hb⟩⟩
    | true =>
      obtain ⟨l₁, i, l₂, -, -, -, hp⟩ := hfound
      exact ⟨h.sheds hJ hp, fun h => by cases h⟩
  · rintro _ ⟨⟨rfl, hn⟩, h⟩
    exact ⟨h.sound, h.keeps, hn⟩
  cases found with
  | false => exact Leads.pure fun _ h => ⟨h.1, h.2 rfl⟩
  | true => exact hJ.layOut.pre fun _ h => h.1

theorem refreshControls_keeps (hJ : Handles T strict id J)
    (hT : ∀ t : InputTemplate, t.Textless → T t := by exact fun _ _ => trivial) :
    Leads (Good strict id J) (refreshControls id) (fun _ t => Good strict id J t ∧ t.Live id)
      (Lost id J) := by
  unfold refreshControls
  refine (Leads.block ?_).bind fun b => ?_
  · exact fun ws h hn => ⟨h.sound, h.keeps, not_live hn⟩
  refine ((removeInput_keeps hJ _).pre fun _ h => h.1).bind fun _ => ?_
  exact (addInput_keeps hJ _ (hT _ (Container.textless_controls _))).pre fun _ h => h.1

theorem resizeSlots_keeps (hJ : Handles T strict id J) (kind : ContainerKind) (old new : Nat)
    (hT : ∀ t : InputTemplate, t.Textless → T t := by exact fun _ _ => trivial) :
    Leads (Good strict id J) (resizeSlots id kind old new) (fun _ t => Good strict id J t)
      (fun t => t.Sound ∧ J t) := by
  unfold resizeSlots
  refine Leads.ite (fun _ => ?_) fun _ => Leads.ite (fun _ => ?_) fun _ => ?_
  · exact (pushInputs_keeps hJ _ fun t ht => hT t (Container.textless_slotsAfter t ht)).weaken
      (fun _ h => h) (fun _ _ h => h.1) fun _ h => ⟨h.1, h.2⟩
  · unfold cutSlots
    refine (Leads.block ?_).bind fun b => ?_
    · exact fun ws h _ => ⟨h.sound, h.keeps⟩
    split
    · exact (cutInputs_keeps hJ _).weaken (fun _ h => h.1) (fun _ _ h => h) fun _ h => ⟨h.1, h.2⟩
    · exact Leads.throw fun _ h => ⟨h.1.sound, h.1.keeps⟩
  · exact Leads.pure fun _ h => h

/-- A property is kept by resizing if its counterpart `K` holds between the update of the count
and its report. -/
theorem setUnits_keeps {K : Nat → Nat → Workspace α → Prop} (hJ : Handles T strict id J)
    (hK : ∀ old new, Handles T strict id (K old new))
    (enter : ∀ {ws b new}, ws.Sound → ws.blocks[id]? = some b → J ws →
      K b.units new { ws with blocks := ws.blocks.insert id { b with units := new } })
    (leave : ∀ {ws old new}, ws.Sound → ws.Live id → K old new ws →
      J (if old ≠ new then { ws with events := ws.events.fire (.mutation id old new) } else ws))
    (gone : ∀ {ws old new}, ws.Sound → ¬ ws.Live id → K old new ws → J ws) (wanted : Nat)
    (hT : ∀ t : InputTemplate, t.Textless → T t := by exact fun _ _ => trivial) :
    Leads (Good strict id J) (setUnits id wanted) (fun _ t => Good strict id J t ∧ t.Live id)
      (fun t => t.Sound ∧ J t) := by
  unfold setUnits
  refine (Leads.ask fun _ _ h _ => ⟨h.sound, h.keeps⟩).bind fun spec => ?_
  refine (Leads.block fun _ h _ => ⟨h.1.sound, h.1.keeps⟩).bind fun b₀ => ?_
  dsimp only
  have hold : Handles T strict id fun ws =>
      J ws ∧ ∀ b, ws.blocks[id]? = some b → b.units = b₀.units :=
    hJ.and ((fine_units strict id b₀.units).mono fun _ _ => trivial).handles
  refine Leads.bind (((removeInput_keeps hold _).pre ?_).refused fun _ h => ⟨h.1, h.2.1⟩) fun _ => ?_
  · rintro ws ⟨⟨h, -⟩, hb⟩
    exact ⟨h.sound, h.tame, h.keeps, fun b hb' => by rw [hb] at hb'; cases hb'; rfl⟩
  refine Leads.bind (((removeInput_keeps hold _).pre fun _ h => h.1).refused fun _ h => ⟨h.1, h.2.1⟩)
    fun _ => ?_
  refine Leads.bind (((resizeSlots_keeps hold _ _ _ hT).pre fun _ h => h.1).refused
    fun _ h => ⟨h.1, h.2.1⟩) fun _ => ?_
  refine Leads.bind (Q := fun _ => Good strict id (K b₀.units (Container.capUnits wanted)))
    (Leads.updateBlock ?_ ?_) fun _ => ?_
  · rintro ws b h hb
    have hu : b.units = b₀.units := h.keeps.2 b hb
    have hr : Block.roles { b with units := Container.capUnits wanted } = b.roles := rfl
    refine ⟨h.sound.insert hb hr, fun hstrict => ?_, ?_⟩
    · rw [graph_insert hb hr]
      exact h.tame hstrict
    · rw [← hu]
      exact enter h.sound hb h.keeps.1
  · exact fun ws h _ => ⟨h.sound, h.keeps.1⟩
  have hlost : ∀ ws, Lost id (K b₀.units (Container.capUnits wanted)) ws → ws.Sound ∧ J ws :=
    fun ws h => ⟨h.sound, gone h.sound h.gone h.keeps⟩
  refine Leads.bind ((pushInputs_keeps (hK _ _) _ (List.forall_mem_singleton.mpr
    (hT _ (Container.textless_closing spec)))).refused hlost) fun _ => ?_
  refine Leads.bind (((refreshControls_keeps (hK _ _) hT).pre fun _ h => h.1).refused hlost)
    fun _ => ?_
  refine Leads.ite (fun hne => Leads.fire ?_) fun he => Leads.pure ?_
  · rintro ws ⟨h, hl⟩
    refine ⟨⟨⟨h.sound.wired, h.sound.blockIds, h.sound.connectionIds, h.sound.registry⟩, h.tame, ?_⟩,
      hl⟩
    have := leave h.sound hl h.keeps
    rwa [if_pos hne] at this
  · rintro ws ⟨h, hl⟩
    refine ⟨⟨h.sound, h.tame, ?_⟩, hl⟩
    have := leave h.sound hl h.keeps
    rwa [if_neg he] at this

end Edit

end BlockEditor
