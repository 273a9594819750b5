import BlockEditor.Proofs.Shapes
import BlockEditor.Proofs.Workspace.Reshaping

/-!
# Refitting a container

A container is given a number of units by taking its marks off, cutting the units in excess or
making those that are missing, and putting new marks on. That comes to one change of shape, and
going by way of a number in between comes to the same.
-/

namespace BlockEditor

variable {α : Type}

/-- The row of fields that is made after a template. -/
def InputTemplate.row (t : InputTemplate) : Input :=
  ⟨t.name, t.kind, t.fields, none⟩

theorem Field.eq_of_textless {f g : Field} (hg : g.entry? = none)
    (h : f.setText "" = g.setText "") : f = g := by
  cases g with
  | text name value => cases hg
  | label text =>
    cases f with
    | label text' => exact h
    | _ => cases h
  | action control =>
    cases f with
    | action control' => exact h
    | _ => cases h

theorem Field.map_setText_inj {l l' : List Field} (hl : ∀ g ∈ l', g.entry? = none)
    (h : l.map (Field.setText "") = l'.map (Field.setText "")) : l = l' := by
  induction l' generalizing l with
  | nil => exact List.map_eq_nil_iff.mp h
  | cons g rest ih =>
    obtain ⟨f, fs, rfl, hf, hfs⟩ := List.map_eq_cons_iff.mp h
    rw [Field.eq_of_textless (hl g List.mem_cons_self) hf,
      ih (fun g' hg => hl g' (List.mem_cons_of_mem g hg)) hfs]

namespace Container

variable {spec : ContainerTemplate} {n m : Nat}

/-- The marks that close a container of `n` units. -/
def marks (spec : ContainerTemplate) (n : Nat) : List Input :=
  [(closing spec).row, (controls n).row]

theorem slotsAfter_of_le {kind : ContainerKind} (h : m ≤ n) : slotsAfter kind n m = [] := by
  rw [slotsAfter, Nat.sub_eq_zero_of_le h]
  rfl

/-- What stays in front and what is made add up to the body. -/
theorem body_refit (spec : ContainerTemplate) (n m : Nat) :
    body spec (min n m) ++ slotsAfter spec.kind n m = body spec m := by
  rcases Nat.le_total n m with h | h
  · rw [Nat.min_eq_left h, body_append h]
  · rw [Nat.min_eq_right h, slotsAfter_of_le h, List.append_nil]

/-- What stands behind what stays in front. -/
theorem drop_body (spec : ContainerTemplate) (n m : Nat) :
    (body spec n).drop (body spec (min n m)).length = slotsAfter spec.kind m n := by
  rcases Nat.le_total n m with h | h
  · rw [Nat.min_eq_left h, List.drop_length, slotsAfter_of_le h]
  · rw [Nat.min_eq_right h, ← body_append h, List.drop_left]

theorem length_body_le (h : n ≤ m) : (body spec n).length ≤ (body spec m).length := by
  rw [← body_append h, List.length_append]
  exact Nat.le_add_right _ _

theorem ne_controls_of_names {is : List Input} (h : is.map (·.name) = (body spec n).map (·.name))
    {i : Input} (hi : i ∈ is) : i.name ≠ controlsInput := by
  obtain ⟨t, ht, hti⟩ := List.mem_map.mp (h ▸ List.mem_map_of_mem hi)
  rw [← hti]
  exact body_ne_controls ht

theorem ne_controls_concat_closing {is : List Input} (h : ∀ i ∈ is, i.name ≠ controlsInput) :
    ∀ i ∈ is ++ [(closing spec).row], i.name ≠ controlsInput := by
  intro i hi
  rcases List.mem_append.mp hi with hi | hi
  · exact h i hi
  · rw [List.mem_singleton.mp hi]
    exact (by decide : closeInput ≠ controlsInput)

theorem ne_close_of_names {is : List Input} (h : is.map (·.name) = (body spec n).map (·.name))
    {i : Input} (hi : i ∈ is) : i.name ≠ closeInput := by
  obtain ⟨t, ht, hti⟩ := List.mem_map.mp (h ▸ List.mem_map_of_mem hi)
  rw [← hti]
  exact body_ne_close ht

end Container

namespace Built

variable {ts : List InputTemplate} {is is' : List Input} {l l' : List NewEnd}

theorem names (h : Built ts is l) : is.map (·.name) = ts.map (·.name) := by
  induction h with
  | nil => rfl
  | dummy _ _ ih => rw [List.map_cons, List.map_cons, ih]
  | socket _ _ _ ih => rw [List.map_cons, List.map_cons, ih]

/-- The inputs that stay in front and those that are made have the names of the body. -/
theorem names_refit {spec : ContainerTemplate} {n m : Nat} {B : List Input}
    (h : Built (Container.slotsAfter spec.kind n m) is l)
    (hB : B.map (·.name) = (Container.body spec n).map (·.name)) :
    (B.take (Container.body spec (min n m)).length ++ is).map (·.name) =
      (Container.body spec m).map (·.name) := by
  rw [List.map_append, List.map_take, hB, h.names, ← List.map_take,
    Container.take_body (Nat.min_le_left n m), ← List.map_append, Container.body_refit]

theorem length (h : Built ts is l) :
    l.length = (ts.filterMap fun t => t.kind.connection?).length := by
  induction h with
  | nil => rfl
  | dummy hk _ ih => simpa [hk] using ih
  | socket _ hk _ ih => simpa [hk] using ih

/-- The ids that are handed out determine what is made. -/
theorem determined (h : Built ts is l) (h' : Built ts is' l')
    (hl : l.map (·.connection) = l'.map (·.connection)) : is = is' ∧ l = l' := by
  induction h generalizing is' l' with
  | nil =>
    cases h'
    exact ⟨rfl, rfl⟩
  | dummy hk _ ih =>
    cases h' with
    | dummy _ h' =>
      obtain ⟨rfl, rfl⟩ := ih h' hl
      exact ⟨rfl, rfl⟩
    | socket _ hk' _ =>
      rw [hk] at hk'
      cases hk'
  | socket c hk _ ih =>
    cases h' with
    | dummy hk' _ =>
      rw [hk] at hk'
      cases hk'
    | socket c' hk' h' =>
      rw [hk, Option.some.injEq] at hk'
      subst hk'
      obtain ⟨hc, hl⟩ := List.cons.inj hl
      obtain ⟨rfl, rfl⟩ := ih h' hl
      subst hc
      exact ⟨rfl, rfl⟩

theorem of_row {t : InputTemplate} (hk : t.kind.connection? = none) (h : Built [t] is l) :
    is = [t.row] ∧ l = [] := by
  cases h with
  | dummy _ h =>
    cases h
    exact ⟨rfl, rfl⟩
  | socket c hk' _ =>
    rw [hk] at hk'
    cases hk'

end Built

namespace Workspace

variable [Scalar α] {ws t u : Workspace α} {id : BlockId} {inputs keep gone : List Input}
  {n : Nat} {cut : List ConnectionId} {made : List NewEnd} {b : Block α}

/-- Since the state `ws` a block has been reshaped, and nothing else was done. -/
structure Reshaped (ws : Workspace α) (id : BlockId) (inputs : List Input) (n : Nat)
    (cut : List ConnectionId) (made : List NewEnd) (t : Workspace α) : Prop where
  before : ws.Sound
  tame : ws.graph.Tame id
  sound : t.Sound
  since : ∃ R, ws.Reshapes id inputs n cut made R t

namespace Reshaped

theorem block (h : ws.Reshaped id inputs n cut made t) :
    ∃ b, t.blocks[id]? = some b ∧ b.inputs = inputs ∧ b.units = n := by
  obtain ⟨R, hr⟩ := h.since
  obtain ⟨b, hb⟩ := hr.live
  obtain ⟨b', hb', he⟩ := hr.self hb
  exact ⟨b', hb', congrArg (fun b : Block Unit => b.inputs) he,
    congrArg (fun b : Block Unit => b.units) he⟩

theorem live (h : ws.Reshaped id inputs n cut made t) : t.Live id := by
  obtain ⟨b, hb, -⟩ := h.block
  exact ⟨b, hb⟩

theorem of_block (h : ws.Reshaped id inputs n cut made t) (hb : t.blocks[id]? = some b) :
    b.inputs = inputs ∧ b.units = n := by
  obtain ⟨b', hb', hinputs, hunits⟩ := h.block
  rw [hb, Option.some.injEq] at hb'
  subst hb'
  exact ⟨hinputs, hunits⟩

theorem tame_after (h : ws.Reshaped id inputs n cut made t) : t.graph.Tame id := by
  obtain ⟨R, hr⟩ := h.since
  exact hr.tame h.before h.tame

theorem followed {inputs' : List Input} {n' : Nat} {cut' : List ConnectionId}
    {made' : List NewEnd} {R' : List BlockId} (h : ws.Reshaped id inputs n cut made t)
    (h' : t.Reshapes id inputs' n' cut' made' R' u) (hu : u.Sound)
    (hcut : ∀ e ∈ made, e.connection ∉ cut') :
    ws.Reshaped id inputs' n' (cut ++ cut') (made ++ made') u := by
  obtain ⟨R, hr⟩ := h.since
  exact ⟨h.before, h.tame, hu, R ++ R', hr.trans h.before h' hcut⟩

/-- A step that neither cuts nor makes ends. -/
theorem silently {inputs' : List Input} {n' : Nat} {R' : List BlockId}
    (h : ws.Reshaped id inputs n cut made t) (h' : t.Reshapes id inputs' n' [] [] R' u)
    (hu : u.Sound) : ws.Reshaped id inputs' n' cut made u := by
  have hboth := h.followed h' hu fun _ _ => List.not_mem_nil
  rwa [List.append_nil, List.append_nil] at hboth

theorem congr_cut {cut' : List ConnectionId} (h : ws.Reshaped id inputs n cut made t)
    (hcut : ∀ c, c ∈ cut ↔ c ∈ cut') : ws.Reshaped id inputs n cut' made t := by
  obtain ⟨R, hr⟩ := h.since
  exact ⟨h.before, h.tame, h.sound, R, hr.congr_cut hcut⟩

theorem start (hs : ws.Sound) (ht : ws.graph.Tame id) (hb : ws.blocks[id]? = some b) :
    ws.Reshaped id b.inputs b.units [] [] ws :=
  ⟨hs, ht, hs, [], .of_shifts hb (Shifts.refl (fun _ => False) ws)⟩

theorem shifts {S : BlockId → Prop} (h : ws.Reshaped id inputs n cut made t)
    (hstep : t.Shifts S u) : ws.Reshaped id inputs n cut made u := by
  obtain ⟨b, hb, rfl, rfl⟩ := h.block
  exact h.silently (.of_shifts hb hstep) (hstep.sound h.sound)

theorem fired (h : ws.Reshaped id inputs n cut made t) {e : Event α} (he : e.deleted? = none) :
    ws.Reshaped id inputs n cut made { t with events := t.events.fire e } := by
  obtain ⟨b, hb, rfl, rfl⟩ := h.block
  exact h.silently (.of_fired hb he) (h.sound.withEvents _)

theorem recount (h : ws.Reshaped id inputs n cut made t) (hb : t.blocks[id]? = some b) (m : Nat) :
    ws.Reshaped id inputs m cut made
      { t with blocks := t.blocks.insert id { b with units := m } } := by
  obtain ⟨rfl, rfl⟩ := h.of_block hb
  exact h.silently (.of_units hb m) (h.sound.insert hb rfl)

theorem sheds (h : ws.Reshaped id inputs n cut made t) (hstep : t.Sheds id keep gone u)
    (hmade : ∀ e ∈ made, e.connection ∉ gone.filterMap (·.connection)) :
    ws.Reshaped id keep n (cut ++ gone.filterMap (·.connection)) made u := by
  obtain ⟨b, hb, rfl, rfl⟩ := h.block
  obtain ⟨R, hl, hR⟩ := hstep
  obtain ⟨hseals, hid⟩ := hR h.tame_after
  have hboth := h.followed (.of_loses h.sound hb h.tame_after hl hseals hid) (hl.sound h.sound) hmade
  rwa [List.append_nil] at hboth

theorem pushes {ts : List InputTemplate} {is : List Input} {l : List NewEnd}
    (h : ws.Reshaped id inputs n cut made t) (hstep : t.Pushes id ts is l u) :
    ws.Reshaped id (inputs ++ is) n cut (made ++ l) u := by
  obtain ⟨b, hb, rfl, rfl⟩ := h.block
  have hboth := h.followed (.of_pushes hb hstep) (hstep.sound h.sound) fun _ _ => List.not_mem_nil
  rwa [List.append_nil] at hboth

end Reshaped

end Workspace

namespace Edit

open Workspace

variable [Scalar α] {ws : Workspace α} {id : BlockId} {inputs : List Input} {n : Nat}
  {cut : List ConnectionId} {made : List NewEnd}

theorem layOut_reshapes :
    Leads (ws.Reshaped id inputs n cut made) (layOut id)
      (fun _ => ws.Reshaped id inputs n cut made) fun _ => False := by
  refine Leads.fix fun t => ((layOut_leads t id).frame
    (c := ws.Reshaped id inputs n cut made t)).weaken ?_ ?_ ?_
  · rintro _ ⟨rfl, h⟩
    exact ⟨⟨rfl, h.sound⟩, h⟩
  · rintro _ u ⟨⟨-, hstep⟩, h⟩
    exact h.shifts hstep
  · rintro _ ⟨⟨rfl, hn⟩, h⟩
    exact hn h.live

theorem pushInputs_reshapes (ts : List InputTemplate) :
    Leads (ws.Reshaped id inputs n cut made) (pushInputs id ts)
      (fun _ u => ∃ is l, Built ts is l ∧ ws.Reshaped id (inputs ++ is) n cut (made ++ l) u)
      fun _ => False := by
  refine Leads.fix fun t => ((pushInputs_leads t id ts).frame
    (c := ws.Reshaped id inputs n cut made t)).weaken (fun _ h => h) ?_ ?_
  · rintro _ u ⟨⟨is, l, hstep⟩, h⟩
    exact ⟨is, l, hstep.built, h.pushes hstep⟩
  · rintro _ ⟨⟨rfl, hn⟩, h⟩
    exact hn h.live

theorem pushRow_reshapes {t : InputTemplate} (hk : t.kind.connection? = none) :
    Leads (ws.Reshaped id inputs n cut made) (pushInputs id [t])
      (fun _ => ws.Reshaped id (inputs ++ [t.row]) n cut made) fun _ => False := by
  refine (pushInputs_reshapes [t]).post ?_
  rintro _ u ⟨is, l, hbuilt, h⟩
  obtain ⟨rfl, rfl⟩ := hbuilt.of_row hk
  rwa [List.append_nil] at h

theorem cutInputs_reshapes (k : Nat) :
    Leads (ws.Reshaped id inputs n cut []) (cutInputs id k)
      (fun _ => ws.Reshaped id (inputs.take k) n
        (cut ++ (inputs.drop k).filterMap (·.connection)) [])
      fun _ => False := by
  refine Leads.fix fun t => ((cutInputs_leads t id k).frame
    (c := ws.Reshaped id inputs n cut [] t)).weaken ?_ ?_ ?_
  · rintro _ ⟨rfl, h⟩
    exact ⟨⟨rfl, h.sound⟩, h⟩
  · rintro _ u ⟨⟨b, hb, hstep⟩, h⟩
    obtain ⟨rfl, -⟩ := h.of_block hb
    exact h.sheds hstep fun e he => by cases he
  · rintro _ ⟨⟨rfl, hn⟩, h⟩
    exact hn h.live

/-- Taking off the last row, which no other input is named after. -/
theorem removeRow_reshapes {i : Input} (hi : i.connection = none)
    (hne : ∀ j ∈ inputs, j.name ≠ i.name) :
    Leads (ws.Reshaped id (inputs ++ [i]) n cut made) (removeInput id i.name)
      (fun _ => ws.Reshaped id inputs n cut made) fun _ => False := by
  refine Leads.fix fun t => ((removeInput_leads t id i.name).frame
    (c := ws.Reshaped id (inputs ++ [i]) n cut made t)).weaken ?_ ?_ ?_
  · rintro _ ⟨rfl, h⟩
    exact ⟨⟨rfl, h.sound⟩, h⟩
  · rintro _ v ⟨⟨b, hb, hcases⟩, h⟩
    obtain ⟨hinputs, -⟩ := h.of_block hb
    rcases hcases with ⟨hnone, -⟩ | ⟨l₁, j, l₂, u, hl, hj, hl₁, hstep, -, hshift⟩
    · have hmiss : ∀ j ∈ b.inputs, j.name ≠ i.name := by simpa [Block.input?] using hnone
      exact absurd rfl (hmiss i (by simp [hinputs]))
    · rw [hinputs] at hl
      rcases List.eq_nil_or_concat l₂ with rfl | ⟨l₂, k, rfl⟩
      · rw [List.append_nil] at hl hstep
        obtain ⟨rfl, hij⟩ := List.append_inj' hl rfl
        obtain rfl : i = j := List.singleton_inj.mp hij
        have hgone : ([i].filterMap fun i => i.connection) = [] := by simp [hi]
        have hshed := h.sheds hstep (by simp [hgone])
        rw [hgone, List.append_nil] at hshed
        exact hshed.shifts hshift
      · rw [List.concat_eq_append, ← List.append_assoc] at hl
        obtain ⟨hl, -⟩ := List.append_inj' hl rfl
        exact absurd hj (hne j (by simp [hl]))
  · rintro v ⟨⟨rfl, hn⟩ | ⟨keep, gone, hstep, hn⟩, h⟩
    · exact hn h.live
    · exact hn (hstep.stays h.tame_after)

/-- There is nothing to remove. -/
theorem removeInput_absent (name : String) :
    Leads (fun t => ws.Reshaped id inputs n cut made t ∧ ∀ j ∈ inputs, j.name ≠ name)
      (removeInput id name) (fun _ => ws.Reshaped id inputs n cut made) fun _ => False := by
  refine Leads.fix fun t => ((removeInput_leads t id name).frame
    (c := ws.Reshaped id inputs n cut made t ∧ ∀ j ∈ inputs, j.name ≠ name)).weaken ?_ ?_ ?_
  · rintro _ ⟨rfl, h⟩
    exact ⟨⟨rfl, h.1.sound⟩, h⟩
  · rintro _ v ⟨⟨b, hb, hcases⟩, h, hne⟩
    obtain ⟨hinputs, -⟩ := h.of_block hb
    rcases hcases with ⟨-, rfl⟩ | ⟨l₁, j, l₂, u, hl, hj, -⟩
    · exact h
    · exact absurd hj (hne j (by simp [← hinputs, hl]))
  · rintro v ⟨⟨rfl, hn⟩ | ⟨keep, gone, hstep, hn⟩, h, -⟩
    · exact hn h.live
    · exact hn (hstep.stays h.tame_after)

/-! ### Units and marks -/

variable {spec : ContainerTemplate} {m : Nat} {B : List Input}

/-- A container has no more units than before in front. -/
theorem cutSlots_reshapes (hB : B.map (·.name) = (Container.body spec n).map (·.name)) (h : m < n) :
    Leads (ws.Reshaped id B n cut []) (cutSlots id spec.kind m)
      (fun _ => ws.Reshaped id (B.take (Container.body spec m).length) n
        (cut ++ (B.drop (Container.body spec m).length).filterMap (·.connection)) [])
      fun _ => False := by
  have hindex : ∀ {t : Workspace α} {b : Block α}, ws.Reshaped id B n cut [] t →
      t.blocks[id]? = some b → b.indexOfInput? (Container.slotName spec.kind.firstStem (m + 1)) =
        some (Container.body spec m).length := by
    intro t b ht hb
    obtain ⟨rfl, -⟩ := ht.of_block hb
    rw [Block.indexOfInput?, ← Container.findIdx?_body h]
    have hmap := congrArg (List.findIdx? (· = Container.slotName spec.kind.firstStem (m + 1))) hB
    simpa only [List.findIdx?_map, Function.comp_def] using hmap
  unfold cutSlots
  refine (Leads.block fun t ht hn => not_live hn ht.live).bind fun b => ?_
  split
  next index hi =>
    have hcut : Leads (ws.Reshaped id B n cut []) (cutInputs id index)
        (fun _ => ws.Reshaped id (B.take index) n
          (cut ++ (B.drop index).filterMap (·.connection)) []) fun _ => False :=
      cutInputs_reshapes index
    refine (hcut.frame (c := index = (Container.body spec m).length)).weaken ?_ ?_ fun _ h => h.1
    · rintro t ⟨ht, hb⟩
      have hsome := hindex ht hb
      rw [hi, Option.some.injEq] at hsome
      exact ⟨ht, hsome⟩
    · rintro _ t ⟨ht, rfl⟩
      exact ht
  next hi =>
    refine Leads.throw ?_
    rintro t ⟨ht, hb⟩
    have hsome := hindex ht hb
    rw [hi] at hsome
    cases hsome

/-- The slots of `n` units become those of `m` units. -/
theorem resizeSlots_reshapes (hB : B.map (·.name) = (Container.body spec n).map (·.name)) (m : Nat) :
    Leads (ws.Reshaped id B n [] []) (resizeSlots id spec.kind n m)
      (fun _ t => ∃ is made, Built (Container.slotsAfter spec.kind n m) is made ∧
        ws.Reshaped id (B.take (Container.body spec (min n m)).length ++ is) n
          ((B.drop (Container.body spec (min n m)).length).filterMap (·.connection)) made t)
      fun _ => False := by
  have hlength : B.length = (Container.body spec n).length := by
    simpa using congrArg List.length hB
  unfold resizeSlots
  refine Leads.ite (fun hlt => ?_) fun hnlt => Leads.ite (fun hlt => ?_) fun hngt => Leads.pure ?_
  · rw [Nat.min_eq_left (Nat.le_of_lt hlt), ← hlength, List.take_length, List.drop_length]
    exact pushInputs_reshapes _
  · rw [Nat.min_eq_right (Nat.le_of_lt hlt), Container.slotsAfter_of_le (Nat.le_of_lt hlt)]
    refine (cutSlots_reshapes hB hlt).post fun _ t ht => ⟨[], [], .nil, ?_⟩
    rwa [List.nil_append, ← List.append_nil (B.take _)] at ht
  · intro t ht
    obtain rfl : n = m := by omega
    refine ⟨[], [], ?_, ?_⟩
    · rw [Container.slotsAfter_of_le (Nat.le_refl n)]
      exact .nil
    · rwa [Nat.min_self, ← hlength, List.take_length, List.drop_length, List.append_nil]

/-- The container gets its count and its marks. -/
theorem finish_reshapes (spec : ContainerTemplate) (old m : Nat) :
    Leads (fun t => ws.Reshaped id inputs n cut made t ∧
        ∀ i ∈ inputs, i.name ≠ Container.controlsInput)
      (do updateBlock id fun b => { b with units := m }
          pushInputs id [Container.closing spec]
          refreshControls id
          if old ≠ m then fire (.mutation id old m))
      (fun _ => ws.Reshaped id (inputs ++ Container.marks spec m) m cut made) fun _ => False := by
  refine Leads.bind (Q := fun _ t => ws.Reshaped id inputs m cut made t ∧
    ∀ i ∈ inputs, i.name ≠ Container.controlsInput) (Leads.updateBlock ?_ ?_) fun _ => ?_
  · exact fun t b ht hb => ⟨ht.1.recount hb m, ht.2⟩
  · exact fun t ht hn => not_live hn ht.1.live
  refine ((pushRow_reshapes (t := Container.closing spec) rfl).frame.refused fun _ h => h.1).bind
    fun _ => ?_
  refine Leads.bind (Q := fun _ => ws.Reshaped id (inputs ++ Container.marks spec m) m cut made) ?_
    fun _ => Leads.ite (fun _ => Leads.fire fun t ht => ht.fired rfl) fun _ => Leads.pure fun _ h => h
  unfold refreshControls
  refine Leads.bind (Q := fun b t =>
    (ws.Reshaped id (inputs ++ [(Container.closing spec).row]) m cut made t ∧
      ∀ i ∈ inputs ++ [(Container.closing spec).row], i.name ≠ Container.controlsInput) ∧
        b.units = m) ?_ fun b => ?_
  · exact (Leads.block fun t ht hn => not_live hn ht.1.live).post fun b t h =>
      ⟨⟨h.1.1, Container.ne_controls_concat_closing h.1.2⟩, (h.1.1.of_block h.2).2⟩
  refine ((removeInput_absent _).frame.refused fun _ h => h.1).bind fun _ => ?_
  refine (((pushRow_reshapes (t := Container.controls b.units) rfl).frame (c := b.units = m)).refused
    fun _ h => h.1).bind fun _ => ?_
  refine layOut_reshapes.pre ?_
  rintro t ⟨h, hb⟩
  rw [hb, List.append_assoc] at h
  exact h

end Edit

namespace Workspace

variable [Scalar α] {ws t u : Workspace α} {id : BlockId} {spec : ContainerTemplate} {n m p : Nat}
  {B is is' : List Input} {made made' : List NewEnd} {b : Block α}

/-- The block is a container of `n` units; `B` are its inputs before the closing mark. -/
structure Fitted (ws : Workspace α) (id : BlockId) (spec : ContainerTemplate) (n : Nat)
    (B : List Input) : Prop where
  sound : ws.Sound
  tame : ws.graph.Tame id
  template : ws.containerTemplate id = .ok spec
  block : ∃ b, ws.blocks[id]? = some b ∧ b.inputs = B ++ Container.marks spec n ∧ b.units = n
  names : B.map (·.name) = (Container.body spec n).map (·.name)

/-- The container has been given `m` units. The inputs `is` were made, with the ends `made`. -/
structure Refitted (ws : Workspace α) (id : BlockId) (spec : ContainerTemplate) (n : Nat)
    (B : List Input) (m : Nat) (is : List Input) (made : List NewEnd) (t : Workspace α) : Prop where
  built : Built (Container.slotsAfter spec.kind n m) is made
  reshaped : ws.Reshaped id
    (B.take (Container.body spec (min n m)).length ++ is ++ Container.marks spec m) m
    ((B.drop (Container.body spec (min n m)).length).filterMap (·.connection)) made t

omit [Scalar α] in
/-- The marks of a container are rows with the names and fields of their templates. -/
theorem Follows.eq_row {i : Input} {t : InputTemplate} (h : ws.Follows i t)
    (hk : t.kind.connection? = none) (hf : t.Textless) : i = t.row := by
  have hconnection : i.connection = none := by
    have hsocket := h.socket
    rw [InputTemplate.asked, hk] at hsocket
    cases hc : i.connection with
    | none => rfl
    | some c =>
      rw [hc] at hsocket
      exact hsocket.elim
  have hfields : i.fields = t.fields := Field.map_setText_inj hf h.fields
  cases i
  cases hconnection
  cases hfields
  cases h.name
  cases h.kind
  rfl

namespace Fitted

omit [Scalar α] in
theorem length (h : ws.Fitted id spec n B) : B.length = (Container.body spec n).length := by
  simpa using congrArg List.length h.names

omit [Scalar α] in
/-- The ends of the inputs in front are not among those of the inputs behind. -/
theorem front (h : ws.Fitted id spec n B) {k : Nat} {c : ConnectionId}
    (hc : c ∈ (B.take k).filterMap (·.connection)) :
    c ∉ (B.drop k).filterMap (·.connection) ∧
      ∃ z, ws.connections[c]? = some z ∧ z.block = id ∧ z.kind.isSocket := by
  obtain ⟨b, hb, hinputs, -⟩ := h.block
  have hB : B.filterMap (·.connection) =
      (B.take k).filterMap (·.connection) ++ (B.drop k).filterMap (·.connection) := by
    rw [← List.filterMap_append, List.take_append_drop]
  have hsockets : b.sockets = (B.take k).filterMap (·.connection) ++
      ((B.drop k).filterMap (·.connection) ++
        ((Container.marks spec n).filterMap (·.connection) ++ b.next.toList)) := by
    rw [Block.sockets, hinputs, List.filterMap_append, hB, List.append_assoc, List.append_assoc]
  have hnodup := h.sound.nodup_sockets hb
  rw [hsockets] at hnodup
  refine ⟨fun hc' => ?_, h.sound.socket hb (hsockets ▸ List.mem_append_left _ hc)⟩
  exact (List.nodup_append.mp hnodup).2.2 c hc c (List.mem_append_left _ hc') rfl

omit [Scalar α] in
/-- A container in a workspace where every block has its shape. -/
theorem of_shaped (hs : ws.Sound) (hshaped : ws.Shaped) (ht : ws.graph.Tame id)
    (hb : ws.blocks[id]? = some b) (hspec : ws.containerTemplate id = .ok spec) :
    ∃ B, ws.Fitted id spec b.units B := by
  obtain ⟨d, ts, hstyled, hplan⟩ := hshaped.at_ id b hb
  obtain ⟨-, rfl⟩ := hplan.eq_plan (Edit.templateOf hspec hb hstyled)
  have hB := List.forall₂_take_append _ (Container.body spec b.units) _ hstyled.inputs
  have hM := List.forall₂_drop_append _ (Container.body spec b.units) _ hstyled.inputs
  have hmarks : b.inputs.drop (Container.body spec b.units).length =
      Container.marks spec b.units := by
    generalize b.inputs.drop (Container.body spec b.units).length = rows at hM
    cases hM with
    | cons hclose hrest =>
      cases hrest with
      | cons hcontrols hrest =>
        cases hrest
        rw [hclose.eq_row rfl (Container.textless_closing spec),
          hcontrols.eq_row rfl (Container.textless_controls b.units)]
        rfl
  refine ⟨b.inputs.take (Container.body spec b.units).length, hs, ht, hspec, ⟨b, hb, ?_, rfl⟩, ?_⟩
  · rw [← hmarks, List.take_append_drop]
  · have hnames := hB.imp fun i t h => h.name
    exact List.forall₂_eq_eq_eq ▸ List.forall₂_map_left_iff.mpr (List.forall₂_map_right_iff.mpr hnames)

end Fitted

namespace Refitted

/-- It is a container as before, with other units. -/
theorem fitted (h : ws.Refitted id spec n B m is made t) (hw : ws.Fitted id spec n B) :
    t.Fitted id spec m (B.take (Container.body spec (min n m)).length ++ is) where
  sound := h.reshaped.sound
  tame := h.reshaped.tame_after
  template := by
    obtain ⟨R, hr⟩ := h.reshaped.since
    obtain ⟨b, hb, -⟩ := hw.block
    obtain ⟨b', hb', he⟩ := hr.self hb
    have htype : b'.typeName = b.typeName := congrArg (fun b : Block Unit => b.typeName) he
    have htemplate := hw.template
    rw [containerTemplate_eq_ok hb] at htemplate
    rw [containerTemplate_eq_ok hb', hr.registry, htype]
    exact htemplate
  block := h.reshaped.block
  names := h.built.names_refit hw.names

/-- Nothing was done. -/
theorem refl (hw : ws.Fitted id spec n B) : ws.Refitted id spec n B n [] [] ws where
  built := by
    rw [Container.slotsAfter_of_le (Nat.le_refl n)]
    exact .nil
  reshaped := by
    obtain ⟨b, hb, hi, rfl⟩ := hw.block
    rw [Nat.min_self, ← hw.length, List.take_length, List.drop_length, List.append_nil, ← hi]
    exact .start hw.sound hw.tame hb

/-- Going on in the same direction. -/
theorem trans (hw : ws.Fitted id spec n B) (h : ws.Refitted id spec n B p is made t)
    (h' : t.Refitted id spec p (B.take (Container.body spec (min n p)).length ++ is) m is' made' u)
    (hp : n ≤ p ∧ p ≤ m ∨ m ≤ p ∧ p ≤ n) :
    ws.Refitted id spec n B m (is ++ is') (made ++ made') u := by
  have hlength := (h.fitted hw).length
  obtain ⟨R', hr'⟩ := h'.reshaped.since
  rcases hp with ⟨hnp, hpm⟩ | ⟨hmp, hpn⟩
  · -- nothing is cut on the way up
    have hr := h.reshaped
    rw [Nat.min_eq_left hnp, ← hw.length, List.take_length] at hr hlength hr'
    rw [List.drop_length] at hr
    rw [Nat.min_eq_left hpm, ← hlength, List.take_length, List.drop_length] at hr'
    refine ⟨?_, ?_⟩
    · rw [← Container.slotsAfter_append hnp hpm]
      exact h.built.append h'.built
    · rw [Nat.min_eq_left (Nat.le_trans hnp hpm), ← hw.length, List.take_length, List.drop_length,
        ← List.append_assoc B]
      exact hr.followed hr' h'.reshaped.sound fun _ _ => List.not_mem_nil
  · -- nothing is made on the way down
    have hbuilt := h.built
    have hbuilt' := h'.built
    rw [Container.slotsAfter_of_le hpn] at hbuilt
    rw [Container.slotsAfter_of_le hmp] at hbuilt'
    cases hbuilt
    cases hbuilt'
    have hr := h.reshaped
    have hle : (Container.body spec m).length ≤ (Container.body spec p).length :=
      Container.length_body_le hmp
    rw [Nat.min_eq_right hpn, List.append_nil] at hr hlength
    simp only [Nat.min_eq_right hpn, Nat.min_eq_right hmp, List.append_nil, List.take_take,
      Nat.min_eq_left hle] at hr'
    refine ⟨?_, ?_⟩
    · rw [Container.slotsAfter_of_le (Nat.le_trans hmp hpn)]
      exact .nil
    · rw [Nat.min_eq_right (Nat.le_trans hmp hpn), List.append_nil, List.append_nil]
      refine (hr.followed hr' h'.reshaped.sound fun e he => by cases he).congr_cut fun c => ?_
      have hdrop : B.drop (Container.body spec m).length =
          (B.take (Container.body spec p).length).drop (Container.body spec m).length ++
            B.drop (Container.body spec p).length := by
        rw [← List.drop_append_of_le_length (by rw [hlength]; exact hle), List.take_append_drop]
      rw [hdrop, List.filterMap_append, List.mem_append, List.mem_append, or_comm]

/-- The number of units determines what is left. -/
theorem determined {v : Workspace α} (h : ws.Refitted id spec n B m is made u)
    (h' : ws.Refitted id spec n B m is' made' v) : u.Matches v := by
  obtain ⟨R, hr⟩ := h.reshaped.since
  obtain ⟨R', hr'⟩ := h'.reshaped.since
  have hlength : made.length = made'.length := h.built.length.trans h'.built.length.symm
  have hnumbers : made.map (·.connection) = made'.map (·.connection) := by
    rw [hr.numbers, hr'.numbers, hlength]
  obtain ⟨rfl, rfl⟩ := h.built.determined h'.built hnumbers
  exact hr.determined hr'

end Refitted

end Workspace

namespace Edit

open Workspace

variable [Scalar α] {ws : Workspace α} {id : BlockId} {spec : ContainerTemplate} {n : Nat}
  {B : List Input}

/-- A container takes any number of units. -/
theorem setUnits_refits (h : ws.Fitted id spec n B) (wanted : Nat) :
    Leads (· = ws) (setUnits id wanted)
      (fun _ t => ∃ is made, ws.Refitted id spec n B (Container.capUnits wanted) is made t)
      fun _ => False := by
  obtain ⟨b, hb, hinputs, rfl⟩ := h.block
  have hstart : ws.Reshaped id (B ++ Container.marks spec b.units) b.units [] [] ws := by
    rw [← hinputs]
    exact .start h.sound h.tame hb
  have hspec : (query (·.containerTemplate id) : Edit α ContainerTemplate) ws = .ok spec ws := by
    simp only [query, h.template]
  have hrun : ∀ s, s = ws → setUnits id wanted s =
      (removeInput id Container.controlsInput >>= fun _ =>
        removeInput id Container.closeInput >>= fun _ =>
        resizeSlots id spec.kind b.units (Container.capUnits wanted) >>= fun _ => do
          updateBlock id fun b => { b with units := Container.capUnits wanted }
          pushInputs id [Container.closing spec]
          refreshControls id
          if b.units ≠ Container.capUnits wanted then
            fire (.mutation id b.units (Container.capUnits wanted))) s := by
    rintro _ rfl
    unfold setUnits
    rw [bind_eq hspec, bind_eq (query_block hb)]
  refine Tells.congr (setUnits_shapes False id wanted) ?_ hrun
  have hne : ∀ j ∈ B ++ [(Container.closing spec).row], j.name ≠ Container.controlsInput :=
    Container.ne_controls_concat_closing fun _ => Container.ne_controls_of_names h.names
  have hcontrols : Leads
      (ws.Reshaped id (B ++ [(Container.closing spec).row] ++ [(Container.controls b.units).row])
        b.units [] []) (removeInput id Container.controlsInput)
      (fun _ => ws.Reshaped id (B ++ [(Container.closing spec).row]) b.units [] []) fun _ => False :=
    removeRow_reshapes rfl hne
  have hclose : Leads (ws.Reshaped id (B ++ [(Container.closing spec).row]) b.units [] [])
      (removeInput id Container.closeInput) (fun _ => ws.Reshaped id B b.units [] [])
      fun _ => False :=
    removeRow_reshapes rfl fun j hj => Container.ne_close_of_names h.names hj
  refine (hcontrols.pre ?_).bind fun _ => hclose.bind fun _ => ?_
  · rintro _ rfl
    rw [List.append_assoc]
    exact hstart
  refine (resizeSlots_reshapes h.names _).bind fun _ => ?_
  refine Leads.choose fun is => Leads.choose fun made => ?_
  obtain ⟨k, hk⟩ : ∃ k, k = (Container.body spec (min b.units (Container.capUnits wanted))).length :=
    ⟨_, rfl⟩
  rw [← hk]
  have hfinish : Leads (fun t => ws.Reshaped id (B.take k ++ is) b.units
      ((B.drop k).filterMap (·.connection)) made t ∧
        ∀ i ∈ B.take k ++ is, i.name ≠ Container.controlsInput) _ _ _ :=
    finish_reshapes spec b.units (Container.capUnits wanted)
  refine hfinish.frame.weaken (fun t ht => ⟨⟨ht.2, fun i hi => ?_⟩, ht.1⟩) ?_ fun _ h => h.1
  · rw [hk] at hi
    exact Container.ne_controls_of_names (ht.1.names_refit h.names) hi
  · rintro _ t ⟨ht, hbuilt⟩
    rw [hk] at ht
    exact ⟨is, made, hbuilt, ht⟩

end Edit

end BlockEditor
