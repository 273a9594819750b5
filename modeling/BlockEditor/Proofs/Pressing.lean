import BlockEditor.Proofs.Loading
import BlockEditor.Proofs.Detaching
import BlockEditor.Proofs.Copying

/-!
# Pressing a control

A container can be enlarged until it has as many units as it can have, and made smaller down to one
unit. A press beyond that is refused and changes nothing at all. In a dictionary a unit that is added
comes with an entry.
-/

namespace BlockEditor

variable {α : Type}

/-- A container can have so many units, and so few. -/
def Control.Works : Control → Nat → Prop
  | .add, n => n < 999999
  | .remove, n => 1 < n

namespace Workspace

variable {ws u v t : Workspace α} {x k : BlockId} {c q : ConnectionId} {name : String}
  {spec : ContainerTemplate} {n : Nat} {B : List Input}

/-- One block was made, and plugged into the input `name` of the block `x`. All that was there before
is as it was, but for the end of that input. -/
structure Enters (u : Workspace α) (x : BlockId) (name typeName : String) (k : BlockId)
    (t : Workspace α) : Prop where
  new : k.index.toNat = u.ids.blocks
  count : t.ids.blocks = u.ids.blocks + 1
  live : ∀ y, t.Live y ↔ u.Live y ∨ y = k
  typeName : (t.blocks[k]?).map (·.typeName) = some typeName
  parent : t.parent k = .ok (some x)
  top : k ∉ t.top
  blocks : ∀ (y : BlockId) b, u.blocks[y]? = some b → t.blocks[y]? = some b
  slot : ∃ (c q : ConnectionId) (y z : Connection α), u.inputSocket x name = .ok c ∧
    u.connections[c]? = some y ∧ y.target = none ∧
    t.connections[c]? = some { y with target := some q } ∧
    t.connections[q]? = some z ∧ z.block = k ∧
    ∀ (d : ConnectionId) z, u.connections[d]? = some z → d ≠ c → t.connections[d]? = some z

/-- No id of a block is handed out, and no block is there that was not there before. -/
structure MakesNone (ws t : Workspace α) : Prop where
  count : t.ids.blocks = ws.ids.blocks
  live : ∀ y, t.Live y → ws.Live y

/-- A container of `n` units loses the last one, or gets one more; an entry is made for that of a
dictionary. -/
inductive Presses (ws : Workspace α) (x : BlockId) (spec : ContainerTemplate) (n : Nat) :
    Control → Workspace α → Prop
  | remove {kept gone : List Input} {t : Workspace α} :
      ws.Resizes x spec n (n - 1) kept gone [] t → ws.MakesNone t → Presses ws x spec n .remove t
  | add {kept new : List Input} {t : Workspace α} : spec.kind ≠ .dict →
      ws.Resizes x spec n (n + 1) kept [] new t → ws.MakesNone t → Presses ws x spec n .add t
  | entry {kept new : List Input} {u t : Workspace α} {k : BlockId} : spec.kind = .dict →
      ws.Resizes x spec n (n + 1) kept [] new u → ws.MakesNone u →
      u.Enters x (Container.slotName "input" (n + 1)) "dict_item" k t → Presses ws x spec n .add t

/-- The ids of blocks that have been handed out do not change. -/
theorem fine_blockCount [Scalar α] (id : BlockId) (n : Nat) :
    Fine (α := α) False id fun t => t.ids.blocks = n where
  shifts _ hstep h := by
    rw [hstep.rest]
    exact h
  sheds _ _ hstep h := by
    obtain ⟨R, hl, -⟩ := hstep
    rw [hl.rest]
    exact h
  pushes _ hstep h _ := by
    rw [hstep.rest]
    exact h

/-- No two inputs of a container have the same name. -/
theorem Fitted.nodup_names {b : Block α} (h : ws.Fitted x spec n B) (hb : ws.blocks[x]? = some b) :
    (b.inputs.map (·.name)).Nodup := by
  obtain ⟨b', hb', hinputs, -⟩ := h.block
  rw [hb, Option.some.injEq] at hb'
  subst hb'
  have hnames : b.inputs.map (·.name) = (Container.plan spec n).map (·.name) := by
    rw [hinputs, List.map_append, h.names, Container.plan, List.map_append]
    rfl
  rw [hnames]
  exact Container.nodup_names_plan spec n

section Entry

variable {r : Registry} {d : BlockDefinition} {P : Block α → Prop} {typeName : String}
  {y : Connection α}

/-- What was there can be found as before. -/
theorem Shell.inputSocket (h : u.Shell r d n P k v) (hu : u.Standard r)
    (hsocket : u.inputSocket x name = .ok c) : v.inputSocket x name = .ok c := by
  unfold Workspace.inputSocket at hsocket ⊢
  obtain ⟨b, hb, hfound⟩ := bind_eq_ok hsocket
  rw [block_eq_ok.mpr (h.fresh.extend.block hu.sound (block_eq_ok.mp hb))]
  exact hfound

/-- If a free socket is filled, nothing goes. -/
theorem Seats.of_free (h : ws.Seats c q k none t) (hy : ws.connections[c]? = some y)
    (hfree : y.target = none) : ∃ v, ws.Ties c q k v ∧ v.Shifts (v.Branch k) t := by
  obtain ⟨u, v, he, hties, hshifts⟩ := h
  cases he with
  | free => exact ⟨v, hties, hshifts⟩
  | stored hc =>
    obtain ⟨w, z, hl, -⟩ := hc.link
    have hdown := hl.down
    rw [← Option.some.inj ((wire_of_connection hy).symm.trans hl.socket)] at hdown
    rw [show y.wire.target = y.target from rfl, hfree] at hdown
    cases hdown

theorem Shell.typed (h : u.Shell r d n P k v) (hd : r.get? typeName = some d)
    {b : Block α} (hb : v.blocks[k]? = some b) : b.typeName = typeName := by
  obtain ⟨b', hb', hstyled, -⟩ := h.block
  rw [hb, Option.some.injEq] at hb'
  subst hb'
  have htidy := h.standard.shaped.tidy
  have hknown := hd
  rw [← h.standard.registry] at hknown
  exact (htidy.keyed hstyled.known).symm.trans (htidy.keyed hknown)

/-- Nothing hangs on a new block. -/
theorem Shell.sole (h : u.Shell r d n P k v) {y : BlockId} (hy : v.Branch k y) : y = k := by
  rcases hy with rfl | hbelow
  · rfl
  obtain ⟨a, -, s, p, w, z, hl, -, hw⟩ := Relation.TransGen.tail'_iff.mp hbelow
  obtain ⟨y', hy', rfl⟩ := connection_of_wire hl.socket
  have hdown := hl.down
  rw [show y'.wire.target = y'.target from rfl, (h.blank s y' hy' hw hl.isSocket).1] at hdown
  cases hdown

theorem Shell.enters (h : u.Shell r d 0 P k v) (hu : u.Standard r)
    (hk : k.index.toNat = u.ids.blocks) (hcount : v.ids.blocks = u.ids.blocks + 1)
    (hd : r.get? typeName = some d) (hsocket : u.inputSocket x name = .ok c)
    (hy : u.connections[c]? = some y) (hyx : y.block = x) (hfree : y.target = none)
    (hg : u.Grafts v c k t) : u.Enters x name typeName k t := by
  have hv := h.standard.sound
  have ht := hg.sound hv
  obtain ⟨q, z, hslot, hz, hzk⟩ := h.fresh.socket hv hg hy
  have hyv := h.fresh.extend.connection hu.sound hy (Set.notMem_empty c)
  have hunder := hg.under_owner hyv
  obtain ⟨p, w, hties, hshifts⟩ := hg.step
  obtain ⟨b, hb⟩ := h.live
  obtain ⟨b', hb', hlooks⟩ := hshifts.block (by rw [hties.blocks]; exact hb)
  exact {
    new := hk
    count := by
      rw [hshifts.rest, hties.rest]
      exact hcount
    live := by
      intro a
      constructor
      · intro ha
        by_cases hold : a.index.toNat < u.ids.blocks
        · obtain ⟨b₀, hb₀⟩ := hg.live ha
          rw [h.fresh.extend.blocks a hold] at hb₀
          exact Or.inl ⟨b₀, hb₀⟩
        · exact Or.inr (h.sole (h.fresh.sole a (by omega) (hg.live ha)))
      · rintro (ha | rfl)
        · exact hg.extend.live hu.sound ha
        · exact ⟨b', hb'⟩
    typeName := by
      rw [hb', Option.map_some]
      have hsame : b'.typeName = b.typeName := congrArg (fun b : Block Unit => b.typeName) hlooks
      rw [hsame, h.typed hd hb]
    parent := by
      rw [← hyx]
      exact (ht.parent_eq_some hb').mpr hunder
    top := by
      rw [hshifts.rest, hties.rest]
      simp
    blocks := fun a b₀ hb₀ => hg.extend.block hu.sound hb₀
    slot := ⟨c, q, y, z, hsocket, hy, hfree, hslot, hz, hzk, fun e ye hye hne =>
      hg.extend.connection hu.sound hye hne⟩ }

end Entry

section Units

variable [Scalar α]

/-- The container in the state before. -/
structure Pressable (ws : Workspace α) (x : BlockId) (spec : ContainerTemplate) (n : Nat)
    (B : List Input) : Prop where
  standard : ws.Standard Palette.registry
  acyclic : ws.graph.Acyclic
  kind : (ws.blocks[x]?).bind (·.container) = some spec.kind
  fitted : ws.Fitted x spec n B
  bound : n ≤ Container.maxUnits

/-- Giving units to a container makes no blocks. -/
theorem Refitted.makesNone {m : Nat} {is : List Input} {made : List NewEnd}
    (h : ws.Refitted x spec n B m is made u) : ws.MakesNone u := by
  obtain ⟨R, hr⟩ := h.reshaped.since
  refine ⟨?_, fun y hy => (hr.live_iff.mp hy).1⟩
  rw [hr.ids]

/-- One slot is made for a unit of a dictionary. -/
theorem slotsAfter_dict (n : Nat) : Container.slotsAfter .dict n (n + 1) =
    [Container.slot .dict (n + 1) "input"] := by
  simp [Container.slotsAfter, Container.unitSlots, ContainerKind.stems]

/-- The slot of a unit that was just added to a dictionary. -/
theorem Refitted.slot {is : List Input} {made : List NewEnd} (h : Pressable ws x spec n B)
    (hdict : spec.kind = .dict)
    (hr : ws.Refitted x spec n B (n + 1) is made u) :
    ∃ c y, u.inputSocket x (Container.slotName "input" (n + 1)) = .ok c ∧
      u.connections[c]? = some y ∧ y.block = x ∧ y.target = none ∧
      Palette.registry.Suits y.kind y.check "dict_item" := by
  have hfitted := hr.fitted h.fitted
  have hbuilt := hr.built
  rw [hdict, slotsAfter_dict] at hbuilt
  cases hbuilt with
  | dummy hk => cases hk
  | socket c hk hrest =>
  cases hrest
  cases hk
  obtain ⟨R, hshapes⟩ := hr.reshaped.since
  obtain ⟨b, hb, hinputs, -⟩ := hfitted.block
  have hmounted := hshapes.mounted _ List.mem_cons_self
  obtain ⟨y, hy, hsame⟩ := Option.map_eq_some_iff.mp hmounted
  refine ⟨c, y, ?_, hy, congrArg (fun y : Connection Unit => y.block) hsame,
    congrArg (fun y : Connection Unit => y.target) hsame, ?_⟩
  · obtain ⟨i, hi, hname, hc⟩ : ∃ i ∈ b.inputs, i.name = Container.slotName "input" (n + 1) ∧
        i.connection = some c := by
      rw [hinputs]
      refine ⟨_, List.mem_append_left _ (List.mem_append_right _ List.mem_cons_self), rfl, rfl⟩
    unfold Workspace.inputSocket
    rw [block_eq_ok.mpr hb, ← hname]
    simp only [bind, Except.bind, input?_of_mem (hfitted.nodup_names hb) hi, Option.bind_some, hc,
      pure, Except.pure]
  · have hkind : y.kind = .inputValue := congrArg (fun y : Connection Unit => y.kind) hsame
    have hcheck : y.check = some ["dict_item", "dict_unpack"] :=
      congrArg (fun y : Connection Unit => y.check) hsame
    rw [hkind, hcheck]
    exact ⟨_, _, rfl, rfl, by decide⟩

end Units

end Workspace

namespace Edit

open Workspace

variable [Scalar α] {ws u v : Workspace α} {x : BlockId} {spec : ContainerTemplate} {n : Nat}
  {B : List Input}

/-- One id is handed out for a new block. -/
theorem newBlock_counts (ws : Workspace α) (typeName : String) :
    Leads (fun t => t.Sound ∧ t = ws) (newBlock typeName)
      (fun id t => id.index.toNat = ws.ids.blocks ∧ t.ids.blocks = ws.ids.blocks + 1)
      fun _ => True := by
  have hfine : ∀ id : BlockId, Fine (α := α) False id fun t =>
      id.index.toNat = ws.ids.blocks ∧ t.ids.blocks = ws.ids.blocks + 1 := fun id => ⟨
    fun hs hstep h => ⟨h.1, (fine_blockCount id _).shifts hs hstep h.2⟩,
    fun hs ht hstep h => ⟨h.1, (fine_blockCount id _).sheds hs ht hstep h.2⟩,
    fun hs hstep h hT => ⟨h.1, (fine_blockCount id _).pushes hs hstep h.2 hT⟩⟩
  refine (newBlock_keeps (P := (· = ws)) (J := fun _ => True)
    (K := fun _ id t => id.index.toNat = ws.ids.blocks ∧ t.ids.blocks = ws.ids.blocks + 1)
    (L := fun id t => id.index.toNat = ws.ids.blocks ∧ t.ids.blocks = ws.ids.blocks + 1)
    typeName (fun _ => trivial) ?_ (fun _ id => (hfine id).handles) (fun _ h => h)
    (fun id => (hfine id).handles) ?_ (fun h => h) fun _ => trivial).weaken (fun _ h => h)
    (fun _ _ h => h.1.keeps) fun _ _ => trivial
  · rintro _ d id b t _ _ hr rfl
    exact ⟨hr.new, hr.ids_blocks⟩
  · intro id n
    exact (⟨fun _ h => h, fun h => h, fun h => h⟩ : Coarse _).setUnits (hfine id) n

/-- A block of a type that suits a free socket is made and plugged in. -/
theorem attachNew_enters {r : Registry} {typeName : String} {d : BlockDefinition} {c : ConnectionId}
    {y : Connection α} {name : String} (hu : u.Standard r) (hac : u.graph.Acyclic)
    (hd : r.get? typeName = some d) (hsocket : u.inputSocket x name = .ok c)
    (hy : u.connections[c]? = some y) (hyx : y.block = x) (hfree : y.target = none)
    (hsuits : r.Suits y.kind y.check typeName) :
    Leads (· = u)
      (do
        let entry ← newBlock typeName
        let slot ← query (·.inputSocket x name)
        attach slot entry)
      (fun _ t => ∃ k, u.Enters x name typeName k t) fun _ => False := by
  have hmake : Leads (· = u) (newBlock typeName)
      (fun k v => u.Shell r d 0 (fun b => b.placeholder = false) k v ∧
        k.index.toNat = u.ids.blocks ∧ v.ids.blocks = u.ids.blocks + 1) fun _ => False :=
    ((newBlock_shells hd).and (newBlock_counts u typeName)).weaken
      (fun _ h => ⟨⟨h, hu⟩, h ▸ hu.sound, h⟩) (fun _ _ h => h) fun _ h => h.1
  refine hmake.bind fun k => ?_
  refine Leads.bind (Q := fun slot v => slot = c ∧ u.Shell r d 0 (fun b => b.placeholder = false) k v ∧
    k.index.toNat = u.ids.blocks ∧ v.ids.blocks = u.ids.blocks + 1) (Leads.query ?_ ?_) fun slot =>
      Tells.each (attach_keeps (X := ∅) (Editor.stable_true (α := α)) slot k) ?_
  · rintro v slot ⟨hshell, hcount⟩ hslot
    rw [hshell.inputSocket hu hsocket, Except.ok.injEq] at hslot
    exact ⟨hslot.symm, hshell, hcount⟩
  · rintro v e ⟨hshell, -⟩ he
    rw [hshell.inputSocket hu hsocket] at he
    cases he
  rintro v ⟨rfl, hshell, hk, hcount⟩
  have hv := hshell.standard
  have hyv := hshell.fresh.extend.connection hu.sound hy (Set.notMem_empty slot)
  obtain ⟨b, hb⟩ := hshell.live
  have hvacant : v.across slot = none := by
    rw [Workspace.across, targetOf_eq hyv, hfree, Option.bind_none]
  refine (attach_seats hv.sound (hshell.fresh.acyclic hv.sound hac) hshell.fresh.loose ?_).weaken
    (fun _ h => h) ?_ ?_
  · intro a ha
    rw [hvacant] at ha
    cases ha
  · rintro _ t ⟨q, hseats⟩
    obtain ⟨w, hties, hshifts⟩ := hseats.of_free hyv hfree
    exact ⟨k, hshell.enters hu hk hcount hd hsocket hy hyx hfree
      (hshell.fresh.grafts hv.sound hties hshifts)⟩
  · rintro t ⟨-, hunfit⟩
    have hknown : r.Suits y.kind y.check b.typeName := by
      rw [hshell.typed hd hb]
      exact hsuits
    refine hunfit (hv.welcomes hyv hb hknown ?_)
    intro he
    obtain ⟨b', hb', -⟩ := hu.sound.owner hy
    have hold := hu.sound.blockIds hb'
    rw [he] at hold
    omega

theorem setUnits_resizes {m : Nat} (h : Pressable ws x spec n B) (hm : m ≤ Container.maxUnits) :
    Leads (· = ws) (setUnits x m) (fun _ u => u.Standard Palette.registry ∧ u.graph.Acyclic ∧
      ∃ is made, ws.Refitted x spec n B m is made u) fun _ => False := by
  have hcap : Container.capUnits m = m := Nat.min_eq_left hm
  have hshapes : Leads (· = ws) (setUnits x m) (fun _ t => t.Sound ∧ t.Shaped) fun _ => True := by
    refine (setUnits_shapes False x m).weaken ?_ ?_ fun _ _ => trivial
    · rintro _ rfl
      exact ⟨h.standard.sound, h.standard.shaped, False.elim⟩
    · rintro _ t ⟨d, spec, hd, hform⟩
      exact ⟨hform.sound, hform.shaped (planned_capUnits hd m)⟩
  refine (hshapes.and (setUnits_refits h.fitted m)).weaken (fun _ h => ⟨h, h⟩) ?_ fun _ h => h.2
  rintro _ u ⟨⟨hs, hshaped⟩, is, made, hrefit⟩
  rw [hcap] at hrefit
  obtain ⟨R, hr⟩ := hrefit.reshaped.since
  refine ⟨⟨hs, hshaped, hr.registry.trans h.standard.registry⟩, fun y hy => ?_, is, made, hrefit⟩
  exact h.acyclic y (hr.below_old h.standard.sound hy).1

/-! ### A press -/

/-- What a press comes down to. -/
theorem press_eq (h : Pressable ws x spec n B) (control : Control) : press x control ws =
    (if (if 1 < n then [Control.add, .remove] else [.add]).contains control then
      match control with
      | .add => pressAdd x spec.kind n
      | .remove => setUnits x (n - 1)
    else throw (EditError.controlUnavailable x control) : Edit α Unit) ws := by
  obtain ⟨b, hb, -, hn⟩ := h.fitted.block
  have hkind := h.kind
  rw [hb] at hkind
  have hunits : (ws.blocks[x]?).map (·.units) = some n := by rw [hb, Option.map_some, hn]
  unfold press
  rw [bind_eq (query_eq (containerKindOf_eq_ok hb hkind)),
    bind_eq (query_eq (h.standard.controls h.kind hunits))]
  by_cases hshown : (if 1 < n then [Control.add, .remove] else [.add]).contains control
  · rw [if_pos hshown, if_pos hshown, bind_eq (query_block hb)]
    subst hn
    cases control <;> rfl
  · rw [if_neg hshown, if_neg hshown]

/-- A press that does not work changes nothing. -/
theorem press_refused (h : Pressable ws x spec n B) {control : Control} (hn : ¬ control.Works n) :
    ∃ e, press x control ws = .error e ws := by
  rw [press_eq h]
  cases control with
  | add =>
    have hfull : Container.maxUnits ≤ n := Nat.le_of_not_lt hn
    refine ⟨EditError.controlUnavailable x .add, ?_⟩
    rw [if_pos (by split <;> rfl)]
    unfold pressAdd
    rw [if_pos hfull]
    rfl
  | remove =>
    have hfew : ¬ 1 < n := hn
    refine ⟨EditError.controlUnavailable x .remove, ?_⟩
    rw [if_neg hfew]
    rfl

/-- A container that has more than one unit loses its last one. -/
theorem setUnits_presses (h : Pressable ws x spec n B) (hmany : 1 < n) :
    Leads (· = ws) (setUnits x (n - 1)) (fun _ t => ws.Presses x spec n .remove t)
      fun _ => False := by
  have hbound := h.bound
  refine (setUnits_resizes h (by omega)).post ?_
  rintro _ u ⟨-, -, is, made, hrefit⟩
  obtain ⟨kept, gone, hresizes⟩ := hrefit.resizes h.fitted
  have hnone := hrefit.built
  rw [Container.slotsAfter_of_le (Nat.sub_le n 1)] at hnone
  cases hnone
  exact .remove hresizes (hrefit.makesNone)

/-- A container that has room gets a unit, and a dictionary gets an entry with it. -/
theorem pressAdd_presses (h : Pressable ws x spec n B) (hroom : n < Container.maxUnits) :
    Leads (· = ws) (pressAdd x spec.kind n) (fun _ t => ws.Presses x spec n .add t)
      fun _ => False := by
  unfold pressAdd
  rw [if_neg (Nat.not_le.mpr hroom)]
  refine (setUnits_resizes h (Nat.succ_le_of_lt hroom)).bind fun _ => ?_
  have rest : Safe (fun _ (_ : Workspace α) => True) ∅
      (if spec.kind = .dict then fillUnit x (n + 1) else pure ()) :=
    Leads.ite (fun _ => fillUnit_keeps Editor.stable_true x _) fun _ => Leads.pure fun _ h => h
  refine Tells.each rest fun u hu => ?_
  obtain ⟨hstandard, hac, is, made, hrefit⟩ := hu
  obtain ⟨kept, gone, hresizes⟩ := hrefit.resizes h.fitted
  obtain rfl : gone = [] := by
    have hnames := hresizes.namesGone
    rw [Container.slotsAfter_of_le (Nat.le_succ n)] at hnames
    exact List.map_eq_nil_iff.mp hnames
  refine Leads.ite (fun hdict => ?_) fun hother => Leads.pure ?_
  · obtain ⟨c, y, hsocket, hy, hyx, hfree, hsuits⟩ := hrefit.slot h hdict
    refine (attachNew_enters hstandard hac rfl hsocket hy hyx hfree hsuits).post ?_
    rintro _ t ⟨k, henters⟩
    exact .entry hdict hresizes hrefit.makesNone henters
  · rintro _ rfl
    exact .add hother hresizes hrefit.makesNone

/-- A press that works is not refused. -/
theorem press_presses (h : Pressable ws x spec n B) {control : Control} (hn : control.Works n) :
    Leads (· = ws) (press x control) (fun _ t => ws.Presses x spec n control t) fun _ => False := by
  have base := press_keeps (X := ∅) (Editor.stable_true (α := α)) x control
  cases control with
  | remove =>
    have hmany : 1 < n := hn
    have hshown : (if 1 < n then [Control.add, .remove] else [.add]).contains .remove := by
      rw [if_pos hmany]
      rfl
    refine Tells.congr base (setUnits_presses h hmany) ?_
    rintro _ rfl
    rw [press_eq h, if_pos hshown]
  | add =>
    have hshown : (if 1 < n then [Control.add, .remove] else [.add]).contains .add := by
      split <;> rfl
    refine Tells.congr base (pressAdd_presses h hn) ?_
    rintro _ rfl
    rw [press_eq h, if_pos hshown]

end Edit

namespace Editor

open Workspace

variable [Scalar α] {config : EditorConfig α} {e : Editor α} {actions : List (Action α)} {x : BlockId}
  {kind : ContainerKind} {n : Nat} {control : Control}

theorem run_pressable (hstart : create config Palette.registry = .ok e)
    (hlast : Lasts (e.run actions)) (hacyclic : (e.run actions).workspace.graph.Acyclic)
    (hk : ((e.run actions).workspace.blocks[x]?).bind (·.container) = some kind)
    (hn : ((e.run actions).workspace.blocks[x]?).map (·.units) = some n) :
    ∃ spec B, spec.kind = kind ∧ (e.run actions).workspace.Pressable x spec n B := by
  obtain ⟨hle, spec, B, rfl, hw⟩ := run_fitted hstart hlast hacyclic hk hn
  exact ⟨spec, B, rfl, run_standard hstart hlast, hacyclic, hk, hw, hle⟩

/-- In every run over the palette a press works if there is room for a unit, or more than one unit,
and otherwise it changes nothing. If it works, then the container has one unit more or less, and an
entry was made if and only if the container is a dictionary that got one more. -/
theorem run_presses (hstart : create config Palette.registry = .ok e)
    (hlast : Lasts ((e.run actions).after (.press x control)))
    (hacyclic : (e.run actions).workspace.graph.Acyclic)
    (hk : ((e.run actions).workspace.blocks[x]?).bind (·.container) = some kind)
    (hn : ((e.run actions).workspace.blocks[x]?).map (·.units) = some n) :
    ((e.run actions).accepts (.press x control) ↔ control.Works n) ∧
    (¬ control.Works n → (e.run actions).after (.press x control) = e.run actions) ∧
    (control.Works n → ∃ spec, spec.kind = kind ∧ (e.run actions).workspace.Presses x spec n control
      ((e.run actions).after (.press x control)).workspace) := by
  obtain ⟨spec, B, rfl, h⟩ := run_pressable hstart (lasts_of_after hlast) hacyclic hk hn
  generalize e.run actions = u at hlast h ⊢
  have hperform : perform (.press x control) u = Act.edit (Edit.press x control) u := rfl
  unfold after at hlast ⊢
  unfold accepts
  rw [hperform] at hlast ⊢
  by_cases hworks : control.Works n
  · have hpress := (Edit.press_presses h hworks).edit u
    cases hm : Act.edit (Edit.press x control) u with
    | ok a t =>
      rw [hm] at hpress hlast
      exact ⟨by simp [hworks], fun hnot => (hnot hworks).elim, fun _ => ⟨spec, rfl, (hpress hlast).2 rfl⟩⟩
    | error refusal t =>
      rw [hm] at hpress hlast
      exact ((hpress hlast).2 rfl).elim
  · obtain ⟨refusal, he⟩ := Edit.press_refused h hworks
    have hm : Act.edit (Edit.press x control) u = .error refusal u := by
      unfold Act.edit
      rw [he]
    rw [hm]
    exact ⟨by simp [hworks], fun _ => rfl, fun hw => (hworks hw).elim⟩

/-- A dictionary in a list gets its second entry. -/
theorem run_presses_dict :
    let e := (fresh (.standard : EditorConfig Int) Palette.registry).run
      [.newBlock "List", .press ⟨0⟩ .add, .newBlock "Dict", .press ⟨1⟩ .add, .connect ⟨1⟩ ⟨2⟩]
    (e.accepts (.press ⟨1⟩ .add) ↔ Control.add.Works 1) ∧
    (¬ Control.add.Works 1 → e.after (.press ⟨1⟩ .add) = e) ∧
    (Control.add.Works 1 → ∃ spec, spec.kind = .dict ∧
      e.workspace.Presses ⟨1⟩ spec 1 .add (e.after (.press ⟨1⟩ .add)).workspace) :=
  run_presses (create_fresh (by decide)) (by decide +kernel)
    (acyclic_of_ordered (by decide +kernel)) (by decide +kernel) (by decide +kernel)

end Editor

end BlockEditor
