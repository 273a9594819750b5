import BlockEditor.Proofs.Along
import BlockEditor.Proofs.Reasons
import BlockEditor.Proofs.Regular
import BlockEditor.Proofs.Starting
import BlockEditor.Proofs.Workspace.Ascending

/-!
# Who moves

A drag of a placeholder whose type may not be dragged moves the first real block on the way up, and
any other drag moves the block itself. A start is refused for want of such a block, or because it may
not move, if and only if that is so. Whatever goes wrong later on has other reasons.
-/

namespace BlockEditor

variable {α β : Type}

namespace Workspace

variable {ws : Workspace α} {x a m : BlockId} {b : Block α} {way : List BlockId}

/-! ### What a drag moves -/

theorem Coherent.plug_of_mem (h : ws.Coherent) (hb : ws.blocks[x]? = some b) {p : ConnectionId}
    (hp : p ∈ b.plugs) : ∃ y, ws.connections[p]? = some y ∧ y.block = x ∧ y.kind.isPlug := by
  rw [Block.plugs, List.mem_append, Option.mem_toList, Option.mem_toList] at hp
  rcases hp with ho | hprev
  · obtain ⟨y, hy, hyx, hk⟩ := h.kind hb (r := (p, some .outputValue))
      (mem_roles.mpr (Or.inl ⟨ho, rfl⟩))
    exact ⟨y, hy, hyx, by rw [Option.some.inj hk]; rfl⟩
  · obtain ⟨y, hy, hyx, hk⟩ := h.kind hb (r := (p, some .previousStatement))
      (mem_roles.mpr (Or.inr (Or.inl ⟨hprev, rfl⟩)))
    exact ⟨y, hy, hyx, by rw [Option.some.inj hk]; rfl⟩

/-- In a coherent workspace a block hangs on its parent. -/
theorem Coherent.under (h : ws.Coherent) (hp : ws.parent x = .ok (some a)) :
    ws.graph.Under x a := by
  obtain ⟨b, hb⟩ := live_of_parent hp
  have hsocket : ws.parentSocket x = .ok (b.plugs.findSome? ws.targetOf) := by
    unfold Workspace.parentSocket
    rw [block_eq_ok.mpr hb]
    refine Sound.firstTarget b.plugs fun p hp => ?_
    obtain ⟨y, hy, -⟩ := h.plug_of_mem hb hp
    exact ⟨y, hy⟩
  obtain ⟨found, hfound, hp⟩ := bind_eq_ok hp
  rw [hsocket, Except.ok.injEq] at hfound
  subst hfound
  cases hs : b.plugs.findSome? ws.targetOf with
  | none =>
    rw [hs] at hp
    cases hp
  | some s =>
    rw [hs] at hp
    obtain ⟨z, hz, hza⟩ := bind_eq_ok hp
    cases hza
    obtain ⟨p, hmem, htarget⟩ := List.exists_of_findSome?_eq_some hs
    obtain ⟨y, hy, hyx, hk⟩ := h.plug_of_mem hb hmem
    rw [targetOf_eq hy] at htarget
    obtain ⟨z', hz', hzt, hzk, -⟩ := h.linked p s y hy htarget
    rw [connection_eq_ok.mp hz, Option.some.injEq] at hz'
    subst hz'
    refine ⟨s, p, z.wire, y.wire, ⟨wire_of_connection (connection_eq_ok.mp hz), wire_of_connection hy,
      ?_, hzt⟩, hyx, rfl⟩
    change z.kind.isSocket
    rw [hzk, ConnectionKind.isSocket_opposite]
    exact hk

theorem Coherent.supported (h : ws.Coherent) : ws.Supported := by
  intro x hl
  rcases h.parents x hl with hnone | ⟨a, ha, hla⟩
  · exact Or.inl hnone
  · exact Or.inr ⟨a, ha, hla, h.under ha⟩

/-- A placeholder that may not be dragged on its own. -/
def Delegates (ws : Workspace α) (b : Block α) : Prop :=
  b.placeholder ∧ ¬ ws.config.allowsDragOf b.typeName

theorem dragTarget_of_own [Scalar α] (hb : ws.blocks[x]? = some b) (h : ¬ ws.Delegates b) :
    ws.dragTarget x = .ok (x, Point.origin) := by
  unfold Workspace.dragTarget
  rw [block_eq_ok.mpr hb]
  change (if !b.placeholder || ws.config.allowsDragOf b.typeName then _ else _) = _
  rw [if_pos]
  · rfl
  · by_contra hnot
    simp only [Bool.or_eq_true, Bool.not_eq_true', not_or, Bool.not_eq_false] at hnot
    exact h hnot

theorem dragTarget_of_delegates [Scalar α] (hb : ws.blocks[x]? = some b) (h : ws.Delegates b) :
    ws.dragTarget x = (do
      let above ← ws.realAbove x
      return (above, (← ws.block above).position - b.position)) := by
  unfold Workspace.dragTarget
  rw [block_eq_ok.mpr hb]
  change (if !b.placeholder || ws.config.allowsDragOf b.typeName then _ else _) = _
  rw [if_neg (by simp [h.1, h.2])]

namespace Ascends

/-- A placeholder is passed by, so that who moves is found above it. -/
theorem mover_tail (h : ws.Ascends x way) (hb : ws.blocks[x]? = some b) (hmark : b.placeholder) :
    ws.mover way = ws.mover way.tail := by
  obtain ⟨rest, rfl⟩ := h.head
  rw [mover_of_placeholder ((isPlaceholder_of_block hb).trans hmark), List.tail_cons]

theorem dragTarget_of_some [Scalar α] (h : ws.Ascends x way) (hbound : way.length ≤ ws.walkBound)
    (hb : ws.blocks[x]? = some b) (hd : ws.Delegates b) (hm : ws.mover way = some m) :
    ∃ c, ws.blocks[m]? = some c ∧ ws.dragTarget x = .ok (m, c.position - b.position) := by
  obtain ⟨c, hc⟩ := h.live_of_mover hm
  refine ⟨c, hc, ?_⟩
  rw [h.mover_tail hb hd.1] at hm
  have habove : ws.realAbove x = .ok m := (h.realAboveWithin hbound).1 m hm
  rw [dragTarget_of_delegates hb hd, habove]
  change (ws.block m >>= fun c => _) = _
  rw [block_eq_ok.mpr hc]
  rfl

theorem dragTarget_of_none [Scalar α] (h : ws.Ascends x way) (hbound : way.length ≤ ws.walkBound)
    (hb : ws.blocks[x]? = some b) (hd : ws.Delegates b) (hm : ws.mover way = none) {top : BlockId}
    (htop : way.getLast? = some top) :
    ws.dragTarget x = .error (.placeholderWithoutParent top) := by
  rw [h.mover_tail hb hd.1] at hm
  have habove : ws.realAbove x = .error (.placeholderWithoutParent top) :=
    (h.realAboveWithin hbound).2 hm top htop
  rw [dragTarget_of_delegates hb hd, habove]
  rfl

end Ascends

end Workspace

/-! ### What is held -/

/-- The block that is held, and what is added to the places that are reported for it. -/
def Editor.hold (e : Editor α) : Option (BlockId × Point α) :=
  e.session.map fun s => (s.block, s.offset)

/-- The same is held. -/
def Editor.SameHold (e e' : Editor α) : Prop :=
  e'.hold = e.hold

instance : IsPreorder (Editor α) Editor.SameHold where
  refl _ := rfl
  trans _ _ _ h h' := h'.trans h

namespace Act

open Editor (SameHold)
open Workspace

instance (m : Edit α β) : Along SameHold (edit m) := by
  constructor
  intro e
  unfold edit
  cases m e.workspace <;> rfl

instance (q : Workspace α → Answer α β) : Along SameHold (query q) :=
  inferInstanceAs (Along SameHold (edit (Edit.query q)))

instance (r : HostRequest α) : Along SameHold (request r) :=
  ⟨fun _ => rfl⟩

theorem updateSession_sameHold {f : DragSession α → DragSession α}
    (hf : ∀ s, ((f s).block, (f s).offset) = (s.block, s.offset)) :
    Along SameHold (updateSession f) := by
  constructor
  intro e
  change (e.session.map f).map _ = e.session.map _
  rw [Option.map_map]
  exact congrArg (Option.map · e.session) (funext hf)

variable [Scalar α]

instance (b : Block α) : Along SameHold (valueSocket b) := by
  unfold valueSocket
  split <;> infer_instance

instance (b : Block α) : Along SameHold (plugBelow b) := by
  unfold plugBelow
  split <;> infer_instance

instance (x : BlockId) (socket : Option ConnectionId) :
    Along SameHold (makeReal x socket : Act α Unit) := by
  have noted : ∀ c, Along SameHold (updateSession fun s : DragSession α =>
      { s with templateSocket := some c }) := fun c => updateSession_sameHold fun s => rfl
  unfold makeReal
  infer_instance

instance (x : BlockId) (socket : ConnectionId) (snapshot : Snapshot) :
    Along SameHold (leaveCopy x socket snapshot : Act α Unit) := by
  have noted : ∀ copy, Along SameHold (updateSession fun s : DragSession α =>
      { s with copy := some copy }) := fun c => updateSession_sameHold fun s => rfl
  unfold leaveCopy
  infer_instance

instance (x : BlockId) (heal : Bool) (copied : Option ConnectionId) :
    Along SameHold (withdraw x heal copied : Act α Unit) := by
  unfold withdraw
  cases copied <;> infer_instance

instance (x : BlockId) (heal : Bool) : Along SameHold (detach x heal : Act α Unit) := by
  rw [detach_steps]
  refine .bind inferInstance fun keeps => .bind inferInstance fun b => ?_
  refine .bind (updateSession_sameHold fun s => rfl) fun _ => .bind inferInstance fun socket => ?_
  refine .bind inferInstance fun _ => .bind inferInstance fun parentSocket => ?_
  refine .bind inferInstance fun childPlug => .bind (updateSession_sameHold fun s => rfl) fun _ => ?_
  infer_instance

variable {e t u : Editor α} {x y m : BlockId} {b : Block α} {offset : Point α} {heal : Bool}
  {s s₀ : DragSession α} {refusal : EditError α} {way : List BlockId}

/-- A block that is loosened is held as it was to be. -/
theorem loosen_hold (h : loosen s₀ heal e = .ok s t) :
    s.block = s₀.block ∧ s.offset = s₀.offset := by
  rcases loosen_ok h with ⟨-, rfl, -⟩ | ⟨u, hdetach, hs, -⟩
  · exact ⟨rfl, rfl⟩
  · have hhold : u.hold = _ := Along.ok (R := SameHold) inferInstance hdetach
    rw [Editor.hold, hs, Option.map_some, Editor.hold, Option.map_some, Option.some.injEq,
      Prod.mk.injEq] at hhold
    exact hhold

/-! ### Starts -/

/-- A start that was not refused a target is refused on ordinary grounds, unless the target may not
move. -/
theorem takeUp_ordinary (hfound : e.workspace.dragTarget x = .ok (m, offset))
    (hmovable : e.workspace.isMovable m = .ok true) (h : takeUp x heal e = .error refusal t) :
    refusal.Ordinary := by
  unfold takeUp at h
  rw [bind_eq (query_eq hfound)] at h
  dsimp only at h
  rw [bind_eq (query_eq hmovable)] at h
  rw [if_neg (by decide)] at h
  refine @Ordinary.error _ _ _ _ ?_ e refusal t h
  refine .bind inferInstance fun _ => .bind inferInstance fun dragged => ?_
  refine .bind inferInstance fun _ => .bind inferInstance fun c => ?_
  refine .bind inferInstance fun _ => .bind inferInstance fun _ => ?_
  refine .bind inferInstance fun _ => .bind inferInstance fun s => ?_
  infer_instance

theorem takeUp_fixed (hfound : e.workspace.dragTarget x = .ok (m, offset))
    (hfixed : e.workspace.isMovable m = .ok false) : takeUp x heal e = .error (.notMovable m) e := by
  unfold takeUp
  rw [bind_eq (query_eq hfound)]
  dsimp only
  rw [bind_eq (query_eq hfixed)]
  rfl

omit [Scalar α] in
/-- A question that has no answer. -/
theorem query_refused {q : Workspace α → Answer α β} (h : q e.workspace = .error refusal) :
    query q e = .error refusal e := by
  unfold query edit Edit.query
  rw [h]

theorem takeUp_lost (hlost : e.workspace.dragTarget x = .error refusal) :
    takeUp x heal e = .error refusal e := by
  unfold takeUp
  exact bind_error (query_refused hlost)

/-- While none is held, a block is picked up if it can be taken up. -/
theorem pickUp_eq_takeUp (hidle : e.session = none) : pickUp x heal e = takeUp x heal e := by
  obtain ⟨ws, session, requests, phase⟩ := e
  cases hidle
  rfl

/-- A drag of a block is a drag of a certain block with a certain offset. -/
structure Moves (x : BlockId) (heal : Bool) (e : Editor α) (m : BlockId) (offset : Point α) :
    Prop where
  orphan : ∀ y t, pickUp x heal e ≠ .error (.placeholderWithoutParent y) t
  fixed : ∀ y, (∃ t, pickUp x heal e = .error (.notMovable y) t) ↔
    y = m ∧ e.workspace.isMovable m = .ok false
  started : ∀ y t, pickUp x heal e = .ok y t → y = m ∧ t.hold = some (m, offset)

theorem pickUp_of_target (hidle : e.session = none)
    (hfound : e.workspace.dragTarget x = .ok (m, offset)) {on : Bool}
    (hon : e.workspace.isMovable m = .ok on) : Moves x heal e m offset := by
  have htake : pickUp x heal e = takeUp x heal e := pickUp_eq_takeUp hidle
  cases on with
  | false =>
    rw [takeUp_fixed hfound hon] at htake
    refine ⟨fun y t h => ?_, fun y => ⟨?_, ?_⟩, fun y t h => ?_⟩
    · rw [htake] at h
      cases h
    · rintro ⟨t, h⟩
      rw [htake] at h
      cases h
      exact ⟨rfl, hon⟩
    · rintro ⟨rfl, -⟩
      exact ⟨e, htake⟩
    · rw [htake] at h
      cases h
  | true =>
    refine ⟨fun y t h => ?_, fun y => ⟨?_, ?_⟩, fun y t h => ?_⟩
    · exact (takeUp_ordinary hfound hon (htake ▸ h)).orphan y rfl
    · rintro ⟨t, h⟩
      exact ((takeUp_ordinary hfound hon (htake ▸ h)).fixed y rfl).elim
    · rintro ⟨-, hfixed⟩
      rw [hon] at hfixed
      cases hfixed
    · obtain ⟨o, b, u, v, s, ⟨hgrasp, -⟩, -, -, hloosen, -, hs⟩ := takeUp_ok (htake ▸ h)
      rw [hfound, Except.ok.injEq, Prod.mk.injEq] at hgrasp
      obtain ⟨rfl, rfl⟩ := hgrasp
      obtain ⟨hblock, hoffset⟩ := loosen_hold hloosen
      refine ⟨rfl, ?_⟩
      rw [Editor.hold, hs, Option.map_some, hblock, hoffset]
      rfl

/-- A drag of a placeholder is a drag of the block that it belongs to, if there is one. -/
structure MovesFor (x : BlockId) (heal : Bool) (e : Editor α) (b : Block α) (way : List BlockId) :
    Prop where
  orphan : ∀ y, (∃ t, pickUp x heal e = .error (.placeholderWithoutParent y) t) ↔
    e.workspace.mover way = none ∧ way.getLast? = some y
  fixed : ∀ m, (∃ t, pickUp x heal e = .error (.notMovable m) t) ↔
    e.workspace.mover way = some m ∧ e.workspace.isMovable m = .ok false
  started : ∀ m t, pickUp x heal e = .ok m t → e.workspace.mover way = some m ∧
    ∃ c, e.workspace.blocks[m]? = some c ∧ t.hold = some (m, c.position - b.position)

theorem Moves.movesFor {c : Block α} (h : Moves x heal e m (c.position - b.position))
    (hm : e.workspace.mover way = some m) (hc : e.workspace.blocks[m]? = some c) :
    MovesFor x heal e b way where
  orphan y := by
    rw [hm]
    exact ⟨fun ⟨t, ht⟩ => (h.orphan y t ht).elim, nofun⟩
  fixed y := by
    rw [h.fixed y, hm, Option.some.injEq]
    constructor
    · rintro ⟨rfl, hfixed⟩
      exact ⟨rfl, hfixed⟩
    · rintro ⟨rfl, hfixed⟩
      exact ⟨rfl, hfixed⟩
  started y t ht := by
    obtain ⟨rfl, hhold⟩ := h.started y t ht
    exact ⟨hm, c, hc, hhold⟩

theorem movesFor_of_none {top : BlockId}
    (h : pickUp x heal e = .error (.placeholderWithoutParent top) e)
    (hm : e.workspace.mover way = none) (htop : way.getLast? = some top) :
    MovesFor x heal e b way where
  orphan y := by
    rw [h, hm, htop, Option.some.injEq]
    constructor
    · rintro ⟨t, ht⟩
      cases ht
      exact ⟨rfl, rfl⟩
    · rintro ⟨-, rfl⟩
      exact ⟨e, rfl⟩
  fixed y := by
    rw [h, hm]
    constructor
    · rintro ⟨t, ht⟩
      cases ht
    · rintro ⟨hnone, -⟩
      cases hnone
  started y t ht := by
    rw [h] at ht
    cases ht

/-- In a coherent workspace in which no block hangs below itself, a block may be dragged if the first
real block on the way up may move. A drag of a placeholder whose type may not be dragged moves that
block and keeps its distance, and any other drag moves the block itself. -/
theorem pickUp_moves (hcoherent : e.workspace.Coherent) (hacyclic : e.workspace.graph.Acyclic)
    (hidle : e.session = none) (hb : e.workspace.blocks[x]? = some b) (heal : Bool) :
    ∃ way, e.workspace.Ascends x way ∧
      (∃ on, e.workspace.isMovable x = .ok on ∧
        (on = true ↔ ∃ m, e.workspace.mover way = some m ∧ e.workspace.MayMove m)) ∧
      (e.workspace.Delegates b → MovesFor x heal e b way) ∧
      (¬ e.workspace.Delegates b → Moves x heal e x Point.origin) := by
  have hanswer : ∀ y, e.workspace.Live y → ∃ on, e.workspace.isMovable y = .ok on := by
    intro y hy
    obtain ⟨way, hway, hbound⟩ := hcoherent.supported.ascends hacyclic hy
    obtain ⟨on, hon, -⟩ := hway.isMovableWithin hbound
    exact ⟨on, hon⟩
  obtain ⟨way, hway, hbound⟩ := hcoherent.supported.ascends hacyclic ⟨b, hb⟩
  refine ⟨way, hway, hway.isMovableWithin hbound, fun hd => ?_, fun hd => ?_⟩
  · cases hm : e.workspace.mover way with
    | none =>
      obtain ⟨top, htop, -⟩ := hway.last
      have hlost : takeUp x heal e = _ := takeUp_lost (hway.dragTarget_of_none hbound hb hd hm htop)
      rw [← pickUp_eq_takeUp hidle] at hlost
      exact movesFor_of_none hlost hm htop
    | some m =>
      obtain ⟨c, hc, hfound⟩ := hway.dragTarget_of_some hbound hb hd hm
      obtain ⟨on, hon⟩ := hanswer m ⟨c, hc⟩
      exact (pickUp_of_target hidle hfound hon).movesFor hm hc
  · obtain ⟨on, hon⟩ := hanswer x ⟨b, hb⟩
    exact pickUp_of_target hidle (dragTarget_of_own hb hd) hon

/-- A statement whose value is a placeholder, where no placeholder may be dragged on its own. -/
def heldValue : Editor Int :=
  let config : EditorConfig Int := { EditorConfig.standard with draggablePlaceholders := some [] }
  (Editor.fresh config Palette.registry).run
    [.newBlock "Return", .setTemplate ⟨1⟩ (some (.ofType "int"))]

/-- A drag of the value is a drag of the statement. -/
theorem pickUp_moves_value : ∃ b way, heldValue.workspace.blocks[(⟨1⟩ : BlockId)]? = some b ∧
    heldValue.workspace.Ascends ⟨1⟩ way ∧ heldValue.workspace.mover way = some ⟨0⟩ ∧
    heldValue.workspace.Delegates b ∧ MovesFor ⟨1⟩ false heldValue b way := by
  have hlocked : (heldValue.workspace.blocks[(⟨1⟩ : BlockId)]?).any fun b =>
      b.placeholder && !heldValue.workspace.config.allowsDragOf b.typeName := by decide +kernel
  obtain ⟨b, hb, hd⟩ := (Option.any_eq_true _ _).mp hlocked
  rw [Bool.and_eq_true, Bool.not_eq_true'] at hd
  have hdelegates : heldValue.workspace.Delegates b := ⟨hd.1, Bool.eq_false_iff.mp hd.2⟩
  have hregular : heldValue.workspace.Regular :=
    Editor.run_regular Palette.registry_onePlug (Editor.create_fresh (by decide)) (by decide +kernel)
      (Editor.staysAcyclic_of_ordered (by decide +kernel))
  have hacyclic : heldValue.workspace.graph.Acyclic := acyclic_of_ordered (by decide +kernel)
  have hidle : heldValue.session = none := by decide +kernel
  obtain ⟨way, hway, -, hmoves, -⟩ := pickUp_moves hregular.coherent hacyclic hidle hb false
  have hstarts : pickUp ⟨1⟩ false heldValue = .ok ⟨0⟩ _ := eq_ok_of_answer (by decide +kernel)
  have hmover := ((hmoves hdelegates).started ⟨0⟩ _ hstarts).1
  exact ⟨b, way, hb, hway, hmover, hdelegates, hmoves hdelegates⟩

end Act

end BlockEditor
