import BlockEditor.Proofs.Evolving
import BlockEditor.Proofs.Movers
import BlockEditor.Proofs.Stages
import BlockEditor.Proofs.Starting
import BlockEditor.Proofs.Workspace.Levelling

/-!
# Which blocks are shown as dragged

When a drag starts, its block is shown as dragged, with all that hangs on it by then. When the drag
ends, its block is shown at rest, with all that hangs on it by then. Nothing else decides how a
block is shown.
-/

namespace BlockEditor

variable {α : Type}

namespace Workspace

variable {ws ws' ws'' : Workspace α} {x y : BlockId} {on : Bool}

/-- Whether a block is shown as dragged. -/
def flag? (ws : Workspace α) (x : BlockId) : Option Bool :=
  (ws.blocks[x]?).map (·.dragging)

def Flagged (ws : Workspace α) (x : BlockId) : Prop :=
  ws.flag? x = some true

instance (ws : Workspace α) (x : BlockId) : Decidable (ws.Flagged x) :=
  inferInstanceAs (Decidable (_ = _))

theorem Flagged.live (h : ws.Flagged x) : ws.Live x := by
  obtain ⟨b, hb, -⟩ := Option.map_eq_some_iff.mp h
  exact ⟨b, hb⟩

/-! ### Steps that leave the flags alone -/

/-- Blocks that are new are shown at rest, and the others as they were. -/
structure Spares (ws ws' : Workspace α) : Prop where
  count : ws.ids.blocks ≤ ws'.ids.blocks
  flags : ws'.ids.blocks ≤ 2 ^ 32 → ∀ x, ws'.Live x →
    ws'.flag? x = ws.flag? x ∨ ws.ids.blocks ≤ x.index.toNat ∧ ws'.flag? x = some false

theorem Spares.trans (h : ws.Spares ws') (h' : ws'.Spares ws'') : ws.Spares ws'' := by
  refine ⟨h.count.trans h'.count, fun hlast x hx => ?_⟩
  rcases h'.flags hlast x hx with hsame | ⟨hnew, hrest⟩
  · have hx' : ws'.Live x := by
      obtain ⟨b, hb⟩ := hx
      rw [flag?, hb] at hsame
      obtain ⟨b', hb', -⟩ := Option.map_eq_some_iff.mp hsame.symm
      exact ⟨b', hb'⟩
    rw [hsame]
    exact h.flags (h'.count.trans hlast) x hx'
  · exact Or.inr ⟨h.count.trans hnew, hrest⟩

instance : IsPreorder (Workspace α) Spares where
  refl _ := ⟨le_rfl, fun _ _ _ => Or.inl rfl⟩
  trans _ _ _ := .trans

instance : AdmitsNew (Spares (α := α)) where
  alters _ _ hids h := by
    refine ⟨hids, fun _ x ⟨b, hb⟩ => Or.inl ?_⟩
    obtain ⟨c, hc, -, -, hflag⟩ := h x b hb
    rw [flag?, flag?, hb, hc, Option.map_some, Option.map_some, hflag]
  created {ws ws' typeName d b top} h hnew _ _ _ hflag := by
    refine ⟨h.count, fun hlast x hx => ?_⟩
    have hflag? : Workspace.flag? { ws' with
        blocks := ws'.blocks.insert ws.ids.nextBlock.1 b, top := top } x =
        if x = ws.ids.nextBlock.1 then some false else ws'.flag? x := by
      rw [flag?, getElem?_insert]
      split
      · rw [Option.map_some, hflag]
      · rfl
    rw [hflag?]
    split
    next heq =>
      refine Or.inr ⟨?_, rfl⟩
      have hword : ws.ids.blocks < 2 ^ 32 := hnew.trans_le hlast
      rw [heq]
      change ws.ids.blocks ≤ (UInt32.ofNat ws.ids.blocks).toNat
      rw [UInt32.toNat_ofNat', Nat.mod_eq_of_lt hword]
    next hne =>
      obtain ⟨c, hc⟩ := hx
      refine h.flags hlast x ⟨c, ?_⟩
      rwa [getElem?_insert, if_neg hne] at hc

instance : IgnoresTasks (Spares (α := α)) where
  tasks _ _ := ⟨le_rfl, fun _ _ _ => Or.inl rfl⟩

/-- A block that is there after the step is shown as it was shown before. -/
theorem Spares.flagged_iff (h : ws.Spares ws') (hs : ws.Sound) (hlast : Lasts ws')
    (hx : ws'.Live x) : ws'.Flagged x ↔ ws.Flagged x := by
  rcases h.flags hlast.1 x hx with hsame | ⟨hnew, hrest⟩
  · rw [Flagged, Flagged, hsame]
  · refine iff_of_false (fun hon => ?_) fun hon => ?_
    · cases hrest.symm.trans hon
    · obtain ⟨b, hb⟩ := hon.live
      have hold := hs.blockIds hb
      omega

/-! ### Steps that set them -/

theorem Drifts.symm (h : ws.Drifts ws') : ws'.Drifts ws where
  blocks x := (h.blocks x).symm
  connections c := (h.connections c).symm
  rest := by rw [h.rest]

theorem Drifts.lasts_iff (h : ws.Drifts ws') : Lasts ws' ↔ Lasts ws := by
  rw [lasts_workspace, lasts_workspace, h.ids]

instance : IgnoresFlags (Drifts (α := α)) where
  refl := .refl
  trans _ _ _ := .trans
  flags hb := drifts_insert hb rfl

/-- A block is shown in one way or the other, with all that hangs on it. -/
structure Flags (x : BlockId) (on : Bool) (ws ws' : Workspace α) : Prop
    extends ws.Drifts ws' where
  within : ∀ y, ws.Live y → ws.Branch x y → ws'.flag? y = some on
  beyond : ∀ y, ¬ ws.Branch x y → ws'.flag? y = ws.flag? y

/-- There is nothing to show of a block that is gone. -/
theorem Flags.of_gone (hs : ws.Sound) (hx : ¬ ws.Live x) : ws.Flags x on ws where
  toDrifts := .refl ws
  within y hy hin := by
    rcases hin with rfl | hbelow
    · exact absurd hy hx
    · exact absurd (hs.exists_of_above hbelow) hx
  beyond _ _ := rfl

theorem Flags.of_relogs {t : Workspace α} (hlog : Act.Relogs ws t) (h : t.Flags x on ws') :
    ws.Flags x on ws' := by
  obtain ⟨log, rfl⟩ := hlog
  exact ⟨(drifts_aside ws log ws.tasks).trans h.toDrifts, h.within, h.beyond⟩

theorem Flags.relogs {t : Workspace α} (h : ws.Flags x on ws') (hlog : Act.Relogs ws' t) :
    ws.Flags x on t := by
  obtain ⟨log, rfl⟩ := hlog
  exact ⟨h.toDrifts.trans (drifts_aside ws' log ws'.tasks), h.within, h.beyond⟩

theorem Flags.branch_iff (h : ws.Flags x on ws') : ws'.Branch x y ↔ ws.Branch x y := by
  rw [Branch, h.graph, Branch]

theorem Flags.flagged_true (h : ws.Flags x true ws') (hy : ws'.Live y) :
    ws'.Flagged y ↔ ws.Branch x y ∨ ws.Flagged y := by
  by_cases hin : ws.Branch x y
  · exact iff_of_true (h.within y (h.symm.live hy) hin) (Or.inl hin)
  · rw [Flagged, Flagged, h.beyond y hin, or_iff_right hin]

theorem Flags.flagged_false (h : ws.Flags x false ws') :
    ws'.Flagged y ↔ ws.Flagged y ∧ ¬ ws.Branch x y := by
  by_cases hin : ws.Branch x y
  · refine iff_of_false (fun hon => ?_) fun hon => hon.2 hin
    cases (h.within y (h.symm.live hon.live) hin).symm.trans hon
  · rw [Flagged, Flagged, h.beyond y hin, and_iff_left hin]

end Workspace

namespace Edit

open Workspace

variable {ws ws' : Workspace α} {x : BlockId} {on : Bool}

theorem markDragging_flags [Scalar α] (hforest : ws.Forest) (hlast : Lasts ws')
    (h : markDragging x on ws = .ok () ws') : ws.Flags x on ws' := by
  have hs := hforest.sound
  have hdrifts : ws.Drifts ws' := Along.ok (R := Drifts) inferInstance h
  obtain ⟨found, u, hask, hmark⟩ := bind_ok h
  obtain ⟨rfl, hfound⟩ := query_ok hask
  obtain ⟨b, hb⟩ := live_of_descendants hfound
  obtain ⟨l, hl, hbranch⟩ := hs.descendants hb
  obtain rfl : l = found := Except.ok.inj (hl.symm.trans hfound)
  obtain ⟨-, hblocks⟩ := (forM_updateBlock _ l u).ok hmark hlast rfl
  have hset := hblocks (hs.nodup_descendants (hforest.acyclic x) hfound)
  refine ⟨hdrifts, fun y ⟨c, hc⟩ hy => ?_, fun y hy => ?_⟩
  · rw [flag?, hset y c hc, if_pos (hs.mem_descendants (hforest.acyclic x) hfound hy)]
    rfl
  · cases hc : u.blocks[y]? with
    | some c => rw [flag?, flag?, hset y c hc, if_neg (fun hin => hy (hbranch y hin)), hc]
    | none =>
      have hnone := hdrifts.blocks y
      rw [hc, Option.map_none, Option.map_eq_none_iff] at hnone
      rw [flag?, flag?, hc, hnone]

end Edit

/-! ### Gestures -/

section Ended

variable {β γ ε σ : Type} {m : EStateM ε σ β} {s t : σ} {a : β}

theorem ended_bind_ok {f : β → EStateM ε σ γ} (h : m s = .ok a t) :
    ended ((m >>= f) s) = ended (f a t) := by
  rw [bind_eq h]

theorem ended_bind_pure {f : β → γ} : ended ((m >>= fun a => pure (f a)) s) = ended (m s) := by
  cases hm : m s with
  | ok a t => rw [bind_eq hm]; rfl
  | error e t => rw [bind_error hm]; rfl

end Ended

namespace Act

open Workspace

variable {e t : Editor α} {x : BlockId} {s : DragSession α}

theorem Relogs.trans {ws t u : Workspace α} (h : Relogs ws t) (h' : Relogs t u) : Relogs ws u := by
  obtain ⟨log, rfl⟩ := h
  obtain ⟨log', rfl⟩ := h'
  exact ⟨log', rfl⟩

theorem Relogs.drifts {ws t : Workspace α} (h : Relogs ws t) : ws.Drifts t := by
  obtain ⟨log, rfl⟩ := h
  exact drifts_aside ws log ws.tasks

theorem fireDragEnd_eq (e : Editor α) (x : BlockId) :
    ∃ t, fireDragEnd x e = .ok () t ∧ Relogs e.workspace t.workspace := by
  obtain ⟨l, hl⟩ : ∃ l, draggedWith x e = .ok l e := by
    unfold draggedWith
    rw [bind_eq (m := get) (a := e) (t := e) rfl]
    cases e.workspace.descendants x with
    | ok l => exact ⟨l, rfl⟩
    | error refusal => exact ⟨[x], rfl⟩
  refine ⟨_, bind_eq hl, _, rfl⟩

variable [Scalar α]

/-- The visuals are cleared, whether the block is still there or not. -/
theorem clearVisuals_flags (hforest : e.workspace.Forest) (hlast : Lasts e) (x : BlockId) :
    ∃ t, clearVisuals x e = .ok () t ∧ e.workspace.Flags x false t.workspace := by
  have hs := hforest.sound
  unfold clearVisuals
  rw [bind_eq (m := get) (a := e) (t := e) rfl]
  by_cases hx : e.workspace.Live x
  · have hdrifts : Along Drifts (Edit.markDragging x false : Edit α Unit) := inferInstance
    obtain ⟨ws, hmark⟩ : ∃ ws, Edit.markDragging x false e.workspace = .ok () ws := by
      cases hm : Edit.markDragging x false e.workspace with
      | ok _ ws => exact ⟨ws, rfl⟩
      | error refusal ws =>
        exact ((Edit.markDragging_roams hs hx false).error hm
          ((hdrifts.error hm).lasts_iff.mpr hlast) (.refl _)).elim
    have hedit : edit (Edit.markDragging x false) e = .ok () { e with workspace := ws } := by
      unfold edit
      rw [hmark]
    rw [if_pos (hasBlock_iff.mpr hx), bind_eq (tryCatch_ok hedit)]
    exact ⟨_, rfl, Edit.markDragging_flags hforest ((hdrifts.ok hmark).lasts_iff.mpr hlast) hmark⟩
  · rw [if_neg fun hhas => hx (hasBlock_iff.mp hhas)]
    exact ⟨_, rfl, .of_gone hs hx⟩

/-- A drop shows its block at rest as it hangs then, and connects it without regard to how blocks
are shown. -/
theorem dropAt_flags (hforest : e.workspace.Forest) (hlast : Lasts e) (hheld : e.session = some s)
    (location : Point α) : ∃ ws, e.workspace.Flags s.block false ws ∧
      ws.Spares (ended (dropAt location e)).workspace := by
  obtain ⟨ws, session, requests, phase⟩ := e
  cases hheld
  obtain ⟨u, hfire, hlog⟩ := fireDragEnd_eq ⟨ws, none, requests, .applying⟩ s.block
  have hu : u.workspace.Forest := hforest.drifts hlog.drifts
  obtain ⟨v, hclear, hflags⟩ := clearVisuals_flags hu (hlog.drifts.lasts_iff.mpr hlast) s.block
  refine ⟨v.workspace, hflags.of_relogs hlog, ?_⟩
  have hend : ended (dropAt location ⟨ws, some s, requests, phase⟩) =
      ended (followedBy (settle s (location + s.offset)) closeGesture v) :=
    calc ended (dropAt location ⟨ws, some s, requests, phase⟩)
      _ = ended ((fireDragEnd s.block >>= fun _ => clearVisuals s.block >>= fun _ =>
          followedBy (settle s (location + s.offset)) closeGesture)
          ⟨ws, none, requests, .applying⟩) := rfl
      _ = _ := by rw [bind_eq hfire, bind_eq hclear]
  rw [hend]
  exact Along.along (R := Editor.Between Spares) v

/-- What is left once the visuals are cleared leaves all blocks alone, so the workspace before was
a forest if the one after is. -/
theorem clearVisuals_then {last : Act α Unit}
    (hquiet : ∀ e, Relogs e.workspace (ended (last e)).workspace)
    (hforest : (ended ((clearVisuals x >>= fun _ => last) e)).workspace.Forest)
    (hlast : Lasts (ended ((clearVisuals x >>= fun _ => last) e))) :
    e.workspace.Flags x false (ended ((clearVisuals x >>= fun _ => last) e)).workspace := by
  have hdrifts : e.workspace.Drifts (ended ((clearVisuals x >>= fun _ => last) e)).workspace := by
    cases hclear : clearVisuals x e with
    | ok _ t =>
      rw [ended_bind_ok hclear]
      exact (Along.ok (R := Editor.Between Drifts) inferInstance hclear).trans (hquiet t).drifts
    | error refusal t =>
      rw [bind_error hclear]
      exact Along.error (R := Editor.Between Drifts) inferInstance hclear
  obtain ⟨t, hclear, hflags⟩ :=
    clearVisuals_flags (hforest.drifts hdrifts.symm) (hdrifts.lasts_iff.mp hlast) x
  rw [ended_bind_ok hclear]
  exact hflags.relogs (hquiet t)

omit [Scalar α] in
theorem finishGesture_relogs (e : Editor α) :
    Relogs e.workspace (ended (finishGesture e)).workspace :=
  ⟨_, rfl⟩

omit [Scalar α] in
theorem closeGesture_relogs (e : Editor α) :
    Relogs e.workspace (ended (closeGesture e)).workspace :=
  ⟨_, rfl⟩

theorem closeReverted_flags (hforest : (ended (closeReverted x e)).workspace.Forest)
    (hlast : Lasts (ended (closeReverted x e))) :
    e.workspace.Flags x false (ended (closeReverted x e)).workspace := by
  obtain ⟨u, hlog, hend⟩ : ∃ u : Editor α, Relogs e.workspace u.workspace ∧
      ended (closeReverted x e) = ended ((clearVisuals x >>= fun _ => closeGesture) u) := by
    obtain ⟨t, hfire, hlog⟩ := fireDragEnd_eq e x
    unfold closeReverted
    rw [bind_eq (m := get) (a := e) (t := e) rfl]
    by_cases hx : e.workspace.hasBlock x
    · rw [if_pos hx, bind_eq hfire]
      exact ⟨t, hlog, rfl⟩
    · rw [if_neg hx]
      exact ⟨e, ⟨_, rfl⟩, rfl⟩
  rw [hend] at hforest hlast ⊢
  exact (clearVisuals_then closeGesture_relogs hforest hlast).of_relogs hlog

omit [Scalar α] in
/-- A step that was undone stays refused. -/
theorem then_throw {β : Type} (last : Act α Unit) (refusal : EditError α) (e : Editor α) :
    ∃ refusal', (last >>= fun _ => (throw refusal : Act α β)) e =
      .error refusal' (ended (last e)) := by
  cases hlast : last e with
  | ok _ t => exact ⟨refusal, bind_eq hlast⟩
  | error refusal' t => exact ⟨refusal', bind_error hlast⟩

omit [Scalar α] in
/-- Whether the step is refused or not, what comes after it comes last. -/
theorem ended_followedBy {β : Type} {step : Act α β} {last : Act α Unit} (e : Editor α) :
    ended (followedBy step last e) = ended (last (ended (step e))) := by
  unfold followedBy
  cases hstep : step e with
  | ok a t =>
    rw [bind_eq (tryCatch_ok hstep)]
    exact ended_bind_pure
  | error refusal t =>
    obtain ⟨refusal', hthrow⟩ := then_throw (β := β) last refusal t
    rw [bind_error ((tryCatch_error hstep).trans hthrow)]
    rfl

/-- A drag that is given up shows its block at rest as it hangs when it was put back. -/
theorem cancelDrag_flags (hforest : (ended (cancelDrag e)).workspace.Forest)
    (hlast : Lasts (ended (cancelDrag e))) (hheld : e.session = some s) :
    ∃ ws, e.workspace.Spares ws ∧ ws.Flags s.block false (ended (cancelDrag e)).workspace := by
  obtain ⟨ws, session, requests, phase⟩ := e
  cases hheld
  set e₁ : Editor α := ⟨ws, none, requests, .reverting⟩
  have hend : ended (cancelDrag ⟨ws, some s, requests, phase⟩) =
      ended (closeReverted s.block (ended (edit (Edit.putBack s) e₁))) :=
    ended_followedBy e₁
  rw [hend] at hforest hlast ⊢
  refine ⟨_, ?_, closeReverted_flags hforest hlast⟩
  exact Along.along (R := Editor.Between Spares) (m := edit (Edit.putBack s)) e₁

/-! ### Starts -/

theorem abandon_flags (hforest : (ended (abandon x e)).workspace.Forest)
    (hlast : Lasts (ended (abandon x e))) (hheld : e.session = some s) :
    ∃ ws, e.workspace.Spares ws ∧ ws.Flags x false (ended (abandon x e)).workspace := by
  obtain ⟨ws, session, requests, phase⟩ := e
  cases hheld
  have hundo : ∀ refusal u, edit (Edit.rollBack s) ⟨ws, none, requests, phase⟩ ≠ .error refusal u := by
    intro refusal u hm
    have habandon : ended (abandon x ⟨ws, some s, requests, phase⟩) = u :=
      congrArg ended (bind_error (f := fun _ => clearVisuals x >>= fun _ => finishGesture) hm)
    rw [habandon] at hlast
    exact (edit_leads (Edit.rollBack_done s)).error hm hlast trivial
  cases hm : edit (Edit.rollBack s) ⟨ws, none, requests, phase⟩ with
  | error refusal u => exact (hundo refusal u hm).elim
  | ok _ u =>
    have habandon : ended (abandon x ⟨ws, some s, requests, phase⟩) =
        ended ((clearVisuals x >>= fun _ => finishGesture) u) :=
      ended_bind_ok (f := fun _ => clearVisuals x >>= fun _ => finishGesture) hm
    have hundone : Editor.Between Spares _ u := Along.ok inferInstance hm
    rw [habandon] at hforest hlast ⊢
    exact ⟨u.workspace, hundone, clearVisuals_then finishGesture_relogs hforest hlast⟩

omit [Scalar α] in
theorem hasToDetach_answered (hs : e.workspace.Sound) (hl : e.workspace.Live x) (hlast : Lasts e)
    (heal : Bool) : ∃ on, hasToDetach x heal e = .ok on e := by
  cases hm : hasToDetach x heal e with
  | ok on t => exact ⟨on, by rw [hasToDetach_ok hm]⟩
  | error refusal t =>
    have hsame : Editor.Between Eq e t := Along.error inferInstance hm
    have hlast' : Lasts t := by
      rw [lasts_editor, ← show e.workspace = t.workspace from hsame]
      exact hlast
    exact ((hasToDetach_answers (P := fun _ => True) x heal).error hm hlast' ⟨trivial, hs, hl⟩).elim

/-- A block is loosened, or it could not be detached and the start is abandoned. -/
theorem loosen_cases (hs : e.workspace.Sound) (hl : e.workspace.Live s.block) (hlast : Lasts e)
    (heal : Bool) :
    (∃ s' t, loosen s heal e = .ok s' t ∧ e.workspace.Spares t.workspace) ∨
      ∃ refusal s' t, t.session = some s' ∧ e.workspace.Spares t.workspace ∧
        loosen s heal e = .error refusal (ended (abandon s.block t)) := by
  obtain ⟨on, hon⟩ := hasToDetach_answered hs hl hlast heal
  unfold loosen
  rw [bind_eq hon]
  cases on with
  | false => exact Or.inl ⟨s, e, rfl, refl_of Spares e.workspace⟩
  | true =>
    set e₁ : Editor α := { e with session := some s }
    have hset : setSession s e = .ok () e₁ := rfl
    rw [if_neg (by decide), bind_eq hset]
    have hheld : ∀ {t : Editor α}, Editor.SameHold e₁ t → ∃ s', t.session = some s' := by
      intro t hsame
      obtain ⟨s', hs', -⟩ := Option.map_eq_some_iff.mp (show t.session.map _ = _ from hsame)
      exact ⟨s', hs'⟩
    cases hm : detach s.block heal e₁ with
    | ok _ t =>
      have hspares : Editor.Between Spares e₁ t := Along.ok inferInstance hm
      obtain ⟨s', hs'⟩ := hheld (Along.ok inferInstance hm)
      obtain ⟨ws, session, requests, phase⟩ := t
      cases hs'
      rw [bind_eq (tryCatch_ok hm)]
      exact Or.inl ⟨s', _, rfl, hspares⟩
    | error refusal t =>
      have hspares : Editor.Between Spares e₁ t := Along.error inferInstance hm
      obtain ⟨s', hs'⟩ := hheld (Along.error inferInstance hm)
      obtain ⟨refusal', hthrow⟩ := then_throw (β := Unit) (abandon s.block) refusal t
      exact Or.inr ⟨refusal', s', t, hs', hspares, bind_error ((tryCatch_error hm).trans hthrow)⟩

/-- A target that may be moved is taken up by loosening it, after things were reported and asked
for that leave the blocks alone. -/
theorem takeUp_eq {target : BlockId} {offset : Point α} (hs : e.workspace.Sound)
    (hfound : e.workspace.dragTarget x = .ok (target, offset))
    (hmovable : e.workspace.isMovable target = .ok true) (heal : Bool) :
    ∃ (b : Block α) (u : Editor α), Relogs e.workspace u.workspace ∧ u.session = e.session ∧
      takeUp x heal e = (do
        let s ← loosen (.begin target b.position offset) heal
        edit (Edit.markDragging target true)
        request (.dragLayer target true)
        setSession s
        enter .dragging
        return target : Act α BlockId) u := by
  obtain ⟨b, hb⟩ := live_of_isMovable hmovable
  obtain ⟨u, hgroup, hopen, hidle⟩ : ∃ u, ensureGroup e = .ok () u ∧
      Relogs e.workspace u.workspace ∧ u.session = e.session := ⟨_, rfl, ⟨_, rfl⟩, rfl⟩
  obtain ⟨l, hl⟩ : ∃ l, u.workspace.descendants target = .ok l := by
    obtain ⟨b', hb'⟩ := hopen.drifts.live ⟨b, hb⟩
    obtain ⟨l, hl, -⟩ := (hopen.drifts.sound hs).descendants hb'
    exact ⟨l, hl⟩
  obtain ⟨v, hfire, hlog, hidle'⟩ : ∃ v, edit (Edit.fire (.drag target true l)) u = .ok () v ∧
      Relogs e.workspace v.workspace ∧ v.session = e.session :=
    ⟨_, rfl, hopen.trans ⟨_, rfl⟩, hidle⟩
  obtain ⟨b', hb'⟩ := hlog.drifts.live ⟨b, hb⟩
  refine ⟨b', { v with requests := v.requests ++ [.textWidthCache true] ++ [.resizesEnabled false] ++
    [.stopDisconnectEffect] }, hlog, hidle', ?_⟩
  unfold takeUp
  rw [bind_eq (query_eq hfound)]
  dsimp only
  rw [bind_eq (query_eq hmovable), if_neg (by decide), bind_eq hgroup, bind_eq (query_eq hl),
    bind_eq hfire, bind_eq (query_eq (block_eq_ok.mpr hb'))]
  rfl

/-- Where there is nothing to drag, nothing happens. -/
theorem takeUp_stays (h : ∀ target, ¬ Draggable e.workspace x target) (heal : Bool) :
    ∃ refusal, takeUp x heal e = .error refusal e := by
  cases hfound : e.workspace.dragTarget x with
  | error refusal => exact ⟨refusal, takeUp_lost hfound⟩
  | ok found =>
    obtain ⟨target, offset⟩ := found
    cases hmovable : e.workspace.isMovable target with
    | error refusal =>
      refine ⟨refusal, ?_⟩
      unfold takeUp
      rw [bind_eq (query_eq hfound)]
      exact bind_error (query_refused hmovable)
    | ok on =>
      cases on with
      | false => exact ⟨_, takeUp_fixed hfound hmovable⟩
      | true => exact (h target ⟨offset, hfound, hmovable⟩).elim

/-- A block that is there is marked with what hangs on it. -/
theorem edit_markDragging (hforest : e.workspace.Forest) (hl : e.workspace.Live x) (hlast : Lasts e)
    (on : Bool) : ∃ ws, edit (Edit.markDragging x on) e = .ok () { e with workspace := ws } ∧
      e.workspace.Flags x on ws := by
  have hdrifts : Along Drifts (Edit.markDragging x on : Edit α Unit) := inferInstance
  unfold edit
  cases hm : Edit.markDragging x on e.workspace with
  | ok _ ws =>
    have hlast' : Lasts ws := (hdrifts.ok hm).lasts_iff.mpr hlast
    exact ⟨ws, rfl, Edit.markDragging_flags hforest hlast' hm⟩
  | error refusal ws =>
    have hlast' : Lasts ws := (hdrifts.error hm).lasts_iff.mpr hlast
    exact ((Edit.markDragging_roams hforest.sound hl on).error hm hlast' (.refl _)).elim

/-- How a start shows blocks: as dragged if it starts a drag, and at rest if it was abandoned. -/
theorem pickUp_flags (hforest : e.workspace.Forest) (hidle : e.session = none) (heal : Bool)
    (hafter : (ended (pickUp x heal e)).workspace.Forest)
    (hlast : Lasts (ended (pickUp x heal e))) :
    (∃ target t ws, pickUp x heal e = .ok target t ∧ e.workspace.Spares ws ∧
      ws.Flags target true t.workspace) ∨
    (∃ refusal, pickUp x heal e = .error refusal e ∧
      ∀ target, ¬ Draggable e.workspace x target) ∨
    ∃ refusal t target ws, pickUp x heal e = .error refusal t ∧
      Draggable e.workspace x target ∧ e.workspace.Spares ws ∧
      ws.Flags target false t.workspace := by
  have hbefore : Lasts e :=
    (pickUp_keeps (X := ∅) Editor.stable_true x heal).lasts_of_ended hlast
  rw [pickUp_eq_takeUp hidle] at hafter hlast ⊢
  by_cases hdrag : ∃ target, Draggable e.workspace x target
  swap
  · obtain ⟨refusal, hstay⟩ := takeUp_stays (fun target h => hdrag ⟨target, h⟩) heal
    exact Or.inr (Or.inl ⟨refusal, hstay, fun target h => hdrag ⟨target, h⟩⟩)
  obtain ⟨target, offset, hfound, hmovable⟩ := hdrag
  obtain ⟨b, u, hlog, hsession, htake⟩ := takeUp_eq hforest.sound hfound hmovable heal
  have hu : u.workspace.Forest := hforest.drifts hlog.drifts
  have hlastu : Lasts u := hlog.drifts.lasts_iff.mpr hbefore
  have hstart : e.workspace.Spares u.workspace := by
    obtain ⟨log, hlog⟩ := hlog
    rw [hlog]
    exact Lenient.of_same rfl rfl le_rfl rfl
  have hlive : u.workspace.Live target := hlog.drifts.live (live_of_isMovable hmovable)
  rw [htake] at hafter hlast ⊢
  obtain ⟨s, v, hloosen, hspares⟩ | ⟨refusal, s, w, hheld, hspares, hloosen⟩ :=
    loosen_cases (s := .begin target b.position offset) hu.sound hlive hlastu heal
  · rw [bind_eq hloosen] at hafter hlast ⊢
    have hdrifts : v.workspace.Drifts (ended ((do
        edit (Edit.markDragging target true)
        request (.dragLayer target true)
        setSession s
        enter .dragging
        return target : Act α BlockId) v)).workspace :=
      Along.along (R := Editor.Between Drifts) v
    have hlastv : Lasts v := hdrifts.lasts_iff.mp hlast
    have hlive : v.workspace.Live target :=
      ((loosen_lifts (.begin target b.position offset) heal rfl).ok hloosen hlastv
        ⟨hu, hsession.trans hidle⟩).1.1.live
    obtain ⟨ws, hmark, hflags⟩ := edit_markDragging (hafter.drifts hdrifts.symm) hlive hlastv true
    rw [bind_eq hmark]
    exact Or.inl ⟨target, _, v.workspace, rfl, hstart.trans hspares, hflags⟩
  · rw [bind_error hloosen] at hafter hlast ⊢
    obtain ⟨ws, hundone, hflags⟩ := abandon_flags hafter hlast hheld
    exact Or.inr (Or.inr ⟨refusal, _, target, ws, rfl, ⟨offset, hfound, hmovable⟩,
      (hstart.trans hspares).trans hundone, hflags⟩)

end Act

end BlockEditor
