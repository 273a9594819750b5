import BlockEditor.Editor.Deferred
import BlockEditor.Editor.Gesture
import BlockEditor.Proofs.Rewiring

/-!
# Gestures keep properties

A gesture is made of edits. Where a refusal is caught the edits that were made stay, and a gesture
that is given up may leave holes only if it is refused itself.
-/

namespace BlockEditor

variable {α : Type} [Scalar α] {strict : Prop} {J : Set ConnectionId → Workspace α → Prop}
  {X : Set ConnectionId}

namespace Edit

open Workspace

/-! ### Putting back -/

theorem discardCopy_keeps (hJ : Stable strict J) (copy : BlockId) :
    Safe J X (discardCopy copy : Edit α Unit) :=
  get_keeps.bind fun _ => Leads.ite (fun _ => dispose_keeps hJ copy) fun _ => Leads.pure fun _ h => h

theorem takeBackStack_keeps (hJ : Stable strict J) (id : BlockId) (plug : ConnectionId) :
    Safe J X (takeBackStack id plug : Edit α Unit) := by
  unfold takeBackStack
  refine (Leads.block fun _ h _ => h.anyway hJ).bind fun b => ?_
  cases b.next with
  | none => exact Leads.pure fun _ h => h.1
  | some next =>
    refine (Leads.get (Q := fun _ => Steady J X) fun _ h => h.1).bind fun _ => ?_
    exact Leads.ite (fun _ => connect_keeps hJ plug next) fun _ => Leads.pure fun _ h => h

omit [Scalar α] in
/-- To look for the place of a block changes nothing. -/
theorem formerPlace_keeps {P : Workspace α → Prop} (s : DragSession α) : Keeps P (formerPlace s) := by
  unfold formerPlace
  refine get_keeps.bind fun ws => ?_
  split
  · exact Leads.pure fun _ h => h
  · split
    · exact Leads.pure fun _ h => h
    · exact (Leads.block fun _ h _ => h).bind fun _ => Leads.pure fun _ h => h.1

theorem takePlace_keeps (hJ : Stable strict J) (s : DragSession α) :
    Safe J X (takePlace s : Edit α Unit) := by
  unfold takePlace
  refine ((formerPlace_keeps s).refused fun _ h => h.anyway hJ).bind fun place => ?_
  split
  · exact connect_keeps hJ _ _
  · refine (Leads.ask fun _ _ h _ => h.anyway hJ).bind fun parent => ?_
    refine Leads.ite (fun _ => ?_) fun _ => Leads.pure fun _ h => h.1
    refine Leads.bind (((moveTo_keeps (hJ.calm (X := X)) s.block s.start "drag").pre fun _ h => h.1).refused
      fun _ h => h.anyway hJ) fun _ => ?_
    exact ((keepInView_keeps hJ.calm s.block).refused fun _ h => h.anyway hJ).bind fun _ =>
      Leads.pure fun _ h => h

theorem putBack_keeps (hJ : Stable strict J) (s : DragSession α) :
    Safe J X (putBack s : Edit α Unit) := by
  unfold putBack
  refine Leads.bind (Q := fun _ => Steady J X)
    (Leads.forM_option _ (fun copy _ => discardCopy_keeps hJ copy) fun _ _ h => h) fun _ => ?_
  refine Leads.bind ((setCopyOnDrag_keeps (X := X) hJ s.block _).refused fun _ h => h.anyway hJ)
    fun _ => ?_
  refine Leads.bind (Q := fun _ => Steady J X)
    (Leads.forM_option _ (fun plug _ => takeBackStack_keeps hJ s.block plug) fun _ _ h => h)
    fun _ => ?_
  refine (takePlace_keeps hJ s).bind fun _ => ?_
  refine Leads.ite (fun _ => ?_) fun _ => Leads.pure fun _ h => h
  refine (Leads.ask fun _ _ h _ => h.anyway hJ).bind fun parent => ?_
  refine Leads.ite (fun _ => ?_) fun _ => Leads.pure fun _ h => h.1
  exact ((setPlaceholder_keeps hJ s.block true).pre fun _ h => h.1).refused fun _ h => h.anyway hJ

omit [Scalar α] in
theorem getElem?_forget (ws : Workspace α) (c d : ConnectionId) :
    (ws.connections.modify c fun y : Connection α => { y with template := none })[d]? =
      (ws.connections[d]?).map
        fun y : Connection α => if d = c then { y with template := none } else y := by
  rw [Std.ExtTreeMap.getElem?_modify]
  simp only [Std.LawfulEqCmp.compare_eq_iff_eq]
  by_cases hd : c = d
  · subst hd
    simp
  · have hd' : ¬ d = c := fun h => hd h.symm
    simp [hd, hd']

theorem forgetTemplate_keeps (hJ : Stable strict J) (c : ConnectionId) :
    Keeps (Steady J X) (forgetTemplate c : Edit α Unit) := by
  refine Leads.alter fun ws h => ?_
  have hc := getElem?_forget ws c
  have hj : J (insert c X) { ws with connections := (ws.connections.modify c
      fun y : Connection α => { y with template := none }) } :=
    hJ.template h.sound hc rfl h.keeps
  refine (Steady.mk (h.sound.template hc rfl) hj).fill hJ ?_
  intro x b i y _ _ _ hy hm
  have hy' := hc c
  rw [show _ = some y from hy, eq_comm, Option.map_eq_some_iff] at hy'
  obtain ⟨z, -, rfl⟩ := hy'
  simp at hm

theorem rollBack_keeps (hJ : Stable strict J) (s : DragSession α) :
    Keeps (Steady J Set.univ) (rollBack s : Edit α Unit) := by
  unfold rollBack
  refine Leads.bind (Q := fun _ => Steady J Set.univ) ((putBack_keeps hJ s).tryCatch fun _ =>
    Leads.pure fun _ h => h) fun _ => ?_
  exact Leads.forM_option _ (fun c _ => forgetTemplate_keeps hJ c) fun _ _ h => h

end Edit

namespace Act

open Workspace

/-- What holds of the workspace of an editor. -/
abbrev Within (P : Workspace α → Prop) (e : Editor α) : Prop :=
  P e.workspace

/-- The step keeps the property; if it is refused, then there may be holes. -/
abbrev Safe (J : Set ConnectionId → Workspace α → Prop) (X : Set ConnectionId) {β : Type}
    (m : Act α β) : Prop :=
  Leads (Within (Steady J X)) m (fun _ => Within (Steady J X)) (Within (Steady J Set.univ))

section Steps

variable {P : Workspace α → Prop} {E : Editor α → Prop}

omit [Scalar α] in
/-- What is done to the editor but not to its workspace. -/
theorem aside {f : Editor α → Editor α} (hf : ∀ e, (f e).workspace = e.workspace) :
    Leads (Within P) (modify f : Act α Unit) (fun _ => Within P) E := by
  refine Leads.modify (fun e he => ?_) fun e h => ?_
  · rw [lasts_editor] at he ⊢
    rwa [hf] at he
  · change P _
    rw [hf]
    exact h

omit [Scalar α] in
theorem request_keeps (r : HostRequest α) :
    Leads (Within P) (request r) (fun _ => Within P) E :=
  aside fun _ => rfl

omit [Scalar α] in
theorem updateSession_keeps (f : DragSession α → DragSession α) :
    Leads (Within P) (updateSession f) (fun _ => Within P) E :=
  aside fun _ => rfl

omit [Scalar α] in
theorem setSession_keeps (s : DragSession α) :
    Leads (Within P) (setSession s) (fun _ => Within P) E :=
  aside fun _ => rfl

omit [Scalar α] in
theorem enter_keeps (phase : DragPhase) :
    Leads (Within P) (enter phase : Act α Unit) (fun _ => Within P) E :=
  aside fun _ => rfl

omit [Scalar α] in
theorem look_keeps : Leads (Within P) (get : Act α (Editor α)) (fun _ => Within P) E :=
  Leads.get fun _ h => h

omit [Scalar α] in
theorem activeSession_keeps {I : Editor α → Prop} :
    Keeps I (activeSession : Act α (DragSession α)) := by
  unfold activeSession
  refine Leads.bind (Leads.get (Q := fun _ => I) fun _ h => h) fun e => ?_
  split
  · exact Leads.pure fun _ h => h
  · exact Leads.throw fun _ h => h

omit [Scalar α] in
theorem takeSession_keeps : Keeps (Within P) (takeSession : Act α (DragSession α)) := by
  refine activeSession_keeps.bind fun s => ?_
  exact Leads.bind (Q := fun _ => Within P) (aside fun _ => rfl) fun _ => Leads.pure fun _ h => h

omit [Scalar α] in
/-- A question leaves the editor as it is, whether it has an answer or not. -/
theorem ask_tells {β : Type} {P : Editor α → Prop} (q : Workspace α → Answer α β) :
    Leads P (query q) (fun a e => P e ∧ q e.workspace = .ok a)
      (fun e => P e ∧ ∀ a, q e.workspace ≠ .ok a) := by
  intro e
  unfold query edit Edit.query
  cases hq : q e.workspace with
  | ok a => exact fun h => ⟨h, fun hp => ⟨hp, hq⟩⟩
  | error err => exact fun h => ⟨h, fun hp => ⟨hp, fun a ha => by rw [hq] at ha; cases ha⟩⟩

omit [Scalar α] in
theorem ask_learns {β : Type} {P : Editor α → Prop} (q : Workspace α → Answer α β) :
    Leads P (query q) (fun a e => P e ∧ q e.workspace = .ok a) P :=
  (ask_tells q).refused fun _ h => h.1

omit [Scalar α] in
theorem ask_keeps {β : Type} {P : Editor α → Prop} (q : Workspace α → Answer α β) : Keeps P (query q) :=
  (ask_learns q).post fun _ _ h => h.1

variable {F : Workspace α → Prop}

omit [Scalar α] in
theorem edit_leads {β : Type} {Q : β → Workspace α → Prop} {m : Edit α β} (h : Leads P m Q F) :
    Leads (Within P) (edit m) (fun a => Within (Q a)) (Within F) :=
  Leads.edit h

omit [Scalar α] in
theorem ask_leads {β : Type} {q : Workspace α → Answer α β}
    (h : ∀ ws e, P ws → q ws = .error e → F ws) :
    Leads (Within P) (query q) (fun a => Within fun ws => P ws ∧ q ws = .ok a) (Within F) :=
  Leads.edit (Leads.ask h)

omit [Scalar α] in
theorem connection_leads {c : ConnectionId} (h : ∀ ws, P ws → ws.connections[c]? = none → F ws) :
    Leads (Within P) (query (·.connection c))
      (fun x => Within fun ws => P ws ∧ ws.connections[c]? = some x) (Within F) :=
  Leads.edit (Leads.connection h)

end Steps

theorem edit_keeps (hJ : Stable strict J) {β : Type} {m : Edit α β} (h : Keeps (Steady J X) m) :
    Safe J X (edit m) :=
  edit_leads (h.refused fun _ h => h.anyway hJ)

theorem query_safe (hJ : Stable strict J) {β : Type} (q : Workspace α → Answer α β) :
    Safe J X (query q) :=
  (ask_keeps q).refused fun _ h => h.anyway hJ

/-! ### The ends of a gesture -/

variable {P : Workspace α → Prop}

omit [Scalar α] in
/-- To clear the visuals changes no more than the mark of the block. -/
theorem clearVisuals_within {block : BlockId} (hmark : Keeps P (Edit.markDragging block false)) :
    Keeps (Within P) (clearVisuals block) := by
  unfold clearVisuals
  have requests : Keeps (Within P) (do
      request (.textWidthCache false)
      request .stopDisconnectEffect
      request .hidePreview
      request (.dragLayer block false) : Act α Unit) :=
    (request_keeps _).bind fun _ => (request_keeps _).bind fun _ => (request_keeps _).bind fun _ =>
      request_keeps _
  refine look_keeps.bind fun e => Leads.optional (fun _ => ?_) requests
  exact (edit_leads hmark).tryCatch fun _ => Leads.pure fun _ h => h

omit [Scalar α] in
theorem clearVisuals_keeps (hP : Quiet P) (block : BlockId) :
    Keeps (Within P) (clearVisuals block) :=
  clearVisuals_within (Edit.markDragging_keeps hP block false)

omit [Scalar α] in
theorem group_keeps (hP : Quiet P) (shut : EventLog α → Bool) (on : Bool) :
    Keeps P (modify fun ws => { ws with
      events := if shut ws.events then ws.events.setGroup on else ws.events } : Edit α Unit) := by
  refine Leads.alter fun ws h => ?_
  cases shut ws.events with
  | true => exact hP.group h
  | false => exact h

omit [Scalar α] in
theorem finishGesture_keeps (hP : Quiet P) :
    Keeps (Within P) (finishGesture : Act α Unit) := by
  refine (request_keeps _).bind fun _ => (request_keeps _).bind fun _ => ?_
  exact edit_leads (group_keeps hP (fun _ => true) false)

omit [Scalar α] in
theorem closeGesture_keeps (hP : Quiet P) :
    Keeps (Within P) (closeGesture : Act α Unit) :=
  (finishGesture_keeps hP).bind fun _ => enter_keeps _

omit [Scalar α] in
theorem ensureGroup_keeps (hP : Quiet P) :
    Keeps (Within P) (ensureGroup : Act α Unit) :=
  edit_leads (group_keeps hP (fun log => log.group.isNone) true)

theorem abandon_keeps (hJ : Stable strict J) (block : BlockId) :
    Keeps (Within (Steady J Set.univ)) (abandon block : Act α Unit) := by
  refine takeSession_keeps.bind fun s => ?_
  refine Leads.bind (edit_leads (Edit.rollBack_keeps hJ s)) fun _ => ?_
  exact (clearVisuals_keeps hJ.calm.quiet block).bind fun _ => finishGesture_keeps hJ.calm.quiet

/-! ### Starting a drag -/

/-- The socket is taken, so a change of its template leaves no hole. -/
theorem makeReal_keeps (hJ : Stable strict J) (block : BlockId) (socket : Option ConnectionId) :
    Leads (Within fun ws => Steady J X ws ∧ ∀ c, socket = some c →
        ∃ y, ws.connections[c]? = some y ∧ y.target.isSome)
      (makeReal block socket) (fun _ => Within (Steady J X)) (Within (Steady J Set.univ)) := by
  unfold makeReal
  refine Leads.bind (Q := fun _ => Within (Steady J X)) ?_ fun _ =>
    edit_keeps hJ (Edit.setPlaceholder_keeps hJ block false)
  refine Leads.forM_option _ (fun c hc => ?_) fun _ _ h => h.1
  refine (connection_leads fun _ h _ => h.1.anyway hJ).bind fun y => ?_
  refine Leads.ite (fun _ => ?_) fun _ => Leads.pure fun _ h => h.1.1
  refine (ask_leads fun _ _ h _ => h.1.1.anyway hJ).bind fun template => ?_
  refine Leads.bind (Q := fun _ => Within (Steady J X))
    (edit_leads (Leads.updateConnection ?_ fun _ h _ => h.1.1.1.anyway hJ)) fun _ =>
      updateSession_keeps _
  rintro t t' x ⟨⟨⟨h, htaken⟩, -⟩, -⟩ hx ht hr
  refine (Steady.mk (h.sound.template ht hr) (hJ.template h.sound ht hr h.keeps)).fill hJ ?_
  obtain ⟨z, hz, htarget⟩ := htaken c hc
  refine full_of_target (y := { z with template := some template }) ?_ htarget
  rw [ht, hz]
  simp

omit [Scalar α] in
theorem plugBelow_keeps {I : Editor α → Prop} (b : Block α) : Keeps I (plugBelow b) := by
  unfold plugBelow
  split
  · exact (ask_keeps _).bind fun _ => Leads.pure fun _ h => h
  · exact Leads.pure fun _ h => h

/-- The socket that is found is taken by the block. -/
theorem valueSocket_leads (hJ : Stable strict J) (b : Block α) :
    Leads (Within (Steady J X)) (valueSocket b : Act α (Option ConnectionId))
      (fun socket => Within fun ws => Steady J X ws ∧ ∀ c, socket = some c →
        ∃ y, ws.connections[c]? = some y ∧ y.target.isSome)
      (Within (Steady J Set.univ)) := by
  unfold valueSocket
  split
  · refine (connection_leads fun _ h _ => h.anyway hJ).bind fun x => Leads.pure ?_
    rintro e ⟨h, hx⟩
    refine ⟨h, fun c hc => ?_⟩
    obtain ⟨y, hy, ht, -⟩ := h.sound.target hx hc
    exact ⟨y, hy, by rw [ht]; rfl⟩
  · refine Leads.pure fun e h => ⟨h, fun c hc => ?_⟩
    cases hc

theorem leaveCopy_keeps (hJ : Stable strict J) (block : BlockId) (socket : ConnectionId)
    (snapshot : Snapshot) : Safe J X (leaveCopy block socket snapshot) := by
  refine Leads.bind (edit_leads (Edit.restore_keeps (X := X) hJ snapshot)) fun copy => ?_
  refine Leads.bind (Q := fun _ => Within (Steady J X)) (updateSession_keeps _) fun _ => ?_
  refine Leads.bind (edit_leads (Edit.attach_keeps (X := X) hJ socket copy)) fun _ => ?_
  exact edit_keeps hJ (Edit.setCopyOnDrag_keeps hJ block _)

theorem detach_keeps (hJ : Stable strict J) (block : BlockId) (heal : Bool) :
    Safe J X (detach block heal) := by
  unfold detach
  refine (query_safe hJ _).bind fun keepsCopy => (query_safe hJ _).bind fun b => ?_
  refine Leads.bind (Q := fun _ => Within (Steady J X)) (updateSession_keeps _) fun _ => ?_
  refine (valueSocket_leads hJ b).bind fun socket => ?_
  refine Leads.optionally (c := b.placeholder = true) (Q := fun _ => Within (Steady J X))
    (fun _ => makeReal_keeps hJ block socket) (fun _ _ h => h.1) ?_
  refine (query_safe hJ _).bind fun parentSocket => ?_
  refine Leads.either (Q := fun _ => Within (Steady J X))
    (fun _ => (plugBelow_keeps b).refused fun _ h => h.anyway hJ)
    (fun _ => Leads.pure fun _ h => h) fun childPlug => ?_
  refine Leads.bind (Q := fun _ => Within (Steady J X)) (updateSession_keeps _) fun _ => ?_
  dsimp only
  split
  · exact (edit_leads (Edit.pullOut_keeps hJ block heal)).bind fun _ => request_keeps _
  · refine (query_safe hJ _).bind fun snapshot => ?_
    refine (edit_leads (Edit.pullOut_keeps hJ block heal)).bind fun _ => ?_
    exact (leaveCopy_keeps hJ block _ snapshot).bind fun _ => request_keeps _

theorem hasToDetach_keeps (hJ : Stable strict J) (block : BlockId) (heal : Bool) :
    Safe J X (hasToDetach block heal : Act α Bool) := by
  unfold hasToDetach
  refine (query_safe hJ _).bind fun parent => ?_
  refine Leads.ite (fun _ => Leads.pure fun _ h => h) fun _ => ?_
  refine Leads.ite (fun _ => ?_) fun _ => Leads.pure fun _ h => h
  exact (query_safe hJ _).bind fun _ => Leads.pure fun _ h => h

/-- A block that cannot be detached is put back before the refusal is passed on. -/
theorem loosen_keeps (hJ : Stable strict J) (s : DragSession α) (heal : Bool) :
    Safe J X (loosen s heal) := by
  unfold loosen
  refine (hasToDetach_keeps hJ s.block heal).bind fun needed => ?_
  refine Leads.ite (fun _ => Leads.pure fun _ h => h) fun _ => ?_
  refine Leads.bind (Q := fun _ => Within (Steady J X)) (setSession_keeps s) fun _ => ?_
  refine Leads.bind (Q := fun _ => Within (Steady J X))
    ((detach_keeps hJ s.block heal).tryCatch fun _ => ?_) fun _ => ?_
  · exact (abandon_keeps hJ s.block).bind fun _ => Leads.throw fun _ h => h
  · exact takeSession_keeps.refused fun _ h => h.anyway hJ

theorem requireIdle_keeps (hJ : Stable strict J) : Safe J X (requireIdle : Act α Unit) := by
  refine look_keeps.bind fun e => ?_
  cases e.session with
  | none => exact Leads.pure fun _ h => h
  | some s => exact Leads.throw fun _ h => h.anyway hJ

theorem takeUp_keeps (hJ : Stable strict J) (block : BlockId) (heal : Bool) :
    Safe J X (takeUp block heal : Act α BlockId) := by
  unfold takeUp
  refine (query_safe hJ _).bind fun found => (query_safe hJ _).bind fun on => ?_
  refine Leads.optional (fun _ => Leads.throw fun _ h => h.anyway hJ) ?_
  refine Leads.bind ((ensureGroup_keeps hJ.calm.quiet).refused fun _ h => h.anyway hJ) fun _ => ?_
  refine (query_safe hJ _).bind fun dragged => ?_
  refine Leads.bind (edit_keeps hJ (Edit.note_keeps hJ.calm.quiet rfl)) fun _ => ?_
  refine (query_safe hJ _).bind fun b => ?_
  refine (request_keeps _).bind fun _ => (request_keeps _).bind fun _ =>
    (request_keeps _).bind fun _ => ?_
  refine (loosen_keeps hJ _ heal).bind fun s => ?_
  refine Leads.bind (edit_keeps hJ (Edit.markDragging_keeps hJ.calm.quiet found.1 true)) fun _ => ?_
  refine (request_keeps _).bind fun _ => ?_
  refine Leads.bind (Q := fun _ => Within (Steady J X)) (setSession_keeps s) fun _ => ?_
  exact Leads.bind (Q := fun _ => Within (Steady J X)) (enter_keeps _) fun _ =>
    Leads.pure fun _ h => h

theorem pickUp_keeps (hJ : Stable strict J) (block : BlockId) (heal : Bool) :
    Safe J X (pickUp block heal : Act α BlockId) :=
  (requireIdle_keeps hJ).bind fun _ => takeUp_keeps hJ block heal

/-! ### Going on with a drag -/

end Act

/-- The drag has gone on: its block may be elsewhere, and it may hold another candidate. -/
def DragSession.Continues (s s' : DragSession α) : Prop :=
  s' = { s with current := s'.current, candidate := s'.candidate }

omit [Scalar α] in
theorem DragSession.continues_moved (current : Point α) (s : DragSession α) :
    s.Continues { s with current := current } :=
  rfl

omit [Scalar α] in
theorem DragSession.continues_holding (candidate : Option (Candidate α)) (s : DragSession α) :
    s.Continues { s with candidate := candidate } :=
  rfl

namespace Act

open Workspace

variable {P : Workspace α → Prop}

section Steps

variable {I : Editor α → Prop}

theorem requireFinite_rounds (location : Point α) :
    Keeps I (edit (Edit.requireFinite location) : Act α Unit) := by
  intro e
  unfold edit Edit.requireFinite
  by_cases hp : location.isFinite = true
  · rw [if_pos hp]
    exact fun h => ⟨h, id⟩
  · rw [if_neg hp]
    exact fun h => ⟨h, id⟩

theorem choose_rounds (held : Option (Candidate α)) (found : Candidate α) (delta : Point α) :
    Keeps I (choose held found delta) := by
  unfold choose
  split
  · exact Leads.pure fun _ h => h
  · refine (ask_keeps _).bind fun distance => ?_
    refine Leads.bind (Leads.get (Q := fun _ => I) fun _ h => h) fun e => ?_
    exact Leads.ite (fun _ => Leads.pure fun _ h => h) fun _ => Leads.pure fun _ h => h

variable (hrequest : ∀ r, Keeps I (request r : Act α Unit))

include hrequest

omit [Scalar α] in
theorem preview_rounds (block : BlockId) (c : Candidate α) : Keeps I (preview block c) := by
  unfold preview
  refine (ask_keeps _).bind fun replaced => ?_
  split
  · exact hrequest _
  · exact hrequest _

/-- What requests keep and a drag that goes on, its steps keep. -/
theorem dragTo_rounds (hsession : ∀ f : DragSession α → DragSession α,
      (∀ s : DragSession α, s.Continues (f s)) → Keeps I (updateSession f)) (location : Point α) :
    Keeps I (dragTo location) := by
  unfold dragTo
  refine activeSession_keeps.bind fun s => (requireFinite_rounds location).bind fun _ => ?_
  refine (hsession _ (DragSession.continues_moved _)).bind fun _ => (hrequest _).bind fun _ => ?_
  refine (ask_keeps _).bind fun found => ?_
  cases found with
  | none =>
    refine (hsession _ (DragSession.continues_holding none)).bind fun _ => ?_
    exact Leads.optional (fun _ => hrequest _) (Leads.pure fun _ h => h)
  | some found =>
    refine (choose_rounds _ found _).bind fun chosen => ?_
    refine (hsession _ (DragSession.continues_holding (some chosen))).bind fun _ => ?_
    exact Leads.optional (fun _ => preview_rounds hrequest s.block chosen) (Leads.pure fun _ h => h)

end Steps

/-- To go on with a drag does nothing to the workspace. -/
theorem dragTo_still {P : Workspace α → Prop} (location : Point α) :
    Keeps (Within P) (dragTo location) :=
  dragTo_rounds (fun r => request_keeps r) (fun f _ => updateSession_keeps f) location

theorem dragTo_keeps (hJ : Stable strict J) (location : Point α) :
    Safe J X (dragTo location) :=
  (dragTo_still location).refused fun _ h => h.anyway hJ

/-! ### Ending a drag -/

theorem commit_keeps (hJ : Stable strict J) (block : BlockId) (c : Candidate α) :
    Safe J X (commit block c) := by
  unfold commit
  refine Leads.bind (edit_leads (Edit.connect_keeps (X := X) hJ c.own c.neighbour)) fun _ => ?_
  refine (query_safe hJ _).bind fun x => (query_safe hJ _).bind fun y => ?_
  refine (query_safe hJ _).bind fun root => edit_leads (Leads.alter fun ws h => ?_)
  exact ⟨⟨h.sound.wired, h.sound.blockIds, h.sound.connectionIds, h.sound.registry⟩,
    hJ.side h.keeps⟩

theorem settle_keeps (hJ : Stable strict J) (s : DragSession α) (location : Point α) :
    Safe J X (settle s location) := by
  unfold settle
  refine Leads.bind (edit_keeps hJ (Edit.moveTo_keeps hJ.calm s.block location "drag")) fun _ => ?_
  have rest : ∀ outcome, Safe J X (do
      let _ ← edit (Edit.moveToGrid s.block)
      return outcome : Act α (DragOutcome α)) := fun outcome =>
    Leads.bind (edit_keeps hJ (Edit.moveToGrid_keeps hJ.calm s.block)) fun _ => Leads.pure fun _ h => h
  cases s.candidate with
  | none =>
    refine (request_keeps _).bind fun _ => ?_
    exact Leads.bind (Q := fun _ => Within (Steady J X)) (Leads.pure fun _ h => h) rest
  | some c =>
    refine (commit_keeps hJ s.block c).bind fun _ => ?_
    exact Leads.bind (Q := fun _ => Within (Steady J X)) (Leads.pure fun _ h => h) rest

omit [Scalar α] in
theorem draggedWith_keeps {P : Workspace α → Prop} {E : Editor α → Prop} (block : BlockId) :
    Leads (Within P) (draggedWith block) (fun _ => Within P) E := by
  unfold draggedWith
  refine look_keeps.bind fun e => ?_
  split
  · exact Leads.pure fun _ h => h
  · exact Leads.pure fun _ h => h

omit [Scalar α] in
theorem fireDragEnd_keeps (hP : Quiet P) (block : BlockId) :
    Keeps (Within P) (fireDragEnd block) :=
  (draggedWith_keeps block).bind fun _ => edit_leads (Edit.note_keeps hP rfl)

omit [Scalar α] in
theorem followedBy_leads {P E E' : Editor α → Prop} {β : Type} {Q R : β → Editor α → Prop}
    {step : Act α β} {after : Act α Unit} (h : Leads P step Q E)
    (hok : ∀ a, Leads (Q a) after (fun _ => R a) E') (herr : Leads E after (fun _ => E') E') :
    Leads P (followedBy step after) R E' := by
  unfold followedBy
  refine Leads.bind (Q := Q) (h.tryCatch fun _ => ?_) fun a => ?_
  · exact herr.bind fun _ => Leads.throw fun _ h => h
  · exact (hok a).bind fun _ => Leads.pure fun _ h => h

omit [Scalar α] in
theorem followedBy_keeps {P Q : Editor α → Prop} {β : Type} {step : Act α β}
    {after : Act α Unit} (h : Leads P step (fun _ => P) Q) (hP : Leads P after (fun _ => P) Q)
    (hQ : Keeps Q after) : Leads P (followedBy step after) (fun _ => P) Q :=
  followedBy_leads h (fun _ => hP) hQ

theorem dropAt_keeps (hJ : Stable strict J) (location : Point α) :
    Safe J X (dropAt location : Act α (DragOutcome α)) := by
  unfold dropAt
  refine Leads.bind (takeSession_keeps.refused fun _ h => h.anyway hJ) fun s => ?_
  refine Leads.bind (enter_keeps _) fun _ => ?_
  refine Leads.bind ((fireDragEnd_keeps (hJ.calm (X := X)).quiet s.block).refused fun _ h => h.anyway hJ)
    fun _ => ?_
  refine Leads.bind ((clearVisuals_keeps (hJ.calm (X := X)).quiet s.block).refused fun _ h => h.anyway hJ)
    fun _ => ?_
  exact followedBy_keeps (settle_keeps hJ s _)
    ((closeGesture_keeps hJ.calm.quiet).refused fun _ h => h.anyway hJ) (closeGesture_keeps hJ.calm.quiet)

omit [Scalar α] in
theorem closeReverted_keeps (hP : Quiet P) (block : BlockId) :
    Keeps (Within P) (closeReverted block) := by
  unfold closeReverted
  refine look_keeps.bind fun e => Leads.optional (fun _ => fireDragEnd_keeps hP block) ?_
  exact (clearVisuals_keeps hP block).bind fun _ => closeGesture_keeps hP

theorem cancelDrag_keeps (hJ : Stable strict J) : Safe J X (cancelDrag : Act α Unit) := by
  unfold cancelDrag
  refine Leads.bind (takeSession_keeps.refused fun _ h => h.anyway hJ) fun s => ?_
  refine Leads.bind (enter_keeps _) fun _ => ?_
  exact followedBy_keeps (edit_leads (Edit.putBack_keeps hJ s))
    ((closeReverted_keeps hJ.calm.quiet s.block).refused fun _ h => h.anyway hJ)
    (closeReverted_keeps hJ.calm.quiet s.block)

/-! ### Deferred tasks -/

omit [Scalar α] in
theorem updateTasks_keeps (hP : Quiet P) (f : TaskQueue → TaskQueue) :
    Keeps (Within P) (updateTasks f : Act α Unit) :=
  edit_leads (Leads.alter fun _ h => hP.tasks h)

section Tasks

variable {I : Editor α → Prop} (hrequest : ∀ block, Keeps I (request (.connectionEffect block)) ∧
    Keeps I (request (.bringToFront block)))
  (htasks : ∀ f, Keeps I (updateTasks f : Act α Unit))

include hrequest htasks

omit [Scalar α] in
theorem runTask_rounds (task : DeferredTask) : Keeps I (runTask task : Act α Bool) := by
  unfold runTask
  refine Leads.bind (Leads.get (Q := fun _ => I) fun _ h => h) fun e => ?_
  cases task with
  | connectionFeedback inferior root =>
    refine Leads.ite (fun _ => Leads.pure fun _ h => h) fun _ => (hrequest _).1.bind fun _ => ?_
    exact (htasks _).bind fun _ => Leads.pure fun _ h => h
  | bringToFront block =>
    refine Leads.ite (fun _ => Leads.pure fun _ h => h) fun _ => (hrequest _).2.bind fun _ => ?_
    exact Leads.pure fun _ h => h

omit [Scalar α] in
/-- What the requests of tasks and changes of the queue keep is kept by tasks. -/
theorem runTasks_rounds (tasks : List DeferredTask) : Keeps I (runTasks tasks : Act α Nat) := by
  refine Leads.bind (Q := fun _ => I) ?_ fun _ => Leads.pure fun _ h => h
  induction tasks with
  | nil => exact Leads.pure fun _ h => h
  | cons task rest ih =>
    rw [List.mapM_cons]
    exact (runTask_rounds hrequest htasks task).bind fun _ => ih.bind fun _ =>
      Leads.pure fun _ h => h

omit [Scalar α] in
theorem runAfterLayout_rounds : Keeps I (runAfterLayout : Act α Nat) :=
  Leads.bind (Leads.get (Q := fun _ => I) fun _ h => h) fun _ => (htasks _).bind fun _ =>
    runTasks_rounds hrequest htasks _

omit [Scalar α] in
theorem runNextTurn_rounds : Keeps I (runNextTurn : Act α Nat) :=
  Leads.bind (Leads.get (Q := fun _ => I) fun _ h => h) fun _ => (htasks _).bind fun _ =>
    runTasks_rounds hrequest htasks _

end Tasks

omit [Scalar α] in
theorem runAfterLayout_keeps (hP : Quiet P) : Keeps (Within P) (runAfterLayout : Act α Nat) :=
  runAfterLayout_rounds (fun _ => ⟨request_keeps _, request_keeps _⟩) (updateTasks_keeps hP)

omit [Scalar α] in
theorem runNextTurn_keeps (hP : Quiet P) : Keeps (Within P) (runNextTurn : Act α Nat) :=
  runNextTurn_rounds (fun _ => ⟨request_keeps _, request_keeps _⟩) (updateTasks_keeps hP)

end Act

end BlockEditor
