import BlockEditor.Proofs.Holding
import BlockEditor.Proofs.Stages

/-!
# The preview on the canvas

The host is told of a candidate only when another pair of ends comes to be held. What was asked of
it last is still what is held, whatever happens in between, and however a step of the drag or
an end of the gesture goes.
-/

namespace BlockEditor

variable {α : Type}

/-- The two ends that a drop would link. -/
def Candidate.ends (c : Candidate α) : ConnectionId × ConnectionId :=
  (c.own, c.neighbour)

/-- The ends of the candidate that is held. -/
def Editor.pair (e : Editor α) : Option (ConnectionId × ConnectionId) :=
  e.candidate.map Candidate.ends

theorem Candidate.any_same (held : Option (Candidate α)) (c : Candidate α) :
    held.any (fun d => d.own = c.own && d.neighbour = c.neighbour) ↔
      held.map Candidate.ends = some c.ends := by
  cases held with
  | none => simp
  | some d => simp [Candidate.ends]

namespace HostRequest

/-- What is to be seen of a preview after a request, if the request says so. -/
def preview? : HostRequest α → Option (Option (ConnectionId × ConnectionId))
  | .previewConnection own neighbour | .previewReplacement own neighbour _ =>
    some (some (own, neighbour))
  | .hidePreview => some none
  | _ => none

/-- What is to be seen of a preview after some requests: what the last one of them says that says
anything. -/
def shown (requests : List (HostRequest α)) : Option (ConnectionId × ConnectionId) :=
  (requests.filterMap (·.preview?)).getLast?.join

variable {rs rs' : List (HostRequest α)} {r : HostRequest α}
  {p : Option (ConnectionId × ConnectionId)}

theorem shown_append_of_none (h : rs'.filterMap (·.preview?) = []) :
    shown (rs ++ rs') = shown rs := by
  rw [shown, List.filterMap_append, h, List.append_nil, shown]

theorem shown_append_of_one (h : rs'.filterMap (·.preview?) = [p]) : shown (rs ++ rs') = p := by
  rw [shown, List.filterMap_append, h, List.getLast?_concat, Option.join_some]

end HostRequest

theorem Candidate.preview?_preview (c : Candidate α) (replaced : Option BlockId) :
    (c.preview replaced).preview? = some (some c.ends) := by
  cases replaced <;> rfl

open HostRequest

/-- What the host was asked to show since `before`, and the ends that are held. -/
def Displays (before : List (HostRequest α)) (p h : Option (ConnectionId × ConnectionId))
    (e : Editor α) : Prop :=
  (∃ since, e.requests = before ++ since ∧ shown since = p) ∧ e.pair = h

/-- What the host was asked to show since `before` is what is held. -/
def Mirrors (before : List (HostRequest α)) (e : Editor α) : Prop :=
  ∃ p, Displays before p p e

variable {before : List (HostRequest α)} {p h : Option (ConnectionId × ConnectionId)}
  {e t : Editor α}

/-- A step of a drag gives one command on the preview if another pair is held after it, and else
none. -/
def Ticks (e t : Editor α) : Prop :=
  ∃ asked, t.requests = e.requests ++ asked ∧
    asked.filterMap (·.preview?) = if t.pair = e.pair then [] else [t.pair]

theorem Ticks.mirrors (h : Ticks e t) (hm : Mirrors before e) : Mirrors before t := by
  obtain ⟨asked, hrequests, hasked⟩ := h
  obtain ⟨p, ⟨since, hsince, hshown⟩, hpair⟩ := hm
  refine ⟨t.pair, ⟨since ++ asked, by rw [hrequests, hsince, List.append_assoc], ?_⟩, rfl⟩
  split at hasked
  · next hsame => rw [shown_append_of_none hasked, hshown, hsame, hpair]
  · exact shown_append_of_one hasked

theorem Ticks.refl (e : Editor α) : Ticks e e :=
  ⟨[], (List.append_nil _).symm, by rw [if_pos rfl, List.filterMap_nil]⟩

/-- The editor when its drag has become `d` and some more was asked for. -/
def Editor.going (e : Editor α) (d : DragSession α) (asked : List (HostRequest α)) : Editor α :=
  { e with session := some d, requests := e.requests ++ asked }

theorem ticks_going {s d : DragSession α} {asked : List (HostRequest α)}
    (hs : e.session = some s) (h : asked.filterMap (·.preview?) =
      if d.candidate.map Candidate.ends = s.candidate.map Candidate.ends then []
      else [d.candidate.map Candidate.ends]) : Ticks e (e.going d asked) := by
  refine ⟨asked, rfl, ?_⟩
  rw [h, Editor.pair, Editor.pair, Editor.candidate, Editor.candidate, hs]
  rfl

namespace Act

variable {β : Type} {F : Editor α → Prop}

/-! ### Single steps -/

section Steps

variable {P E : Workspace α → Prop} {Q : β → Workspace α → Prop}

theorem edit_displays {m : Edit α β} (base : Leads P m Q E) :
    Keeps (Displays before p h) (edit m) := by
  refine Tells.of_result (Leads.edit base) fun e he => ?_
  unfold edit
  cases m e.workspace with
  | ok a ws => exact he
  | error refusal ws => exact he

theorem edit_displays_ok {m : Edit α β} (base : Leads (fun _ => True) m Q fun _ => False) :
    Leads (Displays before p h) (edit m) (fun _ => Displays before p h) F :=
  Leads.weaken ((edit_displays base).and (Leads.edit base)) (fun _ h => ⟨h, trivial⟩)
    (fun _ _ h => h.1) fun _ h => h.2.elim

theorem fire_displays (event : Event α) :
    Leads (Displays before p h) (edit (Edit.fire event)) (fun _ => Displays before p h) F :=
  edit_displays_ok (Leads.alter (Q := fun _ _ => True) fun _ _ => trivial)

theorem request_displays {r : HostRequest α} (hr : r.preview? = none) :
    Leads (Displays before p h) (request r) (fun _ => Displays before p h) F := by
  refine Leads.modify (fun _ he => he) fun e he => ?_
  obtain ⟨⟨since, hrequests, hshown⟩, hpair⟩ := he
  refine ⟨⟨since ++ [r], by rw [hrequests, List.append_assoc], ?_⟩, hpair⟩
  rw [shown_append_of_none (by simp [hr]), hshown]

theorem hidePreview_displays :
    Leads (Displays before p h) (request .hidePreview) (fun _ => Displays before none h) F := by
  refine Leads.modify (fun _ he => he) fun e he => ?_
  obtain ⟨⟨since, hrequests, -⟩, hpair⟩ := he
  exact ⟨⟨since ++ [.hidePreview], by rw [hrequests, List.append_assoc],
    shown_append_of_one rfl⟩, hpair⟩

theorem updateSession_displays {f : DragSession α → DragSession α}
    (hf : ∀ s, (f s).candidate = s.candidate) :
    Leads (Displays before p h) (updateSession f) (fun _ => Displays before p h) F := by
  refine Leads.modify (fun _ he => he) fun e he => ⟨he.1, ?_⟩
  rw [← he.2, Editor.pair, Editor.pair, Editor.candidate, Editor.candidate, Option.bind_map]
  exact congrArg (fun g => (e.session.bind g).map Candidate.ends) (funext hf)

theorem setSession_displays (s : DragSession α) :
    Leads (fun e => Displays before p h e ∧ s.candidate = none) (setSession s)
      (fun _ => Displays before p none) F :=
  Leads.modify (fun _ he => he) fun _ he => ⟨he.1.1, congrArg (Option.map Candidate.ends) he.2⟩

theorem enter_displays (phase : DragPhase) :
    Leads (Displays before p h) (enter phase) (fun _ => Displays before p h) F :=
  Leads.modify (fun _ he => he) fun _ he => he

theorem look_displays : Leads (Displays before p h) (get : Act α (Editor α))
    (fun _ => Displays before p h) F :=
  Leads.get fun _ he => he

/-- The session is handed out with what is held, and then nothing is held. -/
theorem takeSession_displays : Leads (Displays before p h) (takeSession (α := α))
    (fun s e => Displays before p none e ∧ s.candidate.map Candidate.ends = h)
    (Displays before p h) := by
  refine Tells.of_result (takeSession_keeps (P := fun _ => True)) ?_
  rintro ⟨ws, session, requests, now⟩ he
  cases session with
  | none => exact he
  | some s => exact ⟨⟨he.1, rfl⟩, he.2⟩

theorem updateTasks_displays (f : TaskQueue → TaskQueue) :
    Leads (Displays before p h) (updateTasks f : Act α Unit) (fun _ => Displays before p h) F :=
  edit_displays_ok (Leads.alter (Q := fun _ _ => True) fun _ _ => trivial)

end Steps

/-! ### A step of a drag -/

section Tick

variable [Scalar α]

/-- A candidate that was found can be shown: its ends are there, and so is the dragged block. -/
theorem displaced_found {ws : Workspace α} (hs : ws.Sound) {x : BlockId} {holding : Bool}
    {delta : Point α} {found : Candidate α}
    (hfound : ws.bestCandidate x holding delta = .ok (some found)) :
    ∃ replaced, ws.displaced x found = .ok replaced := by
  obtain ⟨b, -, -, y, z, hb, -, -, -, hy, hz, -⟩ := Workspace.bestCandidate_eq_some hfound
  exact hs.displaced_ok ⟨b, hb⟩ hy hz

omit [Scalar α] in
theorem updateSession_going {d : DragSession α} {asked : List (HostRequest α)}
    (f : DragSession α → DragSession α) :
    Leads (· = e.going d asked) (updateSession f) (fun _ t => t = e.going (f d) asked) F :=
  Leads.modify (fun _ ht => ht) fun _ ht => ht ▸ rfl

omit [Scalar α] in
theorem request_going {d : DragSession α} {asked : List (HostRequest α)} (r : HostRequest α) :
    Leads (· = e.going d asked) (request r) (fun _ t => t = e.going d (asked ++ [r])) F := by
  refine Leads.modify (fun _ ht => ht) fun t ht => ?_
  rw [ht, Editor.going, Editor.going, List.append_assoc]

/-- The candidate that is chosen was found, or has the ends of the one that was held. -/
theorem choose_going {d : DragSession α} {asked : List (HostRequest α)}
    (held : Option (Candidate α)) (found : Candidate α) (delta : Point α) :
    Leads (· = e.going d asked) (choose held found delta)
      (fun chosen t => t = e.going d asked ∧
        (chosen = found ∨ held.map Candidate.ends = some chosen.ends))
      (· = e.going d asked) := by
  have stays := choose_rounds (I := (· = e.going d asked)) held found delta
  have chooses : Leads (fun _ => True) (choose held found delta) (fun chosen _ =>
      chosen = found ∨ held.map Candidate.ends = some chosen.ends) fun _ => True := by
    refine Tells.of_result stays fun t _ => ?_
    cases hm : choose held found delta t with
    | ok chosen u =>
      obtain ⟨-, hchosen⟩ := choose_ok hm
      refine hchosen.imp_right ?_
      rintro ⟨c, rfl, hown, hneighbour⟩
      exact congrArg some (Prod.ext hown.symm hneighbour.symm)
    | error err u => trivial
  exact (stays.and chooses).weaken (fun _ ht => ⟨ht, trivial⟩) (fun _ _ ht => ht) fun _ ht => ht.1

omit [Scalar α] in
/-- A pair whose replaced block can be told is shown. -/
theorem preview_going {d : DragSession α} {asked : List (HostRequest α)} (x : BlockId)
    (chosen : Candidate α) :
    Leads (fun t => t = e.going d asked ∧ ∃ replaced,
        e.workspace.displaced x chosen = .ok replaced) (preview x chosen)
      (fun _ t => ∃ replaced, t = e.going d (asked ++ [chosen.preview replaced])) F := by
  unfold preview
  refine Leads.bind (ask_answers ?_) fun replaced => ?_
  · rintro _ ⟨rfl, h⟩
    exact h
  cases replaced with
  | none => exact ((request_going _).pre fun _ ht => ht.1).post fun _ _ ht => ⟨none, ht⟩
  | some a => exact ((request_going _).pre fun _ ht => ht.1).post fun _ _ ht => ⟨some a, ht⟩

/-- A pair that was not held before is one that was found, and can be shown. -/
theorem choose_shown (hs : e.workspace.Sound) {d : DragSession α} {asked : List (HostRequest α)}
    {x : BlockId} {holding : Bool} {delta : Point α} (held : Option (Candidate α))
    (found : Candidate α) :
    Leads (fun t => t = e.going d asked ∧
        t.workspace.bestCandidate x holding delta = .ok (some found)) (choose held found delta)
      (fun chosen t => t = e.going d asked ∧ (held.map Candidate.ends = some chosen.ends ∨
        ∃ replaced, e.workspace.displaced x chosen = .ok replaced)) (· = e.going d asked) := by
  refine Leads.weaken ((choose_going held found _).frame (c := ∃ replaced,
    e.workspace.displaced x found = .ok replaced)) ?_ ?_ fun t ht => ht.1
  · rintro _ ⟨rfl, hbest⟩
    exact ⟨rfl, displaced_found hs hbest⟩
  · rintro chosen _ ⟨⟨rfl, hchosen⟩, hfound⟩
    refine ⟨rfl, hchosen.symm.imp_right ?_⟩
    rintro rfl
    exact hfound

/-- The host is told of what a step of a drag makes of the candidate. -/
theorem dragTo_ticks (hs : e.workspace.Sound) (location : Point α) :
    Leads (· = e) (dragTo location) (fun _ => Ticks e) (Ticks e) := by
  have base := dragTo_still (P := fun _ : Workspace α => True) location
  cases hsession : e.session with
  | none =>
    obtain ⟨ws, _, requests, phase⟩ := e
    cases hsession
    refine Tells.of_result base fun t ht => ?_
    rw [ht]
    exact Ticks.refl _
  | some s =>
    have hactive : activeSession e = .ok s e := by
      obtain ⟨ws, _, requests, phase⟩ := e
      cases hsession
      rfl
    refine Tells.resume base (bind_eq hactive) ?_
    refine Leads.bind (Q := fun _ t => t = e) ((requireFinite_rounds location).refused ?_)
      fun _ => ?_
    · rintro _ rfl
      exact Ticks.refl _
    dsimp only
    set place := location + s.offset
    set d : DragSession α := { s with current := place }
    refine Leads.bind (Q := fun _ t => t = e.going d []) ?_ fun _ => ?_
    · refine Leads.modify (fun _ ht => ht) ?_
      rintro _ rfl
      rw [Editor.going, List.append_nil, hsession, Option.map_some]
    refine (request_going _).bind fun _ => ?_
    set asked : List (HostRequest α) := [] ++ [.moveDuringDrag s.block place]
    have still : ∀ t, t = e.going d asked → Ticks e t := by
      rintro _ rfl
      exact ticks_going hsession (by rw [if_pos rfl]; rfl)
    refine Leads.bind (Leads.refused (ask_tells _) fun t ht => still t ht.1) fun found => ?_
    cases found with
    | none =>
      refine Leads.bind ((updateSession_going _).pre fun _ ht => ht.1) fun _ => ?_
      refine Leads.optionally (Q := fun _ => Ticks e) (fun hheld => ?_) (fun hnone t ht => ?_)
        (Leads.pure fun _ ht => ht)
      · refine (request_going _).post fun _ t ht => ?_
        rw [ht]
        refine ticks_going hsession ?_
        obtain ⟨c, hc⟩ := Option.isSome_iff_exists.mp hheld
        rw [hc]
        rfl
      · rw [ht]
        refine ticks_going hsession ?_
        rw [Bool.not_eq_true, Option.isSome_eq_false_iff, Option.isNone_iff_eq_none] at hnone
        rw [hnone]
        rfl
    | some found =>
      refine Leads.bind ((choose_shown hs s.candidate found).refused still) fun chosen => ?_
      refine Leads.bind (Q := fun _ t => t = e.going { d with candidate := some chosen } asked ∧
        (s.candidate.map Candidate.ends = some chosen.ends ∨ ∃ replaced,
          e.workspace.displaced s.block chosen = .ok replaced))
        ((updateSession_going (F := fun _ => False) _).frame.refused fun _ h => h.1.elim)
        fun _ => ?_
      have hsame := Candidate.any_same s.candidate chosen
      refine Leads.optionally (Q := fun _ => Ticks e) (fun hdiff => ?_) (fun heq t ht => ?_)
        (Leads.pure fun _ ht => ht)
      · rw [Bool.not_eq_true', ← Bool.not_eq_true, hsame] at hdiff
        refine ((preview_going _ chosen).pre fun t ht => ⟨ht.1, ht.2.resolve_left hdiff⟩).post
          fun _ t ht => ?_
        obtain ⟨replaced, rfl⟩ := ht
        have hmove : (HostRequest.moveDuringDrag s.block place).preview? = none := rfl
        refine ticks_going hsession ?_
        rw [if_neg (fun h => hdiff h.symm)]
        simp [asked, hmove, chosen.preview?_preview replaced]
      · rw [Bool.not_eq_true', Bool.not_eq_false, hsame] at heq
        rw [ht.1]
        exact ticks_going hsession (by rw [heq]; exact (if_pos rfl).symm)

end Tick

/-! ### Letting go -/

section Ends

variable [Scalar α]

theorem clearVisuals_displays (x : BlockId) :
    Leads (Displays before p h) (clearVisuals x) (fun _ => Displays before none h) F := by
  have asked : Leads (Displays before p h) (do
      request (.textWidthCache false)
      request .stopDisconnectEffect
      request .hidePreview
      request (.dragLayer x false) : Act α Unit) (fun _ => Displays before none h) F :=
    (request_displays rfl).bind fun _ => (request_displays rfl).bind fun _ =>
      hidePreview_displays.bind fun _ => request_displays rfl
  refine look_displays.bind fun e => Leads.optional (fun _ => ?_) asked
  refine Leads.tryCatch (E := Displays before p h) ?_ fun _ => Leads.pure fun _ he => he
  exact edit_displays (Edit.markDragging_keeps Editor.quiet_true x false)

omit [Scalar α] in
theorem finishGesture_displays :
    Leads (Displays before p h) (finishGesture (α := α)) (fun _ => Displays before p h) F :=
  (request_displays rfl).bind fun _ => (request_displays rfl).bind fun _ =>
    Leads.modify (fun _ he => he) fun _ he => he

omit [Scalar α] in
theorem closeGesture_displays :
    Leads (Displays before p h) (closeGesture (α := α)) (fun _ => Displays before p h) F :=
  finishGesture_displays.bind fun _ => enter_displays _

omit [Scalar α] in
theorem fireDragEnd_displays (x : BlockId) :
    Leads (Displays before p h) (fireDragEnd (α := α) x) (fun _ => Displays before p h) F := by
  refine Leads.bind (Q := fun _ => Displays before p h) ?_ fun _ => fire_displays _
  unfold draggedWith
  refine look_displays.bind fun e => ?_
  split
  · exact Leads.pure fun _ he => he
  · exact Leads.pure fun _ he => he

theorem commit_displays (x : BlockId) (c : Candidate α) :
    Keeps (Displays before p h) (commit x c) := by
  unfold commit
  refine Leads.bind (edit_displays (Edit.connect_keeps (X := ∅) (Editor.stable_true (α := α))
    c.own c.neighbour)) fun _ => ?_
  refine (ask_keeps _).bind fun y => (ask_keeps _).bind fun z => (ask_keeps _).bind fun root => ?_
  exact updateTasks_displays (·.pushAfterLayout (.connectionFeedback z.block root))

theorem settle_displays (s : DragSession α) (location : Point α) :
    Keeps (Displays before p h) (settle s location) := by
  have calm := Editor.calm_true (α := α)
  unfold settle
  refine Leads.bind (edit_displays (Edit.moveTo_keeps calm s.block location "drag")) fun _ => ?_
  have rest : ∀ outcome, Keeps (Displays before p h) (do
      let _ ← edit (Edit.moveToGrid s.block)
      return outcome : Act α (DragOutcome α)) := fun outcome =>
    Leads.bind (edit_displays (Edit.moveToGrid_keeps calm s.block)) fun _ =>
      Leads.pure fun _ he => he
  cases s.candidate with
  | none => exact (request_displays rfl).bind fun _ => (Leads.pure fun _ he => he).bind rest
  | some c => exact (commit_displays s.block c).bind fun _ => (Leads.pure fun _ he => he).bind rest

/-- A drop hides the preview of what was held. -/
theorem dropAt_mirrors (location : Point α) : Keeps (Mirrors before) (dropAt location) := by
  refine Leads.choose fun h => ?_
  unfold dropAt
  refine Leads.bind (Leads.refused takeSession_displays fun _ he => ⟨h, he⟩) fun s => ?_
  refine Leads.pre ?_ fun _ he => he.1
  refine (enter_displays _).bind fun _ => (fireDragEnd_displays _).bind fun _ => ?_
  refine (clearVisuals_displays _).bind fun _ => Leads.weaken (followedBy_leads
    (settle_displays s _) (fun _ => closeGesture_displays) closeGesture_displays) (fun _ he => he)
    (fun _ _ he => ⟨none, he⟩) fun _ he => ⟨none, he⟩

theorem closeReverted_displays (x : BlockId) :
    Leads (Displays before p h) (closeReverted x) (fun _ => Displays before none h) F := by
  have rest : Leads (Displays before p h) (do
      clearVisuals x
      closeGesture : Act α Unit) (fun _ => Displays before none h) F :=
    (clearVisuals_displays x).bind fun _ => closeGesture_displays
  exact look_displays.bind fun e => Leads.optional (fun _ => fireDragEnd_displays x) rest

/-- So does a drag that is given up. -/
theorem cancelDrag_mirrors : Keeps (Mirrors before) (cancelDrag (α := α)) := by
  refine Leads.choose fun h => ?_
  unfold cancelDrag
  refine Leads.bind (Leads.refused takeSession_displays fun _ he => ⟨h, he⟩) fun s => ?_
  refine Leads.pre ?_ fun _ he => he.1
  refine (enter_displays _).bind fun _ => Leads.weaken (followedBy_leads
    (edit_displays (Edit.putBack_keeps (X := ∅) (Editor.stable_true (α := α)) s))
    (fun _ => closeReverted_displays s.block) (closeReverted_displays s.block)) (fun _ he => he)
    (fun _ _ he => ⟨none, he⟩) fun _ he => ⟨none, he⟩

/-! ### Starting -/

theorem makeReal_displays (x : BlockId) (socket : Option ConnectionId) :
    Keeps (Displays before p h) (makeReal (α := α) x socket) := by
  unfold makeReal
  have hJ := Editor.stable_true (α := α)
  refine Leads.bind (Q := fun _ => Displays before p h) ?_ fun _ =>
    edit_displays (Edit.setPlaceholder_keeps (X := ∅) hJ x false)
  refine Leads.forM_option socket (fun c _ => ?_) fun _ _ he => he
  refine (ask_keeps _).bind fun y => Leads.ite (fun _ => ?_) fun _ => Leads.pure fun _ he => he
  refine (ask_keeps _).bind fun template => ?_
  have told := Leads.updateConnection (P := fun _ : Workspace α => True) (Q := fun _ _ => True)
    (E := fun _ => True) (c := c) (f := fun y => { y with template := some template })
    (fun _ _ _ _ _ _ _ => trivial) fun _ _ _ => trivial
  exact Leads.bind (edit_displays told) fun _ => updateSession_displays fun _ => rfl

theorem leaveCopy_displays (x : BlockId) (socket : ConnectionId) (snapshot : Snapshot) :
    Keeps (Displays before p h) (leaveCopy (α := α) x socket snapshot) := by
  have hJ := Editor.stable_true (α := α)
  refine Leads.bind (edit_displays (Edit.restore_keeps (X := ∅) hJ snapshot)) fun copy => ?_
  refine Leads.bind (updateSession_displays fun _ => rfl) fun _ => ?_
  refine Leads.bind (edit_displays (Edit.attach_keeps (X := ∅) hJ socket copy)) fun _ => ?_
  exact edit_displays (Edit.setCopyOnDrag_keeps (X := ∅) hJ x _)

theorem detach_displays (x : BlockId) (heal : Bool) :
    Keeps (Displays before p h) (detach (α := α) x heal) := by
  have pulled : Keeps (Displays before p h) (edit (Edit.pullOut (α := α) x heal)) :=
    edit_displays (Edit.pullOut_keeps (X := ∅) (Editor.stable_true (α := α)) x heal)
  unfold detach
  refine (ask_keeps _).bind fun keepsCopy => (ask_keeps _).bind fun b => ?_
  refine Leads.bind (updateSession_displays fun _ => rfl) fun _ => ?_
  refine Leads.bind (Q := fun _ => Displays before p h) ?_ fun socket => ?_
  · unfold valueSocket
    split
    · exact (ask_keeps _).bind fun _ => Leads.pure fun _ he => he
    · exact Leads.pure fun _ he => he
  refine Leads.optional (c := b.placeholder = true) (fun _ => makeReal_displays x socket) ?_
  refine (ask_keeps _).bind fun parentSocket => ?_
  refine Leads.either (Q := fun _ => Displays before p h) (fun _ => ?_)
    (fun _ => Leads.pure fun _ he => he) fun childPlug => ?_
  · unfold plugBelow
    split
    · exact (ask_keeps _).bind fun _ => Leads.pure fun _ he => he
    · exact Leads.pure fun _ he => he
  refine Leads.bind (updateSession_displays fun _ => rfl) fun _ => ?_
  dsimp only
  split
  · exact pulled.bind fun _ => request_displays rfl
  · refine (ask_keeps _).bind fun snapshot => pulled.bind fun _ => ?_
    exact (leaveCopy_displays x _ snapshot).bind fun _ => request_displays rfl

/-- A start that is given up leaves nothing to be seen and holds nothing. -/
theorem abandon_displays (x : BlockId) :
    Keeps (Displays before none none) (abandon (α := α) x) := by
  refine Leads.bind (takeSession_displays.post fun _ _ he => he.1) fun s => ?_
  refine Leads.bind (edit_displays_ok (Edit.rollBack_done s)) fun _ => ?_
  exact (clearVisuals_displays x).bind fun _ => finishGesture_displays

/-- A drag that is about to start holds no candidate. -/
theorem loosen_displays {s : DragSession α} (hs : s.candidate = none) (heal : Bool) :
    Leads (Displays before none none) (loosen s heal)
      (fun s' e => Displays before none none e ∧ s'.candidate = none)
      (Displays before none none) := by
  unfold loosen
  refine Leads.bind (Q := fun _ => Displays before none none) ?_ fun on => ?_
  · unfold hasToDetach
    refine (ask_keeps _).bind fun above => ?_
    refine Leads.ite (fun _ => Leads.pure fun _ he => he) fun _ => ?_
    refine Leads.ite (fun _ => ?_) fun _ => Leads.pure fun _ he => he
    exact (ask_keeps _).bind fun _ => Leads.pure fun _ he => he
  refine Leads.ite (fun _ => Leads.pure fun _ he => ⟨he, hs⟩) fun _ => ?_
  refine Leads.bind ((setSession_displays s).pre fun _ he => ⟨he, hs⟩) fun _ => ?_
  refine Leads.bind (Q := fun _ => Displays before none none) ?_ fun _ =>
    takeSession_displays.post fun _ _ he => ⟨he.1, Option.map_eq_none_iff.mp he.2⟩
  refine (detach_displays s.block heal).tryCatch fun refusal => ?_
  exact (abandon_displays s.block).bind fun _ => Leads.throw fun _ he => he

theorem takeUp_displays (block : BlockId) (heal : Bool) :
    Keeps (Displays before none none) (takeUp (α := α) block heal) := by
  unfold takeUp
  refine (ask_keeps _).bind fun found => (ask_keeps _).bind fun on => ?_
  refine Leads.optional (fun _ => Leads.throw fun _ he => he) ?_
  refine Leads.bind (Q := fun _ => Displays before none none)
    (Leads.modify (fun _ he => he) fun _ he => he) fun _ => ?_
  refine (ask_keeps _).bind fun dragged => (fire_displays _).bind fun _ => ?_
  refine (ask_keeps _).bind fun b => (request_displays rfl).bind fun _ => ?_
  refine (request_displays rfl).bind fun _ => (request_displays rfl).bind fun _ => ?_
  refine (loosen_displays rfl heal).bind fun s => ?_
  refine Leads.bind (Leads.weaken (edit_displays (Edit.markDragging_keeps Editor.quiet_true
    found.1 true)).frame (fun _ he => he) (fun _ _ he => he) fun _ he => he.1) fun _ => ?_
  refine Leads.bind (Leads.refused (request_displays (F := fun _ => False) rfl).frame
    fun _ he => he.1.elim) fun _ => ?_
  exact (setSession_displays s).bind fun _ => (enter_displays _).bind fun _ =>
    Leads.pure fun _ he => he

/-- While something is held no other drag starts, and a start shows nothing. -/
theorem pickUp_mirrors (block : BlockId) (heal : Bool) :
    Keeps (Mirrors before) (pickUp (α := α) block heal) := by
  refine Leads.bind (Q := fun _ => Displays before none none) ?_ fun _ =>
    (takeUp_displays block heal).weaken (fun _ he => he) (fun _ _ he => ⟨none, he⟩)
      fun _ he => ⟨none, he⟩
  refine Tells.of_result (requireIdle_keeps (X := ∅) (Editor.stable_true (α := α))) ?_
  rintro ⟨ws, session, requests, now⟩ ⟨p, hshown, hpair⟩
  cases session with
  | none =>
    obtain rfl : none = p := hpair
    exact ⟨hshown, rfl⟩
  | some s => exact ⟨p, hshown, hpair⟩

end Ends

end Act

namespace Action

/-- The action edits the workspace, and does nothing else. -/
def edits : Action α → Bool
  | .pickUp .. | .dragTo _ | .dropAt _ | .cancelDrag | .runAfterLayout | .runNextTurn => false
  | _ => true

end Action

namespace Editor

open Act

variable {a : Action α} {actions : List (Action α)}

theorem discard_edit {β : Type} (m : Edit α β) :
    (discard (edit m) : Act α Unit) = edit (discard m) := by
  funext e
  change EStateM.map _ (edit m) e = edit (EStateM.map _ m) e
  unfold EStateM.map edit
  dsimp only
  cases m e.workspace <;> rfl

variable [Scalar α] {config : EditorConfig α} {registry : Registry}

/-- An edit is made in the workspace, whatever it answers. -/
theorem perform_edits (h : a.edits) : ∃ m : Edit α Unit, perform a = edit m := by
  cases a with
  | pickUp | dragTo | dropAt | cancelDrag | runAfterLayout | runNextTurn => cases h
  | newBlock | newPlaceholder | setTemplate | respawn | restore | moveToGrid | keepInView
  | loadShape => exact ⟨_, discard_edit _⟩
  | setViewport viewport => exact ⟨Edit.setViewport viewport, rfl⟩
  | setGroup on => exact ⟨modify fun ws => { ws with events := ws.events.setGroup on }, rfl⟩
  | updateTasks change => exact ⟨modify fun ws => { ws with tasks := change ws.tasks }, rfl⟩
  | _ => exact ⟨_, rfl⟩

/-- An edit has nothing to do with what is held, and asks for nothing. -/
theorem after_edits (h : a.edits) :
    (e.after a).session = e.session ∧ (e.after a).requests = e.requests := by
  obtain ⟨m, hm⟩ := perform_edits h
  unfold after
  rw [hm, edit]
  cases m e.workspace <;> exact ⟨rfl, rfl⟩

/-- Whatever is done, the host was asked to show what is held. -/
theorem after_mirrors (hs : e.workspace.Sound) (hlast : Lasts (e.after a)) (h : Mirrors before e) :
    Mirrors before (e.after a) := by
  by_cases hedits : a.edits
  · obtain ⟨hsession, hrequests⟩ := after_edits (e := e) hedits
    obtain ⟨p, hshown, hpair⟩ := h
    refine ⟨p, hrequests ▸ hshown, ?_⟩
    rw [← hpair, pair, pair, candidate, candidate, hsession]
  have kept : ∀ {m : Act α Unit}, Keeps (Mirrors before) m → Leads (· = e) m
      (fun _ => Mirrors before) (Mirrors before) := fun hm => hm.pre fun _ ht => ht ▸ h
  have tasks : ∀ {m : Act α Nat}, (∀ p, Keeps (Displays before p p) m) → Keeps (Mirrors before) m :=
    fun hm => Leads.choose fun p => (hm p).weaken (fun _ he => he) (fun _ _ he => ⟨p, he⟩)
      fun _ he => ⟨p, he⟩
  cases a with
  | pickUp block heal =>
    exact after_of_leads (kept (discard_leads (pickUp_mirrors block heal))) hlast
  | dragTo location =>
    refine after_of_leads (discard_leads ((dragTo_ticks hs location).weaken (fun _ ht => ht)
      (fun _ _ ht => ?_) fun _ ht => ?_)) hlast
    · exact ht.mirrors h
    · exact ht.mirrors h
  | dropAt location => exact after_of_leads (kept (discard_leads (dropAt_mirrors location))) hlast
  | cancelDrag => exact after_of_leads (kept cancelDrag_mirrors) hlast
  | runAfterLayout =>
    exact after_of_leads (kept (discard_leads (tasks fun p => runAfterLayout_rounds
      (fun _ => ⟨request_displays rfl, request_displays rfl⟩) updateTasks_displays))) hlast
  | runNextTurn =>
    exact after_of_leads (kept (discard_leads (tasks fun p => runNextTurn_rounds
      (fun _ => ⟨request_displays rfl, request_displays rfl⟩) updateTasks_displays))) hlast
  | _ => exact absurd rfl hedits

theorem run_keeps_mirrors (hone : registry.OnePlug) (hstart : create config registry = .ok e)
    {actions more : List (Action α)} (hlast : Lasts (e.run (actions ++ more)))
    (h : Mirrors before (e.run actions)) : Mirrors before (e.run (actions ++ more)) := by
  induction more generalizing actions with
  | nil => rwa [List.append_nil]
  | cons a rest ih =>
    have hrest : actions ++ a :: rest = actions ++ [a] ++ rest := by simp
    rw [hrest] at hlast ⊢
    have hnext : Lasts (e.run (actions ++ [a])) := lasts_of_run (run_append e _ rest ▸ hlast)
    have hstep : e.run (actions ++ [a]) = (e.run actions).after a := run_append e actions [a]
    refine ih hlast (hstep ▸ after_mirrors ?_ (hstep ▸ hnext) h)
    exact run_wired hone hstart (lasts_of_after (hstep ▸ hnext))

/-- At every moment of a run the pair that the host was asked to show last, since a moment at which
nothing was dragged, is the pair that is held. A step of a drag gives one command if it changes that
pair, and else none. -/
theorem run_previews (hone : registry.OnePlug) (hstart : create config registry = .ok e)
    (hlast : Lasts (e.run actions)) :
    (∀ idle more, actions = idle ++ more → (e.run idle).session = none →
      ∃ since, (e.run actions).requests = (e.run idle).requests ++ since ∧
        shown since = (e.run actions).pair) ∧
    ∀ earlier location, actions = earlier ++ [.dragTo location] →
      ∃ asked, (e.run actions).requests = (e.run earlier).requests ++ asked ∧
        asked.filterMap (·.preview?) =
          if (e.run actions).pair = (e.run earlier).pair then [] else [(e.run actions).pair] := by
  constructor
  · rintro idle more rfl hidle
    have hnone : (e.run idle).pair = none := by rw [pair, candidate, hidle]; rfl
    have hempty : Mirrors (e.run idle).requests (e.run idle) :=
      ⟨none, ⟨[], (List.append_nil _).symm, rfl⟩, hnone⟩
    obtain ⟨p, hshown, rfl⟩ := run_keeps_mirrors hone hstart hlast hempty
    exact hshown
  · rintro earlier location rfl
    have hstep : e.run (earlier ++ [.dragTo location]) = (e.run earlier).after (.dragTo location) :=
      run_append e earlier [.dragTo location]
    have hafter : Lasts ((e.run earlier).after (.dragTo location)) := hstep ▸ hlast
    have hs := run_wired hone hstart (lasts_of_after hafter)
    have hticks := after_of_leads (discard_leads (dragTo_ticks hs location)) hafter
    exact hstep ▸ hticks

/-- A statement is disposed of that a number is held at. The next step of the drag is refused, and
the one after it is far from everything. -/
def numberForsaken : List (Action Int) :=
  [.newBlock "int", .newBlock "Return", .newBlock "Return", .pickUp ⟨0⟩ false, .dragTo ⟨40, 0⟩,
    .dispose ⟨2⟩, .dragTo ⟨41, 0⟩, .dragTo ⟨400, 0⟩]

theorem run_previews_number :
    let e := fresh (.standard : EditorConfig Int) Palette.registry
    ((e.run (numberForsaken.take 7)).pair = some (⟨0⟩, ⟨4⟩) ∧
      ∃ since, (e.run (numberForsaken.take 7)).requests =
        (e.run (numberForsaken.take 3)).requests ++ since ∧ shown since = some (⟨0⟩, ⟨4⟩)) ∧
    ∃ asked, (e.run numberForsaken).requests = (e.run (numberForsaken.take 7)).requests ++ asked ∧
      asked.filterMap (·.preview?) = [none] := by
  intro e
  have hheld : (e.run (numberForsaken.take 7)).pair = some (⟨0⟩, ⟨4⟩) := by decide +kernel
  have hgone : (e.run numberForsaken).pair = none := by decide +kernel
  have hidle : (e.run (numberForsaken.take 3)).session.isNone := by decide +kernel
  obtain ⟨since, hsince, hshown⟩ := (run_previews Palette.registry_onePlug
    (create_fresh (by decide)) (by decide +kernel : Lasts (e.run (numberForsaken.take 7)))).1
    (numberForsaken.take 3) _ rfl (Option.isNone_iff_eq_none.mp hidle)
  obtain ⟨asked, hasked, hcommands⟩ := (run_previews Palette.registry_onePlug
    (create_fresh (by decide)) (by decide +kernel : Lasts (e.run numberForsaken))).2
    (numberForsaken.take 7) ⟨400, 0⟩ rfl
  refine ⟨⟨hheld, since, hsince, hheld ▸ hshown⟩, asked, hasked, ?_⟩
  rw [hcommands, hheld, hgone]
  rfl

end Editor

end BlockEditor
