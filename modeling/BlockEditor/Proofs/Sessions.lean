import BlockEditor.Proofs.Gestures
import BlockEditor.Proofs.Workspace.Drifting

/-!
# What an editor remembers of a drag

The steps of a gesture change the workspace or the session, and ask the host for things. What is
known of the one is not touched by what is done to the other.
-/

namespace BlockEditor.Act

open Workspace

variable {α β : Type} {P : Workspace α → Prop} {S S' : Option (DragSession α) → Prop}
  {Q : β → Workspace α → Prop} {E : EditError α → Workspace α → Prop}
  {F : EditError α → Editor α → Prop}

/-- What holds of the workspace of an editor, and what holds of its session. -/
abbrev Beside (P : Workspace α → Prop) (S : Option (DragSession α) → Prop) (e : Editor α) : Prop :=
  P e.workspace ∧ S e.session

theorem edit_beside {m : Edit α β} (h : Tells P m Q E) :
    Tells (Beside P S) (edit m) (fun a => Beside (Q a) S) fun err => Beside (E err) S := by
  intro e
  have hw := h e.workspace
  unfold edit
  cases hm : m e.workspace with
  | ok a ws =>
    rw [hm] at hw
    exact fun ht => ⟨(hw ht).1, fun hp => ⟨(hw ht).2 hp.1, hp.2⟩⟩
  | error err ws =>
    rw [hm] at hw
    exact fun ht => ⟨(hw ht).1, fun hp => ⟨(hw ht).2 hp.1, hp.2⟩⟩

theorem edit_anyhow {m : Edit α β} (h : Leads P m Q fun _ => True) :
    Leads (Beside P S) (edit m) (fun a => Beside (Q a) S) fun _ => True :=
  (edit_beside h).weaken (fun _ h => h) (fun _ _ h => h) fun _ _ _ => trivial

theorem ask_anyhow (q : Workspace α → Answer α β) :
    Leads (Beside P S) (query q) (fun a => Beside (fun ws => P ws ∧ q ws = .ok a) S)
      fun _ => True :=
  edit_anyhow (Leads.ask fun _ _ _ _ => trivial)

theorem query_beside {q : Workspace α → Answer α β} (h : Leads P (Edit.query q) Q fun _ => False) :
    Tells (Beside P S) (query q) (fun a => Beside (Q a) S) F :=
  (edit_beside h).weaken (fun _ h => h) (fun _ _ h => h) fun _ _ h => h.1.elim

/-- A question that has an answer. -/
theorem query_eq {q : Workspace α → Answer α β} {e : Editor α} {a : β}
    (h : q e.workspace = .ok a) : query q e = .ok a e := by
  unfold query edit Edit.query
  rw [h]

/-- A question that always has an answer. -/
theorem ask_answers {P F : Editor α → Prop} {q : Workspace α → Answer α β}
    (h : ∀ e, P e → ∃ a, q e.workspace = .ok a) : Leads P (query q) (fun _ => P) F := by
  refine Tells.of_result (ask_keeps (P := fun _ => True) q) fun e he => ?_
  obtain ⟨a, ha⟩ := h e he
  rw [query_eq ha]
  exact he

theorem request_beside (r : HostRequest α) :
    Tells (Beside P S) (request r) (fun _ => Beside P S) F :=
  Tells.of_leads (Leads.modify (fun _ he => he) fun _ h => h)

theorem look_beside : Tells (Beside P S) (get : Act α (Editor α)) (fun _ => Beside P S) F :=
  Tells.of_leads (Leads.get fun _ h => h)

theorem updateSession_beside {f : DragSession α → DragSession α} (h : ∀ o, S o → S' (o.map f)) :
    Tells (Beside P S) (updateSession f) (fun _ => Beside P S') F :=
  Tells.of_leads (Leads.modify (fun _ he => he) fun e he => ⟨he.1, h e.session he.2⟩)

theorem setSession_beside {s : DragSession α} (h : S' (some s)) :
    Tells (Beside P S) (setSession s) (fun _ => Beside P S') F :=
  Tells.of_leads (Leads.modify (fun _ he => he) fun _ he => ⟨he.1, h⟩)

theorem enter_beside (phase : DragPhase) :
    Tells (Beside P S) (enter phase : Act α Unit) (fun _ => Beside P S) F :=
  Tells.of_leads (Leads.modify (fun _ he => he) fun _ h => h)

/-- The session is handed out, and the editor is at rest. -/
theorem takeSession_beside (h : ∀ o, S o → ∃ s, o = some s) :
    Tells (Beside P S) (takeSession : Act α (DragSession α))
      (fun s e => Beside P (· = none) e ∧ S (some s)) F := by
  refine Tells.of_leads ?_
  unfold takeSession activeSession
  refine Leads.bind (Q := fun s e => Beside P (· = some s) e ∧ S (some s)) ?_ fun s => ?_
  · refine Leads.bind (Leads.get (Q := fun e' e => e' = e ∧ Beside P S e) fun _ h => ⟨rfl, h⟩)
      fun e => ?_
    cases hs : e.session with
    | none =>
      refine Leads.throw ?_
      rintro _ ⟨rfl, he⟩
      obtain ⟨s, hs'⟩ := h _ he.2
      rw [hs] at hs'
      cases hs'
    | some s =>
      refine Leads.pure ?_
      rintro _ ⟨rfl, he⟩
      exact ⟨⟨he.1, hs⟩, hs ▸ he.2⟩
  · refine Leads.bind (Q := fun _ e => Beside P (· = none) e ∧ S (some s))
      (Leads.modify (fun _ he => he) fun _ he => ⟨⟨he.1.1, rfl⟩, he.2⟩) fun _ => ?_
    exact Leads.pure fun _ he => he

theorem takeSession_hands {R : DragSession α → Workspace α → Prop} {F : Editor α → Prop} :
    Leads (fun e => ∃ s, e.session = some s ∧ R s e.workspace)
      (takeSession : Act α (DragSession α)) (fun s => Beside (R s) (· = none)) F := by
  refine Tells.of_result (takeSession_keeps (P := fun _ => True)) ?_
  rintro ⟨t, _, requests⟩ ⟨s, rfl, h⟩
  exact ⟨h, rfl⟩

/-- When the visuals are cleared, blocks look different at most. -/
theorem clearVisuals_beside [Scalar α] {ws : Workspace α} {x : BlockId} (hs : ws.Sound)
    (hl : ws.Live x) : Leads (Beside ws.Drifts S) (clearVisuals x) (fun _ => Beside ws.Drifts S)
      fun _ => False := by
  unfold clearVisuals
  have requests : Leads (Beside ws.Drifts S) (do
      request (.textWidthCache false)
      request .stopDisconnectEffect
      request .hidePreview
      request (.dragLayer x false) : Act α Unit) (fun _ => Beside ws.Drifts S) fun _ => False :=
    Leads.bind (request_beside _) fun _ => Leads.bind (request_beside _) fun _ =>
      Leads.bind (request_beside _) fun _ => request_beside _
  refine Leads.bind look_beside fun e => Leads.optional (fun _ => ?_) requests
  refine Leads.tryCatch (E := fun _ => False) (Tells.weaken (edit_beside
    (Edit.markDragging_roams hs hl false)) (fun _ h => h) (fun _ _ h => h) fun _ _ h => h.1) fun _ => ?_
  exact Leads.pure fun _ h => h.elim

theorem finishGesture_beside (h : ∀ t u, P t → t.Drifts u → P u) :
    Leads (Beside P S) (finishGesture : Act α Unit) (fun _ => Beside P S) fun _ => False := by
  refine Leads.bind (request_beside _) fun _ => Leads.bind (request_beside _) fun _ => ?_
  refine Tells.weaken (edit_beside (E := fun _ _ => False) (Leads.alter
    fun t ht => h t _ ht (drifts_aside t _ t.tasks))) (fun _ h => h) (fun _ _ h => h) fun _ _ h => h.1

end BlockEditor.Act
