import BlockEditor.Proofs.Abandoning

/-!
# What a drag that has started has done

A drag that starts has taken its block out, if the block had to be detached. The steps by which it
did so can be read off from the fact that it has started.
-/

namespace BlockEditor

open Workspace

variable {α : Type}

/-- Ids that last to the end of a step have lasted to its start. -/
theorem Tells.lasts {ε σ β : Type} [Numbered σ] {P : σ → Prop} {m : EStateM ε σ β}
    {Q : β → σ → Prop} {E : ε → σ → Prop} (h : Tells P m Q E) {s t : σ} {a : β} (hm : m s = .ok a t)
    (ht : Lasts t) : Lasts s := by
  have hs := h s
  rw [hm] at hs
  exact (hs ht).1

namespace Act

variable {β : Type} {e t : Editor α} {x : BlockId}

/-- An edit that is carried out changes the workspace and nothing else. -/
theorem edit_ok {m : Edit α β} {a : β} (h : edit m e = .ok a t) :
    ∃ u, m e.workspace = .ok a u ∧ t = { e with workspace := u } := by
  unfold edit at h
  cases hm : m e.workspace with
  | ok a' ws =>
    rw [hm] at h
    cases h
    exact ⟨ws, rfl, rfl⟩
  | error refusal ws =>
    rw [hm] at h
    cases h

/-- A step that is undone when it is refused was carried out, or its handler was. -/
theorem tryCatch_eq_ok {m : Act α β} {handler : EditError α → Act α β} {a : β}
    (h : tryCatch m handler e = .ok a t) :
    m e = .ok a t ∨ ∃ refusal u, m e = .error refusal u ∧ handler refusal u = .ok a t := by
  cases hm : m e with
  | ok a' u =>
    rw [tryCatch_ok hm] at h
    exact Or.inl h
  | error refusal u =>
    rw [tryCatch_error hm] at h
    exact Or.inr ⟨refusal, u, rfl, h⟩

/-- The session that is handed out is the one that was there. -/
theorem takeSession_ok {s : DragSession α} (h : takeSession e = .ok s t) :
    e.session = some s ∧ t = { e with session := none } := by
  unfold takeSession activeSession at h
  obtain ⟨s', u, hactive, h⟩ := bind_ok h
  obtain ⟨found, v, hget, hactive⟩ := bind_ok hactive
  cases hget
  cases hsession : e.session with
  | none =>
    rw [hsession] at hactive
    cases hactive
  | some d =>
    rw [hsession] at hactive
    cases hactive
    cases h
    exact ⟨rfl, rfl⟩

/-- To ask whether a block has to be detached changes nothing. -/
theorem hasToDetach_ok {heal on : Bool} (h : hasToDetach x heal e = .ok on t) : t = e := by
  unfold hasToDetach at h
  obtain ⟨above, u, habove, hrest⟩ := bind_ok h
  obtain ⟨rfl, -⟩ := query_ok habove
  by_cases hsome : above.isSome
  · rw [if_pos hsome] at hrest
    cases hrest
    rfl
  rw [if_neg hsome] at hrest
  by_cases hheal : heal
  · rw [if_pos hheal] at hrest
    obtain ⟨below, v, hbelow, hend⟩ := bind_ok hrest
    obtain ⟨rfl, -⟩ := query_ok hbelow
    cases hend
    rfl
  · rw [if_neg hheal] at hrest
    cases hrest
    rfl

variable [Scalar α] {heal : Bool} {s₀ s : DragSession α}

/-- If a block was loosened, then it did not have to be detached, or it was. -/
theorem loosen_ok (h : loosen s₀ heal e = .ok s t) :
    (hasToDetach s₀.block heal e = .ok false e ∧ s = s₀ ∧ t = e) ∨
      ∃ u, detach s₀.block heal { e with session := some s₀ } = .ok () u ∧ u.session = some s ∧
        t = { u with session := none } := by
  unfold loosen at h
  obtain ⟨on, u, hon, h⟩ := bind_ok h
  obtain rfl := hasToDetach_ok hon
  cases on with
  | false =>
    cases h
    exact Or.inl ⟨hon, rfl, rfl⟩
  | true =>
    right
    obtain ⟨_, v, hset, h⟩ := bind_ok h
    cases hset
    obtain ⟨_, w, hdetach, htake⟩ := bind_ok h
    rcases tryCatch_eq_ok hdetach with hdetach | ⟨refusal, w', -, habandon⟩
    · obtain ⟨hsession, rfl⟩ := takeSession_ok htake
      exact ⟨w, hdetach, hsession, rfl⟩
    · obtain ⟨_, _, -, hthrow⟩ := bind_ok habandon
      cases hthrow

/-- A drag that starts finds its block, loosens it and marks it. All else that it does is to record
events and to ask the host for things. -/
theorem takeUp_ok {block : BlockId} (h : takeUp block heal e = .ok x t) :
    ∃ offset b u v s, e.workspace.Grasps block (x, offset) ∧ Relogs e.workspace u.workspace ∧
      u.workspace.blocks[x]? = some b ∧ loosen (.begin x b.position offset) heal u = .ok s v ∧
      Edit.markDragging x true v.workspace = .ok () t.workspace ∧ t.session = some s := by
  unfold takeUp at h
  obtain ⟨⟨target, offset⟩, e₁, hfound, hasked⟩ := bind_ok h
  obtain ⟨rfl, hgrasp⟩ := query_ok hfound
  obtain ⟨on, e₂, hon, hchecked⟩ := bind_ok hasked
  obtain ⟨rfl, hmovable⟩ := query_ok hon
  cases on with
  | false => cases hchecked
  | true =>
    obtain ⟨_, e₃, hgroup, hopened⟩ := bind_ok hchecked
    obtain ⟨_, hgroup', rfl⟩ := edit_ok hgroup
    cases hgroup'
    obtain ⟨dragged, e₄, hdragged, hlisted⟩ := bind_ok hopened
    obtain ⟨rfl, -⟩ := query_ok hdragged
    obtain ⟨_, e₅, hfire, htold⟩ := bind_ok hlisted
    obtain ⟨_, hfire', rfl⟩ := edit_ok hfire
    cases hfire'
    obtain ⟨b, e₆, hb, hread⟩ := bind_ok htold
    obtain ⟨rfl, hblock⟩ := query_ok hb
    obtain ⟨_, e₇, hwidth, hrest⟩ := bind_ok hread
    cases hwidth
    obtain ⟨_, e₈, hresize, hrest'⟩ := bind_ok hrest
    cases hresize
    obtain ⟨_, e₉, heffect, hready⟩ := bind_ok hrest'
    cases heffect
    obtain ⟨s, v, hloosen, hloose⟩ := bind_ok hready
    obtain ⟨_, w, hmark, hend⟩ := bind_ok hloose
    obtain ⟨_, hmark', rfl⟩ := edit_ok hmark
    cases hend
    refine ⟨offset, b, _, v, s, ⟨hgrasp, hmovable⟩, ?_, ?_, hloosen, hmark', rfl⟩
    · exact ⟨_, rfl⟩
    · exact block_eq_ok.mp hblock

theorem withdraw_none_ok (h : withdraw x heal none e = .ok () t) :
    Edit.pullOut x heal e.workspace = .ok () t.workspace := by
  obtain ⟨_, e₁, hpull, hend⟩ := bind_ok h
  obtain ⟨u, hrun, rfl⟩ := edit_ok hpull
  cases hend
  exact hrun

/-- Where a copy stays, it is built of the snapshot that was taken of the block before. -/
theorem withdraw_some_ok {c : ConnectionId} (h : withdraw x heal (some c) e = .ok () t) :
    ∃ snapshot u k v w, e.workspace.save x = .ok snapshot ∧
      Edit.pullOut x heal e.workspace = .ok () u ∧ Edit.restore snapshot u = .ok k v ∧
      Edit.attach c k v = .ok () w ∧ Edit.setCopyOnDrag x (some false) w = .ok () t.workspace := by
  obtain ⟨snapshot, e₁, hask, hasked⟩ := bind_ok h
  obtain ⟨rfl, hsave⟩ := query_ok hask
  obtain ⟨_, e₂, hpull, hleft⟩ := bind_ok hasked
  obtain ⟨u, hpulled, rfl⟩ := edit_ok hpull
  obtain ⟨_, e₃, hleave, hend⟩ := bind_ok hleft
  cases hend
  obtain ⟨k, e₄, hmake, hmade⟩ := bind_ok hleave
  obtain ⟨v, hbuilt, rfl⟩ := edit_ok hmake
  obtain ⟨_, e₅, hnote, hnoted⟩ := bind_ok hmade
  cases hnote
  obtain ⟨_, e₆, hattach, hlast⟩ := bind_ok hnoted
  obtain ⟨w, hseated, rfl⟩ := edit_ok hattach
  obtain ⟨z, hset, rfl⟩ := edit_ok hlast
  exact ⟨snapshot, u, k, v, w, hsave, hpulled, hbuilt, hseated, hset⟩

/-- Whatever block the drag moves, if it had to be detached then it was taken out, as it was in a
workspace that differs in its log only, and nothing but marks and events came after that. -/
theorem pickUp_withdraws {block : BlockId} (hs : e.workspace.Sound)
    (hac : e.workspace.graph.Acyclic) (h : pickUp block heal e = .ok x t) (hlast : Lasts t) :
    ∃ offset b u, e.workspace.Grasps block (x, offset) ∧ Relogs e.workspace u ∧
      u.blocks[x]? = some b ∧ (u.HasToDetach x heal →
        ∃ keeps d real requests phase e₁, u.leavesCopy x = .ok keeps ∧
          u.Primed b heal (.begin x b.position offset) d real ∧
          withdraw x heal (u.copySocket b keeps) ⟨real, some d, requests, phase⟩ = .ok () e₁ ∧
          e₁.workspace.Rests t.workspace) := by
  have hJ := Editor.stable_true (α := α)
  obtain ⟨ws, session, requests, phase⟩ := e
  cases session with
  | some s => cases h
  | none =>
    have htake : takeUp block heal ⟨ws, none, requests, phase⟩ = .ok x t := h
    obtain ⟨offset, b, ⟨u, session, requests, phase⟩, v, s, hgrasp, hlog, hb, hloosen, hmark, -⟩ :=
      takeUp_ok htake
    obtain ⟨log, rfl⟩ := id hlog
    have hu : ({ ws with events := log } : Workspace α).Sound :=
      (drifts_aside ws log ws.tasks).sound hs
    refine ⟨offset, b, _, hgrasp, hlog, hb, fun hdetach => ?_⟩
    have hlasts : Lasts v := Tells.lasts (Edit.markDragging_keeps (hJ.calm (X := ∅)).quiet x true) hmark hlast
    rcases loosen_ok hloosen with ⟨hstill, -, rfl⟩ | ⟨e₁, hrun, -, rfl⟩
    · have hknown := (hasToDetach_learns (P := fun _ => True) x heal).ok hstill hlasts trivial
      exact nomatch hknown.2.1.mpr hdetach
    have hbegun : (DragSession.begin x b.position offset).templateSocket = none := rfl
    obtain ⟨keeps, real, d, hkeeps, hprimed, heq⟩ := detach_eq hu hb hbegun heal requests phase
    have hlifted : e₁.workspace.Lifted x :=
      ((detach_lifts x heal).ok hrun hlasts ⟨⟨hu, hac⟩, ⟨_, rfl, rfl, rfl⟩⟩).1
    refine ⟨keeps, d, real, requests, phase, e₁, hkeeps, hprimed, heq.symm.trans hrun, ?_⟩
    exact (Edit.markDragging_rests hlifted.sound hlifted.live true).ok hmark hlast (.refl _)

end Act

end BlockEditor
