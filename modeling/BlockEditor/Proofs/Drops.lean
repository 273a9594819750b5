import BlockEditor.Proofs.Dragging
import BlockEditor.Proofs.Landing
import BlockEditor.Proofs.Picking
import BlockEditor.Proofs.Regular

/-!
# The end of a gesture

A drop is refused for its place only. If a candidate is held, then the block is linked to it;
otherwise no link changes.
-/

namespace BlockEditor

open Workspace

variable {α : Type}

namespace Workspace

variable {ws : Workspace α} {id : BlockId} {n : Nat}

/-- The way up is never barred. -/
theorem Sound.rootWithin_ok (hs : ws.Sound) (hl : ws.Live id) : ∃ r, ws.rootWithin n id = .ok r := by
  induction n generalizing id with
  | zero => exact ⟨id, rfl⟩
  | succ n ih =>
    obtain ⟨b, hb⟩ := hl
    rw [Workspace.rootWithin]
    cases hp : ws.parent id with
    | error e =>
      rw [hs.parent_eq hb] at hp
      cases hp
    | ok above =>
      cases above with
      | none => exact ⟨id, rfl⟩
      | some a =>
        exact ih (hs.exists_upper ((hs.parent_eq_some hb).mp hp))

end Workspace

namespace Edit

variable [Scalar α] {ws : Workspace α} {x : BlockId} {own neighbour : ConnectionId}

/-- To link a root to what it is offered takes no plug away from where it is. -/
theorem connect_pairs (hl : ws.Lifted x) (ho : ws.Offers x own neighbour) :
    Tells (· = ws) (connect own neighbour) (fun _ t => ws.Lands own neighbour t)
      fun e _ => e.NonFinite := by
  obtain ⟨y, z, hy, hz, hsuits⟩ := ho
  obtain ⟨hclear, hclear'⟩ := hsuits.not_closes hl.sound hl.loose hy hz
  have hconnect := connect_tells (D := fun _ _ => False) hl.sound hl.acyclic
    (hsuits.canConnect hy hz) hclear hclear' fun p v hp hv hk => ?_
  · refine hconnect.weaken (fun _ h => h) ?_ fun e t h => (h.resolve_left id).1
    rintro _ t ⟨s, p, child, hends, hpoised, hjoins⟩
    exact ⟨s, p, child, ws, t, Drifts.refl ws, ⟨hends, hpoised, hjoins⟩, Drifts.refl t⟩
  · have hlink := link?_of_idle hv (hsuits.idle hy hz hp hv hk)
    have hidle : Leads (fun t => t = ws ∧ ws.link? p = .ok none) (disconnect p)
      (fun _ t => t = ws) fun _ => False := disconnect_idle p
    refine Tells.weaken hidle ?_ ?_ fun _ _ h => h
    · rintro _ rfl
      exact ⟨rfl, hlink⟩
    · rintro _ _ rfl
      exact .kept hlink

end Edit

namespace Act

variable [Scalar α] {β : Type} {ws : Workspace α} {x : BlockId}

/-- The step moves things about, and refuses nothing but a place. -/
abbrev Wanders (ws : Workspace α) (m : Act α β) : Prop :=
  Tells (Within ws.Drifts) m (fun _ => Within ws.Drifts) fun e t => e.NonFinite ∧ Within ws.Drifts t

/-- The step moves things about, and is not refused. -/
abbrev Roams (ws : Workspace α) (m : Act α β) : Prop :=
  Leads (Within ws.Drifts) m (fun _ => Within ws.Drifts) fun _ => False

omit [Scalar α] in
theorem edit_tells {P : Workspace α → Prop} {Q : β → Workspace α → Prop}
    {E : EditError α → Workspace α → Prop} {m : Edit α β} (h : Tells P m Q E) :
    Tells (Within P) (edit m) (fun a => Within (Q a)) fun err => Within (E err) :=
  Tells.weaken (edit_beside (S := fun _ => True) h) (fun _ h => ⟨h, trivial⟩) (fun _ _ h => h.1)
    fun _ _ h => h.1

section Refusals

variable {P : Workspace α → Prop} {Q : β → Workspace α → Prop} {R : EditError α → Prop}

omit [Scalar α] in
theorem edit_refuses {m : Edit α β} (h : Tells P m Q fun e _ => R e) :
    Tells (Within P) (edit m) (fun a => Within (Q a)) fun e _ => R e :=
  edit_tells h

omit [Scalar α] in
/-- A question that has an answer. -/
theorem query_answers {q : Workspace α → Answer α β} (h : ∀ t, P t → ∃ a, q t = .ok a) :
    Tells (Within P) (query q) (fun _ => Within P) fun e _ => R e := by
  refine edit_refuses (Tells.of_leads (Leads.query (fun _ _ h _ => h) fun t e ht he => ?_))
  obtain ⟨a, ha⟩ := h t ht
  rw [ha] at he
  cases he

end Refusals

omit [Scalar α] in
theorem edit_roams {m : Edit α β} (h : Edit.Roams ws m) : Roams ws (edit m) :=
  edit_tells h

omit [Scalar α] in
/-- What comes after a step is not refused. -/
theorem followedBy_tells {P : Editor α → Prop} {Q Q' : β → Editor α → Prop}
    {E E' : EditError α → Editor α → Prop} {step : Act α β} {after : Act α Unit}
    (h : Tells P step Q E) (hok : ∀ a, Leads (Q a) after (fun _ => Q' a) fun _ => False)
    (herr : ∀ err, Leads (E err) after (fun _ => E' err) fun _ => False) :
    Tells P (followedBy step after) Q' E' := by
  unfold followedBy
  refine Tells.bind (Tells.tryCatch h fun err => ?_) fun a => ?_
  · exact (Tells.of_leads (herr err)).bind fun _ => Tells.throw fun _ h => h
  · exact (Tells.of_leads (hok a)).bind fun _ => Tells.of_leads (Leads.pure fun _ h => h)

omit [Scalar α] in
theorem fireDragEnd_roams (x : BlockId) : Roams ws (fireDragEnd x) := by
  unfold fireDragEnd
  exact (draggedWith_keeps x).bind fun _ => edit_roams (Edit.fire_roams _)

theorem clearVisuals_roams (hs : ws.Sound) (hl : ws.Live x) : Roams ws (clearVisuals x) :=
  (clearVisuals_beside (S := fun _ => True) hs hl).weaken (fun _ h => ⟨h, trivial⟩)
    (fun _ _ h => h.1) fun _ h => h

omit [Scalar α] in
theorem finishGesture_drifts {P : Workspace α → Prop} (h : ∀ t u, P t → t.Drifts u → P u) :
    Leads (Within P) (finishGesture : Act α Unit) (fun _ => Within P) fun _ => False :=
  (finishGesture_beside (S := fun _ => True) h).weaken (fun _ h => ⟨h, trivial⟩)
    (fun _ _ h => h.1) fun _ h => h

omit [Scalar α] in
theorem closeGesture_drifts {P : Workspace α → Prop} (h : ∀ t u, P t → t.Drifts u → P u) :
    Leads (Within P) (closeGesture : Act α Unit) (fun _ => Within P) fun _ => False :=
  (finishGesture_drifts h).bind fun _ => enter_keeps _

variable {c : Candidate α}

theorem commit_lands (hl : ws.Lifted x) (ho : ws.Offers x c.own c.neighbour) :
    Tells (Within ws.Drifts) (commit x c) (fun _ => Within (ws.Lands c.own c.neighbour))
      fun e _ => e.NonFinite := by
  have ends : ∀ t, ws.Lands c.own c.neighbour t → ∀ d, d = c.own ∨ d = c.neighbour →
      ∃ y, t.connection d = .ok y := by
    intro t h d hd
    obtain ⟨-, -, -, hown, hneighbour⟩ := h.linked hl ho
    rcases hd with rfl | rfl
    · obtain ⟨y, hy, -⟩ := targetOf_eq_some.mp hown
      exact ⟨y, connection_eq_ok.mpr hy⟩
    · obtain ⟨y, hy, -⟩ := targetOf_eq_some.mp hneighbour
      exact ⟨y, connection_eq_ok.mpr hy⟩
  unfold commit
  refine Tells.bind (Q := fun _ => Within (ws.Lands c.own c.neighbour)) ?_ fun _ => ?_
  · refine edit_refuses (Tells.each (Edit.connect_keeps (X := ∅) (Editor.stable_true (α := α)) c.own
      c.neighbour) fun u hd => ?_)
    refine (Edit.connect_pairs (hl.drifts hd) (ho.drifts hd)).post fun _ t h => ?_
    obtain ⟨s, p, child, v, w, hdrift, hpairs, hdrift'⟩ := h
    exact ⟨s, p, child, v, w, hd.trans hdrift, hpairs, hdrift'⟩
  refine (query_answers fun t h => ends t h _ (Or.inl rfl)).bind fun y => ?_
  refine (query_answers fun t h => ends t h _ ?_).bind fun z => ?_
  · split
    · exact Or.inr rfl
    · exact Or.inl rfl
  refine (query_answers fun t h => ?_).bind fun root => ?_
  · obtain ⟨hs, -, hlive, -⟩ := h.linked hl ho
    exact hs.rootWithin_ok hlive
  · refine edit_refuses (Tells.of_leads (Leads.alter fun t h => h.drifts ?_))
    exact drifts_aside t t.events _

/-- What comes of a drop: the block is linked to the candidate, or no link changes. -/
def Comes (ws : Workspace α) (x : BlockId) (held : Option (Candidate α)) (outcome : DragOutcome α)
    (t : Workspace α) : Prop :=
  match held with
  | some c => outcome = .connected x c ∧ ws.Lands c.own c.neighbour t
  | none => (∃ place, outcome = .dropped x place) ∧ ws.Drifts t

omit [Scalar α] in
theorem Comes.drifts {held : Option (Candidate α)} {outcome : DragOutcome α} {t u : Workspace α}
    (h : Comes ws x held outcome t) (hd : t.Drifts u) : Comes ws x held outcome u := by
  cases held with
  | none => exact ⟨h.1, h.2.trans hd⟩
  | some c => exact ⟨h.1, h.2.drifts hd⟩

theorem settle_comes (hl : ws.Lifted x) {s : DragSession α} (hx : s.block = x)
    (ho : ∀ c, s.candidate = some c → ws.Offers x c.own c.neighbour) (location : Point α) :
    Tells (Within ws.Drifts) (settle s location)
      (fun outcome => Within (Comes ws x s.candidate outcome)) fun e _ => e.NonFinite := by
  subst hx
  unfold settle
  refine Tells.bind ((edit_tells (Edit.moveTo_wanders hl.sound hl.live location "drag")).weaken
    (fun _ h => h) (fun _ _ h => h) fun _ _ h => h.1) fun _ => ?_
  have aligned : ∀ outcome, Tells (Within (Comes ws s.block s.candidate outcome)) (do
      let _ ← edit (Edit.moveToGrid s.block)
      return outcome : Act α (DragOutcome α))
      (fun outcome => Within (Comes ws s.block s.candidate outcome)) fun e _ => e.NonFinite := by
    intro outcome
    refine Tells.bind (Q := fun _ => Within (Comes ws s.block s.candidate outcome)) ?_ fun _ =>
      Tells.of_leads (Leads.pure fun _ h => h)
    refine edit_refuses (Tells.each (Edit.moveToGrid_keeps Editor.calm_true
      s.block) fun t h => ?_)
    have hlive : t.Sound ∧ t.Live s.block := by
      unfold Comes at h
      split at h
      · next c hc =>
        obtain ⟨ht, -, hlive, -⟩ := h.2.linked hl (ho c hc)
        exact ⟨ht, hlive⟩
      · exact ⟨h.2.sound hl.sound, h.2.live hl.live⟩
    exact (Edit.moveToGrid_wanders hlive.1 hlive.2).weaken (fun _ ht => ht ▸ Drifts.refl _)
      (fun _ _ hd => h.drifts hd) fun _ _ h => h.1
  cases hc : s.candidate with
  | none =>
    rw [hc] at aligned
    refine (Tells.of_leads (request_keeps _)).bind fun _ => ?_
    refine Tells.bind (Q := fun outcome => Within (Comes ws s.block none outcome)) ?_ aligned
    exact Tells.of_leads (Leads.pure fun _ h => ⟨⟨location, rfl⟩, h⟩)
  | some c =>
    rw [hc] at aligned
    refine Tells.bind (commit_lands hl (ho c hc)) fun _ => ?_
    refine Tells.bind (Q := fun outcome => Within (Comes ws s.block (some c) outcome)) ?_ aligned
    exact Tells.of_leads (Leads.pure fun _ h => ⟨rfl, h⟩)

/-- A drop of a root ends as what was held says, or is refused for its place. -/
theorem dropAt_comes {s : DragSession α} {requests : List (HostRequest α)}
    {phase : DragPhase} (hl : ws.Lifted s.block)
    (ho : ∀ c, s.candidate = some c → ws.Offers s.block c.own c.neighbour) (location : Point α) :
    Tells (· = ⟨ws, some s, requests, phase⟩) (dropAt location)
      (fun outcome => Within (Comes ws s.block s.candidate outcome)) fun e _ => e.NonFinite := by
  have hsession : dropAt location ⟨ws, some s, requests, phase⟩ = (do
      fireDragEnd s.block
      clearVisuals s.block
      followedBy (settle s (location + s.offset)) closeGesture) ⟨ws, none, requests, .applying⟩ := rfl
  have hstart : ∀ e : Editor α, e = ⟨ws, none, requests, .applying⟩ → Within ws.Drifts e := by
    rintro _ rfl
    exact Drifts.refl ws
  refine Tells.resume (dropAt_keeps (X := ∅) (Editor.stable_true (α := α)) location) hsession ?_
  refine Tells.bind ((Tells.of_leads (fireDragEnd_roams s.block)).pre hstart) fun _ => ?_
  refine Tells.bind (Tells.of_leads (clearVisuals_roams hl.sound hl.live)) fun _ => ?_
  refine followedBy_tells (settle_comes hl rfl ho _) (fun outcome => ?_) fun e => ?_
  · exact closeGesture_drifts fun _ _ h hd => h.drifts hd
  · exact closeGesture_drifts (P := fun _ => e.NonFinite) fun _ _ h _ => h

/-! ### Gestures from start to end -/

section Gesture

variable {e e₁ e₂ e₃ : Editor α} {block target : BlockId} {heal : Bool}
  {locations : List (Point α)} {location : Point α}

/-- Going on with a drag hands out no ids. -/
theorem lasts_of_dragAlong (h : dragAlong locations e₁ = .ok () e₂) (hlast : Lasts e₂) :
    Lasts e₁ := by
  have hkeeps : Leads (Within (Steady (fun _ _ => True) Set.univ)) (dragAlong locations : Act α Unit)
      (fun _ => Within (Steady (fun _ _ => True) Set.univ))
      (Within (Steady (fun _ _ => True) Set.univ)) :=
    Leads.forM_list locations fun location _ =>
      Editor.discard_leads (dragTo_keeps Editor.stable_true location)
  have hend := hkeeps e₁
  rw [h] at hend
  exact (hend hlast).1

/-- A drag that has started, and gone on, is under way, and its block is a root. -/
theorem underway_of_start (hregular : e.workspace.Regular) (hacyclic : e.workspace.graph.Acyclic)
    (hstart : pickUp block heal e = .ok target e₁) (hsteps : dragAlong locations e₁ = .ok () e₂)
    (hlast : Lasts e₂) :
    e₁.workspace.Lifted target ∧ Underway e₁.workspace target e₁.requests e₂ := by
  obtain ⟨hlifted, s, hs, hblock, hnone⟩ := (pickUp_lifts block heal).ok hstart
    (lasts_of_dragAlong hsteps hlast) ⟨hregular.sound, hacyclic⟩
  refine ⟨hlifted, dragAlong_underway hlifted ⟨s, [], e₁.phase, ?_, hblock, fun c hc => ?_⟩
    hsteps⟩
  · rw [List.append_nil, ← hs]
  · rw [hnone] at hc
    cases hc

/-- The drop that ends a gesture without other changes in between is refused for its place only. If
a candidate is held, then the ends of the candidate are linked, and no block hangs below itself;
otherwise no link has changed since the start. -/
theorem dropAt_commits (hregular : e.workspace.Regular) (hacyclic : e.workspace.graph.Acyclic)
    (hstart : pickUp block heal e = .ok target e₁) (hsteps : dragAlong locations e₁ = .ok () e₂) :
    match dropAt location e₂ with
    | .error refusal e₃ => Lasts e₃ → refusal.NonFinite
    | .ok outcome e₃ => Lasts e₃ → match e₂.candidate with
      | some c => outcome = .connected target c ∧
          e₃.workspace.targetOf c.own = some c.neighbour ∧
          e₃.workspace.targetOf c.neighbour = some c.own ∧ e₃.workspace.graph.Acyclic
      | none => (∃ place, outcome = .dropped target place) ∧
          ∀ c, e₃.workspace.targetOf c = e₁.workspace.targetOf c := by
  have hkeeps := dropAt_keeps (X := ∅) Editor.stable_true location e₂
  cases hdrop : dropAt location e₂ with
  | error refusal e₃ =>
    rw [hdrop] at hkeeps
    intro hlast
    obtain ⟨hl, s, since, phase, rfl, rfl, hheld⟩ :=
      underway_of_start hregular hacyclic hstart hsteps (hkeeps hlast).1
    exact (dropAt_comes hl (fun c hc => (hheld c hc).1) location).error hdrop hlast rfl
  | ok outcome e₃ =>
    rw [hdrop] at hkeeps
    intro hlast
    obtain ⟨hl, s, since, phase, rfl, rfl, hheld⟩ :=
      underway_of_start hregular hacyclic hstart hsteps (hkeeps hlast).1
    have hcomes := (dropAt_comes hl (fun c hc => (hheld c hc).1) location).ok hdrop hlast rfl
    change match s.candidate with
      | some c => _
      | none => _
    cases hc : s.candidate with
    | none =>
      rw [hc] at hcomes
      exact ⟨hcomes.1, fun c => hcomes.2.targetOf c⟩
    | some c =>
      rw [hc] at hcomes
      obtain ⟨-, hac, -, hown, hneighbour⟩ := hcomes.2.linked hl (hheld c hc).1
      exact ⟨hcomes.1, hown, hneighbour, hac⟩

/-- If the drop connects, then the last preview since the start has told what comes of the real
block that was where the candidate is: it becomes a root, or it hangs below the dragged block. -/
theorem dropAt_preview (hregular : e.workspace.Regular) (hacyclic : e.workspace.graph.Acyclic)
    (hstart : pickUp block heal e = .ok target e₁) (hsteps : dragAlong locations e₁ = .ok () e₂)
    {c : Candidate α} (hdrop : dropAt location e₂ = .ok (.connected target c) e₃)
    (hlast : Lasts e₃) :
    ∃ o, e₂.workspace.occupant c.neighbour = .ok o ∧
      match HostRequest.lastPreview (e₂.requests.drop e₁.requests.length) with
      | some (.previewReplacement own neighbour replaced) =>
        (own = c.own ∧ neighbour = c.neighbour) ∧ o = some replaced ∧
          e₃.workspace.Live replaced ∧ e₃.workspace.parent replaced = .ok none
      | some (.previewConnection own neighbour) =>
        (own = c.own ∧ neighbour = c.neighbour) ∧
          ∀ a, o = some a → e₃.workspace.graph.Below a target
      | _ => False := by
  have hkeeps := dropAt_keeps (X := ∅) Editor.stable_true location e₂
  rw [hdrop] at hkeeps
  obtain ⟨hl, s, since, phase, rfl, rfl, hheld⟩ :=
    underway_of_start hregular hacyclic hstart hsteps (hkeeps hlast).1
  have hcomes := (dropAt_comes hl (fun c hc => (hheld c hc).1) location).ok hdrop hlast rfl
  cases hc : s.candidate with
  | none =>
    rw [hc] at hcomes
    obtain ⟨⟨place, hplace⟩, -⟩ := hcomes
    cases hplace
  | some c' =>
    rw [hc] at hcomes
    obtain ⟨hsame, hlands⟩ := hcomes
    cases hsame
    obtain ⟨hoffers, replaced, hd, hshown⟩ := hheld c hc
    obtain ⟨o, hocc, htold⟩ := hlands.previewed hl hoffers
    refine ⟨o, hocc, ?_⟩
    rw [List.drop_left, hshown]
    rw [hd] at htold
    cases replaced with
    | none => exact ⟨⟨rfl, rfl⟩, htold⟩
    | some a =>
      obtain ⟨ho, hlive, hloose⟩ := htold
      obtain ⟨hs, -⟩ := hlands.linked hl hoffers
      obtain ⟨b, hb⟩ := hlive
      exact ⟨⟨rfl, rfl⟩, ho, ⟨b, hb⟩, (hs.parent_eq_none hb).mpr hloose⟩

end Gesture

/-! ### A block dropped on another one -/

/-- A number in a sum, and another block beside it. -/
def sumBeside (typeName : String) : Editor Int :=
  (Editor.fresh .standard Palette.registry).run
    [.newBlock "BinOp", .newBlock "int", .newBlock typeName, .connect ⟨1⟩ ⟨3⟩]

/-- The other block is lifted. -/
def sumLifted (typeName : String) : Editor Int :=
  (pickUp ⟨2⟩ true : Act Int BlockId).leaves (sumBeside typeName)

/-- It is held over the number. -/
def sumHeld (typeName : String) : Editor Int :=
  (dragAlong [⟨200, 0⟩, ⟨30, 0⟩, ⟨40, 0⟩] : Act Int Unit).leaves (sumLifted typeName)

/-- It is dropped there. -/
def sumDropped (typeName : String) : Editor Int :=
  (dropAt ⟨40, 0⟩ : Act Int (DragOutcome Int)).leaves (sumHeld typeName)

/-- A block with one input is dropped on the number, which is plugged into that input then. -/
theorem dropAt_commits_unpack :
    (sumDropped "dict_unpack").workspace.targetOf ⟨4⟩ = some ⟨1⟩ ∧
      (sumDropped "dict_unpack").workspace.targetOf ⟨1⟩ = some ⟨4⟩ ∧
      (sumDropped "dict_unpack").workspace.graph.Acyclic := by
  have hregular : (sumBeside "dict_unpack").workspace.Regular :=
    Editor.run_regular Palette.registry_onePlug (Editor.create_fresh (by decide))
      (by decide +kernel) (Editor.staysAcyclic_of_ordered (by decide +kernel))
  have hacyclic : (sumBeside "dict_unpack").workspace.graph.Acyclic :=
    acyclic_of_ordered (by decide +kernel)
  have hstart : pickUp ⟨2⟩ true (sumBeside "dict_unpack") = .ok ⟨2⟩ (sumLifted "dict_unpack") :=
    eq_ok_of_answer (by decide +kernel)
  have hsteps : dragAlong [⟨200, 0⟩, ⟨30, 0⟩, ⟨40, 0⟩] (sumLifted "dict_unpack") =
      .ok () (sumHeld "dict_unpack") := eq_ok_of_answer (by decide +kernel)
  have hdrop : dropAt ⟨40, 0⟩ (sumHeld "dict_unpack") =
      .ok (.connected ⟨2⟩ ⟨⟨4⟩, ⟨1⟩, 0⟩) (sumDropped "dict_unpack") :=
    eq_ok_of_answer (by decide +kernel)
  have hheld : (sumHeld "dict_unpack").candidate = some ⟨⟨4⟩, ⟨1⟩, 0⟩ := by decide +kernel
  have hlast : Lasts (sumDropped "dict_unpack") := by decide +kernel
  have hend := @dropAt_commits _ _ _ _ _ _ _ _ _ ⟨40, 0⟩ hregular hacyclic hstart hsteps
  rw [hdrop, hheld] at hend
  exact (hend hlast).2

/-- Another sum is dropped on the number, and does not take that in. -/
theorem dropAt_preview_sum : (sumHeld "BinOp").workspace.occupant ⟨1⟩ = .ok (some ⟨1⟩) ∧
    HostRequest.lastPreview ((sumHeld "BinOp").requests.drop (sumLifted "BinOp").requests.length) =
      some (.previewReplacement ⟨4⟩ ⟨1⟩ ⟨1⟩) ∧
    (sumDropped "BinOp").workspace.parent ⟨1⟩ = .ok none := by
  have hregular : (sumBeside "BinOp").workspace.Regular :=
    Editor.run_regular Palette.registry_onePlug (Editor.create_fresh (by decide))
      (by decide +kernel) (Editor.staysAcyclic_of_ordered (by decide +kernel))
  have hacyclic : (sumBeside "BinOp").workspace.graph.Acyclic :=
    acyclic_of_ordered (by decide +kernel)
  have hstart : pickUp ⟨2⟩ true (sumBeside "BinOp") = .ok ⟨2⟩ (sumLifted "BinOp") :=
    eq_ok_of_answer (by decide +kernel)
  have hsteps : dragAlong [⟨200, 0⟩, ⟨30, 0⟩, ⟨40, 0⟩] (sumLifted "BinOp") =
      .ok () (sumHeld "BinOp") := eq_ok_of_answer (by decide +kernel)
  have hdrop : dropAt ⟨40, 0⟩ (sumHeld "BinOp") =
      .ok (.connected ⟨2⟩ ⟨⟨4⟩, ⟨1⟩, 0⟩) (sumDropped "BinOp") :=
    eq_ok_of_answer (by decide +kernel)
  have hshown : HostRequest.lastPreview
      ((sumHeld "BinOp").requests.drop (sumLifted "BinOp").requests.length) =
        some (.previewReplacement ⟨4⟩ ⟨1⟩ ⟨1⟩) := by decide +kernel
  obtain ⟨o, hocc, htold⟩ :=
    dropAt_preview hregular hacyclic hstart hsteps hdrop (by decide +kernel)
  rw [hshown] at htold
  obtain ⟨-, rfl, -, hparent⟩ := htold
  exact ⟨hocc, hshown, hparent⟩

end Act

end BlockEditor
