import BlockEditor.Proofs.Dragging
import BlockEditor.Proofs.Evaluation
import BlockEditor.Proofs.Workspace.Drifting

/-!
# What a drag may hold

The rules for a candidate are looked at when it is found, and not again while it is held. A step of
a drag finds what the rules allow, and is refused only if an end of the candidate that was held is
gone. What it hands back that the rules do not allow is what was held before.
-/

namespace BlockEditor

variable {α : Type}

namespace Workspace

variable {ws : Workspace α} {id x : BlockId} {b : Block α} {own neighbour c : ConnectionId}
  {y z : Connection α} {dragged : List BlockId}

/-! ### The rules -/

/-- The rules for an end of a block that is dragged with others, and an end near to it. What is
plugged into an input must be a placeholder or movable; a taken next connection is for a block
that has one itself; other ends must be free. -/
structure Abides (ws : Workspace α) (b : Block α) (dragged : List BlockId) (neighbour : ConnectionId)
    (y z : Connection α) : Prop where
  free : y.target = none
  outside : z.block ∉ dragged
  unshelved : ∃ o, ws.blocks[z.block]? = some o ∧ o.inFlyout = false
  kind : z.kind = y.kind.opposite
  fits : y.fits z
  spare : z.kind.isPlug → z.target = none
  value : z.kind = .inputValue → ∀ a, ws.across neighbour = some a →
    ∃ o, ws.blocks[a]? = some o ∧ (o.movable ∨ o.placeholder)
  next : z.kind = .nextStatement → z.target.isSome → b.next.isSome

/-- Two ends that a drag of a block may hold as its candidate. -/
def Allows (ws : Workspace α) (x : BlockId) (own neighbour : ConnectionId) : Prop :=
  ∃ b dragged ends y z, ws.blocks[x]? = some b ∧ ws.descendants x = .ok dragged ∧
    ws.dragEnds x = .ok ends ∧ own ∈ ends ∧ ws.connections[own]? = some y ∧
    ws.connections[neighbour]? = some z ∧ ws.Abides b dragged neighbour y z

/-- The ends of a candidate are still there. -/
def Ended (ws : Workspace α) (own neighbour : ConnectionId) : Prop :=
  ∃ y z, ws.connections[own]? = some y ∧ ws.connections[neighbour]? = some z

theorem Allows.ended (h : ws.Allows x own neighbour) : ws.Ended own neighbour := by
  obtain ⟨-, -, -, y, z, -, -, -, -, hy, hz, -⟩ := h
  exact ⟨y, z, hy, hz⟩

/-- What yields to another block is a placeholder or movable. -/
theorem yields_across (h : ws.yields z) (hz : ws.connections[neighbour]? = some z) {a : BlockId}
    (ha : ws.across neighbour = some a) : ∃ o, ws.blocks[a]? = some o ∧ (o.movable ∨ o.placeholder) := by
  obtain ⟨p, hp, ha⟩ := Option.bind_eq_some_iff.mp ha
  rw [targetOf_eq hz] at hp
  obtain ⟨plug, hplug, rfl⟩ := Option.map_eq_some_iff.mp ha
  unfold yields at h
  rw [hp, Option.bind_some, hplug] at h
  dsimp only at h
  cases ho : ws.blocks[plug.block]? with
  | none =>
    rw [ho] at h
    cases h
  | some o =>
    rw [ho, Bool.or_eq_true] at h
    exact ⟨o, rfl, h⟩

theorem abides_of_offers (hz : ws.connections[neighbour]? = some z) (hk : z.kind = y.kind.opposite)
    (h : ws.offers dragged b.next.isSome y neighbour z) : ws.Abides b dragged neighbour y z := by
  unfold offers isOpenTo at h
  simp only [Bool.and_eq_true, Bool.not_eq_true', Connection.isConnected,
    Option.isSome_eq_false_iff, Option.isNone_iff_eq_none] at h
  obtain ⟨⟨⟨hout, hfits⟩, hshelf⟩, hfree, hopen⟩ := h
  refine ⟨hfree, fun hin => ?_, ?_, hk, hfits, fun hplug => ?_, fun hvalue a ha => ?_,
    fun hnext htaken => ?_⟩
  · rw [← List.contains_iff_mem, hout] at hin
    cases hin
  · cases ho : ws.blocks[z.block]? with
    | none =>
      rw [ho] at hshelf
      cases hshelf
    | some o =>
      rw [ho] at hshelf
      exact ⟨o, rfl, by simpa using hshelf⟩
  · cases hkind : z.kind with
    | outputValue | previousStatement =>
      rw [hkind] at hopen
      simpa using hopen
    | inputValue | nextStatement =>
      rw [hkind] at hplug
      cases hplug
  · rw [hvalue] at hopen
    exact yields_across hopen hz ha
  · rw [hnext] at hopen
    simp only [Bool.or_eq_true, Bool.not_eq_true', htaken, Bool.true_eq_false, false_or] at hopen
    exact hopen

/-- A candidate that is found is allowed. -/
theorem bestCandidate_allows [Scalar α] {holding : Bool} {delta : Point α} {found : Candidate α}
    (h : ws.bestCandidate id holding delta = .ok (some found)) :
    ws.Allows id found.own found.neighbour := by
  obtain ⟨b, dragged, ends, y, z, hb, hdragged, hends, hown, hy, hz, hk, h⟩ :=
    bestCandidate_eq_some h
  exact ⟨b, dragged, ends, y, z, hb, hdragged, hends, hown, hy, hz, abides_of_offers hz hk h⟩

/-! ### The search is not refused -/

theorem Sound.endPosition_ok [Scalar α] (hs : ws.Sound) (hy : ws.connections[c]? = some y) :
    ∃ place, ws.endPosition c = .ok place := by
  obtain ⟨b, hb, -⟩ := hs.owner hy
  simp only [endPosition, connection_eq_ok.mpr hy, block_eq_ok.mpr hb, bind, Except.bind, pure,
    Except.pure]
  exact ⟨_, rfl⟩

theorem Sound.dragEnds_ok (hs : ws.Sound) (hb : ws.blocks[x]? = some b) :
    ∃ ends, ws.dragEnds x = .ok ends ∧ ∀ c ∈ ends, ∃ y, ws.connections[c]? = some y := by
  have hlisted : ∀ c ∈ b.connections, ∃ y, ws.connections[c]? = some y := fun c hc =>
    (hs.connection_of_mem hb hc).imp fun y hy => hy.1
  obtain ⟨found, hfound, hvacant⟩ := hs.furnished.stackEndWithin_vacant (n := ws.walkBound) ⟨b, hb⟩
  have hend : ws.stackEnd x true = .ok found := hfound
  simp only [Workspace.dragEnds, block_eq_ok.mpr hb, hend, bind, Except.bind, pure, Except.pure]
  cases found with
  | none => exact ⟨b.connections, rfl, hlisted⟩
  | some last =>
    have hlast : ∀ c ∈ b.connections ++ [last], ∃ y, ws.connections[c]? = some y := by
      intro c hc
      rcases List.mem_append.mp hc with hc | hc
      · exact hlisted c hc
      · rw [List.mem_singleton.mp hc]
        exact (hvacant last rfl).socket.imp fun y hy => hy.1
    dsimp only
    split
    · exact ⟨b.connections, rfl, hlisted⟩
    · exact ⟨b.connections ++ [last], rfl, hlast⟩

theorem Sound.nearest_ok [Scalar α] (hs : ws.Sound) (hy : ws.connections[own]? = some y)
    (radius : α) (delta : Point α) (accept : Connection α → ConnectionId → Connection α → Bool) :
    ∃ found, ws.nearest own radius delta accept = .ok found := by
  obtain ⟨place, hplace⟩ := hs.endPosition_ok hy
  simp only [nearest, connection_eq_ok.mpr hy, hplace, bind, Except.bind, pure, Except.pure]
  exact ⟨_, rfl⟩

theorem Sound.bestCandidate_ok [Scalar α] (hs : ws.Sound) (hl : ws.Live x) (holding : Bool)
    (delta : Point α) : ∃ found, ws.bestCandidate x holding delta = .ok found := by
  obtain ⟨b, hb⟩ := hl
  obtain ⟨dragged, hdragged, -⟩ := hs.descendants hb
  obtain ⟨ends, hends, hlisted⟩ := hs.dragEnds_ok hb
  have hfold : ∀ (l : List ConnectionId) (found : Option (Candidate α)) radius accept,
      (∀ c ∈ l, ∃ y, ws.connections[c]? = some y) →
      ∃ best, l.foldlM (ws.nearerCandidate radius delta accept) found = .ok best := by
    intro l
    induction l with
    | nil => exact fun found radius accept _ => ⟨found, rfl⟩
    | cons own rest ih =>
      intro found radius accept hl
      obtain ⟨y, hy⟩ := hl own List.mem_cons_self
      obtain ⟨near, hnear⟩ :=
        hs.nearest_ok hy ((found.map (·.distance)).getD radius) delta accept
      have hrest := fun next => ih next radius accept fun c hc => hl c (List.mem_cons_of_mem own hc)
      rw [List.foldlM_cons]
      unfold nearerCandidate
      rw [hnear]
      cases near with
      | none => exact hrest found
      | some p => exact hrest (some ⟨own, p.1, p.2⟩)
  obtain ⟨best, hbest⟩ := hfold ends none
    (if holding then ws.config.connectingRadius else ws.config.snapRadius)
    (ws.offers dragged b.next.isSome) hlisted
  exact ⟨best, by simpa only [bestCandidate, hdragged, block_eq_ok.mpr hb, hends, bind, Except.bind]
    using hbest⟩

theorem Sound.candidateDistance_ok [Scalar α] (hs : ws.Sound) {held : Candidate α}
    (hown : ws.connections[held.own]? = some y) (hnear : ws.connections[held.neighbour]? = some z)
    (delta : Point α) : ∃ distance, ws.candidateDistance held delta = .ok distance := by
  obtain ⟨p, hp⟩ := hs.endPosition_ok hown
  obtain ⟨q, hq⟩ := hs.endPosition_ok hnear
  simp only [candidateDistance, hp, hq, bind, Except.bind, pure, Except.pure]
  exact ⟨_, rfl⟩

theorem Sound.displaced_ok [Scalar α] (hs : ws.Sound) (hl : ws.Live x) {held : Candidate α}
    (hown : ws.connections[held.own]? = some y) (hnear : ws.connections[held.neighbour]? = some z) :
    ∃ replaced, ws.displaced x held = .ok replaced := by
  unfold displaced
  simp only [connection_eq_ok.mpr hown, connection_eq_ok.mpr hnear, bind, Except.bind, pure,
    Except.pure]
  split
  · exact ⟨none, rfl⟩
  · cases ht : z.target with
    | none => exact ⟨none, rfl⟩
    | some plug =>
      obtain ⟨p, hp, -⟩ := hs.target hnear ht
      obtain ⟨o, ho, -⟩ := hs.owner hp
      obtain ⟨home, hhome, -⟩ := hs.furnished.orphanHome_vacant hp hl
      simp only [connection_eq_ok.mpr hp, block_eq_ok.mpr ho, hhome]
      split
      · exact ⟨none, rfl⟩
      · cases home with
        | none => exact ⟨some p.block, rfl⟩
        | some c => exact ⟨none, rfl⟩

end Workspace

namespace Act

open Workspace

section Step

variable [Scalar α] {β γ : Type} {m : Act α β} {f : β → Act α γ} {e t : Editor α} {a : β}
  {s : DragSession α} {location : Point α}

/-- One of two candidates is chosen, if the ends of the one that was held are still there. -/
theorem choose_eq (hs : e.workspace.Sound) {held : Option (Candidate α)}
    (hheld : ∀ c, held = some c → e.workspace.Ended c.own c.neighbour) (found : Candidate α)
    (delta : Point α) : ∃ chosen, choose held found delta e = .ok chosen e ∧ (chosen = found ∨
      ∃ c, held = some c ∧ chosen.own = c.own ∧ chosen.neighbour = c.neighbour) := by
  cases held with
  | none => exact ⟨found, rfl, Or.inl rfl⟩
  | some c =>
    obtain ⟨y, z, hy, hz⟩ := hheld c rfl
    obtain ⟨distance, hdistance⟩ := hs.candidateDistance_ok hy hz delta
    unfold choose
    dsimp only
    rw [bind_eq (query_eq hdistance), bind_eq (m := get) (a := e) (t := e) rfl]
    split
    · exact ⟨{ c with distance := distance }, rfl, Or.inr ⟨c, rfl, rfl, rfl⟩⟩
    · exact ⟨found, rfl, Or.inl rfl⟩

theorem preview_eq (hs : e.workspace.Sound) {x : BlockId} (hl : e.workspace.Live x)
    {c : Candidate α} (hc : e.workspace.Ended c.own c.neighbour) :
    ∃ t, preview x c e = .ok () t ∧ t.workspace = e.workspace := by
  obtain ⟨y, z, hy, hz⟩ := hc
  obtain ⟨replaced, hreplaced⟩ := hs.displaced_ok hl hy hz
  unfold preview
  rw [bind_eq (query_eq hreplaced)]
  cases replaced with
  | none => exact ⟨_, rfl, rfl⟩
  | some a => exact ⟨_, rfl, rfl⟩

/-- A step of a drag to a finite place is carried out, if the ends of the candidate that was held
are still there. -/
theorem dragTo_eq (hs : e.workspace.Sound) (hdrag : e.session = some s)
    (hl : e.workspace.Live s.block)
    (hheld : ∀ c, s.candidate = some c → e.workspace.Ended c.own c.neighbour)
    (hfinite : location.isFinite) :
    ∃ found t, dragTo location e = .ok found t ∧ t.workspace = e.workspace ∧
      ∀ c, found = some c → e.workspace.Allows s.block c.own c.neighbour ∨
        ∃ h, s.candidate = some h ∧ c.own = h.own ∧ c.neighbour = h.neighbour := by
  obtain ⟨ws, _, requests, phase⟩ := e
  dsimp only at hs hdrag hl hheld ⊢
  subst hdrag
  obtain ⟨found, hfound⟩ := hs.bestCandidate_ok hl s.candidate.isSome
    (location + s.offset - s.start)
  have hactive : (activeSession : Act α (DragSession α)) ⟨ws, some s, requests, phase⟩ =
      .ok s ⟨ws, some s, requests, phase⟩ := rfl
  have hplace : (edit (Edit.requireFinite location) : Act α Unit) ⟨ws, some s, requests, phase⟩ =
      .ok () ⟨ws, some s, requests, phase⟩ := by
    unfold edit Edit.requireFinite
    rw [if_pos hfinite]
    rfl
  unfold dragTo
  set moved : DragSession α := { s with current := location + s.offset } with hmoved
  set asked := requests ++ [HostRequest.moveDuringDrag s.block (location + s.offset)]
  have hcurrent : updateSession (fun d => { d with current := location + s.offset })
      ⟨ws, some s, requests, phase⟩ = .ok () ⟨ws, some moved, requests, phase⟩ := rfl
  have hshown : request (.moveDuringDrag s.block (location + s.offset))
      ⟨ws, some moved, requests, phase⟩ = .ok () ⟨ws, some moved, asked, phase⟩ := rfl
  have hsearch : query (·.bestCandidate s.block s.candidate.isSome (location + s.offset - s.start))
      ⟨ws, some moved, asked, phase⟩ = .ok found ⟨ws, some moved, asked, phase⟩ := query_eq hfound
  rw [bind_eq hactive, bind_eq hplace]
  dsimp only
  rw [bind_eq hcurrent, bind_eq hshown, bind_eq hsearch]
  cases found with
  | none =>
    have hdropped : updateSession (fun d => { d with candidate := none })
        (⟨ws, some moved, asked, phase⟩ : Editor α) =
          .ok () ⟨ws, some { moved with candidate := none }, asked, phase⟩ := rfl
    dsimp only
    rw [bind_eq hdropped]
    split
    · exact ⟨none, _, rfl, rfl, fun c hc => by cases hc⟩
    · exact ⟨none, _, rfl, rfl, fun c hc => by cases hc⟩
  | some best =>
    obtain ⟨chosen, hchosen, hwhich⟩ := choose_eq (e := ⟨ws, some moved, asked, phase⟩) hs hheld best
      (location + s.offset - s.start)
    have hallowed : ws.Allows s.block chosen.own chosen.neighbour ∨
        ∃ h, s.candidate = some h ∧ chosen.own = h.own ∧ chosen.neighbour = h.neighbour := by
      refine hwhich.imp_left fun hbest => ?_
      rw [hbest]
      exact bestCandidate_allows hfound
    have hstands : ws.Ended chosen.own chosen.neighbour := by
      rcases hallowed with h | ⟨h, hc, hown, hneighbour⟩
      · exact h.ended
      · rw [hown, hneighbour]
        exact hheld h hc
    have hset : updateSession (fun d => { d with candidate := some chosen })
        (⟨ws, some moved, asked, phase⟩ : Editor α) =
          .ok () ⟨ws, some { moved with candidate := some chosen }, asked, phase⟩ := rfl
    dsimp only
    rw [bind_eq hchosen, bind_eq hset]
    split
    · obtain ⟨t, ht, hws⟩ :=
        preview_eq (e := ⟨ws, some { moved with candidate := some chosen }, asked, phase⟩) hs hl hstands
      rw [bind_eq ht]
      exact ⟨some chosen, t, rfl, hws, fun c hc => Option.some.inj hc ▸ hallowed⟩
    · exact ⟨some chosen, _, rfl, rfl, fun c hc => Option.some.inj hc ▸ hallowed⟩

end Step

end Act

/-! ### Steps of a drag in a run -/

namespace Editor

open Workspace Act

section Held

variable [Scalar α] {config : EditorConfig α} {registry : Registry} {e : Editor α}
  {actions : List (Action α)} {s : DragSession α} {location : Point α}

/-- A step of a drag is carried out if the ends of the candidate that was held are still there.
What it hands back is allowed, or is what was held. -/
theorem dragTo_allows (hone : registry.OnePlug) (hstart : create config registry = .ok e)
    (hlast : Lasts (e.run actions)) (hdrag : (e.run actions).session = some s)
    (hlive : (e.run actions).workspace.Live s.block)
    (hheld : ∀ c, s.candidate = some c → (e.run actions).workspace.Ended c.own c.neighbour)
    (hfinite : location.isFinite) :
    ∃ found t, dragTo location (e.run actions) = .ok found t ∧
      t.workspace = (e.run actions).workspace ∧ ∀ c, found = some c →
        t.workspace.Allows s.block c.own c.neighbour ∨
          ∃ h, s.candidate = some h ∧ c.own = h.own ∧ c.neighbour = h.neighbour := by
  obtain ⟨found, t, hstep, hws, hallowed⟩ :=
    dragTo_eq (run_wired hone hstart hlast) hdrag hlive hheld hfinite
  exact ⟨found, t, hstep, hws, fun c hc => hws ▸ hallowed c hc⟩

end Held

/-- A number is dragged over the second of two statements that lie in one place. -/
def numberHeld (more : List (Action Int)) : Editor Int :=
  (fresh .standard Palette.registry).run
    ([.newBlock "int", .newBlock "Return", .newBlock "Return", .pickUp ⟨0⟩ false,
      .dragTo ⟨40, 0⟩] ++ more)

/-- Something is found also when the first statement is put into the flyout. -/
theorem dragTo_allows_number : Lasts (numberHeld [.setInFlyout ⟨1⟩ true]) ∧
    (numberHeld [.setInFlyout ⟨1⟩ true]).candidate = some ⟨⟨0⟩, ⟨4⟩, 0⟩ ∧
    ∃ found t, dragTo ⟨40, 0⟩ (numberHeld [.setInFlyout ⟨1⟩ true]) = .ok found t ∧
      t.workspace = (numberHeld [.setInFlyout ⟨1⟩ true]).workspace ∧ ∀ c, found = some c →
        t.workspace.Allows ⟨0⟩ c.own c.neighbour ∨ c.own = ⟨0⟩ ∧ c.neighbour = ⟨4⟩ := by
  have hlast : Lasts (numberHeld [.setInFlyout ⟨1⟩ true]) := by decide +kernel
  have hnumber : (numberHeld [.setInFlyout ⟨1⟩ true]).candidate = some ⟨⟨0⟩, ⟨4⟩, 0⟩ := by
    decide +kernel
  have hblock : (numberHeld [.setInFlyout ⟨1⟩ true]).session.map (·.block) = some ⟨0⟩ := by
    decide +kernel
  obtain ⟨s, hs, hx⟩ := Option.map_eq_some_iff.mp hblock
  have hcandidate : s.candidate = some ⟨⟨0⟩, ⟨4⟩, 0⟩ := by
    rw [Editor.candidate, hs] at hnumber
    exact hnumber
  have hlive : (numberHeld [.setInFlyout ⟨1⟩ true]).workspace.Live s.block :=
    hx ▸ hasBlock_iff.mp (by decide +kernel)
  have hended : (numberHeld [.setInFlyout ⟨1⟩ true]).workspace.Ended ⟨0⟩ ⟨4⟩ := by
    have hown : ∃ y, (numberHeld [.setInFlyout ⟨1⟩ true]).workspace.connections[
        (⟨0⟩ : ConnectionId)]? = some y := Option.isSome_iff_exists.mp (by decide +kernel)
    have hnear : ∃ z, (numberHeld [.setInFlyout ⟨1⟩ true]).workspace.connections[
        (⟨4⟩ : ConnectionId)]? = some z := Option.isSome_iff_exists.mp (by decide +kernel)
    obtain ⟨y, hy⟩ := hown
    obtain ⟨z, hz⟩ := hnear
    exact ⟨y, z, hy, hz⟩
  have hheld : ∀ c, s.candidate = some c →
      (numberHeld [.setInFlyout ⟨1⟩ true]).workspace.Ended c.own c.neighbour := by
    intro c hc
    rw [hcandidate, Option.some.injEq] at hc
    subst hc
    exact hended
  have hfinite : (⟨40, 0⟩ : Point Int).isFinite := rfl
  obtain ⟨found, t, hstep, hws, hallowed⟩ := dragTo_allows Palette.registry_onePlug
    (create_fresh (by decide)) hlast hs hlive hheld hfinite
  refine ⟨hlast, hnumber, found, t, hstep, hws, fun c hc => ?_⟩
  rcases hallowed c hc with h | ⟨h, hh, hown, hneighbour⟩
  · exact Or.inl (hx ▸ h)
  · rw [hcandidate, Option.some.injEq] at hh
    subst hh
    exact Or.inr ⟨hown, hneighbour⟩

/-- A candidate goes on to be held when its block is put into the flyout. When its block is
removed, the next step is refused, though another block is at hand. -/
theorem dragTo_keeps_forbidden :
    (∃ t, dragTo ⟨40, 0⟩ (numberHeld [.setInFlyout ⟨2⟩ true]) = .ok (some ⟨⟨0⟩, ⟨4⟩, 0⟩) t ∧
      ¬ t.workspace.Allows ⟨0⟩ ⟨0⟩ ⟨4⟩) ∧
    ∃ t, dragTo ⟨40, 0⟩ (numberHeld [.dispose ⟨2⟩]) = .error (.unknownConnection ⟨4⟩) t := by
  refine ⟨⟨_, eq_ok_of_answer (by decide +kernel), ?_⟩, _, eq_error_of_refusal (by decide +kernel)⟩
  rintro ⟨b, dragged, ends, y, z, -, -, -, -, -, hz, habides⟩
  obtain ⟨o, ho, hout⟩ := habides.unshelved
  have howner : (((dragTo ⟨40, 0⟩ : Act Int _).leaves
      (numberHeld [.setInFlyout ⟨2⟩ true])).workspace.connections[(⟨4⟩ : ConnectionId)]?).map
        (·.block) = some ⟨2⟩ := by decide +kernel
  have hshelved : (((dragTo ⟨40, 0⟩ : Act Int _).leaves
      (numberHeld [.setInFlyout ⟨2⟩ true])).workspace.blocks[(⟨2⟩ : BlockId)]?).map
        (·.inFlyout) = some true := by decide +kernel
  rw [hz, Option.map_some, Option.some.injEq] at howner
  rw [howner] at ho
  rw [ho, Option.map_some, hout] at hshelved
  cases hshelved

end Editor

end BlockEditor
