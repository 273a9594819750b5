import BlockEditor.Proofs.Detaching
import BlockEditor.Proofs.Events.Echo
import BlockEditor.Proofs.Picking

/-!
# Giving up a start

A drag that cannot be started is given up. The editor is at rest then, and everything that was there
is as it was, apart from the template of the socket in which a copy was to stay.
-/

namespace BlockEditor

open Workspace

variable {α : Type}

namespace Workspace

variable {ws t u real : Workspace α} {b : Block α} {s p : ConnectionId} {C C' : Set ConnectionId}
  {d s₀ : DragSession α} {heal : Bool}

theorem Recovers.mono (h : ws.Recovers C t) (hC : C ⊆ C') : ws.Recovers C' t where
  blocks := h.blocks
  wires := h.wires
  templates c hc := h.templates c fun hmem => hc (hC hmem)
  top := h.top

theorem Recovers.after (h : u.Recovers C t) (hd : ws.Drifts u) : ws.Recovers C t where
  blocks x hx := by rw [h.blocks x (by rw [hd.ids]; exact hx), hd.blocks]
  wires c hc := by rw [h.wires c (by rw [hd.ids]; exact hc), hd.graph]
  templates c hC hc := by rw [h.templates c hC (by rw [hd.ids]; exact hc), hd.templateAt]
  top := by rw [← hd.ids, h.top, hd.top]

theorem Primed.remembers (h : ws.Primed b heal s₀ d real) (hs : ws.Sound)
    (hb : ws.blocks[d.block]? = some b) (hparted : real.Parted C s p d.block t) :
    real.Remembers { b with placeholder := false } s d where
  block := h.bares.block hb
  socket := by
    obtain ⟨u, hc, -⟩ := hparted.cut
    obtain ⟨w, v, hl, hv⟩ := hc.link
    rw [h.bares.graph hb] at hl
    rw [h.session]
    exact (hs.findSome?_plugs hb).mpr ⟨p, w, v, hl, hv⟩
  below q hq := by
    rw [h.session] at hq
    dsimp only at hq
    split at hq
    · obtain ⟨n, hn, ht⟩ := Option.bind_eq_some_iff.mp hq
      exact ⟨n, hn, (targetOf_congr (h.bares.graph hb) n).trans ht⟩
    · cases hq
  override := by rw [h.session]

/-- The block of a drag hangs on nothing and leaves nothing behind, or it is detached. -/
inductive Loosened [Scalar α] (ws : Workspace α) (b : Block α) (heal : Bool) (s₀ : DragSession α) :
    DragSession α → Workspace α → Prop
  | still : ¬ ws.HasToDetach s₀.block heal → ws.graph.Loose s₀.block → Loosened ws b heal s₀ s₀ ws
  | detached {keeps : Bool} {d d' : DragSession α} {real t : Workspace α} :
      ws.HasToDetach s₀.block heal → ws.leavesCopy s₀.block = .ok keeps →
      ws.Primed b heal s₀ d real → real.Withdrawn heal d (ws.copySocket b keeps) d' t →
      Loosened ws b heal s₀ d' t

/-- A drag of `block` moves the block that was found, and it may be moved. -/
def Grasps [Scalar α] (ws : Workspace α) (block : BlockId) (found : BlockId × Point α) : Prop :=
  ws.dragTarget block = .ok found ∧ ws.isMovable found.1 = .ok true

/-- A copy of the block that a drag of `block` moves is to stay in the socket. -/
def CopyStays [Scalar α] (ws : Workspace α) (block : BlockId) (c : ConnectionId) : Prop :=
  ∃ target offset b, ws.dragTarget block = .ok (target, offset) ∧ ws.blocks[target]? = some b ∧
    ws.leavesCopy target = .ok true ∧ b.placeholder = false ∧ b.output.bind ws.targetOf = some c

end Workspace

namespace Act

variable [Scalar α] {ws real : Workspace α} {b : Block α} {d s₀ : DragSession α} {heal : Bool}
  {copied : Option ConnectionId}

/-- A start that was foiled is undone. -/
theorem abandon_recovers (hs : ws.Sound) (hroot : ws.Rooted) (hb : ws.blocks[s₀.block]? = some b) :
    Leads (fun e => ∃ d real, ws.Primed b heal s₀ d real ∧ Foiled real d copied e)
      (abandon s₀.block)
      (fun _ e => ws.Recovers {c | copied = some c} e.workspace ∧ e.session = none)
      fun _ => False := by
  have base := abandon_keeps (Editor.stable_true (α := α)) s₀.block
  refine Tells.each base ?_
  rintro ⟨t, session, requests, phase⟩ ⟨d, real, hprimed, C, s, p, hC, copy, haway, hsession⟩
  dsimp only at haway hsession
  subst session
  have hx : d.block = s₀.block := by rw [hprimed.session]
  obtain ⟨u, hparted⟩ := haway.parted
  have hrem := hprimed.remembers hs (hx ▸ hb) hparted
  set d' : DragSession α := { d with copy := copy } with hd'
  have htake : abandon s₀.block ⟨t, some d', requests, phase⟩ = (do
      edit (Edit.rollBack d')
      clearVisuals s₀.block
      finishGesture : Act α Unit) ⟨t, none, requests, phase⟩ := rfl
  refine Tells.resume base htake ?_
  have hback := Edit.rollBack_restores (C := C) (p := p) hs hroot (d := d') (hx ▸ hb)
    (hprimed.bares.congr rfl rfl rfl) ⟨hrem.block, hrem.socket, hrem.below, hrem.override⟩
  refine Leads.bind (Q := fun _ => Beside (fun u => ws.Recovers C u ∧ u.Sound) (· = none))
    (Tells.weaken (edit_beside hback) ?_ (fun _ _ h => h) fun _ _ h => h.1) fun _ => ?_
  · rintro _ rfl
    exact ⟨haway, rfl⟩
  refine Leads.bind (Q := fun _ => Beside (ws.Recovers C) (· = none)) ?_ fun _ => ?_
  · refine Tells.each (clearVisuals_keeps Editor.quiet_true s₀.block) ?_
    rintro e ⟨⟨hrec, he⟩, hrest⟩
    have hlive : e.workspace.Live s₀.block := by
      have hsame := hrec.blocks s₀.block (hs.blockIds hb)
      rw [hb, Option.map_some, Option.map_eq_some_iff] at hsame
      obtain ⟨b', hb', -⟩ := hsame
      exact ⟨b', hb'⟩
    refine (clearVisuals_beside (S := (· = none)) he hlive).weaken ?_ ?_ fun _ h => h
    · rintro _ rfl
      exact ⟨Drifts.refl _, hrest⟩
    · exact fun _ e' h => ⟨hrec.drifts h.1, h.2⟩
  · refine (finishGesture_beside fun t u h hd => h.drifts hd).weaken (fun _ h => h) ?_ fun _ h => h
    exact fun _ e' h => ⟨h.1.mono hC, h.2⟩

/-- A refusal leaves the session as it was, and everything that was there. -/
def Undone (C : Set ConnectionId) (ws : Workspace α) (session : Option (DragSession α))
    (e : Editor α) : Prop :=
  ws.Recovers C e.workspace ∧ e.session = session

/-- A block is detached if it need be. -/
theorem loosen_tells (s₀ : DragSession α) (heal : Bool) (hs : ws.Sound) (hac : ws.graph.Acyclic)
    (hroot : ws.Rooted) (hb : ws.blocks[s₀.block]? = some b) (hcopy : s₀.copy = none)
    (hnone : s₀.templateSocket = none) {keeps : Bool} (hkeeps : ws.leavesCopy s₀.block = .ok keeps) :
    Leads (Beside (· = ws) (· = none)) (loosen s₀ heal)
      (fun s e => Beside (ws.Loosened b heal s₀ s) (· = none) e)
      (Undone {c | ws.copySocket b keeps = some c} ws none) := by
  have unchanged : ∀ e, Beside (· = ws) (· = none) e →
      Undone {c | ws.copySocket b keeps = some c} ws none e := by
    rintro ⟨t, session, requests⟩ ⟨rfl, rfl⟩
    exact ⟨.refl hroot hs, rfl⟩
  unfold loosen
  refine Leads.bind ((hasToDetach_learns s₀.block heal).refused unchanged) fun on => ?_
  refine Leads.ite (fun hon => Leads.pure ?_) fun hon => ?_
  · obtain rfl : on = false := by simpa using hon
    rintro ⟨t, session, requests⟩ ⟨⟨rfl, rfl⟩, hhas, hparent⟩
    have hnot : ¬ t.HasToDetach s₀.block heal := fun h => nomatch hhas.mpr h
    exact ⟨.still hnot ((hs.parent_eq_none hb).mp (hparent rfl)), rfl⟩
  refine Leads.pre (P := fun e => Beside (· = ws) (· = none) e ∧ ws.HasToDetach s₀.block heal) ?_ ?_
  case refine_2 =>
    rintro ⟨t, session, requests⟩ ⟨⟨rfl, rfl⟩, hhas, -⟩
    exact ⟨⟨rfl, rfl⟩, hhas.mp (by simpa using hon)⟩
  refine Leads.bind (Q := fun _ => Beside (fun t => t = ws ∧ ws.HasToDetach s₀.block heal)
    (· = some s₀)) ?_ fun _ => ?_
  · exact Leads.pre (setSession_beside (S := fun _ => True) rfl) fun _ h =>
      ⟨⟨h.1.1, h.2⟩, trivial⟩
  refine Leads.bind (Q := fun _ e => ∃ s, e.session = some s ∧
    ws.Loosened b heal s₀ s e.workspace) ?_ fun _ => takeSession_hands
  refine Leads.tryCatch (Leads.weaken (detach_tells hs hac hb hcopy hnone hkeeps heal).frame
    (fun _ h => ⟨⟨h.1.1, h.2⟩, h.1.2⟩) ?_ fun _ h => h) fun refusal => ?_
  · rintro _ e ⟨⟨d, real, d', hprimed, hd, hout⟩, hhas⟩
    exact ⟨d', hd, .detached hhas hkeeps hprimed hout⟩
  · refine Leads.pre ?_ fun _ h => h.1
    refine Leads.bind ((abandon_recovers hs hroot hb).refused fun _ h => h.elim) fun _ => ?_
    exact Leads.throw fun _ h => h

theorem copyStays_of_copySocket {block target : BlockId} {offset : Point α} {keeps : Bool}
    {c : ConnectionId} (htarget : ws.dragTarget block = .ok (target, offset))
    (hb : ws.blocks[target]? = some b) (hkeeps : ws.leavesCopy target = .ok keeps)
    (h : copySocket ws b keeps = some c) : ws.CopyStays block c := by
  rw [copySocket] at h
  split at h
  · next hon =>
    rw [Bool.and_eq_true, Bool.not_eq_true'] at hon
    exact ⟨target, offset, b, htarget, hb, hon.1 ▸ hkeeps, hon.2, h⟩
  · cases h

/-- The workspace apart from its log of events. -/
def Relogs (ws t : Workspace α) : Prop :=
  ∃ log, t = { ws with events := log }

omit [Scalar α] in
theorem relog_beside {S : Option (DragSession α) → Prop} {E : Editor α → Prop}
    (f : Workspace α → EventLog α) :
    Leads (Beside (Relogs ws) S) (edit (modify fun t => { t with events := f t }))
      (fun _ => Beside (Relogs ws) S) E := by
  refine Tells.weaken (edit_beside (Q := fun _ => Relogs ws) (E := fun _ _ => False)
    (Leads.alter ?_)) (fun _ h => h) (fun _ _ h => h) fun _ _ h => h.1.elim
  rintro _ ⟨log, rfl⟩
  exact ⟨f _, rfl⟩

/-- A drag is under way, and its block was loosened. -/
def Started (ws : Workspace α) (block : BlockId) (heal : Bool) (target : BlockId) (e : Editor α) :
    Prop :=
  ∃ offset b s u v, ws.Grasps block (target, offset) ∧ Relogs ws u ∧
    u.blocks[target]? = some b ∧ u.Loosened b heal (.begin target b.position offset) s v ∧
    v.Rests e.workspace ∧ e.session = some s

/-- What was reported before a block is loosened makes no difference. -/
theorem loosen_relogged (hs : ws.Sound) (hac : ws.graph.Acyclic) (hroot : ws.Rooted)
    {block : BlockId} {found : BlockId × Point α} (heal : Bool)
    (hfound : ws.Grasps block found) :
    Leads (Beside (fun t => Relogs ws t ∧ t.block found.1 = .ok b) (· = none))
      (loosen (.begin found.1 b.position found.2) heal)
      (fun s e => ∃ u, Relogs ws u ∧ u.blocks[found.1]? = some b ∧
        u.Loosened b heal (.begin found.1 b.position found.2) s e.workspace ∧
          e.workspace.Lifted found.1)
      (Undone {c | ws.CopyStays block c} ws none) := by
  refine Tells.each (loosen_keeps (X := ∅) (Editor.stable_true (α := α)) _ heal) ?_
  rintro ⟨_, session, requests⟩ ⟨⟨⟨log, rfl⟩, hb⟩, hrest⟩
  rw [block_eq_ok] at hb
  set u : Workspace α := { ws with events := log } with hu
  have hd : ws.Drifts u := drifts_aside ws log ws.tasks
  obtain ⟨keeps, hkeeps⟩ := (hd.sound hs).leavesCopy_ok hb
  have hkeeps' : ws.leavesCopy found.1 = .ok keeps :=
    (leavesCopy_withLog found.1).symm.trans hkeeps
  have hundone := loosen_tells (.begin found.1 b.position found.2) heal (hd.sound hs) hac hroot hb
    rfl rfl hkeeps
  refine (hundone.and (loosen_lifts _ heal rfl)).weaken ?_ ?_ ?_
  · rintro _ rfl
    exact ⟨⟨rfl, hrest⟩, ⟨hd.sound hs, hac⟩, hrest⟩
  · exact fun s e h => ⟨u, ⟨log, rfl⟩, hb, h.1.1, h.2.1.1⟩
  · intro e h
    exact ⟨(h.1.1.after hd).mono fun c hc => copyStays_of_copySocket hfound.1 hb hkeeps' hc, h.1.2⟩

/-- The drag starts with its block loosened, or nothing has happened. -/
theorem takeUp_tells (hs : ws.Sound) (hac : ws.graph.Acyclic) (hroot : ws.Rooted)
    (block : BlockId) (heal : Bool) :
    Leads (Beside (· = ws) (· = none)) (takeUp block heal) (Started ws block heal)
      (Undone {c | ws.CopyStays block c} ws none) := by
  have drifted : ∀ t, Relogs ws t → ws.Drifts t := by
    rintro _ ⟨log, rfl⟩
    exact drifts_aside ws log ws.tasks
  have aside : ∀ e, Beside (Relogs ws) (· = none) e →
      Undone {c | ws.CopyStays block c} ws none e :=
    fun e h => ⟨(Recovers.refl hroot hs).drifts (drifted _ h.1), h.2⟩
  have same : Relogs ws ws := ⟨ws.events, rfl⟩
  unfold takeUp
  refine Leads.bind ((ask_learns _).refused fun e h => aside e ⟨h.1 ▸ same, h.2⟩) fun found => ?_
  refine Leads.bind ((ask_learns _).refused fun e h => aside e ⟨h.1.1 ▸ same, h.1.2⟩) fun on => ?_
  refine Leads.optionally (Q := fun _ e => Beside (Relogs ws) (· = none) e ∧ ws.Grasps block found)
    (fun _ => Leads.throw fun e h => aside e ⟨h.1.1.1 ▸ same, h.1.1.2⟩) ?_ ?_
  · rintro hon ⟨t, session, requests⟩ ⟨⟨⟨rfl, hidle⟩, hfound⟩, hmovable⟩
    obtain rfl : on = true := by simpa using hon
    exact ⟨⟨same, hidle⟩, hfound, hmovable⟩
  refine Leads.bind ((relog_beside _).frame.refused fun _ h => aside _ h.1) fun _ => ?_
  refine Leads.bind ((ask_keeps _).refused fun _ h => aside _ h.1) fun dragged => ?_
  refine Leads.bind ((relog_beside _).frame.refused fun _ h => aside _ h.1) fun _ => ?_
  refine Leads.bind ((ask_learns _).refused fun _ h => aside _ h.1) fun b => ?_
  have asked : ∀ r, Leads (fun e => (Beside (fun t => Relogs ws t ∧ t.block found.1 = .ok b)
      (· = none)) e ∧ ws.Grasps block found) (request r : Act α Unit)
      (fun _ e => (Beside (fun t => Relogs ws t ∧ t.block found.1 = .ok b)
        (· = none)) e ∧ ws.Grasps block found)
      (Undone {c | ws.CopyStays block c} ws none) :=
    fun r => (Leads.frame (E := fun _ => False) (request_beside r)).refused fun _ h => h.1.elim
  refine Leads.pre ?_ fun e (h : (Beside (Relogs ws) (· = none) e ∧
    ws.Grasps block found) ∧ e.workspace.block found.1 = .ok b) =>
      (⟨⟨⟨h.1.1.1, h.2⟩, h.1.1.2⟩, h.1.2⟩ : (Beside (fun t => Relogs ws t ∧ t.block found.1 = .ok b)
        (· = none)) e ∧ ws.Grasps block found)
  refine (asked _).bind fun _ => (asked _).bind fun _ => (asked _).bind fun _ => ?_
  refine Leads.bind (Q := fun s e => (∃ u, Relogs ws u ∧ u.blocks[found.1]? = some b ∧
    u.Loosened b heal (.begin found.1 b.position found.2) s e.workspace ∧
      e.workspace.Lifted found.1) ∧ ws.Grasps block found) ?_ fun s => ?_
  · have base := loosen_keeps (X := ∅) (Editor.stable_true (α := α))
      (DragSession.begin found.1 b.position found.2) heal
    exact Tells.assuming base fun hfound =>
      (loosen_relogged hs hac hroot heal hfound).post fun _ _ h => ⟨h, hfound⟩
  refine Leads.refused (E := fun _ => False) ?_ fun _ h => h.elim
  refine Leads.bind (Q := fun _ e => ∃ u v, Relogs ws u ∧ u.blocks[found.1]? = some b ∧
    u.Loosened b heal (.begin found.1 b.position found.2) s v ∧ v.Rests e.workspace ∧
      ws.Grasps block found) ?_ fun _ => ?_
  · refine Tells.each (edit_leads (Edit.markDragging_keeps Editor.quiet_true found.1 true)) ?_
    rintro e ⟨⟨u, hu, hb, hloosened, hl⟩, hfound⟩
    refine Leads.weaken (edit_leads (Edit.markDragging_rests hl.sound hl.live true)) ?_ ?_
      fun _ h => h
    · rintro _ rfl
      exact Rests.refl _
    · exact fun _ e' hd => ⟨u, e.workspace, hu, hb, hloosened, hd, hfound⟩
  refine Leads.bind (Q := fun _ e => ∃ u v, Relogs ws u ∧ u.blocks[found.1]? = some b ∧
    u.Loosened b heal (.begin found.1 b.position found.2) s v ∧ v.Rests e.workspace ∧
      ws.Grasps block found) (Leads.modify (fun _ h => h) fun _ h => h) fun _ => ?_
  refine Leads.bind (Q := fun _ => Started ws block heal found.1) (Leads.modify (fun _ h => h) ?_)
    fun _ => Leads.bind (Q := fun _ => Started ws block heal found.1)
      (Leads.modify (fun _ h => h) fun _ h => h) fun _ => Leads.pure fun _ h => h
  rintro e ⟨u, v, hu, hb, hloosened, hd, hfound⟩
  exact ⟨found.2, b, s, u, v, hfound, hu, hb, hloosened, hd, rfl⟩

/-- A drag starts while none is under way; a refused start leaves everything that was there. -/
theorem pickUp_tells {e : Editor α} (hs : e.workspace.Sound) (hac : e.workspace.graph.Acyclic)
    (hroot : e.workspace.Rooted) (block : BlockId) (heal : Bool) :
    Leads (· = e) (pickUp block heal)
      (fun target t => e.session = none ∧ Started e.workspace block heal target t)
      (Undone {c | e.workspace.CopyStays block c} e.workspace e.session) := by
  have base := pickUp_keeps (X := ∅) (Editor.stable_true (α := α)) block heal
  obtain ⟨ws, session, requests, phase⟩ := e
  cases session with
  | some s =>
    refine Tells.of_result base ?_
    rintro _ rfl
    exact ⟨.refl hroot hs, rfl⟩
  | none =>
    have hidle : pickUp block heal ⟨ws, none, requests, phase⟩ =
        (takeUp block heal : Act α BlockId) ⟨ws, none, requests, phase⟩ := rfl
    refine Tells.resume base hidle ((takeUp_tells hs hac hroot block heal).weaken ?_
      (fun _ _ h => ⟨rfl, h⟩) fun _ h => h)
    rintro _ rfl
    exact ⟨rfl, rfl⟩

end Act

namespace Editor

open Workspace Act

section Refused

variable [Scalar α] {config : EditorConfig α} {registry : Registry} {e t : Editor α}
  {actions : List (Action α)} {block : BlockId} {heal : Bool} {refusal : EditError α}

/-- A drag whose start is refused, however late, leaves the session as it was, and all blocks, links
and top blocks that were there. The same holds of the templates, except in the socket in which a
copy was to stay. Only what was built on the way may be left over, linked to nothing that was there. -/
theorem pickUp_refused (hone : registry.OnePlug) (hstart : create config registry = .ok e)
    (hacyclic : (e.run actions).workspace.graph.Acyclic)
    (hrefused : pickUp block heal (e.run actions) = .error refusal t) (hlast : Lasts t) :
    (e.run actions).workspace.Recovers {c | (e.run actions).workspace.CopyStays block c}
        t.workspace ∧
      t.session = (e.run actions).session := by
  have hbefore : Lasts (e.run actions) := by
    have hstep := pickUp_keeps (X := ∅) (Editor.stable_true (α := α)) block heal (e.run actions)
    rw [hrefused] at hstep
    exact (hstep hlast).1
  exact (pickUp_tells (run_wired hone hstart hbefore) hacyclic (run_rooted hone hstart hbefore)
    block heal).error hrefused hlast rfl

end Refused

/-- A sum is returned by a statement. It would leave a copy, but one of its inputs has a template of
a type that does not exist. -/
def sumReturned : Editor Int :=
  (fresh .standard Palette.registry).run [.newBlock "Return", .newBlock "BinOp", .newBlock "int",
    .connect ⟨3⟩ ⟨5⟩, .connect ⟨1⟩ ⟨2⟩, .setTemplate ⟨3⟩ (some (.ofType "nope")), .dispose ⟨2⟩,
    .setCopyOnDrag ⟨1⟩ (some true)]

/-- The sum goes back to where it was. -/
theorem pickUp_refused_sum : ∃ t,
    pickUp ⟨1⟩ false sumReturned = .error (.unknownBlockType "nope") t ∧
      sumReturned.workspace.Recovers {c | sumReturned.workspace.CopyStays ⟨1⟩ c} t.workspace ∧
      t.session = sumReturned.session := by
  have hrefused : pickUp ⟨1⟩ false sumReturned = .error (.unknownBlockType "nope")
      ((pickUp ⟨1⟩ false : Act Int BlockId).leaves sumReturned) :=
    eq_error_of_refusal (by decide +kernel)
  exact ⟨_, hrefused, pickUp_refused Palette.registry_onePlug (create_fresh (by decide))
    (acyclic_of_ordered (by decide +kernel)) hrefused (by decide +kernel)⟩

/-- A copy that could be built in part only is left over. -/
theorem pickUp_refused_strands : ∃ t,
    pickUp ⟨1⟩ false sumReturned = .error (.unknownBlockType "nope") t ∧
      sumReturned.workspace.top = [⟨0⟩] ∧ t.workspace.top = [⟨0⟩, ⟨3⟩] ∧
      sumReturned.workspace.blockCount = 2 ∧ t.workspace.blockCount = 3 :=
  ⟨_, eq_error_of_refusal (by decide +kernel), by decide +kernel, by decide +kernel,
    by decide +kernel, by decide +kernel⟩

end Editor

end BlockEditor
