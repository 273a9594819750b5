import BlockEditor.Proofs.Drops
import BlockEditor.Proofs.Reverting
import BlockEditor.Proofs.RoundTrip

/-!
# Drags that are cancelled

A drag that is cancelled leaves the workspace as its start has found it, but for two things. A block
that hung on nothing loses its decision on copies, and the socket of a placeholder has a template
then, even if it had none.
-/

namespace BlockEditor

open Workspace

variable {α : Type}

namespace Workspace

variable {ws t u v w real : Workspace α} {x : BlockId} {b : Block α} {c : ConnectionId}
  {C C' : Set ConnectionId} {d : DragSession α} {heal : Bool}

/-- The connection has a template. -/
def Stores (ws : Workspace α) (c : ConnectionId) : Prop :=
  ∃ template, ws.templateAt c = some (some template)

instance (ws : Workspace α) (c : ConnectionId) : Decidable (ws.Stores c) :=
  decidable_of_iff ((ws.templateAt c).any Option.isSome) <| by
    unfold Stores
    rcases ws.templateAt c with _ | _ | s <;> simp

/-- The block is the placeholder of the socket. -/
def FillsIn (ws : Workspace α) (x : BlockId) (c : ConnectionId) : Prop :=
  ∃ b, ws.blocks[x]? = some b ∧ b.placeholder ∧ b.output.bind ws.targetOf = some c

instance (ws : Workspace α) (x : BlockId) (c : ConnectionId) : Decidable (ws.FillsIn x c) :=
  decidable_of_iff ((ws.blocks[x]?).any fun b => b.placeholder && b.output.bind ws.targetOf = some c)
    <| by
    unfold FillsIn
    cases ws.blocks[x]? <;> simp

theorem SameStock.stores (h : ws.SameStock t c) : t.Stores c ↔ ws.Stores c := by
  unfold SameStock at h
  unfold Stores
  rcases ht : t.templateAt c with _ | _ | s <;> rcases hw : ws.templateAt c with _ | _ | s' <;>
    simp [ht, hw] at h ⊢

theorem Bares.stores (h : ws.Bares b d real) (hb : ws.blocks[d.block]? = some b) :
    real.Stores c ↔ ws.Stores c ∨ ws.FillsIn d.block c := by
  have fills : ws.FillsIn d.block c ↔ b.placeholder ∧ b.output.bind ws.targetOf = some c := by
    unfold FillsIn
    rw [hb]
    simp
  rw [fills]
  cases h with
  | real hp => simp [hp]
  | told hp _ _ htold => exact ⟨Or.inl, fun h => h.elim id fun h => htold c h.2⟩
  | @given c' v template hp _ _ hin hnone he =>
    change v.Stores c ↔ _
    unfold Stores
    rw [he.templateAt]
    split
    · next hc =>
      subst hc
      exact ⟨fun _ => .inr ⟨hp, hin⟩, fun _ => ⟨template, by rw [hnone]; rfl⟩⟩
    · next hc =>
      refine ⟨.inl, fun h => h.elim id fun h => ?_⟩
      exact (hc (Option.some.inj (h.2.symm.trans hin))).elim

theorem Resembles.mono (h : ws.Resembles C t) (hC : C ⊆ C') : ws.Resembles C' t where
  blocks := h.blocks
  graph := h.graph
  stock c hc := h.stock c fun hmem => hc (hC hmem)
  top := h.top

/-- All is as it was after a drag of the block, apart from templates and from the decision on copies
of a block that was not taken out. -/
structure Returns (ws : Workspace α) (x : BlockId) (heal : Bool) (t : Workspace α) : Prop where
  sound : t.Sound
  detached : ws.HasToDetach x heal → ws.Resembles Set.univ t
  still : ¬ ws.HasToDetach x heal → (ws.withOverride x none).Resembles Set.univ t
  stores : ∀ c, t.Stores c ↔ ws.Stores c ∨ ws.FillsIn x c

namespace Returns

theorem drifts (h : ws.Returns x heal t) (hd : t.Drifts u) : ws.Returns x heal u where
  sound := hd.sound h.sound
  detached hhas := (h.detached hhas).trans hd.resembles
  still hnot := (h.still hnot).trans hd.resembles
  stores c := (hd.sameStock c).stores.trans (h.stores c)

theorem live (h : ws.Returns x heal t) (hl : ws.Live x) : t.Live x := by
  obtain ⟨b, hb⟩ := hl
  have hlooks : ∃ b' : Block α, (t.blocks[x]?).map Block.looks = some b'.looks := by
    by_cases hhas : ws.HasToDetach x heal
    · exact ⟨b, by rw [(h.detached hhas).blocks, hb]; rfl⟩
    · refine ⟨{ b with copyOnDrag := none }, ?_⟩
      rw [(h.still hhas).blocks, withOverride_block, hb]
      simp
  obtain ⟨b', hlooks⟩ := hlooks
  obtain ⟨b'', hb'', -⟩ := Option.map_eq_some_iff.mp hlooks
  exact ⟨b'', hb''⟩

end Returns

theorem Bares.viewport (h : ws.Bares b d real) : real.viewport = ws.viewport := by
  cases h with
  | real => rfl
  | told => rfl
  | @given c v template _ _ _ _ _ he =>
    change v.viewport = _
    rw [he.rest]

/-- The block is made a placeholder again, if it was one. -/
theorem Bares.returns [Scalar α] (h : ws.Bares b d real) (hb : ws.blocks[d.block]? = some b)
    (hhas : ws.HasToDetach d.block heal)
    (hback : if d.wasPlaceholder then
      ∃ u b', (real.Resembles ∅ u ∧ u.Sound) ∧ u.blocks[d.block]? = some b' ∧
        t = { u with blocks := u.blocks.insert d.block { b' with placeholder := true } }
      else real.Resembles ∅ t ∧ t.Sound) : ws.Returns d.block heal t := by
  have returns : t.Sound → (∀ c, real.SameStock t c) → ws.Resembles Set.univ t →
      ws.Returns d.block heal t := fun ht hstock hres =>
    ⟨ht, fun _ => hres, fun hnot => (hnot hhas).elim, fun c => (hstock c).stores.trans (h.stores hb)⟩
  cases h with
  | real hp hmark =>
    rw [hmark] at hback
    exact returns hback.2 (fun c => hback.1.stock c (Set.notMem_empty c))
      (hback.1.mono (Set.empty_subset _))
  | told hp hmark =>
    rw [if_pos hmark] at hback
    obtain ⟨u, b', ⟨hres, hu⟩, hb', rfl⟩ := hback
    exact returns (hu.insert hb' rfl) (fun c => hres.stock c (Set.notMem_empty c))
      ((hres.remark hb hp hb').mono (Set.empty_subset _))
  | given hp hmark _ _ _ he =>
    rw [if_pos hmark] at hback
    obtain ⟨u, b', ⟨hres, hu⟩, hb', rfl⟩ := hback
    exact returns (hu.insert hb' rfl) (fun c => hres.stock c (Set.notMem_empty c))
      ((Resembles.given he (hres.remark (he.block hb) hp hb')).mono (Set.subset_univ _))

/-- A root that was only told to leave no more copies of its own accord. -/
theorem Resembles.returns [Scalar α] (hs : ws.Sound) (hnot : ¬ ws.HasToDetach x heal)
    (hloose : ws.graph.Loose x) (h : (ws.withOverride x none).Resembles ∅ t) (ht : t.Sound) :
    ws.Returns x heal t where
  sound := ht
  detached hhas := (hnot hhas).elim
  still _ := h.mono (Set.empty_subset _)
  stores c := by
    refine (SameStock.stores (h.stock c (Set.notMem_empty c))).trans ⟨Or.inl, ?_⟩
    rintro (h | ⟨b', hb', -, hin⟩)
    · exact h
    · obtain ⟨o, ho, htarget⟩ := Option.bind_eq_some_iff.mp hin
      obtain ⟨y, hy, hyx, hk⟩ := hs.plug hb' (mem_plugs.mpr (Or.inl ho))
      rw [targetOf_eq hy, show y.target = none from
        hloose o y.wire (wire_of_connection hy) hyx hk] at htarget
      cases htarget

/-- A block that was in no socket, and so left no copy, still lies where its drag has started. -/
theorem Withdrawn.lies [Scalar α] {copied : Option ConnectionId} {d' : DragSession α}
    (h : ws.Withdrawn heal d copied d' v) (hs : ws.Sound) (hac : ws.graph.Acyclic)
    (hroot : ws.Rooted) (hnotes : ws.Notes b heal d) (hcopy : d.copy = none)
    (hsocket : ∀ s, copied = some s → b.output.bind ws.targetOf = some s)
    (hstart : d.start = b.position) (hd : v.Rests w) (hnone : d'.parentSocket = none) :
    d'.copy = none ∧ w.Lies d' := by
  cases h with
  | bare hpull =>
    refine ⟨hcopy, fun _ => ?_⟩
    obtain ⟨u, hu, hstack⟩ := hpull.unplugs hs hac hroot hnotes.block
    rw [← hnotes.socket, hnone] at hu hstack
    have hplace := hd.places d.block
    rw [hstack.blocks_of_root, hu.block hs hnotes.block, Option.map_some,
      Option.map_eq_some_iff] at hplace
    obtain ⟨b', hb', hp⟩ := hplace
    exact ⟨b', hb', hp.trans hstart.symm⟩
  | @copied s p k _ hleaves =>
    obtain ⟨o, ho, ht⟩ := Option.bind_eq_some_iff.mp (hsocket s rfl)
    have hplug : d.parentSocket = some s := by
      rw [hnotes.socket, Block.plugs, ho]
      simp [ht]
    cases hplug.symm.trans hnone

theorem Withdrawn.session [Scalar α] {copied : Option ConnectionId} {d' : DragSession α}
    (h : ws.Withdrawn heal d copied d' v) : d' = { d with copy := d'.copy } := by
  cases h with
  | bare => rfl
  | copied => rfl

theorem Loosened.block [Scalar α] {s₀ : DragSession α} (h : ws.Loosened b heal s₀ d v) :
    d.block = s₀.block := by
  cases h with
  | still => rfl
  | detached _ _ hprimed hout => rw [hout.session, hprimed.session]

theorem Loosened.start [Scalar α] {s₀ : DragSession α} (h : ws.Loosened b heal s₀ d v) :
    d.start = s₀.start := by
  cases h with
  | still => rfl
  | detached _ _ hprimed hout => rw [hout.session, hprimed.session]

end Workspace

namespace Edit

variable [Scalar α] {ws t u v w : Workspace α} {x : BlockId} {b : Block α} {c : ConnectionId}
  {d : DragSession α} {heal : Bool} {E : Workspace α → Prop}

section PutBack

variable {offset : Point α} (hs : ws.Sound) (hac : ws.graph.Acyclic) (hroot : ws.Rooted)
  (hb : ws.blocks[x]? = some b) (hd : v.Rests w) (hw : w.Sound) (hrooted : w.Rooted)
  (hback : d.parentSocket = none → ∀ t : Workspace α, t.Sound → t.Live x →
    t.viewport = ws.viewport → t.Lies d → Leads (· = t) (goBack d) (fun _ => t.Drifts) E)

include hback in
theorem goBack_aside {base : Workspace α} (hbase : base.Sound) (hlive : base.Live x)
    (hview : base.viewport = ws.viewport) (hnone : d.parentSocket = none) (hdrifts : base.Drifts t)
    (hlies : t.Lies d) : Leads (· = t) (goBack d) (fun _ => t.Drifts) E := by
  refine hback hnone t (hdrifts.sound hbase) (hdrifts.live hlive) ?_ hlies
  rw [← hview, hdrifts.rest]

include hs hac hroot hb hw hrooted

/-- A block that hung on nothing goes back to where it lay. -/
theorem putBack_returns_still (hd : ws.Rests w) (hnot : ¬ ws.HasToDetach x heal)
    (hloose : ws.graph.Loose x)
    (hback : ∀ t : Workspace α, t.Sound → t.Live x → t.viewport = ws.viewport →
      t.Lies (.begin x b.position offset) →
      Leads (· = t) (goBack (.begin x b.position offset)) (fun _ => t.Drifts) E) :
    Leads (· = w) (putBack (.begin x b.position offset)) (fun _ => ws.Returns x heal) E := by
  have hrecast := recasts_withOverride ws x none
  have hb' : (ws.withOverride x none).blocks[x]? = some { b with copyOnDrag := none } := by
    rw [withOverride_block, hb]
    simp
  have hbase := hrecast.sound hs
  have hroot' : (ws.withOverride x none).Rooted :=
    hroot.congr hrecast.top (fun y ⟨b, hb⟩ => ⟨_, by rw [withOverride_block, hb]; rfl⟩) hrecast.graph
  have htidy : Leads (· = w) (tidyUp (.begin x b.position offset)) (fun _ t =>
      (ws.withOverride x none).Scatters (.begin x b.position offset) t ∧
        t.Lies (.begin x b.position offset)) E := by
    refine (tidyUp_rests hb hloose hd.toDrifts).post ?_
    rintro _ _ ⟨hscatters, rfl⟩
    refine ⟨hscatters, fun _ => ?_⟩
    have hplace := hd.places x
    rw [hb, Option.map_some, Option.map_eq_some_iff] at hplace
    obtain ⟨b', hb', hp⟩ := hplace
    refine ⟨{ b' with copyOnDrag := none }, ?_, hp⟩
    change (w.withOverride x none).blocks[x]? = _
    rw [withOverride_block, hb']
    simp
  exact (putBack_restores hbase (hrecast.graph ▸ hac) hroot' hb'
    (show false = true → _ from nofun) hw hrooted htidy fun hnone t hdrifts hlies =>
      goBack_aside (fun _ => hback) hbase ⟨_, hb'⟩ rfl hnone hdrifts hlies).post
        fun _ t h => h.1.returns hs hnot hloose h.2

include hd hback

/-- A block that was taken out goes back to where it hung. -/
theorem putBack_returns_detached {keeps : Bool} {d₀ : DragSession α} {real : Workspace α}
    (hunder : b.placeholder → ∃ a, ws.graph.Under x a) (hhas : ws.HasToDetach x heal)
    (hprimed : ws.Primed b heal (.begin x b.position offset) d₀ real)
    (hout : real.Withdrawn heal d₀ (ws.copySocket b keeps) d v)
    (hrefill : ∀ k, d.copy = some k → ∀ {c q : ConnectionId} {u u' : Workspace α},
      w.Cuts c q k u → u.Fells k u' → Leads (· = u') (respawn c) (fun _ t => u'.Refills c t) E) :
    Leads (· = w) (putBack d) (fun _ => ws.Returns x heal) E := by
  have hx : d₀.block = x := by
    rw [hprimed.session]
    rfl
  subst hx
  have hreal := hprimed.bares.sound hs hb
  have hgraph := hprimed.bares.graph hb
  have hac' : real.graph.Acyclic := hgraph ▸ hac
  have hroot' := hprimed.bares.rooted hb hroot
  have hnotes := hprimed.notes hb
  have hcopy : d₀.copy = none := by
    rw [hprimed.session]
    rfl
  have hstart : d₀.start = b.position := by
    rw [hprimed.session]
    rfl
  have hsocket : ∀ s, copySocket ws b keeps = some s → b.output.bind real.targetOf = some s := by
    intro s hs
    rw [show real.targetOf = ws.targetOf from funext (targetOf_congr hgraph)]
    rw [copySocket] at hs
    split at hs
    · exact hs
    · cases hs
  have hlies := hout.lies hreal hac' hroot' hnotes hcopy hsocket hstart hd
  have hlying : ∀ t, real.Scatters d t ∧ (d.copy = none → t = w) → real.Scatters d t ∧ t.Lies d :=
    fun t h => ⟨h.1, fun hnone => by
      obtain ⟨hcopy, hlies⟩ := hlies hnone
      obtain rfl := h.2 hcopy
      exact hlies hnone⟩
  have htidy := (tidyUp_scatters hreal hac' hroot' hnotes hcopy hsocket hout hd.toDrifts
    hrefill).post fun _ t h => hlying t h
  have hsession := hout.session
  have hmark : d.wasPlaceholder = b.placeholder := by
    rw [hsession, hprimed.session]
  have hblock : d.block = d₀.block := by
    rw [hsession]
  have hrestores := putBack_restores hreal hac' hroot' (hblock ▸ hnotes.block) (fun h => ?_) hw
    hrooted htidy fun hnone t hdrifts hlies =>
      goBack_aside hback hreal ⟨_, hnotes.block⟩ hprimed.bares.viewport hnone hdrifts hlies
  · refine hrestores.post fun _ t h => ?_
    rw [← hblock]
    have hbares : ws.Bares b d real :=
      hprimed.bares.congr hblock (by rw [hsession]) (by rw [hsession])
    exact hbares.returns (hblock ▸ hb) (hblock ▸ hhas) h
  · rw [hblock, hgraph]
    exact hunder (hmark ▸ h)

/-- What a drag has loosened is put back. -/
theorem putBack_returns (hunder : b.placeholder → ∃ a, ws.graph.Under x a)
    (hloosened : ws.Loosened b heal (.begin x b.position offset) d v)
    (hrefill : ∀ k, d.copy = some k → ∀ {c q : ConnectionId} {u u' : Workspace α},
      w.Cuts c q k u → u.Fells k u' → Leads (· = u') (respawn c) (fun _ t => u'.Refills c t) E) :
    Leads (· = w) (putBack d) (fun _ => ws.Returns x heal) E := by
  cases hloosened with
  | still hnot hloose =>
    exact putBack_returns_still hs hac hroot hb hw hrooted hd hnot hloose (hback rfl)
  | detached hhas _ hprimed hout =>
    exact putBack_returns_detached hs hac hroot hb hd hw hrooted hback hunder hhas hprimed hout
      hrefill

end PutBack

/-- A block is in view, or it is moved there. -/
theorem keepInView_cases (hs : t.Sound) (hb : t.blocks[x]? = some b) :
    keepInView x t = .ok false t ∨ ∃ r, t.viewport = some r ∧
      keepInView x t = (do moveTo x (r.clamp b.position) "bump"; return true : Edit α Bool) t := by
  have hget : (get : Edit α (Workspace α)) t = .ok t t := rfl
  have hparent : ∃ above, (query (·.parent x) : Edit α (Option BlockId)) t = .ok above t :=
    ⟨_, by simp only [query, hs.parent_eq hb]; rfl⟩
  obtain ⟨above, hparent⟩ := hparent
  unfold keepInView
  rw [bind_eq hget]
  cases t.viewport with
  | none => exact .inl rfl
  | some r =>
    dsimp only
    rw [bind_eq hparent]
    split
    · exact .inl rfl
    rw [bind_eq (query_block hb)]
    split
    · exact .inl rfl
    · exact .inr ⟨r, rfl, rfl⟩

theorem keepInView_wanders (hs : ws.Sound) (hl : ws.Live x) : Wanders ws (keepInView x) := by
  have base := keepInView_keeps (Editor.calm_true (α := α)) x
  refine Tells.each base fun t hd => ?_
  obtain ⟨b, hb⟩ := hd.live hl
  rcases keepInView_cases (hd.sound hs) hb with hstay | ⟨r, -, hmove⟩
  · refine Tells.of_result base ?_
    rintro _ rfl
    rw [hstay]
    exact hd
  · have hmoves : Tells (· = t) (do moveTo x (r.clamp b.position) "bump"; return true : Edit α Bool)
        (fun _ => ws.Drifts) fun e t => e.NonFinite ∧ ws.Drifts t := by
      refine ((moveTo_wanders hs hl _ _).pre ?_).bind fun _ => Tells.of_leads (Leads.pure fun _ h => h)
      rintro _ rfl
      exact hd
    refine Tells.congr base hmoves ?_
    rintro _ rfl
    exact hmove

theorem goBack_wanders (hs : ws.Sound) (hl : ws.Live d.block) : Wanders ws (goBack d) :=
  (moveTo_wanders hs hl _ _).bind fun _ => (keepInView_wanders hs hl).bind fun _ =>
    Tells.of_leads (Leads.pure fun _ h => h)

end Edit

namespace Act

variable [Scalar α] {ws w : Workspace α} {e e₁ e₂ : Editor α} {block x target : BlockId}
  {heal : Bool} {d d' : DragSession α} {F : Prop}

/-- What comes after a block was put back is not refused. -/
theorem closeReverted_drifts {P : Workspace α → Prop} (hlive : ∀ t, P t → t.Sound ∧ t.Live x)
    (h : ∀ t u, P t → t.Drifts u → P u) :
    Leads (Within P) (closeReverted x) (fun _ => Within P) fun _ => False := by
  have hcalm : Leads (Within P) (fireDragEnd x) (fun _ => Within P) fun _ => False :=
    (draggedWith_keeps x).bind fun _ => edit_leads (F := fun _ => False)
      (Leads.fire fun t ht => h t _ ht (drifts_aside t _ t.tasks))
  have hclear : Leads (Within P) (clearVisuals x) (fun _ => Within P) fun _ => False := by
    refine Tells.each (clearVisuals_keeps Editor.quiet_true x) ?_
    intro e he
    refine (clearVisuals_roams (hlive _ he).1 (hlive _ he).2).weaken ?_ (fun _ _ hd => h _ _ he hd)
      fun _ h => h
    rintro _ rfl
    exact Drifts.refl _
  unfold closeReverted
  exact look_keeps.bind fun e => Leads.optional (fun _ => hcalm)
    (hclear.bind fun _ => closeGesture_drifts h)

/-- A drag that has gone on is cancelled as it would have been from the start. -/
theorem putBack_continues (h : d.Continues d') :
    (Edit.putBack d' : Edit α Unit) = Edit.putBack d := by
  rw [h]
  rfl

/-- What a cancelled drag leads to is what comes of putting its block back. -/
theorem cancelDrag_leads {w : Workspace α} {P : Workspace α → Prop} (h : d.Continues d')
    (hlive : ∀ t, P t → t.Sound ∧ t.Live d.block) (hdrift : ∀ t u, P t → t.Drifts u → P u)
    (hback : Leads (· = w) (Edit.putBack d) (fun _ => P) fun _ => F) :
    Leads (fun e => e.workspace = w ∧ e.session = some d') (cancelDrag (α := α))
      (fun _ => Within P) fun _ => F := by
  have base := cancelDrag_keeps (X := ∅) (Editor.stable_true (α := α))
  refine Tells.each base ?_
  rintro ⟨t, _, requests, phase⟩ ⟨rfl, rfl⟩
  have hblock : d'.block = d.block := by
    rw [h]
  have hsession : cancelDrag ⟨t, some d', requests, phase⟩ =
      (followedBy (edit (Edit.putBack d')) (closeReverted d'.block) : Act α Unit)
        ⟨t, none, requests, .reverting⟩ := rfl
  rw [putBack_continues h, hblock] at hsession
  refine Tells.resume base hsession ?_
  have hput : Leads (· = ⟨t, none, requests, .reverting⟩) (edit (Edit.putBack d) : Act α Unit)
      (fun _ => Within P) fun _ => F := by
    refine (edit_leads hback).pre ?_
    rintro _ rfl
    rfl
  refine followedBy_leads (E := fun _ => F) hput
    (fun _ => (closeReverted_drifts hlive hdrift).refused fun _ h => h.elim) ?_
  refine Tells.of_result (closeReverted_keeps Editor.quiet_true d.block)
    fun e hF => ?_
  split <;> exact hF

/-- A drag of the session is under way, and nothing has happened to the workspace. -/
def Goes (w : Workspace α) (d : DragSession α) (e : Editor α) : Prop :=
  e.workspace = w ∧ ∃ d', e.session = some d' ∧ d.Continues d'

theorem dragTo_goes (w : Workspace α) (d : DragSession α) (location : Point α) :
    Keeps (Goes w d) (dragTo location) := by
  refine dragTo_rounds (fun r => Leads.modify (fun _ h => h) fun _ h => h) (fun f hf => ?_) location
  refine Leads.modify (fun _ h => h) ?_
  rintro e ⟨hw, d', hd, hgoes⟩
  refine ⟨hw, f d', by rw [hd]; rfl, ?_⟩
  have hstep := hf d'
  unfold DragSession.Continues at hgoes hstep ⊢
  rw [hstep, hgoes]

omit [Scalar α] in
theorem hasToDetach_withLog (log : EventLog α) (x : BlockId) (heal : Bool) :
    (Logged.withLog ws log).HasToDetach x heal ↔ ws.HasToDetach x heal := by
  have hparent : (Logged.withLog ws log).parent x = ws.parent x := parent_withLog x
  have hnext : (Logged.withLog ws log).nextBlock x = ws.nextBlock x := by
    simp only [nextBlock, block_withLog, blockAcross_withLog]
  constructor
  · rintro (⟨h⟩ | ⟨hheal, h⟩)
    · exact .child (hparent ▸ h)
    · exact .stack hheal (hnext ▸ h)
  · rintro (⟨h⟩ | ⟨hheal, h⟩)
    · exact .child (hparent ▸ h)
    · exact .stack hheal (hnext ▸ h)

omit [Scalar α] in
theorem returns_of_relogs {u t : Workspace α} (hrelog : Relogs ws u) (h : u.Returns x heal t) :
    ws.Returns x heal t := by
  obtain ⟨log, rfl⟩ := hrelog
  have hd : ws.Drifts { ws with events := log } := drifts_aside ws log ws.tasks
  have hsame : (Logged.withLog ws log).HasToDetach x heal ↔ ws.HasToDetach x heal :=
    hasToDetach_withLog log x heal
  exact ⟨h.sound, fun hhas => hd.resembles.trans (h.detached (hsame.mpr hhas)),
    fun hnot => (hd.withOverride x none).resembles.trans (h.still fun hhas => hnot (hsame.mp hhas)),
    h.stores⟩

/-- A drag is cancelled after nothing but steps of it. -/
theorem cancelDrag_returns {offset : Point α} {b : Block α} {u v : Workspace α}
    (hs : e.workspace.Sound) (hac : e.workspace.graph.Acyclic) (hroot : e.workspace.Rooted)
    (hgrasps : e.workspace.Grasps block (target, offset)) (hrelog : Relogs e.workspace u)
    (hb : u.blocks[target]? = some b)
    (hloosened : u.Loosened b heal (.begin target b.position offset) d v) (hd : v.Rests w)
    (hw : w.Sound) (hrooted : w.Rooted)
    (hrefill : ∀ k, d.copy = some k → ∀ {c q : ConnectionId} {t t' : Workspace α},
      w.Cuts c q k t → t.Fells k t' →
      Leads (· = t') (Edit.respawn c) (fun _ => t'.Refills c) fun _ => F)
    (hback : d.parentSocket = none → ∀ t : Workspace α, t.Sound → t.Live target →
      t.viewport = e.workspace.viewport → t.Lies d →
      Leads (· = t) (Edit.goBack d) (fun _ => t.Drifts) fun _ => F) :
    Leads (Goes w d) (cancelDrag (α := α))
      (fun _ => Within (e.workspace.Returns target heal)) fun _ => F := by
  have hblock := hloosened.block
  have hrelogs := hrelog
  obtain ⟨log, rfl⟩ := hrelog
  have hdrift : e.workspace.Drifts { e.workspace with events := log } :=
    drifts_aside e.workspace log e.workspace.tasks
  have hb' : e.workspace.blocks[target]? = some b := hb
  have hput := Edit.putBack_returns (hdrift.sound hs) (hdrift.graph ▸ hac)
    (hroot.congr hdrift.top (fun _ => hdrift.live) hdrift.graph) hb hd hw hrooted hback
    (fun hp => hdrift.graph ▸ hgrasps.under hs hb' hp) hloosened hrefill
  have hcancel : ∀ d', d.Continues d' → Leads (fun e => e.workspace = w ∧ e.session = some d')
      (cancelDrag (α := α)) (fun _ => Within (e.workspace.Returns target heal)) fun _ => F :=
    fun d' h => cancelDrag_leads h
      (fun t ht => ⟨ht.sound, hblock ▸ ht.live ⟨b, hb'⟩⟩) (fun _ _ ht hd => ht.drifts hd)
      (hput.post fun _ _ ht => returns_of_relogs hrelogs ht)
  refine Tells.each (cancelDrag_keeps (X := ∅) (Editor.stable_true (α := α))) ?_
  rintro e' ⟨hw', d', hd', hgoes⟩
  refine (hcancel d' hgoes).pre ?_
  rintro _ rfl
  exact ⟨hw', hd'⟩

end Act

namespace Editor

open Act

variable [Scalar α] {config : EditorConfig α} {registry : Registry} {e e₁ e₂ : Editor α}
  {actions : List (Action α)} {locations : List (Point α)} {block target : BlockId} {heal : Bool}
  {c : ConnectionId}

theorem run_goes {w : Workspace α} {d : DragSession α} (h : Goes w d e)
    (hlast : Lasts (e.run (locations.map .dragTo))) : Goes w d (e.run (locations.map .dragTo)) := by
  induction locations generalizing e with
  | nil => exact h
  | cons location rest ih =>
    have hstep : Leads (· = e) (perform (.dragTo location)) (fun _ => Goes w d) (Goes w d) := by
      refine Leads.pre (discard_leads (dragTo_goes w d location)) ?_
      rintro _ rfl
      exact h
    have hafter : Lasts (e.after (.dragTo location)) := lasts_of_run hlast
    exact ih (after_of_leads hstep hafter) hlast

/-- After a drag that was cancelled without anything but steps of it in between, a connection has a
template if it had one before, and also if it is the socket of the placeholder that was dragged. -/
theorem cancelDrag_stores (hone : registry.OnePlug) (hstart : create config registry = .ok e)
    (hacyclic : (e.run actions).workspace.graph.Acyclic)
    (hpick : pickUp block heal (e.run actions) = .ok target e₁)
    (hcancel : cancelDrag (e₁.run (locations.map .dragTo)) = .ok () e₂) (hlast : Lasts e₂)
    (c : ConnectionId) :
    e₂.workspace.Stores c ↔
      (e.run actions).workspace.Stores c ∨ (e.run actions).workspace.FillsIn target c := by
  have hsteps : Lasts (e₁.run (locations.map .dragTo)) := by
    have hstep := cancelDrag_keeps (X := ∅) (stable_true (α := α)) (e₁.run (locations.map .dragTo))
    rw [hcancel] at hstep
    exact (hstep hlast).1
  have hpicked : Lasts e₁ := lasts_of_run hsteps
  have hkept := pickUp_keeps (X := Set.univ) stable_rooted block heal (e.run actions)
  rw [hpick] at hkept
  obtain ⟨hbefore, hkept⟩ := hkept hpicked
  have hs := run_wired hone hstart hbefore
  have hroot := run_rooted hone hstart hbefore
  have hw := hkept ⟨hs, hroot⟩
  obtain ⟨-, offset, b, d, u, v, hgrasps, hrelog, hb, hloosened, hd, hsession⟩ :=
    (pickUp_tells hs hacyclic hroot block heal).ok hpick hpicked rfl
  have hgoes : Goes e₁.workspace d (e₁.run (locations.map .dragTo)) :=
    run_goes ⟨rfl, d, hsession, rfl⟩ hsteps
  have hreturns := cancelDrag_returns (F := True) hs hacyclic hroot hgrasps hrelog hb hloosened hd
    hw.sound hw.keeps (fun k _ c q t t' hc hf => ?_) fun _ t ht hl _ _ => ?_
  · exact (hreturns.ok hcancel hlast hgoes).stores c
  · refine (Edit.respawn_keeps (X := ∅) growing_true t' c).weaken ?_ (fun _ _ h => h.2)
      fun _ _ => trivial
    rintro _ rfl
    exact ⟨rfl, hf.sound (hc.sound hw.sound), trivial⟩
  · refine (Edit.goBack_wanders ht (hloosened.block ▸ hl)).weaken ?_ (fun _ _ h => h) fun _ _ _ => trivial
    rintro _ rfl
    exact Drifts.refl _

/-- A statement that returns a placeholder, which nobody has asked for. -/
def placeholderReturned : Editor Int :=
  (fresh .standard Palette.registry).run
    [.newBlock "Return", .newPlaceholder "int", .connect ⟨1⟩ ⟨2⟩]

/-- The placeholder is picked up. -/
def placeholderHeld : Editor Int :=
  (pickUp ⟨1⟩ false : Act Int BlockId).leaves placeholderReturned

/-- It is moved about, and the drag is cancelled. -/
def placeholderBack (locations : List (Point Int)) : Editor Int :=
  (cancelDrag : Act Int Unit).leaves (placeholderHeld.run (locations.map .dragTo))

/-- Its socket has a template then, which brings the placeholder back. -/
theorem cancelDrag_stores_returned :
    placeholderReturned.workspace.FillsIn ⟨1⟩ ⟨1⟩ ∧
      (placeholderBack [⟨40, 40⟩]).workspace.Stores ⟨1⟩ := by
  have hfills : placeholderReturned.workspace.FillsIn ⟨1⟩ ⟨1⟩ := by decide +kernel
  have hpick : pickUp ⟨1⟩ false placeholderReturned = .ok ⟨1⟩ placeholderHeld :=
    eq_ok_of_answer (by decide +kernel)
  have hcancel : cancelDrag (placeholderHeld.run ([(⟨40, 40⟩ : Point Int)].map .dragTo)) =
      .ok () (placeholderBack [⟨40, 40⟩]) := eq_ok_of_answer (by decide +kernel)
  exact ⟨hfills, (cancelDrag_stores Palette.registry_onePlug (create_fresh (by decide))
    (acyclic_of_ordered (by decide +kernel)) hpick hcancel (by decide +kernel) ⟨1⟩).mpr (.inr hfills)⟩

/-- The socket had no template before. -/
theorem cancelDrag_stores_unasked :
    pickUp ⟨1⟩ false placeholderReturned = .ok ⟨1⟩ placeholderHeld ∧
      cancelDrag (placeholderHeld.run ([].map .dragTo)) = .ok () (placeholderBack []) ∧
      ¬ ((placeholderBack []).workspace.Stores ⟨1⟩ ↔ placeholderReturned.workspace.Stores ⟨1⟩) :=
  ⟨eq_ok_of_answer (by decide +kernel), eq_ok_of_answer (by decide +kernel), by decide +kernel⟩

end Editor

end BlockEditor
