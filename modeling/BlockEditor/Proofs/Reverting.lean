import BlockEditor.Proofs.Abandoning
import BlockEditor.Proofs.Restoring
import BlockEditor.Proofs.Reuniting

/-!
# Giving up a drag

A drag that is given up puts its block back. The copy in its socket goes, its override is as it was,
the statement below comes back, and then the block itself.
-/

namespace BlockEditor

open Workspace

variable {α : Type}

namespace Workspace

variable {ws base real t u v w : Workspace α} {x y k : BlockId} {b : Block α}
  {c n o s p q : ConnectionId} {heal keeps : Bool} {d d' s₀ : DragSession α}
  {copied : Option ConnectionId}

/-- What a drag has noted of the workspace that it takes its block out of. -/
structure Notes (ws : Workspace α) (b : Block α) (heal : Bool) (d : DragSession α) : Prop where
  block : ws.blocks[d.block]? = some b
  socket : d.parentSocket = b.plugs.findSome? ws.targetOf
  below : d.childPlug = if heal then b.next.bind ws.targetOf else none
  override : d.priorCopyOnDrag = b.copyOnDrag

/-- Nothing stands in for the block of a drag but the placeholder of its socket. -/
def Lacks (ws : Workspace α) (d : DragSession α) (t : Workspace α) : Prop :=
  ∃ base u, ws.Drifts base ∧ base.Unplugs d.block d.parentSocket u ∧ u.Drifts t

/-- What is more, the statement below the block may be left behind. -/
def Scatters (ws : Workspace α) (d : DragSession α) (t : Workspace α) : Prop :=
  ∃ base b u v, ws.Drifts base ∧ base.blocks[d.block]? = some b ∧
    base.Unplugs d.block d.parentSocket u ∧
    u.Unstacks b.next d.childPlug d.parentSocket v ∧ v.Drifts t

/-- A block that was in no socket lies where its drag has started. -/
def Lies (t : Workspace α) (d : DragSession α) : Prop :=
  d.parentSocket = none → ∃ b, t.blocks[d.block]? = some b ∧ b.position = d.start

theorem Primed.notes (h : ws.Primed b heal s₀ d real) (hb : ws.blocks[d.block]? = some b) :
    real.Notes { b with placeholder := false } heal d where
  block := h.bares.block hb
  socket := by
    rw [show real.targetOf = ws.targetOf from funext (targetOf_congr (h.bares.graph hb)), h.session]
    rfl
  below := by
    rw [show real.targetOf = ws.targetOf from funext (targetOf_congr (h.bares.graph hb)), h.session]
  override := by rw [h.session]

/-- A placeholder that may be dragged hangs on another block. -/
theorem Grasps.under [Scalar α] {block : BlockId} {found : BlockId × Point α}
    (h : ws.Grasps block found) (hs : ws.Sound) (hb : ws.blocks[found.1]? = some b)
    (hp : b.placeholder) : ∃ a, ws.graph.Under found.1 a := by
  have hmovable := h.2
  unfold isMovable at hmovable
  cases hn : ws.walkBound with
  | zero =>
    rw [hn] at hmovable
    cases hmovable
  | succ n =>
    rw [hn, isMovableWithin] at hmovable
    simp only [hb, hp, if_true, hs.parent_eq hb, bind, Except.bind] at hmovable
    cases habove : (b.plugs.findSome? ws.targetOf).bind fun s =>
        (ws.connections[s]?).map (·.block) with
    | none =>
      rw [habove] at hmovable
      cases hmovable
    | some a => exact ⟨a, (hs.parent_eq_some hb).mp ((hs.parent_eq hb).trans (congrArg _ habove))⟩

/-- A block that was pulled out of a socket is missing there. -/
theorem Pulls.waits (h : ws.Pulls x heal u) (hs : ws.Sound) (hac : ws.graph.Acyclic)
    (hb : ws.blocks[x]? = some b) (hsocket : b.output.bind ws.targetOf = some s) :
    ∃ p, ws.Waits s p x u := by
  obtain ⟨o, ho, ht⟩ := Option.bind_eq_some_iff.mp hsocket
  have hout : ws.Unplugs x (some s) u := by
    have hplug : b.plugs.findSome? ws.targetOf = some s := by
      rw [Block.plugs, ho]
      simp [ht]
    cases h with
    | value hb₁ ho₁ hfree =>
      obtain rfl := Option.some.inj (hb.symm.trans hb₁)
      exact hplug ▸ hfree.unplugs hs hac hb (mem_plugs.mpr (Or.inl ho₁))
    | root hb₁ ho₁ | statement hb₁ ho₁ | healed hb₁ ho₁ =>
      obtain rfl := Option.some.inj (hb.symm.trans hb₁)
      rw [ho] at ho₁
      cases ho₁
  cases hout with
  | out hwaits => exact ⟨_, hwaits⟩

/-- A copy that was left in the socket is there, and the block leaves no more copies. -/
theorem Leaves.astray [Scalar α] (h : ws.Leaves heal s p x k t) (hs : ws.Sound)
    (hac : ws.graph.Acyclic) (hb : ws.blocks[x]? = some b)
    (hsocket : b.output.bind ws.targetOf = some s) :
    ∃ p base, (ws.withOverride x (some false)).Drifts base ∧ base.Astray s p x t := by
  obtain ⟨u, v, q, w, b', ⟨hpull, -, -⟩, hf, hv, -, hseat, hb', rfl⟩ := h.steps
  obtain ⟨p, hwaits⟩ := hpull.waits hs hac hb hsocket
  have haway := hwaits.seats hs hf hv hseat
  obtain ⟨base, hd, hbase⟩ := haway.withOverride hs x (some false)
  refine ⟨p, base, hd, ?_⟩
  rw [insert_eq_withOverride hb']
  exact hbase

end Workspace

namespace Edit

variable [Scalar α] {ws base real t u v w : Workspace α} {x y k : BlockId} {b : Block α}
  {c n o s p q : ConnectionId} {heal : Bool} {d d' s₀ : DragSession α}
  {copied : Option ConnectionId} {E : Workspace α → Prop}

/-- The copy goes, and the socket gets its placeholder back. -/
theorem discardCopy_waits (h : ws.Astray s p x t) (hs : ws.Sound) (hk : t.graph.Hangs s k)
    (hrefill : ∀ {s q : ConnectionId} {u v : Workspace α}, t.Cuts s q k u → u.Fells k v →
      Leads (· = v) (respawn s) (fun _ t => v.Refills s t) E) :
    Leads (· = t) (discardCopy k) (fun _ t => ws.Waits s p x t) E := by
  have ht := h.sound
  have hlive : t.hasBlock k := hasBlock_iff.mpr (live_of_hangs ht hk)
  refine Leads.bind (Leads.get (Q := fun now t' => now = t' ∧ t' = t) fun _ h => ⟨rfl, h⟩)
    fun now => ?_
  refine Leads.ite (fun _ => ?_) fun hnot => Leads.pure ?_
  · refine (dispose_refills ht (live_of_hangs ht hk) hrefill).weaken (fun _ h => h.2) ?_
      fun _ h => h
    rintro _ t' hdispose
    obtain ⟨q, w, v, hl, rfl⟩ := hk
    cases hdispose with
    | root hloose => exact (hloose.not_under ht.wired hl.under).elim
    | child hc hf hr =>
      obtain ⟨w', v', hl', hv'⟩ := hc.link
      obtain rfl := hl.same_socket ht.wired hl' hv'.symm
      exact h.refills hs hc hf hr
  · rintro t' ⟨rfl, rfl⟩
    exact (hnot hlive).elim

/-- The first steps of a rollback: the copy goes, and the override of the block is as it was. -/
def tidyUp (d : DragSession α) : Edit α Unit := do
  d.copy.forM discardCopy
  setCopyOnDrag d.block d.priorCopyOnDrag

/-- A block that was taken out is all that is missing then. -/
theorem tidyUp_scatters (hs : ws.Sound) (hac : ws.graph.Acyclic) (hroot : ws.Rooted)
    (hnotes : ws.Notes b heal d) (hcopy : d.copy = none)
    (hsocket : ∀ s, copied = some s → b.output.bind ws.targetOf = some s)
    (hout : ws.Withdrawn heal d copied d' v) (hd : v.Drifts w)
    (hrefill : ∀ k, d'.copy = some k → ∀ {s q : ConnectionId} {u v : Workspace α},
      w.Cuts s q k u → u.Fells k v → Leads (· = v) (respawn s) (fun _ t => v.Refills s t) E) :
    Leads (· = w) (tidyUp d') (fun _ t => ws.Scatters d' t ∧ (d'.copy = none → t = w)) E := by
  unfold tidyUp
  cases hout with
  | bare hpull =>
    obtain ⟨u, hu, hstack⟩ := hpull.unplugs hs hac hroot hnotes.block
    have hscatters : ws.Scatters d w := ⟨ws, b, u, v, Drifts.refl ws, hnotes.block,
      hnotes.socket ▸ hu, by rw [hnotes.below, hnotes.socket]; exact hstack, hd⟩
    rw [hcopy]
    refine Leads.bind (Q := fun _ t => t = w) (Leads.pure fun _ h => h) fun _ => ?_
    refine Tells.of_result (setCopyOnDrag_keeps (X := ∅) (Editor.stable_true (α := α)) d.block
      d.priorCopyOnDrag) ?_
    rintro _ rfl
    have hlooks := (hd.blocks d.block).trans (hstack.blocks d.block)
    rw [hu.block hs hnotes.block, Option.map_some, Option.map_eq_some_iff] at hlooks
    obtain ⟨b', hb', he⟩ := hlooks
    have hprior : d.priorCopyOnDrag = b'.copyOnDrag :=
      hnotes.override.trans (congrArg (fun b : Block Unit => b.copyOnDrag) he).symm
    rw [hprior, setCopyOnDrag_eq_self hb']
    exact ⟨hscatters, fun _ => rfl⟩
  | @copied s p k _ hleaves =>
    have hsocket := hsocket s rfl
    obtain ⟨p', base₀, hover, haway₀⟩ := hleaves.astray hs hac hnotes.block hsocket
    have hs₀ : base₀.Sound := hover.sound ((recasts_withOverride ws d.block _).sound hs)
    obtain ⟨base, hbase, haway⟩ := haway₀.drifts hs₀ hd
    have hs' := hbase.sound hs₀
    have hk : w.graph.Hangs s k := hd.graph ▸ hleaves.hangs
    refine Leads.bind (Q := fun _ t => base.Waits s p' d.block t)
      (discardCopy_waits haway hs' hk (hrefill k rfl)) fun _ => ?_
    refine Tells.of_result (setCopyOnDrag_keeps (X := ∅) (Editor.stable_true (α := α)) d.block
      d.priorCopyOnDrag) fun t hwaits => ?_
    obtain ⟨b₁, hb₁, -⟩ := (hover.trans hbase).block (by rw [withOverride_block, hnotes.block]; rfl)
    rw [setCopyOnDrag_eq (hwaits.parted.block hs' hb₁)]
    refine ⟨?_, nofun⟩
    obtain ⟨base', hbase', hwaits'⟩ := hwaits.withOverride hs' d.block d.priorCopyOnDrag
    have hdrift : ws.Drifts base' := by
      have hagain := ((hover.trans hbase).withOverride d.block d.priorCopyOnDrag).trans hbase'
      rwa [withOverride_again, hnotes.override, withOverride_self hnotes.block] at hagain
    obtain ⟨b', hb', he⟩ := hdrift.block hnotes.block
    have hn : b'.next = b.next := congrArg (fun b : Block Unit => b.next) he
    have hplug : d.parentSocket = some s := by
      obtain ⟨o, ho, ht⟩ := Option.bind_eq_some_iff.mp hsocket
      rw [hnotes.socket, Block.plugs, ho]
      simp [ht]
    have hout : base'.Unplugs d.block d.parentSocket (t.withOverride d.block d.priorCopyOnDrag) :=
      hplug ▸ .out hwaits'
    refine ⟨base', b', _, _, hdrift, hb', hout, .whole fun q hq => ?_, Drifts.refl _⟩
    rw [hnotes.below] at hq
    split at hq
    · obtain ⟨n, hn', ht⟩ := Option.bind_eq_some_iff.mp hq
      refine ⟨n, hn.trans hn', ?_⟩
      rw [hout.targetOf_next (hdrift.sound hs) hb' (hn.trans hn'), hdrift.targetOf, ht]
    · cases hq

/-- A block that need not be taken out only loses its override. -/
theorem tidyUp_rests {start offset : Point α} (hb : ws.blocks[x]? = some b)
    (hloose : ws.graph.Loose x) (hd : ws.Drifts w) :
    Leads (· = w) (tidyUp (.begin x start offset)) (fun _ t =>
      (ws.withOverride x none).Scatters (.begin x start offset) t ∧ t = w.withOverride x none) E := by
  refine Leads.bind (Q := fun _ t => t = w) (Leads.pure fun _ h => h) fun _ => ?_
  refine Tells.of_result (setCopyOnDrag_keeps (X := ∅) (Editor.stable_true (α := α)) x none) ?_
  rintro _ rfl
  obtain ⟨b', hb', -⟩ := hd.block hb
  rw [show setCopyOnDrag (DragSession.begin x start offset).block
    (DragSession.begin x start offset).priorCopyOnDrag = setCopyOnDrag x none from rfl,
    setCopyOnDrag_eq hb']
  refine ⟨⟨_, { b with copyOnDrag := none }, _, _, Drifts.refl _, ?_, .loose ?_, .whole nofun,
    hd.withOverride x none⟩, rfl⟩
  · change (ws.withOverride x none).blocks[x]? = _
    rw [withOverride_block, hb]
    simp
  · rw [(recasts_withOverride ws x none).graph]
    exact hloose

/-- The statement below the block comes back. -/
theorem takeBackStack_lacks (hs : ws.Sound) (hac : ws.graph.Acyclic) :
    Leads (fun t => ws.Scatters d t ∧ t.Lies d) (d.childPlug.forM (takeBackStack d.block))
      (fun _ t => ws.Lacks d t ∧ t.Lies d) fun _ => False := by
  refine Tells.each (Leads.forM_option _ (fun plug _ => takeBackStack_keeps (X := ∅)
    (Editor.stable_true (α := α)) d.block plug) fun _ _ h => h) ?_
  rintro t ⟨⟨base, b, u, v, hbase, hb, hout, hstack, hd⟩, hlies⟩
  have hs' := hbase.sound hs
  have hac' : base.graph.Acyclic := by
    rw [hbase.graph]
    exact hac
  refine (takeBackStack_rejoins (hout.sound hs') (hout.acyclic hac') (hout.block hs' hb) hout.stocked
    hstack hd).post ?_
  rintro _ t' ⟨hd', hsame⟩
  refine ⟨⟨base, u, hbase, hout, hd'⟩, fun hnone => ?_⟩
  rw [hsame]
  exact hlies hnone

/-- A block that was in no socket goes back to where it lay. -/
def goBack (d : DragSession α) : Edit α Unit := do
  moveTo d.block d.start "drag"
  let _ ← keepInView d.block

theorem takePlace_eq_goBack (hs : t.Sound) (hb : t.blocks[d.block]? = some b)
    (hloose : t.graph.Loose d.block) (hnone : d.parentSocket = none) :
    takePlace d t = goBack d t := by
  have hformer : formerPlace d t = .ok none t := by
    have hget : (get : Edit α (Workspace α)) t = .ok t t := rfl
    unfold formerPlace
    rw [bind_eq hget, hnone]
    rfl
  have hparent : (query (·.parent d.block) : Edit α (Option BlockId)) t = .ok none t := by
    simp only [query, (hs.parent_eq_none hb).mpr hloose]
  unfold takePlace goBack
  rw [bind_eq hformer]
  dsimp only
  rw [bind_eq hparent]
  rfl

/-- The block goes back to its place. -/
theorem takePlace_restores (hs : ws.Sound) (hroot : ws.Rooted) (hb : ws.blocks[d.block]? = some b)
    (hback : d.parentSocket = none → ∀ t, ws.Drifts t → t.Lies d →
      Leads (· = t) (goBack d) (fun _ => t.Drifts) E) :
    Leads (fun t => ws.Lacks d t ∧ t.Lies d ∧ t.Rooted) (takePlace d)
      (fun _ t => ws.Resembles ∅ t ∧ t.Sound) E := by
  have hJ := Editor.stable_true (α := α)
  have base := takePlace_keeps (X := ∅) hJ d
  refine Tells.each base ?_
  rintro t ⟨⟨base, u, hbase, hout, hd⟩, hlies, hrooted⟩
  have hs' := hbase.sound hs
  have ht := hd.sound (hout.sound hs')
  obtain ⟨b', hb', -⟩ := hbase.block hb
  generalize hsocket : d.parentSocket = socket at hout
  cases hout with
  | loose hloose =>
    have hdrift := hbase.trans hd
    obtain ⟨b'', hb'', -⟩ := hdrift.block hb
    refine Tells.congr (takePlace_keeps (X := ∅) hJ d)
      ((hback hsocket t hdrift hlies).post fun _ t' hd' => ?_) ?_
    · have hall := hdrift.trans hd'
      exact ⟨hall.resembles, hall.sound hs⟩
    · rintro _ rfl
      exact takePlace_eq_goBack ht hb'' (by rw [hd.graph]; exact hloose) hsocket
  | out hwaits =>
    obtain ⟨base', hbase', hwaits'⟩ := hwaits.drifts hs' hd
    have hs'' := hbase'.sound hs'
    have hdrift := hbase.trans hbase'
    obtain ⟨b'', hb'', -⟩ := hdrift.block hb
    refine ((takePlace_seats hwaits'.parted hs'' hb'' hsocket).and
      (takePlace_keeps (X := Set.univ) stable_rooted d)).weaken ?_ ?_ fun _ h => h.1.elim
    · rintro _ rfl
      exact ⟨rfl, ht, hrooted⟩
    · rintro _ t' ⟨hseat, hsteady⟩
      refine ⟨hdrift.resembles.trans (hwaits'.resembles hs'' ?_ hseat hsteady.keeps), hsteady.sound⟩
      exact hroot.congr hdrift.top (fun _ h => hdrift.live h) hdrift.graph

theorem putBack_eq (d : DragSession α) : (putBack d : Edit α Unit) = (do
    tidyUp d
    d.childPlug.forM (takeBackStack d.block)
    takePlace d
    if d.wasPlaceholder then
      if (← query (·.parent d.block)).isSome then setPlaceholder d.block true) := by
  unfold putBack tidyUp
  rw [bind_assoc]

/-- What was in the way is tidied up, and all that was taken apart is put together again. -/
theorem putBack_restores (hs : ws.Sound) (hac : ws.graph.Acyclic) (hroot : ws.Rooted)
    (hb : ws.blocks[d.block]? = some b)
    (hunder : d.wasPlaceholder → ∃ a, ws.graph.Under d.block a) (hw : w.Sound) (hrooted : w.Rooted)
    (htidy : Leads (· = w) (tidyUp d) (fun _ t => ws.Scatters d t ∧ t.Lies d) E)
    (hback : d.parentSocket = none → ∀ t, ws.Drifts t → t.Lies d →
      Leads (· = t) (goBack d) (fun _ => t.Drifts) E) :
    Leads (· = w) (putBack d) (fun _ t => if d.wasPlaceholder then
      ∃ u b', (ws.Resembles ∅ u ∧ u.Sound) ∧ u.blocks[d.block]? = some b' ∧
        t = { u with blocks := u.blocks.insert d.block { b' with placeholder := true } }
      else ws.Resembles ∅ t ∧ t.Sound) E := by
  have rooted : Steady (α := α) (fun _ => Rooted) Set.univ w := ⟨hw, hrooted⟩
  rw [putBack_eq]
  refine Leads.bind (Q := fun _ t => (ws.Scatters d t ∧ t.Lies d) ∧
    Steady (fun _ => Rooted) Set.univ t) ?_ fun _ => ?_
  · refine (htidy.and (?_ : Leads (Steady (fun _ => Rooted) Set.univ) (tidyUp d)
      (fun _ => Steady (fun _ => Rooted) Set.univ) (Steady (fun _ => Rooted) Set.univ))).weaken ?_ ?_
      fun _ h => h.1
    · refine Leads.bind (Q := fun _ => Steady (fun _ => Rooted) Set.univ) (Leads.forM_option _
        (fun copy _ => discardCopy_keeps stable_rooted copy) fun _ _ h => h) fun _ => ?_
      exact setCopyOnDrag_keeps stable_rooted d.block _
    · rintro _ rfl
      exact ⟨rfl, rooted⟩
    · exact fun _ _ h => h
  refine Leads.bind (Q := fun _ t => (ws.Lacks d t ∧ t.Lies d) ∧
    Steady (fun _ => Rooted) Set.univ t) ?_ fun _ => ?_
  · refine ((takeBackStack_lacks hs hac).and (Leads.forM_option _ (fun plug _ =>
      takeBackStack_keeps (X := Set.univ) stable_rooted d.block plug) fun _ _ h => h)).weaken
        (fun _ h => h) (fun _ _ h => h) fun _ h => h.1.elim
  refine Leads.bind (Q := fun _ t => ws.Resembles ∅ t ∧ t.Sound)
    ((takePlace_restores hs hroot hb hback).pre fun _ h => ⟨h.1.1, h.1.2, h.2.keeps⟩) fun _ => ?_
  refine (remark_tells fun t h => ⟨h.2, ?_, fun hmark => ?_⟩).refused fun _ h => h.elim
  · have hsame := h.1.blocks d.block
    rw [hb, Option.map_some, Option.map_eq_some_iff] at hsame
    obtain ⟨b', hb', -⟩ := hsame
    exact ⟨b', hb'⟩
  · rw [h.1.graph]
    exact hunder hmark

end Edit

end BlockEditor
