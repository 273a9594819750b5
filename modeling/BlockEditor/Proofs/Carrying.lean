import BlockEditor.Proofs.Abandoning
import BlockEditor.Proofs.Aligning

/-!
# Gestures leave plugs on their sockets

A drag carries its block about with everything below it. This disturbs nothing as long as the block
hangs on nothing, and what is put back goes where its plug lies on its socket.
-/

namespace BlockEditor

open Workspace

variable {α : Type}

namespace Workspace

variable {ws t u : Workspace α} {id x child : BlockId} {b : Block α} {c n s p : ConnectionId}
  {C : Set ConnectionId} {d : DragSession α}

theorem Sound.loose_of_not_live (hs : ws.Sound) (hx : ¬ ws.Live x) : ws.graph.Loose x := by
  intro p v hv hvx
  obtain ⟨y, hy, rfl⟩ := connection_of_wire hv
  obtain ⟨b, hb, -⟩ := hs.owner hy
  rw [show y.block = x from hvx] at hb
  exact (hx ⟨b, hb⟩).elim

/-- The block was made before, and hangs on nothing. It may be gone, but it will not be made anew. -/
structure Adrift (ws : Workspace α) (x : BlockId) : Prop where
  known : x.index.toNat < ws.ids.blocks
  loose : ws.graph.Loose x

theorem Lifted.adrift (h : ws.Lifted x) : ws.Adrift x := by
  obtain ⟨b, hb⟩ := h.live
  exact ⟨h.sound.blockIds hb, h.loose⟩

namespace Adrift

theorem cuts (h : ws.Adrift x) (hs : ws.Sound) (hc : ws.Cuts s p child t) : t.Adrift x where
  known := hc.ids ▸ h.known
  loose := by
    obtain ⟨w, v, hl, -⟩ := hc.link
    rw [hc.graph]
    exact (Graph.loose_cut hs.wired hl).mpr (Or.inl h.loose)

theorem fells (h : ws.Adrift x) (hs : ws.Sound) (hf : ws.Fells id t) : t.Adrift x := by
  obtain ⟨b, R, -, hl, hseal⟩ := hf.step
  refine ⟨hl.ids ▸ h.known, ?_⟩
  by_cases hR : x ∈ R
  · refine (hl.sound hs).loose_of_not_live ?_
    rintro ⟨b', hb'⟩
    exact (hl.old hb').1 hR
  · exact (hl.loose hs hseal hR).mpr h.loose

theorem refills (h : ws.Adrift x) (hs : ws.Sound) (hac : ws.graph.Acyclic) (hr : ws.Refills c t) :
    t.Adrift x where
  known := h.known.trans_le hr.extend.blockCount
  loose := by
    by_cases hx : ws.Live x
    · exact (Lifted.refills ⟨hs, hac, hx, h.loose⟩ hr).loose
    · refine (hr.sound hs).loose_of_not_live ?_
      rintro ⟨b, hb⟩
      rw [hr.extend.blocks x h.known] at hb
      exact hx ⟨b, hb⟩

/-- A block that hangs on nothing may go with another one that is disposed, but does not come to
hang on anything. -/
theorem disposes (h : ws.Adrift x) (hs : ws.Sound) (hac : ws.graph.Acyclic)
    (hd : ws.Disposes id t) : t.Adrift x := by
  cases hd with
  | root _ hf => exact h.fells hs hf
  | child hc hf hr =>
    have hu := hc.sound hs
    obtain ⟨b, R, -, hl, -⟩ := hf.step
    exact ((h.cuts hs hc).fells hu hf).refills (hl.sound hu)
      (hl.acyclic hu (hc.acyclic hs hac)) hr

end Adrift

/-- A block that was taken out of its socket is a root. -/
theorem Parted.lifted (h : ws.Parted C s p x t) (hs : ws.Sound) : t.Lifted x := by
  have hready := h.ready hs
  obtain ⟨v, hv, rfl, hk⟩ := hready.poised.plugOf
  obtain ⟨y, hy, rfl⟩ := connection_of_wire hv
  obtain ⟨b, hb, -⟩ := h.sound.owner hy
  exact ⟨h.sound, h.acyclic, ⟨b, hb⟩,
    Graph.PlugOf.loose h.sound.wired ⟨_, hv, rfl, hk⟩ hready.idle⟩

theorem Away.lifted (h : ws.Away C s p d t) (hs : ws.Sound) : t.Lifted d.block := by
  unfold Away at h
  split at h
  · exact h.lifted hs
  · obtain ⟨ht, u, hparted, hfresh⟩ := h
    exact (hparted.lifted hs).fresh hfresh ht

theorem spatial_loose [Scalar α] : Spatial fun t : Workspace α => t.Plumb ∧ t.graph.Loose x :=
  ⟨fun h => h.1.sound, fun h hp ht hg => ⟨h.1.of_graph hp ht hg, hg ▸ h.2⟩⟩

/-- Nothing that fits below a root carries the root. -/
theorem not_closes_of_loose {y : Connection α} (hs : ws.Sound) (hy : ws.connections[n]? = some y)
    (hk : y.kind.isSocket) (hl : ws.graph.Loose y.block) (hon : ws.canConnect c n = .ok true) :
    ¬ ws.Closes c n ∧ ¬ ws.Closes n c := by
  obtain ⟨z, y', hz, hy', hfits⟩ := canConnect_eq_ok hon
  obtain rfl := Option.some.inj (hy.symm.trans hy')
  have hfits := hfits.symm
  simp only [Bool.and_eq_true, decide_eq_true_eq] at hfits
  obtain ⟨⟨hne, hkind⟩, -⟩ := hfits
  refine ⟨?_, ?_⟩
  · rintro ⟨z', -, hz', -, hsocket, -⟩
    obtain rfl := Option.some.inj (hz.symm.trans hz')
    rw [← hkind, ← ConnectionKind.isPlug_opposite, ConnectionKind.isPlug_eq_not,
      ConnectionKind.opposite_opposite, hsocket] at hk
    cases hk
  · rintro ⟨y', z', hy', hz', -, hbranch⟩
    obtain rfl := Option.some.inj (hy.symm.trans hy')
    obtain rfl := Option.some.inj (hz.symm.trans hz')
    rcases hbranch with heq | hbelow
    · exact hne heq.symm
    · exact hl.not_below hs.wired hbelow

end Workspace

namespace Edit

variable [Scalar α] {ws t : Workspace α} {x : BlockId} {a b : ConnectionId} {g : Graph}

/-! ### Putting back -/

theorem forgetTemplate_stays {P : Workspace α → Prop} (hP : Spatial P) (c : ConnectionId) :
    Keeps P (forgetTemplate c : Edit α Unit) := by
  refine Leads.alter fun ws h => ?_
  have he : ws.Endows c none { ws with connections := (ws.connections.modify c
      fun y : Connection α => { y with template := none }) } := ⟨getElem?_forget ws c, rfl⟩
  exact hP.kept h (.template he.connections he.blocks) (he.sound (hP.sound h)) he.graph

variable [Scalar.Exact α]

/-- A link that closes no cycle. -/
theorem connect_plumb (a b : ConnectionId) :
    Leads (fun t => t.Plumb ∧ (t.canConnect a b = .ok true → ¬ t.Closes a b ∧ ¬ t.Closes b a))
      (connect a b : Edit α Unit) (fun _ => Plumb) Flush := by
  refine Tells.each (connect_flush a b) fun ws ⟨h, hclear⟩ => ?_
  by_cases hon : ws.canConnect a b = .ok true
  · obtain ⟨hclear, hclear'⟩ := hclear hon
    have hlinks : Leads (· = ws) (connect a b) (fun _ t => ws.Links a b t) fun _ => True :=
      Tells.weaken (connect_links h.sound h.acyclic hclear hclear') (fun _ h => h)
        (fun _ _ h => h) fun _ _ _ => trivial
    refine ((connect_flush a b).and hlinks).weaken ?_ ?_ fun _ h => h.1
    · rintro _ rfl
      exact ⟨h, rfl⟩
    · rintro _ t ⟨hflush, s, p, child, hends, hpoised, hj⟩
      refine ⟨hflush, ?_⟩
      rcases hends with ⟨rfl, rfl⟩ | ⟨rfl, rfl⟩
      · exact (hj.linked h.sound h.acyclic hpoised hclear).2.1
      · exact (hj.linked h.sound h.acyclic hpoised hclear').2.1
  · refine Tells.of_result (connect_flush a b) ?_
    rintro _ rfl
    obtain ⟨e, he⟩ := connect_unfit hon
    rw [he]
    exact h.toFlush

theorem discardCopy_plumb (copy : BlockId) :
    Leads (fun t => t.Plumb ∧ t.Adrift x) (discardCopy copy : Edit α Unit)
      (fun _ t => t.Plumb ∧ t.Adrift x) Flush := by
  refine get_keeps.bind fun _ => Leads.ite (fun _ => ?_) fun _ => Leads.pure fun _ h => h
  refine Tells.each (dispose_plumb copy) fun ws ⟨h, hx⟩ => ?_
  refine ((dispose_plumb copy).and (dispose_disposes h.sound copy)).weaken ?_ ?_ fun _ h => h.1.toFlush
  · rintro _ rfl
    exact ⟨h, rfl⟩
  · exact fun _ t ⟨ht, hd⟩ => ⟨ht, hx.disposes h.sound h.acyclic hd⟩

theorem takeBackStack_plumb (plug : ConnectionId) :
    Leads (fun t => t.Plumb ∧ t.graph.Loose x) (takeBackStack x plug : Edit α Unit)
      (fun _ => Plumb) Flush := by
  unfold takeBackStack
  refine (Leads.block fun _ h _ => h.1.toFlush).bind fun b => ?_
  cases hn : b.next with
  | none => exact Leads.pure fun _ h => h.1.1
  | some next =>
    refine (Leads.get (Q := fun _ (t : Workspace α) => (t.Plumb ∧ t.graph.Loose x) ∧
      t.blocks[x]? = some b) fun _ h => h).bind fun _ => ?_
    refine Leads.ite (fun _ => (connect_plumb plug next).pre ?_) fun _ => Leads.pure fun _ h => h.1.1
    rintro t ⟨⟨h, hloose⟩, hb⟩
    obtain ⟨y, hy, rfl, hk⟩ := h.sound.socket hb (mem_sockets.mpr (Or.inr hn))
    exact ⟨h, not_closes_of_loose h.sound hy hk hloose⟩

theorem takePlace_flush (s : DragSession α) :
    Leads Plumb (takePlace s : Edit α Unit) (fun _ => Flush) Flush := by
  unfold takePlace
  refine ((formerPlace_keeps s).refused fun _ h => h.toFlush).bind fun place => ?_
  cases place with
  | some ends => exact connect_flush _ _
  | none =>
    refine (Leads.ask fun _ _ h _ => h.toFlush).bind fun parent => ?_
    refine Leads.ite (fun hnone => ?_) fun _ => Leads.pure fun _ h => h.1.toFlush
    obtain rfl : parent = none := by simpa using hnone
    refine Leads.bind ((moveTo_loose s.block s.start "drag").pre ?_) fun _ => ?_
    · exact fun t h => ⟨h.1.toFlush, h.1.sound.loose_of_parent h.2⟩
    · exact (keepInView_flush s.block).bind fun _ => Leads.pure fun _ h => h

/-- As long as its block hangs on nothing, whatever a drag did can be undone. -/
theorem putBack_flush (s : DragSession α) :
    Leads (fun t => t.Plumb ∧ t.Adrift s.block) (putBack s : Edit α Unit) (fun _ => Flush)
      Flush := by
  unfold putBack
  refine Leads.bind (Q := fun _ t => t.Plumb ∧ t.Adrift s.block)
    (Leads.forM_option _ (fun copy _ => discardCopy_plumb copy) fun _ _ h => h) fun _ => ?_
  refine Leads.bind ((setCopyOnDrag_stays spatial_loose s.block _).weaken
    (fun _ h => ⟨h.1, h.2.loose⟩) (fun _ _ h => h) fun _ h => h.1.toFlush) fun _ => ?_
  refine Leads.bind (Q := fun _ => Plumb) (Leads.forM_option _
    (fun plug _ => takeBackStack_plumb plug) fun _ _ h => h.1) fun _ => ?_
  refine (takePlace_flush s).bind fun _ => ?_
  refine Leads.ite (fun _ => ?_) fun _ => Leads.pure fun _ h => h
  refine (Leads.ask fun _ _ h _ => h).bind fun parent => ?_
  exact Leads.ite (fun _ => (setPlaceholder_stays spatial_flush s.block true).pre fun _ h => h.1)
    fun _ => Leads.pure fun _ h => h.1

theorem rollBack_flush (s : DragSession α) :
    Leads (fun t => t.Plumb ∧ t.Adrift s.block) (rollBack s : Edit α Unit) (fun _ => Flush)
      Flush := by
  unfold rollBack
  refine Leads.bind (Q := fun _ => Flush) ((putBack_flush s).tryCatch fun _ =>
    Leads.pure fun _ h => h) fun _ => ?_
  exact Leads.forM_option _ (fun c _ => forgetTemplate_stays spatial_flush c) fun _ _ h => h

/-- A block that was taken away from its parent leaves a forest. -/
theorem pullOut_plumb (id : BlockId) (heal : Bool) :
    Leads Plumb (pullOut id heal : Edit α Unit) (fun _ => Plumb) Flush := by
  refine Tells.each (pullOut_flush id heal) fun ws h => ?_
  refine ((pullOut_flush id heal).and (pullOut_lifts h.sound h.acyclic id heal)).weaken ?_ ?_
    fun _ h => h.1
  · rintro _ rfl
    exact ⟨h, rfl⟩
  · exact fun _ t ⟨ht, hl, _⟩ => ⟨ht, hl.acyclic⟩

end Edit

namespace Act

variable [Scalar α] {ws : Workspace α} {P : Workspace α → Prop} {b : Block α} {block : BlockId}
  {d : DragSession α} {copied : Option ConnectionId} {e : Editor α}

/-! ### Starting a drag -/

theorem makeReal_stays (hP : Spatial P) (block : BlockId) (socket : Option ConnectionId) :
    Keeps (Within P) (makeReal block socket) := by
  unfold makeReal
  refine Leads.bind (Q := fun _ => Within P) ?_ fun _ =>
    edit_leads (Edit.setPlaceholder_stays hP block false)
  refine Leads.forM_option _ (fun c _ => ?_) fun _ _ h => h
  refine (ask_keeps _).bind fun y => Leads.ite (fun _ => ?_) fun _ => Leads.pure fun _ h => h
  refine (ask_keeps _).bind fun template => ?_
  exact Leads.bind (Q := fun _ => Within P) (edit_leads (Edit.endow_stays hP c (some template)))
    fun _ => updateSession_keeps _

omit [Scalar α] in
theorem valueSocket_keeps {I : Editor α → Prop} (b : Block α) : Keeps I (valueSocket b) := by
  unfold valueSocket
  split
  · exact (ask_keeps _).bind fun _ => Leads.pure fun _ h => h
  · exact Leads.pure fun _ h => h

omit [Scalar α] in
/-- If a block could not be taken out, then it is away all the same. -/
theorem Foiled.lifted (h : Foiled ws d copied e) (hs : ws.Sound) :
    ∃ s, e.session = some s ∧ s.block = d.block ∧ e.workspace.Lifted d.block := by
  obtain ⟨C, s, p, -, copy, haway, hsession⟩ := h
  exact ⟨_, hsession, rfl, haway.lifted hs⟩

variable [Scalar.Exact α]

theorem leaveCopy_flush (block : BlockId) (socket : ConnectionId) (snapshot : Snapshot) :
    Leads (Within Plumb) (leaveCopy block socket snapshot : Act α Unit)
      (fun _ => Within Flush) (Within Flush) := by
  refine Leads.bind (edit_leads ((Edit.restore_plumb snapshot).refused fun _ h => h.toFlush))
    fun copy => ?_
  refine Leads.bind (Q := fun _ => Within Plumb) (updateSession_keeps _) fun _ => ?_
  refine Leads.bind (edit_leads (Edit.attach_flush socket copy)) fun _ => ?_
  exact edit_leads (Edit.setCopyOnDrag_stays spatial_flush block _)

theorem detach_flush (block : BlockId) (heal : Bool) :
    Leads (Within Plumb) (detach block heal : Act α Unit) (fun _ => Within Flush)
      (Within Flush) := by
  have coarse : ∀ {β : Type} {m : Act α β}, Keeps (Within Plumb) m →
      Leads (Within Plumb) m (fun _ => Within Plumb) (Within Flush) :=
    fun h => h.refused fun _ h => h.toFlush
  unfold detach
  refine (coarse (ask_keeps _)).bind fun keepsCopy => (coarse (ask_keeps _)).bind fun b => ?_
  refine Leads.bind (Q := fun _ => Within Plumb) (updateSession_keeps _) fun _ => ?_
  refine (coarse (valueSocket_keeps b)).bind fun socket => ?_
  refine Leads.optionally (c := b.placeholder = true) (Q := fun _ => Within Plumb)
    (fun _ => coarse (makeReal_stays spatial_plumb block socket)) (fun _ _ h => h) ?_
  refine (coarse (ask_keeps _)).bind fun parentSocket => ?_
  refine Leads.either (Q := fun _ => Within Plumb) (fun _ => coarse (plugBelow_keeps b))
    (fun _ => Leads.pure fun _ h => h) fun childPlug => ?_
  refine Leads.bind (Q := fun _ => Within Plumb) (updateSession_keeps _) fun _ => ?_
  have pulled := edit_leads (Edit.pullOut_plumb (α := α) block heal)
  dsimp only
  split
  · exact pulled.bind fun _ => (request_keeps _).post fun _ _ h => h.toFlush
  · refine (coarse (ask_keeps _)).bind fun snapshot => pulled.bind fun _ => ?_
    exact (leaveCopy_flush block _ snapshot).bind fun _ => request_keeps _

/-- A drag that cannot be started is given up. -/
theorem abandon_flush (block : BlockId) :
    Leads (fun e => ∃ s, e.session = some s ∧ e.workspace.Plumb ∧ e.workspace.Adrift s.block)
      (abandon block : Act α Unit) (fun _ => Within Flush) (Within Flush) := by
  unfold abandon
  refine Leads.bind (takeSession_hands (R := fun s t => t.Plumb ∧ t.Adrift s.block)) fun s => ?_
  refine Leads.bind (Q := fun _ => Within Flush) ((edit_leads (Edit.rollBack_flush s)).pre
    fun _ h => h.1) fun _ => ?_
  exact (clearVisuals_keeps spatial_flush.quiet block).bind fun _ =>
    finishGesture_keeps spatial_flush.quiet

theorem loosen_flush (s : DragSession α) (heal : Bool) (hcopy : s.copy = none)
    (hnone : s.templateSocket = none) :
    Leads (Within fun t => t.Plumb ∧ t.Live s.block) (loosen s heal) (fun _ => Within Flush)
      (Within Flush) := by
  unfold loosen
  refine Leads.bind ((hasToDetach_learns s.block heal).weaken (fun _ h => h) (fun _ _ h => h.1)
    fun _ h => h.1.toFlush) fun needed => ?_
  refine Leads.ite (fun _ => Leads.pure fun _ h => h.1.toFlush) fun _ => ?_
  refine Leads.bind (Q := fun _ => Beside (fun t => t.Plumb ∧ t.Live s.block) (· = some s))
    (Leads.pre (setSession_beside (S := fun _ => True) rfl) fun _ h => ⟨h, trivial⟩) fun _ => ?_
  refine Leads.bind (Q := fun _ => Within Flush) (Leads.tryCatch
    (E := fun e => ∃ s, e.session = some s ∧ e.workspace.Plumb ∧ e.workspace.Adrift s.block) ?_
    fun _ => (abandon_flush s.block).bind fun _ => Leads.throw fun _ h => h)
    fun _ => takeSession_keeps
  refine Tells.each (detach_flush s.block heal) ?_
  rintro ⟨ws, session, requests, phase⟩ ⟨⟨h, b, hb⟩, hsession⟩
  dsimp only at h hb hsession
  subst session
  obtain ⟨keeps, hkeeps⟩ := h.sound.leavesCopy_ok hb
  refine ((detach_flush s.block heal).and
    (detach_tells h.sound h.acyclic hb hcopy hnone hkeeps heal)).weaken ?_ (fun _ _ h => h.1) ?_
  · rintro _ rfl
    exact ⟨h, rfl, rfl⟩
  · rintro e ⟨hflush, d, real, hprimed, hfoiled⟩
    have hx : d.block = s.block := by rw [hprimed.session]
    obtain ⟨s', hs', hblock, hl⟩ := hfoiled.lifted (hprimed.bares.sound h.sound (hx ▸ hb))
    exact ⟨s', hs', ⟨hflush, hl.acyclic⟩, hblock ▸ hl.adrift⟩

theorem takeUp_flush (block : BlockId) (heal : Bool) :
    Leads (Within Plumb) (takeUp block heal : Act α BlockId) (fun _ => Within Flush)
      (Within Flush) := by
  have quiet := (spatial_plumb (α := α)).quiet
  have coarse : ∀ {β : Type} {m : Act α β}, Keeps (Within Plumb) m →
      Leads (Within Plumb) m (fun _ => Within Plumb) (Within Flush) :=
    fun h => h.refused fun _ h => h.toFlush
  unfold takeUp
  refine (coarse (ask_keeps _)).bind fun found => (coarse (ask_keeps _)).bind fun on => ?_
  refine Leads.optional (fun _ => Leads.throw fun _ h => h.toFlush) ?_
  refine (coarse (ensureGroup_keeps quiet)).bind fun _ => ?_
  refine (coarse (ask_keeps _)).bind fun dragged => ?_
  refine Leads.bind (coarse (edit_leads (Edit.note_keeps quiet rfl))) fun _ => ?_
  refine Leads.bind (Q := fun _ => Within fun t => t.Plumb ∧ t.Live found.1)
    ((ask_learns _).weaken (fun _ h => h) ?_ fun _ h => h.toFlush) fun b => ?_
  · exact fun b e h => ⟨h.1, b, block_eq_ok.mp h.2⟩
  refine (request_keeps _).bind fun _ => (request_keeps _).bind fun _ =>
    (request_keeps _).bind fun _ => ?_
  refine (loosen_flush _ heal rfl rfl).bind fun s => ?_
  refine Leads.bind (edit_leads (Edit.markDragging_keeps spatial_flush.quiet found.1 true))
    fun _ => ?_
  refine (request_keeps _).bind fun _ => ?_
  refine Leads.bind (Q := fun _ => Within Flush) (setSession_keeps s) fun _ => ?_
  exact Leads.bind (Q := fun _ => Within Flush) (enter_keeps _) fun _ => Leads.pure fun _ h => h

theorem pickUp_flush (block : BlockId) (heal : Bool) :
    Leads (Within Plumb) (pickUp block heal : Act α BlockId) (fun _ => Within Flush)
      (Within Flush) := by
  refine Leads.bind (Q := fun _ => Within Plumb) ?_ fun _ => takeUp_flush block heal
  refine look_keeps.bind fun e => ?_
  cases e.session with
  | none => exact Leads.pure fun _ h => h
  | some s => exact Leads.throw fun _ h => h.toFlush

/-! ### Ending a drag -/

theorem commit_flush (block : BlockId) (c : Candidate α) :
    Leads (Within Plumb) (commit block c) (fun _ => Within Flush) (Within Flush) := by
  unfold commit
  refine Leads.bind (edit_leads (Edit.connect_flush c.own c.neighbour)) fun _ => ?_
  refine (ask_keeps _).bind fun _ => (ask_keeps _).bind fun _ => (ask_keeps _).bind fun root => ?_
  exact edit_leads (Leads.alter fun _ h => spatial_flush.quiet.tasks h)

/-- A branch that hangs on nothing is moved as a whole, and linked where it is. -/
theorem settle_flush {g : Graph} (s : DragSession α) (location : Point α) (hac : g.Acyclic)
    (hloose : g.Loose s.block) :
    Leads (Within (Edit.Rigid g)) (settle s location) (fun _ => Within Flush) (Within Flush) := by
  unfold settle
  refine Leads.bind (Q := fun _ => Within Plumb) (edit_leads
    ((Edit.moveTo_rigid hloose location "drag").weaken (fun _ h => h) ?_ fun _ h => h.1)) fun _ => ?_
  · rintro _ t ⟨h, rfl⟩
    exact ⟨h, hac⟩
  have rest : ∀ outcome, Leads (Within Flush) (do
      let _ ← edit (Edit.moveToGrid s.block)
      return outcome : Act α (DragOutcome α)) (fun _ => Within Flush) (Within Flush) :=
    fun outcome => Leads.bind (edit_leads (Edit.moveToGrid_flush s.block)) fun _ =>
      Leads.pure fun _ h => h
  cases s.candidate with
  | none =>
    refine (request_keeps _).bind fun _ => ?_
    exact Leads.bind (Q := fun _ => Within Flush) (Leads.pure fun _ h => h.toFlush) rest
  | some c =>
    refine (commit_flush s.block c).bind fun _ => ?_
    exact Leads.bind (Q := fun _ => Within Flush) (Leads.pure fun _ h => h) rest

theorem dropAt_flush (location : Point α) :
    Leads (fun e => e.workspace.Plumb ∧ ∀ s, e.session = some s → e.workspace.graph.Loose s.block)
      (dropAt location) (fun _ => Within Flush) (Within Flush) := by
  have base := dropAt_keeps (X := ∅) (Editor.stable_true (α := α)) location
  refine Tells.each base ?_
  rintro ⟨ws, session, requests, phase⟩ ⟨h, hloose⟩
  cases session with
  | none =>
    refine Tells.of_result base ?_
    rintro _ rfl
    exact h.toFlush
  | some s =>
    have hsession : dropAt location ⟨ws, some s, requests, phase⟩ = (do
        fireDragEnd s.block
        clearVisuals s.block
        followedBy (settle s (location + s.offset)) closeGesture)
          ⟨ws, none, requests, .applying⟩ := rfl
    refine Tells.resume base hsession ?_
    refine Leads.pre (P := Within (Edit.Rigid ws.graph)) ?_ fun e he => he ▸ ⟨h.toFlush, rfl⟩
    have coarse : ∀ {m : Act α Unit}, Keeps (Within (Edit.Rigid ws.graph)) m →
        Leads (Within (Edit.Rigid ws.graph)) m (fun _ => Within (Edit.Rigid ws.graph))
          (Within Flush) := fun h => h.refused fun _ h => h.1
    refine (coarse (fireDragEnd_keeps Edit.spatial_rigid.quiet s.block)).bind fun _ => ?_
    refine (coarse (clearVisuals_keeps Edit.spatial_rigid.quiet s.block)).bind fun _ => ?_
    exact followedBy_leads (settle_flush s _ h.acyclic (hloose s rfl))
      (fun _ => closeGesture_keeps spatial_flush.quiet) (closeGesture_keeps spatial_flush.quiet)

theorem cancelDrag_flush :
    Leads (fun e => e.workspace.Plumb ∧ ∀ s, e.session = some s → e.workspace.Adrift s.block)
      (cancelDrag (α := α)) (fun _ => Within Flush) (Within Flush) := by
  have base := cancelDrag_keeps (X := ∅) (Editor.stable_true (α := α))
  refine Tells.each base ?_
  rintro ⟨ws, session, requests, phase⟩ ⟨h, hadrift⟩
  cases session with
  | none =>
    refine Tells.of_result base ?_
    rintro _ rfl
    exact h.toFlush
  | some s =>
    have hsession : cancelDrag ⟨ws, some s, requests, phase⟩ =
        followedBy (edit (Edit.putBack s)) (closeReverted s.block)
          ⟨ws, none, requests, .reverting⟩ := rfl
    refine Tells.resume base hsession ?_
    refine (followedBy_leads (edit_leads (Edit.putBack_flush s))
      (fun _ => closeReverted_keeps spatial_flush.quiet s.block)
      (closeReverted_keeps spatial_flush.quiet s.block)).pre ?_
    rintro _ rfl
    exact ⟨h, hadrift s rfl⟩

end Act

end BlockEditor
