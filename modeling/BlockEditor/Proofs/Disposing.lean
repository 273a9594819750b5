import BlockEditor.Proofs.Callers
import BlockEditor.Proofs.Reviving
import BlockEditor.Proofs.Starting
import BlockEditor.Proofs.Workspace.Reshaping

/-!
# Disposing a block

A block that is disposed goes with all that hangs below it, and nothing else goes. The socket that it
was in is empty then, or holds a placeholder that was built for it, and nothing else is new.
-/

namespace BlockEditor

variable {α : Type}

namespace Workspace

variable {ws u v t : Workspace α} {x y id : BlockId} {c s p : ConnectionId} {e : Event α}
  {b : Block α} {found R : List BlockId}

/-! ### What is built reports no disposal -/

/-- What edits of blocks and links leave alone. -/
def setting (ws : Workspace α) : EditorConfig α × Registry × Option (Rect α) × TaskQueue :=
  (ws.config, ws.registry, ws.viewport, ws.tasks)

/-- Since the state `ws` no block was reported to be deleted. -/
structure Adds (ws t : Workspace α) : Prop where
  told : ∃ es : List (Event α), t.events = es.foldl EventLog.fire ws.events ∧
    es.filterMap Event.deleted? = []
  setting : t.setting = ws.setting

namespace Adds

theorem refl (ws : Workspace α) : ws.Adds ws :=
  ⟨⟨[], rfl, rfl⟩, rfl⟩

theorem trans (h : ws.Adds u) (h' : u.Adds t) : ws.Adds t where
  told := by
    obtain ⟨es, he, hd⟩ := h.told
    obtain ⟨es', he', hd'⟩ := h'.told
    refine ⟨es ++ es', ?_, ?_⟩
    · rw [List.foldl_append, ← he, he']
    · rw [List.filterMap_append, hd, hd', List.append_nil]
  setting := h'.setting.trans h.setting

theorem silent (he : t.events = ws.events) (hr : t.setting = ws.setting) : ws.Adds t :=
  ⟨⟨[], he, rfl⟩, hr⟩

theorem fired (he : e.deleted? = none) (ht : t.events = ws.events.fire e)
    (hr : t.setting = ws.setting) : ws.Adds t :=
  ⟨⟨[e], ht, by rw [List.filterMap_cons_none he, List.filterMap_nil]⟩, hr⟩

theorem shifts {S : BlockId → Prop} (h : ws.Shifts S t) : ws.Adds t := by
  apply silent
  · rw [h.rest]
  · rw [h.rest]
    rfl

theorem ties (h : ws.Ties s p x t) : ws.Adds t := by
  apply fired (e := .connect s x) rfl
  · rw [h.rest]
  · rw [h.rest]
    rfl

end Adds

/-- Nothing hangs on a block whose sockets are as new. -/
theorem Blank.not_under (h : ws.Blank id) : ¬ ws.graph.Under x id := by
  rintro ⟨s, p, w, v, hl, -, rfl⟩
  obtain ⟨y, hy, rfl⟩ := connection_of_wire hl.socket
  have hfree := (h s y hy rfl hl.isSocket).1
  rw [show y.target = some p from hl.down] at hfree
  cases hfree

theorem Blank.tame (h : ws.Blank id) : ws.graph.Tame id := by
  intro hb
  obtain ⟨a, -, hu⟩ := Relation.TransGen.tail'_iff.mp hb
  exact h.not_under hu

/-- No block goes when a block loses inputs on which nothing hangs. -/
theorem Blank.sheds {keep gone : List Input} (h : ws.Blank id) (hstep : ws.Sheds id keep gone t) :
    ws.Adds t := by
  obtain ⟨R, hl, hseal⟩ := hstep
  have hR : R = [] := by
    refine List.eq_nil_iff_forall_not_mem.mpr fun x hx => ?_
    rcases hl.below x hx with rfl | hbelow
    · exact (hseal h.tame).2 hx
    · obtain ⟨a, -, hu⟩ := Relation.TransGen.tail'_iff.mp hbelow
      exact h.not_under hu
  obtain ⟨es, he, hd, -⟩ := hl.told
  refine ⟨⟨es, he, hd.trans hR⟩, ?_⟩
  rw [hl.rest]
  rfl

variable [Scalar α]

theorem fine_adds (ws : Workspace α) (id : BlockId) :
    Fine (α := α) False id fun t => t.Blank id ∧ ws.Adds t where
  shifts hs hstep h := ⟨(fine_blank False id).shifts hs hstep h.1, h.2.trans (.shifts hstep)⟩
  sheds hs ht hstep h := ⟨(fine_blank False id).sheds hs ht hstep h.1, h.2.trans (h.1.sheds hstep)⟩
  pushes hs hstep h hT := by
    refine ⟨(fine_blank False id).pushes hs hstep h.1 hT, h.2.trans (.silent ?_ ?_)⟩
    · rw [hstep.rest]
    · rw [hstep.rest]
      rfl

theorem setUnits_adds (ws : Workspace α) (id : BlockId) (n : Nat) :
    Leads (Good False id fun t => t.Blank id ∧ ws.Adds t) (Edit.setUnits id n)
      (fun _ t => Good False id (fun t => t.Blank id ∧ ws.Adds t) t ∧ t.Live id)
      fun t => t.Sound ∧ t.Blank id ∧ ws.Adds t := by
  have hfine := (fine_adds ws id).handles
  refine Edit.setUnits_keeps (K := fun _ _ t => t.Blank id ∧ ws.Adds t) hfine (fun _ _ => hfine)
    (fun _ _ h => ⟨h.1, h.2.trans (.silent rfl rfl)⟩) ?_ (fun _ _ h => h) n
  intro t old new _ _ h
  split
  · exact ⟨h.1, h.2.trans (.fired (e := .mutation id old new) rfl rfl rfl)⟩
  · exact h

theorem newBlock_adds (ws : Workspace α) (typeName : String) :
    Leads (fun t => t.Sound ∧ ws.Adds t) (Edit.newBlock typeName) (fun _ => ws.Adds) ws.Adds := by
  refine (Edit.newBlock_keeps (P := ws.Adds) (J := ws.Adds)
    (K := fun _ id t => t.Blank id ∧ ws.Adds t) (L := fun id t => t.Blank id ∧ ws.Adds t) typeName
    (fun h => h) ?_ (fun _ id => (fine_adds ws id).handles) ?_ (fun id => (fine_adds ws id).handles)
    (setUnits_adds ws) ?_ fun h => h.2).weaken (fun _ h => h) (fun _ _ h => h.1.keeps.2)
    fun _ h => h.2
  · intro t d id b t' hs hd hr h
    obtain ⟨m, hm, ht'⟩ := hr.step
    refine ⟨(hr.blank_fresh hs (hs.registry typeName d hd)).2, h.trans (.silent ?_ ?_)⟩
    · rw [ht', hm.rest]
    · rw [ht', hm.rest]
      rfl
  · exact fun {t d id} _ h => ⟨h.1, h.2.trans (.fired (e := .create id d.typeName) rfl rfl rfl)⟩
  · exact fun h => ⟨h.1, h.2.trans (.silent rfl rfl)⟩

/-- Whatever is built, no block is reported to be deleted. -/
theorem growing_adds (ws : Workspace α) : Growing (α := α) False fun _ => ws.Adds where
  mono _ h := h
  decorate _ _ _ _ h := h.trans (.silent rfl rfl)
  field _ _ _ h := h.trans (.silent rfl rfl)
  template _ _ hr h := by
    refine h.trans (.silent ?_ ?_)
    · rw [hr]
    · rw [hr]
      rfl
  fill _ _ h := h
  newBlock typeName := newBlock_adds ws typeName
  setUnits id n := (setUnits_adds ws id n).weaken (fun _ h => ⟨h.1, False.elim, h.2.2.2, h.2.1⟩)
    (fun _ _ h => h.1.keeps.2) fun _ h => h.2.2
  hang u c child := by
    refine ((Edit.hang_leads u c child).frame (c := u.Sound ∧ ws.Adds u)).weaken ?_ ?_
      fun _ _ => trivial
    · rintro _ ⟨rfl, h, hy, hl⟩
      exact ⟨⟨rfl, h.sound, hy, hl⟩, h.sound, h.keeps⟩
    · rintro _ t ⟨⟨p, v, hties, hshifts⟩, hs, h⟩
      exact ⟨hshifts.sound (hties.sound hs), (h.trans (.ties hties)).trans (.shifts hshifts.toShifts)⟩

/-- An empty socket gets what its template asks for, and nothing else comes of it. -/
theorem respawn_adds (ws : Workspace α) (c : ConnectionId) :
    Leads (fun t => t = ws ∧ ws.Sound) (Edit.respawn c)
      (fun _ t => ws.Refills c t ∧ ws.SameCallers t ∧ ws.Adds t) fun _ => True := by
  refine ((Edit.respawn_keeps (X := ∅) (growing_adds ws) ws c).and
    (Edit.respawn_sameCallers ws c)).weaken ?_ ?_ fun _ _ => trivial
  · rintro _ ⟨rfl, hs⟩
    exact ⟨⟨rfl, hs, .refl _⟩, rfl, hs⟩
  · rintro _ t ⟨⟨hkeeps, hrefills⟩, hsame⟩
    exact ⟨hrefills, hsame, hkeeps.keeps⟩

/-! ### What is removed -/

omit [Scalar α]

/-- The blocks `found` are gone with their ends, and nothing else is. A socket that one of them was
in is free. -/
structure Culls (ws : Workspace α) (socket : Option ConnectionId) (found : List BlockId)
    (t : Workspace α) : Prop where
  blocks : ∀ y : BlockId, t.blocks[y]? = if y ∈ found then none else ws.blocks[y]?
  connections : ∀ c : ConnectionId, t.connections[c]? =
    if ws.dead [] found c then none
    else (ws.connections[c]?).map fun y : Connection α =>
      if socket = some c then { y with target := none } else y
  told : ∃ es : List (Event α), t.events = es.foldl EventLog.fire ws.events ∧
    es.filterMap Event.deleted? = found
  nodup : found.Nodup
  ordered : ws.graph.ChildrenFirst found
  top : t.top = ws.top.filter fun y => decide (y ∉ found)
  calls : t.procedures.calls =
    ws.procedures.calls.filter fun call => !(decide (call.2 ∈ found) && ws.isCallAt call.2)
  ids : t.ids = ws.ids
  setting : t.setting = ws.setting

/-- A block that is taken out goes with everything below it. -/
theorem Fells.lost (h : ws.Fells x t) (hs : ws.Sound) : ∃ b R, ws.blocks[x]? = some b ∧
    ws.Loses x b.inputs [] R t ∧ ws.Seals [] R ∧ ∀ y, y ∈ R ↔ ws.Branch x y := by
  obtain ⟨b, R, hb, hl, hseal⟩ := h.step
  refine ⟨b, R, hb, hl, hseal, fun y => ⟨hl.below y, fun hy => ?_⟩⟩
  have hdead : ¬ t.Live x := by
    rw [h.eq]
    exact not_live_removeTree ws x
  have hgone := hl.not_live_of_branch hseal hdead hy
  obtain ⟨b', hb'⟩ := hs.live_of_branch hb hy
  by_contra hR
  have hkept := hl.kept y hR
  rw [hb', Option.map_some] at hkept
  exact hgone ⟨_, hkept⟩

theorem Fells.culls (h : ws.Fells x t) (hs : ws.Sound) (ht : ws.graph.Tame x) :
    ∃ found, ws.Culls none found t ∧ ∀ y, y ∈ found ↔ ws.Branch x y := by
  obtain ⟨b, R, hb, hl, hseal, hR⟩ := h.lost hs
  obtain ⟨es, he, hd, -⟩ := hl.told
  refine ⟨R, {
    blocks := fun y => ?_
    connections := fun c => ?_
    told := ⟨es, he, hd⟩
    nodup := hl.nodup
    ordered := hl.ordered ht
    top := hl.top
    calls := hl.procedures
    ids := hl.ids
    setting := by
      rw [hl.rest]
      rfl }, hR⟩
  · by_cases hy : y ∈ R
    · rw [if_pos hy, hl.lost y hy]
    · have hne : y ≠ x := fun he => hy ((hR y).mpr (Or.inl he))
      rw [if_neg hy, hl.kept y hy]
      simp [hne]
  · rw [hl.connections, List.filterMap_nil]
    by_cases hdead : ws.dead [] R c
    · rw [if_pos hdead, if_pos hdead]
    · rw [if_neg hdead, if_neg hdead]
      cases hy : ws.connections[c]? with
      | none => rfl
      | some y =>
        have hkept := hl.target_kept hs hseal hy hdead
        rw [List.filterMap_nil] at hkept
        simp [hkept]

/-- A cut link changes no owner. -/
theorem Cuts.dead_eq (hc : ws.Cuts s p x u) (c : ConnectionId) :
    u.dead [] found c = ws.dead [] found c := by
  unfold dead
  rw [hc.connections]
  cases ws.connections[c]? with
  | none => rfl
  | some y =>
    simp only [Option.map_some, Option.any_some]
    split <;> rfl

/-- Blocks of a branch that come in the right order once it is cut off come in the right order. -/
theorem Cuts.childrenFirst (hc : ws.Cuts s p x u) (hs : ws.Sound) (hac : ws.graph.Acyclic)
    (hx : ∀ y ∈ found, ws.Branch x y) (h : u.graph.ChildrenFirst found) :
    ws.graph.ChildrenFirst found := by
  obtain ⟨w, v, hl, rfl⟩ := hc.link
  intro L₁ y L₂ hsplit a ha
  refine h L₁ y L₂ hsplit a ?_
  rw [hc.graph]
  refine hl.under_cut hs.wired ha ?_
  rintro rfl
  -- the block itself hangs on none of the blocks below it
  have hy : y ∈ found := by
    rw [hsplit]
    exact List.mem_append_right L₁ List.mem_cons_self
  rcases hx y hy with rfl | hbelow
  · exact hac _ (.single ha)
  · exact hac _ (.head ha hbelow)

/-- When a block was unplugged before it went, its socket is free. -/
theorem Culls.of_cut (h : u.Culls none found t) (hc : ws.Cuts s p x u) (hs : ws.Sound)
    (hac : ws.graph.Acyclic) (hx : ∀ y, y ∈ found ↔ ws.Branch x y) :
    ws.Culls (some s) found t := by
  obtain ⟨w, v, hl, rfl⟩ := hc.link
  have hcall : ∀ y, u.isCallAt y = ws.isCallAt y := by
    intro y
    rw [isCallAt, isCallAt, hc.blocks]
  obtain ⟨es, he, hd⟩ := h.told
  refine {
    blocks := fun y => by rw [h.blocks, hc.blocks]
    connections := fun c => ?_
    told := ⟨.disconnect s v.block :: es, ?_, ?_⟩
    nodup := h.nodup
    ordered := hc.childrenFirst hs hac (fun y hy => (hx y).mp hy) h.ordered
    top := ?_
    calls := ?_
    ids := h.ids.trans hc.ids
    setting := ?_ }
  · rw [h.connections, hc.dead_eq]
    by_cases hdead : ws.dead [] found c
    · rw [if_pos hdead, if_pos hdead]
    · rw [if_neg hdead, if_neg hdead, hc.connections]
      have hne : c ≠ p := by
        rintro rfl
        exact hdead ((dead_iff_wire hl.plug).mpr (Or.inr ((hx _).mpr (branch_self ws _))))
      cases ws.connections[c]? with
      | none => rfl
      | some y => simp [hne, eq_comm]
  · rw [he, hc.rest, List.foldl_cons]
  · rw [List.filterMap_cons_none rfl, hd]
  · have hgone : decide (v.block ∉ found) = false := by
      simpa using (hx _).mpr (branch_self ws v.block)
    rw [h.top, hc.rest]
    split
    · rfl
    · rw [List.filter_append, List.filter_singleton, hgone, cond_false, List.append_nil]
  · rw [h.calls, hc.rest]
    exact List.filter_congr fun call _ => by rw [← hc.rest, hcall]
  · rw [h.setting, hc.rest]
    rfl

/-! ### What takes its place -/

/-- The socket that a block was in is empty, or it has a template, and holds a placeholder that was
built for it. Nothing else is new. -/
inductive Replaces (ws : Workspace α) (x : BlockId) (t : Workspace α) : Prop
  | root : ws.parentSocket x = .ok none → t.ids = ws.ids → Replaces ws x t
  | empty {s : ConnectionId} {y : Connection α} : ws.parentSocket x = .ok (some s) →
      ws.connections[s]? = some y → y.template = none →
      t.connections[s]? = some { y with target := none } → t.ids = ws.ids → Replaces ws x t
  | filled {s p : ConnectionId} {y : Connection α} {k : BlockId} :
      ws.parentSocket x = .ok (some s) → ws.connections[s]? = some y → y.template.isSome →
      t.connections[s]? = some { y with target := some p } → t.graph.Hangs s k →
      t.isPlaceholder k → ws.ids.blocks ≤ k.index.toNat →
      (∀ a, t.Live a → ws.ids.blocks ≤ a.index.toNat → t.Branch k a) → Replaces ws x t

/-- The blocks `found` were disposed, which are all that hang below `x`, and nothing else was
touched but the socket that `x` was in. -/
structure Uproots (ws : Workspace α) (x : BlockId) (found : List BlockId) (t : Workspace α) :
    Prop where
  branch : ∀ y, y ∈ found ↔ ws.Branch x y
  disposed : ∀ y, ws.Live y ∧ ¬ t.Live y ↔ y ∈ found
  /-- Each block that is disposed is reported once, and none after one that it hung below. -/
  reports : ∃ es : List (Event α), t.events = es.foldl EventLog.fire ws.events ∧
    (es.filterMap Event.deleted?).Nodup ∧
    (∀ y, y ∈ es.filterMap Event.deleted? ↔ y ∈ found) ∧
    (es.filterMap Event.deleted?).Pairwise fun y z => ¬ ws.graph.Below z y
  others : ∀ y, ws.Live y → y ∉ found → t.blocks[y]? = ws.blocks[y]?
  endsLost : ∀ (c : ConnectionId) (y : Connection α), ws.connections[c]? = some y →
    y.block ∈ found → t.connections[c]? = none
  /-- What an end is linked to is there, so it is none of the ends that are gone. -/
  linked : ∀ (c d : ConnectionId) (y : Connection α), t.connections[c]? = some y →
    y.target = some d → ∃ z, t.connections[d]? = some z ∧ z.target = some c
  links : ∀ (c : ConnectionId) (y : Connection α), ws.connections[c]? = some y →
    y.block ∉ found → ws.parentSocket x ≠ .ok (some c) → t.connections[c]? = some y
  socket : ws.Replaces x t
  /-- New ends belong to new blocks. -/
  made : ∀ (c : ConnectionId) (y : Connection α), t.connections[c]? = some y →
    ws.connections[c]? = none → ws.ids.blocks ≤ y.block.index.toNat
  top : t.top = ws.top.filter fun y => decide (y ∉ found)
  /-- The calls that are disposed are not registered any more, and all others are as they were. -/
  callers : t.procedures.earlier ws.ids.blocks = (ws.procedures.earlier ws.ids.blocks).filter
    fun call => !(decide (call.2 ∈ found) && ws.isCallAt call.2)
  setting : t.setting = ws.setting

/-- What is new hangs on the socket, so it is not at the top. -/
theorem Replaces.top_old (h : ws.Replaces x t) (ht : t.Sound) (hroot : t.Rooted) :
    ∀ y ∈ t.top, y.index.toNat < ws.ids.blocks := by
  intro a ha
  have hbelow := hroot.old ht a ha
  cases h with
  | root _ hids => exact hids ▸ hbelow
  | empty _ _ _ _ hids => exact hids ▸ hbelow
  | filled _ _ _ _ hhangs _ _ hsole =>
    obtain ⟨hlive, hloose⟩ := hroot a ha
    by_contra hle
    rcases hsole a hlive (Nat.le_of_not_lt hle) with rfl | hdeep
    · obtain ⟨p, w, v, hl, rfl⟩ := hhangs
      exact hloose.not_under ht.wired hl.under
    · obtain ⟨b, hu, -⟩ := Relation.TransGen.head'_iff.mp hdeep
      exact hloose.not_under ht.wired hu

section Afterwards

variable {socket : Option ConnectionId}

/-- What is built when blocks are gone leaves all others as they were. -/
theorem Culls.block_old {X : Set ConnectionId} (h : ws.Culls socket R v) (he : Extends X v t)
    (hy : y.index.toNat < ws.ids.blocks) :
    t.blocks[y]? = if y ∈ R then none else ws.blocks[y]? := by
  rw [he.blocks y (by rw [h.ids]; exact hy), h.blocks]

theorem Culls.connection_old {z : Connection α} (h : ws.Culls socket R v)
    (he : Extends { c | socket = some c } v t) (hs : ws.Sound) (hz : ws.connections[c]? = some z)
    (hne : socket ≠ some c) : t.connections[c]? = if z.block ∈ R then none else some z := by
  have hlt := hs.connectionIds hz
  rw [he.connections c hne (by rw [h.ids]; exact hlt), h.connections, hz]
  by_cases hgone : z.block ∈ R
  · rw [if_pos hgone, if_pos ((dead_iff hz).mpr (Or.inr hgone))]
  · have hkept : ¬ ws.dead [] R c := by
      rw [dead_iff hz]
      simpa using hgone
    rw [if_neg hgone, if_neg hkept, Option.map_some, if_neg hne]

/-- An old block lists its ends as it did, and they were all there. -/
theorem Culls.owner_new {X : Set ConnectionId} {z : Connection α} (h : ws.Culls socket R v)
    (he : Extends X v t) (hs : ws.Sound) (ht : t.Sound) (hz : t.connections[c]? = some z)
    (hnew : ws.connections[c]? = none) : ws.ids.blocks ≤ z.block.index.toNat := by
  by_contra hlt
  obtain ⟨b, hb, hrole⟩ := ht.owner hz
  rw [h.block_old he (Nat.lt_of_not_le hlt)] at hb
  split at hb
  · cases hb
  · obtain ⟨z', hz', -⟩ := hs.listed hb hrole
    rw [hnew] at hz'
    cases hz'

theorem Culls.top_old {X : Set ConnectionId} (h : ws.Culls socket R v) (he : Extends X v t)
    (ht : t.Sound) (hroot : ws.Rooted) (hs : ws.Sound) (htroot : t.Rooted)
    (hreplaces : ws.Replaces x t) : t.top = ws.top.filter fun y => decide (y ∉ R) := by
  have hnew : t.top = earlier ws.ids.blocks t.top :=
    (List.filter_eq_self.mpr fun y hy => decide_eq_true (hreplaces.top_old ht htroot y hy)).symm
  have htop := he.top
  rw [h.ids, ← hnew, h.top, earlier, List.filter_filter] at htop
  rw [htop]
  refine List.filter_congr fun y hy => ?_
  simp only [decide_eq_true (hroot.old hs y hy), Bool.true_and]

/-- Where the socket was filled again, nothing else has changed. -/
theorem Culls.uproots (h : ws.Culls socket R v)
    (hR : ∀ y, y ∈ R ↔ ws.Branch x y) (hfound : ∀ y, y ∈ found ↔ ws.Branch x y) (hs : ws.Sound)
    (hlive : ws.Live x) (hroot : ws.Rooted) (hsocket : ws.parentSocket x = .ok socket)
    (hout : ∀ (c : ConnectionId) (y : Connection α), socket = some c →
      ws.connections[c]? = some y → ¬ ws.Branch x y.block)
    (he : Extends { c | socket = some c } v t) (hsame : v.SameCallers t) (hadds : v.Adds t)
    (ht : t.Sound) (htroot : t.Rooted) (hreplaces : ws.Replaces x t) : ws.Uproots x found t := by
  have hmem : ∀ y, y ∈ R ↔ y ∈ found := fun y => (hR y).trans (hfound y).symm
  have hold : ∀ (y : BlockId), y.index.toNat < ws.ids.blocks →
      t.blocks[y]? = if y ∈ found then none else ws.blocks[y]? := by
    intro y hy
    rw [h.block_old he hy]
    simp only [hmem]
  have hends : ∀ (c : ConnectionId) (y : Connection α), ws.connections[c]? = some y →
      socket ≠ some c → t.connections[c]? = if y.block ∈ found then none else some y := by
    intro c y hy hne
    rw [h.connection_old he hs hy hne]
    simp only [hmem]
  obtain ⟨es, hes, hdeleted⟩ := h.told
  obtain ⟨es', hes', hdeleted'⟩ := hadds.told
  exact {
    branch := hfound
    disposed := fun y => by
      constructor
      · rintro ⟨⟨b, hb⟩, hdead⟩
        by_contra hy
        have hkept := hold y (hs.blockIds hb)
        rw [if_neg hy, hb] at hkept
        exact hdead ⟨b, hkept⟩
      · intro hy
        obtain ⟨b, hb⟩ := hlive
        obtain ⟨b', hb'⟩ := hs.live_of_branch hb ((hfound y).mp hy)
        refine ⟨⟨b', hb'⟩, fun ⟨b₁, hb₁⟩ => ?_⟩
        rw [hold y (hs.blockIds hb'), if_pos hy] at hb₁
        cases hb₁
    reports := by
      refine ⟨es ++ es', ?_, ?_⟩
      · rw [List.foldl_append, ← hes, hes']
      · rw [List.filterMap_append, hdeleted, hdeleted', List.append_nil]
        exact ⟨h.nodup, hmem, h.ordered.pairwise h.nodup⟩
    others := fun y ⟨b, hb⟩ hy => by rw [hold y (hs.blockIds hb), if_neg hy]
    endsLost := fun c y hy hgone => by
      rw [hends c y hy fun hc => hout c y hc hy ((hfound _).mp hgone), if_pos hgone]
    linked := fun c d y hy hd => by
      obtain ⟨z, hz, hback, -⟩ := ht.target hy hd
      exact ⟨z, hz, hback⟩
    links := fun c y hy hkept hne => by
      rw [hends c y hy fun hc => hne (hc ▸ hsocket), if_neg hkept]
    socket := hreplaces
    made := fun c y hy hnew => h.owner_new he hs ht hy hnew
    top := by
      rw [h.top_old he ht hroot hs htroot hreplaces]
      simp only [hmem]
    callers := by
      have hcalls := hsame.calls
      rw [h.ids] at hcalls
      rw [hcalls, Procedures.earlier, Procedures.earlier, h.calls, List.filter_filter,
        List.filter_filter]
      refine List.filter_congr fun call _ => ?_
      simp only [hmem, Bool.and_comm]
    setting := hadds.setting.trans h.setting }

end Afterwards

theorem Replaces.of_refills (h : v.Refills s t) (hculls : ws.Culls (some s) R v)
    (hsocket : ws.parentSocket x = .ok (some s)) {y : Connection α}
    (hy : ws.connections[s]? = some y) (hout : y.block ∉ R) : ws.Replaces x t := by
  have hfree : v.connections[s]? = some { y with target := none } := by
    have hkept : ¬ ws.dead [] R s := by
      rw [dead_iff hy]
      simpa using hout
    rw [hculls.connections, if_neg hkept, hy, Option.map_some, if_pos rfl]
  cases h with
  | kept hy' hkept =>
    obtain rfl := Option.some.inj (hfree.symm.trans hy')
    have htemplate : y.template = none := by simpa using hkept
    exact .empty hsocket hy htemplate hfree hculls.ids
  | filled hy' _ htemplate hfresh hu hmark hgrafts =>
    obtain rfl := Option.some.inj (hfree.symm.trans hy')
    obtain ⟨p, z, hp, -⟩ := hfresh.socket hu hgrafts hy'
    refine .filled hsocket hy (Option.isSome_iff_exists.mpr ⟨_, htemplate⟩) hp hgrafts.hangs
      (hgrafts.isPlaceholder hmark) (hculls.ids ▸ hfresh.new) fun a ha hnew => ?_
    exact hgrafts.branch hu (hfresh.sole a (by rw [hculls.ids]; exact hnew) (hgrafts.live ha))

end Workspace

namespace Edit

open Workspace

variable [Scalar α] {ws : Workspace α} {x : BlockId} {found : List BlockId}

omit [Scalar α] in
/-- A block that hangs on nothing goes with its branch. -/
theorem uproots_of_loose {t : Workspace α} (hs : ws.Sound) (hac : ws.graph.Acyclic)
    (hroot : ws.Rooted) (hlive : ws.Live x) (hfound : ∀ y, y ∈ found ↔ ws.Branch x y)
    (hloose : ws.graph.Loose x) (hf : ws.Fells x t) (htroot : t.Rooted) :
    ws.Uproots x found t := by
  obtain ⟨R, hculls, hR⟩ := hf.culls hs (hac x)
  obtain ⟨b, hb⟩ := hlive
  have hsocket : ws.parentSocket x = .ok none := by
    rcases hs.parentSocket_cases hb with ⟨s, p, w, z, -, hl, hz⟩ | ⟨hsocket, -⟩
    · exact (hloose.not_under hs.wired ⟨s, p, w, z, hl, hz, rfl⟩).elim
    · exact hsocket
  exact hculls.uproots hR hfound hs ⟨b, hb⟩ hroot hsocket (fun c y hc => by cases hc)
    (.refl _ t) (.refl t) (.refl t) (hf.sound hs) htroot (.root hsocket hculls.ids)

/-- A block that was cut off goes with its branch, and its socket may be filled again. -/
theorem respawn_uproots {s p : ConnectionId} {u v : Workspace α} (hs : ws.Sound)
    (hac : ws.graph.Acyclic) (hroot : ws.Rooted) (hlive : ws.Live x)
    (hfound : ∀ y, y ∈ found ↔ ws.Branch x y) (hc : ws.Cuts s p x u) (hf : u.Fells x v) :
    Leads (· = v) (respawn s) (fun _ t => t.Rooted → ws.Uproots x found t) fun _ => True := by
  have hu := hc.sound hs
  have hv := hf.sound hu
  obtain ⟨R, hculls, hR⟩ := hf.culls hu (hc.acyclic hs hac x)
  obtain ⟨w, z, hl, rfl⟩ := hc.link
  have hR' : ∀ y, y ∈ R ↔ ws.Branch z.block y := by
    intro y
    rw [hR]
    constructor
    · exact fun h => h.imp_right fun hb => hb.mono fun _ _ => hc.under_of hs
    · refine fun h => h.imp_right fun hb => ?_
      rw [hc.graph]
      exact hl.below_cut hs.wired hac hb
  obtain ⟨b, hb⟩ := hlive
  have hsocket : ws.parentSocket z.block = .ok (some s) := by
    rw [hs.parentSocket hb, (hs.findSome?_plugs hb).mpr ⟨p, w, z, hl, rfl⟩]
  have hcleared := hculls.of_cut hc hs hac hR'
  obtain ⟨y, hy, rfl⟩ := connection_of_wire hl.socket
  have hout := outside_of_link hl hac hy
  refine (respawn_adds v s).weaken ?_ ?_ fun _ _ => trivial
  · rintro _ rfl
    exact ⟨rfl, hv⟩
  · rintro _ t ⟨hrefills, hsame, hadds⟩ htroot
    refine hcleared.uproots hR' hfound hs ⟨b, hb⟩ hroot hsocket ?_ ?_ hsame hadds
      (hrefills.sound hv) htroot (.of_refills hrefills hcleared hsocket hy ?_)
    · intro c y' hcs hy'
      cases hcs
      rw [hy, Option.some.injEq] at hy'
      exact hy' ▸ hout
    · refine hrefills.extend.shrink fun c hcs => Or.inl ?_
      rw [Set.mem_singleton_iff.mp hcs]
      rfl
    · exact fun hmem => hout ((hR' _).mp hmem)

theorem dispose_uproots (hs : ws.Sound) (hac : ws.graph.Acyclic) (hroot : ws.Rooted)
    (hlive : ws.Live x) (hfound : ∀ y, y ∈ found ↔ ws.Branch x y) :
    Leads (· = ws) (dispose x) (fun _ t => ws.Uproots x found t) fun _ => True := by
  have hrooted : Leads (· = ws) (dispose x) (fun _ t => t.Rooted) fun _ => True :=
    (dispose_keeps (X := ∅) stable_rooted x).weaken (fun t h => h ▸ ⟨hs, hroot⟩)
      (fun _ _ h => h.keeps) fun _ _ => trivial
  have huproots : Leads (· = ws) (dispose x) (fun _ t => t.Rooted → ws.Uproots x found t)
      fun _ => True :=
    dispose_leads hs hlive (fun hloose hf => uproots_of_loose hs hac hroot hlive hfound hloose hf)
      fun hc hf => respawn_uproots hs hac hroot hlive hfound hc hf
  exact (hrooted.and huproots).weaken (fun _ h => ⟨h, h⟩) (fun _ _ h => h.2 h.1) fun _ _ => trivial

end Edit

namespace Editor

open Workspace Act

variable [Scalar α] {config : EditorConfig α} {registry : Registry} {e : Editor α}
  {actions : List (Action α)} {x : BlockId}

/-- When a live block is disposed, it goes with its descendants, and nothing else goes. Its socket is
empty then or holds a new placeholder, and all else is as it was. -/
theorem run_disposes (hone : registry.OnePlug) (hstart : create config registry = .ok e)
    (hlast : Lasts ((e.run actions).after (.dispose x)))
    (hacyclic : (e.run actions).workspace.graph.Acyclic) (hlive : (e.run actions).workspace.Live x)
    (haccepts : (e.run actions).accepts (.dispose x)) :
    ∃ found t, (e.run actions).workspace.descendants x = .ok found ∧
      (e.run actions).after (.dispose x) = { e.run actions with workspace := t } ∧
      (e.run actions).workspace.Uproots x found t := by
  have hbefore := lasts_of_after hlast
  have hs := run_wired hone hstart hbefore
  have hroot := run_rooted hone hstart hbefore
  generalize e.run actions = u at hlast hacyclic hlive haccepts hs hroot ⊢
  obtain ⟨b, hb⟩ := hlive
  obtain ⟨found, hfound, hmem⟩ := hs.descendants hb
  have hbranch : ∀ y, y ∈ found ↔ u.workspace.Branch x y :=
    fun y => ⟨hmem y, hs.mem_descendants (hacyclic x) hfound⟩
  unfold accepts at haccepts
  cases hperform : perform (.dispose x) u with
  | error refusal t =>
    rw [hperform] at haccepts
    cases haccepts
  | ok a t =>
    rw [after, hperform] at hlast ⊢
    obtain ⟨v, hv, rfl⟩ := edit_ok hperform
    refine ⟨found, v, hfound, rfl, ?_⟩
    exact (Edit.dispose_uproots hs hacyclic hroot ⟨b, hb⟩ hbranch).ok hv hlast rfl

/-- A call is disposed, and the literal that it had replaced stands in for it again. -/
theorem run_disposes_call :
    let e := (fresh (.standard : EditorConfig Int) Palette.registry).run
      [.newBlock "Return", .setTemplate ⟨1⟩ (some (.ofType "int")), .newBlock "Call",
        .setField ⟨2⟩ "func" "f", .connect ⟨3⟩ ⟨1⟩]
    e.workspace.procedures.calls = [("f", ⟨2⟩)] ∧
    ∃ found t, e.workspace.descendants ⟨2⟩ = .ok found ∧
      e.after (.dispose ⟨2⟩) = { e with workspace := t } ∧ e.workspace.Uproots ⟨2⟩ found t :=
  ⟨by decide +kernel, run_disposes Palette.registry_onePlug (create_fresh (by decide))
    (by decide +kernel) (acyclic_of_ordered (by decide +kernel))
    (mem_blockIds.mp (by decide +kernel)) (by decide +kernel)⟩

end Editor

end BlockEditor
