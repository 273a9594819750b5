import BlockEditor.Proofs.Coherence
import BlockEditor.Proofs.Parting
import BlockEditor.Proofs.Picking

/-!
# Rolling back

A drag whose start is refused halfway puts its block back. Everything that was there before is then
as it was, apart from the template of a socket in which a copy was to stay. What the start had built
by then may be left over.
-/

namespace BlockEditor

open Workspace

variable {α : Type}

namespace Workspace

variable {ws t u v : Workspace α} {x : BlockId} {b : Block α} {c s p : ConnectionId}
  {C : Set ConnectionId} {d : DragSession α}

/-- The plug of a block that goes with the socket. -/
theorem Sound.plugFor?_of_mates {w v : Wire} (hs : ws.Sound) (hm : ws.graph.Mates s p w v)
    (hb : ws.blocks[v.block]? = some b) : b.plugFor? w.kind = some p := by
  obtain ⟨y, hy, rfl⟩ := connection_of_wire hm.plug
  obtain ⟨b', hb', hr⟩ := hs.owner hy
  obtain rfl : b = b' := Option.some.inj (hb.symm.trans hb')
  have hk : y.kind = w.kind.opposite := hm.opposite
  have hsocket := hm.isSocket
  rw [hk, mem_roles] at hr
  have plain : ∀ k : ConnectionKind, k.isSocket = false →
      ¬ ∃ i ∈ b.inputs, i.connection = some p ∧ some k = i.kind.connection? := by
    rintro k hk' ⟨i, -, -, hi⟩
    rw [InputKind.isSocket_of_connection? hi.symm] at hk'
    cases hk'
  cases hw : w.kind with
  | inputValue =>
    rw [hw] at hr
    obtain ⟨h, -⟩ | ⟨-, h⟩ | ⟨-, h⟩ | h := hr
    · exact h
    · cases h
    · cases h
    · exact absurd h (plain .outputValue rfl)
  | nextStatement =>
    rw [hw] at hr
    obtain ⟨-, h⟩ | ⟨h, -⟩ | ⟨-, h⟩ | h := hr
    · cases h
    · exact h
    · cases h
    · exact absurd h (plain .previousStatement rfl)
  | outputValue =>
    rw [hw] at hsocket
    cases hsocket
  | previousStatement =>
    rw [hw] at hsocket
    cases hsocket

namespace Parted

theorem not_top (h : ws.Parted C s p x t) (hs : ws.Sound) (hroot : ws.Rooted) : x ∉ ws.top := by
  obtain ⟨u, hc, -⟩ := h.cut
  obtain ⟨w, v, hl, hv⟩ := hc.link
  exact fun hx => (hroot x hx).2.not_under hs.wired ⟨s, p, w, v, hl, hv, rfl⟩

/-- What is below the block stays there. -/
theorem targetOf_next {n : ConnectionId} (h : ws.Parted C s p x t) (hs : ws.Sound)
    (hb : ws.blocks[x]? = some b) (hn : b.next = some n) : t.targetOf n = ws.targetOf n := by
  obtain ⟨y, hy, hyx, hk⟩ := hs.socket hb (mem_sockets.mpr (Or.inr hn))
  obtain ⟨u, hc, -⟩ := h.cut
  obtain ⟨w, v, hl, hv⟩ := hc.link
  have hne : n ≠ s := by
    rintro rfl
    have hw := (wire_of_connection hy).symm.trans hl.socket
    rw [Option.some.injEq] at hw
    exact (hl.mates hs.wired).apart (hv.trans (hyx.symm.trans (congrArg Wire.block hw)))
  have hne' : n ≠ p := by
    rintro rfl
    have hv := (wire_of_connection hy).symm.trans hl.plug
    rw [Option.some.injEq] at hv
    have hplug := hl.isPlug hs.wired
    rw [← hv, ConnectionKind.isPlug_eq_not, show y.wire.kind.isSocket = true from hk] at hplug
    cases hplug
  rw [targetOf_eq hy, targetOf_eq (h.connection hs hy hne hne')]

end Parted

/-- What a drag remembers of the state in which it took its block out of the socket `s`. -/
structure Remembers (ws : Workspace α) (b : Block α) (s : ConnectionId) (d : DragSession α) :
    Prop where
  block : ws.blocks[d.block]? = some b
  socket : d.parentSocket = some s
  below : ∀ q, d.childPlug = some q → ∃ n, b.next = some n ∧ ws.targetOf n = some q
  override : d.priorCopyOnDrag = b.copyOnDrag

/-- A block is away, and what the drag has built since is at most one copy. -/
def Away (C : Set ConnectionId) (ws : Workspace α) (s p : ConnectionId) (d : DragSession α)
    (t : Workspace α) : Prop :=
  match d.copy with
  | none => ws.Parted C s p d.block t
  | some copy => t.Sound ∧ ∃ u, ws.Parted C s p d.block u ∧ u.Fresh copy t

theorem Away.sound (h : ws.Away C s p d t) : t.Sound := by
  unfold Away at h
  split at h
  · exact h.sound
  · exact h.1

theorem Away.parted (h : ws.Away C s p d t) : ∃ u, ws.Parted C s p d.block u := by
  unfold Away at h
  split at h
  · exact ⟨t, h⟩
  · obtain ⟨-, u, hu, -⟩ := h
    exact ⟨u, hu⟩

/-- The block of a drag is real, and its socket has a template, perhaps thanks to the drag. -/
inductive Bares (ws : Workspace α) (b : Block α) (d : DragSession α) : Workspace α → Prop
  | real : b.placeholder = false → d.wasPlaceholder = false → d.templateSocket = none →
      Bares ws b d ws
  | told : b.placeholder → d.wasPlaceholder → d.templateSocket = none →
      (∀ c, b.output.bind ws.targetOf = some c → ∃ template, ws.templateAt c = some (some template)) →
      Bares ws b d { ws with blocks := ws.blocks.insert d.block { b with placeholder := false } }
  | given {c : ConnectionId} {v : Workspace α} {template : Snapshot} : b.placeholder → d.wasPlaceholder →
      d.templateSocket = some c → b.output.bind ws.targetOf = some c → ws.templateAt c = some none →
      ws.Endows c (some template) v →
      Bares ws b d { v with blocks := v.blocks.insert d.block { b with placeholder := false } }

namespace Endows

variable {template template' : Option Snapshot}

theorem block (h : ws.Endows c template t) (hb : ws.blocks[x]? = some b) :
    t.blocks[x]? = some b := by
  rw [h.blocks, hb]

theorem templateAt (h : ws.Endows c template t) (e : ConnectionId) :
    t.templateAt e = if e = c then (ws.templateAt e).map fun _ => template else ws.templateAt e := by
  rw [Workspace.templateAt, h.connections, Workspace.templateAt]
  by_cases he : e = c <;> cases ws.connections[e]? <;> simp [he]

end Endows

namespace Bares

theorem sound {t : Workspace α} (h : ws.Bares b d t) (hs : ws.Sound)
    (hb : ws.blocks[d.block]? = some b) : t.Sound := by
  cases h with
  | real => exact hs
  | told => exact hs.insert hb rfl
  | given _ _ _ _ _ he => exact (he.sound hs).insert (he.block hb) rfl

theorem graph (h : ws.Bares b d t) (hb : ws.blocks[d.block]? = some b) : t.graph = ws.graph := by
  cases h with
  | real => rfl
  | told => exact graph_insert hb rfl
  | given _ _ _ _ _ he =>
    rw [← he.graph]
    exact graph_insert (he.block hb) rfl

theorem rooted (h : ws.Bares b d t) (hb : ws.blocks[d.block]? = some b) (hroot : ws.Rooted) :
    t.Rooted := by
  cases h with
  | real => exact hroot
  | told => exact hroot.insert hb rfl
  | given _ _ _ _ _ he =>
    refine Rooted.insert ?_ (he.block hb) rfl
    refine hroot.congr (by rw [he.rest]) (fun x => ?_) he.graph
    rw [Live, Live, he.blocks]
    exact id

end Bares

namespace Recovers

theorem refl (h : ws.Rooted) (hs : ws.Sound) : ws.Recovers C ws where
  blocks _ _ := rfl
  wires _ _ := rfl
  templates _ _ _ := rfl
  top := List.filter_eq_self.mpr fun x hx => decide_eq_true (h.old hs x hx)

theorem drifts (h : ws.Recovers C t) (hd : t.Drifts u) : ws.Recovers C u where
  blocks x hx := by rw [hd.blocks, h.blocks x hx]
  wires c hc := by rw [hd.graph, h.wires c hc]
  templates c hC hc := by rw [hd.templateAt, h.templates c hC hc]
  top := by rw [hd.top, h.top]

/-- The block is made a placeholder again. -/
theorem remark {b' : Block α} (hb : ws.blocks[x]? = some b) (hmark : b.placeholder)
    (hb' : t.blocks[x]? = some b')
    (h : Recovers C { ws with blocks := ws.blocks.insert x { b with placeholder := false } } t) :
    ws.Recovers C { t with blocks := t.blocks.insert x { b' with placeholder := true } } where
  blocks y hy := looks_remark hb hmark hb' (h.blocks y hy)
  wires c hc := by
    have hafter : Workspace.graph
        { t with blocks := t.blocks.insert x { b' with placeholder := true } } = t.graph :=
      graph_insert hb' rfl
    rw [hafter, h.wires c hc]
    exact congrArg (·.wire c) (graph_insert hb rfl)
  templates := h.templates
  top := h.top

/-- The template is taken back. -/
theorem forget {template : Option Snapshot} (he : ws.Endows c template v)
    (hnone : ws.templateAt c = some none) (h : v.Recovers C t) (hf : t.Endows c none u) :
    ws.Recovers C u where
  blocks x hx := by
    rw [hf.blocks, h.blocks x (by rw [he.rest]; exact hx), he.blocks]
  wires e hlt := by
    rw [hf.graph, h.wires e (by rw [he.rest]; exact hlt), he.graph]
  templates e hC hlt := by
    have hsame := h.templates e hC (by rw [he.rest]; exact hlt)
    rw [hf.templateAt, hsame, he.templateAt]
    split
    · next heq => subst heq; rw [hnone]; rfl
    · rfl
  top := by
    have htop := h.top
    rw [he.rest] at htop
    rw [hf.rest]
    exact htop

end Recovers

end Workspace

namespace Edit

variable [Scalar α] {ws t : Workspace α} {x k : BlockId} {b : Block α} {c s p q : ConnectionId}
  {C : Set ConnectionId} {d : DragSession α}

theorem connect_linked {w v : Wire} (hs : ws.Sound) (hl : ws.graph.Link s p w v) :
    connect p s ws = .ok () ws := by
  obtain ⟨y, hy, rfl⟩ := connection_of_wire hl.socket
  obtain ⟨z, hz, rfl⟩ := connection_of_wire hl.plug
  rw [connect_eq_fit ⟨_, _, hl.mates hs.wired, rfl⟩ (Or.inr ⟨rfl, rfl⟩), fit_eq hy hz,
    if_pos (show y.target = some p from hl.down)]

omit [Scalar α] in
theorem setCopyOnDrag_eq_self (hb : ws.blocks[x]? = some b) :
    setCopyOnDrag x b.copyOnDrag ws = .ok () ws := by
  have hsame : ws.setInputs x b b.inputs = ws := setInputs_self hb
  unfold setCopyOnDrag updateBlock
  simp only [bind, EStateM.bind, query, block_eq_ok.mpr hb]
  exact congrArg (EStateM.Result.ok ()) hsame

theorem takeBackStack_eq {n : ConnectionId} {y : Connection α} (hb : ws.blocks[x]? = some b)
    (hn : b.next = some n) (hy : ws.connections[q]? = some y) :
    takeBackStack x q ws = connect q n ws := by
  have hmem : ws.connections.contains q = true := by
    rw [Std.ExtTreeMap.contains_eq_isSome_getElem?, hy]
    rfl
  unfold takeBackStack
  simp only [bind, EStateM.bind, query, block_eq_ok.mpr hb, hn]
  change (if ws.connections.contains q then connect q n else pure ()) ws = _
  rw [if_pos hmem]

/-- The statement below need not be taken back as long as it is still there. -/
theorem takeBackStack_eq_self (hs : ws.Sound) (hb : ws.blocks[x]? = some b)
    {n : ConnectionId} (hn : b.next = some n) (hq : ws.targetOf n = some q) :
    takeBackStack x q ws = .ok () ws := by
  obtain ⟨y, hy, -, hk⟩ := hs.socket hb (mem_sockets.mpr (Or.inr hn))
  rw [targetOf_eq hy] at hq
  obtain ⟨v, hl⟩ := Graph.link_of_socket hs.wired (wire_of_connection hy) hk hq
  obtain ⟨z, hz, -⟩ := connection_of_wire hl.plug
  rw [takeBackStack_eq hb hn hz, connect_linked hs hl]

/-- A copy that hangs on nothing is disposed, if it is still there. -/
theorem discardCopy_parts :
    Leads (fun t => t.Sound ∧ ∃ u, ws.Parted C s p x u ∧ u.Fresh k t) (discardCopy k)
      (fun _ t => ws.Parted C s p x t) fun _ => False := by
  refine Tells.each (discardCopy_keeps (X := ∅) (Editor.stable_true (α := α)) k) ?_
  rintro t ⟨ht, u, hparted, hfresh⟩
  refine Leads.bind (Leads.get (Q := fun now t' => now = t' ∧ t' = t) fun _ h => ⟨rfl, h⟩)
    fun now => ?_
  have stays : ∀ s' p' v, ¬ t.Cuts s' p' k v := by
    intro s' p' v hc
    obtain ⟨w, y, hl, hy⟩ := hc.link
    exact hfresh.loose.not_under ht.wired ⟨s', p', w, y, hl, hy, rfl⟩
  refine Leads.ite (fun hlive => ?_) fun _ => Leads.pure ?_
  · refine Tells.each (dispose_keeps (X := ∅) (Editor.stable_true (α := α)) k) ?_
    rintro _ ⟨rfl, rfl⟩
    refine (dispose_disposes ht k).weaken (fun _ h => h) (fun _ v hv => ?_) fun v hv => ?_
    · cases hv with
      | root _ hfell => exact hparted.fells hfresh ht hfell
      | child hc _ _ => exact (stays _ _ _ hc).elim
    · cases hv with
      | absent hdead => exact hdead (hasBlock_iff.mp hlive)
      | unfilled hc _ _ => exact stays _ _ _ hc
  · rintro _ ⟨-, rfl⟩
    exact hparted.extend hfresh.extend ht (hfresh.acyclic ht hparted.acyclic)

/-- The block goes back into its socket. -/
theorem takePlace_seats (h : ws.Parted C s p d.block t) (hs : ws.Sound)
    (hb : ws.blocks[d.block]? = some b) (hsocket : d.parentSocket = some s) :
    Leads (· = t) (takePlace d) (fun _ u => t.Seats s p d.block none u) fun _ => False := by
  have hready := h.ready hs
  have hb' := h.block hs hb
  obtain ⟨w, v, hm, hv⟩ := hready.poised
  have hplug := hready.sound.plugFor?_of_mates hm (hv ▸ hb')
  obtain ⟨y, hy, rfl⟩ := connection_of_wire hm.socket
  have hformer : formerPlace d t = .ok (some (s, p)) t := by
    have hget : (get : Edit α (Workspace α)) t = .ok t t := rfl
    unfold formerPlace
    rw [bind_eq hget]
    simp only [hsocket, hy]
    rw [bind_eq (query_block hb')]
    exact congrArg (fun q => EStateM.Result.ok (Option.map (s, ·) q) t) hplug
  have heq : takePlace d t = connect s p t := by
    unfold takePlace
    simp only [bind, EStateM.bind, hformer]
  exact Tells.congr (takePlace_keeps (X := ∅) (Editor.stable_true (α := α)) d)
    (connect_seats hready h.vacant (Or.inl ⟨rfl, rfl⟩)) fun _ ht => ht ▸ heq

omit [Scalar α] in
/-- A block that hangs on another one is made a placeholder again, if it was one. -/
theorem remark_tells {R : Workspace α → Prop} (hin : ∀ t, R t → t.Sound ∧ t.Live d.block ∧
    (d.wasPlaceholder → ∃ a, t.graph.Under d.block a)) :
    Leads R (do
      if d.wasPlaceholder then
        if (← query (·.parent d.block)).isSome then setPlaceholder d.block true)
      (fun _ t => if d.wasPlaceholder then ∃ u b', R u ∧ u.blocks[d.block]? = some b' ∧
        t = { u with blocks := u.blocks.insert d.block { b' with placeholder := true } } else R t)
      fun _ => False := by
  by_cases hmark : d.wasPlaceholder = true
  · simp only [hmark, if_true]
    refine Tells.of_result
      (?_ : Leads (fun _ => True) _ (fun _ _ => True) fun _ => True) ?_
    · refine Leads.bind (Leads.query (fun _ _ _ _ => trivial) fun _ _ _ _ => trivial) fun above => ?_
      exact Leads.ite (fun _ => Leads.updateBlock (fun _ _ _ _ => trivial) fun _ _ _ => trivial)
        fun _ => Leads.pure fun _ _ => trivial
    · intro t h
      obtain ⟨ht, ⟨b', hb'⟩, hunder⟩ := hin t h
      obtain ⟨a, hu⟩ := hunder hmark
      simp only [bind, EStateM.bind, query, (ht.parent_eq_some hb').mpr hu, Option.isSome_some,
        if_true, setPlaceholder, updateBlock, block_eq_ok.mpr hb']
      exact ⟨t, b', h, hb', rfl⟩
  · simp only [hmark]
    exact Leads.pure fun _ h => h

/-- A copy that hangs on nothing goes, and the block goes back into its socket. -/
theorem putBack_recovers (hs : ws.Sound) (hroot : ws.Rooted)
    (hrem : ws.Remembers b s d) :
    Leads (ws.Away C s p d) (putBack d) (fun _ t => if d.wasPlaceholder
        then ∃ u b', ws.Recovers C u ∧ u.blocks[d.block]? = some b' ∧
          t = { u with blocks := u.blocks.insert d.block { b' with placeholder := true } }
        else ws.Recovers C t) fun _ => False := by
  have hJ := Editor.stable_true (α := α)
  unfold putBack
  refine Leads.bind (Q := fun _ => ws.Parted C s p d.block) ?_ fun _ => ?_
  · unfold Away
    cases d.copy with
    | none => exact Leads.pure fun _ h => h
    | some copy => exact discardCopy_parts
  refine Leads.bind (Q := fun _ => ws.Parted C s p d.block) ?_ fun _ => ?_
  · refine Tells.of_result (setCopyOnDrag_keeps (X := ∅) hJ d.block d.priorCopyOnDrag) fun t h => ?_
    rw [hrem.override, setCopyOnDrag_eq_self (h.block hs hrem.block)]
    exact h
  refine Leads.bind (Q := fun _ => ws.Parted C s p d.block) ?_ fun _ => ?_
  · refine Leads.forM_option _ (fun q hq => ?_) fun _ _ h => h
    obtain ⟨n, hn, ht⟩ := hrem.below q hq
    refine Tells.of_result (takeBackStack_keeps (X := ∅) hJ d.block q) fun t h => ?_
    rw [takeBackStack_eq_self h.sound (h.block hs hrem.block) hn
      ((h.targetOf_next hs hrem.block hn).trans ht)]
    exact h
  refine Leads.bind (Q := fun _ t => ws.Recovers C t ∧ t.Sound ∧ t.Live d.block ∧
    ∃ a, t.graph.Under d.block a) ?_ fun _ => ?_
  · refine Tells.each (takePlace_keeps (X := ∅) hJ d) fun t h => ?_
    refine (takePlace_seats h hs hrem.block hrem.socket).post fun _ u hseat => ?_
    have hrec := h.recovers hs (h.not_top hs hroot) (hroot.old hs) hseat
    have hsame := hrec.blocks d.block (hs.blockIds hrem.block)
    rw [hrem.block, Option.map_some, Option.map_eq_some_iff] at hsame
    obtain ⟨b', hb', -⟩ := hsame
    obtain ⟨w, v, hl, hv⟩ := hseat.link
    exact ⟨hrec, hseat.sound h.sound, ⟨b', hb'⟩, w.block, s, p, w, v, hl, hv, rfl⟩
  refine Leads.weaken (remark_tells fun t h => ?_) (fun _ h => h) ?_ fun _ h => h
  · exact ⟨h.2.1, h.2.2.1, fun _ => h.2.2.2⟩
  · intro _ t h
    by_cases hmark : d.wasPlaceholder = true
    · rw [if_pos hmark] at h ⊢
      obtain ⟨u, b', ⟨hrec, -⟩, hrest⟩ := h
      exact ⟨u, b', hrec, hrest⟩
    · rw [if_neg hmark] at h ⊢
      exact h.1

/-- A start that was refused is undone. -/
theorem rollBack_recovers {real : Workspace α} {b₀ : Block α} (hs : ws.Sound) (hroot : ws.Rooted)
    (hb : ws.blocks[d.block]? = some b₀) (hbare : ws.Bares b₀ d real)
    (hrem : real.Remembers b s d) :
    Leads (real.Away C s p d) (rollBack d) (fun _ t => ws.Recovers C t) fun _ => False := by
  unfold rollBack
  have hback := putBack_recovers (C := C) (p := p) (hbare.sound hs hb) (hbare.rooted hb hroot) hrem
  refine Leads.bind (hback.tryCatch fun _ => Leads.pure fun _ h => h.elim) fun _ => ?_
  cases hbare with
  | real _ hmark hsocket =>
    rw [hsocket]
    exact Leads.pure fun t h => by simpa [hmark] using h
  | told hp hmark hsocket =>
    rw [hsocket]
    refine Leads.pure fun t h => ?_
    rw [if_pos hmark] at h
    obtain ⟨u, b', hrec, hb', rfl⟩ := h
    exact hrec.remark hb hp hb'
  | given hp hmark hsocket _ hnone he =>
    rw [hsocket]
    refine Leads.alter fun t h => ?_
    rw [if_pos hmark] at h
    obtain ⟨u, b', hrec, hb', rfl⟩ := h
    refine (hrec.remark (he.block hb) hp hb').forget he hnone ⟨?_, rfl⟩
    exact getElem?_forget _ _

theorem rollBack_restores {real : Workspace α} {b₀ : Block α} (hs : ws.Sound) (hroot : ws.Rooted)
    (hb : ws.blocks[d.block]? = some b₀) (hbare : ws.Bares b₀ d real)
    (hrem : real.Remembers b s d) :
    Leads (real.Away C s p d) (rollBack d) (fun _ t => ws.Recovers C t ∧ t.Sound) fun _ => False :=
  ((rollBack_recovers hs hroot hb hbare hrem).and
    (rollBack_keeps (Editor.stable_true (α := α)) d)).weaken (fun _ h => ⟨h, h.sound, trivial⟩)
    (fun _ _ h => ⟨h.1, h.2.sound⟩) fun _ h => h.1

end Edit

end BlockEditor
