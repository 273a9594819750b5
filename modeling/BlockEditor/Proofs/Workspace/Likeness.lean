import BlockEditor.Proofs.Workspace.Hanging

/-!
# Branches that look the same

What is asked about a block with everything below it depends on that branch only: on its blocks,
on its sockets, and on whose the plugs are that are in them.
-/

namespace BlockEditor

variable {α : Type}

/-- A block apart from where it lies and whether it is being dragged. -/
def Block.looks (b : Block α) : Block Unit :=
  { b.unplaced with dragging := false }

theorem Block.eq_of_looks {b b' : Block α} (h : b'.looks = b.looks) :
    b' = { b with position := b'.position, dragging := b'.dragging } := by
  cases b
  cases b'
  cases h
  rfl

theorem Block.roles_of_looks {b b' : Block α} (h : b'.looks = b.looks) : b'.roles = b.roles := by
  rw [Block.eq_of_looks h]
  rfl

namespace Workspace

variable {ws u ws' : Workspace α} {r x a child : BlockId} {c s p : ConnectionId}

/-- The branch of a block looks the same in both workspaces, wherever it lies. -/
structure Agrees (r : BlockId) (ws ws' : Workspace α) : Prop where
  blocks : ∀ x, ws.Branch r x →
    (ws'.blocks[x]?).map Block.looks = (ws.blocks[x]?).map Block.looks
  sockets : ∀ (c : ConnectionId) (y : Connection α), ws.connections[c]? = some y →
    y.kind.isSocket → ws.Branch r y.block →
    ∃ y', ws'.connections[c]? = some y' ∧ y'.unplaced = y.unplaced
  owners : ∀ (c : ConnectionId) (y : Connection α), ws.connections[c]? = some y →
    ws.Branch r y.block → ∃ y', ws'.connections[c]? = some y' ∧ y'.block = y.block

theorem branch_self (ws : Workspace α) (r : BlockId) : ws.Branch r r :=
  Or.inl rfl

theorem branch_of_under (hu : ws.graph.Under a x) (hx : ws.Branch r x) : ws.Branch r a := by
  rcases hx with rfl | hx
  · exact Or.inr (.single hu)
  · exact Or.inr (.head hu hx)

theorem Branch.trans (ha : ws.Branch x a) (hx : ws.Branch r x) : ws.Branch r a := by
  rcases ha with rfl | ha
  · exact hx
  · rcases hx with rfl | hx
    · exact Or.inr ha
    · exact Or.inr (ha.trans hx)

namespace Agrees

theorem refl (r : BlockId) (ws : Workspace α) : Agrees r ws ws where
  blocks _ _ := rfl
  sockets _ y hy _ _ := ⟨y, hy, rfl⟩
  owners _ y hy _ := ⟨y, hy, rfl⟩

theorem below (h : Agrees r ws ws') (hx : ws.Branch r x) : Agrees x ws ws' where
  blocks _ ha := h.blocks _ (ha.trans hx)
  sockets c y hy hk ha := h.sockets c y hy hk (ha.trans hx)
  owners c y hy ha := h.owners c y hy (ha.trans hx)

theorem block (h : Agrees r ws ws') {b : Block α} (hb : ws.blocks[r]? = some b) :
    ∃ b', ws'.blocks[r]? = some b' ∧ b'.looks = b.looks := by
  have := h.blocks r (branch_self ws r)
  rw [hb, Option.map_some, Option.map_eq_some_iff] at this
  exact this

theorem dead (h : Agrees r ws ws') (hr : ws.blocks[r]? = none) : ws'.blocks[r]? = none := by
  have := h.blocks r (branch_self ws r)
  rwa [hr, Option.map_none, Option.map_eq_none_iff] at this

theorem socket (h : Agrees r ws ws') (hs : ws.Sound) {b : Block α} (hb : ws.blocks[r]? = some b)
    (hc : c ∈ b.sockets) : ∃ y y', ws.connections[c]? = some y ∧ y.block = r ∧ y.kind.isSocket ∧
      ws'.connections[c]? = some y' ∧ y'.unplaced = y.unplaced := by
  obtain ⟨y, hy, hyb, hk⟩ := hs.socket hb hc
  obtain ⟨y', hy', he⟩ := h.sockets c y hy hk (hyb ▸ branch_self ws r)
  exact ⟨y, y', hy, hyb, hk, hy', he⟩

/-- The same block is plugged into a socket. -/
theorem across (h : Agrees r ws ws') (hs : ws.Sound) {b : Block α} (hb : ws.blocks[r]? = some b)
    (hc : c ∈ b.sockets) : ws'.across c = ws.across c := by
  obtain ⟨y, y', hy, hyb, hk, hy', he⟩ := h.socket hs hb hc
  have ht : y'.target = y.target := congrArg (fun u : Connection Unit => u.target) he
  rw [Workspace.across, Workspace.across, targetOf_eq hy, targetOf_eq hy', ht]
  cases hd : y.target with
  | none => rfl
  | some d =>
    obtain ⟨z, hz, -⟩ := hs.target hy hd
    have hacross : ws.across c = some z.block := by simp [Workspace.across, targetOf_eq hy, hd, hz]
    obtain ⟨p, v, hl, hv⟩ := (across_socket hy hk).mp hacross
    have hbranch : ws.Branch r z.block := Or.inr (.single ⟨c, p, _, v, hl, hv, hyb⟩)
    obtain ⟨z', hz', hzb⟩ := h.owners d z hz hbranch
    simp [hz, hz', hzb]

theorem under (h : Agrees r ws ws') (hu : ws.graph.Under a x) (hx : ws.Branch r x) :
    ws'.graph.Under a x := by
  obtain ⟨s, p, w, v, hl, rfl, rfl⟩ := hu
  obtain ⟨y, hy, rfl⟩ := connection_of_wire hl.socket
  obtain ⟨z, hz, rfl⟩ := connection_of_wire hl.plug
  obtain ⟨y', hy', he⟩ := h.sockets s y hy hl.isSocket hx
  have hz' : ws.Branch r z.block := branch_of_under hl.under hx
  obtain ⟨z', hz', hzb⟩ := h.owners p z hz hz'
  have hw : y'.wire = y.wire := congrArg (fun u : Connection Unit => u.wire) he
  exact ⟨s, p, y'.wire, z'.wire, ⟨wire_of_connection hy', wire_of_connection hz',
    hw ▸ hl.isSocket, hw ▸ hl.down⟩, hzb, congrArg Wire.block hw⟩

theorem branch (h : Agrees r ws ws') (hx : ws.Branch r x) : ws'.Branch r x := by
  rcases hx with rfl | hx
  · exact branch_self ws' x
  · induction hx using Relation.TransGen.head_induction_on with
    | single hu => exact Or.inr (.single (h.under hu (branch_self ws r)))
    | head hu hx ih => exact branch_of_under (h.under hu (Or.inr hx)) ih

theorem trans {ws'' : Workspace α} (h : Agrees r ws ws') (h' : Agrees r ws' ws'') :
    Agrees r ws ws'' where
  blocks x hx := (h'.blocks x (h.branch hx)).trans (h.blocks x hx)
  sockets c y hy hk hx := by
    obtain ⟨y', hy', he⟩ := h.sockets c y hy hk hx
    have hw : y'.wire = y.wire := congrArg (fun u : Connection Unit => u.wire) he
    have hx' : ws'.Branch r y'.block := by
      rw [show y'.block = y.block from congrArg Wire.block hw]
      exact h.branch hx
    have hk' : y'.kind.isSocket := by
      rw [show y'.kind = y.kind from congrArg Wire.kind hw]
      exact hk
    obtain ⟨y'', hy'', he'⟩ := h'.sockets c y' hy' hk' hx'
    exact ⟨y'', hy'', he'.trans he⟩
  owners c y hy hx := by
    obtain ⟨y', hy', he⟩ := h.owners c y hy hx
    obtain ⟨y'', hy'', he'⟩ := h'.owners c y' hy' (he ▸ h.branch hx)
    exact ⟨y'', hy'', he'.trans he⟩

/-- As far as the way down goes in one workspace it goes in the other. -/
theorem shallow {n : Nat} (h : Agrees r ws ws') (hn : ws'.graph.Shallow n r) :
    ws.graph.Shallow n r := by
  induction n generalizing r with
  | zero => exact hn
  | succ n ih =>
    intro a ha
    refine ih (h.below (branch_of_under ha (branch_self ws r))) (hn a ?_)
    exact h.under ha (branch_self ws r)

end Agrees

/-! ### Steps that leave a branch alone -/

theorem Shifts.looks {S : BlockId → Prop} (h : ws.Shifts S ws') (x : BlockId) :
    (ws'.blocks[x]?).map Block.looks = (ws.blocks[x]?).map Block.looks := by
  have hx := congrArg (Option.map fun u : Block Unit => { u with dragging := false }) (h.blocks x)
  rw [Option.map_map, Option.map_map] at hx
  exact hx

theorem Shifts.agrees {S : BlockId → Prop} (h : ws.Shifts S ws') (r : BlockId) :
    Agrees r ws ws' where
  blocks x _ := h.looks x
  sockets _ _ hy _ _ := h.connection hy
  owners _ _ hy _ := by
    obtain ⟨y', hy', he⟩ := h.connection hy
    exact ⟨y', hy', congrArg (fun u : Connection Unit => u.block) he⟩

theorem Extends.agrees {C : Set ConnectionId} (h : Extends C ws ws') (hs : ws.Sound)
    (hr : ws.Live r) (hC : ∀ c ∈ C, ∀ y, ws.connections[c]? = some y → ¬ ws.Branch r y.block) :
    Agrees r ws ws' where
  blocks x hx := by
    obtain ⟨b, hb⟩ := hr
    obtain ⟨b', hb'⟩ := hs.live_of_branch hb hx
    rw [h.block hs hb', hb']
  sockets c y hy _ hx := ⟨y, h.connection hs hy fun hc => hC c hc y hy hx, rfl⟩
  owners c y hy hx := ⟨y, h.connection hs hy fun hc => hC c hc y hy hx, rfl⟩

/-- Steps that retarget two ends, of which the socket is none of the branch. -/
theorem agrees_of_retarget {t t' : Option ConnectionId} (hb : ws'.blocks = ws.blocks)
    (hc : ∀ c : ConnectionId, ws'.connections[c]? = (ws.connections[c]?).map
      fun y : Connection α => if c = s then { y with target := t }
        else if c = p then { y with target := t' } else y)
    (hs : ∀ y, ws.connections[s]? = some y → ¬ ws.Branch r y.block)
    (hp : ∀ y, ws.connections[p]? = some y → y.kind.isPlug) : Agrees r ws ws' where
  blocks x _ := by rw [hb]
  sockets c y hy hk hx := by
    refine ⟨y, ?_, rfl⟩
    have hcs : c ≠ s := by
      rintro rfl
      exact hs y hy hx
    have hcp : c ≠ p := by
      rintro rfl
      have := hp y hy
      rw [ConnectionKind.isPlug_eq_not, hk] at this
      cases this
    rw [hc, hy, Option.map_some, if_neg hcs, if_neg hcp]
  owners c y hy _ := by
    rw [hc, hy, Option.map_some]
    refine ⟨_, rfl, ?_⟩
    split
    · rfl
    · split <;> rfl

theorem Ties.agrees (h : ws.Ties s p child ws')
    (hs : ∀ y, ws.connections[s]? = some y → ¬ ws.Branch r y.block) : Agrees r ws ws' := by
  obtain ⟨w, v, hm, -⟩ := h.mates
  refine agrees_of_retarget h.blocks h.connections hs fun y hy => ?_
  have hv := hm.plug
  rw [wire_of_connection hy, Option.some.injEq] at hv
  have hk := hm.isPlug
  rwa [← hv] at hk

theorem Cuts.agrees (h : ws.Cuts s p child ws') (hw : ws.Sound)
    (hs : ∀ y, ws.connections[s]? = some y → ¬ ws.Branch r y.block) : Agrees r ws ws' := by
  obtain ⟨w, v, hl, -⟩ := h.link
  have hconnections : ∀ c : ConnectionId, ws'.connections[c]? = (ws.connections[c]?).map
      fun y : Connection α => if c = s then { y with target := none }
        else if c = p then { y with target := none } else y := by
    intro c
    rw [h.connections]
    congr 1
    funext y
    by_cases hcs : c = s <;> by_cases hcp : c = p <;> simp [hcs, hcp]
  refine agrees_of_retarget h.blocks hconnections hs fun y hy => ?_
  · have hv := hl.plug
    rw [wire_of_connection hy, Option.some.injEq] at hv
    have hk := hl.isPlug hw.wired
    rwa [← hv] at hk

theorem Loses.agrees {id : BlockId} {b : Block α} {R : List BlockId}
    (h : ws.Loses id b.inputs [] R ws') (hb : ws.blocks[id]? = some b) (hw : ws.Sound)
    (hR : ∀ x, ws.Branch r x → x ∉ R) : Agrees r ws ws' := by
  have alive : ∀ (c : ConnectionId) (y : Connection α), ws.connections[c]? = some y →
      ws.Branch r y.block → ws.dead [] R c = false := by
    intro c y hy hx
    rw [Bool.eq_false_iff]
    intro hd
    rcases (dead_iff hy).mp hd with hc | hc
    · cases hc
    · exact hR _ hx hc
  refine ⟨fun x hx => ?_, fun c y hy hk hx => ⟨y, ?_, rfl⟩, fun c y hy hx => ?_⟩
  · rw [h.kept x (hR x hx)]
    by_cases he : x = id
    · subst he
      rw [hb]
      simp
    · simp [he]
  · rw [h.connections, List.filterMap_nil, alive c y hy hx, hy]
    have ht : y.target.filter (!ws.dead [] R ·) = y.target := by
      cases hd : y.target with
      | none => rfl
      | some d =>
        obtain ⟨z, hz, -⟩ := hw.target hy hd
        have hacross : ws.across c = some z.block := by
          simp [Workspace.across, targetOf_eq hy, hd, hz]
        obtain ⟨p, v, hl, hv⟩ := (across_socket hy hk).mp hacross
        have hbranch : ws.Branch r z.block := branch_of_under ⟨c, p, _, v, hl, hv, rfl⟩ hx
        simp [alive d z hz hbranch]
    simp [ht]
  · rw [h.connections, List.filterMap_nil, alive c y hy hx, hy]
    exact ⟨_, rfl, rfl⟩

/-- The template of a socket outside the branch may change. -/
theorem agrees_template {t : Option Snapshot} (hb : ws'.blocks = ws.blocks)
    (hc : ∀ d : ConnectionId, ws'.connections[d]? = (ws.connections[d]?).map
      fun y : Connection α => if d = c then { y with template := t } else y)
    (hx : ∀ y, ws.connections[c]? = some y → ¬ ws.Branch r y.block) : Agrees r ws ws' := by
  have same : ∀ (d : ConnectionId) (y : Connection α), ws.connections[d]? = some y →
      ws.Branch r y.block → ws'.connections[d]? = some y := by
    intro d y hy hyr
    have hne : d ≠ c := by
      rintro rfl
      exact hx y hy hyr
    rw [hc, hy, Option.map_some, if_neg hne]
  exact ⟨fun x _ => by rw [hb], fun d y hy _ hyr => ⟨y, same d y hy hyr, rfl⟩,
    fun d y hy hyr => ⟨y, same d y hy hyr, rfl⟩⟩

end Workspace

end BlockEditor
