import BlockEditor.Proofs.Workspace.Trimming

/-!
# Reshaping a block

A block is reshaped by taking some of its inputs away and adding others. What has come of it since
some state is told by the ends that were cut and the ends that were made: the blocks that went are
those below the cut ends, and everything else is as it was. So it does not matter in how many steps
a block was reshaped, apart from where blocks lie and what was reported.
-/

namespace BlockEditor

variable {α : Type}

/-- Two workspaces that differ in where blocks lie and in what was reported, at most. -/
structure Workspace.Matches (ws ws' : Workspace α) : Prop where
  blocks : ∀ x : BlockId, (ws'.blocks[x]?).map Block.unplaced = (ws.blocks[x]?).map Block.unplaced
  connections : ∀ c : ConnectionId,
    (ws'.connections[c]?).map Connection.unplaced = (ws.connections[c]?).map Connection.unplaced
  rest : ws' = { ws with
    blocks := ws'.blocks
    connections := ws'.connections
    events := ws'.events }

namespace Workspace

variable {ws u v : Workspace α} {id x a : BlockId} {c : ConnectionId} {b : Block α}

theorem lt_of_numbered {first n : Nat} (h : c ∈ numbered first n) :
    c.index.toNat < first + n := by
  obtain ⟨k, hk, rfl⟩ := List.mem_map.mp h
  have hlt := (List.mem_range'_1.mp hk).2
  exact Nat.lt_of_le_of_lt (Nat.mod_le k _) hlt

theorem dead_nil (ws : Workspace α) (c : ConnectionId) : ws.dead [] [] c = false := by
  simp [dead]

theorem dead_append (ws : Workspace α) (cut cut' : List ConnectionId) (R R' : List BlockId)
    (c : ConnectionId) :
    ws.dead (cut ++ cut') (R ++ R') c = (ws.dead cut R c || ws.dead cut' R' c) := by
  cases hy : ws.connections[c]? with
  | none => simp [dead, hy]
  | some y => simp [dead, hy, Bool.or_assoc, Bool.or_left_comm]

/-- If an end stays then so does what it is linked to. -/
theorem Loses.target_kept {keep gone : List Input} {R : List BlockId} {y : Connection α}
    (h : ws.Loses id keep gone R u) (hs : ws.Sound) (hl : ws.Seals gone R)
    (hy : ws.connections[c]? = some y) (hc : ¬ ws.dead (gone.filterMap (·.connection)) R c) :
    (y.target.filter fun d => !ws.dead (gone.filterMap (·.connection)) R d) = y.target := by
  cases ht : y.target with
  | none => rfl
  | some d =>
    have hw := wire_of_connection hy
    obtain ⟨v, hv, hback, hkind, -⟩ := hs.wired.joined hw ht
    have hd : ¬ ws.dead (gone.filterMap (·.connection)) R d := fun hd => by
      cases hk : y.kind.isSocket with
      | true =>
        have hlink : ws.graph.Link c d y.wire v := ⟨hw, hv, hk, ht⟩
        rcases (dead_iff_wire hv).mp hd with hgone | hR
        · obtain ⟨z, hz, -, hzk⟩ := h.socket hs hgone
          rw [wire_of_connection hz, Option.some.injEq] at hv
          have hplug := hlink.isPlug hs.wired
          rw [← hv, Connection.wire, ConnectionKind.isPlug_eq_not, hzk] at hplug
          cases hplug
        · exact hc (h.hangs hlink hR)
      | false =>
        have hsocket : v.kind.isSocket := by
          rw [hkind, ConnectionKind.isSocket_opposite, ConnectionKind.isPlug_eq_not,
            show y.wire.kind.isSocket = false from hk]
          rfl
        have hlink : ws.graph.Link d c v y.wire := ⟨hv, hw, hsocket, hback⟩
        exact hc ((dead_iff_wire hw).mpr (Or.inr (hl hlink hd)))
    simp [hd]

/-- A block has been given the inputs `inputs` and `n` units. The ends `cut` are gone, and with
them the blocks `R`; the ends `made` are new. -/
structure Reshapes [Scalar α] (ws : Workspace α) (id : BlockId) (inputs : List Input) (n : Nat)
    (cut : List ConnectionId) (made : List NewEnd) (R : List BlockId) (ws' : Workspace α) :
    Prop where
  live : ws.Live id
  spared : id ∉ R
  sockets : ∀ c ∈ cut, ∃ y, ws.connections[c]? = some y ∧ y.block = id ∧ y.kind.isSocket
  blocks : ∀ x : BlockId, (ws'.blocks[x]?).map Block.unplaced =
    if x ∈ R then none else ((ws.blocks[x]?).map Block.unplaced).map fun b =>
      if x = id then { b with inputs := inputs, units := n } else b
  mounted : ∀ e ∈ made, (ws'.connections[e.connection]?).map Connection.unplaced =
    some (e.mount (α := α) id).unplaced
  kept : ∀ c : ConnectionId, (∀ e ∈ made, c ≠ e.connection) →
    (ws'.connections[c]?).map Connection.unplaced =
      if ws.dead cut R c then none else (ws.connections[c]?).map Connection.unplaced
  numbers : made.map (·.connection) = numbered ws.ids.connections made.length
  fresh : ∀ e ∈ made, ws.ids.connections ≤ e.connection.index.toNat
  top : ws'.top = ws.top.filter fun x => decide (x ∉ R)
  procedures : ws'.procedures.calls =
    ws.procedures.calls.filter fun call => !(decide (call.2 ∈ R) && ws.isCallAt call.2)
  /-- Each block that goes is reported once, and after all that hung on it. -/
  told : ∃ es : List (Event α), ws'.events = es.foldl EventLog.fire ws.events ∧
    es.filterMap Event.deleted? = R
  nodup : R.Nodup
  ordered : ws.graph.ChildrenFirst R
  /-- What hangs on an end goes if and only if the end does. -/
  hangs : ∀ {s p w v}, ws.graph.Link s p w v → (v.block ∈ R ↔ ws.dead cut R s)
  below : ∀ x ∈ R, ws.graph.Below x id
  rest : ws' = { ws with
    ids := { ws.ids with connections := ws.ids.connections + made.length }
    blocks := ws'.blocks
    connections := ws'.connections
    top := ws'.top
    procedures := ws'.procedures
    events := ws'.events }

namespace Reshapes

variable [Scalar α] {inputs inputs' : List Input} {n n' : Nat} {cut cut' : List ConnectionId}
  {made made' : List NewEnd} {R R' : List BlockId} {s p : ConnectionId} {w w' : Wire}

/-! ### What it leaves -/

theorem ids (h : ws.Reshapes id inputs n cut made R u) :
    u.ids = { ws.ids with connections := ws.ids.connections + made.length } := by
  rw [h.rest]

theorem registry (h : ws.Reshapes id inputs n cut made R u) : u.registry = ws.registry := by
  rw [h.rest]

theorem ne_of_mounted (h : ws.Reshapes id inputs n cut made R u) (hs : ws.Sound) {y : Connection α}
    (hy : ws.connections[c]? = some y) : ∀ e ∈ made, c ≠ e.connection := by
  rintro e he rfl
  exact Nat.not_lt.mpr (h.fresh e he) (hs.connectionIds hy)

theorem wire (h : ws.Reshapes id inputs n cut made R u) (hs : ws.Sound)
    (hw : ws.graph.wire c = some w) :
    u.graph.wire c = if ws.dead cut R c then none else some w := by
  obtain ⟨y, hy, rfl⟩ := connection_of_wire hw
  have hkept := congrArg (Option.map Connection.wire) (h.kept c (h.ne_of_mounted hs hy))
  rw [hy] at hkept
  simp only [Option.map_map, Function.comp_def, Connection.wire_unplaced] at hkept
  refine hkept.trans ?_
  split <;> rfl

/-- A linked end was there before, as it is. -/
theorem wire_old (h : ws.Reshapes id inputs n cut made R u) (hw : u.graph.wire c = some w)
    (ht : w.target ≠ none) : ws.graph.wire c = some w ∧ ws.dead cut R c = false := by
  obtain ⟨y, hy, rfl⟩ := connection_of_wire hw
  rcases mem_or_ne made c with ⟨e, he, rfl⟩ | hc
  · have hmount := h.mounted e he
    rw [hy, Option.map_some, Option.some.injEq] at hmount
    exact (ht (congrArg (fun y : Connection Unit => y.target) hmount)).elim
  · have hkept := h.kept c hc
    rw [hy] at hkept
    split at hkept
    · cases hkept
    · next hd =>
      obtain ⟨y₀, hy₀, he⟩ := Option.map_eq_some_iff.mp hkept.symm
      refine ⟨?_, Bool.eq_false_iff.mpr hd⟩
      rw [wire_of_connection hy₀, ← y₀.wire_unplaced, he, y.wire_unplaced]

theorem link_old (h : ws.Reshapes id inputs n cut made R u) (hs : ws.Sound)
    (hl : u.graph.Link s p w w') : ws.graph.Link s p w w' ∧ w'.block ∉ R := by
  have hdown : w.target ≠ none := by
    rw [hl.down]
    exact Option.some_ne_none p
  obtain ⟨hw, -⟩ := h.wire_old hl.socket hdown
  obtain ⟨w₀, hw₀, -⟩ := hs.wired.joined hw hl.down
  have hplug := hl.plug
  rw [h.wire hs hw₀] at hplug
  split at hplug
  · cases hplug
  · next hd =>
    obtain rfl := Option.some.inj hplug
    exact ⟨⟨hw, hw₀, hl.isSocket, hl.down⟩, fun hR => hd ((dead_iff_wire hw₀).mpr (Or.inr hR))⟩

/-- A link stays if what hangs on it does. -/
theorem link (h : ws.Reshapes id inputs n cut made R u) (hs : ws.Sound)
    (hl : ws.graph.Link s p w w') (hR : w'.block ∉ R) : u.graph.Link s p w w' := by
  have hsocket : ¬ ws.dead cut R s := fun hd => hR ((h.hangs hl).mpr hd)
  have hplug : ¬ ws.dead cut R p := fun hd => by
    rcases (dead_iff_wire hl.plug).mp hd with hc | hb
    · obtain ⟨y, hy, -, hk⟩ := h.sockets p hc
      have hw := hl.plug
      rw [wire_of_connection hy, Option.some.injEq] at hw
      have hp := hl.isPlug hs.wired
      rw [← hw, Connection.wire, ConnectionKind.isPlug_eq_not, hk] at hp
      cases hp
    · exact hR hb
  exact ⟨by rw [h.wire hs hl.socket, if_neg hsocket], by rw [h.wire hs hl.plug, if_neg hplug],
    hl.isSocket, hl.down⟩

theorem under_old (h : ws.Reshapes id inputs n cut made R u) (hs : ws.Sound)
    (hu : u.graph.Under a x) : ws.graph.Under a x ∧ a ∉ R := by
  obtain ⟨s, p, w, w', hl, rfl, rfl⟩ := hu
  obtain ⟨hl, hR⟩ := h.link_old hs hl
  exact ⟨hl.under, hR⟩

theorem under (h : ws.Reshapes id inputs n cut made R u) (hs : ws.Sound)
    (hu : ws.graph.Under a x) (ha : a ∉ R) : u.graph.Under a x := by
  obtain ⟨s, p, w, w', hl, rfl, rfl⟩ := hu
  exact (h.link hs hl ha).under

theorem below_old (h : ws.Reshapes id inputs n cut made R u) (hs : ws.Sound)
    (hb : u.graph.Below a x) : ws.graph.Below a x ∧ a ∉ R := by
  refine ⟨hb.mono fun _ _ hu => (h.under_old hs hu).1, ?_⟩
  obtain ⟨y, hu, -⟩ := Relation.TransGen.head'_iff.mp hb
  exact (h.under_old hs hu).2

theorem tame (h : ws.Reshapes id inputs n cut made R u) (hs : ws.Sound) (ht : ws.graph.Tame x) :
    u.graph.Tame x :=
  ht.mono fun _ _ hu => (h.under_old hs hu).1

theorem self (h : ws.Reshapes id inputs n cut made R u) (hb : ws.blocks[id]? = some b) :
    ∃ b', u.blocks[id]? = some b' ∧
      b'.unplaced = { b.unplaced with inputs := inputs, units := n } := by
  have hself := h.blocks id
  rw [if_neg h.spared, hb, Option.map_some, Option.map_some, if_pos rfl] at hself
  exact Option.map_eq_some_iff.mp hself

theorem live_iff (h : ws.Reshapes id inputs n cut made R u) : u.Live x ↔ ws.Live x ∧ x ∉ R := by
  have hblock := h.blocks x
  constructor
  · rintro ⟨b', hb'⟩
    rw [hb'] at hblock
    split at hblock
    · cases hblock
    · next hx =>
      obtain ⟨b₀, hb₀, -⟩ := Option.map_eq_some_iff.mp hblock.symm
      obtain ⟨b, hb, -⟩ := Option.map_eq_some_iff.mp hb₀
      exact ⟨⟨b, hb⟩, hx⟩
  · rintro ⟨⟨b, hb⟩, hx⟩
    rw [if_neg hx, hb, Option.map_some, Option.map_some] at hblock
    obtain ⟨b', hb', -⟩ := Option.map_eq_some_iff.mp hblock
    exact ⟨b', hb'⟩

theorem none_of_dead (h : ws.Reshapes id inputs n cut made R u) (hs : ws.Sound) {z : Connection α}
    (hz : ws.connections[c]? = some z) (hd : ws.dead cut R c) : u.connections[c]? = none := by
  have hkept := h.kept c (h.ne_of_mounted hs hz)
  rwa [if_pos hd, Option.map_eq_none_iff] at hkept

/-- The blocks that go are those below the ends that are cut. -/
theorem mem_iff (h : ws.Reshapes id inputs n cut made R u) :
    x ∈ R ↔ ∃ c ∈ cut, ws.Carried c x := by
  constructor
  · intro hx
    have hcut : ∀ {s p w w'}, ws.graph.Link s p w w' → s ∈ cut → ∃ c ∈ cut, ws.Carried c w'.block := by
      intro s p w w' hl hs
      obtain ⟨y, hy, rfl⟩ := connection_of_wire hl.socket
      exact ⟨s, hs, w'.block, (across_socket hy hl.isSocket).mpr ⟨p, w', hl, rfl⟩, Or.inl rfl⟩
    induction h.below x hx using Relation.TransGen.head_induction_on with
    | single hu =>
      obtain ⟨s, p, w, w', hl, rfl, hw⟩ := hu
      exact hcut hl (((dead_iff_wire hl.socket).mp ((h.hangs hl).mp hx)).resolve_right
        fun hR => h.spared (hw ▸ hR))
    | @head a y hu _ ih =>
      obtain ⟨s, p, w, w', hl, rfl, rfl⟩ := hu
      rcases (dead_iff_wire hl.socket).mp ((h.hangs hl).mp hx) with hs | hR
      · exact hcut hl hs
      · obtain ⟨c, hc, r, hr, hbranch⟩ := ih hR
        refine ⟨c, hc, r, hr, Or.inr ?_⟩
        have hu : ws.graph.Under w'.block w.block := hl.under
        exact hbranch.elim (fun he => he ▸ .single hu) fun hb => .head hu hb
  · rintro ⟨c, hc, r, hr, hbranch⟩
    obtain ⟨y, hy, -, hk⟩ := h.sockets c hc
    obtain ⟨p, w', hl, rfl⟩ := (across_socket hy hk).mp hr
    have hR : w'.block ∈ R := (h.hangs hl).mpr ((dead_iff_wire hl.socket).mpr (Or.inl hc))
    rcases hbranch with rfl | hb
    · exact hR
    · exact h.ordered.closed_below hR hb

/-- Below an end that stays everything does. -/
theorem branch_of_socket (h : ws.Reshapes id inputs n cut made R u) (hs : ws.Sound)
    (ht : ws.graph.Tame id) (hl : ws.graph.Link s p w w') (hw : w.block = id)
    (hR : w'.block ∉ R) (hx : ws.Branch w'.block x) : x ∉ R ∧ u.Branch w'.block x := by
  have hroot : ¬ ws.Branch w'.block id := by
    rintro (he | hb)
    · exact ht (.single ⟨s, p, w, w', hl, he.symm, hw⟩)
    · exact ht (.tail hb ⟨s, p, w, w', hl, rfl, hw⟩)
  have hkept : ∀ a y, ws.graph.Under a y → ws.Branch w'.block y → y ∉ R → a ∉ R := by
    rintro a y ⟨s', p', w₁, w₂, hl', rfl, rfl⟩ hy hyR ha
    rcases (dead_iff_wire hl'.socket).mp ((h.hangs hl').mp ha) with hc | hR'
    · obtain ⟨z, hz, hzb, -⟩ := h.sockets s' hc
      have hw' := hl'.socket
      rw [wire_of_connection hz, Option.some.injEq] at hw'
      exact hroot (by rwa [← hw', Connection.wire, hzb] at hy)
    · exact hyR hR'
  rcases hx with rfl | hx
  · exact ⟨hR, Or.inl rfl⟩
  · suffices hboth : x ∉ R ∧ u.graph.Below x w'.block from ⟨hboth.1, Or.inr hboth.2⟩
    induction hx using Relation.TransGen.head_induction_on with
    | single hu =>
      have ha := hkept _ _ hu (Or.inl rfl) hR
      exact ⟨ha, .single (h.under hs hu ha)⟩
    | head hu hb ih =>
      have ha := hkept _ _ hu (Or.inr hb) ih.1
      exact ⟨ha, .head (h.under hs hu ha) ih.2⟩

theorem not_dead (h : ws.Reshapes id inputs n cut made R u) {z : Connection α}
    (hz : ws.connections[c]? = some z) (hb : z.block = id) (hc : c ∉ cut) : ¬ ws.dead cut R c := by
  rw [dead_iff hz, hb]
  exact fun hd => hd.elim hc h.spared

/-- An end of the block that is not cut is as it was. -/
theorem connection (h : ws.Reshapes id inputs n cut made R u) (hs : ws.Sound) {z : Connection α}
    (hz : ws.connections[c]? = some z) (hb : z.block = id) (hc : c ∉ cut) :
    (u.connections[c]?).map Connection.unplaced = some z.unplaced := by
  rw [h.kept c (h.ne_of_mounted hs hz), if_neg (h.not_dead hz hb hc), hz, Option.map_some]

/-- What hangs on an end that stays does so too. -/
theorem spares (h : ws.Reshapes id inputs n cut made R u) (hs : ws.Sound) (ht : ws.graph.Tame id)
    {z : Connection α} (hz : ws.connections[c]? = some z) (hb : z.block = id)
    (hk : z.kind.isSocket) (hc : c ∉ cut) (hx : ws.Carried c x) : x ∉ R := by
  obtain ⟨a, ha, hx⟩ := hx
  obtain ⟨p, w', hl, rfl⟩ := (across_socket hz hk).mp ha
  have hR : w'.block ∉ R := fun hR => h.not_dead hz hb hc ((h.hangs hl).mp hR)
  exact (h.branch_of_socket hs ht hl hb hR hx).1

/-- What hangs on an end that stays is the same. -/
theorem carried_iff (h : ws.Reshapes id inputs n cut made R u) (hs : ws.Sound)
    (ht : ws.graph.Tame id) {z : Connection α} (hz : ws.connections[c]? = some z)
    (hb : z.block = id) (hk : z.kind.isSocket) (hc : c ∉ cut) : u.Carried c x ↔ ws.Carried c x := by
  obtain ⟨z', hz', he⟩ := Option.map_eq_some_iff.mp (h.connection hs hz hb hc)
  have hk' : z'.kind.isSocket :=
    (congrArg (fun y : Connection Unit => y.kind.isSocket) he).trans hk
  constructor
  · rintro ⟨a, ha, hx⟩
    obtain ⟨p, w', hl, rfl⟩ := (across_socket hz' hk').mp ha
    obtain ⟨hl, -⟩ := h.link_old hs hl
    have hw : z'.wire = z.wire := Option.some.inj (hl.socket.symm.trans (wire_of_connection hz))
    exact ⟨w'.block, (across_socket hz hk).mpr ⟨p, w', hw ▸ hl, rfl⟩,
      hx.imp_right fun hx => (h.below_old hs hx).1⟩
  · rintro ⟨a, ha, hx⟩
    obtain ⟨p, w', hl, rfl⟩ := (across_socket hz hk).mp ha
    have hR : w'.block ∉ R := fun hR => h.not_dead hz hb hc ((h.hangs hl).mp hR)
    have hl' := h.link hs hl hR
    have hw : z'.wire = z.wire :=
      Option.some.inj ((wire_of_connection hz').symm.trans hl'.socket)
    exact ⟨w'.block, (across_socket hz' hk').mpr ⟨p, w', hw ▸ hl', rfl⟩,
      (h.branch_of_socket hs ht hl hb hR hx).2⟩

/-- What was cut and what was made determines what is left. -/
theorem determined (h : ws.Reshapes id inputs n cut made R u)
    (h' : ws.Reshapes id inputs n cut made R' v) : u.Matches v := by
  have hR : ∀ x, x ∈ R ↔ x ∈ R' := fun x => by rw [h.mem_iff, h'.mem_iff]
  have hdead : ∀ c, ws.dead cut R' c = ws.dead cut R c := fun c => by simp only [dead, hR]
  have htop : v.top = u.top := by
    rw [h.top, h'.top]
    simp only [hR]
  have hprocedures : v.procedures = u.procedures := by
    have hcalls : v.procedures.calls = u.procedures.calls := by
      rw [h.procedures, h'.procedures]
      simp only [hR]
    exact congrArg Procedures.mk hcalls
  refine ⟨fun x => ?_, fun c => ?_, ?_⟩
  · rw [h.blocks, h'.blocks]
    simp only [hR]
  · rcases mem_or_ne made c with ⟨e, he, rfl⟩ | hc
    · rw [h.mounted e he, h'.mounted e he]
    · rw [h.kept c hc, h'.kept c hc, hdead]
  · rw [h'.rest, htop, hprocedures, h.rest]

/-- In which order the ends are cut does not matter. -/
theorem congr_cut (h : ws.Reshapes id inputs n cut made R u) (hcut : ∀ c, c ∈ cut ↔ c ∈ cut') :
    ws.Reshapes id inputs n cut' made R u := by
  have hdead : ∀ c, ws.dead cut R c = ws.dead cut' R c := fun c => by simp only [dead, hcut]
  exact { h with
    sockets := fun c hc => h.sockets c ((hcut c).mpr hc)
    kept := fun c hc => by rw [h.kept c hc, hdead]
    hangs := fun hl => by rw [h.hangs hl, hdead] }

/-! ### One change after another -/

theorem ne_of_numbers (h : ws.Reshapes id inputs n cut made R u)
    (h' : u.Reshapes id inputs' n' cut' made' R' v) {e : NewEnd} (he : e ∈ made) :
    ∀ e' ∈ made', e.connection ≠ e'.connection := by
  intro e' he' heq
  have hlt := lt_of_numbered (h.numbers ▸ List.mem_map_of_mem (f := NewEnd.connection) he)
  have hle := h'.fresh e' he'
  rw [h.ids, ← heq] at hle
  exact Nat.not_lt.mpr hle hlt

/-- What goes in the second change was there all along. -/
theorem not_mem_of_below (h : ws.Reshapes id inputs n cut made R u) (hs : ws.Sound)
    (h' : u.Reshapes id inputs' n' cut' made' R' v) (hx : x ∈ R') : x ∉ R :=
  (h.below_old hs (h'.below x hx)).2

theorem dead_old (h : ws.Reshapes id inputs n cut made R u) (hc : ∀ e ∈ made, c ≠ e.connection)
    (hd : ¬ ws.dead cut R c) : u.dead cut' R' c = ws.dead cut' R' c := by
  have hkept := congrArg (Option.map fun y : Connection Unit => y.block) (h.kept c hc)
  rw [if_neg hd] at hkept
  simp only [Option.map_map, Function.comp_def] at hkept
  have hany : ∀ t : Workspace α, (t.connections[c]?).any (fun y => decide (y.block ∈ R')) =
      ((t.connections[c]?).map fun y => y.unplaced.block).any fun z => decide (z ∈ R') := by
    intro t
    cases t.connections[c]? <;> rfl
  rw [dead, dead, hany u, hany ws, hkept]

theorem isCallAt_old (h : ws.Reshapes id inputs n cut made R u) (hx : x ∉ R) (hne : x ≠ id) :
    u.isCallAt x = ws.isCallAt x := by
  have hblocks := h.blocks x
  rw [if_neg hx] at hblocks
  simp only [if_neg hne, Option.map_id'] at hblocks
  have hcall : ∀ t : Workspace α, t.isCallAt x =
      ((t.blocks[x]?).map Block.unplaced).any fun b => b.isCall := by
    intro t
    unfold isCallAt
    cases t.blocks[x]? <;> rfl
  rw [hcall u, hcall ws, hblocks]

/-- Two changes make one. -/
theorem trans (h : ws.Reshapes id inputs n cut made R u) (hs : ws.Sound)
    (h' : u.Reshapes id inputs' n' cut' made' R' v) (hcut : ∀ e ∈ made, e.connection ∉ cut') :
    ws.Reshapes id inputs' n' (cut ++ cut') (made ++ made') (R ++ R') v := by
  have hnew : ∀ x ∈ R', x ∉ R := fun x hx => h.not_mem_of_below hs h' hx
  have hold : ∀ c, (∀ e ∈ made ++ made', c ≠ e.connection) →
      (∀ e ∈ made, c ≠ e.connection) ∧ ∀ e ∈ made', c ≠ e.connection := fun c hc =>
    ⟨fun e he => hc e (List.mem_append_left _ he), fun e he => hc e (List.mem_append_right _ he)⟩
  exact {
    live := h.live
    spared := fun hid => (List.mem_append.mp hid).elim h.spared h'.spared
    sockets := fun c hc => by
      rcases List.mem_append.mp hc with hc | hc
      · exact h.sockets c hc
      · obtain ⟨y, hy, hyb, hk⟩ := h'.sockets c hc
        have hkept := h.kept c fun e he hce => hcut e he (hce ▸ hc)
        rw [hy] at hkept
        split at hkept
        · cases hkept
        · obtain ⟨y₀, hy₀, he⟩ := Option.map_eq_some_iff.mp hkept.symm
          exact ⟨y₀, hy₀, (congrArg (fun y : Connection Unit => y.block) he).trans hyb,
            (congrArg (fun y : Connection Unit => y.kind.isSocket) he).trans hk⟩
    blocks := fun x => by
      rw [h'.blocks, h.blocks]
      by_cases hx : x ∈ R
      · simp [hx]
      · by_cases hx' : x ∈ R'
        · simp [hx']
        · rw [if_neg hx, if_neg hx', if_neg (by simp [hx, hx']), Option.map_map]
          refine congrArg (fun f => Option.map f _) (funext fun b => ?_)
          by_cases hid : x = id
          · simp [hid]
          · simp [hid]
    mounted := fun e he => by
      rcases List.mem_append.mp he with he | he
      · have hmount := h.mounted e he
        rw [h'.kept _ (h.ne_of_numbers h' he), if_neg, hmount]
        obtain ⟨y, hy, hyb⟩ := Option.map_eq_some_iff.mp hmount
        rw [dead_iff hy, show y.block = id from congrArg (fun y : Connection Unit => y.block) hyb]
        exact fun hd => hd.elim (hcut e he) h'.spared
      · exact h'.mounted e he
    kept := fun c hc => by
      obtain ⟨hc, hc'⟩ := hold c hc
      rw [h'.kept c hc', h.kept c hc, dead_append]
      by_cases hd : ws.dead cut R c
      · simp [hd]
      · rw [h.dead_old hc hd]
        simp [hd]
    numbers := by
      rw [List.map_append, List.length_append, numbered_add, h.numbers, h'.numbers, h.ids]
    fresh := fun e he => by
      rcases List.mem_append.mp he with he | he
      · exact h.fresh e he
      · have hle := h'.fresh e he
        rw [h.ids] at hle
        exact Nat.le_trans (Nat.le_add_right _ _) hle
    top := by
      rw [h'.top, h.top, List.filter_filter]
      refine List.filter_congr fun x _ => ?_
      simp [Bool.and_comm]
    procedures := by
      rw [h'.procedures, h.procedures, List.filter_filter]
      refine List.filter_congr fun call _ => ?_
      by_cases hx : call.2 ∈ R'
      · have hne : call.2 ≠ id := fun he => h'.spared (he ▸ hx)
        simp [hx, hnew _ hx, h.isCallAt_old (hnew _ hx) hne]
      · simp [hx]
    told := by
      obtain ⟨es, he, hd⟩ := h.told
      obtain ⟨es', he', hd'⟩ := h'.told
      exact ⟨es ++ es', by rw [he', he, List.foldl_append], by rw [List.filterMap_append, hd, hd']⟩
    nodup := List.nodup_append.mpr ⟨h.nodup, h'.nodup, fun x hx y hy he => hnew y hy (he ▸ hx)⟩
    ordered := h.ordered.append h'.ordered fun a x hx hu => by
      by_cases ha : a ∈ R
      · exact Or.inl ha
      · exact Or.inr (h.under hs hu ha)
    hangs := fun {s p w w'} hl => by
      rw [List.mem_append, dead_append, Bool.or_eq_true]
      by_cases hR : w'.block ∈ R
      · simp [hR, (h.hangs hl).mp hR]
      · have hd : ¬ ws.dead cut R s := fun hd => hR ((h.hangs hl).mpr hd)
        obtain ⟨y, hy, -⟩ := connection_of_wire hl.socket
        rw [h'.hangs (h.link hs hl hR), h.dead_old (h.ne_of_mounted hs hy) hd]
        simp [hR, hd]
    below := fun x hx => by
      rcases List.mem_append.mp hx with hx | hx
      · exact h.below x hx
      · exact (h.below_old hs (h'.below x hx)).1
    rest := by
      rw [h'.rest, h.rest]
      simp [Nat.add_assoc] }

/-! ### Single steps -/

/-- Only where blocks lie and what was reported has changed, and no block was reported to be gone. -/
theorem of_matches (hb : ws.blocks[id]? = some b) (h : ws.Matches u)
    (told : ∃ es : List (Event α), u.events = es.foldl EventLog.fire ws.events ∧
      es.filterMap Event.deleted? = []) :
    ws.Reshapes id b.inputs b.units [] [] [] u where
  live := ⟨b, hb⟩
  spared := List.not_mem_nil
  sockets c hc := by cases hc
  blocks x := by
    rw [h.blocks, if_neg List.not_mem_nil]
    by_cases hx : x = id
    · subst hx
      rw [hb]
      simp [Block.unplaced]
    · simp only [if_neg hx, Option.map_id']
  mounted e he := by cases he
  kept c _ := by
    rw [dead_nil]
    exact h.connections c
  numbers := rfl
  fresh e he := by cases he
  top := by
    rw [h.rest]
    simp
  procedures := by
    rw [h.rest]
    simp
  told := told
  nodup := List.nodup_nil
  ordered := .nil _
  hangs {s p w v} _ := by simp [dead_nil]
  below x hx := by cases hx
  rest := by rw [h.rest]; rfl

theorem of_shifts {S : BlockId → Prop} (hb : ws.blocks[id]? = some b) (h : ws.Shifts S u) :
    ws.Reshapes id b.inputs b.units [] [] [] u :=
  of_matches hb ⟨h.blocks, h.connections, h.rest.trans (by rw [h.rest])⟩ ⟨[], h.events, rfl⟩

theorem of_fired (hb : ws.blocks[id]? = some b) {e : Event α} (he : e.deleted? = none) :
    ws.Reshapes id b.inputs b.units [] [] [] { ws with events := ws.events.fire e } :=
  of_matches hb ⟨fun _ => rfl, fun _ => rfl, rfl⟩ ⟨[e], rfl, by simp [he]⟩

theorem of_units (hb : ws.blocks[id]? = some b) (m : Nat) :
    ws.Reshapes id b.inputs m [] [] []
      { ws with blocks := ws.blocks.insert id { b with units := m } } where
  live := ⟨b, hb⟩
  spared := List.not_mem_nil
  sockets c hc := by cases hc
  blocks x := by
    rw [if_neg List.not_mem_nil, getElem?_insert]
    by_cases hx : x = id
    · subst hx
      rw [if_pos rfl, hb]
      simp [Block.unplaced]
    · simp only [if_neg hx, Option.map_id']
  mounted e he := by cases he
  kept c _ := by rw [dead_nil, if_neg Bool.false_ne_true]
  numbers := rfl
  fresh e he := by cases he
  top := by simp
  procedures := by simp
  told := ⟨[], rfl, rfl⟩
  nodup := List.nodup_nil
  ordered := .nil _
  hangs {s p w v} _ := by simp [dead_nil]
  below x hx := by cases hx
  rest := rfl

theorem of_loses {keep gone : List Input} (hs : ws.Sound) (hb : ws.blocks[id]? = some b)
    (ht : ws.graph.Tame id) (h : ws.Loses id keep gone R u) (hl : ws.Seals gone R) (hid : id ∉ R) :
    ws.Reshapes id keep b.units (gone.filterMap (·.connection)) [] R u where
  live := h.live
  spared := hid
  sockets c hc := h.socket hs hc
  blocks x := by
    by_cases hx : x ∈ R
    · rw [h.lost x hx, if_pos hx, Option.map_none]
    · rw [h.kept x hx, if_neg hx, Option.map_map, Option.map_map]
      cases hbx : ws.blocks[x]? with
      | none => rfl
      | some y =>
        by_cases hxid : x = id
        · subst hxid
          rw [hb, Option.some.injEq] at hbx
          subst hbx
          simp [Block.unplaced]
        · simp [hxid]
  mounted e he := by cases he
  kept c _ := by
    rw [h.connections]
    split
    · rfl
    · next hd =>
      rw [Option.map_map]
      refine Option.map_congr fun y hy => ?_
      simp [Connection.unplaced, h.target_kept hs hl hy hd]
  numbers := rfl
  fresh e he := by cases he
  top := h.top
  procedures := h.procedures
  told := h.told.imp fun es hes => ⟨hes.1, hes.2.1⟩
  nodup := h.nodup
  ordered := h.ordered ht
  hangs {s p w v} hlink := ⟨h.hangs hlink, hl hlink⟩
  below x hx := (h.below x hx).resolve_left fun he => hid (he ▸ hx)
  rest := h.rest

theorem of_pushes {ts : List InputTemplate} {is : List Input} {l : List NewEnd}
    (hb : ws.blocks[id]? = some b) (h : ws.Pushes id ts is l u) :
    ws.Reshapes id (b.inputs ++ is) b.units [] l [] u where
  live := h.live
  spared := List.not_mem_nil
  sockets c hc := by cases hc
  blocks x := by
    rw [h.blocks, if_neg List.not_mem_nil, Option.map_map, Option.map_map]
    refine Option.map_congr fun y hy => ?_
    by_cases hx : x = id
    · subst hx
      rw [hb, Option.some.injEq] at hy
      subst hy
      simp [Block.unplaced]
    · simp [hx]
  mounted e he := by rw [h.made e he, Option.map_some]
  kept c hc := by rw [h.kept hc, dead_nil, if_neg Bool.false_ne_true]
  numbers := h.numbers
  fresh e he := (h.fresh e he).1
  top := by
    rw [h.rest]
    simp
  procedures := by
    rw [h.rest]
    simp
  told := ⟨[], by rw [h.rest]; rfl, rfl⟩
  nodup := List.nodup_nil
  ordered := .nil _
  hangs {s p w v} _ := by simp [dead_nil]
  below x hx := by cases hx
  rest := by
    rw [h.rest, h.total]

end Reshapes

end Workspace

end BlockEditor
