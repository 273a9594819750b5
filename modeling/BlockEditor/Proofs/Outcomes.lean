import BlockEditor.Proofs.Seating

/-!
# What edits come to

What an edit that moves blocks about has done when it is carried out, and what it has done by then
when it is refused. Apart from calls that are refused at once, it is the placeholder of a socket that
was emptied which may be missing, and the place of a block that was pushed out.
-/

namespace BlockEditor

variable {α : Type}

namespace Workspace

variable {ws t u : Workspace α} {id : BlockId} {c : ConnectionId}

/-- What becomes of the statement at a next connection whose block leaves. It is left behind unless
it is a placeholder, and takes the socket above if it may. -/
inductive Heals (ws : Workspace α) (next : ConnectionId) (above : Option ConnectionId) :
    Workspace α → Prop
  | stays : (∀ a, ws.across next = some a → ws.isPlaceholder a) → Heals ws next above ws
  | left {q : ConnectionId} {below : BlockId} {u : Workspace α} : ws.Cuts next q below u →
      ws.isPlaceholder below = false → Heals ws next above u
  | healed {s q : ConnectionId} {below : BlockId} {u t : Workspace α} : above = some s →
      ws.Cuts next q below u → ws.isPlaceholder below = false → u.targetOf s = none →
      u.Seats s q below none t → Heals ws next above t

/-- How a block is taken away from its parent. -/
inductive Pulls (ws : Workspace α) (id : BlockId) (heal : Bool) : Workspace α → Prop
  | value {b : Block α} {output : ConnectionId} {t : Workspace α} : ws.blocks[id]? = some b →
      b.output = some output → ws.Frees output t → Pulls ws id heal t
  | root {b : Block α} : ws.blocks[id]? = some b → b.output = none → b.previous = none →
      Pulls ws id heal ws
  | statement {b : Block α} {previous : ConnectionId} {t : Workspace α} :
      ws.blocks[id]? = some b → b.output = none → b.previous = some previous →
      ws.Frees previous t → heal = false ∨ b.next = none → Pulls ws id heal t
  | healed {b : Block α} {previous next : ConnectionId} {u t : Workspace α} :
      ws.blocks[id]? = some b → b.output = none → b.previous = some previous →
      ws.Frees previous u → heal = true → b.next = some next →
      u.Heals next (ws.targetOf previous) t → Pulls ws id heal t

/-- How a block fails to be taken away from its parent. -/
inductive Jams (ws : Workspace α) (id : BlockId) : Workspace α → Prop
  | absent : ¬ ws.Live id → Jams ws id ws
  | stuck {b : Block α} {p : ConnectionId} {t : Workspace α} : ws.blocks[id]? = some b →
      p ∈ b.plugs → ws.Breaks p t → Jams ws id t

/-- How a block is disposed. -/
inductive Disposes (ws : Workspace α) (id : BlockId) : Workspace α → Prop
  | root {t : Workspace α} : ws.graph.Loose id → ws.Fells id t → Disposes ws id t
  | child {s p : ConnectionId} {u v t : Workspace α} : ws.Cuts s p id u → u.Fells id v →
      v.Refills s t → Disposes ws id t

/-- How a block fails to be disposed. -/
inductive Spoils (ws : Workspace α) (id : BlockId) : Workspace α → Prop
  | absent : ¬ ws.Live id → Spoils ws id ws
  | unfilled {s p : ConnectionId} {u v t : Workspace α} : ws.Cuts s p id u → u.Fells id v →
      v.Strands s t → Spoils ws id t

theorem Disposes.sound (h : ws.Disposes id t) (hs : ws.Sound) : t.Sound := by
  cases h with
  | root _ hfell => exact hfell.sound hs
  | child hcut hfell hrefill => exact hrefill.sound (hfell.sound (hcut.sound hs))

end Workspace

namespace Edit

open Workspace

variable [Scalar α] {ws : Workspace α} {id child : BlockId} {c s p a b : ConnectionId}

/-! ### Connecting -/

/-- To disconnect an end that may be linked frees it, or fails to give its socket a placeholder. -/
theorem disconnect_frees (hs : ws.Sound) (c : ConnectionId) :
    Leads (· = ws) (disconnect c) (fun _ t => ws.Frees c t) (ws.Breaks c) :=
  (disconnect_keeps (X := Set.univ) Editor.stable_true ws c).weaken
    (fun _ h => ⟨h, hs, trivial⟩) (fun _ _ h => h.2) fun _ h => h.2

/-- Two ends that do not go together are not linked. -/
theorem connect_unfit (h : ¬ ws.canConnect a b = .ok true) :
    ∃ e, connect a b ws = .error e ws := by
  unfold connect
  simp only [bind, EStateM.bind, query]
  cases hc : ws.canConnect a b with
  | error e => exact ⟨e, rfl⟩
  | ok on =>
    cases on with
    | true => exact (h hc).elim
    | false => exact ⟨_, rfl⟩

/-- To link two ends is refused at once, or for want of a placeholder where the plug was, or for
want of a place for the block that is pushed out. -/
theorem connect_links (hs : ws.Sound) (hac : ws.graph.Acyclic) (hclear : ¬ ws.Closes a b)
    (hclear' : ¬ ws.Closes b a) :
    Tells (· = ws) (connect a b) (fun _ t => ws.Links a b t) fun e t => t = ws ∨
      (∃ p, (p = a ∨ p = b) ∧ ws.Breaks p t) ∨ e.NonFinite ∧ ws.Links a b t := by
  by_cases hon : ws.canConnect a b = .ok true
  · refine (connect_tells (D := fun _ t => ∃ p, (p = a ∨ p = b) ∧ ws.Breaks p t) hs hac hon hclear
      hclear' fun p _ hp _ _ => ?_).weaken (fun _ h => h) (fun _ _ h => h) fun _ _ h => Or.inr h
    exact (disconnect_frees hs p).refused fun t h => ⟨p, hp, h⟩
  · refine Tells.of_result (connect_keeps (X := ∅) (Editor.stable_true (α := α)) a b) ?_
    rintro _ rfl
    obtain ⟨e, he⟩ := connect_unfit hon
    rw [he]
    exact Or.inl rfl

theorem connect_eq_fit (hp : ws.graph.Poised s p child) (hends : s = a ∧ p = b ∨ s = b ∧ p = a) :
    connect a b ws = (fit s p : Edit α Unit) ws := by
  obtain ⟨hon, hon'⟩ := canConnect_of_poised hp
  obtain ⟨w, v, hm, -⟩ := hp
  obtain ⟨x, hx, rfl⟩ := connection_of_wire hm.socket
  obtain ⟨y, hy, rfl⟩ := connection_of_wire hm.plug
  rcases hends with ⟨rfl, rfl⟩ | ⟨rfl, rfl⟩
  · have hk : x.kind.isSocket := hm.isSocket
    rw [connect_eq hon hx, if_pos hk]
  · have hk : y.kind.isSocket = false := by
      have hplug := hm.isPlug
      rw [ConnectionKind.isPlug_eq_not, Bool.not_eq_true'] at hplug
      exact hplug
    rw [connect_eq hon' hy, if_neg (by rw [hk]; exact Bool.false_ne_true)]

/-- A root is plugged into a socket that holds no real block, whichever of the ends is given first. -/
theorem connect_seats (hr : ws.Ready s p child)
    (hv : ∀ a, ws.across s = some a → ws.isPlaceholder a)
    (hends : s = a ∧ p = b ∨ s = b ∧ p = a) :
    Leads (· = ws) (connect a b) (fun _ t => ws.Seats s p child none t) fun _ => False := by
  have heq := connect_eq_fit hr.poised hends
  obtain ⟨w, v, hm, rfl⟩ := hr.poised
  obtain ⟨x, hx, rfl⟩ := connection_of_wire hm.socket
  obtain ⟨y, hy, rfl⟩ := connection_of_wire hm.plug
  have hfree : x.target ≠ some p := by
    intro ht
    have hlink := Graph.Link.up hr.sound.wired ⟨hm.socket, hm.plug, hm.isSocket, ht⟩
    rw [hr.idle _ hm.plug] at hlink
    cases hlink
  rw [fit_eq hx hy, if_neg hfree] at heq
  have hplug : Leads (· = ws) (do (← plugIn s p y.block).forM (resettle y.block))
      (fun _ t => ws.Seats s p y.block none t) fun _ => False := by
    refine Leads.bind ((plugIn_vacant hr.apt hv).refused fun _ h => h hr.acyclic) fun o => ?_
    cases o with
    | none => exact Leads.pure fun t h => h.2
    | some o =>
      refine Leads.pre (P := fun _ => False) (Leads.fix fun t => ?_) fun t h => nomatch h.1
      exact Tells.assuming (resettle_keeps (X := ∅) Editor.stable_true y.block o) False.elim
  refine Tells.congr (connect_keeps (X := ∅) (Editor.stable_true (α := α)) a b) hplug ?_
  rintro _ rfl
  exact heq

/-! ### Taking out -/

omit [Scalar α] in
/-- After a cut the plug waits for any socket that it may be linked to. -/
theorem cuts_ready {q : ConnectionId} {below : BlockId} {u : Workspace α} (hs : ws.Sound)
    (hac : ws.graph.Acyclic) (hc : ws.Cuts c q below u) {x : Connection α}
    (hx : u.connections[s]? = some x) (hk : x.kind.isSocket) (hfits : u.canConnect s q = .ok true) : u.Ready s q below := by
  obtain ⟨w, v, hl, rfl⟩ := hc.link
  have hplug := Graph.cut_wire_plug hs.wired hl
  rw [← hc.graph] at hplug
  obtain ⟨y, hy, hyv⟩ := connection_of_wire hplug
  have hblock : y.block = v.block := congrArg Wire.block hyv
  refine ⟨hc.sound hs, hc.acyclic hs hac, hblock ▸ (poised_of_canConnect hfits hx hy).1 hk, ?_⟩
  intro w' hw'
  rw [hplug, Option.some.injEq] at hw'
  rw [← hw']

/-- The statement that is left behind goes to the socket above, if it may and that is free. -/
def rehang (q : ConnectionId) (above : Option ConnectionId) : Edit α Unit :=
  above.forM fun socket => do
    let fits ← query (·.canConnect socket q)
    let taken := (← query (·.connection socket)).isConnected
    if fits && !taken then connect socket q

theorem rehang_safe (q : ConnectionId) (above : Option ConnectionId) :
    Safe (fun _ _ => True) ∅ (rehang q above : Edit α Unit) := by
  have h := Editor.stable_true (α := α)
  refine Leads.forM_option _ (fun s _ => ?_) fun _ _ hs => hs
  refine (Leads.ask fun _ _ ht _ => ht.anyway h).bind fun fits => ?_
  refine (Leads.connection fun _ ht _ => ht.1.anyway h).bind fun x => ?_
  exact Leads.ite (fun _ => (connect_keeps h s q).pre fun _ ht => ht.1.1) fun _ =>
    Leads.pure fun _ ht => ht.1.1

theorem rehang_eq {q : ConnectionId} {x z : Connection α} (hx : ws.connections[s]? = some x)
    (hz : ws.connections[q]? = some z) : (rehang q (some s) : Edit α Unit) ws =
      if ws.admits s q && !x.isConnected then connect s q ws else .ok () ws := by
  unfold rehang
  simp only [Option.forM, bind, EStateM.bind, query, canConnect_eq_admits hx hz,
    connection_eq_ok.mpr hx]
  split <;> rfl

theorem healStack_eq {next q : ConnectionId} {above : Option ConnectionId} {y z : Connection α}
    {o : Block α} (hy : ws.connections[next]? = some y) (hz : ws.connections[q]? = some z)
    (ht : y.target = some q) (ho : ws.blocks[z.block]? = some o) (hreal : o.placeholder = false) :
    healStack next above ws = (do unlink next; rehang q above : Edit α Unit) ws := by
  unfold healStack rehang
  simp only [bind, EStateM.bind, query, connection_eq_ok.mpr hy, ht, connection_eq_ok.mpr hz,
    block_eq_ok.mpr ho, hreal, Bool.false_eq_true, if_false]

theorem healStack_eq_self {next : ConnectionId} {above : Option ConnectionId} {y : Connection α}
    (hs : ws.Sound) (hy : ws.connections[next]? = some y)
    (hv : ∀ a, ws.across next = some a → ws.isPlaceholder a) :
    (healStack next above : Edit α Unit) ws = .ok () ws := by
  unfold healStack
  cases ht : y.target with
  | none =>
    simp only [bind, EStateM.bind, query, connection_eq_ok.mpr hy, ht]
    rfl
  | some q =>
    obtain ⟨z, hz, -⟩ := hs.target hy ht
    obtain ⟨o, ho, -⟩ := hs.owner hz
    have hacross : ws.across next = some z.block := by
      rw [across, targetOf_eq hy, ht, Option.bind_some, hz]
      rfl
    have hshadow : o.placeholder = true := by
      have h := hv _ hacross
      rw [isPlaceholder, ho] at h
      exact h
    simp only [bind, EStateM.bind, query, connection_eq_ok.mpr hy, ht, connection_eq_ok.mpr hz,
      block_eq_ok.mpr ho, hshadow, if_true]
    rfl

/-- The statement below a block is left behind without fail. -/
theorem healStack_heals {next : ConnectionId} {above : Option ConnectionId} (hs : ws.Sound)
    (hac : ws.graph.Acyclic) {id : BlockId} {b : Block α} (hb : ws.blocks[id]? = some b)
    (hn : b.next = some next)
    (habove : ∀ s, above = some s → ∃ x, ws.connections[s]? = some x ∧ x.kind.isSocket) :
    Leads (· = ws) (healStack next above) (fun _ t => ws.Heals next above t) fun _ => False := by
  have base := healStack_keeps (X := ∅) (Editor.stable_true (α := α)) next above
  obtain ⟨y, hy, -, hk⟩ := hs.socket hb (mem_sockets.mpr (Or.inr hn))
  by_cases hv : ∀ a, ws.across next = some a → ws.isPlaceholder a
  · refine Tells.of_result base ?_
    rintro _ rfl
    rw [healStack_eq_self hs hy hv]
    exact .stays hv
  obtain ⟨below, hv⟩ := not_forall.mp hv
  obtain ⟨hacross, hreal⟩ := Classical.not_imp.mp hv
  rw [Bool.not_eq_true] at hreal
  obtain ⟨q, v, hl, hvb⟩ := (across_socket hy hk).mp hacross
  obtain ⟨z, hz, rfl⟩ := connection_of_wire hl.plug
  obtain ⟨o, ho, -⟩ := hs.owner hz
  have hplain : o.placeholder = false := by
    rw [isPlaceholder, ← hvb, show z.wire.block = z.block from rfl, ho] at hreal
    exact hreal
  refine Tells.congr base ?_ fun _ h => h ▸ healStack_eq hy hz hl.down ho hplain
  refine Leads.bind ((unlink_socket ws next q below).pre ?_) fun _ => ?_
  · rintro _ rfl
    exact ⟨rfl, hs, _, _, hl, hvb⟩
  refine Tells.each (rehang_safe q above) fun u hc => ?_
  have left : ws.Heals next above u := .left hc hreal
  cases habove' : above with
  | none => exact Leads.pure fun _ h => habove' ▸ h ▸ left
  | some s =>
    obtain ⟨x₀, hx₀, hxk⟩ := habove s habove'
    obtain ⟨x, hx, hxk', hxt⟩ : ∃ x, u.connections[s]? = some x ∧ x.kind.isSocket ∧
        u.targetOf s = x.target := by
      rw [targetOf, hc.connections, hx₀]
      exact ⟨_, rfl, by split <;> exact hxk, rfl⟩
    have hzu : ∃ z', u.connections[q]? = some z' := by
      rw [hc.connections, hz]
      exact ⟨_, rfl⟩
    obtain ⟨z', hz'⟩ := hzu
    have heq := rehang_eq hx hz'
    by_cases hon : (u.admits s q && !x.isConnected) = true
    · rw [if_pos hon] at heq
      rw [Bool.and_eq_true, Bool.not_eq_true', Connection.isConnected,
        Option.isSome_eq_false_iff, Option.isNone_iff_eq_none] at hon
      have hr := cuts_ready hs hac hc hx hxk' (canConnect_of_admits hon.1)
      have hfree : u.targetOf s = none := hxt.trans hon.2
      have hseats := connect_seats hr (fun a ha => by rw [across, hfree] at ha; cases ha)
        (Or.inl ⟨rfl, rfl⟩)
      refine Tells.congr (rehang_safe q (some s)) (hseats.post fun _ t h => ?_) fun _ h => h ▸ heq
      exact .healed rfl hc hreal hfree h
    · rw [if_neg hon] at heq
      refine Tells.of_result (rehang_safe q (some s)) ?_
      rintro _ rfl
      rw [heq]
      exact habove' ▸ left

theorem pullOut_eq {b : Block α} (hb : ws.blocks[id]? = some b) (heal : Bool) :
    (pullOut id heal : Edit α Unit) ws = (match b.output, b.previous with
      | some output, _ => disconnect output
      | none, none => pure ()
      | none, some previous => do
        let above := (← query (·.connection previous)).target
        disconnect previous
        if heal then b.next.forM (healStack · above) : Edit α Unit) ws :=
  bind_eq (query_block hb)

/-- A block is taken away from its parent, unless the socket that it was in does not get its
placeholder back. -/
theorem pullOut_pulls (hs : ws.Sound) (hac : ws.graph.Acyclic) (id : BlockId) (heal : Bool) :
    Leads (· = ws) (pullOut id heal) (fun _ t => ws.Pulls id heal t) (ws.Jams id) := by
  have base := pullOut_keeps (X := ∅) (Editor.stable_true (α := α)) id heal
  cases hb : ws.blocks[id]? with
  | none =>
    refine Tells.of_result base ?_
    rintro _ rfl
    unfold pullOut
    simp only [bind, EStateM.bind, query, Workspace.block, hb]
    exact .absent (not_live hb)
  | some b =>
    have heq := pullOut_eq hb heal
    refine Tells.congr base ?_ fun _ h => h ▸ heq
    have freed : ∀ p, p ∈ b.plugs → Leads (· = ws) (disconnect p) (fun _ t => ws.Frees p t)
        (ws.Jams id) := fun p hp =>
      (disconnect_frees hs p).refused fun t ht => .stuck hb hp ht
    cases ho : b.output with
    | some output =>
      exact (freed output (mem_plugs.mpr (Or.inl ho))).post fun _ t ht => .value hb ho ht
    | none =>
      cases hp : b.previous with
      | none =>
        refine Leads.pure ?_
        rintro _ rfl
        exact .root hb ho hp
      | some previous =>
        have hmem := mem_plugs.mpr (Or.inr hp)
        obtain ⟨y, hy, hyb, hk⟩ := hs.plug hb hmem
        refine Leads.bind (Q := fun y' t => t = ws ∧ y' = y) ?_ fun y' => ?_
        · refine (Leads.connection ?_).post ?_
          · rintro _ rfl hn
            rw [hy] at hn
            cases hn
          · rintro y' _ ⟨rfl, hy'⟩
            rw [hy, Option.some.injEq] at hy'
            exact ⟨rfl, hy'.symm⟩
        refine Leads.bind (Q := fun _ u => ws.Frees previous u ∧ y' = y)
          (((freed previous hmem).frame).refused fun _ h => h.1) fun _ => ?_
        refine Leads.ite (fun hheal => ?_) fun hheal => Leads.pure fun u h =>
          .statement hb ho hp h.1 (Or.inl (Bool.eq_false_iff.mpr hheal))
        refine Leads.forM_option _ (fun next hn => ?_) fun hn u h =>
          .statement hb ho hp h.1 (Or.inr hn)
        refine Tells.each (healStack_keeps (X := ∅) Editor.stable_true next y'.target) ?_
        rintro u ⟨hf, rfl⟩
        have hsev := severed_of_frees hs hf
        have hu := hf.sound hs
        refine (healStack_heals hu (hf.acyclic hs hac) (hsev.blocks id b hb) hn ?_).weaken
          (fun _ h => h) (fun _ t ht => ?_) fun _ h => h.elim
        · intro s hsome
          obtain ⟨w, hl⟩ := Graph.link_of_plug hs.wired (wire_of_connection hy) hk hsome
          obtain ⟨target, hw⟩ := hsev.spares s _ hl.socket
          obtain ⟨x, hx, hxw⟩ := connection_of_wire hw
          have hkind : x.kind = w.kind := congrArg Wire.kind hxw
          exact ⟨x, hx, by rw [hkind]; exact hl.isSocket⟩
        · exact .healed hb ho hp hf hheal hn (targetOf_eq hy ▸ ht)

/-! ### Disposal -/

theorem dispose_eq {s : ConnectionId} (hsocket : ws.parentSocket id = .ok (some s)) :
    (dispose id : Edit α Unit) ws = (do
      unlink s
      modify (·.removeTree id)
      let _ ← respawn s : Edit α Unit) ws := by
  unfold dispose
  simp only [bind, EStateM.bind, query, hsocket]
  rfl

/-- A block that is there is taken out of its socket and removed, and then its socket is filled again. -/
theorem dispose_leads {Q D : Workspace α → Prop} (hs : ws.Sound) (hlive : ws.Live id)
    (root : ∀ {t}, ws.graph.Loose id → ws.Fells id t → Q t)
    (refill : ∀ {s p u v}, ws.Cuts s p id u → u.Fells id v →
      Leads (· = v) (respawn s) (fun _ => Q) D) : Leads (· = ws) (dispose id) (fun _ => Q) D := by
  have base := dispose_keeps (X := ∅) (Editor.stable_true (α := α)) id
  obtain ⟨b, hb⟩ := hlive
  rcases hs.parentSocket_cases hb with ⟨s, p, w, v, hsocket, hl, hv⟩ | ⟨hsocket, hloose⟩
  · refine Tells.congr base ?_ fun _ h => h ▸ dispose_eq hsocket
    refine Leads.bind ((unlink_socket ws s p id).weaken ?_ (fun _ _ h => h) fun _ h => h.elim)
      fun _ => ?_
    · rintro _ rfl
      exact ⟨rfl, hs, w, v, hl, hv⟩
    refine Leads.bind (Q := fun _ t => ∃ u, ws.Cuts s p id u ∧ u.Fells id t)
      (Leads.alter (fun u hc => ⟨u, hc, fells_of_loose (hc.sound hs) ⟨b, ?_⟩ (hc.loose_child hs)⟩)
        fun u => removeTree_ids u id) fun _ => ?_
    · rw [hc.blocks, hb]
    refine Leads.bind (Q := fun _ => Q) ?_ fun _ => Leads.pure fun _ h => h
    refine Tells.each (respawn_safe (X := ∅) (Editor.stable_true (α := α)) s) ?_
    rintro t ⟨u, hc, hf⟩
    exact refill hc hf
  · refine Tells.of_result base ?_
    rintro _ rfl
    unfold dispose
    simp only [bind, EStateM.bind, query, hsocket]
    exact root hloose (fells_of_loose hs ⟨b, hb⟩ hloose)

/-- A block that is there is disposed, unless its socket cannot be filled again. -/
theorem dispose_refills {D : Workspace α → Prop} (hs : ws.Sound) (hlive : ws.Live id)
    (refill : ∀ {s p u v}, ws.Cuts s p id u → u.Fells id v →
      Leads (· = v) (respawn s) (fun _ t => v.Refills s t) D) :
    Leads (· = ws) (dispose id) (fun _ t => ws.Disposes id t) D :=
  dispose_leads hs hlive .root fun hc hf => (refill hc hf).post fun _ _ hr => .child hc hf hr

/-- A block is disposed, unless the socket that it was in does not get its placeholder back. -/
theorem dispose_disposes (hs : ws.Sound) (id : BlockId) :
    Leads (· = ws) (dispose id) (fun _ t => ws.Disposes id t) (ws.Spoils id) := by
  by_cases hlive : ws.Live id
  · refine dispose_refills hs hlive fun {s p u v} hc hf => ?_
    have hrespawn := respawn_keeps (X := Set.univ) Editor.growing_true v s
    refine hrespawn.weaken ?_ (fun _ _ h => h.2) fun _ h => .unfilled hc hf h.2
    rintro _ rfl
    exact ⟨rfl, hf.sound (hc.sound hs), trivial⟩
  · refine Tells.of_result (dispose_keeps (X := ∅) (Editor.stable_true (α := α)) id) ?_
    rintro _ rfl
    have hdead := Option.eq_none_iff_forall_ne_some.mpr fun b hb => hlive ⟨b, hb⟩
    unfold dispose
    simp only [bind, EStateM.bind, query, parentSocket, Workspace.block, hdead, Except.bind]
    exact .absent hlive

end Edit

end BlockEditor
