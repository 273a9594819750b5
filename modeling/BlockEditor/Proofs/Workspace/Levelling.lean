import BlockEditor.Proofs.Workspace.Hanging
import BlockEditor.Proofs.Workspace.Placing

/-!
# Steps that keep plugs on their sockets

A branch is moved as a whole, and its top block only if it hangs on nothing or is on its way to its
socket. A block that is laid out has its branches brought to where its sockets come to lie.
-/

namespace BlockEditor.Edit

open Workspace

variable {α : Type} [Scalar α] {ws t : Workspace α} {id : BlockId} {b : Block α}
  {s p : ConnectionId} {X : Set ConnectionId}

omit [Scalar α] in
/-- The blocks of a list without repetitions are changed once each. -/
theorem forM_updateBlock (f : Block α → Block α) (l : List BlockId) (ws : Workspace α) :
    Leads (· = ws) (l.forM fun x => updateBlock x f)
      (fun _ t => t.connections = ws.connections ∧ (l.Nodup → ∀ (x : BlockId) (b : Block α),
        ws.blocks[x]? = some b → t.blocks[x]? = some (if x ∈ l then f b else b)))
      fun _ => True := by
  induction l generalizing ws with
  | nil =>
    refine Leads.pure ?_
    rintro _ rfl
    exact ⟨rfl, fun _ x b hb => by rw [hb, if_neg List.not_mem_nil]⟩
  | cons y rest ih =>
    refine Leads.bind (Q := fun _ u => ∃ b, ws.blocks[y]? = some b ∧
      u = { ws with blocks := ws.blocks.insert y (f b) }) (Leads.updateBlock ?_ ?_) fun _ => ?_
    · rintro _ b rfl hb
      exact ⟨b, hb, rfl⟩
    · exact fun _ _ _ => trivial
    refine Leads.fix fun u => ((ih u).frame (c := ∃ b, ws.blocks[y]? = some b ∧
      u = { ws with blocks := ws.blocks.insert y (f b) })).weaken (fun _ h => h) ?_ fun _ _ => trivial
    rintro _ t ⟨⟨hc, ht⟩, b₀, hb₀, rfl⟩
    refine ⟨hc, fun hl x b hb => ?_⟩
    obtain ⟨hy, hrest⟩ := List.nodup_cons.mp hl
    by_cases hx : x = y
    · subst hx
      rw [hb, Option.some.injEq] at hb₀
      subst hb₀
      rw [ht hrest x (f b) (by rw [getElem?_insert, if_pos rfl]), if_neg hy,
        if_pos List.mem_cons_self]
    · rw [ht hrest x b (by rw [getElem?_insert, if_neg hx, hb])]
      simp only [List.mem_cons, hx, false_or]

variable [Scalar.Exact α]

theorem translate_slides (ws : Workspace α) (id : BlockId) (delta : Point α) :
    Leads (fun t => t = ws ∧ ws.Sound) (translate id delta) (fun _ t => Slides id delta ws t)
      fun t => t = ws ∧ ¬ ws.Live id := by
  suffices h : Leads (fun t => t = ws ∧ ws.Sound) (translate id delta)
      (fun _ t => t.connections = ws.connections ∧ (ws.graph.Tame id → ∀ (x : BlockId) (b : Block α),
        ws.Branch id x → ws.blocks[x]? = some b →
          t.blocks[x]? = some { b with position := b.position + delta })) fun _ => True by
    refine ((translate_leads ws id delta).and h).weaken (fun _ h => ⟨h, h⟩) ?_ fun _ h => h.1
    rintro _ t ⟨hshift, hc, hmoved⟩
    exact ⟨hshift.toShifts, hc, fun ht _ _ hx hb => hmoved ht _ _ hx hb⟩
  unfold translate
  refine Leads.ite (fun hsame => Leads.pure ?_) fun _ => ?_
  · rintro _ ⟨rfl, -⟩
    refine ⟨rfl, fun _ x b _ hb => ?_⟩
    rw [Point.eq_of_same hsame, Point.add_origin, hb]
  · refine (Leads.ask fun _ _ _ _ => trivial).bind fun found => Leads.fix fun u => ?_
    refine ((forM_updateBlock _ found u).frame (c := (u = ws ∧ ws.Sound) ∧
      u.descendants id = .ok found)).weaken (fun _ h => h) ?_ fun _ _ => trivial
    rintro _ t ⟨⟨hc, ht⟩, ⟨rfl, hs⟩, hfound⟩
    refine ⟨hc, fun htame x b hx hb => ?_⟩
    rw [ht (hs.nodup_descendants htame hfound) x b hb, if_pos (hs.mem_descendants htame hfound hx)]

/-- A branch that hangs on nothing may be moved. -/
theorem translate_levels (ws : Workspace α) (id : BlockId) (delta : Point α) :
    Leads (fun t => t = ws ∧ ws.Sound ∧ ws.Level X ∧ ws.graph.Loose id) (translate id delta)
      (fun _ t => t.Level X) fun t => t.Level X := by
  refine ((translate_slides ws id delta).frame (c := ws.Sound ∧ ws.Level X ∧ ws.graph.Loose id)).weaken
    (fun _ h => ⟨⟨h.1, h.2.1⟩, h.2⟩) ?_ fun _ h => h.1.1 ▸ h.2.2.1
  rintro _ t ⟨h, hs, hlevel, hloose⟩
  refine h.level hs hlevel fun hlink hv => ?_
  exact (hloose.not_under hs.wired ⟨_, _, _, _, hlink, hv, rfl⟩).elim

/-- Whatever is plugged into a socket is brought there. -/
theorem bringToSocket_levels (ws : Workspace α) (s : ConnectionId) :
    Leads (fun t => t = ws ∧ ws.Sound ∧ ws.Level (insert s X) ∧
        ∃ y, ws.connections[s]? = some y ∧ y.kind.isSocket)
      (bringToSocket s) (fun _ t => t.Level X) fun _ => True := by
  unfold bringToSocket
  refine (Leads.connection fun _ _ _ => trivial).bind fun x => ?_
  cases ht : x.target with
  | none =>
    refine Leads.pure ?_
    rintro _ ⟨⟨rfl, hs, hl, -⟩, hx⟩
    refine ⟨hl.plugs, fun {s' p w v} hlink hX hv => hl.flush hlink ?_ hv⟩
    rintro (rfl | hX')
    · have hw := hlink.socket
      rw [wire_of_connection hx, Option.some.injEq] at hw
      subst hw
      have hdown := ht.symm.trans hlink.down
      cases hdown
    · exact hX hX'
  | some p =>
    refine (Leads.connection fun _ _ _ => trivial).bind fun y => ?_
    refine (Leads.ask fun _ _ _ _ => trivial).bind fun at_ => ?_
    refine (Leads.block fun _ _ _ => trivial).bind fun child => ?_
    refine ((translate_slides ws y.block (at_ - y.offset - child.position)).frame (c := ws.Sound ∧
      ws.Level (insert s X) ∧ (∃ v, ws.graph.Link s p x.wire v) ∧ ws.connections[p]? = some y ∧
      ws.endPosition s = .ok at_ ∧ ws.blocks[y.block]? = some child)).weaken ?_ ?_ fun _ _ => trivial
    · rintro _ ⟨⟨⟨⟨⟨rfl, hs, hl, y', hy', hk⟩, hx⟩, hy⟩, hq⟩, hb⟩
      rw [hx, Option.some.injEq] at hy'
      subst hy'
      exact ⟨⟨rfl, hs⟩, hs, hl, Graph.link_of_socket hs.wired (wire_of_connection hx) hk ht, hy, hq, hb⟩
    · rintro _ t ⟨h, hs, hl, ⟨v, hlink⟩, hy, hq, hb⟩
      have hplug := hlink.plug
      rw [wire_of_connection hy, Option.some.injEq] at hplug
      subst hplug
      have hrest : t.Level (insert s X) := by
        refine h.level hs hl fun hlink' hv => Or.inl ?_
        exact hlink'.same_socket hs.wired hlink hv
      refine ⟨hrest.plugs, fun {s' p' w' v'} hlink' hX hv => ?_⟩
      by_cases hs' : s' = s
      · subst hs'
        rw [h.shifts.graph] at hlink' hv
        obtain rfl := Option.some.inj (hlink.socket.symm.trans hlink'.socket)
        obtain rfl := Option.some.inj (hlink.down.symm.trans hlink'.down)
        obtain rfl := Option.some.inj (hlink.plug.symm.trans hlink'.plug)
        exact h.flush hlink hy hb hq hv.tame
      · exact hrest.flush hlink' (fun h => h.elim hs' hX) hv

/-- What is plugged into some sockets is brought there, one after the other. -/
theorem forM_bringToSocket (l : List ConnectionId) (ws : Workspace α) :
    Leads (fun t => t = ws ∧ ws.Sound ∧ ws.Level (X ∪ {c | c ∈ l}) ∧
        ∀ c ∈ l, ∃ y, ws.connections[c]? = some y ∧ y.kind.isSocket)
      (l.forM bringToSocket) (fun _ t => t.Level X) fun _ => True := by
  induction l generalizing ws with
  | nil =>
    refine Leads.pure ?_
    rintro _ ⟨rfl, -, hl, -⟩
    exact hl.mono fun c hc => hc.elim id fun h => by cases h
  | cons c rest ih =>
    refine Leads.bind (Q := fun _ u => u.Sound ∧ u.Level (X ∪ {c | c ∈ rest}) ∧
      ∀ c ∈ rest, ∃ y, u.connections[c]? = some y ∧ y.kind.isSocket) ?_
      fun _ => Leads.fix fun u => (ih u).pre ?_
    · refine (((bringToSocket_levels (X := X ∪ {c | c ∈ rest}) ws c).and
        (bringToSocket_leads ws c)).frame (c := ws.Sound ∧
          ∀ c ∈ rest, ∃ y, ws.connections[c]? = some y ∧ y.kind.isSocket)).weaken ?_ ?_ ?_
      · rintro _ ⟨rfl, hs, hl, hsockets⟩
        obtain ⟨y, hy, hk⟩ := hsockets c List.mem_cons_self
        refine ⟨⟨⟨rfl, hs, hl.mono ?_, y, hy, hk⟩, rfl, hs, y, hy⟩, hs,
          fun d hd => hsockets d (List.mem_cons_of_mem c hd)⟩
        rintro d (hd | hd)
        · exact Or.inr (Or.inl hd)
        · exact (List.mem_cons.mp hd).imp id Or.inr
      · rintro _ u ⟨⟨hl, hstep⟩, hs, hsockets⟩
        refine ⟨hstep.sound hs, hl, fun d hd => ?_⟩
        obtain ⟨y, hy, hk⟩ := hsockets d hd
        obtain ⟨y', hy', he⟩ := hstep.connection hy
        exact ⟨y', hy', by rwa [show y'.kind = y.kind from
          congrArg (fun u : Connection Unit => u.kind) he]⟩
      · exact fun _ h => h.1.2.elim
    · exact fun t h => h

/-- A block that is laid out takes what is plugged into it along. -/
theorem layOut_levels (ws : Workspace α) (id : BlockId) :
    Leads (fun t => t = ws ∧ ws.Sound ∧ ws.Level X) (layOut id) (fun _ t => t.Level X)
      fun _ => True := by
  unfold layOut
  refine (Leads.block fun _ _ _ => trivial).bind fun b => ?_
  refine (Leads.get (Q := fun s t => s = t ∧ t = ws ∧ ws.Sound ∧ ws.Level X ∧
    ws.blocks[id]? = some b) ?_).bind fun s => ?_
  · rintro _ ⟨⟨rfl, hs, hl⟩, hb⟩
    exact ⟨rfl, rfl, hs, hl, hb⟩
  dsimp only
  refine (Leads.alter (Q := fun _ t => t.Sound ∧ t.Level (X ∪ {c | c ∈ s.occupiedSockets b}) ∧
    ∀ c ∈ s.occupiedSockets b, ∃ y, t.connections[c]? = some y ∧ y.kind.isSocket) ?_).bind
    fun _ => Leads.fix fun u => (forM_bringToSocket _ u).pre fun _ h => h
  rintro _ ⟨rfl, rfl, hs, hl, hb⟩
  have hshift : s.Shifts (fun _ => True) (s.place (Layout.offsets b)) :=
    shifts_place fun _ _ _ _ => trivial
  refine ⟨hshift.sound hs, hl.place hs hb, fun c hc => ?_⟩
  obtain ⟨y, hy, -, hk⟩ := hs.socket hb (List.mem_filter.mp hc).1
  obtain ⟨y', hy', he⟩ := hshift.connection hy
  have hkind : y'.kind = y.kind := congrArg (fun u : Connection Unit => u.kind) he
  exact ⟨y', hy', by rwa [hkind]⟩

/-- Plugs stay on their sockets while a block gets or loses inputs. -/
theorem handles_level (id : BlockId) :
    Handles (fun _ => True) True id (Level (α := α) X) where
  layOut := by
    refine Leads.fix fun ws => ?_
    refine (((layOut_leads ws id).and (layOut_levels (X := X) ws id)).frame
      (c := Good True id (Level X) ws)).weaken ?_ ?_ ?_
    · rintro _ ⟨rfl, h⟩
      exact ⟨⟨⟨rfl, h.sound⟩, rfl, h.sound, h.keeps⟩, h⟩
    · rintro _ t ⟨⟨⟨hlive, hshift⟩, hl⟩, h⟩
      exact ⟨⟨hshift.sound h.sound, fun _ => hshift.graph ▸ h.tame trivial, hl⟩, hshift.live hlive⟩
    · rintro _ ⟨⟨⟨rfl, hn⟩, -⟩, h⟩
      exact ⟨h.sound, h.keeps, hn⟩
  sheds hs ht hstep hl := by
    obtain ⟨R, hloses, hseal⟩ := hstep
    exact hl.loses hs hloses (hseal (ht trivial)).1
  pushes hs hstep hl _ := hl.pushes hs hstep

/-- The plug ends up on the socket. -/
theorem join_levels (ws : Workspace α) (s p : ConnectionId) (child : BlockId) :
    Leads (fun t => t = ws ∧ ws.Sound ∧ ws.Level X ∧
        ∃ w v, ws.graph.Mates s p w v ∧ w.target = none ∧ v.target = none ∧ v.block = child)
      (join s p child) (fun _ t => t.Level X) fun _ => True := by
  rw [join_eq_mate]
  refine Leads.bind (Q := fun _ t => t.Sound ∧ t.Level (insert s X) ∧
    ∃ y, t.connections[s]? = some y ∧ y.kind.isSocket) ?_ fun _ => ?_
  · refine ((mate_leads ws s p child).frame (c := ws.Sound ∧ ws.Level X)).weaken ?_ ?_
      fun _ _ => trivial
    · rintro _ ⟨rfl, hs, hl, hm⟩
      exact ⟨⟨rfl, hs, hm⟩, hs, hl⟩
    · rintro _ t ⟨⟨ht, -⟩, hs, hl⟩
      have hu := ht.sound hs
      have hlevel := hl.ties hs ht
      obtain ⟨w, v, hm, -⟩ := ht.mates
      have hlink := Graph.tie_link hm
      rw [← ht.graph] at hlink
      obtain ⟨y, hy, hyw⟩ := connection_of_wire hlink.socket
      refine ⟨⟨hu.wired, hu.blockIds, hu.connectionIds, hu.registry⟩,
        ⟨hlevel.plugs, hlevel.flush⟩, y, hy, ?_⟩
      exact (congrArg (fun u : Wire => u.kind.isSocket) hyw).trans hlink.isSocket
  · refine Leads.bind (Leads.fix fun u => (bringToSocket_levels (X := X) u s).pre fun _ h => h)
      fun _ => Leads.fire fun t h => ⟨h.plugs, h.flush⟩

/-- What is hung into a socket lies on it. -/
theorem hang_levels (ws : Workspace α) (c : ConnectionId) (child : BlockId) :
    Leads (fun t => t = ws ∧ ws.Sound ∧ ws.Level X ∧
        (∃ y, ws.connections[c]? = some y ∧ y.target = none) ∧ ws.graph.Loose child)
      (hang c child) (fun _ t => t.Level X) fun _ => True := by
  unfold hang
  refine (Leads.ask fun _ _ _ _ => trivial).bind fun p => (Leads.ask fun _ _ _ _ => trivial).bind
    fun on => Leads.ite (fun hon => ?_) fun _ => Leads.throw fun _ _ => trivial
  refine (join_levels ws c p child).pre ?_
  rintro _ ⟨⟨⟨rfl, hs, hl, ⟨y, hy, hfree⟩, hloose⟩, hplug⟩, hcan⟩
  exact ⟨rfl, hs, hl, mates_of_hang hs hy hfree hloose hplug (hon ▸ hcan)⟩

end BlockEditor.Edit
