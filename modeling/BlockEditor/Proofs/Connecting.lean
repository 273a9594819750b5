import BlockEditor.Proofs.Joining
import BlockEditor.Proofs.Sparing

/-!
# Linking two ends, from beginning to end

Two ends that are linked have each other. A real block that was in the way moves to the place that is
found for it below the block that is plugged in, or it becomes a top block; a placeholder that was in
the way becomes a template. Nothing else is linked otherwise, and nothing else has another template.
-/

namespace BlockEditor

open Workspace

variable {α : Type}

namespace Workspace

variable {ws u v t : Workspace α} {x y a child : BlockId} {b : Block α}
  {c d s p q : ConnectionId} {o : Option Edit.Orphan}

/-- The socket that is found below a block holds in the end what it held at the start. -/
theorem Agrees.home (h : Agrees child ws v) (hs : ws.Sound) (hv : v.Sound) (hlive : ws.Live child)
    (hvacant : v.Vacant child c) :
    (∃ y, ws.connections[c]? = some y ∧ ws.Branch child y.block) ∧ v.across c = ws.across c ∧
      ∀ a, v.across c = some a → ws.isPlaceholder a ∧ Agrees a ws v ∧ ws.Live a := by
  obtain ⟨y, hy, hk, hbranch⟩ := hvacant.socket
  have hold := (h.branch_iff hs hv hlive).mp hbranch
  obtain ⟨b, hb⟩ := hlive
  obtain ⟨b, hb⟩ := hs.live_of_branch hb hold
  have hbelow := h.below hold
  obtain ⟨b', hb', hlooks⟩ := hbelow.block hb
  have hin : c ∈ b.sockets := by
    rw [← Block.sockets_of_looks hlooks]
    exact hv.mem_sockets_of hy hk hb'
  have hacross := hbelow.across hs hb hin
  obtain ⟨y₀, hy₀, howner, -⟩ := hs.socket hb hin
  refine ⟨⟨y₀, hy₀, howner ▸ hold⟩, hacross, fun a ha => ?_⟩
  have hu := hs.under_of_across hb hin (hacross ▸ ha)
  have hagrees := hbelow.below (branch_of_under hu (branch_self ws _))
  refine ⟨?_, hagrees, hs.live_across (hacross ▸ ha)⟩
  rw [← hagrees.isPlaceholder (branch_self ws a)]
  exact hvacant.vacant a ha

/-- A link that is cut when a placeholder is taken out of a socket does not survive it. -/
theorem Seats.targetOf_of_vacant {z : Connection α} (h : ws.Seats s p child none t) (hs : ws.Sound)
    (hac : ws.graph.Acyclic) (ht : t.Sound) (hz : t.connections[c]? = some z) (hcs : c ≠ s)
    (hcp : c ≠ p) : t.targetOf c = ws.targetOf c := by
  refine h.targetOf hs hz hcs hcp fun htarget => ?_
  obtain ⟨z₀, hz₀, hsame⟩ := h.twins_of hz
  have ha : ws.across s = some z₀.block := by
    rw [across_eq, htarget, Option.bind_some]
    exact ownerOf_eq_some.mpr ⟨z₀, hz₀, rfl⟩
  refine (h.stores hs hac ha).2 _ (branch_self ws _) ?_
  rw [← hsame.block]
  exact live_of_ownerOf ht (ownerOf_eq_some.mpr ⟨z, hz, rfl⟩)

/-- Another socket holds what it held, as far as it remains. -/
theorem Seats.across_of_socket {z : Connection α} (h : ws.Seats s p child o t) (hs : ws.Sound)
    (ht : t.Sound) (hz : ws.connections[c]? = some z) (hk : z.kind.isSocket) (hcs : c ≠ s)
    (ha : t.across c = some a) : ws.across c = some a ∧ t.isPlaceholder a = ws.isPlaceholder a := by
  refine ⟨?_, h.isPlaceholder (ht.live_across ha)⟩
  obtain ⟨d, hd, -⟩ := Option.bind_eq_some_iff.mp ha
  obtain ⟨zt, hzt, -⟩ := targetOf_eq_some.mp hd
  obtain ⟨z₀, hz₀, hsame⟩ := h.twins_of hzt
  rw [hz, Option.some.injEq] at hz₀
  subst hz₀
  obtain ⟨w, v, hl, -⟩ := h.link
  obtain ⟨y, hy, rfl⟩ := connection_of_wire hl.socket
  obtain ⟨y₀, hy₀, hsocket⟩ := h.twins_of hy
  have hcp : c ≠ p := by
    rintro rfl
    have hplug := hl.isPlug ht.wired
    rw [← Option.some.inj ((wire_of_connection hzt).symm.trans hl.plug), ConnectionKind.isPlug_eq_not,
      show zt.wire.kind = z.kind from hsame.kind, hk] at hplug
    cases hplug
  have hnot : ws.targetOf s ≠ some c :=
    hs.targetOf_ne hy₀ (by rw [← hsocket.kind]; exact hl.isSocket) hz hk
  rw [← ha, h.across_of hs ht hzt hcs hcp hnot]

/-- The place that a displaced block is given: the socket `c` of the branch of `child`. -/
structure Rehoused (ws v : Workspace α) (s q : ConnectionId) (a child : BlockId) (c : ConnectionId)
    (t : Workspace α) : Prop where
  rehomes : ws.Rehomes child s q c
  vacant : v.Vacant child c
  seats : v.Seats c q a none t

namespace Engages

/-- No real block was in the socket, or there was one, and it is put aside or has a new place. -/
theorem cases (h : ws.Engages s p child u v o t) :
    (∀ a, ws.across s = some a → ws.isPlaceholder a) ∧ u.Seats s p child none t ∨
      ∃ q a, ws.targetOf s = some q ∧ ws.across s = some a ∧ ws.isPlaceholder a = false ∧
        u.Seats s p child (some ⟨a, q⟩) v ∧ Agrees child ws v ∧
        (v.Drifts t ∨ ∃ c, ws.Rehoused v s q a child c t) := by
  by_cases hv : ∀ a, ws.across s = some a → ws.isPlaceholder a
  · exact Or.inl ⟨hv, h.of_vacant hv⟩
  right
  push Not at hv
  obtain ⟨a, ha, hmark⟩ := hv
  have hreal : ws.isPlaceholder a = false := Bool.eq_false_iff.mpr hmark
  obtain ⟨q, hq, -⟩ := Option.bind_eq_some_iff.mp ha
  obtain ⟨-, hseats, hagrees, hhome, hsettles⟩ := h.of_real hq ha hreal
  refine ⟨q, a, hq, ha, hreal, hseats, hagrees, ?_⟩
  have hrealAll : ∀ z, ws.across s = some z → ws.isPlaceholder z = false := fun z hz => by
    rw [ha, Option.some.injEq] at hz
    exact hz ▸ hreal
  rcases hsettles.cases h.seated.1 h.seated.2.2 with ⟨-, hd⟩ | ⟨c, hsome, hvacant, hseat⟩
  · exact Or.inl hd
  · exact Or.inr ⟨c, ⟨hq, hrealAll, hhome ▸ hsome⟩, hvacant, hseat⟩

/-- The socket of the new place is in the branch of the block that is plugged in. -/
theorem home (h : ws.Engages s p child u v o t) (hagrees : Agrees child ws v)
    (hvacant : v.Vacant child c) :
    (∃ y, ws.connections[c]? = some y ∧ ws.Branch child y.block) ∧ v.across c = ws.across c ∧
      ∀ a, v.across c = some a → ws.isPlaceholder a ∧ Agrees a ws v ∧ ws.Live a :=
  hagrees.home h.sound h.seated.1 h.live hvacant

theorem real_of (h : ws.Engages s p child u v o t) (ha : ws.across s = some a)
    (hreal : ws.isPlaceholder a = false) : ∀ z, u.across s = some z → u.isPlaceholder z = false := by
  intro z hz
  obtain ⟨hua, hmark⟩ := h.occupant ha
  rw [hua, Option.some.injEq] at hz
  rw [← hz, hmark, hreal]

/-- The old socket of the plug is empty if it is still there, or it has a new placeholder. -/
theorem left (h : ws.Engages s p child u v o t) (hc : ws.targetOf p = some c)
    (ha : t.across c = some a) : t.isPlaceholder a ∧ ws.ids.blocks ≤ a.index.toNat := by
  have hus := h.ready.1.sound
  have ht := h.linked.1
  have stopgap := h.frees.stopgap h.sound h.poised.plugOf hc
  obtain ⟨hcs, -, z, hz, hk, hout⟩ := h.former hc
  obtain ⟨zu, hzu, htwin⟩ := h.frees.twins h.sound hz
  have hku : zu.kind.isSocket := htwin.kind ▸ hk
  rcases h.cases with ⟨-, hseats⟩ | ⟨q, x, -, -, -, hseats, hagrees, hend⟩
  · obtain ⟨hau, hmark⟩ := hseats.across_of_socket hus ht hzu hku hcs ha
    rw [hmark]
    exact stopgap a hau
  -- Up to the state in which the displaced block seeks a place, and from there to the end.
  have hvs := h.seated.1
  suffices hva : v.across c = some a ∧ t.isPlaceholder a = v.isPlaceholder a by
    obtain ⟨hau, hmark⟩ := hseats.across_of_socket hus hvs hzu hku hcs hva.1
    rw [hva.2, hmark]
    exact stopgap a hau
  rcases hend with hd | ⟨d, -, hvacant, hseat⟩
  · exact ⟨(hd.across c).symm.trans ha, hd.isPlaceholder a⟩
  obtain ⟨⟨yd, hyd, hbranch⟩, -, -⟩ := h.home hagrees hvacant
  have hcd : c ≠ d := by
    rintro rfl
    rw [hz, Option.some.injEq] at hyd
    exact hout (hyd ▸ hbranch)
  obtain ⟨zt, hzt⟩ : ∃ zt, t.connections[c]? = some zt := by
    obtain ⟨d, hd, -⟩ := Option.bind_eq_some_iff.mp ha
    obtain ⟨zt, hzt, -⟩ := targetOf_eq_some.mp hd
    exact ⟨zt, hzt⟩
  obtain ⟨zv, hzv, hsame⟩ := hseat.twins_of hzt
  obtain ⟨z₀, hz₀, hsame₀⟩ := hseats.twins_of hzv
  rw [hzu, Option.some.injEq] at hz₀
  subst hz₀
  exact hseat.across_of_socket hvs ht hzv (by rw [hsame₀.kind]; exact hku) hcd ha

/-- A template is changed only where a placeholder was displaced. -/
theorem templates {z z' : Connection α} (h : ws.Engages s p child u v o t)
    (hz : ws.connections[c]? = some z) (hz' : t.connections[c]? = some z') :
    t.templateAt c = ws.templateAt c ∨ ∃ a, ws.across c = some a ∧ ws.isPlaceholder a ∧
      (c = s ∨ ∃ q, ws.Rehomes child s q c) := by
  have hfrees := h.frees.templateAt h.sound hz
  rcases h.cases with ⟨hmark, hseats⟩ | ⟨q, a, -, ha, hreal, hseats, hagrees, hend⟩
  · by_cases hcs : c = s
    · subst hcs
      cases hacross : ws.across c with
      | some a => exact Or.inr ⟨a, rfl, hmark a hacross, Or.inl rfl⟩
      | none =>
        refine Or.inl ((hseats.templateAt_of_real fun a ha => ?_).trans hfrees)
        rw [h.socket.2.2, hacross] at ha
        cases ha
    · exact Or.inl ((hseats.templateAt_of_ne hz' hcs).trans hfrees)
  have hv : v.templateAt c = ws.templateAt c :=
    (hseats.templateAt_of_real (h.real_of ha hreal)).trans hfrees
  rcases hend with hd | ⟨d, hrehomes, hvacant, hseat⟩
  · exact Or.inl ((hd.templateAt c).trans hv)
  by_cases hcd : c = d
  · subst hcd
    obtain ⟨-, hsame, hold⟩ := h.home hagrees hvacant
    cases hacross : v.across c with
    | some a => exact Or.inr ⟨a, hsame ▸ hacross, (hold a hacross).1, Or.inr ⟨q, hrehomes⟩⟩
    | none =>
      refine Or.inl ((hseat.templateAt_of_real fun a ha => ?_).trans hv)
      rw [hacross] at ha
      cases ha
  · exact Or.inl ((hseat.templateAt_of_ne hz' hcd).trans hv)

/-- Every other end that remains is linked as it was. -/
theorem targets {z z' : Connection α} (h : ws.Engages s p child u v o t)
    (hz : ws.connections[c]? = some z) (hz' : t.connections[c]? = some z') (hcs : c ≠ s)
    (hcp : c ≠ p) (hs : ws.targetOf s ≠ some c) (hp : ws.targetOf p ≠ some c)
    (hhome : ∀ q, ¬ ws.Rehomes child s q c) : t.targetOf c = ws.targetOf c := by
  obtain ⟨hready, -⟩ := h.ready
  have hus := hready.sound
  have ht := h.linked.1
  have hfrees := h.frees.targetOf h.sound h.poised.plugOf hz hcp hp
  have hus_c : u.targetOf s ≠ some c := by
    rw [h.socket.2.1]
    exact hs
  rcases h.cases with ⟨-, hseats⟩ | ⟨q, a, hq, -, -, hseats, -, hend⟩
  · exact (hseats.targetOf hus hz' hcs hcp hus_c).trans hfrees
  obtain ⟨hvs, hvac, -⟩ := h.seated
  have hv : ∀ zv, v.connections[c]? = some zv → v.targetOf c = ws.targetOf c := fun zv hzv =>
    (hseats.targetOf hus hzv hcs hcp hus_c).trans hfrees
  rcases hend with hd | ⟨d, hrehomes, -, hseat⟩
  · obtain ⟨zv, hzv, -⟩ := hd.symm_connection hz'
    rw [targetOf_congr hd.graph]
    exact hv zv hzv
  · obtain ⟨zv, hzv, -⟩ := hseat.twins_of hz'
    have hcd : c ≠ d := fun heq => hhome q (heq ▸ hrehomes)
    have hcq : c ≠ q := fun heq => hs (heq ▸ hq)
    exact (hseat.targetOf_of_vacant hvs hvac ht hz' hcd hcq).trans (hv zv hzv)

/-- A block that is gone hung on the displaced placeholder or was it. -/
theorem kept (h : ws.Engages s p child u v o t) (hx : ws.Live x) :
    t.Live x ∨ ∃ c a, (c = s ∨ ∃ q, ws.Rehomes child s q c) ∧ ws.across c = some a ∧
      ws.isPlaceholder a ∧ ws.Branch a x := by
  have hus := h.ready.1.sound
  have hxu := h.frees.stays h.sound x hx
  rcases h.cases with ⟨-, hseats⟩ | ⟨q, a, -, ha, hreal, hseats, hagrees, hend⟩
  · refine (hseats.live hus hxu).imp_right ?_
    rintro ⟨z, hz, hmark, hbranch, -⟩
    obtain ⟨hmark', hbranch'⟩ := h.frees.carried h.sound hx hbranch hmark
    exact ⟨s, z, Or.inl rfl, h.socket.2.2 ▸ hz, hmark', hbranch'⟩
  have hxv : v.Live x := by
    refine (hseats.live hus hxu).resolve_right ?_
    rintro ⟨z, hz, hmark, -⟩
    rw [h.real_of ha hreal z hz] at hmark
    cases hmark
  obtain ⟨hvs, -, -⟩ := h.seated
  rcases hend with hd | ⟨d, hrehomes, hvacant, hseat⟩
  · exact Or.inl (hd.live hxv)
  refine (hseat.live hvs hxv).imp_right ?_
  rintro ⟨z, hz, -, hbranch, -⟩
  obtain ⟨-, hsame, hold⟩ := h.home hagrees hvacant
  obtain ⟨hmark, hagreez, hlive⟩ := hold z hz
  exact ⟨d, z, Or.inr ⟨q, hrehomes⟩, hsame ▸ hz, hmark, (hagreez.branch_iff h.sound hvs hlive).mp hbranch⟩

end Engages

/-- What it makes of a workspace to link the plug `p` of `child` to the socket `s`, when the
workspace is `u` once the plug is free. -/
structure Engaged (ws : Workspace α) (s p : ConnectionId) (child : BlockId) (u t : Workspace α) :
    Prop where
  poised : ws.graph.Poised s p child
  /-- A real block that was in the socket is in the place that was found for it, or a top block. -/
  ousted : ∀ q a, ws.targetOf s = some q → ws.across s = some a → ws.isPlaceholder a = false →
    ws.orphanHome child q = .ok none ∧ a ∈ t.top ∧ t.graph.Loose a ∨
      ∃ c, ws.orphanHome child q = .ok (some c) ∧ t.targetOf c = some q ∧ t.targetOf q = some c ∧
        t.graph.Below a child
  /-- A placeholder that was in the socket is gone with its branch, and is the template. -/
  replaced : ∀ a, ws.across s = some a → ws.isPlaceholder a →
    (∃ template, u.save a = .ok template ∧ t.templateAt s = some (some template)) ∧
      ∀ x, u.Branch a x → ¬ t.Live x
  /-- The old socket of the plug is empty or has a new placeholder. -/
  left : ∀ c a, ws.targetOf p = some c → t.across c = some a →
    t.isPlaceholder a ∧ ws.ids.blocks ≤ a.index.toNat
  /-- Templates change only where a placeholder was displaced. -/
  templates : ∀ c z z', ws.connections[c]? = some z → t.connections[c]? = some z' →
    t.templateAt c = ws.templateAt c ∨ ∃ a, ws.across c = some a ∧ ws.isPlaceholder a ∧
      (c = s ∨ ∃ q, ws.Rehomes child s q c)
  /-- All other ends are linked as they were. -/
  targets : ∀ c z z', ws.connections[c]? = some z → t.connections[c]? = some z' → c ≠ s → c ≠ p →
    ws.targetOf s ≠ some c → ws.targetOf p ≠ some c → (∀ q, ¬ ws.Rehomes child s q c) →
    t.targetOf c = ws.targetOf c
  /-- A block is gone only with a placeholder that was displaced. -/
  kept : ∀ x, ws.Live x → t.Live x ∨ ∃ c a, (c = s ∨ ∃ q, ws.Rehomes child s q c) ∧
    ws.across c = some a ∧ ws.isPlaceholder a ∧ ws.Branch a x

theorem Engages.engaged (h : ws.Engages s p child u v o t) : ws.Engaged s p child u t where
  poised := h.poised
  ousted _ _ := h.ousted
  replaced _ := h.replaced
  left _ _ := h.left
  templates _ _ _ := h.templates
  targets _ _ _ := h.targets
  kept _ := h.kept

end Workspace

namespace Edit

variable [Scalar α] {ws t : Workspace α} {a b : ConnectionId}

/-- Two ends that were linked have each other. If they had each other before, then nothing has
changed. -/
theorem connect_engaged (hs : ws.Sound) (hac : ws.graph.Acyclic) (hclear : ¬ ws.Closes a b)
    (hclear' : ¬ ws.Closes b a) (hrun : connect a b ws = .ok () t) (hlast : Lasts t) :
    t.targetOf a = some b ∧ t.targetOf b = some a ∧
      ((ws.targetOf a = some b ∧ t = ws) ∨ (ws.targetOf a ≠ some b ∧
        ∃ s p child u, (s = a ∧ p = b ∨ s = b ∧ p = a) ∧ disconnect p ws = .ok () u ∧
          ws.Engaged s p child u t)) := by
  obtain ⟨s, p, child, hends, hpoised, hfit⟩ := connect_ok hrun
  have hclear : ¬ ws.Closes s p := by
    rcases hends with ⟨rfl, rfl⟩ | ⟨rfl, rfl⟩
    · exact hclear
    · exact hclear'
  have both : ∀ {m : Workspace α}, m.Sound → m.targetOf s = some p →
      m.targetOf a = some b ∧ m.targetOf b = some a := by
    intro m hm htarget
    rcases hends with ⟨rfl, rfl⟩ | ⟨rfl, rfl⟩
    · exact ⟨htarget, hm.targetOf_back htarget⟩
    · exact ⟨hm.targetOf_back htarget, htarget⟩
  rcases fit_ok hs hac hpoised hclear hfit hlast with ⟨htarget, rfl⟩ | ⟨happart, u, v, o, hfree, h⟩
  · obtain ⟨hab, hba⟩ := both hs htarget
    exact ⟨hab, hba, Or.inl ⟨hab, rfl⟩⟩
  · obtain ⟨ht, -, w, z, hl, -⟩ := h.linked
    obtain ⟨y, hy, rfl⟩ := connection_of_wire hl.socket
    obtain ⟨hab, hba⟩ := both ht ((targetOf_eq hy).trans hl.down)
    refine ⟨hab, hba, Or.inr ⟨fun hold => happart ?_, s, p, child, u, hends, hfree, h.engaged⟩⟩
    rcases hends with ⟨rfl, rfl⟩ | ⟨rfl, rfl⟩
    · exact hold
    · exact hs.targetOf_back hold

end Edit

namespace Editor

variable [Scalar α] {config : EditorConfig α} {registry : Registry} {e t : Editor α}
  {actions : List (Action α)} {a b : ConnectionId}

/-- After any run, two ends that are linked have each other. What was in the way is in the place that
was found for it, or a top block, or a template. Nothing else is linked otherwise, no other template
has changed, and if the ends had each other before, then nothing has changed at all. -/
theorem run_connects (hone : registry.OnePlug) (hstart : create config registry = .ok e)
    (hac : (e.run actions).workspace.graph.Acyclic)
    (hclear : ¬ (e.run actions).workspace.Closes a b)
    (hclear' : ¬ (e.run actions).workspace.Closes b a)
    (hrun : Act.edit (Edit.connect a b) (e.run actions) = .ok () t) (hlast : Lasts t) :
    t.workspace.targetOf a = some b ∧ t.workspace.targetOf b = some a ∧
      (((e.run actions).workspace.targetOf a = some b ∧ t = e.run actions) ∨
        ((e.run actions).workspace.targetOf a ≠ some b ∧ ∃ s p child u,
          (s = a ∧ p = b ∨ s = b ∧ p = a) ∧
          Edit.disconnect p (e.run actions).workspace = .ok () u ∧
          (e.run actions).workspace.Engaged s p child u t.workspace)) := by
  obtain ⟨u, hconnect, rfl⟩ := Act.edit_ok hrun
  have hs := run_wired hone hstart
    ((Edit.connect_keeps (X := ∅) stable_true a b).lasts hconnect hlast)
  obtain ⟨hab, hba, ⟨hold, rfl⟩ | hnew⟩ := Edit.connect_engaged hs hac hclear hclear' hconnect hlast
  · exact ⟨hab, hba, Or.inl ⟨hold, rfl⟩⟩
  · exact ⟨hab, hba, Or.inr hnew⟩

/-- A name is returned. Beside it, a statement returns a dictionary that is unpacked, and that is a
placeholder as yet. A number is alone. -/
def nameBesideUnpacking : List (Action Int) :=
  [.newBlock "Return", .newBlock "Name", .connect ⟨1⟩ ⟨2⟩, .newBlock "Return",
    .setTemplate ⟨4⟩ (some (.placeholderOfType "Name")), .newBlock "dict_unpack",
    .setTemplate ⟨7⟩ (some (.placeholderOfType "Name")), .connect ⟨4⟩ ⟨6⟩, .newBlock "int"]

/-- The dictionary is returned in place of the name, which moves to where a placeholder was in it. Or
the number is unpacked in place of that placeholder. -/
theorem run_connects_unpacking :
    (∃ t s p child u, Act.edit (Edit.connect ⟨1⟩ ⟨6⟩) ((fresh (.standard : EditorConfig Int)
        Palette.registry).run nameBesideUnpacking) = .ok () t ∧
      t.workspace.targetOf ⟨1⟩ = some ⟨6⟩ ∧
      ((fresh (.standard : EditorConfig Int) Palette.registry).run
        nameBesideUnpacking).workspace.Engaged s p child u t.workspace) ∧
    ∃ t s p child u, Act.edit (Edit.connect ⟨9⟩ ⟨7⟩) ((fresh (.standard : EditorConfig Int)
        Palette.registry).run nameBesideUnpacking) = .ok () t ∧
      t.workspace.targetOf ⟨9⟩ = some ⟨7⟩ ∧
      ((fresh (.standard : EditorConfig Int) Palette.registry).run
        nameBesideUnpacking).workspace.Engaged s p child u t.workspace := by
  have connects : ∀ (e : Editor Int) (actions : List (Action Int)) (a b : ConnectionId)
      (t : Editor Int), create .standard Palette.registry = .ok e →
      (e.run actions).workspace.ordered → (e.run actions).workspace.targetOf a ≠ some b →
      ¬ (e.run actions).workspace.Closes a b → ¬ (e.run actions).workspace.Closes b a →
      Act.edit (Edit.connect a b) (e.run actions) = .ok () t → Lasts t →
      ∃ t s p child u, Act.edit (Edit.connect a b) (e.run actions) = .ok () t ∧
        t.workspace.targetOf a = some b ∧
        (e.run actions).workspace.Engaged s p child u t.workspace := by
    intro e actions a b t hstart hordered hapart hclear hclear' hrun hlast
    obtain ⟨hab, -, ⟨hold, -⟩ | ⟨-, s, p, child, u, -, -, hengaged⟩⟩ := run_connects
      Palette.registry_onePlug hstart (acyclic_of_ordered hordered) hclear hclear' hrun hlast
    · exact absurd hold hapart
    · exact ⟨t, s, p, child, u, hrun, hab, hengaged⟩
  have hstart : create (.standard : EditorConfig Int) Palette.registry =
      .ok (fresh .standard Palette.registry) := create_fresh (by decide)
  have hordered : ((fresh (.standard : EditorConfig Int) Palette.registry).run
      nameBesideUnpacking).workspace.ordered := by decide +kernel
  constructor
  · exact connects _ _ ⟨1⟩ ⟨6⟩ _ hstart hordered (by decide +kernel)
      (not_closes_of_ordered hordered (by decide +kernel))
      (not_closes_of_ordered hordered (by decide +kernel))
      (Act.eq_ok_of_answer (by decide +kernel)) (by decide +kernel)
  · exact connects _ _ ⟨9⟩ ⟨7⟩ _ hstart hordered (by decide +kernel)
      (not_closes_of_ordered hordered (by decide +kernel))
      (not_closes_of_ordered hordered (by decide +kernel))
      (Act.eq_ok_of_answer (by decide +kernel)) (by decide +kernel)

end Editor

end BlockEditor
