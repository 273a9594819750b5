import BlockEditor.Proofs.Graph.Basic

/-!
# Changes of a graph

What the editor does to a graph comes down to a few changes: a block or an end is added, a link is
made or cut, blocks and ends are taken away together. Each keeps the graph wired.
-/

namespace BlockEditor.Graph

variable {g : Graph} {a b x : BlockId} {c d e s p : ConnectionId} {w v u : Wire}

/-! ### Adding -/

def addBlock (g : Graph) (b : BlockId) : Graph :=
  { g with ends := fun x => if x = b then some [] else g.ends x }

def addEnd (g : Graph) (b : BlockId) (c : ConnectionId) (k : ConnectionKind)
    (check : Option (List String)) : Graph where
  ends x := if x = b then (g.ends x).map (· ++ [(c, some k)]) else g.ends x
  wire d := if d = c then some ⟨b, k, check, none⟩ else g.wire d

theorem Wired.addBlock (hg : g.Wired) (hb : g.ends b = none) : (g.addBlock b).Wired where
  listed {x l r} hl hr := by
    by_cases hx : x = b
    · simp only [Graph.addBlock, if_pos hx, Option.some.injEq] at hl
      subst hl
      cases hr
    · simp only [Graph.addBlock, if_neg hx] at hl
      exact hg.listed hl hr
  owned {c w} hw := by
    obtain ⟨l, hl, hr⟩ := hg.owned hw
    have hx : w.block ≠ b := by
      rintro rfl
      rw [hb] at hl
      cases hl
    exact ⟨l, by simpa only [Graph.addBlock, if_neg hx] using hl, hr⟩
  once {x l} hl := by
    by_cases hx : x = b
    · simp only [Graph.addBlock, if_pos hx, Option.some.injEq] at hl
      subst hl
      exact List.nodup_nil
    · simp only [Graph.addBlock, if_neg hx] at hl
      exact hg.once hl
  onePlug := hg.onePlug
  joined := hg.joined

/-- A new end is none that is linked already. -/
theorem Wired.target_ne (hg : g.Wired) (hc : g.wire c = none) (hw : g.wire d = some w) :
    w.target ≠ some c := by
  intro ht
  obtain ⟨v, hv, -⟩ := hg.joined hw ht
  rw [hc] at hv
  cases hv

theorem addEnd_wire_of_ne {k : ConnectionKind} {check : Option (List String)} (h : d ≠ c) :
    (g.addEnd b c k check).wire d = g.wire d :=
  if_neg h

theorem addEnd_wire_self {k : ConnectionKind} {check : Option (List String)} :
    (g.addEnd b c k check).wire c = some ⟨b, k, check, none⟩ :=
  if_pos rfl

section AddEnd

variable {k : ConnectionKind} {check : Option (List String)} {l m : List Role}

/-- What is wired stays so when a new end is added. -/
theorem addEnd_wire_of_some (hc : g.wire c = none) (hw : g.wire d = some w) :
    (g.addEnd b c k check).wire d = some w := by
  rw [addEnd_wire_of_ne, hw]
  rintro rfl
  rw [hc] at hw
  cases hw

theorem addEnd_wire (hw : (g.addEnd b c k check).wire d = some w) :
    g.wire d = some w ∨ d = c ∧ w = ⟨b, k, check, none⟩ := by
  by_cases hd : d = c
  · subst hd
    rw [addEnd_wire_self, Option.some.injEq] at hw
    exact Or.inr ⟨rfl, hw.symm⟩
  · rw [addEnd_wire_of_ne hd] at hw
    exact Or.inl hw

theorem addEnd_ends (hb : g.ends b = some l) (hm : (g.addEnd b c k check).ends x = some m) :
    g.ends x = some m ∨ x = b ∧ m = l ++ [(c, some k)] := by
  by_cases hx : x = b
  · subst hx
    simp only [Graph.addEnd, if_true, hb, Option.map_some, Option.some.injEq] at hm
    exact Or.inr ⟨rfl, hm.symm⟩
  · simp only [Graph.addEnd, if_neg hx] at hm
    exact Or.inl hm

theorem Wired.addEnd (hg : g.Wired) (check : Option (List String)) (hb : g.ends b = some l)
    (hc : g.wire c = none)
    (hk : k.isPlug → ∀ d w, g.wire d = some w → w.block = b → w.kind.isPlug = false) :
    (g.addEnd b c k check).Wired where
  listed {x m r} hm hr := by
    have old : ∀ {n}, g.ends x = some n → r ∈ n →
        ∃ w, (g.addEnd b c k check).wire r.1 = some w ∧ w.block = x ∧ some w.kind = r.2 := by
      intro n hn hr
      obtain ⟨w, hw, hwb, hwk⟩ := hg.listed hn hr
      exact ⟨w, addEnd_wire_of_some hc hw, hwb, hwk⟩
    rcases addEnd_ends hb hm with hm | ⟨rfl, rfl⟩
    · exact old hm hr
    · rcases List.mem_append.mp hr with hr | hr
      · exact old hb hr
      · rw [List.mem_singleton] at hr
        subst hr
        exact ⟨_, addEnd_wire_self, rfl, rfl⟩
  owned {d w} hw := by
    rcases addEnd_wire hw with hw | ⟨rfl, rfl⟩
    · obtain ⟨m, hm, hr⟩ := hg.owned hw
      by_cases hx : w.block = b
      · rw [hx, hb] at hm
        cases hm
        exact ⟨l ++ [(c, some k)], by simp [Graph.addEnd, hx, hb], by simp [hr]⟩
      · exact ⟨m, by simpa only [Graph.addEnd, if_neg hx] using hm, hr⟩
    · exact ⟨l ++ [(d, some k)], by simp [Graph.addEnd, hb], by simp⟩
  once {x m} hm := by
    rcases addEnd_ends hb hm with hm | ⟨rfl, rfl⟩
    · exact hg.once hm
    · rw [List.map_append, List.nodup_append]
      refine ⟨hg.once hb, by simp, ?_⟩
      intro i hi j hj
      obtain ⟨r, hr, rfl⟩ := List.mem_map.mp hi
      obtain ⟨w, hw, -⟩ := hg.listed hb hr
      simp only [List.map_cons, List.map_nil, List.mem_singleton] at hj
      rintro rfl
      rw [hj, hc] at hw
      cases hw
  onePlug {d e w v} hw hv hb' hwk hvk := by
    rcases addEnd_wire hw with hd | ⟨rfl, rfl⟩
    · rcases addEnd_wire hv with he | ⟨rfl, rfl⟩
      · exact hg.onePlug hd he hb' hwk hvk
      · rw [hk hvk d w hd hb'] at hwk
        cases hwk
    · rcases addEnd_wire hv with he | ⟨rfl, -⟩
      · rw [hk hwk e v he hb'.symm] at hvk
        cases hvk
      · rfl
  joined {d w e} hw ht := by
    rcases addEnd_wire hw with hw | ⟨-, rfl⟩
    · obtain ⟨v, hv, h⟩ := hg.joined hw ht
      exact ⟨v, addEnd_wire_of_some hc hv, h⟩
    · cases ht

end AddEnd

/-! ### Linking -/

/-- Give an end another target. -/
def retarget (g : Graph) (c : ConnectionId) (t : Option ConnectionId) : Graph :=
  { g with wire := fun d => if d = c then (g.wire d).map ({ · with target := t }) else g.wire d }

def tie (g : Graph) (s p : ConnectionId) : Graph :=
  (g.retarget s (some p)).retarget p (some s)

def cut (g : Graph) (s p : ConnectionId) : Graph :=
  (g.retarget s none).retarget p none

theorem retarget_wire_self {t : Option ConnectionId} (h : g.wire c = some w) :
    (g.retarget c t).wire c = some { w with target := t } := by
  simp [retarget, h]

theorem retarget_wire_of_ne {t : Option ConnectionId} (h : d ≠ c) :
    (g.retarget c t).wire d = g.wire d :=
  if_neg h

/-- All but the targets stays the same. -/
theorem retarget_wire {t : Option ConnectionId} (h : (g.retarget c t).wire d = some w) :
    ∃ u t', g.wire d = some u ∧ w = { u with target := t' } := by
  by_cases hd : d = c
  · subst hd
    cases hu : g.wire d with
    | none => simp [retarget, hu] at h
    | some u =>
      rw [retarget_wire_self hu, Option.some.injEq] at h
      exact ⟨u, t, rfl, h.symm⟩
  · rw [retarget_wire_of_ne hd] at h
    exact ⟨w, w.target, h, rfl⟩

/-- Links may be changed freely as long as they go both ways and fit. -/
theorem Wired.retarget₂ {t t' : Option ConnectionId} (hg : g.Wired)
    (h : ∀ {e w f}, ((g.retarget c t).retarget d t').wire e = some w → w.target = some f →
      ∃ v, ((g.retarget c t).retarget d t').wire f = some v ∧ v.target = some e ∧
        v.kind = w.kind.opposite ∧ checksFit w.check v.check ∧ v.block ≠ w.block) :
    ((g.retarget c t).retarget d t').Wired where
  listed {x l r} hl hr := by
    obtain ⟨w, hw, hwb, hwk⟩ := hg.listed hl hr
    obtain ⟨w', hw', hb', hk'⟩ : ∃ w', (g.retarget c t).wire r.1 = some w' ∧
        w'.block = w.block ∧ w'.kind = w.kind := by
      by_cases hr : r.1 = c
      · rw [hr] at hw ⊢
        exact ⟨_, retarget_wire_self hw, rfl, rfl⟩
      · exact ⟨w, by rw [retarget_wire_of_ne hr, hw], rfl, rfl⟩
    by_cases hr : r.1 = d
    · rw [hr] at hw' ⊢
      exact ⟨_, retarget_wire_self hw', hb'.trans hwb, by rw [← hwk, ← hk']⟩
    · exact ⟨w', by rw [retarget_wire_of_ne hr, hw'], hb'.trans hwb, by rw [← hwk, ← hk']⟩
  owned {e w} hw := by
    obtain ⟨u, _, hu, rfl⟩ := retarget_wire hw
    obtain ⟨u', _, hu', rfl⟩ := retarget_wire hu
    obtain ⟨l, hl, hr⟩ := hg.owned hu'
    exact ⟨l, hl, hr⟩
  once := hg.once
  onePlug {e f w v} hw hv hb hwk hvk := by
    obtain ⟨u, _, hu, rfl⟩ := retarget_wire hw
    obtain ⟨u', _, hu', rfl⟩ := retarget_wire hu
    obtain ⟨y, _, hy, rfl⟩ := retarget_wire hv
    obtain ⟨y', _, hy', rfl⟩ := retarget_wire hy
    exact hg.onePlug hu' hy' hb hwk hvk
  joined := h

/-- Two free ends that may be linked. -/
structure Mates (g : Graph) (s p : ConnectionId) (w v : Wire) : Prop where
  socket : g.wire s = some w
  plug : g.wire p = some v
  isSocket : w.kind.isSocket
  opposite : v.kind = w.kind.opposite
  fits : checksFit w.check v.check
  apart : v.block ≠ w.block

theorem Mates.ne (h : g.Mates s p w v) : s ≠ p := by
  rintro rfl
  have := h.socket.symm.trans h.plug
  cases this
  exact h.apart rfl

theorem tie_wire_socket (h : g.Mates s p w v) :
    (g.tie s p).wire s = some { w with target := some p } := by
  rw [tie, retarget_wire_of_ne h.ne, retarget_wire_self h.socket]

theorem tie_wire_plug (h : g.Mates s p w v) :
    (g.tie s p).wire p = some { v with target := some s } := by
  rw [tie, retarget_wire_self]
  rw [retarget_wire_of_ne h.ne.symm, h.plug]

theorem tie_wire_of_ne (hs : c ≠ s) (hp : c ≠ p) : (g.tie s p).wire c = g.wire c := by
  rw [tie, retarget_wire_of_ne hp, retarget_wire_of_ne hs]

/-- An end that is free is the target of none. -/
theorem Wired.target_ne_of_free (hg : g.Wired) (hw : g.wire c = some w) (ht : w.target = none)
    (hu : g.wire d = some u) : u.target ≠ some c := by
  intro h
  obtain ⟨v, hv, hvt, -⟩ := hg.joined hu h
  rw [hw] at hv
  cases hv
  rw [ht] at hvt
  cases hvt

theorem Wired.tie (hg : g.Wired) (h : g.Mates s p w v) (hs : w.target = none)
    (hp : v.target = none) : (g.tie s p).Wired := by
  refine hg.retarget₂ fun {e u f} hu ht => ?_
  change (g.tie s p).wire e = some u at hu
  change ∃ y, (g.tie s p).wire f = some y ∧ _
  by_cases hes : e = s
  · subst hes
    rw [tie_wire_socket h, Option.some.injEq] at hu
    subst hu
    cases ht
    exact ⟨_, tie_wire_plug h, rfl, h.opposite, h.fits, h.apart⟩
  · by_cases hep : e = p
    · subst hep
      rw [tie_wire_plug h, Option.some.injEq] at hu
      subst hu
      cases ht
      refine ⟨_, tie_wire_socket h, rfl, ?_, ?_, h.apart.symm⟩
      · simp [h.opposite]
      · rw [checksFit_comm]
        exact h.fits
    · rw [tie_wire_of_ne hes hep] at hu
      obtain ⟨y, hy, hyt, hyk⟩ := hg.joined hu ht
      refine ⟨y, ?_, hyt, hyk⟩
      rw [tie_wire_of_ne, hy]
      · rintro rfl
        exact hg.target_ne_of_free h.socket hs hu ht
      · rintro rfl
        exact hg.target_ne_of_free h.plug hp hu ht

theorem Link.mates (hg : g.Wired) (h : g.Link s p w v) : g.Mates s p w v := by
  obtain ⟨v', hv', -, hk, hf, hb⟩ := hg.joined h.socket h.down
  rw [h.plug] at hv'
  cases hv'
  exact ⟨h.socket, h.plug, h.isSocket, hk, hf, hb⟩

theorem Link.ne (hg : g.Wired) (h : g.Link s p w v) : s ≠ p :=
  (h.mates hg).ne

theorem cut_wire_socket (hg : g.Wired) (h : g.Link s p w v) :
    (g.cut s p).wire s = some { w with target := none } := by
  rw [cut, retarget_wire_of_ne (h.ne hg), retarget_wire_self h.socket]

theorem cut_wire_plug (hg : g.Wired) (h : g.Link s p w v) :
    (g.cut s p).wire p = some { v with target := none } := by
  rw [cut, retarget_wire_self]
  rw [retarget_wire_of_ne (h.ne hg).symm, h.plug]

theorem cut_wire_of_ne (hs : c ≠ s) (hp : c ≠ p) : (g.cut s p).wire c = g.wire c := by
  rw [cut, retarget_wire_of_ne hp, retarget_wire_of_ne hs]

/-- Each end is the target of its target only. -/
theorem Wired.target_unique (hg : g.Wired) (hw : g.wire c = some w) (hv : g.wire d = some v)
    (hwt : w.target = some e) (hvt : v.target = some e) : c = d := by
  obtain ⟨y, hy, hyt, -⟩ := hg.joined hw hwt
  obtain ⟨z, hz, hzt, -⟩ := hg.joined hv hvt
  rw [hy] at hz
  cases hz
  exact Option.some.inj (hyt.symm.trans hzt)

theorem Wired.cut (hg : g.Wired) (h : g.Link s p w v) : (g.cut s p).Wired := by
  refine hg.retarget₂ fun {e u f} hu ht => ?_
  change (g.cut s p).wire e = some u at hu
  change ∃ y, (g.cut s p).wire f = some y ∧ _
  by_cases hes : e = s
  · subst hes
    rw [cut_wire_socket hg h, Option.some.injEq] at hu
    subst hu
    cases ht
  · by_cases hep : e = p
    · subst hep
      rw [cut_wire_plug hg h, Option.some.injEq] at hu
      subst hu
      cases ht
    · rw [cut_wire_of_ne hes hep] at hu
      obtain ⟨y, hy, hyt⟩ := hg.joined hu ht
      refine ⟨y, ?_, hyt⟩
      rw [cut_wire_of_ne, hy]
      · rintro rfl
        exact hep (hg.target_unique hu h.plug ht (h.up hg))
      · rintro rfl
        exact hes (hg.target_unique hu h.socket ht h.down)

/-! ### Taking away -/

/-- Without the ends `D` and the blocks `R`. What was linked to them is free. -/
def prune (g : Graph) (D : ConnectionId → Bool) (R : BlockId → Bool) : Graph where
  ends b := if R b then none else (g.ends b).map (·.filter (!D ·.1))
  wire c := if D c then none else (g.wire c).map fun w => { w with target := w.target.filter (!D ·) }

section Prune

variable {D : ConnectionId → Bool} {R : BlockId → Bool}

theorem prune_wire (h : (g.prune D R).wire c = some w) :
    D c = false ∧ ∃ u, g.wire c = some u ∧ w = { u with target := u.target.filter (!D ·) } := by
  by_cases hc : D c
  · simp [prune, hc] at h
  · cases hu : g.wire c with
    | none => simp [prune, hu] at h
    | some u =>
      simp only [prune, if_neg hc, hu, Option.map_some, Option.some.injEq] at h
      exact ⟨by simpa using hc, u, rfl, h.symm⟩

theorem prune_wire_of (hw : g.wire c = some w) (hc : D c = false) :
    (g.prune D R).wire c = some { w with target := w.target.filter (!D ·) } := by
  simp [prune, hc, hw]

theorem prune_target {t : Option ConnectionId} (h : t.filter (!D ·) = some d) :
    t = some d ∧ D d = false := by
  obtain ⟨ht, hd⟩ := Option.filter_eq_some_iff.mp h
  exact ⟨ht, by simpa using hd⟩

theorem Wired.prune (hg : g.Wired) (h : ∀ c w, g.wire c = some w → R w.block → D c) :
    (g.prune D R).Wired where
  listed {b l r} hl hr := by
    by_cases hb : R b
    · simp [Graph.prune, hb] at hl
    · simp only [Graph.prune, if_neg hb, Option.map_eq_some_iff] at hl
      obtain ⟨m, hm, rfl⟩ := hl
      obtain ⟨hr, hd⟩ := List.mem_filter.mp hr
      obtain ⟨w, hw, hwb, hwk⟩ := hg.listed hm hr
      exact ⟨_, prune_wire_of hw (by simpa using hd), hwb, hwk⟩
  owned {c w} hw := by
    obtain ⟨hc, u, hu, rfl⟩ := prune_wire hw
    obtain ⟨l, hl, hr⟩ := hg.owned hu
    have hb : ¬ R u.block := fun hb => by rw [h c u hu hb] at hc; cases hc
    exact ⟨l.filter (!D ·.1), by simp [Graph.prune, hb, hl], by simp [hr, hc]⟩
  once {b l} hl := by
    by_cases hb : R b
    · simp [Graph.prune, hb] at hl
    · simp only [Graph.prune, if_neg hb, Option.map_eq_some_iff] at hl
      obtain ⟨m, hm, rfl⟩ := hl
      exact (hg.once hm).sublist (List.filter_sublist.map _)
  onePlug {c d w v} hw hv hb hwk hvk := by
    obtain ⟨-, u, hu, rfl⟩ := prune_wire hw
    obtain ⟨-, y, hy, rfl⟩ := prune_wire hv
    exact hg.onePlug hu hy hb hwk hvk
  joined {c w d} hw ht := by
    obtain ⟨hc, u, hu, rfl⟩ := prune_wire hw
    obtain ⟨ht, hd⟩ := prune_target ht
    obtain ⟨v, hv, hvt, hvk, hvf, hvb⟩ := hg.joined hu ht
    exact ⟨_, prune_wire_of hv hd, by simp [hvt, hc], hvk, hvf, hvb⟩

end Prune

end BlockEditor.Graph
