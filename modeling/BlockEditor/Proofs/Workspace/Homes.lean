import BlockEditor.Proofs.Workspace.Hanging
import BlockEditor.Workspace.Search

/-!
# Ends that are offered to each other

Whatever place is found for a plug is a socket that it may be linked to.
-/

namespace BlockEditor

section Answers

variable {ε β : Type}

theorem mem_of_filterAuxM {f : β → Except ε Bool} {l acc l' : List β} {x : β}
    (h : l.filterAuxM f acc = .ok l') (hx : x ∈ l') : x ∈ acc ∨ f x = .ok true := by
  induction l generalizing acc with
  | nil =>
    cases h
    exact Or.inl hx
  | cons y rest ih =>
    obtain ⟨on, hon, h⟩ := bind_eq_ok h
    rcases ih h with hx | hx
    · cases on with
      | false => exact Or.inl hx
      | true =>
        rcases List.mem_cons.mp hx with rfl | hx
        · exact Or.inr hon
        · exact Or.inl hx
    · exact Or.inr hx

/-- A list is filtered by a test that is never refused. -/
theorem filterM_eq_ok {f : β → Except ε Bool} {g : β → Bool} {l : List β}
    (h : ∀ x ∈ l, f x = .ok (g x)) : l.filterM f = .ok (l.filter g) := by
  have aux : ∀ (l acc : List β), (∀ x ∈ l, f x = .ok (g x)) →
      l.filterAuxM f acc = .ok ((l.filter g).reverse ++ acc) := by
    intro l
    induction l with
    | nil => exact fun acc _ => rfl
    | cons x rest ih =>
      intro acc h
      have hrest := fun acc => ih acc fun y hy => h y (List.mem_cons_of_mem x hy)
      rw [List.filterAuxM, h x List.mem_cons_self]
      change rest.filterAuxM f (cond (g x) (x :: acc) acc) = _
      rw [hrest]
      cases hg : g x <;> simp [hg]
  rw [List.filterM, aux l [] h]
  simp [bind, Except.bind, pure, Except.pure]

theorem mem_of_filterM {f : β → Except ε Bool} {l l' : List β} {x : β}
    (h : l.filterM f = .ok l') (hx : x ∈ l') : f x = .ok true := by
  obtain ⟨found, hf, h⟩ := bind_eq_ok h
  cases h
  rcases mem_of_filterAuxM hf (List.mem_reverse.mp hx) with hx | hx
  · cases hx
  · exact hx

end Answers

namespace Workspace

variable {α : Type} {ws : Workspace α} {a b c s p : ConnectionId} {id child : BlockId}

theorem onlyFit_fits (h : ws.onlyFit id p = .ok (some s)) : ws.canConnect p s = .ok true := by
  obtain ⟨fits, hf, h⟩ := bind_eq_ok h
  obtain ⟨b, -, hf⟩ := bind_eq_ok hf
  refine mem_of_filterM hf ?_
  match fits, h with
  | [c], h =>
    cases h
    exact List.mem_singleton_self s

theorem valueHomeWithin_fits {n : Nat} (h : ws.valueHomeWithin p n id = .ok (some s)) :
    ws.canConnect p s = .ok true := by
  induction n generalizing id with
  | zero => cases h
  | succ n ih =>
    obtain ⟨found, hf, h⟩ := bind_eq_ok h
    cases found with
    | none => cases h
    | some c =>
      obtain ⟨below, -, h⟩ := bind_eq_ok h
      cases below with
      | none =>
        cases h
        exact onlyFit_fits hf
      | some x => exact ih h

theorem statementHome_fits (h : ws.statementHome id p = .ok (some s)) :
    ws.canConnect p s = .ok true := by
  obtain ⟨last, -, h⟩ := bind_eq_ok h
  cases last with
  | none => cases h
  | some c =>
    obtain ⟨on, hon, h⟩ := bind_eq_ok h
    cases on with
    | false => cases h
    | true =>
      cases h
      exact hon

theorem orphanHome_fits (h : ws.orphanHome id p = .ok (some s)) :
    ws.canConnect p s = .ok true := by
  obtain ⟨y, -, h⟩ := bind_eq_ok h
  split at h
  · exact valueHomeWithin_fits h
  · exact statementHome_fits h

/-! ### Answers -/

variable {q : ConnectionId} {x y : Connection α} {n : Nat} {blk : Block α}

/-- Whether two ends may be linked. -/
def admits (ws : Workspace α) (q c : ConnectionId) : Bool :=
  match ws.canConnect q c with
  | .ok on => on
  | .error _ => false

theorem canConnect_eq_admits (hx : ws.connections[q]? = some x) (hy : ws.connections[c]? = some y) :
    ws.canConnect q c = .ok (ws.admits q c) := by
  have h : ∃ on, ws.canConnect q c = .ok on := by
    simp [Workspace.canConnect, connection_eq_ok.mpr hx, connection_eq_ok.mpr hy, bind, Except.bind,
      pure, Except.pure]
  obtain ⟨on, h⟩ := h
  simp [admits, h]

theorem canConnect_of_admits (h : ws.admits q c) : ws.canConnect q c = .ok true := by
  unfold admits at h
  split at h
  · next on hon =>
    rw [hon, h]
  · cases h

theorem Furnished.live_across (hf : ws.Furnished) (h : ws.across c = some child) :
    ws.Live child := by
  obtain ⟨d, hd, h⟩ := Option.bind_eq_some_iff.mp h
  obtain ⟨z, hz, hzt⟩ := targetOf_eq_some.mp hd
  obtain ⟨y, hy, rfl⟩ := Option.map_eq_some_iff.mp h
  obtain ⟨y', hy', hlive⟩ := hf.target hz hzt
  rw [hy, Option.some.injEq] at hy'
  exact hy' ▸ hlive

theorem Sound.live_across (hs : ws.Sound) (h : ws.across c = some child) : ws.Live child :=
  hs.furnished.live_across h

/-- The only end of a list that the plug may be linked to. -/
def onlyOf (ws : Workspace α) (q : ConnectionId) (l : List ConnectionId) : Option ConnectionId :=
  match l.filter (ws.admits q) with
  | [c] => some c
  | _ => none

theorem mem_of_onlyOf {l : List ConnectionId} (h : ws.onlyOf q l = some c) : c ∈ l := by
  unfold onlyOf at h
  split at h
  · next d hd =>
    cases h
    have : c ∈ l.filter (ws.admits q) := by
      rw [hd]
      exact List.mem_singleton_self c
    exact (List.mem_filter.mp this).1
  · cases h

namespace Furnished

theorem onlyFit (hf : ws.Furnished) (hb : ws.blocks[id]? = some blk)
    (hq : ws.connections[q]? = some x) :
    ws.onlyFit id q = .ok (ws.onlyOf q (blk.inputs.filterMap (·.connection))) := by
  have hfit : ws.fittingInputs id q =
      .ok ((blk.inputs.filterMap (·.connection)).filter (ws.admits q)) := by
    unfold Workspace.fittingInputs
    rw [block_eq_ok.mpr hb]
    refine filterM_eq_ok fun c hc => ?_
    obtain ⟨i, hi, hic⟩ := List.mem_filterMap.mp hc
    obtain ⟨y, hy, -⟩ := hf.socket hb (mem_sockets.mpr (Or.inl ⟨i, hi, hic⟩))
    exact canConnect_eq_admits hq hy
  unfold Workspace.onlyFit onlyOf
  rw [hfit]
  generalize (blk.inputs.filterMap (·.connection)).filter (ws.admits q) = fits
  rcases fits with - | ⟨c, - | ⟨d, rest⟩⟩ <;> rfl

theorem occupant (hf : ws.Furnished) (hy : ws.connections[c]? = some y) :
    ws.occupant c = .ok ((ws.across c).filter (!ws.isPlaceholder ·)) := by
  unfold Workspace.occupant
  rw [hf.blockAcross hy]
  cases ha : ws.across c with
  | none => rfl
  | some child =>
    obtain ⟨b, hb⟩ := hf.live_across ha
    simp only [bind, Except.bind, block_eq_ok.mpr hb, pure, Except.pure, isPlaceholder, hb,
      Option.any_some, Option.filter]
    cases b.placeholder <;> rfl

/-- The search for a value's home goes on below the only input that fits, if that is taken. -/
theorem valueHomeWithin (hf : ws.Furnished) (hb : ws.blocks[id]? = some blk)
    (hq : ws.connections[q]? = some x) : ws.valueHomeWithin q (n + 1) id =
      match ws.onlyOf q (blk.inputs.filterMap (·.connection)) with
      | none => .ok none
      | some c => match (ws.across c).filter (!ws.isPlaceholder ·) with
        | none => .ok (some c)
        | some below => ws.valueHomeWithin q n below := by
  rw [Workspace.valueHomeWithin, hf.onlyFit hb hq]
  change (match ws.onlyOf q (blk.inputs.filterMap (·.connection)) with
    | none => pure none
    | some socket => do
      match ← ws.occupant socket with
      | none => return some socket
      | some below => ws.valueHomeWithin q n below) = _
  cases ho : ws.onlyOf q (blk.inputs.filterMap (·.connection)) with
  | none => rfl
  | some c =>
    obtain ⟨i, hi, hic⟩ := List.mem_filterMap.mp (mem_of_onlyOf ho)
    obtain ⟨y, hy, -⟩ := hf.socket hb (mem_sockets.mpr (Or.inl ⟨i, hi, hic⟩))
    simp only [hf.occupant hy, bind, Except.bind]
    cases (ws.across c).filter (!ws.isPlaceholder ·) <;> rfl

theorem stackEndWithin (hf : ws.Furnished) (hb : ws.blocks[id]? = some blk) (ignore : Bool) :
    ws.stackEndWithin ignore (n + 1) id =
      match blk.next with
      | none => .ok none
      | some c => match ws.across c with
        | none => .ok (some c)
        | some below => if ignore && ws.isPlaceholder below then .ok (some c)
          else ws.stackEndWithin ignore n below := by
  rw [Workspace.stackEndWithin]
  simp only [block_eq_ok.mpr hb, bind, Except.bind]
  cases hn : blk.next with
  | none => rfl
  | some c =>
    obtain ⟨y, hy, -⟩ := hf.socket hb (mem_sockets.mpr (Or.inr hn))
    simp only [hf.blockAcross hy]
    cases ha : ws.across c with
    | none => rfl
    | some below =>
      obtain ⟨b, hb'⟩ := hf.live_across ha
      simp only [block_eq_ok.mpr hb', isPlaceholder, hb', Option.any_some, pure, Except.pure]

end Furnished

/-! ### What is found -/

/-- A socket below a block that no real block is in. -/
structure Vacant (ws : Workspace α) (id : BlockId) (c : ConnectionId) : Prop where
  socket : ∃ y, ws.connections[c]? = some y ∧ y.kind.isSocket ∧ ws.Branch id y.block
  vacant : ∀ a, ws.across c = some a → ws.isPlaceholder a

theorem Vacant.of_under (h : ws.Vacant child c) (hu : ws.graph.Under child id) :
    ws.Vacant id c := by
  obtain ⟨y, hy, hk, hbranch⟩ := h.socket
  refine ⟨⟨y, hy, hk, ?_⟩, h.vacant⟩
  rcases hbranch with hbranch | hbranch
  · exact Or.inr (hbranch ▸ .single hu)
  · exact Or.inr (hbranch.tail hu)

theorem Furnished.valueHomeWithin_vacant (hf : ws.Furnished) (hq : ws.connections[q]? = some x)
    (hl : ws.Live id) : ∃ found, ws.valueHomeWithin q n id = .ok found ∧
      ∀ c, found = some c → ws.Vacant id c := by
  induction n generalizing id with
  | zero => exact ⟨none, rfl, fun _ h => by cases h⟩
  | succ n ih =>
    obtain ⟨blk, hb⟩ := hl
    rw [hf.valueHomeWithin hb hq]
    cases ho : ws.onlyOf q (blk.inputs.filterMap (·.connection)) with
    | none => exact ⟨none, rfl, fun _ h => by cases h⟩
    | some c =>
      obtain ⟨i, hi, hic⟩ := List.mem_filterMap.mp (mem_of_onlyOf ho)
      have hmem : c ∈ blk.sockets := mem_sockets.mpr (Or.inl ⟨i, hi, hic⟩)
      obtain ⟨y, hy, hyb, hk⟩ := hf.socket hb hmem
      dsimp only
      cases ha : (ws.across c).filter (!ws.isPlaceholder ·) with
      | none =>
        refine ⟨some c, rfl, fun d hd => ?_⟩
        cases hd
        refine ⟨⟨y, hy, hk, Or.inl hyb⟩, fun a ha' => ?_⟩
        rw [ha', Option.filter_eq_none_iff] at ha
        simpa using ha a rfl
      | some below =>
        have hbelow := (Option.filter_eq_some_iff.mp ha).1
        obtain ⟨found, hfound, hvacant⟩ := ih (hf.live_across hbelow)
        refine ⟨found, hfound, fun d hd => (hvacant d hd).of_under ?_⟩
        exact hf.under_of_across hb hmem hbelow

theorem Furnished.stackEndWithin_vacant (hf : ws.Furnished) (hl : ws.Live id) :
    ∃ found, ws.stackEndWithin true n id = .ok found ∧ ∀ c, found = some c → ws.Vacant id c := by
  induction n generalizing id with
  | zero => exact ⟨none, rfl, fun _ h => by cases h⟩
  | succ n ih =>
    obtain ⟨blk, hb⟩ := hl
    rw [hf.stackEndWithin hb]
    cases hn : blk.next with
    | none => exact ⟨none, rfl, fun _ h => by cases h⟩
    | some c =>
      have hmem : c ∈ blk.sockets := mem_sockets.mpr (Or.inr hn)
      obtain ⟨y, hy, hyb, hk⟩ := hf.socket hb hmem
      dsimp only
      cases ha : ws.across c with
      | none =>
        refine ⟨some c, rfl, fun d hd => ?_⟩
        cases hd
        refine ⟨⟨y, hy, hk, Or.inl hyb⟩, fun a ha' => ?_⟩
        rw [ha] at ha'
        cases ha'
      | some below =>
        cases hp : ws.isPlaceholder below with
        | true =>
          refine ⟨some c, by simp [hp], fun d hd => ?_⟩
          cases hd
          refine ⟨⟨y, hy, hk, Or.inl hyb⟩, fun a ha' => ?_⟩
          rw [ha] at ha'
          cases ha'
          exact hp
        | false =>
          obtain ⟨found, hfound, hvacant⟩ := ih (hf.live_across ha)
          refine ⟨found, by simp [hp, hfound], fun d hd => (hvacant d hd).of_under ?_⟩
          exact hf.under_of_across hb hmem ha

/-- A home for an orphan can be looked for below every live block, and is a vacant socket there. -/
theorem Furnished.orphanHome_vacant (hf : ws.Furnished) (hq : ws.connections[q]? = some x)
    (hl : ws.Live id) : ∃ found, ws.orphanHome id q = .ok found ∧
      ∀ c, found = some c → ws.Vacant id c := by
  unfold Workspace.orphanHome
  simp only [connection_eq_ok.mpr hq, bind, Except.bind]
  split
  · exact hf.valueHomeWithin_vacant hq hl
  · unfold Workspace.statementHome Workspace.stackEnd
    obtain ⟨found, hfound, hvacant⟩ := hf.stackEndWithin_vacant (n := ws.walkBound) hl
    simp only [hfound, bind, Except.bind]
    cases found with
    | none => exact ⟨none, rfl, fun _ h => by cases h⟩
    | some c =>
      obtain ⟨y, hy, -⟩ := (hvacant c rfl).socket
      simp only [canConnect_eq_admits hq hy]
      cases ws.admits q c with
      | true => exact ⟨some c, rfl, hvacant⟩
      | false => exact ⟨none, rfl, fun _ h => by cases h⟩

/-! ### Ends that may be linked -/

/-- Of two ends that may be linked one is a socket, and the other is a plug for it. -/
theorem poised_of_canConnect (h : ws.canConnect a b = .ok true) {x y : Connection α}
    (hx : ws.connections[a]? = some x) (hy : ws.connections[b]? = some y) :
    (x.kind.isSocket → ws.graph.Poised a b y.block) ∧
      (x.kind.isPlug → ws.graph.Poised b a x.block) := by
  obtain ⟨x', y', hx', hy', hon⟩ := canConnect_eq_ok h
  rw [hx, Option.some.injEq] at hx'
  rw [hy, Option.some.injEq] at hy'
  subst hx' hy'
  replace hon := hon.symm
  rw [Bool.and_eq_true, Bool.and_eq_true, decide_eq_true_eq, decide_eq_true_eq] at hon
  obtain ⟨⟨hne, hop⟩, hfit⟩ := hon
  constructor
  · intro hk
    exact ⟨_, _, ⟨wire_of_connection hx, wire_of_connection hy, hk, hop.symm, hfit,
      fun h => hne h.symm⟩, rfl⟩
  · intro hk
    refine ⟨_, _, ⟨wire_of_connection hy, wire_of_connection hx, ?_, ?_, ?_, hne⟩, rfl⟩
    · change y.kind.isSocket
      rw [← hop, ConnectionKind.isSocket_opposite]
      exact hk
    · change x.kind = y.kind.opposite
      rw [← hop, ConnectionKind.opposite_opposite]
    · rw [checksFit_comm]
      exact hfit

/-- A plug may be linked to the home that is found for it. -/
theorem poised_of_orphanHome {block : BlockId} (hp : ws.graph.PlugOf p block)
    (hhome : ws.orphanHome id p = .ok (some s)) : ws.graph.Poised s p block := by
  obtain ⟨v, hv, rfl, hk⟩ := hp
  have hfit := orphanHome_fits hhome
  obtain ⟨y, z, hy, hz, -⟩ := canConnect_eq_ok hfit
  obtain rfl := Option.some.inj (hv.symm.trans (wire_of_connection hy))
  exact (poised_of_canConnect hfit hy hz).2 hk

/-- An end that may be linked as the plug of a block is owned by it. -/
theorem block_of_poised {block : BlockId} (h : ws.graph.Poised s p block) {y : Connection α}
    (hy : ws.connections[p]? = some y) : y.block = block := by
  obtain ⟨w, v, hm, rfl⟩ := h
  obtain rfl := Option.some.inj (hm.plug.symm.trans (wire_of_connection hy))
  rfl

/-- A socket and a plug that go together may be linked, in either order. -/
theorem canConnect_of_poised (h : ws.graph.Poised a b child) :
    ws.canConnect a b = .ok true ∧ ws.canConnect b a = .ok true := by
  obtain ⟨w, v, hm, -⟩ := h
  obtain ⟨x, hx, rfl⟩ := connection_of_wire hm.socket
  obtain ⟨y, hy, rfl⟩ := connection_of_wire hm.plug
  have hne : y.block ≠ x.block := hm.apart
  have hop : y.kind = x.kind.opposite := hm.opposite
  have hfit : x.fits y := hm.fits
  have hfit' : y.fits x := by
    unfold Connection.fits
    rw [checksFit_comm]
    exact hfit
  simp only [canConnect, connection_eq_ok.mpr hx, connection_eq_ok.mpr hy, bind, Except.bind, pure,
    Except.pure, hne, hne.symm, hop, hfit, hfit', ConnectionKind.opposite_opposite, ne_eq,
    not_false_eq_true, decide_true, Bool.and_self, and_self]

end Workspace

end BlockEditor
