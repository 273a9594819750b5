import BlockEditor.Proofs.Evolving
import BlockEditor.Proofs.Flags
import BlockEditor.Proofs.Healing
import BlockEditor.Proofs.Regular
import Mathlib.Computability.StateTransition

/-!
# Homes for orphans

The search for a home walks down from socket to socket, from one real block to the next: for a value
by the only input that accepts it, for a statement along the stack. On trees the walk comes to an
end, and what is found there holds no real block. So nothing is pushed out when an orphan moves in.
-/

namespace BlockEditor

open StateTransition (eval mem_eval reaches_eval)

variable {α : Type}

namespace Workspace

variable {ws : Workspace α} {below x y z : BlockId} {b : Block α} {c q s : ConnectionId}
  {o e : Connection α} {n : Nat}

/-! ### Walks -/

/-- Whether two ends are of opposite kinds and accept each other. -/
def accepts (ws : Workspace α) (q c : ConnectionId) : Bool :=
  match ws.connections[q]?, ws.connections[c]? with
  | some o, some e => decide (o.kind.opposite = e.kind) && o.fits e
  | _, _ => false

/-- The input of a block that accepts a plug, if there is exactly one. -/
def soleInput (ws : Workspace α) (q : ConnectionId) (x : BlockId) : Option ConnectionId :=
  (ws.blocks[x]?).bind fun b =>
    match (b.inputs.filterMap (·.connection)).filter (ws.accepts q) with
    | [c] => some c
    | _ => none

/-- The real block in a socket. -/
def tenant (ws : Workspace α) (c : ConnectionId) : Option BlockId :=
  (ws.across c).filter (!ws.isPlaceholder ·)

/-- One step down, to the real block in the socket that is picked. -/
def descend (ws : Workspace α) (pick : BlockId → Option ConnectionId) (x : BlockId) :
    Option BlockId :=
  (pick x).bind ws.tenant

variable {pick : BlockId → Option ConnectionId}

theorem across_of_tenant (h : ws.tenant c = some y) : ws.across c = some y :=
  (Option.filter_eq_some_iff.mp h).1

theorem isPlaceholder_of_across (h : ws.tenant c = none) (ha : ws.across c = some y) :
    ws.isPlaceholder y := by
  rw [tenant, ha, Option.filter_eq_none_iff] at h
  simpa using h y rfl

theorem descend_of_none (h : pick x = none) : ws.descend pick x = none := by
  rw [descend, h, Option.bind_none]

theorem descend_of_some (h : pick x = some c) : ws.descend pick x = ws.tenant c := by
  rw [descend, h, Option.bind_some]

/-- The end of a walk is the only block on it that the walk cannot leave. -/
theorem eq_of_reaches (hy : y ∈ eval (ws.descend pick) x)
    (hz : StateTransition.Reaches (ws.descend pick) x z) (hend : ws.descend pick z = none) : y = z :=
  Part.mem_unique hy (mem_eval.mpr ⟨hz, hend⟩)

/-- Nothing is picked at the end of a walk if and only if the walk comes to a block where nothing is
picked. -/
theorem pick_eq_none_iff (hy : y ∈ eval (ws.descend pick) x) :
    pick y = none ↔ ∃ z, StateTransition.Reaches (ws.descend pick) x z ∧ pick z = none := by
  refine ⟨fun h => ⟨y, (mem_eval.mp hy).1, h⟩, ?_⟩
  rintro ⟨z, hz, h⟩
  rw [eq_of_reaches hy hz (descend_of_none h)]
  exact h

theorem pick_eq_some_iff (hy : y ∈ eval (ws.descend pick) x) :
    pick y = some s ↔ ∃ z, StateTransition.Reaches (ws.descend pick) x z ∧ pick z = some s ∧
      ws.tenant s = none := by
  obtain ⟨hreach, hend⟩ := mem_eval.mp hy
  constructor
  · intro h
    rw [descend_of_some h] at hend
    exact ⟨y, hreach, h, hend⟩
  · rintro ⟨z, hz, h, hfree⟩
    rw [eq_of_reaches hy hz ((descend_of_some h).trans hfree)]
    exact h

/-- What is picked for a block is a socket of the block. -/
def PicksSockets (ws : Workspace α) (pick : BlockId → Option ConnectionId) : Prop :=
  ∀ x c, pick x = some c → ∃ b, ws.blocks[x]? = some b ∧ c ∈ b.sockets

theorem picksSockets_nextOf (ws : Workspace α) : ws.PicksSockets ws.nextOf := by
  intro x c h
  obtain ⟨b, hb, hn⟩ := nextOf_eq_some.mp h
  exact ⟨b, hb, mem_sockets.mpr (Or.inr hn)⟩

theorem picksSockets_soleInput (ws : Workspace α) (q : ConnectionId) :
    ws.PicksSockets (ws.soleInput q) := by
  intro x c h
  obtain ⟨b, hb, h⟩ := Option.bind_eq_some_iff.mp h
  split at h
  · next d hd =>
    cases h
    have hmem : c ∈ (b.inputs.filterMap (·.connection)).filter (ws.accepts q) := by
      rw [hd]
      exact List.mem_singleton_self c
    obtain ⟨i, hi, hic⟩ := List.mem_filterMap.mp (List.mem_filter.mp hmem).1
    exact ⟨b, hb, mem_sockets.mpr (Or.inl ⟨i, hi, hic⟩)⟩
  · cases h

namespace Furnished

theorem under_of_descend (hf : ws.Furnished) (hpick : ws.PicksSockets pick)
    (h : ws.descend pick x = some y) : ws.graph.Under y x ∧ ws.Live y := by
  obtain ⟨c, hc, htenant⟩ := Option.bind_eq_some_iff.mp h
  obtain ⟨b, hb, hmem⟩ := hpick x c hc
  have ha := across_of_tenant htenant
  exact ⟨hf.under_of_across hb hmem ha, hf.live_across ha⟩

/-- A search that goes down step by step answers with what is picked at the end of the walk. -/
theorem walk (hf : ws.Furnished) (hpick : ws.PicksSockets pick)
    {f : Nat → BlockId → Answer α (Option ConnectionId)}
    (hstep : ∀ n y, ws.Live y → ws.Branch below y → f (n + 1) y =
      match pick y with
      | none => .ok none
      | some c => match ws.tenant c with
        | none => .ok (some c)
        | some z => f n z)
    (hn : ws.graph.Shallow n x) (hl : ws.Live x) (hx : ws.Branch below x) :
    ∃ y ∈ eval (ws.descend pick) x, ws.Branch below y ∧ f n x = .ok (pick y) := by
  -- by the height of the tree below, which the bound on the steps exceeds
  induction n generalizing x with
  | zero => exact hn.elim
  | succ n ih =>
    rw [hstep n x hl hx]
    cases hp : pick x with
    | none => exact ⟨x, mem_eval.mpr ⟨.refl, descend_of_none hp⟩, hx, by rw [hp]⟩
    | some c =>
      dsimp only
      cases ht : ws.tenant c with
      | none =>
        exact ⟨x, mem_eval.mpr ⟨.refl, (descend_of_some hp).trans ht⟩, hx, by rw [hp]⟩
      | some z =>
        have hdown : ws.descend pick x = some z := (descend_of_some hp).trans ht
        obtain ⟨hu, hlz⟩ := hf.under_of_descend hpick hdown
        obtain ⟨y, hy, hby, hfy⟩ := ih (hn z hu) hlz (branch_of_under hu hx)
        rw [reaches_eval (.single hdown)]
        exact ⟨y, hy, hby, hfy⟩

/-- What is picked at the end of a walk holds no real block. -/
theorem vacant_of_walk (hf : ws.Furnished) (hpick : ws.PicksSockets pick)
    (hy : y ∈ eval (ws.descend pick) x) (hbranch : ws.Branch below y) (hs : pick y = some s) :
    ws.Vacant below s := by
  obtain ⟨b, hb, hmem⟩ := hpick y s hs
  obtain ⟨e, he, hey, hk⟩ := hf.socket hb hmem
  have hend := (mem_eval.mp hy).2
  rw [descend_of_some hs] at hend
  exact ⟨⟨e, he, hk, hey ▸ hbranch⟩, fun a ha => isPlaceholder_of_across hend ha⟩

end Furnished

/-! ### The two searches -/

theorem canConnect_eq_accepts (hq : ws.connections[q]? = some o) (hc : ws.connections[c]? = some e)
    (hne : o.block ≠ e.block) : ws.canConnect q c = .ok (ws.accepts q c) := by
  simp [canConnect, accepts, connection_eq_ok.mpr hq, connection_eq_ok.mpr hc, hq, hc, hne, bind,
    Except.bind, pure, Except.pure]

/-- The inputs of another block that a plug may be linked to are those that accept it. -/
theorem Furnished.onlyOf_eq_soleInput (hf : ws.Furnished) (hq : ws.connections[q]? = some o)
    (hb : ws.blocks[x]? = some b) (hne : o.block ≠ x) :
    ws.onlyOf q (b.inputs.filterMap (·.connection)) = ws.soleInput q x := by
  have hsame : (b.inputs.filterMap (·.connection)).filter (ws.admits q) =
      (b.inputs.filterMap (·.connection)).filter (ws.accepts q) := by
    refine List.filter_congr fun c hc => ?_
    obtain ⟨i, hi, hic⟩ := List.mem_filterMap.mp hc
    obtain ⟨e, he, hex, -⟩ := hf.socket hb (mem_sockets.mpr (Or.inl ⟨i, hi, hic⟩))
    rw [admits, canConnect_eq_accepts hq he (hex ▸ hne)]
  have hsole : ws.soleInput q x =
      match (b.inputs.filterMap (·.connection)).filter (ws.accepts q) with
      | [c] => some c
      | _ => none := by
    rw [soleInput, hb, Option.bind_some]
  rw [hsole, ← hsame]
  rfl

namespace Coherent

theorem shallow (h : ws.Coherent) (hacyclic : ws.graph.Acyclic) (x : BlockId) :
    ws.graph.Shallow ws.walkBound x := by
  have hlive : ∀ a b, ws.graph.Under a b → a ∈ ws.blockIds := by
    rintro a _ ⟨s, p, w, v, hl, rfl, rfl⟩
    obtain ⟨e, he, rfl⟩ := connection_of_wire hl.plug
    obtain ⟨b, hb, -⟩ := h.owned p e he
    exact mem_blockIds.mpr ⟨b, hb⟩
  have hshallow := hacyclic.shallow hlive x
  rwa [length_blockIds] at hshallow

/-- The search for a value's home ends where the walk by the only inputs that accept it does. -/
theorem valueHome_walk (h : ws.Coherent) (hacyclic : ws.graph.Acyclic) (hl : ws.Live below)
    (hq : ws.connections[q]? = some o) (hout : ¬ ws.Branch below o.block) :
    ∃ y ∈ eval (ws.descend (ws.soleInput q)) below, ws.Branch below y ∧
      ws.valueHome below q = .ok (ws.soleInput q y) := by
  refine h.furnished.walk (ws.picksSockets_soleInput q) ?_ (h.shallow hacyclic below) hl
    (branch_self ws below)
  rintro n y ⟨b, hb⟩ hy
  have hne : o.block ≠ y := fun heq => hout (heq ▸ hy)
  rw [h.furnished.valueHomeWithin hb hq, h.furnished.onlyOf_eq_soleInput hq hb hne]
  rfl

/-- The end of a stack, past which there is no real block, is where the walk along it ends. -/
theorem stackEnd_walk (h : ws.Coherent) (hacyclic : ws.graph.Acyclic) (hl : ws.Live below) :
    ∃ y ∈ eval (ws.descend ws.nextOf) below, ws.Branch below y ∧
      ws.stackEnd below true = .ok (ws.nextOf y) := by
  refine h.furnished.walk ws.picksSockets_nextOf ?_ (h.shallow hacyclic below) hl
    (branch_self ws below)
  rintro n y ⟨b, hb⟩ -
  have hnext : ws.nextOf y = b.next := by rw [nextOf, hb, Option.bind_some]
  rw [h.furnished.stackEndWithin hb, hnext]
  cases b.next with
  | none => rfl
  | some c =>
    dsimp only
    rw [tenant]
    cases ws.across c with
    | none => rfl
    | some z => cases hz : ws.isPlaceholder z <;> simp [hz, Option.filter]

end Coherent

/-! ### Homes -/

/-- What the search below a block comes to for the plug `q` of another block, which is `o`. -/
structure Home (ws : Workspace α) (below : BlockId) (q : ConnectionId) (o : Connection α)
    (found : Option ConnectionId) : Prop where
  vacant : ∀ s, found = some s → ws.Vacant below s ∧ ws.canConnect q s = .ok true
  /-- A value goes by the only inputs that accept it to the first that no real block is in. -/
  value : o.kind = .outputValue → ∀ s, found = some s ↔
    ∃ y, StateTransition.Reaches (ws.descend (ws.soleInput q)) below y ∧ ws.soleInput q y = some s ∧
      ws.tenant s = none
  /-- It is not taken in if and only if it comes to a block with no or several inputs for it. -/
  stray : o.kind = .outputValue → (found = none ↔
    ∃ y, StateTransition.Reaches (ws.descend (ws.soleInput q)) below y ∧ ws.soleInput q y = none)
  /-- A statement goes to the end of the stack, as far as real blocks follow each other. -/
  statement : o.kind = .previousStatement → ∃ y ∈ eval (ws.descend ws.nextOf) below,
    (∀ s, found = some s ↔ ws.nextOf y = some s ∧ ws.accepts q s) ∧
      (found = none ↔ ws.nextOf y = none ∨ ∃ s, ws.nextOf y = some s ∧ ¬ ws.accepts q s)

namespace Coherent

theorem valueHome_home (h : ws.Coherent) (hacyclic : ws.graph.Acyclic) (hl : ws.Live below)
    (hq : ws.connections[q]? = some o) (hk : o.kind = .outputValue)
    (hout : ¬ ws.Branch below o.block) :
    ∃ found, ws.orphanHome below q = .ok found ∧ ws.Home below q o found := by
  obtain ⟨y, hy, hbranch, hfound⟩ := h.valueHome_walk hacyclic hl hq hout
  have hhome : ws.orphanHome below q = .ok (ws.soleInput q y) := by
    unfold Workspace.orphanHome
    simp only [connection_eq_ok.mpr hq, hk, bind, Except.bind, if_true]
    exact hfound
  refine ⟨_, hhome, fun s hs => ⟨?_, orphanHome_fits (hs ▸ hhome)⟩, fun _ s => pick_eq_some_iff hy,
    fun _ => pick_eq_none_iff hy, fun hk' => ?_⟩
  · exact h.furnished.vacant_of_walk (ws.picksSockets_soleInput q) hy hbranch hs
  · rw [hk] at hk'
    cases hk'

theorem statementHome_home (h : ws.Coherent) (hacyclic : ws.graph.Acyclic) (hl : ws.Live below)
    (hq : ws.connections[q]? = some o) (hk : o.kind = .previousStatement)
    (hout : ¬ ws.Branch below o.block) :
    ∃ found, ws.orphanHome below q = .ok found ∧ ws.Home below q o found := by
  obtain ⟨y, hy, hbranch, hend⟩ := h.stackEnd_walk hacyclic hl
  have hhome : ws.orphanHome below q = .ok ((ws.nextOf y).filter (ws.accepts q)) := by
    unfold Workspace.orphanHome Workspace.statementHome
    simp only [connection_eq_ok.mpr hq, hk, hend, bind, Except.bind]
    cases hn : ws.nextOf y with
    | none => rfl
    | some c =>
      obtain ⟨b, hb, hmem⟩ := ws.picksSockets_nextOf y c hn
      obtain ⟨e, he, hey, -⟩ := h.furnished.socket hb hmem
      have hne : o.block ≠ e.block := fun heq => hout (heq ▸ hey ▸ hbranch)
      simp only [canConnect_eq_accepts hq he hne, Option.filter]
      cases ws.accepts q c <;> rfl
  refine ⟨_, hhome, fun s hs => ⟨?_, orphanHome_fits (hs ▸ hhome)⟩, fun hk' => ?_, fun hk' => ?_,
    fun _ => ⟨y, hy, fun s => Option.filter_eq_some_iff, ?_⟩⟩
  · exact h.furnished.vacant_of_walk ws.picksSockets_nextOf hy hbranch
      (Option.filter_eq_some_iff.mp hs).1
  · rw [hk] at hk'
    cases hk'
  · rw [hk] at hk'
    cases hk'
  · cases ws.nextOf y <;> simp

end Coherent

end Workspace

/-! ### Moving in -/

namespace Edit

open Workspace

variable {ws t : Workspace α} {below : BlockId} {q s : ConnectionId} {o y : Connection α}
  {orphan : Option Orphan}

/-- The blocks are what they were. -/
def SameBlocks (ws ws' : Workspace α) : Prop :=
  ws'.blocks = ws.blocks

instance : IsPreorder (Workspace α) SameBlocks where
  refl _ := rfl
  trans _ _ _ h h' := h'.trans h

theorem updateConnection_blocks (c : ConnectionId) (f : Connection α → Connection α) :
    Along SameBlocks (updateConnection c f) :=
  .bind inferInstance fun _ => .modify fun _ => rfl

theorem unlink_blocks (c : ConnectionId) : Along SameBlocks (unlink c : Edit α Unit) := by
  refine .bind inferInstance fun link => ?_
  cases link with
  | none => exact inferInstanceAs (Along SameBlocks (pure ()))
  | some l =>
    refine .bind inferInstance fun _ => ?_
    refine .bind (updateConnection_blocks _ _) fun _ => ?_
    refine .bind (updateConnection_blocks _ _) fun _ => ?_
    exact .bind (.modify fun _ => rfl) fun _ => .modify fun _ => rfl

/-- No block is pushed out of a socket that holds no real one. -/
theorem evict_vacant (hf : ws.Furnished) (hy : ws.connections[s]? = some y)
    (hv : ∀ a, ws.across s = some a → ws.isPlaceholder a) (h : evict s ws = .ok orphan t) :
    orphan = none := by
  unfold evict at h
  rw [bind_eq (query_eq (connection_eq_ok.mpr hy))] at h
  cases ht : y.target with
  | none =>
    simp only [ht] at h
    cases h
    rfl
  | some p =>
    obtain ⟨z, hz, -⟩ := hf.target hy ht
    simp only [ht] at h
    rw [bind_eq (query_eq (connection_eq_ok.mpr hz))] at h
    obtain ⟨_, u, hunlink, hrest⟩ := bind_ok h
    obtain ⟨b, v, hask, hafter⟩ := bind_ok hrest
    obtain ⟨rfl, hb⟩ := query_ok hask
    -- the occupant is asked for once the link is cut, which leaves it what it was
    have hblocks : v.blocks = ws.blocks := (unlink_blocks s).ok hunlink
    have hmark : b.placeholder := by
      have hacross : ws.across s = some z.block := by simp [across, targetOf_eq hy, ht, hz]
      rw [block_eq_ok, hblocks] at hb
      have hheld := hv z.block hacross
      rwa [isPlaceholder, hb, Option.any_some] at hheld
    rw [if_pos hmark] at hafter
    obtain ⟨template, _, -, hafter⟩ := bind_ok hafter
    obtain ⟨_, _, -, hafter⟩ := bind_ok hafter
    obtain ⟨_, _, -, hafter⟩ := bind_ok hafter
    cases hafter
    rfl

variable [Scalar α]

/-- Link two ends. What becomes of a block that is pushed out is left open. -/
def connectThen (rehome : BlockId → Orphan → Edit α Unit) (a b : ConnectionId) : Edit α Unit := do
  if ← query (·.canConnect a b) then
    let (socket, plug) := if (← query (·.connection a)).kind.isSocket then (a, b) else (b, a)
    if (← query (·.connection socket)).target = some plug then return ()
    let child := (← query (·.connection plug)).block
    (← plugIn socket plug child).forM (rehome child)
  else
    throw (.incompatibleConnection a b)

theorem connect_eq_connectThen : (connect : _ → _ → Edit α Unit) = connectThen resettle :=
  rfl

/-- A free plug goes into a socket that holds no real block, and nothing is pushed out. -/
theorem plugIn_pushes_nothing (hf : ws.Furnished) (hq : ws.connections[q]? = some o)
    (hidle : o.target = none) (hy : ws.connections[s]? = some y)
    (hv : ∀ a, ws.across s = some a → ws.isPlaceholder a) {child : BlockId}
    (h : plugIn s q child ws = .ok orphan t) : orphan = none := by
  rw [plugIn_eq_seat, bind_eq (disconnect_eq_self (link?_of_idle hq hidle))] at h
  obtain ⟨found, u, hevict, h⟩ := bind_ok h
  obtain ⟨_, _, -, h⟩ := bind_ok h
  cases h
  exact evict_vacant hf hy hv hevict

theorem connectThen_eq (rehome : BlockId → Orphan → Edit α Unit)
    (hfits : ws.canConnect s q = .ok true) (hy : ws.connections[s]? = some y)
    (hs : y.kind.isSocket) (hnew : y.target ≠ some q) (hq : ws.connections[q]? = some o) :
    connectThen rehome s q ws =
      (plugIn s q o.block >>= fun orphan => orphan.forM (rehome o.block) : Edit α Unit) ws := by
  unfold connectThen
  rw [bind_eq (query_eq hfits), if_pos rfl, bind_eq (query_eq (connection_eq_ok.mpr hy)), if_pos hs]
  dsimp only
  rw [bind_eq (query_eq (connection_eq_ok.mpr hy)), if_neg hnew,
    bind_eq (query_eq (connection_eq_ok.mpr hq))]

theorem resettle_eq (hhome : ws.orphanHome below q = .ok (some s)) (x : BlockId) :
    resettle below ⟨x, q⟩ ws = (plugIn s q x >>= fun _ => pure () : Edit α Unit) ws := by
  unfold resettle
  rw [bind_eq (query_eq hhome)]

/-- To link an orphan to its home pushes out no further block, so that it is all the same what would
become of one. -/
theorem connectThen_home (rehome : BlockId → Orphan → Edit α Unit) (h : ws.Coherent)
    (hq : ws.connections[q]? = some o) (hk : o.kind.isPlug) (hidle : o.target = none)
    (hhome : ws.orphanHome below q = .ok (some s)) (hv : ws.Vacant below s) :
    connectThen rehome s q ws = resettle below ⟨o.block, q⟩ ws := by
  obtain ⟨y, hy, hs, -⟩ := hv.socket
  have hpoised := (poised_of_canConnect (orphanHome_fits hhome) hq hy).2 hk
  have hnew : y.target ≠ some q := by
    intro ht
    obtain ⟨o', ho', hback, -⟩ := h.linked s q y hy ht
    rw [hq, Option.some.injEq] at ho'
    rw [← ho', hidle] at hback
    cases hback
  rw [connectThen_eq rehome (canConnect_of_poised hpoised).1 hy hs hnew hq, resettle_eq hhome]
  cases hplug : plugIn s q o.block ws with
  | ok orphan t =>
    obtain rfl := plugIn_pushes_nothing h.furnished hq hidle hy hv.vacant hplug
    rw [bind_eq hplug, bind_eq hplug]
    rfl
  | error e t => rw [bind_error hplug, bind_error hplug]

end Edit

namespace Workspace

variable {ws : Workspace α} {below : BlockId} {q : ConnectionId} {o : Connection α}

/-- In a coherent workspace with no block below itself, the search below a block for a plug of a
block that is not there comes to an end, and to what `Home` says. An orphan that is then linked to
what was found pushes nothing out that would have to be settled in turn. -/
theorem Coherent.orphanHome_settles [Scalar α] (h : ws.Coherent) (hacyclic : ws.graph.Acyclic)
    (hl : ws.Live below) (hq : ws.connections[q]? = some o) (hk : o.kind.isPlug)
    (hout : ¬ ws.Branch below o.block) :
    ∃ found, ws.orphanHome below q = .ok found ∧ ws.Home below q o found ∧
      (o.target = none → ∀ s, found = some s → ∀ rehome : BlockId → Edit.Orphan → Edit α Unit,
        Edit.connectThen rehome s q ws = Edit.resettle below ⟨o.block, q⟩ ws) := by
  obtain ⟨found, hfound, hhome⟩ : ∃ found, ws.orphanHome below q = .ok found ∧
      ws.Home below q o found := by
    cases hkind : o.kind with
    | outputValue => exact h.valueHome_home hacyclic hl hq hkind hout
    | previousStatement => exact h.statementHome_home hacyclic hl hq hkind hout
    | inputValue =>
      rw [hkind] at hk
      cases hk
    | nextStatement =>
      rw [hkind] at hk
      cases hk
  refine ⟨found, hfound, hhome, fun hidle s hs rehome => ?_⟩
  exact Edit.connectThen_home rehome h hq hk hidle (hs ▸ hfound) (hhome.vacant s hs).1

theorem connection_of_map {c : ConnectionId} {x : BlockId} {k : ConnectionKind}
    {target : Option ConnectionId}
    (h : (ws.connections[c]?).map (fun o => (o.block, o.kind, o.target)) = some (x, k, target)) :
    ∃ o, ws.connections[c]? = some o ∧ o.block = x ∧ o.kind = k ∧ o.target = target := by
  obtain ⟨o, ho, h⟩ := Option.map_eq_some_iff.mp h
  exact ⟨o, ho, by simpa using h⟩

/-- A top block is below no other. -/
theorem Topped.not_branch {x : BlockId} (h : ws.Topped) (hs : ws.Sound) (hx : x ∈ ws.top)
    (hne : x ≠ below) : ¬ ws.Branch below x := by
  rintro (heq | hbelow)
  · exact hne heq
  · exact ((h.mem x).mp hx).2.not_below hs.wired hbelow

end Workspace

namespace Editor

open Workspace

/-- A number is looked for a place in two values that are one in the other. -/
theorem orphanHome_settles_number :
    let ws := ((fresh (.standard : EditorConfig Int) Palette.registry).run [.newBlock "dict_unpack",
      .newBlock "dict_unpack", .connect ⟨1⟩ ⟨2⟩, .newBlock "int"]).workspace
    (ws.orphanHome ⟨0⟩ ⟨4⟩).toOption = some (some ⟨3⟩) ∧ ws.Vacant ⟨0⟩ ⟨3⟩ ∧
      (∃ y, StateTransition.Reaches (ws.descend (ws.soleInput ⟨4⟩)) ⟨0⟩ y ∧
        ws.soleInput ⟨4⟩ y = some ⟨3⟩ ∧ ws.tenant ⟨3⟩ = none) ∧
      ∀ rehome : BlockId → Edit.Orphan → Edit Int Unit,
        Edit.connectThen rehome ⟨3⟩ ⟨4⟩ ws = Edit.resettle ⟨0⟩ ⟨⟨2⟩, ⟨4⟩⟩ ws := by
  intro ws
  have hanswer : (ws.orphanHome ⟨0⟩ ⟨4⟩).toOption = some (some ⟨3⟩) := by decide +kernel
  have hsound : ws.Sound ∧ ws.Topped := run_sound Palette.registry_onePlug
    (create_fresh (by decide)) (by decide +kernel) (staysAcyclic_of_ordered (by decide +kernel))
  obtain ⟨o, hq, hblock, hkind, hidle⟩ : ∃ o, ws.connections[(⟨4⟩ : ConnectionId)]? = some o ∧
      o.block = ⟨2⟩ ∧ o.kind = .outputValue ∧ o.target = none :=
    connection_of_map (by decide +kernel)
  have hout : ¬ ws.Branch ⟨0⟩ o.block :=
    hblock ▸ hsound.2.not_branch hsound.1 (by decide +kernel) (by decide)
  obtain ⟨found, hfound, hhome, hsettles⟩ := (hsound.1.coherent hsound.2).orphanHome_settles
    (acyclic_of_ordered (by decide +kernel)) (hasBlock_iff.mp (by decide +kernel)) hq
    (by rw [hkind]; rfl) hout
  have hsome : found = some ⟨3⟩ := by
    rw [hfound, Except.toOption, Option.some.injEq] at hanswer
    exact hanswer
  refine ⟨hanswer, (hhome.vacant _ hsome).1, (hhome.value hkind _).mp hsome, fun rehome => ?_⟩
  rw [hsettles hidle _ hsome rehome, hblock]

/-- A statement comes to the placeholder that it meets first, even if the stack goes on with a real
block that hangs on the placeholder and has room below. -/
theorem orphanHome_stops_short :
    let ws := ((fresh (.standard : EditorConfig Int) Palette.registry).run [.newBlock "Assign",
      .setTemplate ⟨1⟩ (some (.ofType "Assign")), .newBlock "Assign", .connect ⟨4⟩ ⟨6⟩,
      .newBlock "Assign"]).workspace
    ws.Coherent ∧ ws.graph.Acyclic ∧ ws.Live ⟨0⟩ ∧
      (∃ o, ws.connections[(⟨9⟩ : ConnectionId)]? = some o ∧ o.kind = .previousStatement ∧
        o.target = none ∧ ¬ ws.Branch ⟨0⟩ o.block) ∧
      ws.Column (some ⟨0⟩) [⟨0⟩, ⟨1⟩, ⟨2⟩] ∧ ws.isPlaceholder ⟨2⟩ = false ∧
      ws.nextOf ⟨2⟩ = some ⟨7⟩ ∧ ws.accepts ⟨9⟩ ⟨7⟩ ∧
      (ws.orphanHome ⟨0⟩ ⟨9⟩).toOption = some (some ⟨1⟩) := by
  intro ws
  have hsound : ws.Sound ∧ ws.Topped := run_sound Palette.registry_onePlug
    (create_fresh (by decide)) (by decide +kernel) (staysAcyclic_of_ordered (by decide +kernel))
  obtain ⟨o, hq, hblock, hkind, hidle⟩ : ∃ o, ws.connections[(⟨9⟩ : ConnectionId)]? = some o ∧
      o.block = ⟨3⟩ ∧ o.kind = .previousStatement ∧ o.target = none :=
    connection_of_map (by decide +kernel)
  have hout : ¬ ws.Branch ⟨0⟩ o.block :=
    hblock ▸ hsound.2.not_branch hsound.1 (by decide +kernel) (by decide)
  obtain ⟨hfirst, hsecond, hlast⟩ : ws.beneath ⟨0⟩ = some ⟨1⟩ ∧ ws.beneath ⟨1⟩ = some ⟨2⟩ ∧
      ws.beneath ⟨2⟩ = none := by decide +kernel
  have hcolumn : ws.Column (some ⟨0⟩) [⟨0⟩, ⟨1⟩, ⟨2⟩] :=
    .cons (hfirst ▸ .cons (hsecond ▸ .cons (hlast ▸ .nil)))
  exact ⟨hsound.1.coherent hsound.2, acyclic_of_ordered (by decide +kernel),
    hasBlock_iff.mp (by decide +kernel), ⟨o, hq, hkind, hidle, hout⟩, hcolumn, by decide +kernel⟩

end Editor

end BlockEditor
