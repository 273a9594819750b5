import BlockEditor.Proofs.Starting
import BlockEditor.Proofs.StandIns
import BlockEditor.Proofs.Workspace.Frames

/-!
# Stacks that close up

A statement may be taken out of a stack so that the statement below it takes its place. It does so
if the socket above has no template. If it has one, then the placeholder that is built for the
socket is there first, and the stack falls apart.
-/

namespace BlockEditor

open Workspace

variable {α : Type}

namespace Workspace

variable {ws ws' t t' u v : Workspace α} {x y below : BlockId} {c s p n q : ConnectionId}
  {b : Block α} {l : List BlockId} {o : Option BlockId}

/-! ### Stacks -/

/-- The next connection of a block, if it has one. -/
def nextOf (ws : Workspace α) (x : BlockId) : Option ConnectionId :=
  (ws.blocks[x]?).bind (·.next)

/-- The block at the next connection of a block. -/
def beneath (ws : Workspace α) (x : BlockId) : Option BlockId :=
  (ws.nextOf x).bind ws.across

/-- A stack from some block on down, as the list of its blocks. -/
inductive Column (ws : Workspace α) : Option BlockId → List BlockId → Prop
  | nil : Column ws none []
  | cons {x : BlockId} {l : List BlockId} : Column ws (ws.beneath x) l → Column ws (some x) (x :: l)

theorem nextOf_eq_some : ws.nextOf x = some n ↔ ∃ b, ws.blocks[x]? = some b ∧ b.next = some n :=
  Option.bind_eq_some_iff

/-- A next connection is a socket of its block. -/
theorem Sound.nextOf (hs : ws.Sound) (h : ws.nextOf x = some n) :
    ∃ z, ws.connections[n]? = some z ∧ z.block = x ∧ z.kind.isSocket := by
  obtain ⟨b, hb, hn⟩ := nextOf_eq_some.mp h
  exact hs.socket hb (mem_sockets.mpr (Or.inr hn))

theorem Sound.under_of_beneath (hs : ws.Sound) (h : ws.beneath x = some y) :
    ws.graph.Under y x := by
  obtain ⟨n, hnext, hacross⟩ := Option.bind_eq_some_iff.mp h
  obtain ⟨b, hb, hn⟩ := nextOf_eq_some.mp hnext
  exact hs.under_of_across hb (mem_sockets.mpr (Or.inr hn)) hacross

/-- A stack ends, since no block hangs below itself. -/
theorem Sound.column (hs : ws.Sound) {k : Nat} (hk : ws.graph.Shallow k x) :
    ∃ l, ws.Column (some x) l := by
  induction k generalizing x with
  | zero => exact hk.elim
  | succ k ih =>
    cases hbelow : ws.beneath x with
    | none => exact ⟨[x], .cons (hbelow ▸ .nil)⟩
    | some y =>
      obtain ⟨l, hl⟩ := ih (hk y (hs.under_of_beneath hbelow))
      exact ⟨x :: l, .cons (hbelow ▸ hl)⟩

theorem nextOf_of_looks
    (h : ∀ y : BlockId, (t.blocks[y]?).map Block.looks = (ws.blocks[y]?).map Block.looks) :
    t.nextOf = ws.nextOf := by
  funext y
  have hy := congrArg (Option.bind · fun b : Block Unit => b.next) (h y)
  rw [Option.bind_map, Option.bind_map] at hy
  exact hy

theorem isPlaceholder_of_looks
    (h : (t.blocks[x]?).map Block.looks = (ws.blocks[x]?).map Block.looks) :
    t.isPlaceholder x = ws.isPlaceholder x := by
  have hx := congrArg (Option.any fun b : Block Unit => b.placeholder) h
  rw [Option.any_map, Option.any_map] at hx
  exact hx

theorem beneath_congr (hg : t.graph = ws.graph) (hn : t.nextOf = ws.nextOf) :
    t.beneath = ws.beneath := by
  funext y
  rw [beneath, beneath, hn, show t.across = ws.across from funext (across_congr hg)]

theorem Column.congr (h : ws.Column o l) (hb : t.beneath = ws.beneath) : t.Column o l := by
  induction h with
  | nil => exact .nil
  | cons _ ih => exact .cons (hb ▸ ih)

/-- Whether a connection has no template is seen from it alone. -/
theorem templateAt_of_any {w : Workspace α}
    (h : (w.connections[c]?).any fun y => y.template.isNone) : w.templateAt c = some none := by
  obtain ⟨y, hy, hnone⟩ := (Option.any_eq_true _ _).mp h
  rw [templateAt, hy, Option.map_some, Option.isNone_iff_eq_none.mp hnone]

/-! ### A statement between two others -/

/-- The statement `x` is in the socket `s` with its plug `p`, and at its next connection `n` the
real block `below` hangs by a plug `q` that would fit the socket as well. -/
structure Amid (ws : Workspace α) (s p : ConnectionId) (x : BlockId) (n q : ConnectionId)
    (below : BlockId) : Prop where
  block : ∃ b, ws.blocks[x]? = some b ∧ b.previous = some p ∧ b.next = some n
  above : ws.targetOf p = some s
  next : ws.targetOf n = some q
  owner : ws.ownerOf q = some below
  real : ws.isPlaceholder below = false
  fits : ws.canConnect s q = .ok true

namespace Amid

theorem upper (h : ws.Amid s p x n q below) (hs : ws.Sound) :
    ∃ w v, ws.graph.Link s p w v ∧ v.block = x := by
  obtain ⟨b, hb, hp, -⟩ := h.block
  obtain ⟨y, hy, hyx, hk⟩ := hs.plug hb (mem_plugs.mpr (Or.inr hp))
  have ht := h.above
  rw [targetOf_eq hy] at ht
  obtain ⟨w, hl⟩ := Graph.link_of_plug hs.wired (wire_of_connection hy) hk ht
  exact ⟨w, _, hl, hyx⟩

theorem lower (h : ws.Amid s p x n q below) (hs : ws.Sound) :
    ∃ w v, ws.graph.Link n q w v ∧ w.block = x ∧ v.block = below := by
  obtain ⟨b, hb, -, hn⟩ := h.block
  obtain ⟨y, hy, hyx, hk⟩ := hs.socket hb (mem_sockets.mpr (Or.inr hn))
  have ht := h.next
  rw [targetOf_eq hy] at ht
  obtain ⟨v, hl⟩ := Graph.link_of_socket hs.wired (wire_of_connection hy) hk ht
  obtain ⟨z, hz, hzv⟩ := connection_of_wire hl.plug
  refine ⟨_, v, hl, hyx, ?_⟩
  obtain ⟨z', hz', hbelow⟩ := ownerOf_eq_some.mp h.owner
  rw [hz, Option.some.injEq] at hz'
  rw [← hbelow, ← hz', ← hzv]
  rfl

theorem nextOf (h : ws.Amid s p x n q below) : ws.nextOf x = some n := by
  obtain ⟨b, hb, -, hn⟩ := h.block
  exact nextOf_eq_some.mpr ⟨b, hb, hn⟩

theorem beneath (h : ws.Amid s p x n q below) : ws.beneath x = some below := by
  rw [Workspace.beneath, h.nextOf, Option.bind_some, across_eq, h.next, Option.bind_some, h.owner]

/-- A statement gives no value. -/
theorem output (h : ws.Amid s p x n q below) (hs : ws.Sound) (hb : ws.blocks[x]? = some b) :
    b.output = none := by
  obtain ⟨b', hb', hp, -⟩ := h.block
  rw [hb, Option.some.injEq] at hb'
  subst hb'
  cases ho : b.output with
  | none => rfl
  | some o =>
    have hvalue : (o, some ConnectionKind.outputValue) ∈ b.roles :=
      mem_roles.mpr (Or.inl ⟨ho, rfl⟩)
    have hstatement : (p, some ConnectionKind.previousStatement) ∈ b.roles :=
      mem_roles.mpr (Or.inr (Or.inl ⟨hp, rfl⟩))
    obtain ⟨y, hy, hyx, hyk⟩ := hs.listed hb hvalue
    obtain ⟨z, hz, hzx, hzk⟩ := hs.listed hb hstatement
    rw [Option.some.injEq] at hyk hzk
    have hsame := hs.wired.onePlug (wire_of_connection hy) (wire_of_connection hz)
      (hyx.trans hzx.symm) (by rw [show y.wire.kind = _ from hyk]; rfl)
      (by rw [show z.wire.kind = _ from hzk]; rfl)
    rw [show o = p from hsame, hz, Option.some.injEq] at hy
    rw [← hy, hzk] at hyk
    cases hyk

theorem poised (h : ws.Amid s p x n q below) (hs : ws.Sound) : ws.graph.Poised s q below := by
  obtain ⟨w, v, hl, -⟩ := h.upper hs
  obtain ⟨y, hy, rfl⟩ := connection_of_wire hl.socket
  obtain ⟨z, hz, rfl⟩ := ownerOf_eq_some.mp h.owner
  exact (poised_of_canConnect h.fits hy hz).1 hl.isSocket

/-- Whether a statement stands between two others is seen from its ends. -/
theorem of_any (hb : (ws.blocks[x]?).any fun b =>
      decide (b.previous = some p) && decide (b.next = some n))
    (habove : ws.targetOf p = some s) (hnext : ws.targetOf n = some q)
    (howner : ws.ownerOf q = some below) (hreal : ws.isPlaceholder below = false)
    (hfits : ws.canConnect s q = .ok true) : ws.Amid s p x n q below := by
  refine ⟨?_, habove, hnext, howner, hreal, hfits⟩
  cases hx : ws.blocks[x]? with
  | none =>
    rw [hx] at hb
    cases hb
  | some b =>
    rw [hx, Option.any_some, Bool.and_eq_true, decide_eq_true_eq, decide_eq_true_eq] at hb
    exact ⟨b, rfl, hb⟩

end Amid

/-- The statement `x` is taken out, and the one below it put in its place. -/
def Mends (ws : Workspace α) (s p : ConnectionId) (x : BlockId) (n q : ConnectionId)
    (below : BlockId) (t : Workspace α) : Prop :=
  ∃ u v, ws.Cuts s p x u ∧ u.Cuts n q below v ∧ v.Seats s q below none t

/-- The statement below `x` is where `x` was. The block `x` hangs on nothing and has nothing below
it, it is missing in its stack, and no other link has changed. -/
structure Mended (ws : Workspace α) (s p : ConnectionId) (x : BlockId) (n q : ConnectionId)
    (below : BlockId) (t : Workspace α) : Prop where
  filled : t.across s = some below
  real : t.isPlaceholder below = false
  bare : t.beneath x = none
  free : t.graph.Loose x
  columns : ∀ y, ws.Live y → y ≠ x →
    ∃ l, ws.Column (some y) l ∧ t.Column (some y) (l.filter (· ≠ x))
  targets : ∀ c, c ≠ s → c ≠ p → c ≠ n → c ≠ q → t.targetOf c = ws.targetOf c

namespace Mends

/-- The socket is free when the statement below is put there. -/
theorem steps (h : ws.Mends s p x n q below t) : ∃ u v, ws.Cuts s p x u ∧ u.Cuts n q below v ∧
    v.targetOf s = none ∧ v.Seats s q below none t := by
  obtain ⟨u, v, hc, hc', hseat⟩ := h
  refine ⟨u, v, hc, hc', ?_, hseat⟩
  rw [hc'.targetOf, hc.targetOf, if_pos (Or.inl rfl), ite_self]

theorem targetOf (h : ws.Mends s p x n q below t) (c : ConnectionId) :
    t.targetOf c = if c = s then some q else if c = q then some s else
      if c = n ∨ c = p then none else ws.targetOf c := by
  obtain ⟨u, v, hc, hc', hfree, hseat⟩ := h.steps
  rw [hseat.targetOf_of_free hfree, hc'.targetOf, hc.targetOf]
  by_cases hs : c = s
  · rw [if_pos hs, if_pos hs]
  by_cases hq : c = q
  · rw [if_neg hs, if_neg hs, if_pos hq, if_pos hq]
  · by_cases hn : c = n <;> by_cases hp : c = p <;> simp [hs, hq, hn, hp]

theorem ownerOf (h : ws.Mends s p x n q below t) : t.ownerOf = ws.ownerOf := by
  obtain ⟨u, v, hc, hc', hfree, hseat⟩ := h.steps
  rw [hseat.ownerOf_of_free hfree, hc'.ownerOf, hc.ownerOf]

theorem sound (h : ws.Mends s p x n q below t) (hs : ws.Sound) : t.Sound := by
  obtain ⟨u, v, hc, hc', hseat⟩ := h
  exact hseat.sound (hc'.sound (hc.sound hs))

theorem spares (h : ws.Mends s p x n q below t) : ws.graph.Spares t.graph := by
  obtain ⟨u, v, hc, hc', hfree, hseat⟩ := h.steps
  obtain ⟨w, hties, hstep⟩ := hseat.ties hfree
  rw [hstep.graph, hties.graph]
  exact (hc.spares.trans hc'.spares).trans (Graph.spares_tie s q)

/-- The blocks look as before, wherever they lie. -/
theorem looks (h : ws.Mends s p x n q below t) (y : BlockId) :
    (t.blocks[y]?).map Block.looks = (ws.blocks[y]?).map Block.looks := by
  obtain ⟨u, v, hc, hc', hfree, hseat⟩ := h.steps
  obtain ⟨w, hties, hstep⟩ := hseat.ties hfree
  rw [hstep.looks, hties.blocks, hc'.blocks, hc.blocks]

/-- What is below each block afterwards: nothing is below `x`, and what was above `x` has got what
was below it. -/
theorem beneath (h : ws.Mends s p x n q below t) (hs : ws.Sound)
    (hamid : ws.Amid s p x n q below) (y : BlockId) :
    t.beneath y = if y = x then none
      else if ws.beneath y = some x then some below else ws.beneath y := by
  obtain ⟨w, v, hl, hv⟩ := hamid.upper hs
  obtain ⟨w', v', hl', hw', hv'⟩ := hamid.lower hs
  have hacross : ∀ c, t.across c = (t.targetOf c).bind ws.ownerOf := by
    intro c
    rw [across_eq, h.ownerOf]
  unfold Workspace.beneath
  rw [nextOf_of_looks h.looks]
  cases hnext : ws.nextOf y with
  | none => simp
  | some c =>
    obtain ⟨z, hz, hzy, hk⟩ := hs.nextOf hnext
    have hnotPlug : ∀ {d : ConnectionId} {m : Wire}, ws.graph.wire d = some m → m.kind.isPlug →
        c ≠ d := by
      rintro d m hm hplug rfl
      rw [wire_of_connection hz, Option.some.injEq] at hm
      rw [← hm, ConnectionKind.isPlug_eq_not, show z.wire.kind.isSocket = true from hk] at hplug
      cases hplug
    have hcp : c ≠ p := hnotPlug hl.plug (hl.isPlug hs.wired)
    have hcq : c ≠ q := hnotPlug hl'.plug (hl'.isPlug hs.wired)
    rw [Option.bind_some, Option.bind_some, hacross, h.targetOf, if_neg hcq]
    by_cases hyx : y = x
    · rw [hyx, hamid.nextOf, Option.some.injEq] at hnext
      have hns : c ≠ s := by
        rintro rfl
        have hw := hl'.socket
        rw [hnext, hl.socket, Option.some.injEq] at hw
        exact (hl.mates hs.wired).apart (hv.trans (hw' ▸ hw ▸ rfl))
      rw [if_neg hns, if_pos (Or.inl hnext.symm), if_pos hyx, Option.bind_none]
    have hcn : c ≠ n := by
      rintro rfl
      have hw := hl'.socket
      rw [wire_of_connection hz, Option.some.injEq] at hw
      exact hyx (hzy.symm.trans ((congrArg Wire.block hw).trans hw'))
    rw [if_neg hyx]
    by_cases hcs : c = s
    · rw [if_pos hcs, Option.bind_some, hamid.owner, hcs, across_of_link hl, hv, if_pos rfl]
    · have hother : ws.across c ≠ some x := by
        intro hx
        obtain ⟨d, m, hlink, hm⟩ := (across_socket hz hk).mp hx
        exact hcs (Graph.Link.same_socket hs.wired hlink hl (hm.trans hv.symm))
      rw [if_neg hcs, if_neg (not_or.mpr ⟨hcn, hcp⟩), if_neg hother, across_eq]

/-- The block that was taken out is left out of every stack. -/
theorem column (h : ws.Mends s p x n q below t) (hs : ws.Sound)
    (hamid : ws.Amid s p x n q below) (hne : below ≠ x) (hl : ws.Column o l) :
    t.Column (if o = some x then some below else o) (l.filter (· ≠ x)) := by
  induction hl with
  | nil => exact .nil
  | @cons y l _ ih =>
    have hbeneath := h.beneath hs hamid y
    by_cases hy : y = x
    · have hne' : some below ≠ some x := fun heq => hne (Option.some.inj heq)
      rw [hy, hamid.beneath, if_neg hne'] at ih
      rw [hy, if_pos rfl, List.filter_cons_of_neg (by simp)]
      exact ih
    · have hy' : some y ≠ some x := fun heq => hy (Option.some.inj heq)
      rw [if_neg hy', List.filter_cons_of_pos (by simpa using hy)]
      rw [if_neg hy] at hbeneath
      exact .cons (hbeneath ▸ ih)

theorem mended (h : ws.Mends s p x n q below t) (hs : ws.Sound) (hac : ws.graph.Acyclic)
    (hamid : ws.Amid s p x n q below) : ws.Mended s p x n q below t := by
  obtain ⟨w, v, hl, hv⟩ := hamid.upper hs
  obtain ⟨w', v', hl', hw', hv'⟩ := hamid.lower hs
  have hne : below ≠ x := by
    rw [← hw', ← hv']
    exact (hl'.mates hs.wired).apart
  have hps : p ≠ s := (hl.ne hs.wired).symm
  have hpq : p ≠ q := by
    rintro rfl
    have hsame := hl'.plug
    rw [hl.plug, Option.some.injEq] at hsame
    exact hne (hv'.symm.trans (hsame ▸ hv))
  exact {
    filled := by rw [across_eq, h.targetOf, if_pos rfl, Option.bind_some, h.ownerOf, hamid.owner]
    real := (isPlaceholder_of_looks (h.looks below)).trans hamid.real
    bare := by rw [h.beneath hs hamid, if_pos rfl]
    free := by
      have hplug : ws.graph.PlugOf p x := ⟨v, hl.plug, hv, hl.isPlug hs.wired⟩
      refine (h.spares.plugOf hplug).loose (h.sound hs).wired (idle_of_targetOf ?_)
      rw [h.targetOf, if_neg hps, if_neg hpq, if_pos (Or.inr rfl)]
    columns := by
      rintro y ⟨b, hb⟩ hyx
      have hy : some y ≠ some x := fun heq => hyx (Option.some.inj heq)
      obtain ⟨l, hcolumn⟩ := hs.column (hs.shallow (hac y))
      have hleft := h.column hs hamid hne hcolumn
      rw [if_neg hy] at hleft
      exact ⟨l, hcolumn, hleft⟩
    targets := by
      intro c hcs hcp hcn hcq
      rw [h.targetOf, if_neg hcs, if_neg hcq, if_neg (not_or.mpr ⟨hcn, hcp⟩)] }

end Mends

/-- Whether a stack has closed up is seen from the links and the next connections. -/
theorem Mended.congr (h : ws.Mended s p x n q below t) (hg : ws'.graph = ws.graph)
    (hn : ws'.nextOf = ws.nextOf) (hg' : t'.graph = t.graph) (hn' : t'.nextOf = t.nextOf)
    (hreal : t'.isPlaceholder below = t.isPlaceholder below) :
    ws'.Mended s p x n q below t' where
  filled := (across_congr hg' s).trans h.filled
  real := hreal.trans h.real
  bare := by rw [beneath_congr hg' hn', h.bare]
  free := hg' ▸ h.free
  columns := by
    rintro y ⟨b, hb⟩ hyx
    have hends := ends_of_block hb
    rw [hg] at hends
    obtain ⟨b', hb', -⟩ := block_of_ends hends
    obtain ⟨l, hl, hl'⟩ := h.columns y ⟨b', hb'⟩ hyx
    exact ⟨l, hl.congr (beneath_congr hg hn), hl'.congr (beneath_congr hg' hn')⟩
  targets := by
    intro c hcs hcp hcn hcq
    rw [targetOf_congr hg', targetOf_congr hg]
    exact h.targets c hcs hcp hcn hcq

/-! ### Cutting -/

/-- A socket without a template is empty when its block is taken out. -/
theorem Frees.cuts {w v : Wire} (h : ws.Frees p t) (hs : ws.Sound) (hl : ws.graph.Link s p w v)
    (hnone : ws.templateAt s = some none) : ws.Cuts s p v.block t := by
  have hlink := link?_of_link hs hl (Or.inr rfl)
  cases h with
  | kept hfree =>
    rw [hlink] at hfree
    cases hfree
  | cut hfound hc hr =>
    rw [hlink] at hfound
    cases hfound
    obtain ⟨w', v', hl', rfl⟩ := hc.link
    rw [← Option.some.inj (hl'.plug.symm.trans hl.plug)]
    cases hr with
    | kept => exact hc
    | filled hy _ htemplate =>
      have hsame := hc.templateAt s
      rw [templateAt, hy, Option.map_some, htemplate, hnone] at hsame
      cases hsame

/-- Another link stays when one is cut. -/
theorem Cuts.link_of_ne {n q : ConnectionId} {w v : Wire} (h : ws.Cuts s p x t) (hs : ws.Sound)
    (hl : ws.graph.Link n q w v) (hne : q ≠ p) : t.graph.Link n q w v := by
  obtain ⟨w₀, v₀, hl₀, -⟩ := h.link
  have hns : n ≠ s := by
    rintro rfl
    have hw := Option.some.inj (hl.socket.symm.trans hl₀.socket)
    exact hne (Option.some.inj (hl.down.symm.trans (hw ▸ hl₀.down)))
  have hnp : n ≠ p := Graph.Link.socket_ne_plug hs.wired hl hl₀
  have hqs : q ≠ s := (Graph.Link.socket_ne_plug hs.wired hl₀ hl).symm
  rw [h.graph]
  exact ⟨(Graph.cut_wire_of_ne hns hnp).trans hl.socket,
    (Graph.cut_wire_of_ne hqs hne).trans hl.plug, hl.isSocket, hl.down⟩

end Workspace

/-! ### Taking a statement out -/

namespace Edit

variable [Scalar α] {ws t : Workspace α} {x below : BlockId} {s p n q : ConnectionId}

/-- The statement at a next connection goes to a free socket that it fits. -/
theorem healStack_seats {w v : Wire} (hs : ws.Sound) (hac : ws.graph.Acyclic)
    (hl : ws.graph.Link n q w v) (hv : v.block = below) (hreal : ws.isPlaceholder below = false)
    (hpoised : ws.graph.Poised s q below) (hfree : ws.targetOf s = none)
    (hrun : healStack n (some s) ws = .ok () t) (hlast : Lasts t) :
    ∃ u, ws.Cuts n q below u ∧ u.Seats s q below none t := by
  obtain ⟨y, hy, rfl⟩ := connection_of_wire hl.socket
  obtain ⟨z, hz, rfl⟩ := connection_of_wire hl.plug
  obtain ⟨o, ho, -⟩ := hs.owner hz
  have hplain : o.placeholder = false := by
    rw [isPlaceholder, ← hv, show z.wire.block = z.block from rfl, ho] at hreal
    exact hreal
  rw [healStack_eq hy hz hl.down ho hplain] at hrun
  obtain ⟨_, u, hcut, hput⟩ := bind_ok hrun
  have hlast' : Lasts u := (rehang_safe q (some s)).lasts hput hlast
  have hc : ws.Cuts n q below u :=
    (unlink_socket ws n q below).ok hcut hlast' ⟨rfl, hs, _, _, hl, hv⟩
  have hpoised' : u.graph.Poised s q below := hc.spares.poised hpoised
  obtain ⟨w, v, hm, -⟩ := id hpoised'
  obtain ⟨x, hx, rfl⟩ := connection_of_wire hm.socket
  obtain ⟨z', hz', rfl⟩ := connection_of_wire hm.plug
  have hfits := (canConnect_of_poised hpoised').1
  have hvacant : u.targetOf s = none := by
    rw [hc.targetOf, hfree, ite_self]
  have hopen : x.isConnected = false := by
    rw [targetOf_eq hx] at hvacant
    rw [Connection.isConnected, hvacant]
    rfl
  have hon : u.admits s q = true := by
    rw [canConnect_eq_admits hx hz', Except.ok.injEq] at hfits
    exact hfits
  rw [rehang_eq hx hz', hon, hopen, Bool.not_false, Bool.and_true, if_pos rfl] at hput
  have hready := cuts_ready hs hac hc hx hm.isSocket hfits
  refine ⟨u, hc, (connect_seats hready ?_ (Or.inl ⟨rfl, rfl⟩)).ok hput hlast rfl⟩
  intro a ha
  rw [across, hvacant] at ha
  cases ha

/-- If the socket above has no template, then the statement below takes the place of the one that
is taken out. -/
theorem pullOut_mends (hs : ws.Sound) (hac : ws.graph.Acyclic) (h : ws.Amid s p x n q below)
    (hnone : ws.templateAt s = some none) (hrun : pullOut x true ws = .ok () t)
    (hlast : Lasts t) : ws.Mends s p x n q below t := by
  obtain ⟨b, hb, hp, hn⟩ := h.block
  obtain ⟨w, v, hl, hv⟩ := h.upper hs
  obtain ⟨w', v', hl', hw', hv'⟩ := h.lower hs
  obtain ⟨y, hy, rfl⟩ := connection_of_wire hl.plug
  rw [pullOut_eq hb, h.output hs hb, hp] at hrun
  obtain ⟨y', ws', hask, hasked⟩ := bind_ok hrun
  rw [query, connection_eq_ok.mpr hy] at hask
  cases hask
  obtain ⟨_, u, hfree, hheal⟩ := bind_ok hasked
  rw [if_pos rfl, hn, show y.target = some s from hl.up hs.wired] at hheal
  have hheal' : healStack n (some s) u = .ok () t := hheal
  have hlast' : Lasts u :=
    (healStack_keeps (X := ∅) (Editor.stable_true (α := α)) n (some s)).lasts hheal' hlast
  have hc : ws.Cuts s p x u :=
    hv ▸ ((disconnect_frees hs p).ok hfree hlast' rfl).cuts hs hl hnone
  have hqp : q ≠ p := by
    rintro rfl
    have hsame := Option.some.inj (hl.plug.symm.trans hl'.plug)
    exact (hl'.mates hs.wired).apart ((hsame ▸ hv).trans hw'.symm)
  have hreal : u.isPlaceholder below = false := by
    rw [isPlaceholder, hc.blocks]
    exact h.real
  have hvacant : u.targetOf s = none := by
    rw [hc.targetOf, if_pos (Or.inl rfl)]
  obtain ⟨u', hc', hseat⟩ := healStack_seats (hc.sound hs) (hc.acyclic hs hac)
    (hc.link_of_ne hs hl' hqp) hv' hreal (hc.spares.poised (h.poised hs)) hvacant hheal' hlast
  exact ⟨u, u', hc, hc', hseat⟩

/-- If the socket above has a template, then a placeholder is there afterwards, and not the statement
below. -/
theorem pullOut_mends_iff (hs : ws.Sound) (hac : ws.graph.Acyclic) (h : ws.Amid s p x n q below)
    (hrun : pullOut x true ws = .ok () t) (hlast : Lasts t) :
    ws.Mended s p x n q below t ↔ ws.templateAt s = some none := by
  constructor
  · intro hmended
    obtain ⟨w, v, hl, hv⟩ := h.upper hs
    obtain ⟨y, hy, -⟩ := connection_of_wire hl.socket
    cases htemplate : y.template with
    | none => rw [templateAt, hy, Option.map_some, htemplate]
    | some template =>
      have hhost : ws.Hosts s p x :=
        ⟨⟨w, v, hl, hv⟩, template, by rw [templateAt, hy, Option.map_some, htemplate]⟩
      have hin := ((pullOut_pulls hs hac x true).ok hrun hlast rfl).stoodIn hs hhost
      obtain ⟨a, ha, hmark⟩ := hin.across
      rw [hmended.filled, Option.some.injEq] at ha
      rw [← ha, hmended.real] at hmark
      cases hmark
  · exact fun hnone => (pullOut_mends hs hac h hnone hrun hlast).mended hs hac h

end Edit

namespace Workspace

variable {ws real : Workspace α} {x below : BlockId} {s p n q : ConnectionId} {b : Block α}
  {d : DragSession α}

/-- To make a statement real changes its mark only. -/
theorem Bares.of_statement (h : ws.Bares b d real) (ho : b.output = none) :
    real = ws ∨ real = { ws with
      blocks := ws.blocks.insert d.block { b with placeholder := false } } := by
  cases h with
  | real => exact Or.inl rfl
  | told => exact Or.inr rfl
  | given _ _ _ hin =>
    rw [ho] at hin
    cases hin

theorem Bares.amid (h : ws.Bares b d real) (hs : ws.Sound) (hb : ws.blocks[d.block]? = some b)
    (hamid : ws.Amid s p d.block n q below) :
    real.Amid s p d.block n q below ∧ real.nextOf = ws.nextOf := by
  rcases h.of_statement (hamid.output hs hb) with rfl | rfl
  · exact ⟨hamid, rfl⟩
  obtain ⟨b', hb', hp, hn⟩ := hamid.block
  rw [hb, Option.some.injEq] at hb'
  subst hb'
  refine ⟨⟨⟨{ b with placeholder := false }, ?_, hp, hn⟩, hamid.above, hamid.next, hamid.owner, ?_,
    hamid.fits⟩, ?_⟩
  · rw [getElem?_insert, if_pos rfl]
  · rw [isPlaceholder, getElem?_insert]
    split
    · rfl
    · exact hamid.real
  · funext y
    rw [Workspace.nextOf, getElem?_insert]
    split
    · next hy => rw [hy, Workspace.nextOf, hb]; rfl
    · rfl

end Workspace

namespace Act

variable [Scalar α] {e t : Editor α} {block x below : BlockId} {s p n q : ConnectionId}

/-- A drag takes a statement out as any other edit does. -/
theorem pickUp_mends_iff (hs : e.workspace.Sound) (hac : e.workspace.graph.Acyclic)
    (hamid : e.workspace.Amid s p x n q below) (hrun : pickUp block true e = .ok x t)
    (hlast : Lasts t) :
    e.workspace.Mended s p x n q below t.workspace ↔ e.workspace.templateAt s = some none := by
  obtain ⟨offset, b, u, -, ⟨log, rfl⟩, hb, hdetached⟩ := pickUp_withdraws hs hac hrun hlast
  set u : Workspace α := { e.workspace with events := log } with hu
  have hus : u.Sound := (drifts_aside e.workspace log e.workspace.tasks).sound hs
  have huamid : u.Amid s p x n q below :=
    ⟨hamid.block, hamid.above, hamid.next, hamid.owner, hamid.real, hamid.fits⟩
  obtain ⟨w, v, hl, hv⟩ := huamid.upper hus
  have hparent : u.parent x = .ok (some w.block) := (hus.parent_eq_some hb).mpr ⟨s, p, w, v, hl, hv, rfl⟩
  obtain ⟨keeps, d, real, requests, phase, e₁, -, hprimed, hwithdraw, hrests⟩ :=
    hdetached (.child hparent)
  obtain rfl : d.block = x := by
    rw [hprimed.session]
    rfl
  have hstatement := huamid.output hus hb
  rw [copySocket, hstatement, Option.bind_none, ite_self] at hwithdraw
  obtain ⟨hreal, hnext⟩ := hprimed.bares.amid hus hb huamid
  have hlast' : Lasts e₁.workspace := by
    rw [lasts_workspace, ← hrests.ids]
    exact hlast
  have hiff := Edit.pullOut_mends_iff (hprimed.bares.sound hus hb)
    (hprimed.bares.graph hb ▸ hac) hreal (withdraw_none_ok hwithdraw) hlast'
  have htemplate : real.templateAt s = e.workspace.templateAt s := by
    rcases hprimed.bares.of_statement hstatement with rfl | rfl <;> rfl
  have hgraph : real.graph = e.workspace.graph := hprimed.bares.graph hb
  have hplain := isPlaceholder_of_looks (hrests.blocks below)
  rw [← htemplate, ← hiff]
  constructor
  · intro h
    exact h.congr hgraph hnext hrests.graph.symm (nextOf_of_looks hrests.blocks).symm hplain.symm
  · intro h
    exact h.congr hgraph.symm hnext.symm hrests.graph (nextOf_of_looks hrests.blocks) hplain

end Act

namespace Editor

variable [Scalar α] {config : EditorConfig α} {registry : Registry} {e : Editor α}
  {actions : List (Action α)} {x below : BlockId} {s p n q : ConnectionId}

/-- After any run, a statement that is pulled out or dragged out of a stack is replaced by the
statement below it, unless its socket has a template. The order of the stack is otherwise as before,
and so are all other links. -/
theorem run_mends (hone : registry.OnePlug) (hstart : create config registry = .ok e)
    (hlast : Lasts (e.run actions)) (hac : (e.run actions).workspace.graph.Acyclic)
    (hamid : (e.run actions).workspace.Amid s p x n q below) :
    (∀ t, Act.edit (Edit.pullOut x true) (e.run actions) = .ok () t → Lasts t →
      ((e.run actions).workspace.Mended s p x n q below t.workspace ↔
        (e.run actions).workspace.templateAt s = some none)) ∧
    ∀ block t, Act.pickUp block true (e.run actions) = .ok x t → Lasts t →
      ((e.run actions).workspace.Mended s p x n q below t.workspace ↔
        (e.run actions).workspace.templateAt s = some none) := by
  have hs := run_wired hone hstart hlast
  refine ⟨fun t hrun hlasts => ?_, fun block t hrun => Act.pickUp_mends_iff hs hac hamid hrun⟩
  obtain ⟨u, hpull, rfl⟩ := Act.edit_ok hrun
  exact Edit.pullOut_mends_iff hs hac hamid hpull hlasts

/-- The body of a function has two statements. -/
def twoInBody : List (Action Int) :=
  [.newBlock "FunctionDef", .newBlock "Assign", .newBlock "Assign", .connect ⟨2⟩ ⟨3⟩,
    .connect ⟨4⟩ ⟨6⟩]

/-- The upper one is pulled out, or dragged away, and the lower one is the body then. -/
theorem run_mends_body :
    (∃ t, Act.edit (Edit.pullOut ⟨1⟩ true) ((fresh (.standard : EditorConfig Int)
        Palette.registry).run twoInBody) = .ok () t ∧
      ((fresh (.standard : EditorConfig Int) Palette.registry).run twoInBody).workspace.Mended
        ⟨2⟩ ⟨3⟩ ⟨1⟩ ⟨4⟩ ⟨6⟩ ⟨2⟩ t.workspace) ∧
    ∃ t, Act.pickUp ⟨1⟩ true ((fresh (.standard : EditorConfig Int)
        Palette.registry).run twoInBody) = .ok ⟨1⟩ t ∧
      ((fresh (.standard : EditorConfig Int) Palette.registry).run twoInBody).workspace.Mended
        ⟨2⟩ ⟨3⟩ ⟨1⟩ ⟨4⟩ ⟨6⟩ ⟨2⟩ t.workspace := by
  have hamid : ((fresh (.standard : EditorConfig Int) Palette.registry).run
      twoInBody).workspace.Amid ⟨2⟩ ⟨3⟩ ⟨1⟩ ⟨4⟩ ⟨6⟩ ⟨2⟩ :=
    .of_any (by decide +kernel) (by decide +kernel) (by decide +kernel) (by decide +kernel)
      (by decide +kernel) (by decide +kernel)
  have hmends := run_mends Palette.registry_onePlug (create_fresh (by decide)) (by decide +kernel)
    (acyclic_of_ordered (by decide +kernel)) hamid
  have hpull : Act.edit (Edit.pullOut ⟨1⟩ true) ((fresh (.standard : EditorConfig Int)
      Palette.registry).run twoInBody) = .ok () _ := Act.eq_ok_of_answer (by decide +kernel)
  have hpick : Act.pickUp ⟨1⟩ true ((fresh (.standard : EditorConfig Int)
      Palette.registry).run twoInBody) = .ok ⟨1⟩ _ := Act.eq_ok_of_answer (by decide +kernel)
  have hbare := templateAt_of_any (c := ⟨2⟩) (w := ((fresh (.standard : EditorConfig Int)
    Palette.registry).run twoInBody).workspace) (by decide +kernel)
  exact ⟨⟨_, hpull, (hmends.1 _ hpull (by decide +kernel)).mpr hbare⟩,
    ⟨_, hpick, (hmends.2 _ _ hpick (by decide +kernel)).mpr hbare⟩⟩

/-- If the body has a template, then the placeholder that is built of it is the body, and the lower
statement is a root. -/
theorem pullOut_splits_body :
    ((fresh (.standard : EditorConfig Int) Palette.registry).run
      (twoInBody ++ [.setTemplate ⟨2⟩ (some (.ofType "Pass"))])).workspace.graph.Acyclic ∧
    ((fresh (.standard : EditorConfig Int) Palette.registry).run
      (twoInBody ++ [.setTemplate ⟨2⟩ (some (.ofType "Pass"))])).workspace.Amid
        ⟨2⟩ ⟨3⟩ ⟨1⟩ ⟨4⟩ ⟨6⟩ ⟨2⟩ ∧
    ∃ t, Act.edit (Edit.pullOut ⟨1⟩ true) ((fresh (.standard : EditorConfig Int)
        Palette.registry).run (twoInBody ++ [.setTemplate ⟨2⟩ (some (.ofType "Pass"))])) = .ok () t ∧
      t.workspace.across ⟨2⟩ = some ⟨3⟩ ∧ t.workspace.top = [⟨0⟩, ⟨1⟩, ⟨2⟩] := by
  have hpull : Act.edit (Edit.pullOut ⟨1⟩ true) ((fresh (.standard : EditorConfig Int)
      Palette.registry).run (twoInBody ++ [.setTemplate ⟨2⟩ (some (.ofType "Pass"))])) =
        .ok () _ := Act.eq_ok_of_answer (by decide +kernel)
  refine ⟨acyclic_of_ordered (by decide +kernel), ?_, _, hpull, ?_, ?_⟩
  · exact .of_any (by decide +kernel) (by decide +kernel) (by decide +kernel) (by decide +kernel)
      (by decide +kernel) (by decide +kernel)
  · decide +kernel
  · decide +kernel

end Editor

end BlockEditor
