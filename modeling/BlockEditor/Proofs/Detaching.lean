import BlockEditor.Proofs.Holding
import BlockEditor.Proofs.Rollback
import BlockEditor.Proofs.Sessions

/-!
# Detaching a block

A drag first notes what it has to remember, then takes its block out, and leaves a copy if one is to
stay. Whatever is refused on the way, the block is away and at most one copy has been built.
-/

namespace BlockEditor

open Workspace

variable {α : Type}

namespace Workspace

variable {ws t real : Workspace α} {x : BlockId} {b : Block α} {c s p : ConnectionId}
  {heal : Bool} {d s₀ : DragSession α}

theorem targetOf_congr (h : t.graph = ws.graph) (c : ConnectionId) :
    t.targetOf c = ws.targetOf c := by
  have hw : (t.graph.wire c).bind (·.target) = (ws.graph.wire c).bind (·.target) := by rw [h]
  simpa [graph, targetOf, Option.bind_map, Function.comp_def, Connection.wire] using hw

/-- Whether a copy stays is known of every live block. -/
theorem Sound.leavesCopy_ok (hs : ws.Sound) (hb : ws.blocks[x]? = some b) :
    ∃ keeps, ws.leavesCopy x = .ok keeps := by
  unfold leavesCopy
  simp only [block_eq_ok.mpr hb, bind, Except.bind]
  split
  · exact ⟨true, rfl⟩
  cases b.copyOnDrag with
  | some decision => exact ⟨decision, rfl⟩
  | none =>
    dsimp only
    unfold rulesKeepCopy holdingInput
    rcases hs.parentSocket_cases hb with ⟨s, p, w, v, hsocket, hl, hv⟩ | ⟨hsocket, hloose⟩
    · obtain ⟨y, hy, rfl⟩ := connection_of_wire hl.socket
      obtain ⟨above, habove, -⟩ := hs.owner hy
      have hparent : ws.parent x = .ok (some y.block) :=
        (hs.parent_eq_some hb).mpr ⟨s, p, _, v, hl, hv, rfl⟩
      have hcarrier : ws.block y.block = .ok above := block_eq_ok.mpr habove
      simp only [hparent, bind, Except.bind, hsocket, connection_eq_ok.mpr hy, hcarrier]
      exact ⟨_, rfl⟩
    · rw [(hs.parent_eq_none hb).mpr hloose]
      exact ⟨false, rfl⟩

/-- The connection gets a template. -/
def endow (ws : Workspace α) (c : ConnectionId) (y : Connection α) (template : Option Snapshot) :
    Workspace α :=
  { ws with connections := ws.connections.insert c { y with template := template } }

theorem endows_endow {y : Connection α} (template : Option Snapshot)
    (hy : ws.connections[c]? = some y) : ws.Endows c template (ws.endow c y template) where
  connections e := by
    simp only [endow, Std.ExtTreeMap.getElem?_insert, Std.LawfulEqCmp.compare_eq_iff_eq]
    by_cases he : c = e
    · subst he
      simp [hy]
    · have he' : ¬ e = c := fun h => he h.symm
      simp [he, he']
  rest := rfl

theorem Bares.block (h : ws.Bares b d t) :
    ws.blocks[d.block]? = some b → t.blocks[d.block]? = some { b with placeholder := false } := by
  intro hb
  cases h with
  | real hp =>
    rw [hb, ← hp]
  | told =>
    change (ws.blocks.insert d.block _)[d.block]? = _
    rw [getElem?_insert, if_pos rfl]
  | @given _ v =>
    change (v.blocks.insert d.block _)[d.block]? = _
    rw [getElem?_insert, if_pos rfl]

theorem Bares.congr {d' : DragSession α} (h : ws.Bares b d t) (hx : d'.block = d.block)
    (hmark : d'.wasPlaceholder = d.wasPlaceholder)
    (hsocket : d'.templateSocket = d.templateSocket) : ws.Bares b d' t := by
  cases h with
  | real hp hm hn => exact .real hp (hmark.trans hm) (hsocket.trans hn)
  | told hp hm hn ht => exact hx ▸ .told hp (hmark.trans hm) (hsocket.trans hn) ht
  | given hp hm hn hin hnone he =>
    exact hx ▸ .given hp (hmark.trans hm) (hsocket.trans hn) hin hnone he

/-- The socket in which a copy of a block is to stay. -/
def copySocket (ws : Workspace α) (b : Block α) (keeps : Bool) : Option ConnectionId :=
  if keeps && !b.placeholder then b.output.bind ws.targetOf else none

/-- The block `x` was pulled out of its socket, which left the workspace `u`. -/
structure Cleared [Scalar α] (ws : Workspace α) (heal : Bool) (s p : ConnectionId) (x : BlockId)
    (u : Workspace α) : Prop where
  pulls : ws.Pulls x heal u
  parted : ws.Parted {s} s p x u
  run : Edit.pullOut x heal ws = .ok () u

/-- A copy stays in the socket of a block that was taken out. -/
structure Leaves [Scalar α] (ws : Workspace α) (heal : Bool) (s p : ConnectionId) (x k : BlockId)
    (t : Workspace α) : Prop where
  steps : ∃ u v q w b, ws.Cleared heal s p x u ∧ u.Fresh k v ∧ v.Sound ∧
    (∃ snapshot, Edit.restore snapshot u = .ok k v) ∧ v.Seats s q k none w ∧
    w.blocks[x]? = some b ∧
    t = { w with blocks := w.blocks.insert x { b with copyOnDrag := some false } }

/-- A block is taken out, and perhaps a copy stays. -/
inductive Withdrawn [Scalar α] (ws : Workspace α) (heal : Bool) (d : DragSession α) :
    Option ConnectionId → DragSession α → Workspace α → Prop
  | bare {t : Workspace α} : ws.Pulls d.block heal t → Withdrawn ws heal d none d t
  | copied {s p : ConnectionId} {k : BlockId} {t : Workspace α} : ws.Leaves heal s p d.block k t →
      Withdrawn ws heal d (some s) { d with copy := some k } t

/-- What a drag knows when it is about to take its block out. -/
structure Primed (ws : Workspace α) (b : Block α) (heal : Bool) (s₀ d : DragSession α)
    (real : Workspace α) : Prop where
  bares : ws.Bares b d real
  session : d = { s₀ with
    wasPlaceholder := b.placeholder
    priorCopyOnDrag := b.copyOnDrag
    templateSocket := d.templateSocket
    parentSocket := b.plugs.findSome? ws.targetOf
    childPlug := if heal then b.next.bind ws.targetOf else none }

theorem link_of_plug {q : ConnectionId} (hs : ws.Sound) (hb : ws.blocks[x]? = some b)
    (hp : p ∈ b.plugs) (h : ws.link? p = .ok (some (s, q))) :
    q = p ∧ ∃ w v, ws.graph.Link s p w v ∧ v.block = x := by
  obtain ⟨y, hy, hyx, hk⟩ := hs.plug hb hp
  obtain ⟨⟨w, v, hl⟩, rfl | rfl⟩ := link?_eq_some h hs
  · have hsocket := hl.isSocket
    rw [← Option.some.inj ((wire_of_connection hy).symm.trans hl.socket)] at hsocket
    rw [ConnectionKind.isPlug_eq_not, show y.kind.isSocket = true from hsocket] at hk
    cases hk
  · refine ⟨rfl, w, v, hl, ?_⟩
    rw [← Option.some.inj ((wire_of_connection hy).symm.trans hl.plug)]
    exact hyx

/-- If a block is stuck, then it is away, and nothing stands in for it. -/
theorem Jams.parted (h : ws.Jams x t) (hs : ws.Sound) (hac : ws.graph.Acyclic)
    (hb : ws.blocks[x]? = some b) : ∃ s p, ws.Parted ∅ s p x t := by
  cases h with
  | absent hdead => exact (hdead ⟨b, hb⟩).elim
  | stuck hb' hp hbreak =>
    cases hbreak with
    | absent hnone =>
      obtain ⟨y, hy, -⟩ := hs.plug hb' hp
      rw [hnone] at hy
      cases hy
    | cut hlink hc hr =>
      obtain ⟨rfl, w, v, hl, hv⟩ := link_of_plug hs hb' hp hlink
      obtain ⟨w', v', hl', rfl⟩ := hc.link
      rw [← Option.some.inj (hl.plug.symm.trans hl'.plug)] at hc
      exact ⟨_, _, .of_strands hs hac (hv ▸ hc) hr⟩

/-- A block that was taken out of an input is away. -/
theorem Pulls.parted {o : ConnectionId} (h : ws.Pulls x heal t) (hs : ws.Sound)
    (hac : ws.graph.Acyclic) (hb : ws.blocks[x]? = some b) (ho : b.output = some o)
    (ht : ws.targetOf o = some s) : ws.Parted {s} s o x t := by
  cases h with
  | value hb' ho' hfree =>
    obtain rfl := Option.some.inj (hb.symm.trans hb')
    obtain rfl := Option.some.inj (ho.symm.trans ho')
    have hp := mem_plugs.mpr (Or.inl ho)
    obtain ⟨y, hy, -⟩ := hs.plug hb hp
    rw [targetOf_eq hy] at ht
    cases hfree with
    | kept hlink =>
      obtain ⟨y', hy', hnone⟩ := link?_eq_none hlink
      rw [hy, Option.some.injEq] at hy'
      subst hy'
      rw [hnone] at ht
      cases ht
    | cut hlink hc hr =>
      obtain ⟨rfl, w, v, hl, hv⟩ := link_of_plug hs hb hp hlink
      obtain ⟨w', v', hl', rfl⟩ := hc.link
      rw [← Option.some.inj (hl.plug.symm.trans hl'.plug)] at hc
      have hup := hl.up hs.wired
      rw [← Option.some.inj ((wire_of_connection hy).symm.trans hl.plug)] at hup
      obtain rfl := Option.some.inj (ht.symm.trans hup)
      exact .of_refills hs hac (hv ▸ hc) hr
  | root hb' ho' | statement hb' ho' | healed hb' ho' =>
    obtain rfl := Option.some.inj (hb.symm.trans hb')
    rw [ho] at ho'
    cases ho'

end Workspace

namespace Edit

variable [Scalar α] {ws t : Workspace α} {k : BlockId} {s : ConnectionId}

/-- A loose block takes the place of a placeholder, or it does not fit and nothing happens. -/
theorem attach_seats (ht : t.Sound) (hac : t.graph.Acyclic) (hl : t.graph.Loose k)
    (hv : ∀ a, t.across s = some a → t.isPlaceholder a) :
    Leads (· = t) (attach s k) (fun _ u => ∃ q, t.Seats s q k none u)
      fun u => u = t ∧ ¬ t.Welcomes s k := by
  refine Leads.bind (Q := fun q u => u = t ∧ t.plugFor s k = .ok q)
    (Leads.query (fun _ _ h hq => ⟨h, h ▸ hq⟩) fun _ e h he => ⟨h, ?_⟩) fun q => ?_
  · rintro ⟨q, hq, -⟩
    rw [h, hq] at he
    cases he
  have base := connect_keeps (X := ∅) (Editor.stable_true (α := α)) s q
  refine Tells.assuming (P := (· = t)) base fun hq => ?_
  obtain ⟨x, b, hx, hb, hplug⟩ := plugFor_eq_ok hq
  obtain ⟨y, hy, hyk, hk, hsocket⟩ := ht.plugFor? hb hplug
  by_cases hon : t.canConnect s q = .ok true
  · obtain ⟨y', hy', hm⟩ := mates_of_canConnect hon hx hsocket
    rw [hy, Option.some.injEq] at hy'
    subst hy'
    have hready : t.Ready s q k := by
      refine ⟨ht, hac, ⟨_, _, hm, hyk⟩, fun w hw => ?_⟩
      rw [wire_of_connection hy, Option.some.injEq] at hw
      rw [← hw]
      exact hl q y.wire hm.plug hyk hm.isPlug
    exact (connect_seats hready hv (Or.inl ⟨rfl, rfl⟩)).weaken (fun _ h => h)
      (fun _ _ h => ⟨q, h⟩) fun _ h => h.elim
  · refine Tells.of_result base ?_
    rintro _ rfl
    obtain ⟨e, he⟩ := connect_unfit hon
    rw [he]
    refine ⟨rfl, fun ⟨q', hq', hon'⟩ => ?_⟩
    rw [hq] at hq'
    cases hq'
    exact hon hon'

end Edit

namespace Act

variable [Scalar α] {ws t real : Workspace α} {x : BlockId} {b : Block α} {c s p : ConnectionId}
  {heal : Bool} {d s₀ : DragSession α} {requests : List (HostRequest α)}
  {phase : DragPhase}

/-- Take a block out, and leave a copy of it in a socket if that is asked for. -/
def withdraw (block : BlockId) (heal : Bool) (copied : Option ConnectionId) : Act α Unit := do
  match copied with
  | none => edit (Edit.pullOut block heal)
  | some c =>
    let snapshot ← query (·.save block)
    edit (Edit.pullOut block heal)
    leaveCopy block c snapshot
  request (.disconnectEffect block)

/-- The steps of a detachment one after the other. -/
theorem detach_steps (block : BlockId) (heal : Bool) : detach block heal = (do
    let keeps ← query (·.leavesCopy block)
    let b ← query (·.block block)
    updateSession fun s =>
      { s with wasPlaceholder := b.placeholder, priorCopyOnDrag := b.copyOnDrag }
    let socket ← valueSocket b
    let _ ← (if b.placeholder then makeReal block socket else pure ())
    let parentSocket ← query (·.parentSocket block)
    let childPlug ← (if heal then plugBelow b else pure none)
    updateSession fun s => { s with parentSocket, childPlug }
    withdraw block heal (if keeps && !b.placeholder then socket else none) : Act α Unit) := by
  unfold detach
  refine congrArg _ (funext fun keeps => congrArg _ (funext fun b => ?_))
  refine congrArg _ (funext fun _ => congrArg _ (funext fun socket => ?_))
  cases b.placeholder <;> cases heal <;> rfl

omit [Scalar α] in
theorem valueSocket_eq (hs : ws.Sound) (hb : ws.blocks[x]? = some b) :
    valueSocket b ⟨ws, some d, requests, phase⟩ =
      .ok (b.output.bind ws.targetOf) ⟨ws, some d, requests, phase⟩ := by
  unfold valueSocket
  cases ho : b.output with
  | none => rfl
  | some output =>
    obtain ⟨y, hy, -⟩ := hs.plug hb (mem_plugs.mpr (Or.inl ho))
    dsimp only
    rw [bind_eq (query_eq (connection_eq_ok.mpr hy)), Option.bind_some, targetOf_eq hy]
    rfl

omit [Scalar α] in
theorem plugBelow_eq (hs : ws.Sound) (hb : ws.blocks[x]? = some b) (d : DragSession α)
    (requests : List (HostRequest α)) (phase : DragPhase) :
    plugBelow b ⟨ws, some d, requests, phase⟩ =
      .ok (b.next.bind ws.targetOf) ⟨ws, some d, requests, phase⟩ := by
  unfold plugBelow
  cases hn : b.next with
  | none => rfl
  | some next =>
    obtain ⟨y, hy, -⟩ := hs.socket hb (mem_sockets.mpr (Or.inr hn))
    dsimp only
    rw [bind_eq (query_eq (connection_eq_ok.mpr hy)), Option.bind_some, targetOf_eq hy]
    rfl

omit [Scalar α] in
/-- A placeholder is made real, and its socket gets a template unless it has one. -/
theorem makeReal_eq (hs : ws.Sound) (hb : ws.blocks[d.block]? = some b) (hp : b.placeholder)
    (hmark : d.wasPlaceholder = true) (hnone : d.templateSocket = none)
    (requests : List (HostRequest α)) (phase : DragPhase) :
    ∃ real told, makeReal d.block (b.output.bind ws.targetOf) ⟨ws, some d, requests, phase⟩ =
      .ok () ⟨real, some { d with templateSocket := told }, requests, phase⟩ ∧
        ws.Bares b { d with templateSocket := told } real := by
  have hreal : ∀ (v : Workspace α) (told : Option ConnectionId), v.blocks[d.block]? = some b →
      (edit (Edit.setPlaceholder d.block false) : Act α Unit)
        ⟨v, some { d with templateSocket := told }, requests, phase⟩ = .ok ()
          ⟨{ v with blocks := v.blocks.insert d.block { b with placeholder := false } },
            some { d with templateSocket := told }, requests, phase⟩ := by
    intro v told hv
    unfold edit Edit.setPlaceholder Edit.updateBlock
    simp only [bind, EStateM.bind, Edit.query, block_eq_ok.mpr hv]
    rfl
  have hsame : d = { d with templateSocket := none } := by
    rw [← hnone]
  have kept : ∀ m : Act α Unit,
      m ⟨ws, some d, requests, phase⟩ = .ok () ⟨ws, some d, requests, phase⟩ →
      (∀ c, b.output.bind ws.targetOf = some c → ∃ template, ws.templateAt c = some (some template)) →
      ∃ real told, (do m; edit (Edit.setPlaceholder d.block false) : Act α Unit)
          ⟨ws, some d, requests, phase⟩ =
            .ok () ⟨real, some { d with templateSocket := told }, requests, phase⟩ ∧
        ws.Bares b { d with templateSocket := told } real := by
    intro m hm htold
    refine ⟨_, none, (bind_eq hm).trans ?_, Bares.told hp hmark rfl htold⟩
    rw [hsame]
    exact hreal ws none hb
  unfold makeReal
  cases ho : b.output.bind ws.targetOf with
  | none =>
    refine kept _ rfl fun c hc => ?_
    rw [ho] at hc
    cases hc
  | some c =>
    obtain ⟨output, ho', ht⟩ := Option.bind_eq_some_iff.mp ho
    obtain ⟨o, hoy, -⟩ := hs.plug hb (mem_plugs.mpr (Or.inl ho'))
    rw [targetOf_eq hoy] at ht
    obtain ⟨y, hy, -⟩ := hs.target hoy ht
    cases hty : y.template with
    | some template =>
      refine kept _ ?_ fun c' hc => ?_
      · change (query (·.connection c) >>= _) _ = _
        rw [bind_eq (query_eq (connection_eq_ok.mpr hy)), hty]
        rfl
      · obtain rfl := Option.some.inj (ho.symm.trans hc)
        exact ⟨template, by rw [templateAt, hy, Option.map_some, hty]⟩
    | none =>
      obtain ⟨template, hsave⟩ := hs.save_ok ⟨b, hb⟩
      have htold := hreal (ws.endow c y (some template)) (some c) hb
      refine ⟨_, some c, ?_, Bares.given hp hmark rfl ho ?_ (endows_endow (some template) hy)⟩
      · have hstored : (edit (Edit.updateConnection c fun c => { c with template := some template }) :
            Act α Unit) ⟨ws, some d, requests, phase⟩ =
              .ok () ⟨ws.endow c y (some template), some d, requests, phase⟩ := by
          unfold edit Edit.updateConnection
          simp only [bind, EStateM.bind, Edit.query, connection_eq_ok.mpr hy]
          rfl
        refine (bind_eq (a := ()) ?_).trans htold
        change (query (·.connection c) >>= _) _ = _
        rw [bind_eq (query_eq (connection_eq_ok.mpr hy)), hty]
        change (query (·.save d.block) >>= _) _ = _
        rw [bind_eq (query_eq hsave), bind_eq hstored]
        rfl
      · rw [templateAt, hy, Option.map_some, hty]

/-- Note where a block is plugged in and what is plugged in below it, and take it out. -/
def noteAndWithdraw (block : BlockId) (heal : Bool) (b : Block α) (copied : Option ConnectionId) :
    Act α Unit := do
  let parentSocket ← query (·.parentSocket block)
  let childPlug ← if heal then plugBelow b else pure none
  updateSession fun s => { s with parentSocket, childPlug }
  withdraw block heal copied

theorem detach_def (block : BlockId) (heal : Bool) : detach block heal = (do
    let keepsCopy ← query (·.leavesCopy block)
    let b ← query (·.block block)
    updateSession fun s =>
      { s with wasPlaceholder := b.placeholder, priorCopyOnDrag := b.copyOnDrag }
    let socket ← valueSocket b
    let copied := if keepsCopy && !b.placeholder then socket else none
    if b.placeholder then makeReal block socket
    noteAndWithdraw block heal b copied : Act α Unit) :=
  rfl

theorem noteAndWithdraw_eq (hs : ws.Sound) (hb : ws.blocks[d.block]? = some b)
    (hbare : ws.Bares b d real) (heal : Bool) (copied : Option ConnectionId)
    (requests : List (HostRequest α)) (phase : DragPhase) :
    noteAndWithdraw d.block heal b copied ⟨real, some d, requests, phase⟩ =
      withdraw d.block heal copied ⟨real, some { d with
        parentSocket := b.plugs.findSome? ws.targetOf
        childPlug := if heal then b.next.bind ws.targetOf else none }, requests, phase⟩ := by
  have hreal := hbare.sound hs hb
  have hblock := hbare.block hb
  have htarget : real.targetOf = ws.targetOf := funext (targetOf_congr (hbare.graph hb))
  have hparent : real.parentSocket d.block = .ok (b.plugs.findSome? ws.targetOf) := by
    rw [hreal.parentSocket hblock, htarget]
    rfl
  have hbelow : plugBelow b ⟨real, some d, requests, phase⟩ =
      .ok (b.next.bind ws.targetOf) ⟨real, some d, requests, phase⟩ := by
    have hreads := plugBelow_eq hreal hblock d requests phase
    rw [htarget] at hreads
    exact hreads
  unfold noteAndWithdraw
  rw [bind_eq (query_eq hparent)]
  cases heal with
  | true =>
    change (plugBelow b >>= _) _ = _
    rw [bind_eq hbelow]
    rfl
  | false => rfl

/-- Nothing is refused before a block is taken out. -/
theorem detach_eq (hs : ws.Sound) (hb : ws.blocks[s₀.block]? = some b)
    (hnone : s₀.templateSocket = none) (heal : Bool) (requests : List (HostRequest α)) (phase : DragPhase) :
    ∃ keeps real d, ws.leavesCopy s₀.block = .ok keeps ∧ ws.Primed b heal s₀ d real ∧
      detach s₀.block heal ⟨ws, some s₀, requests, phase⟩ = withdraw s₀.block heal
        (if keeps && !b.placeholder then b.output.bind ws.targetOf else none)
        ⟨real, some d, requests, phase⟩ := by
  obtain ⟨keeps, hkeeps⟩ := hs.leavesCopy_ok hb
  set s₁ : DragSession α :=
    { s₀ with wasPlaceholder := b.placeholder, priorCopyOnDrag := b.copyOnDrag } with hs₁
  have hnoted : updateSession (fun s : DragSession α => { s with
      wasPlaceholder := b.placeholder, priorCopyOnDrag := b.copyOnDrag })
      ⟨ws, some s₀, requests, phase⟩ = .ok () ⟨ws, some s₁, requests, phase⟩ := rfl
  rw [detach_def, bind_eq (query_eq hkeeps), bind_eq (query_eq (block_eq_ok.mpr hb)), bind_eq hnoted,
    bind_eq (valueSocket_eq hs hb)]
  dsimp only
  cases hp : b.placeholder with
  | true =>
    obtain ⟨real, told, hmade, hbare⟩ := makeReal_eq (d := s₁) hs hb hp hp hnone requests
      phase
    refine ⟨keeps, real, { s₁ with
      templateSocket := told
      parentSocket := b.plugs.findSome? ws.targetOf
      childPlug := if heal then b.next.bind ws.targetOf else none },
      hkeeps, ⟨hbare.congr rfl rfl rfl, rfl⟩, (bind_eq hmade).trans ?_⟩
    exact noteAndWithdraw_eq (d := { s₁ with templateSocket := told }) hs hb hbare heal _ requests phase
  | false =>
    have hbare : ws.Bares b s₁ ws := .real hp hp hnone
    refine ⟨keeps, ws, { s₁ with
      parentSocket := b.plugs.findSome? ws.targetOf
      childPlug := if heal then b.next.bind ws.targetOf else none },
      hkeeps, ⟨hbare.congr rfl rfl rfl, rfl⟩, ?_⟩
    exact noteAndWithdraw_eq (d := s₁) hs hb hbare heal _ requests phase

/-- The session of a drag whose block is away, beside what has been built. -/
def Halted (C : Set ConnectionId) (ws : Workspace α) (s p : ConnectionId) (d : DragSession α)
    (e : Editor α) : Prop :=
  ∃ copy, Beside (ws.Away C s p { d with copy := copy }) (· = some { d with copy := copy }) e

theorem leaveCopy_tells (hs : ws.Sound) (hcopy : d.copy = none) (hb : ws.blocks[d.block]? = some b)
    (snapshot : Snapshot) :
    Leads (Beside (ws.Cleared heal s p d.block) (· = some d)) (leaveCopy d.block s snapshot)
      (fun _ e => ∃ k, Beside (ws.Leaves heal s p d.block k) (· = some { d with copy := some k }) e)
      (Halted {s} ws s p d) := by
  have hJ := Editor.stable_true (α := α)
  unfold leaveCopy
  let Built (k : BlockId) (v : Workspace α) : Prop := ∃ u, ws.Cleared heal s p d.block u ∧
    u.Fresh k v ∧ v.Sound ∧ ∃ snapshot, Edit.restore snapshot u = .ok k v
  have parted : ∀ {k v}, Built k v → ws.Parted {s} s p d.block v := by
    rintro k v ⟨u, hclear, hfresh, hv, -⟩
    exact hclear.parted.extend hfresh.extend hv (hfresh.acyclic hv hclear.parted.acyclic)
  refine Leads.bind (Q := fun k => Beside (Built k) (· = some d))
    (Tells.weaken (edit_beside (Q := Built) (E := fun _ => ws.Parted {s} s p d.block) ?_)
      (fun _ h => h) (fun _ _ h => h) ?_) fun k => ?_
  · refine Tells.each (Edit.restore_keeps (X := Set.univ) hJ snapshot) fun u h => ?_
    have hgrows : Leads (· = u) (Edit.restore snapshot) _ _ :=
      Leads.pre (Edit.build_grows hJ.growing snapshot false Set.univ u) (by
        rintro _ rfl
        exact ⟨rfl, h.parted.sound, trivial⟩)
    refine Leads.weaken hgrows.runs (fun _ h => h) ?_ ?_
    · exact fun k v hv => ⟨u, h, hv.1.2.1, hv.1.1.sound, snapshot, hv.2⟩
    · exact fun v hv => h.parted.extend hv.extend hv.steady.sound (hv.acyclic h.parted.acyclic)
  · rintro _ e ⟨haway, hd⟩
    refine ⟨none, ?_, ?_⟩
    · exact haway
    · rw [hd, ← hcopy]
  have hnoted : Leads (Beside (Built k) (· = some d))
      (updateSession fun s => { s with copy := some k })
      (fun _ => Beside (Built k) (· = some { d with copy := some k })) (Halted {s} ws s p d) :=
    updateSession_beside fun o h => by rw [h]; rfl
  refine hnoted.bind fun _ => ?_
  refine Leads.bind (Q := fun _ => Beside (fun w => ∃ v q, Built k v ∧ v.Seats s q k none w)
    (· = some { d with copy := some k })) ?_ fun _ => ?_
  · refine Tells.weaken (edit_beside (Q := fun _ w => ∃ v q, Built k v ∧ v.Seats s q k none w)
      (E := fun _ v => v.Sound ∧ ∃ u, ws.Parted {s} s p d.block u ∧ u.Fresh k v) ?_)
      (fun _ h => h) (fun _ _ h => h) ?_
    · refine Tells.each (Edit.attach_keeps (X := ∅) hJ s k) fun v hbuilt => ?_
      have hparted := parted hbuilt
      obtain ⟨u, hclear, hfresh, hv, -⟩ := id hbuilt
      refine (Edit.attach_seats hv hparted.acyclic hfresh.loose hparted.vacant).weaken
        (fun _ h => h) ?_ ?_
      · rintro _ w ⟨q, hseat⟩
        exact ⟨v, q, hbuilt, hseat⟩
      · rintro _ ⟨rfl, -⟩
        exact ⟨hv, u, hclear.parted, hfresh⟩
    · rintro _ e ⟨haway, hd⟩
      exact ⟨some k, haway, hd⟩
  · refine Tells.weaken (edit_beside (Q := fun _ => ws.Leaves heal s p d.block k)
      (E := fun _ _ => False) (Leads.updateBlock ?_ ?_)) (fun _ h => h) (fun _ _ h => ⟨k, h⟩)
      fun _ _ h => h.1.elim
    · rintro w b' ⟨v, q, ⟨u, hclear, hfresh, hv, hrun⟩, hseat⟩ hb'
      exact ⟨u, v, q, w, b', hclear, hfresh, hv, hrun, hseat, hb', rfl⟩
    · rintro w ⟨v, q, hbuilt, hseat⟩ hdead
      have hlooks := (parted hbuilt).looks hs hseat (hs.blockIds hb)
      rw [hdead, hb] at hlooks
      cases hlooks

/-- A block is not taken out, or no copy could be left where it was. -/
def Foiled (ws : Workspace α) (d : DragSession α) (copied : Option ConnectionId) (e : Editor α) :
    Prop :=
  ∃ C s p, (∀ c ∈ C, copied = some c) ∧ Halted C ws s p d e

theorem withdraw_tells (hs : ws.Sound) (hac : ws.graph.Acyclic) (hb : ws.blocks[d.block]? = some b)
    (hcopy : d.copy = none) (heal : Bool) {copied : Option ConnectionId}
    (hsocket : ∀ s, copied = some s → b.output.bind ws.targetOf = some s) :
    Leads (Beside (· = ws) (· = some d)) (withdraw d.block heal copied)
      (fun _ e => ∃ d', e.session = some d' ∧ ws.Withdrawn heal d copied d' e.workspace)
      (Foiled ws d copied) := by
  have hJ := Editor.stable_true (α := α)
  have same : { d with copy := none } = d := by rw [← hcopy]
  have pulled := Edit.pullOut_pulls hs hac d.block heal
  have jammed : ∀ e : Editor α, Beside (ws.Jams d.block) (· = some d) e → Foiled ws d copied e := by
    rintro e ⟨hjam, hd⟩
    obtain ⟨s, p, hparted⟩ := hjam.parted hs hac hb
    exact ⟨∅, s, p, fun _ h => h.elim, none, hparted, hd.trans (congrArg some same.symm)⟩
  unfold withdraw
  cases copied with
  | none =>
    refine Leads.bind (Q := fun _ => Beside (ws.Pulls d.block heal) (· = some d))
      (Tells.weaken (edit_beside pulled) (fun _ h => h) (fun _ _ h => h) fun _ e h => jammed e h)
      fun _ => ?_
    exact Leads.post (request_beside _) fun _ e h => ⟨d, h.2, .bare h.1⟩
  | some s =>
    obtain ⟨snapshot, hsave⟩ := hs.save_ok ⟨b, hb⟩
    obtain ⟨o, ho, ht⟩ := Option.bind_eq_some_iff.mp (hsocket s rfl)
    refine Leads.bind (Q := fun _ => Beside (· = ws) (· = some d)) (query_beside (Leads.query
      (fun _ _ h _ => h) fun t e h he => ?_)) fun snapshot => ?_
    · rw [h, hsave] at he
      cases he
    refine Leads.bind (Q := fun _ => Beside (ws.Cleared heal s o d.block) (· = some d))
      (Tells.weaken (edit_beside pulled.runs) (fun _ h => h) ?_ fun _ e h => jammed e h) fun _ => ?_
    · rintro _ e ⟨⟨hpull, hrun⟩, hd⟩
      exact ⟨⟨hpull, hpull.parted hs hac hb ho ht, hrun⟩, hd⟩
    refine Leads.bind ((leaveCopy_tells hs hcopy hb snapshot).refused fun e h => ?_) fun _ => ?_
    · exact ⟨{s}, s, o, fun c hc => congrArg some hc.symm, h⟩
    · refine Leads.modify (fun _ h => h) ?_
      rintro e ⟨k, hleave, hd⟩
      exact ⟨_, hd, .copied hleave⟩

/-- What a drag has done when its block is detached, and when that was refused. -/
theorem detach_tells (hs : ws.Sound) (hac : ws.graph.Acyclic) (hb : ws.blocks[s₀.block]? = some b)
    (hcopy : s₀.copy = none) (hnone : s₀.templateSocket = none) {keeps : Bool}
    (hkeeps : ws.leavesCopy s₀.block = .ok keeps) (heal : Bool) :
    Leads (Beside (· = ws) (· = some s₀)) (detach s₀.block heal)
      (fun _ e => ∃ d real d', ws.Primed b heal s₀ d real ∧ e.session = some d' ∧
        real.Withdrawn heal d (ws.copySocket b keeps) d' e.workspace)
      fun e => ∃ d real, ws.Primed b heal s₀ d real ∧ Foiled real d (ws.copySocket b keeps) e := by
  have base := detach_keeps (X := ∅) (Editor.stable_true (α := α)) s₀.block heal
  refine Tells.each base ?_
  rintro ⟨ws', session, requests, phase⟩ ⟨hws, hsession⟩
  dsimp only at hws hsession
  subst ws' session
  obtain ⟨keeps', real, d, hkeeps', hprimed, heq⟩ := detach_eq hs hb hnone heal requests phase
  obtain rfl := Except.ok.inj (hkeeps.symm.trans hkeeps')
  have hx : d.block = s₀.block := by rw [hprimed.session]
  have hgraph := hprimed.bares.graph (hx ▸ hb)
  have hsocket : ∀ s, ws.copySocket b keeps = some s → b.output.bind real.targetOf = some s := by
    intro s h
    rw [copySocket] at h
    split at h
    · rw [show real.targetOf = ws.targetOf from funext (targetOf_congr hgraph), h]
    · cases h
  have hout := withdraw_tells (hprimed.bares.sound hs (hx ▸ hb)) (hgraph ▸ hac)
    (hprimed.bares.block (hx ▸ hb)) (by rw [hprimed.session]; exact hcopy) heal hsocket
  rw [hx] at hout
  refine Tells.resume base heq (Tells.weaken hout ?_ ?_ ?_)
  · rintro _ rfl
    exact ⟨rfl, rfl⟩
  · exact fun _ e ⟨d', hd, h⟩ => ⟨d, real, d', hprimed, hd, h⟩
  · exact fun _ e h => ⟨d, real, hprimed, h⟩

end Act

end BlockEditor
