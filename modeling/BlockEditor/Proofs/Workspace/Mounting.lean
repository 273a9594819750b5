import BlockEditor.Proofs.Graph.Ends
import BlockEditor.Proofs.Workspace.Removal
import BlockEditor.Workspace.Creation

/-!
# Making ends and inputs

New connections get the next numbers, which no connection has as long as the numbers last. Inputs
are made after templates, and each socket that a template asks for is a new connection.
-/

namespace BlockEditor

variable {α : Type} [Scalar α]

/-- A new end as a connection: it is free and has no placeholder. -/
def NewEnd.mount (e : NewEnd) (id : BlockId) : Connection α where
  block := id
  kind := e.kind
  offset := Point.origin
  check := e.check
  target := none
  template := none

/-- Inputs made after templates, with the ends that were made for them. -/
inductive Built : List InputTemplate → List Input → List NewEnd → Prop
  | nil : Built [] [] []
  | dummy {t : InputTemplate} {ts : List InputTemplate} {is : List Input} {l : List NewEnd} :
      t.kind.connection? = none → Built ts is l →
      Built (t :: ts) (⟨t.name, t.kind, t.fields, none⟩ :: is) l
  | socket {t : InputTemplate} {ts : List InputTemplate} {is : List Input} {l : List NewEnd}
      {k : ConnectionKind} (c : ConnectionId) :
      t.kind.connection? = some k → Built ts is l →
      Built (t :: ts) (⟨t.name, t.kind, t.fields, some c⟩ :: is) (⟨c, k, t.check⟩ :: l)

namespace Built

variable {ts ts' : List InputTemplate} {is is' : List Input} {l l' : List NewEnd}

theorem append (h : Built ts is l) (h' : Built ts' is' l') :
    Built (ts ++ ts') (is ++ is') (l ++ l') := by
  induction h with
  | nil => exact h'
  | dummy hk _ ih => exact .dummy hk ih
  | socket c hk _ ih => exact .socket c hk ih

theorem roles (h : Built ts is l) :
    is.filterMap Input.role? = l.map fun e => (e.connection, some e.kind) := by
  induction h with
  | nil => rfl
  | dummy _ _ ih => exact ih
  | socket c hk _ ih => simp [Input.role?, hk, ih]

theorem connections (h : Built ts is l) :
    is.filterMap (·.connection) = l.map (·.connection) := by
  induction h with
  | nil => rfl
  | dummy _ _ ih => simpa using ih
  | socket c hk _ ih => simp [ih]

theorem isSocket (h : Built ts is l) : ∀ e ∈ l, e.kind.isSocket := by
  induction h with
  | nil =>
    intro e he
    cases he
  | dummy _ _ ih => exact ih
  | socket c hk _ ih =>
    intro e he
    rcases List.mem_cons.mp he with rfl | he
    · exact Workspace.InputKind.isSocket_of_connection? hk
    · exact ih e he

end Built

omit [Scalar α] in
theorem mem_or_ne (l : List NewEnd) (c : ConnectionId) :
    (∃ e ∈ l, e.connection = c) ∨ ∀ e ∈ l, c ≠ e.connection := by
  by_cases hc : c ∈ l.map (·.connection)
  · exact Or.inl (List.mem_map.mp hc)
  · exact Or.inr fun e he h => hc (h ▸ List.mem_map_of_mem he)

namespace Workspace

variable {ws ws' : Workspace α} {id x : BlockId} {c : ConnectionId} {l : List NewEnd}

/-- The ids of `n` connections from a number on. -/
def numbered (first n : Nat) : List ConnectionId :=
  (List.range' first n).map fun k => ⟨UInt32.ofNat k⟩

theorem numbered_add (first n m : Nat) :
    numbered first (n + m) = numbered first n ++ numbered (first + n) m := by
  rw [numbered, ← List.range'_append_1, List.map_append]
  rfl

/-- The connections `l` were made for a block. -/
structure Mounts (ws : Workspace α) (id : BlockId) (l : List NewEnd) (ws' : Workspace α) :
    Prop where
  made : ∀ e ∈ l, ws'.connections[e.connection]? = some (e.mount id)
  kept : ∀ c : ConnectionId, (∀ e ∈ l, c ≠ e.connection) →
    ws'.connections[c]? = ws.connections[c]?
  fresh : ∀ e ∈ l, ws.ids.connections ≤ e.connection.index.toNat ∧
    e.connection.index.toNat < ws'.ids.connections
  nodup : (l.map (·.connection)).Nodup
  numbers : l.map (·.connection) = numbered ws.ids.connections l.length
  total : ws'.ids.connections = ws.ids.connections + l.length
  rest : ws' = { ws with
    ids := { ws.ids with connections := ws'.ids.connections }
    connections := ws'.connections }

namespace Mounts

theorem count (h : ws.Mounts id l ws') : ws.ids.connections ≤ ws'.ids.connections := by
  rw [h.total]
  exact Nat.le_add_right _ _

theorem nil (ws : Workspace α) (id : BlockId) : ws.Mounts id [] ws where
  made e he := by cases he
  kept _ _ := rfl
  fresh e he := by cases he
  nodup := List.nodup_nil
  numbers := rfl
  total := rfl
  rest := rfl

theorem blocks (h : ws.Mounts id l ws') : ws'.blocks = ws.blocks := by
  rw [h.rest]

theorem add (h : ws.Mounts id l ws') (hids : ws'.ids.connections + 1 ≤ 2 ^ 32)
    (k : ConnectionKind) (check : Option (List String)) :
    ws.Mounts id (l ++ [⟨⟨UInt32.ofNat ws'.ids.connections⟩, k, check⟩])
      { ws' with
        ids := { ws'.ids with connections := ws'.ids.connections + 1 }
        connections := ws'.connections.insert ⟨UInt32.ofNat ws'.ids.connections⟩
          (NewEnd.mount ⟨⟨UInt32.ofNat ws'.ids.connections⟩, k, check⟩ id) } where
  made e he := by
    have hnew : (UInt32.ofNat ws'.ids.connections).toNat = ws'.ids.connections := by
      rw [UInt32.toNat_ofNat']
      omega
    rw [Std.ExtTreeMap.getElem?_insert]
    rcases List.mem_append.mp he with he | he
    · rw [if_neg, h.made e he]
      intro hc
      have := Std.LawfulEqCmp.eq_of_compare hc
      have hlt := (h.fresh e he).2
      rw [← this] at hlt
      simp only [hnew] at hlt
      omega
    · rw [List.mem_singleton] at he
      subst he
      rw [if_pos (by simp)]
  kept c hc := by
    have hne : c ≠ ⟨UInt32.ofNat ws'.ids.connections⟩ :=
      hc ⟨⟨UInt32.ofNat ws'.ids.connections⟩, k, check⟩ (by simp)
    rw [Std.ExtTreeMap.getElem?_insert, if_neg, h.kept c]
    · exact fun e he => hc e (List.mem_append_left _ he)
    · exact fun he => hne (Std.LawfulEqCmp.eq_of_compare he).symm
  fresh e he := by
    have hnew : (UInt32.ofNat ws'.ids.connections).toNat = ws'.ids.connections := by
      rw [UInt32.toNat_ofNat']
      omega
    have hcount := h.count
    rcases List.mem_append.mp he with he | he
    · have := h.fresh e he
      exact ⟨this.1, Nat.lt_succ_of_lt this.2⟩
    · rw [List.mem_singleton] at he
      subst he
      simp only [hnew]
      omega
  nodup := by
    have hnew : (UInt32.ofNat ws'.ids.connections).toNat = ws'.ids.connections := by
      rw [UInt32.toNat_ofNat']
      omega
    rw [List.map_append, List.nodup_append]
    refine ⟨h.nodup, by simp, fun c hc d hd => ?_⟩
    obtain ⟨e, he, rfl⟩ := List.mem_map.mp hc
    simp only [List.map_cons, List.map_nil, List.mem_singleton] at hd
    subst hd
    intro heq
    have := (h.fresh e he).2
    rw [heq] at this
    simp only [hnew] at this
    omega
  numbers := by
    rw [List.map_append, List.length_append, numbered_add, ← h.numbers, ← h.total]
    rfl
  total := by
    rw [List.length_append, ← Nat.add_assoc, ← h.total]
    rfl
  rest := by
    simp only
    rw [h.rest]

end Mounts

/-- Inputs were made after templates and added at the end of a block. -/
structure Pushes (ws : Workspace α) (id : BlockId) (ts : List InputTemplate) (is : List Input)
    (l : List NewEnd) (ws' : Workspace α) : Prop where
  live : ws.Live id
  built : Built ts is l
  step : ∃ t, ws.Mounts id l t ∧
    ∀ b, ws.blocks[id]? = some b → ws' = t.setInputs id b (b.inputs ++ is)

namespace Pushes

variable {ts : List InputTemplate} {is : List Input} {a : BlockId} {b : Block α}

theorem blocks (h : ws.Pushes id ts is l ws') (x : BlockId) :
    ws'.blocks[x]? = (ws.blocks[x]?).map fun b : Block α =>
      if x = id then { b with inputs := b.inputs ++ is } else b := by
  obtain ⟨b, hb⟩ := h.live
  obtain ⟨t, hm, ht⟩ := h.step
  rw [ht b hb, getElem?_setInputs, hm.blocks]
  by_cases hx : x = id
  · simp [hx, hb]
  · simp [hx]

theorem stays (h : ws.Pushes id ts is l ws') (hx : ws.Live x) : ws'.Live x := by
  obtain ⟨b, hb⟩ := hx
  rw [Live, h.blocks, hb]
  exact ⟨_, rfl⟩

theorem made (h : ws.Pushes id ts is l ws') :
    ∀ e ∈ l, ws'.connections[e.connection]? = some (e.mount id) := by
  obtain ⟨b, hb⟩ := h.live
  obtain ⟨t, hm, ht⟩ := h.step
  rw [ht b hb]
  exact hm.made

theorem kept (h : ws.Pushes id ts is l ws') (hc : ∀ e ∈ l, c ≠ e.connection) :
    ws'.connections[c]? = ws.connections[c]? := by
  obtain ⟨b, hb⟩ := h.live
  obtain ⟨t, hm, ht⟩ := h.step
  rw [ht b hb]
  exact hm.kept c hc

theorem fresh (h : ws.Pushes id ts is l ws') : ∀ e ∈ l,
    ws.ids.connections ≤ e.connection.index.toNat ∧
      e.connection.index.toNat < ws'.ids.connections := by
  obtain ⟨b, hb⟩ := h.live
  obtain ⟨t, hm, ht⟩ := h.step
  rw [ht b hb]
  exact hm.fresh

theorem nodup (h : ws.Pushes id ts is l ws') : (l.map (·.connection)).Nodup := by
  obtain ⟨t, hm, -⟩ := h.step
  exact hm.nodup

theorem numbers (h : ws.Pushes id ts is l ws') :
    l.map (·.connection) = numbered ws.ids.connections l.length := by
  obtain ⟨t, hm, -⟩ := h.step
  exact hm.numbers

theorem total (h : ws.Pushes id ts is l ws') :
    ws'.ids.connections = ws.ids.connections + l.length := by
  obtain ⟨b, hb⟩ := h.live
  obtain ⟨t, hm, ht⟩ := h.step
  rw [ht b hb]
  exact hm.total

theorem count (h : ws.Pushes id ts is l ws') : ws.ids.connections ≤ ws'.ids.connections := by
  rw [h.total]
  exact Nat.le_add_right _ _

theorem rest (h : ws.Pushes id ts is l ws') : ws' = { ws with
    ids := { ws.ids with connections := ws'.ids.connections }
    blocks := ws'.blocks
    connections := ws'.connections } := by
  obtain ⟨b, hb⟩ := h.live
  obtain ⟨t, hm, ht⟩ := h.step
  rw [ht b hb]
  simp only [setInputs]
  rw [hm.rest]

theorem kept_of_old (h : ws.Pushes id ts is l ws') (hc : c.index.toNat < ws.ids.connections) :
    ws'.connections[c]? = ws.connections[c]? := by
  refine h.kept fun e he hce => ?_
  have := (h.fresh e he).1
  rw [hce] at hc
  omega

theorem addable (h : ws.Pushes id ts is l ws') (hs : ws.Sound) : ws.graph.Addable id l where
  nodup := h.nodup
  fresh e he := by
    cases hw : ws.graph.wire e.connection with
    | none => rfl
    | some w =>
      obtain ⟨y, hy, -⟩ := connection_of_wire hw
      have hlt := hs.connectionIds hy
      have hle := (h.fresh e he).1
      omega
  onePlug := by
    refine List.pairwise_of_forall_mem_list fun e _ f hf _ => ?_
    rw [ConnectionKind.isPlug_eq_not, h.built.isSocket f hf]
    rfl
  plug e he hk := by
    rw [ConnectionKind.isPlug_eq_not, h.built.isSocket e he] at hk
    cases hk

theorem graph (h : ws.Pushes id ts is l ws') : ws'.graph = ws.graph.addEnds id l := by
  have hends : ws'.graph.ends = (ws.graph.addEnds id l).ends := by
    funext x
    rw [Graph.addEnds_ends]
    simp only [Workspace.graph, h.blocks]
    by_cases hx : x = id
    · subst hx
      cases hb : ws.blocks[x]? with
      | none => simp
      | some b =>
        simp only [if_true, Option.map_some, Option.some.injEq]
        rw [Block.roles, Block.roles, List.filterMap_append, h.built.roles, ← List.append_assoc]
    · simp [hx]
  have hwire : ws'.graph.wire = (ws.graph.addEnds id l).wire := by
    funext c
    rcases mem_or_ne l c with ⟨e, he, rfl⟩ | hc
    · rw [Graph.addEnds_wire_of_mem h.nodup he]
      simp only [Workspace.graph, h.made e he]
      rfl
    · rw [Graph.addEnds_wire_of_ne hc]
      simp only [Workspace.graph, h.kept hc]
  exact congrArg₂ Graph.mk hends hwire

theorem sound (h : ws.Pushes id ts is l ws') (hs : ws.Sound) : ws'.Sound where
  wired := by
    obtain ⟨b, hb⟩ := h.live
    rw [h.graph]
    exact hs.wired.addEnds (ends_of_block hb) (h.addable hs)
  blockIds hb := by
    rw [h.blocks, Option.map_eq_some_iff] at hb
    obtain ⟨b, hb, -⟩ := hb
    rw [h.rest]
    exact hs.blockIds hb
  connectionIds {c y} hy := by
    rcases mem_or_ne l c with ⟨e, he, rfl⟩ | hc
    · exact (h.fresh e he).2
    · rw [h.kept hc] at hy
      exact Nat.lt_of_lt_of_le (hs.connectionIds hy) h.count
  registry := by
    rw [h.rest]
    exact hs.registry

theorem under (h : ws.Pushes id ts is l ws') (hs : ws.Sound) (hu : ws'.graph.Under a x) :
    ws.graph.Under a x := by
  obtain ⟨b, hb⟩ := h.live
  rw [h.graph] at hu
  exact Graph.under_of_addEnds hs.wired (ends_of_block hb) (h.addable hs) hu

theorem loose (h : ws.Pushes id ts is l ws') (hs : ws.Sound) :
    ws'.graph.Loose x ↔ ws.graph.Loose x := by
  rw [h.graph]
  exact Graph.loose_addEnds (h.addable hs)

/-- Whatever is below a block was there before, and was below it. -/
theorem branch {r : BlockId} (h : ws.Pushes id ts is l ws') (hs : ws.Sound)
    (hx : ws.Branch r x) : ws'.Branch r x := by
  refine hx.imp_right fun hb => hb.mono fun a y hu => ?_
  rw [h.graph]
  exact Graph.under_addEnds (h.addable hs) hu

end Pushes

end Workspace

namespace Edit

open Workspace

variable {ws : Workspace α} {id : BlockId} {l : List NewEnd} {E : Workspace α → Prop}

theorem newConnection_leads (k : ConnectionKind) (check : Option (List String)) :
    Leads (ws.Mounts id l) (newConnection id k check)
      (fun c t => ws.Mounts id (l ++ [⟨c, k, check⟩]) t) E := by
  refine Leads.step (f := fun t => (⟨UInt32.ofNat t.ids.connections⟩,
    { t with
      ids := { t.ids with connections := t.ids.connections + 1 }
      connections := t.connections.insert ⟨UInt32.ofNat t.ids.connections⟩
        (NewEnd.mount ⟨⟨UInt32.ofNat t.ids.connections⟩, k, check⟩ id) }))
    (fun _ => rfl) ?_ ?_
  · intro t ht
    rw [lasts_workspace] at ht ⊢
    have := ht.2
    simp only at this
    exact ⟨ht.1, by omega⟩
  · intro t ht h
    exact h.add ht.2 k check

theorem mountInput_leads (t : InputTemplate) :
    Leads (ws.Mounts id l) (mountInput id t)
      (fun i t' => ∃ l', Built [t] [i] l' ∧ ws.Mounts id (l ++ l') t') E := by
  unfold mountInput
  cases hk : t.kind.connection? with
  | none => exact Leads.pure fun _ h => ⟨[], .dummy hk .nil, by rwa [List.append_nil]⟩
  | some k =>
    refine (newConnection_leads k t.check).bind fun c => Leads.pure fun t' h => ?_
    exact ⟨[⟨c, k, t.check⟩], .socket c hk .nil, h⟩

theorem mountInputs_leads (ws : Workspace α) (id : BlockId) (l : List NewEnd)
    (ts : List InputTemplate) :
    Leads (ws.Mounts id l) (ts.mapM (mountInput id))
      (fun is t' => ∃ l', Built ts is l' ∧ ws.Mounts id (l ++ l') t') E := by
  induction ts generalizing l with
  | nil => exact Leads.pure fun _ h => ⟨[], .nil, by rwa [List.append_nil]⟩
  | cons t rest ih =>
    rw [List.mapM_cons]
    refine (mountInput_leads t).bind fun i => ?_
    refine Leads.choose fun l₁ => ?_
    refine (((ih (l := l ++ l₁)).frame (c := Built [t] [i] l₁)).pre
      fun _ h => ⟨h.2, h.1⟩).refused (fun _ h => h.1) |>.bind fun is => Leads.pure ?_
    rintro t' ⟨⟨l₂, hb₂, hm⟩, hb₁⟩
    exact ⟨l₁ ++ l₂, hb₁.append hb₂, by rwa [← List.append_assoc]⟩

/-- Adding inputs is refused only if the block is gone. -/
theorem pushInputs_leads (ws : Workspace α) (id : BlockId) (ts : List InputTemplate) :
    Leads (· = ws) (pushInputs id ts) (fun _ t => ∃ is l, ws.Pushes id ts is l t)
      fun t => t = ws ∧ ¬ ws.Live id := by
  unfold pushInputs
  refine (Leads.block ?_).bind fun b₀ => ?_
  · rintro _ rfl hn
    exact ⟨rfl, not_live hn⟩
  refine (((mountInputs_leads (E := fun _ => False) ws id [] ts).frame
    (c := ws.blocks[id]? = some b₀)).pre ?_).refused (fun _ h => h.1.elim) |>.bind fun is => ?_
  · rintro _ ⟨rfl, hb⟩
    exact ⟨Mounts.nil _ _, hb⟩
  refine Leads.updateBlock ?_ ?_
  · rintro t b ⟨⟨l, hb, hm⟩, hb₀⟩ hb'
    rw [hm.blocks, hb₀] at hb'
    cases hb'
    exact ⟨is, l, ⟨b₀, hb₀⟩, hb, t, hm, fun b hb => by rw [hb₀] at hb; cases hb; rfl⟩
  · rintro t ⟨⟨l, -, hm⟩, hb₀⟩ hn
    rw [hm.blocks, hb₀] at hn
    cases hn

end Edit

end BlockEditor
