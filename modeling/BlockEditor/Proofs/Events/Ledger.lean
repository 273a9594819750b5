import BlockEditor.Proofs.Evaluation
import BlockEditor.Proofs.Graph.Sockets

/-!
# Events and what they report

The events, read in order, tell which blocks are there, what hangs on what, and how many units each
container has. They are right at every step, but that a new block is reported after it got its
inputs, and a new number of units after the container was resized.
-/

namespace BlockEditor

variable {α : Type}

/-- A link is named by its socket and the block that hangs on it. -/
abbrev NamedLink := ConnectionId × BlockId

def Event.relink (links : List NamedLink) : Event α → List NamedLink
  | .connect s x => (s, x) :: links
  | .disconnect s x => links.filter (· ≠ (s, x))
  | .delete x => links.filter (·.2 ≠ x)
  | _ => links

/-- The links that events leave behind. -/
def linksAfter (es : List (Event α)) : List NamedLink :=
  es.foldl Event.relink []

def Event.recount (x : BlockId) (n : Nat) : Event α → Nat
  | .mutation y _ after => if y = x then after else n
  | _ => n

/-- The number of units that was reported last, or 0. -/
def unitsAfter (es : List (Event α)) (x : BlockId) : Nat :=
  es.foldl (Event.recount x) 0

/-- The block that an event reports on. -/
def Event.subject? : Event α → Option BlockId
  | .create x _ | .delete x | .mutation x _ _ => some x
  | _ => none

/-- Each change of a number of units starts from the number reported before. -/
def Counted (es : List (Event α)) : Prop :=
  ∀ es₁ x old new, es₁ ++ [.mutation x old new] <+: es → old = unitsAfter es₁ x

namespace EventLog

variable {log : EventLog α} {e : Event α}

/-- The events that are kept. -/
def history (log : EventLog α) : List (Event α) :=
  log.events.toList.map (·.event)

@[simp]
theorem history_setGroup (log : EventLog α) (on : Bool) : (log.setGroup on).history = log.history := by
  cases on <;> rfl

@[simp]
theorem dropped_setGroup (log : EventLog α) (on : Bool) : (log.setGroup on).dropped = log.dropped := by
  cases on <;> rfl

/-- A log that has let go of nothing has kept all. -/
theorem history_fire (h : (log.fire e).dropped = 0) :
    log.dropped = 0 ∧ (log.fire e).history = log.history ++ [e] := by
  unfold fire at h ⊢
  by_cases hfull : log.size = log.capacity
  · rw [if_pos hfull] at h
    cases h
  · rw [if_neg hfull] at h ⊢
    exact ⟨h, by simp [history]⟩

theorem history_fires {es : List (Event α)} (h : (es.foldl fire log).dropped = 0) :
    log.dropped = 0 ∧ (es.foldl fire log).history = log.history ++ es := by
  induction es generalizing log with
  | nil => exact ⟨h, (List.append_nil _).symm⟩
  | cons e rest ih =>
    obtain ⟨hd, hh⟩ := ih h
    obtain ⟨hd', hh'⟩ := history_fire hd
    exact ⟨hd', by rw [List.foldl_cons, hh, hh', List.append_assoc, List.singleton_append]⟩

end EventLog

/-! ### Reading more events -/

variable {es es' : List (Event α)} {e : Event α} {s : ConnectionId} {x : BlockId}

theorem linksAfter_concat (es : List (Event α)) (e : Event α) :
    linksAfter (es ++ [e]) = e.relink (linksAfter es) := by
  simp [linksAfter]

theorem unitsAfter_concat (es : List (Event α)) (e : Event α) (x : BlockId) :
    unitsAfter (es ++ [e]) x = e.recount x (unitsAfter es x) := by
  simp [unitsAfter]

/-- The event reports no number of units. -/
def Event.isUncounted : Event α → Bool
  | .mutation .. => false
  | _ => true

theorem Counted.concat (h : Counted es) (he : e.isUncounted) : Counted (es ++ [e]) := by
  intro es₁ x old new hp
  rcases List.prefix_concat_iff.mp hp with heq | hp
  · have hlast := List.append_inj_right' heq rfl
    cases hlast
    cases he
  · exact h es₁ x old new hp

theorem unitsAfter_uncounted (h : e.isUncounted) : unitsAfter (es ++ [e]) x = unitsAfter es x := by
  rw [unitsAfter_concat]
  cases e <;> first | rfl | cases h

/-- The event reports that something is gone. -/
def Event.isLoss : Event α → Bool
  | .delete .. | .disconnect .. => true
  | _ => false

theorem Event.isUncounted_of_isLoss (h : e.isLoss) : e.isUncounted := by
  cases e <;> first | rfl | cases h

theorem counted_losses (h : Counted es) (hes : ∀ e ∈ es', e.isLoss) : Counted (es ++ es') := by
  induction es' generalizing es with
  | nil => rwa [List.append_nil]
  | cons e rest ih =>
    rw [← List.singleton_append, ← List.append_assoc]
    refine ih (h.concat (Event.isUncounted_of_isLoss (hes e List.mem_cons_self))) ?_
    exact fun f hf => hes f (List.mem_cons_of_mem e hf)

theorem unitsAfter_losses (hes : ∀ e ∈ es', e.isLoss) :
    unitsAfter (es ++ es') x = unitsAfter es x := by
  induction es' generalizing es with
  | nil => rw [List.append_nil]
  | cons e rest ih =>
    rw [← List.singleton_append, ← List.append_assoc,
      ih fun f hf => hes f (List.mem_cons_of_mem e hf)]
    exact unitsAfter_uncounted (Event.isUncounted_of_isLoss (hes e List.mem_cons_self))

/-- What is left of the links once something is gone. -/
theorem mem_linksAfter_losses (hes : ∀ e ∈ es', e.isLoss) : (s, x) ∈ linksAfter (es ++ es') ↔
    (s, x) ∈ linksAfter es ∧ Event.delete x ∉ es' ∧ Event.disconnect s x ∉ es' := by
  induction es' generalizing es with
  | nil => simp
  | cons e rest ih =>
    rw [← List.singleton_append, ← List.append_assoc,
      ih fun f hf => hes f (List.mem_cons_of_mem e hf), linksAfter_concat]
    have he := hes e List.mem_cons_self
    cases e with
    | delete y =>
      simp only [Event.relink, List.mem_filter, List.singleton_append, List.mem_cons, not_or,
        decide_eq_true_eq, Event.delete.injEq, reduceCtorEq, not_false_eq_true, true_and]
      tauto
    | disconnect t y =>
      simp only [Event.relink, List.mem_filter, List.singleton_append, List.mem_cons, not_or,
        decide_eq_true_eq, Event.disconnect.injEq, Prod.mk.injEq, reduceCtorEq, not_false_eq_true,
        true_and, ne_eq]
      tauto
    | create | drag | move | connect | mutation => cases he

theorem Event.isUncounted_of_subject (h : e.subject? = none) : e.isUncounted := by
  cases e <;> first | rfl | cases h

/-- A number of units that was changed and not reported yet. -/
structure Debt where
  block : BlockId
  old : Nat
  new : Nat

namespace Workspace

variable {ws ws' : Workspace α} {fresh : Option BlockId} {owing : Option Debt} {id a : BlockId}
  {b : Block α} {p : ConnectionId}

/-- The events tell what there is, but for a block that is not reported yet and for one whose
number of units is not. -/
structure Told (fresh : Option BlockId) (owing : Option Debt) (es : List (Event α))
    (ws : Workspace α) : Prop where
  live : ∀ x, fresh ≠ some x →
    (ws.Live x ↔ (∃ t, Event.create x t ∈ es) ∧ Event.delete x ∉ es)
  waiting : ∀ x, fresh = some x → ws.Live x ∧ Event.delete x ∉ es
  links : ∀ s x, (s, x) ∈ linksAfter es ↔ ws.graph.Hangs s x
  units : ∀ (x : BlockId) b, owing.map Debt.block ≠ some x → ws.blocks[x]? = some b →
    b.units = unitsAfter es x
  debt : ∀ r, owing = some r → unitsAfter es r.block = r.old ∧
    ∀ b, ws.blocks[r.block]? = some b → b.units = r.new
  counted : Counted es
  named : ∀ e ∈ es, ∀ x, e.subject? = some x → x.index.toNat < ws.ids.blocks

/-- Blocks and their numbers of units are the same. -/
structure Recorded (ws ws' : Workspace α) : Prop where
  live : ∀ x, ws'.Live x ↔ ws.Live x
  units : ∀ (x : BlockId) b', ws'.blocks[x]? = some b' →
    ∃ b, ws.blocks[x]? = some b ∧ b'.units = b.units
  ids : ws.ids.blocks ≤ ws'.ids.blocks

theorem recorded_of_eq (hb : ws'.blocks = ws.blocks) (hids : ws'.ids = ws.ids) :
    ws.Recorded ws' where
  live x := by rw [Live, Live, hb]
  units x b' hb' := by
    rw [hb] at hb'
    exact ⟨b', hb', rfl⟩
  ids := by rw [hids]

theorem Shifts.recorded {S : BlockId → Prop} (h : ws.Shifts S ws') : ws.Recorded ws' where
  live x := by
    refine ⟨?_, h.live⟩
    rintro ⟨b, hb⟩
    obtain ⟨b', hb', -⟩ := h.symm_block hb
    exact ⟨b', hb'⟩
  units x b' hb' := by
    obtain ⟨b, hb, he⟩ := h.symm_block hb'
    exact ⟨b, hb, (congrArg (fun u : Block Unit => u.units) he).symm⟩
  ids := by rw [h.ids]

theorem recorded_insert {b' : Block α} (hb : ws.blocks[id]? = some b) (hu : b'.units = b.units) :
    ws.Recorded { ws with blocks := ws.blocks.insert id b' } where
  live x := by
    rw [Live, Live, getElem?_insert]
    by_cases hx : x = id
    · subst hx
      simp [hb]
    · rw [if_neg hx]
  units x c hc := by
    rw [getElem?_insert] at hc
    by_cases hx : x = id
    · rw [if_pos hx, Option.some.injEq] at hc
      subst hx hc
      exact ⟨b, hb, hu⟩
    · rw [if_neg hx] at hc
      exact ⟨c, hc, rfl⟩
  ids := Nat.le_refl _

section Lost

variable {keep gone : List Input} {R : List BlockId} (h : ws.Loses id keep gone R ws')

include h

theorem Loses.live_iff : ws'.Live x ↔ x ∉ R ∧ ws.Live x := by
  by_cases hx : x ∈ R
  · simp [hx, not_live (h.lost x hx)]
  · rw [Live, Live, h.kept x hx]
    simp [hx]

/-- What stays hangs where it hung. -/
theorem Loses.hangs_iff (hs : ws.Sound) (hl : ws.Seals gone R) :
    ws'.graph.Hangs s x ↔ ws.graph.Hangs s x ∧ x ∉ R := by
  rw [h.graph hs, Graph.hangs_prune hs.wired, decide_eq_false_iff_not]
  · intro c w hw hd hk
    simpa using h.plug_lost hs hw hk hd
  · intro c w hw hb
    exact (dead_iff_wire hw).mpr (Or.inr (by simpa using hb))
  · intro s p w v hlink hd
    simpa using hl hlink hd

end Lost

namespace Told

/-- Nothing has to be reported if blocks, links and numbers of units stay the same. -/
theorem frame (h : Told fresh owing es ws) (hr : ws.Recorded ws')
    (hlinks : ∀ s x, ws'.graph.Hangs s x ↔ ws.graph.Hangs s x) : Told fresh owing es ws' where
  live x hx := (hr.live x).trans (h.live x hx)
  waiting x hx := (h.waiting x hx).imp_left (hr.live x).mpr
  links s x := (h.links s x).trans (hlinks s x).symm
  units x b' hx hb' := by
    obtain ⟨b, hb, hu⟩ := hr.units x b' hb'
    rw [hu, h.units x b hx hb]
  debt r hr' := by
    refine (h.debt r hr').imp_right fun hnew b' hb' => ?_
    obtain ⟨b, hb, hu⟩ := hr.units r.block b' hb'
    rw [hu, hnew b hb]
  counted := h.counted
  named e he x hx := Nat.lt_of_lt_of_le (h.named e he x hx) hr.ids

/-- An event that is about links at most is reported together with the change of the links. -/
theorem report (h : Told fresh owing es ws) (he : e.subject? = none) (hr : ws.Recorded ws')
    (hlinks : ∀ s x, (s, x) ∈ e.relink (linksAfter es) ↔ ws'.graph.Hangs s x) :
    Told fresh owing (es ++ [e]) ws' where
  live x hx := by
    rw [hr.live, h.live x hx]
    cases e with
    | create | delete | mutation => cases he
    | drag | move | connect | disconnect => simp
  waiting x hx := by
    refine (h.waiting x hx).imp (hr.live x).mpr fun hd => ?_
    cases e with
    | create | delete | mutation => cases he
    | drag | move | connect | disconnect => simpa using hd
  links s x := by rw [linksAfter_concat, hlinks]
  units x b' hx hb' := by
    obtain ⟨b, hb, hu⟩ := hr.units x b' hb'
    rw [hu, h.units x b hx hb, unitsAfter_uncounted (Event.isUncounted_of_subject he)]
  debt r hr' := by
    rw [unitsAfter_uncounted (Event.isUncounted_of_subject he)]
    refine (h.debt r hr').imp_right fun hnew b' hb' => ?_
    obtain ⟨b, hb, hu⟩ := hr.units r.block b' hb'
    rw [hu, hnew b hb]
  counted := h.counted.concat (Event.isUncounted_of_subject he)
  named f hf x hx := by
    rcases List.mem_append.mp hf with hf | hf
    · exact Nat.lt_of_lt_of_le (h.named f hf x hx) hr.ids
    · rw [List.mem_singleton] at hf
      subst hf
      rw [he] at hx
      cases hx

theorem note (h : Told fresh owing es ws) (he : e.isNote) : Told fresh owing (es ++ [e]) ws := by
  cases e with
  | drag | move => exact h.report rfl (recorded_of_eq rfl rfl) h.links
  | create | delete | connect | disconnect | mutation => cases he

theorem cuts (h : Told fresh owing es ws) (hs : ws.Sound) (hstep : ws.Cuts s p a ws') :
    Told fresh owing (es ++ [.disconnect s a]) ws' := by
  obtain ⟨w, v, hl, rfl⟩ := hstep.link
  refine h.report rfl (recorded_of_eq hstep.blocks hstep.ids) fun t x => ?_
  rw [Event.relink, List.mem_filter, h.links, hstep.graph, Graph.hangs_cut hs.wired hl,
    decide_eq_true_eq, ne_eq, Prod.mk.injEq]
  refine and_congr_right fun hx => ⟨?_, fun hts h' => hts h'.1⟩
  rintro hne rfl
  exact hne ⟨rfl, hx.unique ⟨p, w, v, hl, rfl⟩⟩

theorem ties (h : Told fresh owing es ws) (hs : ws.Sound) (hstep : ws.Ties s p a ws') :
    Told fresh owing (es ++ [.connect s a]) ws' := by
  obtain ⟨w, v, hm, hw, hv, rfl⟩ := hstep.mates
  refine h.report rfl (recorded_of_eq hstep.blocks hstep.ids) fun t x => ?_
  rw [Event.relink, List.mem_cons, h.links, hstep.graph, Graph.hangs_tie hs.wired hm hw hv,
    Prod.mk.injEq, or_comm]

/-- What was taken away has been reported block by block. -/
theorem loses {keep gone : List Input} {R : List BlockId} (h : Told fresh owing es ws)
    (hs : ws.Sound) (hstep : ws.Loses id keep gone R ws') (hl : ws.Seals gone R)
    (hfresh : ∀ x, fresh = some x → x ∉ R)
    (hdelete : ∀ x, Event.delete x ∈ es' ↔ x ∈ R)
    (hes : ∀ e ∈ es', (∃ x, e = .delete x) ∨
      ∃ s a, e = .disconnect s a ∧ s ∈ gone.filterMap (·.connection) ∧ ws.across s = some a) :
    Told fresh owing (es ++ es') ws' := by
  have hloss : ∀ e ∈ es', e.isLoss := by
    intro e he
    rcases hes e he with ⟨x, rfl⟩ | ⟨t, y, rfl, -⟩ <;> rfl
  have hcreate : ∀ x t, Event.create x t ∈ es ++ es' ↔ Event.create x t ∈ es := by
    intro x t
    rw [List.mem_append]
    refine ⟨fun hmem => hmem.resolve_right fun hmem => ?_, Or.inl⟩
    cases hloss _ hmem
  have hunits : ∀ (x : BlockId) b', ws'.blocks[x]? = some b' →
      ∃ b, ws.blocks[x]? = some b ∧ b'.units = b.units := by
    intro x b' hb'
    obtain ⟨-, b, hb, rfl⟩ := hstep.old hb'
    exact ⟨b, hb, by split <;> rfl⟩
  refine ⟨fun x hx => ?_, fun x hx => ?_, fun t x => ?_, fun x b' hx hb' => ?_, fun r hr => ?_,
    counted_losses h.counted hloss, fun e he x hx => ?_⟩
  · simp only [hstep.live_iff, h.live x hx, hcreate, List.mem_append, not_or, hdelete]
    tauto
  · refine ⟨hstep.live_iff.mpr ⟨hfresh x hx, (h.waiting x hx).1⟩, ?_⟩
    rw [List.mem_append, not_or, hdelete]
    exact ⟨(h.waiting x hx).2, hfresh x hx⟩
  · rw [mem_linksAfter_losses hloss, h.links, hdelete, hstep.hangs_iff hs hl]
    refine ⟨fun hx => ⟨hx.1, hx.2.1⟩, fun hx => ⟨hx.1, hx.2, fun hmem => hx.2 ?_⟩⟩
    rcases hes _ hmem with ⟨y, hy⟩ | ⟨s', a', he, hgone, hacross⟩
    · cases hy
    · cases he
      obtain ⟨y, hy, -, hk⟩ := hstep.socket hs hgone
      obtain ⟨p, v, hlink, rfl⟩ := (across_socket hy hk).mp hacross
      exact hl hlink ((dead_iff hy).mpr (Or.inl hgone))
  · obtain ⟨b, hb, hu⟩ := hunits x b' hb'
    rw [unitsAfter_losses hloss, hu, h.units x b hx hb]
  · rw [unitsAfter_losses hloss]
    refine (h.debt r hr).imp_right fun hnew b' hb' => ?_
    obtain ⟨b, hb, hu⟩ := hunits r.block b' hb'
    rw [hu, hnew b hb]
  · rw [hstep.ids]
    rcases List.mem_append.mp he with he | he
    · exact h.named e he x hx
    · rcases hes e he with ⟨y, rfl⟩ | ⟨s', a', rfl, -⟩
      · cases hx
        obtain ⟨b, hb⟩ := hstep.live
        obtain ⟨c, hc⟩ := hs.live_of_branch hb (hstep.below x ((hdelete x).mp he))
        exact hs.blockIds hc
      · cases hx

theorem pushes [Scalar α] {ts : List InputTemplate} {is : List Input} {l : List NewEnd}
    (h : Told fresh owing es ws) (hs : ws.Sound) (hstep : ws.Pushes id ts is l ws') :
    Told fresh owing es ws' := by
  obtain ⟨b, hb⟩ := hstep.live
  refine h.frame ⟨fun x => ?_, fun x b' hb' => ?_, ?_⟩ fun t x => ?_
  · rw [Live, Live, hstep.blocks]
    simp
  · rw [hstep.blocks, Option.map_eq_some_iff] at hb'
    obtain ⟨c, hc, rfl⟩ := hb'
    exact ⟨c, hc, by split <;> rfl⟩
  · rw [hstep.rest]
  · rw [hstep.graph, Graph.hangs_addEnds hs.wired (ends_of_block hb) (hstep.addable hs)]

end Told

/-! ### New blocks and new numbers of units -/

theorem unitsAfter_unnamed (h : ∀ e ∈ es, e.subject? ≠ some x) : unitsAfter es x = 0 := by
  have hstep : ∀ (l : List (Event α)) (n : Nat), (∀ e ∈ l, e.subject? ≠ some x) →
      l.foldl (Event.recount x) n = n := by
    intro l
    induction l with
    | nil => exact fun _ _ => rfl
    | cons e rest ih =>
      intro n hl
      have he : e.recount x n = n := by
        have hne := hl e List.mem_cons_self
        cases e with
        | mutation y old new =>
          refine if_neg fun hy => hne ?_
          rw [hy]
          rfl
        | _ => rfl
      rw [List.foldl_cons, he]
      exact ih n fun f hf => hl f (List.mem_cons_of_mem e hf)
  exact hstep es 0 h

theorem Told.raises [Scalar α] {d : BlockDefinition} (h : Told none owing es ws) (hs : ws.Sound)
    (hd : d.output = none ∨ d.previous = none) (howing : owing.map Debt.block ≠ some id)
    (hstep : ws.Raises d id b ws') : Told (some id) owing es ws' := by
  have hnew : ∀ e ∈ es, e.subject? ≠ some id := by
    intro e he hsubject
    have := h.named e he id hsubject
    rw [hstep.new] at this
    omega
  refine ⟨fun x hx => ?_, fun x hx => ?_, fun t x => ?_, fun x b' hx hb' => ?_, fun r hr => ?_,
    h.counted, fun e he x hx => ?_⟩
  · have hne : x ≠ id := fun hx' => hx (by rw [hx'])
    rw [Live, hstep.blocks, if_neg hne]
    exact h.live x (by simp)
  · cases hx
    exact ⟨hstep.live, fun hmem => hnew _ hmem rfl⟩
  · rw [h.links, hstep.graph]
    refine ((Graph.hangs_addEnds (m := []) (hs.wired.addBlock (hstep.ends_none hs)) ?_
      (hstep.addable hs hd)).trans Graph.hangs_addBlock).symm
    simp [Graph.addBlock]
  · rw [hstep.blocks] at hb'
    by_cases hx' : x = id
    · rw [if_pos hx', Option.some.injEq] at hb'
      subst hx' hb'
      rw [unitsAfter_unnamed hnew, hstep.unfurnished.block]
      rfl
    · rw [if_neg hx'] at hb'
      exact h.units x b' hx hb'
  · refine (h.debt r hr).imp_right fun hb c hc => hb c ?_
    rw [hstep.blocks, if_neg] at hc
    · exact hc
    · rintro rfl
      exact howing (by rw [hr]; rfl)
  · have := h.named e he x hx
    rw [hstep.ids_blocks]
    omega

/-- A new block is reported. -/
theorem Told.create (h : Told (some id) owing es ws) (hs : ws.Sound) (typeName : String) :
    Told none owing (es ++ [.create id typeName]) ws := by
  refine ⟨fun x _ => ?_, fun x hx => ?_, fun t x => ?_, fun x b' hx hb' => ?_, fun r hr => ?_,
    h.counted.concat rfl, fun e he x hx => ?_⟩
  · obtain ⟨hlive, hd⟩ := h.waiting id rfl
    by_cases hx : x = id
    · subst hx
      simp [hlive, hd]
    · rw [h.live x (by simp [Ne.symm hx])]
      simp [hx]
  · cases hx
  · rw [← h.links, linksAfter_concat]
    exact Iff.rfl
  · rw [h.units x b' hx hb', unitsAfter_uncounted rfl]
  · rw [unitsAfter_uncounted rfl]
    exact h.debt r hr
  · rcases List.mem_append.mp he with he | he
    · exact h.named e he x hx
    · rw [List.mem_singleton] at he
      subst he
      cases hx
      obtain ⟨b, hb⟩ := (h.waiting id rfl).1
      exact hs.blockIds hb

theorem Told.owe {new : Nat} (h : Told none none es ws) (hb : ws.blocks[id]? = some b) :
    Told none (some ⟨id, b.units, new⟩) es
      { ws with blocks := ws.blocks.insert id { b with units := new } } := by
  have hg : Workspace.graph { ws with blocks := ws.blocks.insert id { b with units := new } } =
      ws.graph := graph_insert hb rfl
  refine ⟨fun x hx => ?_, fun x hx => ?_, fun t x => ?_, fun x b' hx hb' => ?_, fun r hr => ?_,
    h.counted, h.named⟩
  · rw [← h.live x (by simp), Live, Live, getElem?_insert]
    by_cases hx : x = id
    · subst hx
      simp [hb]
    · rw [if_neg hx]
  · cases hx
  · rw [h.links, hg]
  · have hne : x ≠ id := fun hx' => hx (by rw [hx']; rfl)
    rw [getElem?_insert, if_neg hne] at hb'
    exact h.units x b' (by simp) hb'
  · cases hr
    refine ⟨(h.units id b (by simp) hb).symm, fun b' hb' => ?_⟩
    rw [getElem?_insert, if_pos rfl, Option.some.injEq] at hb'
    rw [← hb']

/-- A new number of units is reported. -/
theorem Told.pay {old new : Nat} (h : Told none (some ⟨id, old, new⟩) es ws) (hs : ws.Sound)
    (hlive : ws.Live id) : Told none none (es ++ [.mutation id old new]) ws := by
  obtain ⟨hold, hnew⟩ := h.debt _ rfl
  refine ⟨fun x hx => ?_, fun x hx => ?_, fun t x => ?_, fun x b' hx hb' => ?_, fun r hr => ?_,
    fun es₁ x m n hp => ?_, fun e he x hx => ?_⟩
  · rw [h.live x (by simp)]
    simp
  · cases hx
  · rw [← h.links, linksAfter_concat]
    exact Iff.rfl
  · rw [unitsAfter_concat, Event.recount]
    by_cases hx' : id = x
    · subst hx'
      rw [if_pos rfl, hnew b' hb']
    · rw [if_neg hx']
      exact h.units x b' (fun he => hx' (Option.some.inj he)) hb'
  · cases hr
  · rcases List.prefix_concat_iff.mp hp with heq | hp
    · obtain ⟨rfl, hlast⟩ := List.append_inj' heq rfl
      cases hlast
      exact hold.symm
    · exact h.counted es₁ x m n hp
  · rcases List.mem_append.mp he with he | he
    · exact h.named e he x hx
    · rw [List.mem_singleton] at he
      subst he
      cases hx
      obtain ⟨b, hb⟩ := hlive
      exact hs.blockIds hb

/-- Nothing is owed if the number of units is as before, or the block is gone. -/
theorem Told.waive {old new : Nat} (h : Told none (some ⟨id, old, new⟩) es ws)
    (hd : old = new ∨ ¬ ws.Live id) : Told none none es ws := by
  obtain ⟨hold, hnew⟩ := h.debt _ rfl
  refine ⟨h.live, h.waiting, h.links, fun x b' _ hb' => ?_, fun r hr => ?_, h.counted, h.named⟩
  · by_cases hx : id = x
    · subst hx
      rcases hd with rfl | hgone
      · rw [hold, hnew b' hb']
      · exact (hgone ⟨b', hb'⟩).elim
    · exact h.units x b' (fun he => hx (Option.some.inj he)) hb'
  · cases hr

/-! ### The log of a workspace -/

/-- As long as the log has let go of nothing, it tells what there is. -/
def Reports (fresh : Option BlockId) (owing : Option Debt) (ws : Workspace α) : Prop :=
  ws.events.dropped = 0 → Told fresh owing ws.events.history ws

namespace Reports

variable {fresh' : Option BlockId} {owing' : Option Debt}

theorem silent (h : Reports fresh owing ws) (he : ws'.events = ws.events)
    (ht : ∀ es, Told fresh owing es ws → Told fresh' owing' es ws') :
    Reports fresh' owing' ws' := by
  intro hd
  rw [he] at hd ⊢
  exact ht _ (h hd)

theorem fire (h : Reports fresh owing ws) (he : ws'.events = ws.events.fire e)
    (ht : ∀ es, Told fresh owing es ws → Told fresh' owing' (es ++ [e]) ws') :
    Reports fresh' owing' ws' := by
  intro hd
  rw [he] at hd ⊢
  obtain ⟨hd', hh⟩ := EventLog.history_fire hd
  rw [hh]
  exact ht _ (h hd')

theorem fires (h : Reports fresh owing ws) (he : ws'.events = es'.foldl EventLog.fire ws.events)
    (ht : ∀ es, Told fresh owing es ws → Told fresh' owing' (es ++ es') ws') :
    Reports fresh' owing' ws' := by
  intro hd
  rw [he] at hd ⊢
  obtain ⟨hd', hh⟩ := EventLog.history_fires hd
  rw [hh]
  exact ht _ (h hd')

theorem same (h : Reports fresh owing ws) (he : ws'.events = ws.events) (hr : ws.Recorded ws')
    (hg : ws'.graph = ws.graph) : Reports fresh owing ws' :=
  h.silent he fun _ ht => ht.frame hr fun s x => by rw [hg]

theorem loses {keep gone : List Input} {R : List BlockId} (h : Reports fresh owing ws)
    (hs : ws.Sound) (hstep : ws.Loses id keep gone R ws') (hl : ws.Seals gone R)
    (hfresh : ∀ x, fresh = some x → x ∉ R) : Reports fresh owing ws' := by
  obtain ⟨es', he, hdelete, hes⟩ := hstep.told
  have hmem : ∀ x, Event.delete x ∈ es' ↔ x ∈ R := fun x => by
    rw [← EventLog.mem_deleted, hdelete]
  exact h.fires he fun es ht => ht.loses hs hstep hl hfresh hmem hes

end Reports

variable [Scalar α]

/-- What is not reported yet stays so while a block gets or loses inputs. -/
theorem fine_reports (owing : Option Debt) (hfresh : ∀ x, fresh = some x → x = id) :
    Fine (α := α) True id (Reports fresh owing) where
  shifts _ hstep h := h.same hstep.events hstep.recorded hstep.graph
  sheds hs ht hstep h := by
    obtain ⟨R, hl, hR⟩ := hstep
    obtain ⟨hseals, hid⟩ := hR (ht trivial)
    refine h.loses hs hl hseals fun x hx => ?_
    rw [hfresh x hx]
    exact hid
  pushes hs hstep h _ := by
    refine h.silent ?_ fun es ht => ht.pushes hs hstep
    rw [hstep.rest]

theorem fine_reported (owing : Option Debt) (id : BlockId) :
    Fine (α := α) True id (Reports none owing) :=
  fine_reports owing fun _ hx => by cases hx

theorem setUnits_reports (id : BlockId) (n : Nat) :
    Leads (Good (α := α) True id (Reports none none)) (Edit.setUnits id n)
      (fun _ t => Good True id (Reports none none) t ∧ t.Live id)
      fun t => t.Sound ∧ Reports none none t := by
  refine Edit.setUnits_keeps (K := fun old new => Reports none (some ⟨id, old, new⟩))
    (fine_reported none id).handles (fun _ _ => (fine_reported _ id).handles) (fun _ hb h => ?_)
    (fun {ws old new} hs hlive h => ?_) (fun _ hgone h => ?_) n
  · exact h.silent rfl fun es ht => ht.owe hb
  · by_cases hne : old = new
    · rw [if_neg (not_not.mpr hne)]
      exact h.silent rfl fun es ht => ht.waive (Or.inl hne)
    · rw [if_pos hne]
      refine h.fire rfl fun es ht => ?_
      exact (ht.pay hs hlive).frame (recorded_of_eq rfl rfl) fun _ _ => Iff.rfl
  · exact h.silent rfl fun es ht => ht.waive (Or.inr hgone)

theorem newBlock_reports (typeName : String) :
    Leads (fun ws : Workspace α => ws.Sound ∧ Reports none none ws) (Edit.newBlock typeName)
      (fun id t => Good True id (Reports none none) t ∧ t.Live id)
      fun t => t.Sound ∧ Reports none none t := by
  refine Edit.newBlock_keeps (K := fun _ id => Reports (some id) none)
    (L := fun _ => Reports none none) typeName (fun h => h) (fun hs hd hr h => ?_)
    (fun _ id => (fine_reports none fun x hx => (Option.some.inj hx).symm).handles)
    (fun {ws d id} hs h => ?_) (fun id => (fine_reported none id).handles) setUnits_reports
    (fun h => ?_) fun h => h
  · exact h.silent hr.events fun es ht => ht.raises hs (hs.registry typeName _ hd) nofun hr
  · refine h.fire rfl fun es ht => ?_
    exact (ht.create hs d.typeName).frame (recorded_of_eq rfl rfl) fun _ _ => Iff.rfl
  · exact h.same rfl (recorded_of_eq rfl rfl) rfl

theorem stable_reports : Stable (α := α) True fun _ => Reports none none where
  mono _ h := h
  shifts _ hstep h := h.same hstep.events hstep.recorded hstep.graph
  decorate _ hb he h := h.same rfl
    (recorded_insert hb (congrArg (fun u : Block Unit => u.units) he))
    (graph_insert hb (Block.roles_of_core he))
  field {X ws id b name value inputs} _ hb hf h := by
    have hset : Reports none none (ws.setInputs id b inputs) := h.same rfl (recorded_insert hb rfl)
      (graph_insert hb (by simp only [Block.roles, Edit.roles_setField hf]))
    exact hset.same rfl (recorded_of_eq rfl rfl) rfl
  side h := h.same rfl (recorded_of_eq rfl rfl) rfl
  note he h := h.fire rfl fun es ht =>
    (ht.note he).frame (recorded_of_eq rfl rfl) fun _ _ => Iff.rfl
  group h hd := by
    rw [EventLog.dropped_setGroup] at hd
    rw [EventLog.history_setGroup]
    exact (h hd).frame (recorded_of_eq rfl rfl) fun _ _ => Iff.rfl
  template _ ht hr h := h.same (by rw [hr]) (recorded_of_eq (by rw [hr]) (by rw [hr]))
    (graph_template ht (by rw [hr]))
  cuts hs hstep h := h.fire (by rw [hstep.rest]) fun es ht => ht.cuts hs hstep
  ties hs hstep h := h.fire (by rw [hstep.rest]) fun es ht => ht.ties hs hstep
  prunes hs _ hl hseals h := h.loses hs hl hseals nofun
  fill _ _ h := h
  newBlock typeName := (newBlock_reports typeName).weaken (fun _ h => h) (fun _ _ h => h.1.keeps)
    fun _ h => h.2
  setUnits id n := (setUnits_reports id n).weaken (fun _ h => ⟨h.1, h.2.2, h.2.1⟩)
    (fun _ _ h => h.1.keeps) fun _ h => h.2
  refreshControls id := (Edit.refreshControls_keeps (fine_reported none id).handles).weaken
    (fun _ h => ⟨h.1, h.2.2, h.2.1⟩) (fun _ _ h => h.1.keeps) fun _ h => h.keeps

omit [Scalar α] in
theorem empty_reports (config : EditorConfig α) (registry : Registry) (capacity : Nat) :
    Reports none none { empty config registry with events := EventLog.withCapacity capacity } := by
  intro _
  have hnone : (EventLog.withCapacity (α := α) capacity).history = [] := rfl
  refine ⟨fun x _ => ?_, nofun, fun s x => ?_, fun x b _ hb => ?_, nofun, fun es₁ x m n hp => ?_,
    fun e he => ?_⟩
  · simp [hnone, Live]
  · constructor
    · rw [hnone]
      intro h
      cases h
    · rintro ⟨p, w, v, hl, -⟩
      simpa [Workspace.graph] using hl.socket
  · simp at hb
  · rw [hnone, List.prefix_nil] at hp
    simp at hp
  · rw [hnone] at he
    cases he

end Workspace

end BlockEditor
