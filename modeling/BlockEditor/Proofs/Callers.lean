import BlockEditor.Proofs.Coherence
import BlockEditor.Proofs.Evaluation
import BlockEditor.Proofs.Refusals

/-!
# Refused snapshots

A snapshot is built from the top down until a part of it is refused, and what has been built by then
stays. All of it is new. What was there before is as it was, and so are the callers of procedures,
for only new blocks are registered and only new blocks are taken away again.
-/

namespace BlockEditor

variable {α : Type}

namespace Procedures

variable {p q : Procedures} {n m : Nat} {id : BlockId}

/-- The registrations of the blocks with an earlier number. -/
def earlier (n : Nat) (p : Procedures) : List (String × BlockId) :=
  p.calls.filter fun call => decide (call.2.index.toNat < n)

/-- What is left out has a later number, and does not matter. -/
theorem earlier_filter {keep : String × BlockId → Bool} (hq : q.calls = p.calls.filter keep)
    (h : ∀ call : String × BlockId, call.2.index.toNat < n → keep call) :
    q.earlier n = p.earlier n := by
  rw [earlier, earlier, hq, List.filter_filter]
  apply List.filter_congr
  intro call _
  by_cases hc : call.2.index.toNat < n
  · simp [hc, h call hc]
  · simp [hc]

theorem earlier_register (name : String) (h : n ≤ id.index.toNat) :
    (p.register name id).earlier n = p.earlier n := by
  have hforget : (p.forget id).earlier n = p.earlier n := by
    apply earlier_filter rfl
    intro call hc
    simp only [ne_eq, decide_not, Bool.not_eq_eq_eq_not, Bool.not_true, decide_eq_false_iff_not]
    intro he
    rw [he] at hc
    omega
  have hlate : ¬ id.index.toNat < n := by omega
  rw [← hforget, earlier, earlier, register, List.filter_append]
  simp [hlate]

theorem earlier_of_le (hnm : n ≤ m) (h : q.earlier m = p.earlier m) : q.earlier n = p.earlier n := by
  have hlate : ∀ r : Procedures, r.earlier n = (⟨r.earlier m⟩ : Procedures).earlier n := by
    intro r
    symm
    apply earlier_filter rfl
    intro call hc
    apply decide_eq_true
    omega
  rw [hlate q, hlate p, h]

end Procedures

namespace Workspace

variable {ws u t : Workspace α} {id : BlockId}

/-- The blocks that were there are registered as they were, in the same order. -/
structure SameCallers (ws t : Workspace α) : Prop where
  count : ws.ids.blocks ≤ t.ids.blocks
  calls : t.procedures.earlier ws.ids.blocks = ws.procedures.earlier ws.ids.blocks

namespace SameCallers

theorem refl (ws : Workspace α) : ws.SameCallers ws :=
  ⟨Nat.le_refl _, rfl⟩

theorem trans (h : ws.SameCallers u) (h' : u.SameCallers t) : ws.SameCallers t where
  count := Nat.le_trans h.count h'.count
  calls := (Procedures.earlier_of_le h.count h'.calls).trans h.calls

theorem congr (h : ws.SameCallers u) (hids : t.ids.blocks = u.ids.blocks)
    (hcalls : t.procedures = u.procedures) : ws.SameCallers t where
  count := by
    rw [hids]
    exact h.count
  calls := by
    rw [hcalls]
    exact h.calls

theorem register (h : ws.SameCallers t) (name : String) (hid : ws.ids.blocks ≤ id.index.toNat) :
    ws.SameCallers { t with procedures := t.procedures.register name id } where
  count := h.count
  calls := (Procedures.earlier_register name hid).trans h.calls

end SameCallers

variable [Scalar α]

/-- A new block may be given inputs and lose them again. -/
theorem fine_sameCallers (ws : Workspace α) (id : BlockId) :
    Fine (α := α) False id fun t => ws.Fresh id t ∧ ws.SameCallers t where
  shifts hs hstep h := by
    refine ⟨(fine_fresh False ws id).shifts hs hstep h.1, h.2.congr ?_ ?_⟩
    · rw [hstep.ids]
    · rw [hstep.rest]
  sheds {t t' keep gone} hs htame hstep h := by
    refine ⟨(fine_fresh False ws id).sheds hs htame hstep h.1, ?_, ?_⟩
    · obtain ⟨R, hl, -⟩ := hstep
      rw [hl.ids]
      exact h.2.count
    · obtain ⟨R, hl, -⟩ := hstep
      rw [← h.2.calls]
      apply Procedures.earlier_filter hl.procedures
      intro call hc
      have hkept : call.2 ∉ R := by
        intro hR
        have hnew := h.1.extend.branch_new h.1.start hs h.1.new (hl.below call.2 hR)
        omega
      simp [hkept]
  pushes hs hstep h hT := by
    refine ⟨(fine_fresh False ws id).pushes hs hstep h.1 hT, h.2.congr ?_ ?_⟩
    · rw [hstep.rest]
    · rw [hstep.rest]

end Workspace

namespace Edit

open Workspace

variable [Scalar α] {ws : Workspace α} {id : BlockId}

/-! ### The new block -/

theorem setUnits_sameCallers (ws : Workspace α) (id : BlockId) (n : Nat) :
    Leads (Good False id fun t => ws.Fresh id t ∧ ws.SameCallers t) (setUnits id n)
      (fun _ t => Good False id (fun t => ws.Fresh id t ∧ ws.SameCallers t) t ∧ t.Live id)
      fun t => t.Sound ∧ ws.Fresh id t ∧ ws.SameCallers t := by
  have hfine := (fine_sameCallers ws id).handles
  refine setUnits_keeps (K := fun _ _ t => ws.Fresh id t ∧ ws.SameCallers t) hfine
    (fun _ _ => hfine) ?_ ?_ (fun _ _ h => h) n
  · intro t b new _ hb h
    exact ⟨h.1.insert hb rfl, h.2.congr rfl rfl⟩
  · intro t old new _ _ h
    split
    · exact ⟨h.1.congr rfl, h.2.congr rfl rfl⟩
    · exact h

theorem newBlock_sameCallers (ws : Workspace α) (typeName : String) :
    Leads (fun t => t = ws ∧ ws.Sound) (newBlock typeName) (fun _ => ws.SameCallers)
      ws.SameCallers := by
  refine (newBlock_keeps (P := fun t => t = ws ∧ ws.Sound) (J := ws.SameCallers)
    (K := fun _ id t => ws.Fresh id t ∧ ws.SameCallers t)
    (L := fun id t => ws.Fresh id t ∧ ws.SameCallers t) typeName ?_ ?_
    (fun _ id => (fine_sameCallers ws id).handles) ?_ (fun id => (fine_sameCallers ws id).handles)
    (setUnits_sameCallers ws) ?_
    (fun h => h.2)).weaken ?_ (fun _ _ h => h.1.keeps.2) fun _ h => h.2
  · rintro t ⟨rfl, -⟩
    exact .refl t
  · rintro t d id b t' hs hd hr ⟨rfl, -⟩
    obtain ⟨m, hm, ht'⟩ := hr.step
    refine ⟨(hr.blank_fresh hs (hs.registry typeName d hd)).1, ?_, ?_⟩
    · rw [hr.ids_blocks]
      exact Nat.le_succ _
    · rw [ht', hm.rest]
  · intro t d id _ h
    exact ⟨h.1.congr rfl, h.2.congr rfl rfl⟩
  · intro t id name h
    exact ⟨h.1.congr rfl, h.2.register name h.1.new⟩
  · rintro t ⟨rfl, hs⟩
    exact ⟨hs, rfl, hs⟩

omit [Scalar α] in
theorem setField_sameCallers (ws : Workspace α) (id : BlockId) (name value : String) :
    Leads (fun t => ws.ids.blocks ≤ id.index.toNat ∧ ws.SameCallers t) (setField id name value)
      (fun _ => ws.SameCallers) ws.SameCallers := by
  unfold setField
  refine (Leads.block fun _ h _ => h.2).bind fun b => ?_
  cases setFieldAmong name value b.inputs with
  | none => exact Leads.throw fun _ h => h.1.2
  | some inputs =>
    refine Leads.bind (Q := fun _ t => ws.ids.blocks ≤ id.index.toNat ∧ ws.SameCallers t)
      (Leads.updateBlock ?_ ?_) fun _ => ?_
    · exact fun t b h _ => ⟨h.1.1, h.1.2.congr rfl rfl⟩
    · exact fun t h _ => h.1.2
    · refine Leads.ite (fun _ => Leads.alter ?_) fun _ => Leads.pure fun _ h => h.2
      exact fun t h => h.2.register value h.1

/-- A new block with nothing plugged in. Nobody was registered but new blocks. -/
structure Seedling (ws : Workspace α) (id : BlockId) (t : Workspace α) : Prop where
  sprout : Sprout (fun _ _ => True) ∅ (fun _ => True) ws id t
  callers : ws.SameCallers t

omit [Scalar α] in
/-- A step on a new block, seen in two ways. -/
theorem seedling_of_sprouts {m : Edit α Unit}
    (hsprout : Leads (Sprout (fun _ _ => True) ∅ (fun _ => True) ws id) m
      (fun _ => Sprout (fun _ _ => True) ∅ (fun _ => True) ws id) (Stranded (fun _ _ => True) ws))
    (hsame : Leads (Seedling ws id) m (fun _ => ws.SameCallers) ws.SameCallers) :
    Leads (Seedling ws id) m (fun _ => Seedling ws id) ws.SameCallers :=
  (hsprout.and hsame).weaken (fun _ h => ⟨h.sprout, h⟩) (fun _ _ h => ⟨h.1, h.2⟩) fun _ h => h.2

theorem newBlock_seeds (ws : Workspace α) (typeName : String) :
    Leads (fun t => t = ws ∧ ws.Sound) (newBlock typeName) (fun id => Seedling ws id)
      ws.SameCallers := by
  refine ((newBlock_sprouts (X := ∅) Editor.stable_true.growing ws typeName).and
    (newBlock_sameCallers ws typeName)).weaken ?_ (fun _ _ h => ⟨h.1.plain, h.2⟩) fun _ h => h.2
  rintro t ⟨rfl, hs⟩
  exact ⟨⟨rfl, hs, trivial⟩, rfl, hs⟩

theorem decorate_seeds {f : Block α → Block α} (hf : ∀ b, (f b).core = b.core)
    (hp : ∀ b, (f b).position = b.position) :
    Leads (Seedling ws id) (updateBlock id f) (fun _ => Seedling ws id) ws.SameCallers := by
  apply seedling_of_sprouts (decorate_sprouts Editor.stable_true.growing hf hp fun _ h => h)
  exact Leads.updateBlock (fun _ _ h _ => h.callers.congr rfl rfl) fun _ h _ => h.callers

theorem setUnits_seeds (n : Nat) :
    Leads (Seedling ws id) (setUnits id n) (fun _ => Seedling ws id) ws.SameCallers := by
  apply seedling_of_sprouts (setUnits_sprouts Editor.stable_true.growing n)
  refine (setUnits_sameCallers ws id n).weaken ?_ (fun _ _ h => h.1.keeps.2) fun _ h => h.2.2
  exact fun t h => ⟨h.sprout.steady.sound, False.elim, h.sprout.fresh, h.callers⟩

theorem setField_seeds (name value : String) :
    Leads (Seedling ws id) (setField id name value) (fun _ => Seedling ws id) ws.SameCallers := by
  apply seedling_of_sprouts (setField_sprouts Editor.stable_true.growing name value)
  exact (setField_sameCallers ws id name value).pre fun _ h => ⟨h.sprout.fresh.new, h.callers⟩

/-! ### What is plugged in -/

/-- Only new blocks are registered, and only new blocks are taken away. -/
def Enrols (make : Edit α BlockId) : Prop :=
  ∀ ws : Workspace α, Leads (fun t => t = ws ∧ ws.Sound) make (fun _ => ws.SameCallers)
    ws.SameCallers

/-- The sockets `cs` of a new block are free, and nobody was registered but new blocks. -/
structure Tended (ws : Workspace α) (id : BlockId) (b : Block α) (cs : List ConnectionId)
    (t : Workspace α) : Prop where
  filling : ∀ X, Filling (fun _ _ => True) X ws id b cs t
  callers : ws.SameCallers t

variable {b : Block α} {c : ConnectionId} {cs : List ConnectionId} {X : Set ConnectionId}
  {make : Edit α BlockId} {t : Workspace α}

omit [Scalar α] in
theorem tended_of_filling (h : Filling (fun _ _ => True) X ws id b cs t) (h' : ws.SameCallers t) :
    Tended ws id b cs t :=
  ⟨fun _ => ⟨⟨h.steady.sound, trivial⟩, h.fresh, h.block, h.free, h.nodup⟩, h'⟩

omit [Scalar α] in
theorem Tended.skip (h : Tended ws id b (c :: cs) t) : Tended ws id b cs t :=
  ⟨fun X => (h.filling X).skip, h.callers⟩

omit [Scalar α] in
/-- Something new is made for a free socket. -/
theorem make_sameCallers (hgrows : Grows (fun _ _ => True) (fun _ => True) make)
    (henrols : Enrols make) (ws : Workspace α) (c : ConnectionId) :
    Leads (fun t => t = ws ∧ ws.Sound ∧ ∃ y, ws.connections[c]? = some y ∧ y.target = none) make
      (fun child u => u.Sound ∧ u.graph.Loose child ∧
        (∃ y, u.connections[c]? = some y ∧ y.target = none) ∧ ws.SameCallers u)
      ws.SameCallers := by
  refine ((make_waits (X := ∅) hgrows ws c).and (henrols ws)).weaken ?_ ?_ fun _ h => h.2
  · rintro _ ⟨rfl, hs, hy⟩
    exact ⟨⟨rfl, ⟨hs, trivial⟩, hy⟩, rfl, hs⟩
  · rintro child u ⟨⟨⟨hs, hfresh, hy⟩, -⟩, hsame⟩
    exact ⟨hs.sound, hfresh.loose, hy, hsame⟩

theorem hang_sameCallers (ws : Workspace α) (c : ConnectionId) (child : BlockId) :
    Leads (fun u => u.Sound ∧ u.graph.Loose child ∧
        (∃ y, u.connections[c]? = some y ∧ y.target = none) ∧ ws.SameCallers u)
      (hang c child) (fun _ => ws.SameCallers) ws.SameCallers := by
  refine Leads.fix fun u => ((hang_leads u c child).frame (c := ws.SameCallers u)).weaken ?_ ?_ ?_
  · rintro _ ⟨rfl, hs, hloose, hy, hsame⟩
    exact ⟨⟨rfl, hs, hy, hloose⟩, hsame⟩
  · rintro _ t ⟨⟨p, v, hties, hshifts⟩, hsame⟩
    apply hsame.congr
    · rw [hshifts.ids, hties.ids]
    · rw [hshifts.rest, hties.rest]
  · rintro _ ⟨⟨rfl, -⟩, hsame⟩
    exact hsame

/-- One socket of a new block is filled. -/
theorem hang_tends (hgrows : Grows (fun _ _ => True) (fun _ => True) make) (henrols : Enrols make) :
    Leads (Tended ws id b (c :: cs)) (do hang c (← make)) (fun _ => Tended ws id b cs)
      ws.SameCallers := by
  have hstable := Editor.stable_true (α := α)
  have hcallers : Leads (Tended ws id b (c :: cs)) (do hang c (← make)) (fun _ => ws.SameCallers)
      ws.SameCallers := by
    refine Leads.fix fun v => ?_
    have hmake := (make_sameCallers hgrows henrols v c).frame (c := ws.SameCallers v)
    refine Leads.bind (hmake.weaken ?_ (fun _ _ h => h) ?_) fun child => ?_
    · rintro t ⟨rfl, h⟩
      have hf := h.filling ∅
      obtain ⟨y, hy, -, hfree⟩ := hf.free c List.mem_cons_self
      exact ⟨⟨rfl, hf.steady.sound, y, hy, hfree⟩, h.callers⟩
    · exact fun t h => h.2.trans h.1
    · exact (hang_sameCallers ws c child).pre fun u ⟨⟨hs, hloose, hy, hsame⟩, hbefore⟩ =>
        ⟨hs, hloose, hy, hbefore.trans hsame⟩
  exact ((hang_fills (X := ∅) hstable.growing hgrows).and hcallers).weaken
    (fun _ h => ⟨h.filling _, h⟩) (fun _ _ h => tended_of_filling h.1 h.2) fun _ h => h.2

theorem fillInput_tends {template : Option Snapshot} {child : Option (Edit α BlockId)}
    (h : ∀ make, child = some make → Grows (fun _ _ => True) (fun _ => True) make ∧ Enrols make) :
    Leads (Tended ws id b (c :: cs)) (fillInput template child c) (fun _ => Tended ws id b cs)
      ws.SameCallers := by
  unfold fillInput
  refine Leads.bind (Q := fun _ => Tended ws id b (c :: cs)) (Leads.updateConnection ?_ ?_)
    fun _ => ?_
  · intro t t' y ht hy hconn hrest
    apply tended_of_filling ((ht.filling ∅).template Editor.stable_true.growing hconn hrest)
    apply ht.callers.congr
    · rw [hrest]
    · rw [hrest]
  · exact fun t ht _ => ht.callers
  · refine Leads.forM_option _ (fun make hm => ?_) fun _ t ht => ht.skip
    exact hang_tends (h make hm).1 (h make hm).2

theorem fillNext_tends (hgrows : Grows (fun _ _ => True) (fun _ => True) make) (henrols : Enrols make) :
    Leads (Tended ws id b b.next.toList) (fillNext id make) (fun _ => Tended ws id b [])
      ws.SameCallers := by
  unfold fillNext
  refine (Leads.block fun t ht _ => ht.callers).bind fun b' => ?_
  cases hn : b'.next with
  | none => exact Leads.throw fun _ ht => ht.1.callers
  | some c =>
    refine (hang_tends hgrows henrols).pre ?_
    rintro t ⟨ht, hb⟩
    rw [(ht.filling ∅).block, Option.some.injEq] at hb
    subst hb
    rwa [hn] at ht

/-! ### Snapshots -/

theorem filler_tends {i : InputSnapshot Snapshot}
    (h : i.All fun s => ∀ on : Bool, Enrols (build s on : Edit α BlockId)) :
    Leads (Tended ws id b (c :: cs)) (filler i c) (fun _ => Tended ws id b cs) ws.SameCallers := by
  have hstable := Editor.stable_true (α := α)
  refine fillInput_tends fun make hm => ?_
  obtain ⟨s, on, hs, rfl⟩ := exists_part h hm
  exact ⟨(build_grows hstable.growing s on).plain, hs on⟩

/-- Whatever a snapshot holds, building it registers new blocks only. -/
theorem build_enrols (s : Snapshot) : ∀ on : Bool, Enrols (build s on : Edit α BlockId) := by
  induction s using Snapshot.induct with
  | step s hinputs hnext =>
    intro on ws
    rw [build_eq]
    refine (newBlock_seeds ws s.typeName).bind fun id => ?_
    refine Leads.optional (fun _ => decorate_seeds (fun _ => rfl) fun _ => rfl) ?_
    refine Leads.bind (Q := fun _ => Seedling ws id)
      (Leads.forM_option _ (fun shape _ => ?_) fun _ _ h => h) fun _ => ?_
    · exact fillShape_leads (fun _ h => h.callers) setUnits_seeds shape
    refine Leads.bind (Q := fun _ => Seedling ws id)
      (Leads.forM_list _ fun f _ => setField_seeds f.1 f.2) fun _ => ?_
    refine Leads.bind (Q := fun _ => Seedling ws id) (decorate_seeds (fun _ => rfl) fun _ => rfl) fun _ => ?_
    refine (populate_each (F := Tended ws id) (fun _ h => h.callers) ?_ (fun h => h.skip) ?_
      ?_).post ?_
    · exact fun t b h hb => tended_of_filling (h.sprout.filling hb) h.callers
    · exact fun i hi b c cs => filler_tends (hinputs i hi)
    · exact fun n hn b =>
        fillNext_tends (build_grows Editor.stable_true.growing n false).plain (hnext n hn false)
    · rintro _ t ⟨-, b, h⟩
      exact h.callers

/-- Whatever an empty socket gets, new blocks are registered only. -/
theorem respawn_sameCallers (ws : Workspace α) (c : ConnectionId) :
    Leads (fun t => t = ws ∧ ws.Sound) (respawn c) (fun _ => ws.SameCallers) ws.SameCallers := by
  unfold respawn
  refine (Leads.connection fun t h _ => h.1 ▸ .refl t).bind fun y => ?_
  refine Leads.ite (fun _ => Leads.pure fun t h => h.1.1 ▸ .refl t) fun hfree => ?_
  cases hm : y.template with
  | none => exact Leads.pure fun t h => h.1.1 ▸ .refl t
  | some template =>
    have hgrows := (build_grows Editor.growing_true template true).plain (α := α)
    refine Leads.bind ((make_sameCallers hgrows (build_enrols template true) ws c).pre ?_)
      fun child => (hang_sameCallers ws c child).bind fun _ => Leads.pure fun _ h => h
    rintro _ ⟨⟨rfl, hs⟩, hy⟩
    exact ⟨rfl, hs, y, hy, by simpa [Connection.isConnected] using hfree⟩

end Edit

namespace Workspace

variable {ws t : Workspace α}

/-- What a refused snapshot leaves behind. Everything is there as it was. Anything else is new, and
linked to nothing that was there. -/
structure Leftovers (ws t : Workspace α) : Prop where
  blocks : ∀ x, ws.Live x → t.blocks[x]? = ws.blocks[x]?
  ends : ∀ (c : ConnectionId) (y : Connection α), ws.connections[c]? = some y →
    t.connections[c]? = some y
  new : ∀ x, t.Live x → ws.Live x ∨ ws.ids.blocks ≤ x.index.toNat
  apart : ∀ (c d : ConnectionId) (y : Connection α), t.connections[c]? = some y →
    y.target = some d → (ws.connections[c]?).isSome = (ws.connections[d]?).isSome
  top : earlier ws.ids.blocks t.top = ws.top
  callers : ws.SameCallers t

theorem Extends.leftovers (h : Extends ∅ ws t) (hs : ws.Sound) (ht : t.Sound) (hroot : ws.Rooted)
    (hcallers : ws.SameCallers t) : ws.Leftovers t where
  blocks x hx := by
    obtain ⟨b, hb⟩ := hx
    exact h.blocks x (hs.blockIds hb)
  ends c y hy := h.connection hs hy (Set.notMem_empty c)
  new x hx := by
    by_cases hold : x.index.toNat < ws.ids.blocks
    · left
      obtain ⟨b, hb⟩ := hx
      rw [h.blocks x hold] at hb
      exact ⟨b, hb⟩
    · right
      omega
  apart c d y hy hd := by
    -- The other end of a link of an old end is old, and the link is seen from either end.
    have old : ∀ {c d : ConnectionId} {y : Connection α}, t.connections[c]? = some y →
        y.target = some d → (ws.connections[c]?).isSome → (ws.connections[d]?).isSome := by
      intro c d y hy hd hc
      obtain ⟨y₀, hy₀⟩ := Option.isSome_iff_exists.mp hc
      have hsame := h.connection hs hy₀ (Set.notMem_empty c)
      rw [hy, Option.some.injEq] at hsame
      subst hsame
      obtain ⟨z, hz, -⟩ := hs.target hy₀ hd
      rw [hz]
      rfl
    obtain ⟨z, hz, hc, -⟩ := ht.target hy hd
    rw [Bool.eq_iff_iff]
    constructor
    · exact old hy hd
    · exact old hz hc
  top := by
    rw [h.top]
    apply List.filter_eq_self.mpr
    intro x hx
    exact decide_eq_true (hroot.old hs x hx)
  callers := hcallers

end Workspace

namespace Edit

open Workspace

variable [Scalar α] {ws : Workspace α}

theorem restore_leaves (hs : ws.Sound) (hroot : ws.Rooted) (s : Snapshot) :
    Leads (· = ws) (restore s) (fun _ _ => True) fun t => ws.Leftovers t := by
  have hbuild := (build_grows Editor.growing_true s false Set.univ ws).and
    (build_enrols s false ws)
  refine hbuild.weaken ?_ (fun _ _ _ => trivial) ?_
  · rintro _ rfl
    exact ⟨⟨rfl, hs, trivial⟩, rfl, hs⟩
  · exact fun t h => h.1.extend.leftovers hs h.1.steady.sound hroot h.2

/-- Nothing is built if there is no such type. -/
theorem restore_of_unknown (s : Snapshot) (h : ws.registry.get? s.typeName = none) :
    restore s ws = .error (.unknownBlockType s.typeName) ws := by
  have hnew : newBlock s.typeName ws = .error (.unknownBlockType s.typeName) ws := by
    have hget : (get : Edit α (Workspace α)) ws = .ok ws ws := rfl
    unfold newBlock
    rw [bind_eq hget]
    simp only [h]
    rfl
  unfold restore
  rw [build_eq]
  exact bind_error hnew

end Edit

namespace Editor

open Workspace Act

section Refused

variable [Scalar α] {config : EditorConfig α} {registry : Registry} {e t : Editor α}
  {actions : List (Action α)} {s : Snapshot} {refusal : EditError α}

/-- However late a snapshot is refused, the session is as before, and so is everything that was there:
blocks, links, templates, top blocks and callers. Only new blocks may be left over, and there are none
if the type of the snapshot itself is unknown. -/
theorem restore_refused (hone : registry.OnePlug) (hstart : create config registry = .ok e)
    (hrefused : edit (Edit.restore s) (e.run actions) = .error refusal t) (hlast : Lasts t) :
    (e.run actions).workspace.Leftovers t.workspace ∧
      t = { e.run actions with workspace := t.workspace } ∧
      ((e.run actions).workspace.registry.get? s.typeName = none → t = e.run actions) := by
  have hbefore : Lasts (e.run actions) := by
    have hafter : (e.run actions).after (.restore s) = t := by
      have hperform : perform (.restore s) (e.run actions) = .error refusal t := by
        change EStateM.map _ _ _ = _
        rw [EStateM.map, hrefused]
      rw [after, hperform]
    exact lasts_of_after (hafter ▸ hlast)
  have hs := run_wired hone hstart hbefore
  have hroot := run_rooted hone hstart hbefore
  obtain ⟨u, hu, rfl⟩ := edit_eq_error hrefused
  refine ⟨(Edit.restore_leaves hs hroot s).error hu hlast rfl, rfl, fun hunknown => ?_⟩
  rw [Edit.restore_of_unknown s hunknown] at hu
  cases hu
  rfl

end Refused

/-- A call is returned by a statement. -/
def callReturned : Editor Int :=
  (fresh .standard Palette.registry).run [.newBlock "Call", .newBlock "Return", .connect ⟨2⟩ ⟨0⟩]

/-- The new call has been registered by the time it turns out that nothing goes below a call. -/
theorem restore_refused_call : ∃ t,
    edit (Edit.restore { (Snapshot.ofType "Call").withField "func" "g" with
        next := some (.ofType "Pass") }) callReturned = .error (.unknownInput ⟨2⟩ "next") t ∧
      t.workspace.procedures.callers "g" = [⟨2⟩] ∧
      callReturned.workspace.Leftovers t.workspace ∧
      t = { callReturned with workspace := t.workspace } := by
  have hrefused : edit (Edit.restore { (Snapshot.ofType "Call").withField "func" "g" with
      next := some (.ofType "Pass") }) callReturned = .error (.unknownInput ⟨2⟩ "next") _ :=
    eq_error_of_refusal (by decide +kernel)
  have hrest := restore_refused Palette.registry_onePlug (create_fresh (by decide)) hrefused
    (by decide +kernel)
  exact ⟨_, hrefused, by decide +kernel, hrest.1, hrest.2.1⟩

/-- What is refused need not leave the workspace as it was. -/
theorem restore_leaves_number : ∃ t,
    edit (Edit.restore ((Snapshot.ofType "int").withField "nope" "x"))
        (fresh (.standard : EditorConfig Int) Palette.registry) =
      .error (.unknownInput ⟨0⟩ "nope") t ∧
    t.workspace.blockIds = [⟨0⟩] ∧ t.workspace.top = [⟨0⟩] ∧
    (fresh (.standard : EditorConfig Int) Palette.registry).workspace.blockIds = [] ∧
    (fresh (.standard : EditorConfig Int) Palette.registry).workspace.top = [] :=
  ⟨_, eq_error_of_refusal (by decide +kernel), by decide +kernel, by decide +kernel,
    by decide +kernel, by decide +kernel⟩

end Editor

end BlockEditor
