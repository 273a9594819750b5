import BlockEditor.Proofs.RoundTrip
import BlockEditor.Proofs.Workspace.Refitting

/-!
# Resizing a container

A container that is resized keeps what stands in front and changes at its tail only: the slots in
excess are cut with all that hangs on them, and nothing else is touched. Going to a number of units
at once and going there one unit at a time comes to the same.
-/

namespace BlockEditor

variable {α : Type} [Scalar α]

namespace Workspace

variable {ws ws' : Workspace α} {x y : BlockId} {spec : ContainerTemplate} {n m : Nat}
  {B kept gone new is : List Input} {made : List NewEnd}

/-- The block hangs on one of the inputs, at some depth. -/
def CutOff (ws : Workspace α) (gone : List Input) (y : BlockId) : Prop :=
  ∃ c ∈ gone.filterMap (·.connection), ws.Carried c y

/-- A container of `n` units is given `m` units. It keeps the inputs `kept`, loses the slots `gone`
and gets the slots `new`. -/
structure Resizes (ws : Workspace α) (x : BlockId) (spec : ContainerTemplate) (n m : Nat)
    (kept gone new : List Input) (ws' : Workspace α) : Prop where
  template : ws.containerTemplate x = .ok spec
  container : ∃ b b', ws.blocks[x]? = some b ∧ ws'.blocks[x]? = some b' ∧ b.units = n ∧
    b.inputs = kept ++ gone ++ Container.marks spec n ∧
    b'.unplaced =
      { b.unplaced with inputs := kept ++ new ++ Container.marks spec m, units := m }
  namesKept : kept.map (·.name) = (Container.body spec (min n m)).map (·.name)
  namesGone : gone.map (·.name) = (Container.slotsAfter spec.kind m n).map (·.name)
  namesNew : new.map (·.name) = (Container.slotsAfter spec.kind n m).map (·.name)
  /-- The slots that stay have the ends that they had. -/
  ends : ∀ c ∈ kept.filterMap (·.connection),
    (ws'.connections[c]?).map Connection.unplaced = (ws.connections[c]?).map Connection.unplaced
  /-- The same hangs on them, and none of it is cut off. -/
  carried : ∀ c ∈ kept.filterMap (·.connection), ∀ y,
    (ws'.Carried c y ↔ ws.Carried c y) ∧ (ws.Carried c y → ¬ ws.CutOff gone y)
  disposed : ∀ y, ws.Live y ∧ ¬ ws'.Live y ↔ ws.CutOff gone y
  others : ∀ y ≠ x, ¬ ws.CutOff gone y →
    (ws'.blocks[y]?).map Block.unplaced = (ws.blocks[y]?).map Block.unplaced
  endsGone : ∀ c ∈ gone.filterMap (·.connection), ws'.connections[c]? = none
  endsLost : ∀ (c : ConnectionId) (z : Connection α), ws.connections[c]? = some z →
    ws.CutOff gone z.block → ws'.connections[c]? = none
  links : ∀ (c : ConnectionId) (z : Connection α), ws.connections[c]? = some z →
    c ∉ gone.filterMap (·.connection) → ¬ ws.CutOff gone z.block →
    (ws'.connections[c]?).map Connection.unplaced = some z.unplaced
  /-- Each block that is disposed is reported once, and none after one that it hung below. -/
  reports : ∃ es : List (Event α), ws'.events = es.foldl EventLog.fire ws.events ∧
    (es.filterMap Event.deleted?).Nodup ∧
    (∀ y, y ∈ es.filterMap Event.deleted? ↔ ws.CutOff gone y) ∧
    (es.filterMap Event.deleted?).Pairwise fun y z => ¬ ws.graph.Below z y

theorem Refitted.resizes (hw : ws.Fitted x spec n B) (h : ws.Refitted x spec n B m is made ws') :
    ∃ kept gone, ws.Resizes x spec n m kept gone is ws' := by
  obtain ⟨R, hr⟩ := h.reshaped.since
  obtain ⟨k, hk⟩ : ∃ k, k = (Container.body spec (min n m)).length := ⟨_, rfl⟩
  rw [← hk] at hr
  obtain ⟨b, hb, hinputs, hunits⟩ := hw.block
  obtain ⟨b', hb', hself⟩ := hr.self hb
  have hs := hw.sound
  have hcut : ∀ y, y ∈ R ↔ ws.CutOff (B.drop k) y := fun y => hr.mem_iff
  refine ⟨B.take k, B.drop k, {
    template := hw.template
    container := ⟨b, b', hb, hb', hunits, by rw [List.take_append_drop, hinputs], hself⟩
    namesKept := by
      rw [hk, List.map_take, hw.names, ← List.map_take,
        Container.take_body (Nat.min_le_left n m)]
    namesGone := by
      rw [hk, List.map_drop, hw.names, ← List.map_drop, Container.drop_body]
    namesNew := h.built.names
    ends := fun c hc => by
      obtain ⟨hcut', z, hz, hzx, -⟩ := hw.front hc
      rw [hr.connection hs hz hzx hcut', hz, Option.map_some]
    carried := fun c hc y => by
      obtain ⟨hcut', z, hz, hzx, hsocket⟩ := hw.front hc
      exact ⟨hr.carried_iff hs hw.tame hz hzx hsocket hcut',
        fun hy hy' => hr.spares hs hw.tame hz hzx hsocket hcut' hy ((hcut y).mpr hy')⟩
    disposed := fun y => by
      rw [← hcut, hr.live_iff]
      exact ⟨fun ⟨hlive, hdead⟩ => Classical.byContradiction fun hy => hdead ⟨hlive, hy⟩,
        fun hy => ⟨hs.live_of_below (hr.below y hy), fun h => h.2 hy⟩⟩
    others := fun y hy hn => by
      have hblock := hr.blocks y
      rw [if_neg fun h => hn ((hcut y).mp h)] at hblock
      simpa only [if_neg hy, Option.map_id'] using hblock
    endsGone := fun c hc => by
      obtain ⟨z, hz, -⟩ := hr.sockets c hc
      exact hr.none_of_dead hs hz ((dead_iff hz).mpr (Or.inl hc))
    endsLost := fun c z hz hn =>
      hr.none_of_dead hs hz ((dead_iff hz).mpr (Or.inr ((hcut _).mpr hn)))
    links := fun c z hz hc hn => by
      rw [hr.kept c (hr.ne_of_mounted hs hz), if_neg, hz, Option.map_some]
      rw [dead_iff hz, hcut]
      exact fun hd => hd.elim hc hn
    reports := by
      obtain ⟨es, he, rfl⟩ := hr.told
      exact ⟨es, he, hr.nodup, hcut, hr.ordered.pairwise hr.nodup⟩ }⟩

end Workspace

namespace Container

variable {n m : Nat}

/-- The numbers that are passed on the way from `n` to `m`, without the first and with the last. -/
def passed (n m : Nat) : List Nat :=
  if n ≤ m then List.range' (n + 1) (m - n) else (List.range' m (n - m)).reverse

theorem passed_self (n : Nat) : passed n n = [] := by
  simp [passed]

/-- The next number is one closer to the last. -/
theorem passed_cons (h : n ≠ m) :
    ∃ p, passed n m = p :: passed p m ∧ (n ≤ p ∧ p ≤ m ∨ m ≤ p ∧ p ≤ n) := by
  rcases Nat.lt_or_gt_of_ne h with hlt | hgt
  · refine ⟨n + 1, ?_, Or.inl ⟨Nat.le_succ n, hlt⟩⟩
    rw [passed, if_pos (Nat.le_of_lt hlt), passed, if_pos (show n + 1 ≤ m from hlt),
      show m - n = m - (n + 1) + 1 by omega, List.range'_succ]
  · obtain ⟨p, rfl⟩ := Nat.exists_eq_add_one_of_ne_zero (Nat.ne_zero_of_lt hgt)
    have hp : m ≤ p := Nat.lt_succ_iff.mp hgt
    refine ⟨p, ?_, Or.inr ⟨hp, Nat.le_succ p⟩⟩
    have hpassed : passed p m = (List.range' m (p - m)).reverse := by
      rcases Nat.eq_or_lt_of_le hp with rfl | hlt
      · simp [passed]
      · rw [passed, if_neg (Nat.not_le.mpr hlt)]
    rw [passed, if_neg (Nat.not_le.mpr hgt), hpassed, show p + 1 - m = p - m + 1 by omega,
      List.range'_concat, List.reverse_append, List.reverse_singleton, List.singleton_append,
      Nat.one_mul, Nat.add_sub_cancel' hp]

end Container

namespace Editor

open Workspace

variable {config : EditorConfig α} {e : Editor α} {actions : List (Action α)} {x : BlockId}
  {kind : ContainerKind} {ws : Workspace α} {spec : ContainerTemplate} {n m p t : Nat}
  {B is : List Input} {made : List NewEnd}

theorem after_setUnits (h : e.workspace.Fitted x spec n B)
    (hlast : Lasts (e.after (.setUnits x t))) :
    e.accepts (.setUnits x t) ∧ ∃ is made, e.workspace.Refitted x spec n B
      (Container.capUnits t) is made (e.after (.setUnits x t)).workspace := by
  have hperform : perform (.setUnits x t) e = Act.edit (Edit.setUnits x t) e := rfl
  have hedit := (Edit.setUnits_refits h t).edit e
  unfold after at hlast ⊢
  unfold accepts
  rw [hperform] at hlast ⊢
  cases hm : Act.edit (Edit.setUnits x t) e with
  | ok a u =>
    rw [hm] at hlast hedit
    exact ⟨rfl, (hedit hlast).2 rfl⟩
  | error refusal u =>
    rw [hm] at hlast hedit
    exact ((hedit hlast).2 rfl).elim

/-- One unit at a time, a container comes to where it comes at once. -/
theorem run_refits {l : List Nat} (hl : Container.passed p m = l) (hw : ws.Fitted x spec n B)
    (h : ws.Refitted x spec n B p is made e.workspace) (hp : n ≤ p ∧ p ≤ m ∨ m ≤ p ∧ p ≤ n)
    (hn : n ≤ Container.maxUnits) (hm : m ≤ Container.maxUnits)
    (hlast : Lasts (e.run (l.map (.setUnits x)))) :
    e.Accepted (l.map (.setUnits x)) ∧
      ∃ is made, ws.Refitted x spec n B m is made (e.run (l.map (.setUnits x))).workspace := by
  induction l generalizing e p is made with
  | nil =>
    obtain rfl : p = m := Classical.byContradiction fun hne => by
      obtain ⟨q, hq, -⟩ := Container.passed_cons hne
      rw [hl] at hq
      cases hq
    exact ⟨fun l a hprefix => by simp at hprefix, is, made, h⟩
  | cons q rest ih =>
    have hne : p ≠ m := fun he => by
      rw [he, Container.passed_self] at hl
      cases hl
    obtain ⟨q', hq, hbetween⟩ := Container.passed_cons hne
    rw [hl] at hq
    obtain ⟨rfl, hrest⟩ := List.cons.inj hq
    obtain ⟨haccepts, is', made', h'⟩ := after_setUnits (h.fitted hw) (lasts_of_run hlast)
    rw [show Container.capUnits q = q from Nat.min_eq_left (by omega)] at h'
    have hq : n ≤ q ∧ q ≤ m ∨ m ≤ q ∧ q ≤ n := by omega
    obtain ⟨hall, hend⟩ := ih hrest.symm (h.trans hw h' (by omega)) hq hlast
    exact ⟨.cons haccepts hall, hend⟩

theorem run_fitted (hstart : create config Palette.registry = .ok e)
    (hlast : Lasts (e.run actions)) (hacyclic : (e.run actions).workspace.graph.Acyclic)
    (hk : ((e.run actions).workspace.blocks[x]?).bind (·.container) = some kind)
    (hn : ((e.run actions).workspace.blocks[x]?).map (·.units) = some n) :
    n ≤ Container.maxUnits ∧
      ∃ spec B, spec.kind = kind ∧ (e.run actions).workspace.Fitted x spec n B := by
  have hend := run_standard hstart hlast
  obtain ⟨b, d, spec, hb, hd, hspec, hkind, hunits, -⟩ :=
    hend.shaped.container hend.sound hend.registry hk
  rw [hb, Option.map_some, Option.some.injEq] at hn
  subst hn
  have htemplate : (e.run actions).workspace.containerTemplate x = .ok spec := by
    rw [containerTemplate_eq_ok hb, hend.registry, hd]
    exact hspec
  obtain ⟨B, hB⟩ := Fitted.of_shaped hend.sound hend.shaped (hacyclic x) hb htemplate
  exact ⟨hunits, spec, B, hkind, hB⟩

/-- In every run over the palette a container can be given any number of units. What it has in front
is kept, with all that hangs on it; what hangs on the other slots is disposed. -/
theorem run_resizes (hstart : create config Palette.registry = .ok e)
    (hlast : Lasts ((e.run actions).after (.setUnits x t)))
    (hacyclic : (e.run actions).workspace.graph.Acyclic)
    (hk : ((e.run actions).workspace.blocks[x]?).bind (·.container) = some kind)
    (hn : ((e.run actions).workspace.blocks[x]?).map (·.units) = some n) :
    (e.run actions).accepts (.setUnits x t) ∧ ∃ spec kept gone new, spec.kind = kind ∧
      (e.run actions).workspace.Resizes x spec n (min t 999999) kept gone new
        ((e.run actions).after (.setUnits x t)).workspace := by
  obtain ⟨-, spec, B, hkind, hw⟩ := run_fitted hstart (lasts_of_after hlast) hacyclic hk hn
  obtain ⟨haccepts, is, made, h⟩ := after_setUnits hw hlast
  obtain ⟨kept, gone, hresizes⟩ := h.resizes hw
  exact ⟨haccepts, spec, kept, gone, is, hkind, hresizes⟩

/-- A comprehension loses two clauses, and with one of them a display and its item. -/
theorem run_resizes_comprehension :
    let e := (fresh (.standard : EditorConfig Int) Palette.registry).run
      [.newBlock "ListComp", .setUnits ⟨0⟩ 3, .newBlock "Dict", .press ⟨1⟩ .add, .connect ⟨9⟩ ⟨11⟩]
    e.accepts (.setUnits ⟨0⟩ 1) ∧ ∃ spec kept gone new, spec.kind = .comprehension true ∧
      e.workspace.Resizes ⟨0⟩ spec 3 1 kept gone new (e.after (.setUnits ⟨0⟩ 1)).workspace :=
  run_resizes (create_fresh (by decide)) (by decide +kernel)
    (acyclic_of_ordered (by decide +kernel)) (by decide +kernel) (by decide +kernel)

/-- In every run over the palette it does not matter whether a container is given its units at once
or one after the other. -/
theorem run_stepwise (hstart : create config Palette.registry = .ok e)
    (hlast : Lasts ((e.run actions).after (.setUnits x t)))
    (hlast' : Lasts ((e.run actions).run
      ((Container.passed n (min t 999999)).map (.setUnits x))))
    (hacyclic : (e.run actions).workspace.graph.Acyclic)
    (hk : (((e.run actions).workspace.blocks[x]?).bind (·.container)).isSome)
    (hn : ((e.run actions).workspace.blocks[x]?).map (·.units) = some n) :
    (e.run actions).accepts (.setUnits x t) ∧
      (e.run actions).Accepted ((Container.passed n (min t 999999)).map (.setUnits x)) ∧
      (((e.run actions).after (.setUnits x t)).workspace.blocks[x]?).map (·.units) =
        some (min t 999999) ∧
      ((e.run actions).after (.setUnits x t)).workspace.Matches
        ((e.run actions).run ((Container.passed n (min t 999999)).map (.setUnits x))).workspace := by
  obtain ⟨kind, hk⟩ := Option.isSome_iff_exists.mp hk
  obtain ⟨hle, spec, B, -, hw⟩ := run_fitted hstart (lasts_of_after hlast) hacyclic hk hn
  obtain ⟨haccepts, is, made, h⟩ := after_setUnits hw hlast
  have hbetween : n ≤ n ∧ n ≤ min t 999999 ∨ min t 999999 ≤ n ∧ n ≤ n := by omega
  obtain ⟨haccepted, is', made', h'⟩ :=
    run_refits rfl hw (.refl hw) hbetween hle (Nat.min_le_right t _) hlast'
  obtain ⟨b, hb, -, hunits⟩ := h.reshaped.block
  exact ⟨haccepts, haccepted, by rw [hb, Option.map_some, hunits]; rfl, h.determined h'⟩

/-- Two clauses are taken off a comprehension, the first of them with a display in it. -/
theorem run_stepwise_comprehension :
    let e := (fresh (.standard : EditorConfig Int) Palette.registry).run
      [.newBlock "ListComp", .setUnits ⟨0⟩ 3, .newBlock "Dict", .press ⟨1⟩ .add, .connect ⟨9⟩ ⟨11⟩]
    Container.passed 3 1 = [2, 1] ∧ e.accepts (.setUnits ⟨0⟩ 1) ∧
      e.Accepted ((Container.passed 3 1).map (.setUnits ⟨0⟩)) ∧
      ((e.after (.setUnits ⟨0⟩ 1)).workspace.blocks[(⟨0⟩ : BlockId)]?).map (·.units) = some 1 ∧
      (e.after (.setUnits ⟨0⟩ 1)).workspace.Matches
        (e.run ((Container.passed 3 1).map (.setUnits ⟨0⟩))).workspace :=
  ⟨by decide, run_stepwise (create_fresh (by decide)) (by decide +kernel) (by decide +kernel)
    (acyclic_of_ordered (by decide +kernel)) (by decide +kernel) (by decide +kernel)⟩

end Editor

end BlockEditor
