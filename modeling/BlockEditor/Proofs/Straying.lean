import BlockEditor.Proofs.Closing
import BlockEditor.Proofs.Flags
import BlockEditor.Proofs.Numbering

/-!
# Blocks that stray from a drag

A block is shown as dragged since a drag took it along, until the end of a drag finds it on the
dragged block. So one that is taken away from the dragged block in the meantime is still shown as
dragged when nothing is dragged any more, and no other one is.
-/

namespace BlockEditor

variable {α : Type}

/-! ### Actions -/

namespace Editor

open Act Workspace

variable [Scalar α]

/-- The action starts a drag that takes the block along. -/
def Lifts (e : Editor α) : Action α → BlockId → Prop
  | .pickUp block heal, x =>
    ∃ target t, pickUp block heal e = .ok target t ∧ t.workspace.Branch target x
  | _, _ => False

/-- The action is the end of a drag, or of one whose start is refused, and the block hangs on the
dragged block by then. -/
def Lowers (e : Editor α) : Action α → BlockId → Prop
  | .pickUp block heal, x => e.session = none ∧ ∃ refusal t target,
    pickUp block heal e = .error refusal t ∧ Draggable e.workspace block target ∧
      t.workspace.Branch target x
  | .dropAt _, x => ∃ s, e.session = some s ∧ e.workspace.Branch s.block x
  | .cancelDrag, x => ∃ s, e.session = some s ∧ (e.after .cancelDrag).workspace.Branch s.block x
  | _, _ => False

variable {e : Editor α} {a : Action α} {x : BlockId}

theorem perform_spares (hends : a.ends = false) (hpicks : a.picksUp = false) :
    Along (Between Spares) (perform a) := by
  cases a with
  | dropAt | cancelDrag => cases hends
  | pickUp => cases hpicks
  | _ =>
    dsimp only [perform]
    infer_instance

section Definite

variable {block target : BlockId} {heal : Bool} {t : Editor α} {refusal : EditError α}
  {s : DragSession α} {location : Point α}

theorem lifts_of_ok (h : pickUp block heal e = .ok target t) :
    e.Lifts (.pickUp block heal) x ↔ t.workspace.Branch target x := by
  refine ⟨?_, fun hin => ⟨target, t, h, hin⟩⟩
  rintro ⟨target', t', h', hin⟩
  cases h.symm.trans h'
  exact hin

theorem not_lowers_of_ok (h : pickUp block heal e = .ok target t) :
    ¬ e.Lowers (.pickUp block heal) x := by
  rintro ⟨-, _, _, _, h', -⟩
  cases h.symm.trans h'

theorem not_lifts_of_error (h : pickUp block heal e = .error refusal t) :
    ¬ e.Lifts (.pickUp block heal) x := by
  rintro ⟨_, _, h', -⟩
  cases h.symm.trans h'

theorem lowers_of_error (hidle : e.session = none) (h : pickUp block heal e = .error refusal t)
    (hdrag : Draggable e.workspace block target) :
    e.Lowers (.pickUp block heal) x ↔ t.workspace.Branch target x := by
  refine ⟨?_, fun hin => ⟨hidle, refusal, t, target, h, hdrag, hin⟩⟩
  rintro ⟨-, refusal', t', target', h', ⟨offset', hfound', -⟩, hin⟩
  cases h.symm.trans h'
  obtain ⟨offset, hfound, -⟩ := hdrag
  cases hfound.symm.trans hfound'
  exact hin

theorem lowers_dropAt (hheld : e.session = some s) :
    e.Lowers (.dropAt location) x ↔ e.workspace.Branch s.block x := by
  refine ⟨?_, fun hin => ⟨s, hheld, hin⟩⟩
  rintro ⟨s', hs', hin⟩
  cases hheld.symm.trans hs'
  exact hin

theorem lowers_cancelDrag (hheld : e.session = some s) :
    e.Lowers .cancelDrag x ↔ (e.after .cancelDrag).workspace.Branch s.block x := by
  refine ⟨?_, fun hin => ⟨s, hheld, hin⟩⟩
  rintro ⟨s', hs', hin⟩
  cases hheld.symm.trans hs'
  exact hin

/-- While nothing is dragged, there is no drag to end. -/
theorem not_lowers_of_idle (hidle : e.session = none) (hends : a.ends) : ¬ e.Lowers a x := by
  cases a with
  | dropAt | cancelDrag =>
    rintro ⟨s, hs, -⟩
    cases hidle.symm.trans hs
  | _ => cases hends

theorem after_pickUp_flagged (hforest : e.workspace.Forest)
    (hafter : (e.after (.pickUp block heal)).workspace.Forest)
    (hlast : Lasts (e.after (.pickUp block heal)))
    (hx : (e.after (.pickUp block heal)).workspace.Live x) :
    (e.after (.pickUp block heal)).workspace.Flagged x ↔
      e.Lifts (.pickUp block heal) x ∨ e.workspace.Flagged x ∧ ¬ e.Lowers (.pickUp block heal) x := by
  have hs := hforest.sound
  have hstep : e.after (.pickUp block heal) = ended (pickUp block heal e) :=
    (after_eq e _).trans ended_bind_pure
  rw [hstep] at hafter hlast hx ⊢
  have stays : ∀ refusal, pickUp block heal e = .error refusal e → ¬ e.Lowers (.pickUp block heal) x →
      ((ended (pickUp block heal e)).workspace.Flagged x ↔ e.Lifts (.pickUp block heal) x ∨
        e.workspace.Flagged x ∧ ¬ e.Lowers (.pickUp block heal) x) := by
    intro refusal hm hlowers
    rw [or_iff_right (not_lifts_of_error hm), and_iff_left hlowers, hm]
    rfl
  cases hheld : e.session with
  | some s =>
    refine stays (.dragInProgress s.block) ?_ fun h => by cases hheld.symm.trans h.1
    obtain ⟨ws, session, requests, phase⟩ := e
    cases hheld
    rfl
  | none =>
    rcases pickUp_flags hforest hheld heal hafter hlast with ⟨target, t, ws, hm, hspares, hflags⟩ |
      ⟨refusal, hm, hnone⟩ | ⟨refusal, t, target, ws, hm, hdrag, hspares, hflags⟩
    case inl =>
      rw [hm] at hlast hx ⊢
      have hlive : ws.Live x := hflags.symm.live hx
      rw [lifts_of_ok hm, and_iff_left (not_lowers_of_ok hm), hflags.branch_iff,
        ← hspares.flagged_iff hs (hflags.lasts_iff.mp hlast) hlive]
      exact hflags.flagged_true hx
    case inr.inl => exact stays refusal hm fun ⟨_, _, _, target, _, hdrag, _⟩ => hnone target hdrag
    case inr.inr =>
      rw [or_iff_right (not_lifts_of_error hm), lowers_of_error hheld hm hdrag, hflags.branch_iff]
      rw [hm] at hlast hx ⊢
      have hlive : ws.Live x := hflags.symm.live hx
      rw [← hspares.flagged_iff hs (hflags.lasts_iff.mp hlast) hlive]
      exact hflags.flagged_false

theorem after_dropAt_flagged (hforest : e.workspace.Forest)
    (hlast : Lasts (e.after (.dropAt location)))
    (hx : (e.after (.dropAt location)).workspace.Live x) :
    (e.after (.dropAt location)).workspace.Flagged x ↔
      e.workspace.Flagged x ∧ ¬ e.Lowers (.dropAt location) x := by
  have hbefore : Lasts e := lasts_of_after hlast
  have hstep : e.after (.dropAt location) = ended (dropAt location e) :=
    (after_eq e _).trans ended_bind_pure
  rw [hstep] at hlast hx ⊢
  cases hheld : e.session with
  | none =>
    rw [and_iff_left (not_lowers_of_idle hheld rfl)]
    obtain ⟨ws, session, requests, phase⟩ := e
    cases hheld
    rfl
  | some s =>
    obtain ⟨ws, hflags, hspares⟩ := dropAt_flags hforest hbefore hheld location
    rw [lowers_dropAt hheld, ← hflags.flagged_false]
    exact hspares.flagged_iff (hflags.sound hforest.sound) hlast hx

theorem after_cancelDrag_flagged (hforest : e.workspace.Forest)
    (hafter : (e.after .cancelDrag).workspace.Forest) (hlast : Lasts (e.after .cancelDrag))
    (hx : (e.after .cancelDrag).workspace.Live x) :
    (e.after .cancelDrag).workspace.Flagged x ↔
      e.workspace.Flagged x ∧ ¬ e.Lowers .cancelDrag x := by
  cases hheld : e.session with
  | none =>
    rw [and_iff_left (not_lowers_of_idle hheld rfl)]
    obtain ⟨ws, session, requests, phase⟩ := e
    cases hheld
    rfl
  | some s =>
    rw [lowers_cancelDrag hheld]
    have hstep : e.after .cancelDrag = ended (cancelDrag e) := after_eq e _
    rw [hstep] at hafter hlast hx ⊢
    obtain ⟨ws, hspares, hflags⟩ := cancelDrag_flags hafter hlast hheld
    have hlive : ws.Live x := hflags.symm.live hx
    rw [hflags.branch_iff,
      ← hspares.flagged_iff hforest.sound (hflags.lasts_iff.mp hlast) hlive]
    exact hflags.flagged_false

end Definite

/-- What an action makes of how a block is shown. -/
theorem after_flagged (hforest : e.workspace.Forest) (hafter : (e.after a).workspace.Forest)
    (hlast : Lasts (e.after a)) (hx : (e.after a).workspace.Live x) :
    (e.after a).workspace.Flagged x ↔
      e.Lifts a x ∨ e.workspace.Flagged x ∧ ¬ e.Lowers a x := by
  by_cases hends : a.ends = true
  · cases a with
    | dropAt location =>
      exact (after_dropAt_flagged hforest hlast hx).trans (or_iff_right not_false).symm
    | cancelDrag =>
      exact (after_cancelDrag_flagged hforest hafter hlast hx).trans (or_iff_right not_false).symm
    | _ => cases hends
  by_cases hpicks : a.picksUp = true
  · obtain ⟨block, heal, rfl⟩ := Action.exists_of_picksUp hpicks
    exact after_pickUp_flagged hforest hafter hlast hx
  · have hspares := (perform_spares (by simpa using hends) (by simpa using hpicks)).along e
    rw [← after_eq] at hspares
    have hneither : ¬ e.Lifts a x ∧ ¬ e.Lowers a x := by
      cases a with
      | dropAt | cancelDrag => exact absurd rfl hends
      | pickUp => exact absurd rfl hpicks
      | _ => exact ⟨not_false, not_false⟩
    rw [or_iff_right hneither.1, and_iff_left hneither.2]
    exact Spares.flagged_iff hspares hforest.sound hlast hx

/-! ### Runs -/

/-- The last action of the run that decided how the block is shown is the start of a drag of it. -/
def LeftUp (e : Editor α) (actions : List (Action α)) (x : BlockId) : Prop :=
  ∃ before a, before ++ [a] <+: actions ∧ (e.run before).Lifts a x ∧
    ∀ mid c, before ++ [a] <+: mid → mid ++ [c] <+: actions → ¬ (e.run mid).Lowers c x

/-- A drag took the block along, and at its end the block did not hang on the dragged block. -/
def Strays (e : Editor α) (actions : List (Action α)) (x : BlockId) : Prop :=
  ∃ before block heal between c rest,
    actions = before ++ .pickUp block heal :: (between ++ c :: rest) ∧
      (e.run before).Lifts (.pickUp block heal) x ∧ (∀ a ∈ between, a.ends = false) ∧ c.ends ∧
        ¬ (e.run (before ++ .pickUp block heal :: between)).Lowers c x

variable {actions l l' : List (Action α)} {config : EditorConfig α} {registry : Registry}

/-- What is there at two points of a run is there in between. -/
theorem live_between (hone : registry.OnePlug) (hstart : create config registry = .ok e)
    (hlast : Lasts (e.run actions)) (hpre : l <+: l') (hpre' : l' <+: actions)
    (hl : (e.run l).workspace.Live x) (hx : (e.run actions).workspace.Live x) :
    (e.run l').workspace.Live x := by
  obtain ⟨rest, rfl⟩ := hpre
  obtain ⟨rest', rfl⟩ := hpre'
  rw [run_append] at hlast hx
  have hlast' : Lasts (e.run (l ++ rest)) := lasts_of_run hlast
  have hs' : (e.run (l ++ rest)).workspace.Sound := run_wired hone hstart hlast'
  rw [run_append] at hlast'
  have hs : (e.run l).workspace.Sound := run_wired hone hstart (lasts_of_run hlast')
  obtain ⟨b, hb⟩ := hl
  have hold : x.index.toNat < (e.run (l ++ rest)).workspace.ids.blocks := by
    rw [run_append]
    exact (hs.blockIds hb).trans_le (run_predates hs hlast').blockCount
  exact (run_predates hs' hlast).blocks x hold hx

theorem run_concat (e : Editor α) (l : List (Action α)) (a : Action α) :
    e.run (l ++ [a]) = (e.run l).after a :=
  run_append e l [a]

/-- A drag takes blocks along that are there. -/
theorem Lifts.live (h : e.Lifts a x) (hforest : e.workspace.Forest)
    (hafter : (e.after a).workspace.Forest) (hlast : Lasts (e.after a)) :
    (e.after a).workspace.Live x := by
  cases a with
  | pickUp block heal =>
    obtain ⟨target, t, hm, hin⟩ := h
    rw [(after_pickUp hm).1] at hafter hlast ⊢
    obtain ⟨b, hb⟩ := ((pickUp_lifts block heal).ok hm hlast hforest).1.live
    exact hafter.sound.live_of_branch hb hin
  | _ => exact h.elim

theorem lasts_of_append (hpre : l <+: actions) (hlast : Lasts (e.run actions)) :
    Lasts (e.run l) := by
  obtain ⟨rest, rfl⟩ := hpre
  rw [run_append] at hlast
  exact lasts_of_run hlast

theorem run_forest (hone : registry.OnePlug) (hstart : create config registry = .ok e)
    (hlast : Lasts (e.run actions)) (hacyclic : e.StaysAcyclic actions) (hpre : l <+: actions) :
    (e.run l).workspace.Forest :=
  ⟨run_wired hone hstart (lasts_of_append hpre hlast), hacyclic l hpre⟩

/-- One more action decides how the block is shown, or leaves that as it was decided. -/
theorem leftUp_concat : e.LeftUp (l ++ [a]) x ↔
    (e.run l).Lifts a x ∨ e.LeftUp l x ∧ ¬ (e.run l).Lowers a x := by
  have hpre : l <+: l ++ [a] := List.prefix_append _ _
  constructor
  · rintro ⟨before, b, hb, hlift, hkept⟩
    rcases List.prefix_concat_iff.mp hb with heq | hb
    · obtain ⟨rfl, hba⟩ := List.append_inj' heq rfl
      obtain rfl := List.singleton_inj.mp hba
      exact Or.inl hlift
    · exact Or.inr ⟨⟨before, b, hb, hlift, fun mid c hmid hc => hkept mid c hmid (hc.trans hpre)⟩,
        hkept l a hb (List.prefix_refl _)⟩
  · rintro (hlift | ⟨⟨before, b, hb, hlift, hkept⟩, hlower⟩)
    · -- no action comes after the last one
      refine ⟨l, a, List.prefix_refl _, hlift, fun mid c hmid hc => ?_⟩
      have hshort := hmid.length_le.trans_lt (Nat.lt_succ_self mid.length)
      have hlong := hc.length_le
      rw [List.length_append] at hlong
      exact absurd hlong hshort.not_ge
    · refine ⟨before, b, hb.trans hpre, hlift, fun mid c hmid hc => ?_⟩
      rcases List.prefix_concat_iff.mp hc with heq | hc
      · obtain ⟨rfl, hca⟩ := List.append_inj' heq rfl
        obtain rfl := List.singleton_inj.mp hca
        exact hlower
      · exact hkept mid c hmid hc

/-- A block that a drag took along is there as long as it is there at the end of the run. -/
theorem LeftUp.live (h : e.LeftUp l x) (hone : registry.OnePlug)
    (hstart : create config registry = .ok e) (hlast : Lasts (e.run actions))
    (hacyclic : e.StaysAcyclic actions) (hpre : l <+: actions)
    (hx : (e.run actions).workspace.Live x) : (e.run l).workspace.Live x := by
  obtain ⟨before, a, hb, hlift, -⟩ := h
  have hat : before <+: actions := ((List.prefix_append before [a]).trans hb).trans hpre
  have hthen := run_forest hone hstart hlast hacyclic (hb.trans hpre)
  have hlasts := lasts_of_append (hb.trans hpre) hlast
  have hlifted : (e.run (before ++ [a])).workspace.Live x := by
    rw [run_concat] at hthen hlasts ⊢
    exact hlift.live (run_forest hone hstart hlast hacyclic hat) hthen hlasts
  exact live_between hone hstart hlast hb hpre hlifted hx

theorem flagged_iff (hone : registry.OnePlug) (hstart : create config registry = .ok e)
    (hlast : Lasts (e.run actions)) (hacyclic : e.StaysAcyclic actions)
    (hx : (e.run actions).workspace.Live x) :
    (e.run actions).workspace.Flagged x ↔ e.LeftUp actions x := by
  induction actions using List.reverseRecOn with
  | nil =>
    obtain ⟨-, rfl⟩ := create_eq_ok hstart
    obtain ⟨b, hb⟩ := hx
    change (Workspace.empty config registry).blocks[x]? = some b at hb
    rw [getElem?_blocks_empty] at hb
    cases hb
  | append_singleton l a ih =>
    have hpre : l <+: l ++ [a] := List.prefix_append _ _
    have hbefore := run_forest hone hstart hlast hacyclic hpre
    have hafter := run_forest hone hstart hlast hacyclic (List.prefix_refl _)
    have ih := ih (lasts_of_append hpre hlast) fun l' hl' => hacyclic l' (hl'.trans hpre)
    have hsame : (e.run l).workspace.Flagged x ↔ e.LeftUp l x :=
      ⟨fun hon => (ih hon.live).mp hon,
        fun hleft => (ih (hleft.live hone hstart hlast hacyclic hpre hx)).mpr hleft⟩
    rw [run_concat] at hafter hlast hx ⊢
    rw [after_flagged hbefore hafter hlast hx, leftUp_concat, hsame]

/-- What is held stays held until a gesture ends. -/
theorem held_goesOn (hends : a.ends = false) (hlast : Lasts (e.after a))
    (h : e.session.map (·.block) = some x) : (e.after a).session.map (·.block) = some x := by
  have hstage : Stage e.requests (fun _ => True) (some x) e.phase anything e :=
    ⟨h, rfl, ⟨[], (List.append_nil _).symm, trivial⟩, trivial⟩
  have goesOn : Keeps (Stage e.requests (fun _ => True) (some x) e.phase anything) (perform a) := by
    by_cases hpicks : a.picksUp = true
    · obtain ⟨block, heal, rfl⟩ := Action.exists_of_picksUp hpicks
      exact discard_leads (pickUp_held block heal)
    · exact perform_stage (fun _ _ _ => trivial) hends (by simpa using hpicks) fun _ _ _ _ => trivial
  exact (after_of_leads (goesOn.pre fun _ ht => ht ▸ hstage) hlast).held

/-- What is held is let go by the first action that ends the gesture. -/
theorem exists_ends (h : e.session.map (·.block) = some x) (hlast : Lasts (e.run l))
    (hover : (e.run l).session = none) : ∃ between c rest,
      l = between ++ c :: rest ∧ (∀ a ∈ between, a.ends = false) ∧ c.ends := by
  induction l generalizing e with
  | nil =>
    rw [show e.session = none from hover] at h
    cases h
  | cons a rest ih =>
    cases hends : a.ends with
    | true => exact ⟨[], a, rest, rfl, List.forall_mem_nil _, hends⟩
    | false =>
      have hheld := held_goesOn hends (lasts_of_run hlast) h
      obtain ⟨between, c, rest', rfl, hon, hc⟩ := ih hheld hlast hover
      exact ⟨a :: between, c, rest', rfl, List.forall_mem_cons.mpr ⟨hends, hon⟩, hc⟩

/-- While nothing is dragged, a block is shown as dragged only if it strayed from a drag. -/
theorem LeftUp.strays (h : e.LeftUp actions x) (hlast : Lasts (e.run actions))
    (forest : ∀ {l}, l <+: actions → (e.run l).workspace.Forest)
    (hover : (e.run actions).session = none) : e.Strays actions x := by
  obtain ⟨before, a, ⟨rest, rfl⟩, hlift, hkept⟩ := h
  cases a with
  | pickUp block heal =>
    obtain ⟨target, t, hm, -⟩ := id hlift
    have hrun : e.run (before ++ [.pickUp block heal]) = t :=
      (run_concat e before _).trans (after_pickUp hm).1
    have hlast' : Lasts (t.run rest) := by
      rw [← hrun, ← run_append]
      exact hlast
    have hover' : (t.run rest).session = none := by
      rw [← hrun, ← run_append]
      exact hover
    have hbefore : (e.run before).workspace.Forest := forest (by simp)
    obtain ⟨-, s, hs, -⟩ := (pickUp_lifts block heal).ok hm (lasts_of_run hlast') hbefore
    have hheld : t.session.map (·.block) = some s.block := by rw [hs, Option.map_some]
    obtain ⟨between, c, rest', rfl, hon, hc⟩ := exists_ends hheld hlast' hover'
    refine ⟨before, block, heal, between, c, rest', by simp, hlift, hon, hc, ?_⟩
    exact hkept _ c (by simp) (by simp)
  | _ => exact hlift.elim

/-- In every run a live block is shown as dragged if and only if a drag took it along and no drag
that ended since then found it on its block. So while nothing is dragged, the only blocks that are
shown as dragged are those that were taken away from the dragged block during a drag. -/
theorem run_flags (hone : registry.OnePlug) (hstart : create config registry = .ok e)
    (hlast : Lasts (e.run actions)) (hacyclic : e.StaysAcyclic actions) :
    (∀ x, (e.run actions).workspace.Live x →
      ((e.run actions).workspace.Flagged x ↔ e.LeftUp actions x)) ∧
    ((e.run actions).session = none →
      ∀ x, (e.run actions).workspace.Flagged x → e.Strays actions x) := by
  refine ⟨fun x hx => flagged_iff hone hstart hlast hacyclic hx, fun hover x hon => ?_⟩
  have hleft := (flagged_iff hone hstart hlast hacyclic hon.live).mp hon
  exact hleft.strays hlast (run_forest hone hstart hlast hacyclic) hover

/-- A number is taken out of its statement while that is dragged. -/
def numberTaken : List (Action Int) :=
  [.newBlock "Return", .newBlock "int", .connect ⟨1⟩ ⟨2⟩, .pickUp ⟨0⟩ false, .disconnect ⟨1⟩,
    .dropAt ⟨5, 5⟩]

theorem run_flags_number :
    ((fresh (.standard : EditorConfig Int) Palette.registry).run numberTaken).session = none ∧
      (fresh (.standard : EditorConfig Int) Palette.registry).Strays numberTaken ⟨1⟩ := by
  have hover : ((fresh .standard Palette.registry).run numberTaken).session = none :=
    Option.isNone_iff_eq_none.mp (by decide +kernel)
  refine ⟨hover, (run_flags Palette.registry_onePlug (create_fresh (by decide)) (by decide +kernel)
    (staysAcyclic_of_ordered (by decide +kernel))).2 hover ⟨1⟩ ?_⟩
  decide +kernel

/-- Nothing is dragged any more, and the number is still shown as dragged. -/
theorem flag_outlives_drag :
    ((fresh (.standard : EditorConfig Int) Palette.registry).run numberTaken).session = none ∧
      ((fresh (.standard : EditorConfig Int) Palette.registry).run numberTaken).workspace.Flagged
        ⟨1⟩ :=
  ⟨Option.isNone_iff_eq_none.mp (by decide +kernel), by decide +kernel⟩

end Editor

end BlockEditor
