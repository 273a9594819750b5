import BlockEditor.Proofs.Building
import BlockEditor.Proofs.Originals
import BlockEditor.Proofs.Shapes

/-!
# Building a copy

What is built from a snapshot that was taken of a block looks as the block did: the snapshot can be
taken again. Nothing is refused on the way, since the snapshot fits the definition of its type. First
the block is made with its units and fields, then its sockets are filled from top to bottom.
-/

namespace BlockEditor

variable {α : Type}

namespace Workspace

variable {r : Registry} {ws t u v : Workspace α} {id child : BlockId} {b b' : Block α}
  {d : BlockDefinition} {n : Nat} {P Q : Block α → Prop} {c : ConnectionId}

/-- A new block of the definition `d` with `n` units, into which nothing is plugged yet. -/
structure Shell (ws : Workspace α) (r : Registry) (d : BlockDefinition) (n : Nat)
    (P : Block α → Prop) (id : BlockId) (t : Workspace α) : Prop where
  standard : t.Standard r
  fresh : ws.Fresh id t
  blank : t.Blank id
  block : ∃ b, t.blocks[id]? = some b ∧ t.Styled b d (d.settled n) ∧ b.units = n ∧ P b

/-- The block `id` was built after the snapshot, and nothing that was there before was touched. -/
structure Copied (ws : Workspace α) (r : Registry) (s : Snapshot) (id : BlockId) (t : Workspace α) :
    Prop where
  standard : t.Standard r
  fresh : ws.Fresh id t
  saved : t.save id = .ok s

theorem Shell.insert [Scalar α] (h : ws.Shell r d n P id t) (hb : t.blocks[id]? = some b)
    (hc : b'.core = b.core) (hP : P b → Q b') :
    ws.Shell r d n Q id { t with blocks := t.blocks.insert id b' } where
  standard := ⟨h.standard.sound.insert hb (Block.roles_of_core hc),
    stable_shaped.decorate (X := ∅) h.standard.sound hb hc h.standard.shaped, h.standard.registry⟩
  fresh := h.fresh.insert hb (Block.roles_of_core hc)
  blank := h.blank
  block := by
    obtain ⟨b₀, hb₀, hstyled, hn, hp⟩ := h.block
    rw [hb, Option.some.injEq] at hb₀
    subst hb₀
    exact ⟨b', by simp, (hstyled.core hc).carry rfl fun c _ => retains_of_eq rfl,
      (units_of_core hc).trans hn, hP hp⟩

/-- A workspace stays standard while nothing but a new block is in the making. -/
theorem Fresh.standard (h : ws.Fresh id t) (hw : ws.Standard r) (hs : t.Sound) (ht : t.Shaped) :
    t.Standard r :=
  ⟨hs, ht, h.extend.registry.trans hw.registry⟩

theorem Shell.live (h : ws.Shell r d n P id t) : t.Live id := by
  obtain ⟨b, hb, -⟩ := h.block
  exact ⟨b, hb⟩

theorem Shell.tame (h : ws.Shell r d n P id t) : t.graph.Tame id :=
  h.fresh.loose.tame h.standard.sound.wired

theorem Shell.forming (h : ws.Shell r d n P id t) :
    Forming True id d n (d.settled n) t where
  sound := h.standard.sound
  tidy := h.standard.shaped.tidy
  known := by
    obtain ⟨b, -, hstyled, -⟩ := h.block
    rw [h.standard.shaped.tidy.keyed hstyled.known]
    exact hstyled.known
  others x _ := h.standard.shaped.at_ x
  own b hb := by
    obtain ⟨b', hb', hstyled, hn, -⟩ := h.block
    rw [hb, Option.some.injEq] at hb'
    subst hb'
    exact ⟨hstyled, hn⟩
  stays _ := ⟨h.tame, h.live⟩

end Workspace

namespace Edit

open Workspace

variable [Scalar α] {r : Registry} {ws : Workspace α} {id : BlockId} {d : BlockDefinition} {n : Nat}
  {P Q : Block α → Prop}

/-! ### The block alone -/

theorem newBlock_shells {typeName : String} (hd : r.get? typeName = some d) :
    Leads (fun t => t = ws ∧ ws.Standard r) (newBlock typeName)
      (ws.Shell r d 0 fun b => b.placeholder = false) fun _ => False := by
  refine ((newBlock_forms True typeName).and ((newBlock_fresh ws typeName).and
    (newBlock_marks ws typeName))).frame (c := ws.Standard r) |>.weaken ?_ ?_ ?_
  · rintro _ ⟨rfl, h⟩
    refine ⟨⟨⟨h.sound, h.shaped, fun _ => ⟨d, ?_⟩⟩, ⟨h.sound, rfl⟩, h.sound, rfl⟩, h⟩
    rw [h.registry]
    exact hd
  · rintro id t ⟨⟨⟨d', htype, hform⟩, ⟨hfresh, hl⟩, hplain⟩, hw⟩
    have hstandard := hfresh.keeps.1.standard hw hform.sound (hform.shaped (planned_initial d'))
    have hknown := hform.known
    rw [hstandard.registry, htype, hd, Option.some.injEq] at hknown
    subst hknown
    obtain ⟨b, hb⟩ := hl
    obtain ⟨hstyled, hunits⟩ := hform.own b hb
    exact ⟨hstandard, hfresh.keeps.1, hfresh.keeps.2, b, hb, hstyled, hunits, hplain b hb⟩
  · exact fun t h => h.1.1.2.2 trivial

theorem decorate_shells {f : Block α → Block α} (hf : ∀ b, (f b).core = b.core)
    (hP : ∀ b, P b → Q (f b)) :
    Leads (ws.Shell r d n P id) (updateBlock id f) (fun _ => ws.Shell r d n Q id) fun _ => False := by
  refine Leads.updateBlock (fun t b h hb => h.insert hb (hf b) (hP b)) fun t h hb => ?_
  exact not_live hb h.live

/-- A container takes the units it is to have. -/
theorem setUnits_shells {spec : ContainerTemplate} {on : Bool} (hd : d.container = some spec)
    (m : Nat) :
    Leads (ws.Shell r d n (fun b => b.placeholder = on) id) (setUnits id m)
      (fun _ => ws.Shell r d (Container.capUnits m) (fun b => b.placeholder = on) id)
      fun _ => False := by
  have hsettled : ∀ m, d.settled m = Container.plan spec m := fun m => by
    simp [BlockDefinition.settled, hd]
  have hflag := (coarse_marked (α := α) (· = on) id).setUnits
    (fine_marked (α := α) False (· = on) id id) m
  have hforms : Leads (Forming True id d n (d.settled n)) (setUnits id m)
      (fun _ => Forming True id d (Container.capUnits m) (Container.plan spec (Container.capUnits m)))
      (Unformed (α := α) True) := setUnits_forms hd (Or.inl (hsettled n)) m
  refine Leads.fix fun v => (((hforms.and ((setUnits_fresh ws id m).and hflag)).frame
      (c := ws.Shell r d n (fun b => b.placeholder = on) id v))).weaken ?_ ?_ ?_
  · rintro _ ⟨rfl, h⟩
    obtain ⟨b, hb, hstyled, -, hon⟩ := h.block
    have hs := h.standard.sound
    refine ⟨⟨h.forming, ⟨hs, False.elim, h.fresh, h.blank⟩, hs, False.elim, fun b' hb' => ?_⟩, h⟩
    rw [hb, Option.some.injEq] at hb'
    exact hb' ▸ hon
  · rintro _ t ⟨⟨hform, ⟨hfresh, b, hb⟩, hon, -⟩, h⟩
    have hregistry : t.registry = v.registry :=
      hfresh.keeps.1.extend.registry.trans h.fresh.extend.registry.symm
    have hshaped := hform.shaped (Edit.planned_capUnits hd m)
    obtain ⟨hstyled, hunits⟩ := hform.own b hb
    rw [← hsettled] at hstyled
    exact ⟨⟨hform.sound, hshaped, hregistry.trans h.standard.registry⟩, hfresh.keeps.1,
      hfresh.keeps.2, b, hb, hstyled, hunits, hon.keeps b hb⟩
  · exact fun t h => h.1.1.2.2 trivial

theorem unitsOfShape_shapeOf (n : Nat) :
    Container.unitsOfShape (Container.shapeOf n) = Container.capUnits n := by
  simp [Container.unitsOfShape, Container.shapeOf, Json.member?, Container.unitsOf,
    Container.count?, Json.nat, Json.int]

/-- The stored shape is there if it is needed, and brings the units. -/
theorem fillShape_shells {on : Bool} (hn : n ≤ Container.maxUnits) (hsolid : d.container = none → n = 0) :
    Leads (ws.Shell r d 0 (fun b => b.placeholder = on) id)
      ((d.container.map fun _ => Container.shapeOf n).forM (fillShape id))
      (fun _ => ws.Shell r d n (fun b => b.placeholder = on) id) fun _ => False := by
  refine Leads.forM_option _ (fun shape hshape => ?_) fun hnone t h => ?_
  · obtain ⟨spec, hd, rfl⟩ := Option.map_eq_some_iff.mp hshape
    have hcap : Container.capUnits n = n := Nat.min_eq_left hn
    unfold fillShape
    refine Leads.bind (Leads.block fun t h hb => not_live hb h.live) fun b => ?_
    refine Leads.ite (fun _ => ?_) fun hno => Leads.pure ?_
    · unfold loadShape
      rw [unitsOfShape_shapeOf, hcap]
      refine Leads.bind ?_ fun _ => Leads.pure fun _ h => h
      refine ((setUnits_shells hd 0).pre fun _ h => h.1).bind fun _ => ?_
      refine Leads.bind ?_ fun _ => Leads.pure fun _ h => h
      exact (setUnits_shells hd n).post fun _ _ h => hcap ▸ h
    · rintro t ⟨h, hb⟩
      obtain ⟨b', hb', hstyled, -⟩ := h.block
      rw [hb, Option.some.injEq] at hb'
      subst hb'
      rw [Block.isContainer, hstyled.container, hd] at hno
      exact absurd rfl hno
  · rw [hsolid (Option.map_eq_none_iff.mp hnone)]
    exact h

omit [Scalar α] in
/-- One of the text fields that are left to be set is set. -/
theorem setField_shells {on : Bool} {l rest : List (String × String)} {name value : String}
    (hnodup : (l.map Prod.fst).Nodup) (hmem : name ∈ l.map Prod.fst) :
    Leads
      (ws.Shell r d n (fun b => b.placeholder = on ∧
        Assoc.putAll ((name, value) :: rest) (Field.entries (Input.allFields b.inputs)) = l) id)
      (setField id name value)
      (fun _ => ws.Shell r d n (fun b => b.placeholder = on ∧
        Assoc.putAll rest (Field.entries (Input.allFields b.inputs)) = l) id)
      fun _ => False := by
  refine Leads.fix fun v => ((setField_leads v id name value).frame (c := ws.Shell r d n
    (fun b => b.placeholder = on ∧ Assoc.putAll ((name, value) :: rest)
      (Field.entries (Input.allFields b.inputs)) = l) id v)).weaken (fun _ h => h) ?_ ?_
  · rintro _ t ⟨⟨b, inputs, procedures, hb, hf, rfl⟩, h⟩
    obtain ⟨b', hb', hstyled, hunits, hon, hl⟩ := h.block
    rw [hb, Option.some.injEq] at hb'
    subst hb'
    have hs := h.standard.sound
    have hr : Block.roles { b with inputs := inputs } = b.roles := by
      simp only [Block.roles, roles_setField hf]
    have hnew : (v.setInputs id b inputs).blocks[id]? = some { b with inputs := inputs } := by
      rw [getElem?_setInputs, if_pos rfl]
    have hsound : (v.setInputs id b inputs).Sound := hs.insert hb hr
    refine ⟨⟨⟨hsound.wired, hsound.blockIds, hsound.connectionIds, hsound.registry⟩,
      (h.standard.shaped.setInputs hs hb hf).congr rfl rfl rfl, h.standard.registry⟩,
      (h.fresh.insert hb hr).congr rfl, h.blank, _, hnew, ?_, hunits, hon, ?_⟩
    · have hset : v.Styled { b with inputs := inputs } d (d.settled n) :=
        ⟨hstyled.known, hstyled.container, hstyled.output, hstyled.previous, hstyled.next,
          follows_setField hf hstyled.inputs⟩
      exact hset.carry rfl fun c _ => retains_of_eq rfl
    · have hnames : (Field.names (Input.allFields b.inputs)).Nodup := by
        rw [Field.names, ← Assoc.map_fst_putAll ((name, value) :: rest), hl]
        exact hnodup
      rw [entries_setFieldAmong hf hnames]
      exact hl
  · rintro t ⟨⟨-, hnone⟩, h⟩
    obtain ⟨b, hb, -, -, -, hl⟩ := h.block
    refine setFieldAmong_eq_none.mp (hnone b hb) ?_
    rw [Field.names, ← Assoc.map_fst_putAll ((name, value) :: rest), hl]
    exact hmem

omit [Scalar α] in
theorem setFields_shells {on : Bool} {l : List (String × String)} (hnodup : (l.map Prod.fst).Nodup)
    (entries : List (String × String)) (hmem : ∀ e ∈ entries, e.1 ∈ l.map Prod.fst) :
    Leads
      (ws.Shell r d n (fun b => b.placeholder = on ∧
        Assoc.putAll entries (Field.entries (Input.allFields b.inputs)) = l) id)
      (entries.forM fun (name, value) => setField id name value)
      (fun _ => ws.Shell r d n (fun b => b.placeholder = on ∧
        Field.entries (Input.allFields b.inputs) = l) id)
      fun _ => False := by
  induction entries with
  | nil => exact Leads.pure fun _ h => h
  | cons e rest ih =>
    change Leads _ (_ >>= fun _ => rest.forM _) _ _
    refine (setField_shells hnodup (hmem e List.mem_cons_self)).bind fun _ => ?_
    exact ih fun e' he' => hmem e' (List.mem_cons_of_mem e he')

/-! ### What is plugged in -/

end Edit

namespace Workspace

variable {r : Registry} {ws t u v : Workspace α} {id child : BlockId} {b : Block α}
  {c : ConnectionId} {y : Connection α} {s : Snapshot} {i : Input}
  {e : Option (String × InputSnapshot Snapshot)}

/-- What was plugged in is found there, and is the same. -/
theorem Copied.hung (h : v.Copied r s child u) (hg : v.Grafts u c child t) (hv : v.Sound)
    (hy : v.connections[c]? = some y) (htame : t.graph.Tame y.block) :
    (∃ y', t.connections[c]? = some y' ∧ y'.template = y.template) ∧ t.across c = some child ∧
      t.save child = .ok s := by
  have hu := h.standard.sound
  have ht := hg.sound hu
  have hyu := h.fresh.extend.connection hv hy (Set.notMem_empty c)
  have htame' := htame.of_under ht.wired (hg.under_owner hyu)
  obtain ⟨p, t₁, hties, hshifts⟩ := hg.step
  have hagrees : Agrees child u t := by
    refine (hties.agrees fun y' hy' hbranch => ?_).trans (hshifts.agrees child)
    rw [hyu, Option.some.injEq] at hy'
    subst hy'
    have hnew := h.fresh.extend.branch_new hv hu h.fresh.new hbranch
    obtain ⟨b, hb, -⟩ := hv.owner hy
    have hold := hv.blockIds hb
    omega
  have hsaved : t.save child = .ok s :=
    (save_congr hu ht hagrees (h.fresh.loose.tame hu.wired) htame').trans h.saved
  refine ⟨?_, ?_, hsaved⟩
  · have hsocket := hties.connections c
    rw [hyu, Option.map_some, if_pos rfl] at hsocket
    obtain ⟨y', hy', he⟩ := hshifts.connection hsocket
    exact ⟨y', hy', congrArg (fun u : Connection Unit => u.template) he⟩
  · obtain ⟨w, z, hmates, -, -, hz⟩ := hties.mates
    have hlink := Graph.tie_link hmates
    rw [← hties.graph, ← hshifts.graph] at hlink
    obtain ⟨y', hy', he⟩ := connection_of_wire hlink.socket
    have hk : y'.kind.isSocket := by
      rw [show y'.kind = w.kind from congrArg Wire.kind he]
      exact hmates.isSocket
    exact (across_socket hy' hk).mpr ⟨p, { z with target := some c }, he ▸ hlink, hz⟩

/-- What an input is said to hold stays true when something is plugged into another input. -/
theorem Holds.extend (h : v.Holds i e) (hv : v.Sound) (ht : t.Sound) (hext : Extends {c} v t)
    (hb : v.blocks[id]? = some b) (hi : i ∈ b.inputs) (hne : i.connection ≠ some c)
    (hy : v.connections[c]? = some y) (hyid : y.block = id) (hfree : y.target = none)
    (htame : v.graph.Tame id) (htame' : t.graph.Tame id) : t.Holds i e := by
  have hkept : ∀ d z, v.connections[d]? = some z → d ≠ c → t.connections[d]? = some z :=
    fun d z hz hd => hext.connection hv hz hd
  cases h with
  | plain hc => exact .plain hc
  | @empty d z hd hz ha =>
    have hdc : d ≠ c := by
      rintro rfl
      exact hne hd
    have hz' := hkept d z hz hdc
    refine .empty hd hz' ?_
    cases htarget : z.target with
    | none => rw [across, targetOf_eq hz', htarget, Option.bind_none]
    | some p =>
      obtain ⟨x, hx, -⟩ := hv.target hz htarget
      rw [across, targetOf_eq hz, htarget, Option.bind_some, hx] at ha
      cases ha
  | @filled d z a s hd hz ha hsave =>
    have hdc : d ≠ c := by
      rintro rfl
      exact hne hd
    have hz' := hkept d z hz hdc
    have hunder := hv.under_of_across hb (mem_sockets_of_input hi hd) ha
    obtain ⟨p, hp, hpa⟩ := Option.bind_eq_some_iff.mp ha
    obtain ⟨x, hx, rfl⟩ := Option.map_eq_some_iff.mp hpa
    rw [targetOf_eq hz] at hp
    have hpc : p ≠ c := by
      rintro rfl
      obtain ⟨x', hx', ht', -⟩ := hv.target hz hp
      rw [hy, Option.some.injEq] at hx'
      subst hx'
      rw [hfree] at ht'
      cases ht'
    have ha' : t.across d = some x.block := by
      rw [across, targetOf_eq hz', hp, Option.bind_some, hkept p x hx hpc]
      rfl
    have hb' := hext.block hv hb
    have hunder' := ht.under_of_across hb' (mem_sockets_of_input hi hd) ha'
    have hagrees : Agrees x.block v t := by
      refine hext.agrees hv (live_of_save hsave) fun c' hc' y' hy' hbranch => ?_
      rw [Set.mem_singleton_iff.mp hc', hy, Option.some.injEq] at hy'
      subst hy'
      rw [hyid] at hbranch
      refine htame ?_
      rcases hbranch with he | hbelow
      · rw [← he] at hunder
        exact .single hunder
      · exact .tail hbelow hunder
    refine .filled hd hz' ha' ((save_congr hv ht hagrees (htame.of_under hv.wired hunder)
      (htame'.of_under ht.wired hunder')).trans hsave)

theorem extends_template {template : Option Snapshot}
    (ht : ∀ d : ConnectionId, t.connections[d]? = (v.connections[d]?).map
      fun y : Connection α => if d = c then { y with template := template } else y)
    (hr : t = { v with connections := t.connections }) : Extends {c} v t where
  blocks x _ := by rw [hr]
  connections d hd _ := by
    rw [ht]
    simp [Set.mem_singleton_iff.not.mp hd]
  blockCount := by rw [hr]
  endCount := by rw [hr]
  registry := by rw [hr]
  top := by rw [hr]

theorem Standard.template [Scalar α] {template : Option Snapshot} (h : v.Standard r)
    (ht : ∀ d : ConnectionId, t.connections[d]? = (v.connections[d]?).map
      fun y : Connection α => if d = c then { y with template := template } else y)
    (hr : t = { v with connections := t.connections }) : t.Standard r where
  sound := h.sound.template ht hr
  shaped := stable_shaped.template (X := ∅) h.sound ht hr h.shaped
  registry := by
    rw [hr]
    exact h.registry

/-- The inputs `done` of a new block hold what they are to hold, the others are as in the state `v`. -/
structure Copying (ws : Workspace α) (r : Registry) (v : Workspace α) (id : BlockId) (b : Block α)
    (done rest : List Input) (entries : List (Option (String × InputSnapshot Snapshot)))
    (t : Workspace α) : Prop where
  filling : Filling (fun _ => Shaped) ∅ ws id b (rest.filterMap (·.connection) ++ b.next.toList) t
  registry : t.registry = r
  same : ∀ c ∈ rest.filterMap (·.connection) ++ b.next.toList,
    t.connections[c]? = v.connections[c]?
  holds : List.Forall₂ t.Holds done entries
  inputs : b.inputs = done ++ rest

variable {done rest : List Input} {entries : List (Option (String × InputSnapshot Snapshot))}

theorem Copying.standard (h : ws.Copying r v id b done rest entries t) : t.Standard r :=
  ⟨h.filling.steady.sound, h.filling.steady.keeps, h.registry⟩

theorem Copying.tame (h : ws.Copying r v id b done rest entries t) : t.graph.Tame id :=
  h.filling.fresh.loose.tame h.filling.steady.sound.wired

/-- The inputs that are done stay as they are. -/
theorem Copying.holds_extend (h : ws.Copying r v id b done rest entries u) (ht : t.Sound)
    (hext : Extends {c} u t) (hc : c ∈ rest.filterMap (·.connection) ++ b.next.toList)
    (htame : t.graph.Tame id) : List.Forall₂ t.Holds done entries := by
  have hu := h.filling.steady.sound
  obtain ⟨y, hy, hyid, hfree⟩ := h.filling.free c hc
  have hnodup := hu.nodup_sockets h.filling.block
  rw [Block.sockets, h.inputs, List.filterMap_append, List.append_assoc] at hnodup
  have hall := (List.forall₂_and_left _ _).mpr ⟨fun i hi => hi, h.holds⟩
  refine hall.imp fun i e hi => hi.2.extend hu ht hext h.filling.block ?_ ?_ hy hyid hfree h.tame htame
  · rw [h.inputs]
    exact List.mem_append_left _ hi.1
  · intro hic
    exact (List.nodup_append.mp hnodup).2.2 c (List.mem_filterMap.mpr ⟨i, hi.1, hic⟩) c hc rfl

/-- One more input holds what it is to hold. -/
theorem Copying.next (h : ws.Copying r v id b done (i :: rest) entries u)
    (hc : i.connection = some c)
    (hf : Filling (fun _ => Shaped) ∅ ws id b (rest.filterMap (·.connection) ++ b.next.toList) t)
    (hext : Extends {c} u t) (he : t.Holds i e) :
    ws.Copying r v id b (done ++ [i]) rest (entries ++ [e]) t := by
  have hmem : c ∈ (i :: rest).filterMap (·.connection) ++ b.next.toList := by simp [hc]
  have hnodup := h.filling.nodup
  have hheld := h.holds_extend hf.steady.sound hext hmem
    (hf.fresh.loose.tame hf.steady.sound.wired)
  refine ⟨hf, hext.registry.trans h.registry, fun d hd => ?_, List.rel_append hheld (.cons he .nil), ?_⟩
  · have hdmem : d ∈ (i :: rest).filterMap (·.connection) ++ b.next.toList := by
      simp only [List.filterMap_cons, hc, List.cons_append]
      exact List.mem_cons_of_mem c hd
    obtain ⟨y, hy, -⟩ := h.filling.free d hdmem
    rw [← h.same d hdmem, hy]
    refine hext.connection h.filling.steady.sound hy fun hdc => ?_
    rw [Set.mem_singleton_iff] at hdc
    simp only [List.filterMap_cons, hc, List.cons_append, List.nodup_cons] at hnodup
    exact hnodup.1 (hdc ▸ hd)
  · rw [h.inputs, List.append_assoc]
    rfl

/-- An input may be passed over, if it holds what it is to hold as it is. -/
theorem Copying.skip (h : ws.Copying r v id b done (i :: rest) entries t) (he : t.Holds i e) :
    ws.Copying r v id b (done ++ [i]) rest (entries ++ [e]) t where
  filling := by
    have hfilling := h.filling
    cases hc : i.connection with
    | none => simpa [hc] using hfilling
    | some c =>
      simp only [List.filterMap_cons, hc, List.cons_append] at hfilling
      exact hfilling.skip
  registry := h.registry
  same c hc := by
    refine h.same c ?_
    rcases List.mem_append.mp hc with hc | hc
    · refine List.mem_append_left _ ?_
      rw [List.mem_filterMap] at hc ⊢
      obtain ⟨j, hj, hjc⟩ := hc
      exact ⟨j, List.mem_cons_of_mem i hj, hjc⟩
    · exact List.mem_append_right _ hc
  holds := List.rel_append h.holds (.cons he .nil)
  inputs := by
    rw [h.inputs, List.append_assoc]
    rfl

/-- A new block is a copy if its inputs hold what they are to hold, and the right block follows. -/
theorem Fresh.copied {next : Option Snapshot} (h : ws.Fresh id t) (ht : t.Standard r)
    (hb : t.blocks[id]? = some b) (hholds : List.Forall₂ t.Holds b.inputs entries)
    (hnext : t.Precedes b next) : ws.Copied r (b.snapshot entries next) id t :=
  ⟨ht, h, (ht.sound.save_eq_ok (h.loose.tame ht.sound.wired) hb).mpr
    ⟨entries, next, hholds, hnext, rfl⟩⟩

end Workspace

namespace Edit

open Workspace

variable [Scalar α] {r : Registry} {ws u v : Workspace α} {id : BlockId} {b : Block α}
  {c : ConnectionId} {y : Connection α} {s : Snapshot} {i : Input} {done rest : List Input}
  {entries : List (Option (String × InputSnapshot Snapshot))}

/-- The step builds the snapshot anew in every standard workspace. -/
def Copies (r : Registry) (s : Snapshot) (make : Edit α BlockId) : Prop :=
  ∀ ws : Workspace α, Leads (fun t => t = ws ∧ ws.Standard r) make (ws.Copied r s) fun _ => False

/-- A free socket takes what was built for it, if its type suits. -/
theorem hang_copied {child : BlockId} (hv : v.Standard r) (hy : v.connections[c]? = some y)
    (hfree : y.target = none) (hsuits : r.Suits y.kind y.check s.typeName)
    (hcopied : v.Copied r s child u) :
    Leads (· = u) (hang c child) (fun _ t => v.Grafts u c child t) fun _ => False := by
  have hs := hcopied.standard.sound
  have hyu := hcopied.fresh.extend.connection hv.sound hy (Set.notMem_empty c)
  refine (hang_leads u c child).weaken ?_ ?_ ?_
  · rintro _ rfl
    exact ⟨rfl, hs, ⟨y, hyu, hfree⟩, hcopied.fresh.loose⟩
  · rintro _ t ⟨p, t₁, hties, hshifts⟩
    exact hcopied.fresh.grafts hs hties hshifts.toShifts
  · rintro t ⟨-, hrefused⟩
    obtain ⟨b, hb, htype⟩ :=
      typeName_of_save hs (hcopied.fresh.loose.tame hs.wired) hcopied.saved
    rw [htype] at hsuits
    refine hrefused (hcopied.standard.welcomes hyu hb hsuits ?_)
    rintro rfl
    obtain ⟨b', hb', -⟩ := hv.sound.owner hy
    have hold := hv.sound.blockIds hb'
    have hnew := hcopied.fresh.new
    omega

/-- What is built for a free socket is put there. -/
theorem hang_copies {make : Edit α BlockId} (h : Copies r s make) (v : Workspace α)
    (c : ConnectionId) (y : Connection α) :
    Leads (fun t => t = v ∧ v.Standard r ∧ v.connections[c]? = some y ∧ y.target = none ∧
        r.Suits y.kind y.check s.typeName)
      (do hang c (← make)) (fun _ t => ∃ child u, v.Copied r s child u ∧ v.Grafts u c child t)
      fun _ => False := by
  let start := v.Standard r ∧ v.connections[c]? = some y ∧ y.target = none ∧
    r.Suits y.kind y.check s.typeName
  refine Leads.bind (Q := fun child u => v.Copied r s child u ∧ start)
    (((h v).frame (c := start)).weaken (fun _ h => ⟨⟨h.1, h.2.1⟩, h.2⟩) (fun _ _ h => h)
      fun _ h => h.1) fun child => Tells.each (hang_leads v c child) ?_
  rintro u ⟨hcopied, hv, hy, hfree, hsuits⟩
  exact (hang_copied hv hy hfree hsuits hcopied).post fun _ _ h => ⟨child, u, hcopied, h⟩

omit [Scalar α] in
theorem build_placeholder [Scalar α] (s : Snapshot) :
    (build s s.placeholder : Edit α BlockId) = build s false := by
  rw [build_eq, build_eq, Bool.or_self, Bool.or_false]

omit [Scalar α] in
/-- An input gets the template that its snapshot has, and the block. -/
theorem filler_ofChild [Scalar α] (template : Option Snapshot) (s : Snapshot) :
    (filler (.ofChild template s) : ConnectionId → Edit α Unit) =
      fillInput (InputSnapshot.ofChild template s).template (some (build s false)) := by
  rw [← build_placeholder]
  unfold InputSnapshot.ofChild
  cases hp : s.placeholder with
  | true => rfl
  | false => rfl

theorem ofChild_template (template : Option Snapshot) (s : Snapshot) :
    InputSnapshot.ofChild (InputSnapshot.ofChild template s).template s = .ofChild template s := by
  unfold InputSnapshot.ofChild
  split <;> rfl

/-- What an input of a new block is still to get: nothing, or a block that suits it. -/
inductive Awaits (r : Registry) (v : Workspace α) (fillers : Fillers α) (i : Input) :
    Option (String × InputSnapshot Snapshot) → Prop
  | plain : i.connection = none → Awaits r v fillers i none
  | idle {c : ConnectionId} {y : Connection α} : i.connection = some c →
      v.connections[c]? = some y → y.target = none → y.template = none →
      fillers[i.name]? = none → Awaits r v fillers i none
  | filled {c : ConnectionId} {y : Connection α} {s : Snapshot} (template : Option Snapshot) :
      i.connection = some c → v.connections[c]? = some y → y.target = none →
      r.Suits y.kind y.check s.typeName → Copies (α := α) r s (build s false) →
      fillers[i.name]? = some (filler (.ofChild template s)) →
      Awaits r v fillers i (some (i.name, .ofChild template s))

/-- A socket gets a template, and what is made for it. -/
theorem fillInput_copies (u : Workspace α) (template : Option Snapshot) {make : Edit α BlockId}
    (h : Copies r s make) (y : Connection α) :
    Leads (fun t => t = u ∧ u.Standard r ∧ u.connections[c]? = some y ∧ y.target = none ∧
        r.Suits y.kind y.check s.typeName)
      (fillInput template (some make) c)
      (fun _ t => ∃ v child w, v.Standard r ∧ Extends {c} u v ∧
        v.connections[c]? = some { y with template := template } ∧ v.Copied r s child w ∧
        v.Grafts w c child t)
      fun _ => False := by
  unfold fillInput
  refine Leads.bind (Q := fun _ v => (v.Standard r ∧ Extends {c} u v ∧
    v.connections[c]? = some { y with template := template }) ∧ y.target = none ∧
      r.Suits y.kind y.check s.typeName) (Leads.updateConnection ?_ ?_) fun _ => Leads.fix fun v => ?_
  · rintro _ v y' ⟨rfl, hu, hy, hrest⟩ hy' ht hr
    rw [hy, Option.some.injEq] at hy'
    subst hy'
    exact ⟨⟨hu.template ht hr, extends_template ht hr, by rw [ht, hy]; simp⟩, hrest⟩
  · rintro _ ⟨rfl, -, hy, -⟩ hn
    rw [hy] at hn
    cases hn
  · change Leads _ (do hang c (← make)) _ _
    refine ((hang_copies h v c { y with template := template }).frame (c := v.Standard r ∧
      Extends {c} u v ∧ v.connections[c]? = some { y with template := template })).weaken ?_ ?_
        fun _ h => h.1
    · rintro _ ⟨rfl, ⟨hv, hext, hy⟩, hrest⟩
      exact ⟨⟨rfl, hv, hy, hrest⟩, hv, hext, hy⟩
    · rintro _ t ⟨⟨child, w, hcopied, hgrafts⟩, hv, hext, hy⟩
      exact ⟨v, child, w, hv, hext, hy, hcopied, hgrafts⟩

/-- One input of a new block is filled. -/
theorem filler_copies (u : Workspace α) {template : Option Snapshot}
    (hi : i.connection = some c) (hy : v.connections[c]? = some y) (hfree : y.target = none)
    (hsuits : r.Suits y.kind y.check s.typeName) (h : Copies (α := α) r s (build s false)) :
    Leads (fun t => t = u ∧ ws.Copying r v id b done (i :: rest) entries u)
      (filler (.ofChild template s) c)
      (fun _ => ws.Copying r v id b (done ++ [i]) rest
        (entries ++ [some (i.name, .ofChild template s)]))
      fun _ => False := by
  have hgrows := build_grows (α := α) stable_shaped.growing s false
  have hfills : Leads
      (Filling (fun _ => Shaped) ∅ ws id b (c :: (rest.filterMap (·.connection) ++ b.next.toList)))
      (fillInput (InputSnapshot.ofChild template s).template (some (build s false)) c)
      (fun _ => Filling (fun _ => Shaped) ∅ ws id b (rest.filterMap (·.connection) ++ b.next.toList))
      (Stranded (fun _ => Shaped) ws) :=
    fillInput_fills stable_shaped.growing (fun make hm => by cases hm; exact hgrows.plain)
      fun hn => by cases hn
  have hmem : c ∈ (i :: rest).filterMap (·.connection) ++ b.next.toList := by simp [hi]
  rw [filler_ofChild]
  refine (hfills.and ((fillInput_copies u _ h y).frame
    (c := ws.Copying r v id b done (i :: rest) entries u))).weaken ?_ ?_ fun _ h => h.2.1
  · rintro _ ⟨rfl, hu⟩
    have hfilling := hu.filling
    simp only [List.filterMap_cons, hi, List.cons_append] at hfilling
    exact ⟨hfilling, ⟨rfl, hu.standard, (hu.same c hmem).trans hy, hfree, hsuits⟩, hu⟩
  · rintro _ t ⟨hfilling, ⟨v', child, w, hv', hext, hy', hcopied, hgrafts⟩, hu⟩
    have hext' : Extends {c} u t := hext.trans hgrafts.extend fun _ hc => Or.inl hc
    have hyid : y.block = id := by
      obtain ⟨y₀, hy₀, hid, -⟩ := hu.filling.free c hmem
      rw [hu.same c hmem, hy, Option.some.injEq] at hy₀
      rw [hy₀]
      exact hid
    have htame : t.graph.Tame y.block := by
      rw [hyid]
      exact hfilling.fresh.loose.tame hfilling.steady.sound.wired
    obtain ⟨⟨y'', hy'', htemplate⟩, hacross, hsaved⟩ := hcopied.hung hgrafts hv'.sound hy' htame
    have hholds := Holds.filled hi hy'' hacross hsaved
    rw [htemplate, ofChild_template] at hholds
    exact hu.next hi hfilling hext' hholds

/-- The inputs of a new block are filled one after the other. -/
theorem fillInputs_copies {fillers : Fillers α} {es : List (Option (String × InputSnapshot Snapshot))}
    (hawaits : List.Forall₂ (Awaits r v fillers) rest es) :
    Leads (ws.Copying r v id b done rest entries)
      (rest.forM fun input =>
        match input.connection, fillers[input.name]? with
        | some c, some fill => fill c
        | _, _ => return ())
      (fun _ => ws.Copying r v id b (done ++ rest) [] (entries ++ es)) fun _ => False := by
  induction hawaits generalizing done entries with
  | nil =>
    simp only [List.append_nil]
    exact Leads.pure fun _ h => h
  | @cons i e rest es hi _ ih =>
    have hrest : Leads (ws.Copying r v id b (done ++ [i]) rest (entries ++ [e]))
        (rest.forM fun input =>
          match input.connection, fillers[input.name]? with
          | some c, some fill => fill c
          | _, _ => return ())
        (fun _ => ws.Copying r v id b (done ++ [i] ++ rest) [] (entries ++ [e] ++ es))
        fun _ => False := ih
    simp only [List.append_assoc, List.singleton_append] at hrest
    change Leads _ (_ >>= fun _ => rest.forM _) _ _
    refine Leads.bind ?_ fun _ => hrest
    cases hi with
    | plain hc =>
      simp only [hc]
      exact Leads.pure fun t h => h.skip (.plain hc)
    | @idle c y hc hy hfree htemplate hfiller =>
      simp only [hc, hfiller]
      refine Leads.pure fun t h => ?_
      have hyt := (h.same c (by simp [hc])).trans hy
      have hnone : t.across c = none := by rw [across, targetOf_eq hyt, hfree, Option.bind_none]
      have hholds := Holds.empty hc hyt hnone
      rw [htemplate] at hholds
      exact h.skip hholds
    | @filled c y s template hc hy hfree hsuits hcopies hfiller =>
      simp only [hc, hfiller]
      exact Leads.fix fun u => filler_copies u hc hy hfree hsuits hcopies

omit [Scalar α] in
theorem fillNext_eq [Scalar α] {make : Edit α BlockId} (hb : u.blocks[id]? = some b)
    (hn : b.next = some c) : fillNext id make u = (do hang c (← make) : Edit α Unit) u := by
  unfold fillNext Edit.query
  simp only [bind, EStateM.bind, block_eq_ok.mpr hb, hn]

/-- The block below is built last. -/
theorem fillNext_copies {next : Option Snapshot} (hnext : ∀ below, next = some below → ∃ c y,
      b.next = some c ∧ v.connections[c]? = some y ∧ y.target = none ∧
        r.Suits y.kind y.check below.typeName ∧ Copies (α := α) r below (build below false)) :
    Leads (ws.Copying r v id b b.inputs [] entries)
      ((next.map (build · false)).forM (fillNext id))
      (fun _ => ws.Copied r (b.snapshot entries next) id) fun _ => False := by
  refine Leads.forM_option _ (fun make hmake => Leads.fix fun u => ?_) fun hnone t h =>
    h.filling.fresh.copied h.standard h.filling.block h.holds ?_
  · obtain ⟨below, hbelow, rfl⟩ := Option.map_eq_some_iff.mp hmake
    obtain ⟨c, y, hc, hy, hfree, hsuits, hcopies⟩ := hnext below hbelow
    have hgrows := build_grows (α := α) stable_shaped.growing below false
    have hfills : Leads (Filling (fun _ => Shaped) ∅ ws id b b.next.toList)
        (fillNext id (build below false)) (fun _ => Filling (fun _ => Shaped) ∅ ws id b []) (Stranded (fun _ => Shaped) ws) :=
      fillNext_fills stable_shaped.growing hgrows
    have hhangs : Leads (fun t => t = u ∧ ws.Copying r v id b b.inputs [] entries u)
        (fillNext id (build below false)) (fun _ t => ∃ child w, u.Copied r below child w ∧
          u.Grafts w c child t) fun _ => False := by
      refine Tells.congr hfills ((hang_copies hcopies u c y).pre ?_) ?_
      · rintro _ ⟨rfl, h⟩
        exact ⟨rfl, h.standard, (h.same c (by simp [hc])).trans hy, hfree, hsuits⟩
      · rintro _ ⟨rfl, h⟩
        exact fillNext_eq h.filling.block hc
    rw [hbelow]
    refine (hfills.and (hhangs.frame (c := ws.Copying r v id b b.inputs [] entries u))).weaken
      ?_ ?_ fun _ h => h.2.1
    · rintro _ ⟨rfl, h⟩
      exact ⟨h.filling, ⟨rfl, h⟩, h⟩
    · rintro _ t ⟨hfilling, ⟨child, w, hcopied, hgrafts⟩, h⟩
      have ht := hfilling.steady.sound
      have htame := hfilling.fresh.loose.tame ht.wired
      have hmem : c ∈ ([] : List Input).filterMap (·.connection) ++ b.next.toList := by simp [hc]
      obtain ⟨y', hy', hyid, -⟩ := h.filling.free c hmem
      obtain ⟨-, hacross, hsaved⟩ := hcopied.hung hgrafts h.standard.sound hy' (hyid ▸ htame)
      have hholds := h.holds_extend ht hgrafts.extend hmem htame
      refine hfilling.fresh.copied ⟨ht, hfilling.steady.keeps,
        hgrafts.extend.registry.trans h.registry⟩ hfilling.block hholds (.next ?_ hsaved)
      rw [hc]
      exact hacross
  · rw [Option.map_eq_none_iff.mp hnone]
    refine .last ?_
    cases hc : b.next with
    | none => rfl
    | some c =>
      obtain ⟨y, hy, -, hfree⟩ := h.filling.free c (by simp [hc])
      rw [Option.bind_some, across, targetOf_eq hy, hfree, Option.bind_none]

/-! ### The whole -/

section Table

variable {named : List (String × InputSnapshot Snapshot)} {name : String}
  {snapshot : InputSnapshot Snapshot}

theorem mem_fillers (hnodup : (named.map Prod.fst).Nodup) {fill : ConnectionId → Edit α Unit} :
    (Std.ExtTreeMap.ofList (fillers (Assoc.ofList named)) : Fillers α)[name]? = some fill ↔
      ∃ snapshot, (name, snapshot) ∈ named ∧ filler snapshot = fill := by
  rw [Assoc.getElem?_ofList, fillers_eq, List.mem_map]
  · constructor
    · rintro ⟨⟨name', snapshot⟩, hmem, he⟩
      cases he
      exact ⟨snapshot, (Assoc.mem_ofList hnodup).mp hmem, rfl⟩
    · rintro ⟨snapshot, hmem, rfl⟩
      exact ⟨(name, snapshot), (Assoc.mem_ofList hnodup).mpr hmem, rfl⟩
  · rw [fillers_eq, List.map_map]
    exact Assoc.nodup_names_ofList named

end Table

/-- Of each input of a new block it is known what it is still to get. -/
theorem Shell.awaits {d : BlockDefinition} {n : Nat} {P : Block α → Prop}
    (h : ws.Shell r d n P id v) (hb : v.blocks[id]? = some b) (hdistinct : r.Distinct)
    (hfits : s.Fits α r d n entries)
    (hmake : ∀ i ∈ s.inputs, i.2.All fun part =>
      part.Genuine α r → Copies (α := α) r part (build part false)) :
    List.Forall₂ (Awaits r v (.ofList (fillers s.inputs))) b.inputs entries := by
  obtain ⟨b', hb', hstyled, -⟩ := h.block
  rw [hb, Option.some.injEq] at hb'
  subst hb'
  have hsockets := (hdistinct.settled hfits.known n).1
  have hnodup : ((entries.filterMap fun e => e).map Prod.fst).Nodup :=
    hsockets.sublist (names_of_carries hfits.carries)
  have hfollows := (List.forall₂_and_left _ _).mpr ⟨fun i hi => hi, hstyled.inputs⟩
  refine forall₂_comp hfollows (carries_lookup hfits.carries hsockets) fun i t e hi ht => ?_
  have hs := h.standard.sound
  rw [hfits.inputs]
  rcases hi.2.plain_or_socket hs hb hi.1 with ⟨hc, hk⟩ | ⟨c, y, hc, hy, hyid, hk, hcheck⟩
  · cases ht.1 with
    | nothing => exact .plain hc
    | block template hk' => rw [hk] at hk'; cases hk'
  · have hblank := h.blank c y hy hyid (InputKind.isSocket_of_connection? hk)
    have hentry := fun snapshot => ht.2 snapshot (by rw [hk]; rfl)
    cases ht.1 with
    | nothing =>
      refine .idle hc hy hblank.1 hblank.2 (Option.eq_none_iff_forall_ne_some.mpr fun fill hfill => ?_)
      obtain ⟨snapshot, hmem, -⟩ := (mem_fillers hnodup).mp hfill
      rw [hi.2.name, hentry] at hmem
      cases hmem
    | @block k part template hk' hgenuine hsuits =>
      rw [hk, Option.some.injEq] at hk'
      subst hk'
      have hmem := (hentry (.ofChild template part)).mpr rfl
      have hcopies : Copies (α := α) r part (build part false) := by
        have hall := hmake (t.name, .ofChild template part)
          (by rw [hfits.inputs]; exact (Assoc.mem_ofList hnodup).mpr hmem)
        unfold InputSnapshot.ofChild at hall
        split at hall
        · exact hall.2 part rfl hgenuine
        · exact hall.1 part rfl hgenuine
      rw [← hcheck] at hsuits
      rw [← hi.2.name]
      exact .filled template hc hy hblank.1 hsuits hcopies
        ((mem_fillers hnodup).mpr ⟨_, by rw [hi.2.name]; exact hmem, rfl⟩)

omit [Scalar α] in
theorem populate_eq [Scalar α] (hb : v.blocks[id]? = some b) : populate s id v = (do
    b.inputs.forM fun input =>
      match input.connection, (Std.ExtTreeMap.ofList (fillers s.inputs) : Fillers α)[input.name]? with
      | some c, some fill => fill c
      | _, _ => return ()
    (s.next.map (build · false)).forM (fillNext id)
    return id : Edit α BlockId) v := by
  unfold populate fillInputs
  rw [bind_assoc]
  exact bind_eq (query_block hb)

/-- A new block that has what its snapshot says of it alone takes what is to be plugged in. -/
theorem populate_copies (hdistinct : r.Distinct) {d : BlockDefinition} {n : Nat}
    {l : List (String × String)} (hfits : s.Fits α r d n entries) (hl : s.fields = Assoc.ofList l)
    (hmake : ∀ i ∈ s.inputs, i.2.All fun part =>
      part.Genuine α r → Copies (α := α) r part (build part false))
    (hbelow : ∀ below, s.next = some below →
      below.Genuine α r → Copies (α := α) r below (build below false)) :
    Leads (ws.Shell r d n (fun b => b.placeholder = s.placeholder ∧
        Field.entries (Input.allFields b.inputs) = l ∧ b.copyOnDrag = s.copyOnDrag) id)
      (populate s id) (ws.Copied r s) fun _ => False := by
  have base : Leads (Sprout (fun _ => Shaped) ∅ (fun _ => True) ws id) (populate s id)
      (fun id t => Steady (fun _ => Shaped) ∅ t ∧ ws.Fresh id t ∧ t.Live id ∧
        t.Marked (fun _ => True) id)
      (Stranded (fun _ => Shaped) ws) :=
    populate_grows stable_shaped.growing
      (fun i _ => ⟨fun part _ => build_grows stable_shaped.growing part,
        fun part _ => build_grows stable_shaped.growing part⟩)
      fun below _ => build_grows stable_shaped.growing below
  refine Tells.each base fun v h => ?_
  obtain ⟨b, hb, hstyled, hunits, hplaceholder, hfields, hcopy⟩ := h.block
  have hawaits := Shell.awaits h hb hdistinct hfits hmake
  have hs : s = b.snapshot entries s.next := by
    refine hfits.eq_snapshot ?_ (h.standard.registry ▸ hstyled.known) hstyled.container hunits
      hplaceholder ?_ hcopy
    · have htidy := h.standard.shaped.tidy
      rwa [h.standard.registry] at htidy
    · rw [hl, ← hfields]
      rfl
  suffices hfill : Leads (· = v) (do
      b.inputs.forM fun input =>
        match input.connection,
          (Std.ExtTreeMap.ofList (fillers s.inputs) : Fillers α)[input.name]? with
        | some c, some fill => fill c
        | _, _ => return ()
      (s.next.map (build · false)).forM (fillNext id)
      return id) (ws.Copied r s) fun _ => False from
    Tells.congr base hfill fun _ ht => ht ▸ populate_eq hb
  refine Leads.bind (P := (· = v))
      (Q := fun _ => ws.Copying r v id b ([] ++ b.inputs) [] ([] ++ entries))
      ((fillInputs_copies hawaits).pre ?_) fun _ => ?_
  · rintro _ rfl
    have hsockets : b.inputs.filterMap (·.connection) ++ b.next.toList = b.sockets := rfl
    refine ⟨⟨⟨h.standard.sound, h.standard.shaped⟩, h.fresh, hb, fun c hc => ?_, ?_⟩,
      h.standard.registry, fun _ _ => rfl, .nil, rfl⟩
    · obtain ⟨y, hy, hyb, hk⟩ := h.standard.sound.socket hb (hsockets ▸ hc)
      exact ⟨y, hy, hyb, (h.blank c y hy hyb hk).1⟩
    · rw [hsockets]
      exact h.standard.sound.nodup_sockets hb
  · refine Leads.bind (fillNext_copies fun below hnext => ?_) fun _ => Leads.pure fun t ht => ?_
    · obtain ⟨template, hd, hgenuine, hsuits⟩ := hfits.next below hnext
      rcases hstyled.next_cases h.standard.sound hb with
        ⟨-, hn⟩ | ⟨c, y, template', hc, hd', hy, hyb, hkind, hcheck⟩
      · rw [hd] at hn
        cases hn
      · rw [hd, Option.some.injEq] at hd'
        subst hd'
        refine ⟨c, y, hc, hy, (h.blank c y hy hyb (by rw [hkind]; rfl)).1, ?_,
          hbelow below hnext hgenuine⟩
        rw [hkind, hcheck]
        exact hsuits
    · rw [hs]
      exact ht

/-- What is built from a snapshot that was taken of a block looks as the block did. -/
theorem build_copies (hdistinct : r.Distinct) (s : Snapshot) :
    s.Genuine α r → Copies (α := α) r s (build s false) := by
  induction s using Snapshot.induct with
  | step s hinputs hnext =>
    intro hgenuine ws
    obtain ⟨d, n, entries, hfits⟩ := hgenuine.fits
    obtain ⟨l, hl, hnames⟩ := hfits.fields
    have hnodup : (l.map Prod.fst).Nodup := by
      rw [hnames]
      exact (hdistinct.settled hfits.known n).2
    rw [build_eq, Bool.or_false]
    refine Leads.bind (newBlock_shells hfits.known) fun id => ?_
    refine Leads.optionally
      (Q := fun _ => ws.Shell r d 0 (fun b => b.placeholder = s.placeholder) id)
      (fun hon => decorate_shells (fun _ => rfl) fun b _ => hon.symm)
      (fun hoff t h => by simpa [hoff] using h) ?_
    unfold furnish
    rw [hfits.extra, hl]
    refine Leads.bind (fillShape_shells hfits.units hfits.solid) fun _ => ?_
    refine Leads.bind (Q := fun _ => ws.Shell r d n (fun b => b.placeholder = s.placeholder ∧
      Field.entries (Input.allFields b.inputs) = l) id) ((setFields_shells hnodup (Assoc.ofList l)
        fun e he => List.mem_map_of_mem ((Assoc.mem_ofList hnodup).mp he)).pre fun t h => ?_)
      fun _ => ?_
    · refine ⟨h.standard, h.fresh, h.blank, ?_⟩
      obtain ⟨b, hb, hstyled, hunits, hplaceholder⟩ := h.block
      refine ⟨b, hb, hstyled, hunits, hplaceholder, Assoc.putAll_ofList ?_ hnodup⟩
      rw [hnames, ← fieldNames_of_follows hstyled.inputs]
      rfl
    refine Leads.bind (decorate_shells (fun _ => rfl) fun b hb => ?_) fun _ =>
      populate_copies hdistinct hfits hl hinputs hnext
    exact ⟨hb.1, hb.2, rfl⟩

end Edit

end BlockEditor
