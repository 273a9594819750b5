import BlockEditor.Proofs.Containers
import Mathlib.Data.List.Flatten

/-!
# The list of callers

Calls are listed when they are made, when they are renamed and when they go. So the list of callers
has every call once, under the name of the procedure that it calls, and nothing else.
-/

namespace BlockEditor

variable {α : Type}

/-- Names and texts of the text fields of a block. -/
def Block.texts (b : Block α) : List (String × String) :=
  Field.entries (Input.allFields b.inputs)

theorem Block.fieldText?_eq (b : Block α) (name : String) :
    b.fieldText? name = b.texts.lookup name :=
  rfl

theorem Block.isCall_congr {b b' : Block α} (h : b'.container = b.container) :
    b'.isCall = b.isCall := by
  rw [isCall, isCall, h]

namespace Procedures

variable {p : Procedures} {name other : String} {x y : BlockId}

/-! ### The list -/

theorem mem_forget : (name, y) ∈ (p.forget x).calls ↔ (name, y) ∈ p.calls ∧ y ≠ x := by
  simp [forget]

theorem mem_register : (other, y) ∈ (p.register name x).calls ↔
    (other, y) ∈ p.calls ∧ y ≠ x ∨ other = name ∧ y = x := by
  rw [register, List.mem_append, mem_forget, List.mem_singleton, Prod.mk.injEq]

theorem nodup_register (h : (p.calls.map Prod.snd).Nodup) :
    ((p.register name x).calls.map Prod.snd).Nodup := by
  have hkept : ((p.forget x).calls.map Prod.snd).Nodup :=
    h.sublist (List.filter_sublist.map Prod.snd)
  rw [register, List.map_append, List.map_singleton, List.nodup_append]
  refine ⟨hkept, List.nodup_singleton x, fun y hy z hz => ?_⟩
  obtain ⟨⟨other, y⟩, hcall, rfl⟩ := List.mem_map.mp hy
  rw [List.mem_singleton.mp hz]
  exact (mem_forget.mp hcall).2

theorem mem_callers : x ∈ p.callers name ↔ (name, x) ∈ p.calls := by
  simp only [callers, List.mem_map, List.mem_filter, decide_eq_true_eq]
  constructor
  · rintro ⟨⟨other, y⟩, ⟨hcall, rfl⟩, rfl⟩
    exact hcall
  · exact fun h => ⟨(name, x), ⟨h, rfl⟩, rfl⟩

/-! ### The names -/

theorem mem_insertName {l : List String} : other ∈ insertName name l ↔ other = name ∨ other ∈ l := by
  induction l with
  | nil => simp [insertName]
  | cons key rest ih =>
    unfold insertName
    split
    · next h => simp [h]
    · split
      · simp
      · rw [List.mem_cons, ih, List.mem_cons]
        tauto

/-- Names that ascend still do with one more. -/
theorem pairwise_insertName {l : List String} (h : l.Pairwise (· < ·)) :
    (insertName name l).Pairwise (· < ·) := by
  induction l with
  | nil => simp [insertName]
  | cons key rest ih =>
    obtain ⟨hkey, hrest⟩ := List.pairwise_cons.mp h
    unfold insertName
    split
    · exact h
    · next hne =>
      split
      · next hlt =>
        refine List.pairwise_cons.mpr ⟨fun other ho => ?_, h⟩
        rcases List.mem_cons.mp ho with rfl | ho
        · exact hlt
        · exact String.lt_trans hlt (hkey other ho)
      · next hnlt =>
        refine List.pairwise_cons.mpr ⟨fun other ho => ?_, ih hrest⟩
        rcases mem_insertName.mp ho with rfl | ho
        · exact Std.lt_of_le_of_ne (Std.not_lt.mp hnlt) (Ne.symm hne)
        · exact hkey other ho

theorem foldl_insertName (calls : List (String × BlockId)) {l : List String}
    (h : l.Pairwise (· < ·)) :
    (calls.foldl (fun known (name, _) => insertName name known) l).Pairwise (· < ·) ∧
      ∀ name, name ∈ calls.foldl (fun known (name, _) => insertName name known) l ↔
        name ∈ l ∨ ∃ x, (name, x) ∈ calls := by
  induction calls generalizing l with
  | nil => exact ⟨h, fun name => by simp⟩
  | cons call rest ih =>
    obtain ⟨hsorted, hmem⟩ := ih (pairwise_insertName h)
    refine ⟨hsorted, fun name => (hmem name).trans ?_⟩
    rw [mem_insertName]
    constructor
    · rintro ((rfl | hl) | ⟨x, hx⟩)
      · exact Or.inr ⟨call.2, List.mem_cons_self⟩
      · exact Or.inl hl
      · exact Or.inr ⟨x, List.mem_cons_of_mem _ hx⟩
    · rintro (hl | ⟨x, hx⟩)
      · exact Or.inl (Or.inr hl)
      · rcases List.mem_cons.mp hx with rfl | hx
        · exact Or.inl (Or.inl rfl)
        · exact Or.inr ⟨x, hx⟩

theorem pairwise_names (p : Procedures) : p.names.Pairwise (· < ·) :=
  (foldl_insertName p.calls List.Pairwise.nil).1

theorem mem_names (p : Procedures) : name ∈ p.names ↔ ∃ x, (name, x) ∈ p.calls := by
  rw [names, (foldl_insertName p.calls List.Pairwise.nil).2]
  simp

end Procedures

theorem Built.entries_eq_nil {ts : List InputTemplate} {is : List Input} {l : List NewEnd}
    (h : Built ts is l) (hts : ∀ t ∈ ts, t.Textless) :
    Field.entries (Input.allFields is) = [] := by
  induction h with
  | nil => rfl
  | dummy _ _ ih | socket _ _ _ ih =>
    obtain ⟨ht, hrest⟩ := List.forall_mem_cons.mp hts
    rw [Input.allFields_cons, Field.entries_append, ih hrest, List.append_nil]
    exact List.filterMap_eq_nil_iff.mpr ht

namespace Workspace

variable {ws ws' : Workspace α} {H : Set BlockId} {id x : BlockId} {b : Block α}

/-- Apart from the blocks in `H`, the calls are listed, each once and under the only text that it can
have, and nothing else is. -/
structure Enrolled (H : Set BlockId) (ws : Workspace α) : Prop where
  once : (ws.procedures.calls.map Prod.snd).Nodup
  caller : ∀ x ∉ H, ∀ b, ws.blocks[x]? = some b → b.isCall → ∃ name, (name, x) ∈ ws.procedures.calls
  call : ∀ x ∉ H, ∀ name, (name, x) ∈ ws.procedures.calls → ∃ b, ws.blocks[x]? = some b ∧
    b.isCall ∧ b.texts.Sublist [(Container.procedureField, name)]

namespace Enrolled

theorem mono {H' : Set BlockId} (h : ws.Enrolled H) (hH : H ⊆ H') : ws.Enrolled H' :=
  ⟨h.once, fun x hx => h.caller x fun hm => hx (hH hm), fun x hx => h.call x fun hm => hx (hH hm)⟩

/-- A step that lists nobody, makes nobody and adds no text. -/
theorem carry (h : ws.Enrolled H) (hp : ws'.procedures = ws.procedures)
    (hlive : ∀ x ∉ H, ws'.Live x → ws.Live x)
    (hkeep : ∀ x ∉ H, ∀ b, ws.blocks[x]? = some b → ∃ b', ws'.blocks[x]? = some b' ∧
      b'.container = b.container ∧ b'.texts.Sublist b.texts) : ws'.Enrolled H where
  once := by
    rw [hp]
    exact h.once
  caller x hx b' hb' hcall := by
    obtain ⟨b, hb⟩ := hlive x hx ⟨b', hb'⟩
    obtain ⟨b'', hb'', hcontainer, -⟩ := hkeep x hx b hb
    rw [hb', Option.some.injEq] at hb''
    subst hb''
    rw [hp]
    exact h.caller x hx b hb (Block.isCall_congr hcontainer ▸ hcall)
  call x hx name hmem := by
    rw [hp] at hmem
    obtain ⟨b, hb, hcall, htexts⟩ := h.call x hx name hmem
    obtain ⟨b', hb', hcontainer, hsub⟩ := hkeep x hx b hb
    exact ⟨b', hb', (Block.isCall_congr hcontainer).trans hcall, hsub.trans htexts⟩

theorem congr (h : ws.Enrolled H) (hp : ws'.procedures = ws.procedures)
    (hb : ws'.blocks = ws.blocks) : ws'.Enrolled H := by
  refine h.carry hp (fun x _ hx => ?_) fun x _ b hx => ⟨b, ?_, rfl, List.Sublist.refl _⟩
  · rwa [Live, hb] at hx
  · rwa [hb]

theorem withBlock {b' : Block α} (h : ws.Enrolled H) (hb : ws.blocks[id]? = some b)
    (hcontainer : b'.container = b.container) (htexts : b'.texts.Sublist b.texts) :
    Enrolled H { ws with blocks := ws.blocks.insert id b' } := by
  refine h.carry rfl (fun x _ hx => ?_) fun x _ c hc => ?_
  · obtain ⟨c, hc⟩ := hx
    rw [getElem?_insert] at hc
    split at hc
    · next hxid => exact ⟨b, hxid ▸ hb⟩
    · exact ⟨c, hc⟩
  · by_cases hxid : x = id
    · subst hxid
      rw [hb, Option.some.injEq] at hc
      subst hc
      exact ⟨b', by rw [getElem?_insert, if_pos rfl], hcontainer, htexts⟩
    · exact ⟨c, by rw [getElem?_insert, if_neg hxid, hc], rfl, List.Sublist.refl _⟩

theorem shifts {S : BlockId → Prop} (h : ws.Enrolled H) (hstep : ws.Shifts S ws') :
    ws'.Enrolled H := by
  refine h.carry (by rw [hstep.rest]) (fun x _ hx => ?_) fun x _ b hb => ?_
  · obtain ⟨b', hb'⟩ := hx
    obtain ⟨b, hb, -⟩ := hstep.symm_block hb'
    exact ⟨b, hb⟩
  · obtain ⟨b', hb', he⟩ := hstep.block hb
    have hinputs : b'.inputs = b.inputs := congrArg (fun u : Block Unit => u.inputs) he
    refine ⟨b', hb', congrArg (fun u : Block Unit => u.container) he, ?_⟩
    rw [Block.texts, Block.texts, hinputs]

/-- Calls that go are struck off the list. -/
theorem loses {keep gone : List Input} {R : List BlockId} (h : ws.Enrolled H)
    (hstep : ws.Loses id keep gone R ws') : ws'.Enrolled H where
  once := by
    rw [hstep.procedures]
    exact h.once.sublist (List.filter_sublist.map Prod.snd)
  caller x hx b' hb' hcall := by
    obtain ⟨hR, b, hb, rfl⟩ := hstep.old hb'
    have hcall : b.isCall := by
      split at hcall
      · exact hcall
      · exact hcall
    obtain ⟨name, hmem⟩ := h.caller x hx b hb hcall
    refine ⟨name, ?_⟩
    rw [hstep.procedures, List.mem_filter]
    exact ⟨hmem, by simp [hR]⟩
  call x hx name hmem := by
    rw [hstep.procedures, List.mem_filter] at hmem
    obtain ⟨b, hb, hcall, htexts⟩ := h.call x hx name hmem.1
    have hR : x ∉ R := by
      intro hR
      simp [hR, isCallAt, hb, hcall] at hmem
    refine ⟨_, by rw [hstep.kept x hR, hb, Option.map_some], ?_⟩
    split
    · next hxid =>
      subst hxid
      obtain ⟨l₁, l₂, hinputs, rfl⟩ := hstep.parts b hb
      refine ⟨hcall, List.Sublist.trans ?_ htexts⟩
      have hsub : (l₁ ++ l₂).Sublist b.inputs := by
        rw [hinputs]
        exact (List.sublist_append_left l₁ gone).append_right l₂
      exact (hsub.flatMap _).filterMap _
    · exact ⟨hcall, htexts⟩

/-- Inputs without texts are no matter; of a block in `H` nothing is said. -/
theorem pushes [Scalar α] {ts : List InputTemplate} {is : List Input} {l : List NewEnd}
    (h : ws.Enrolled H) (hstep : ws.Pushes id ts is l ws')
    (hT : ∀ t ∈ ts, id ∈ H ∨ t.Textless) : ws'.Enrolled H := by
  refine h.carry (by rw [hstep.rest]) (fun x _ hx => ?_) fun x hx b hb => ?_
  · obtain ⟨b', hb'⟩ := hx
    rw [hstep.blocks, Option.map_eq_some_iff] at hb'
    obtain ⟨b, hb, -⟩ := hb'
    exact ⟨b, hb⟩
  · refine ⟨_, by rw [hstep.blocks, hb, Option.map_some], ?_⟩
    split
    · next hxid =>
      have htextless : ∀ t ∈ ts, t.Textless := fun t ht => (hT t ht).resolve_left (hxid ▸ hx)
      refine ⟨rfl, ?_⟩
      rw [Block.texts, Input.allFields, List.flatMap_append, Field.entries_append]
      rw [show is.flatMap (·.fields) = Input.allFields is from rfl, hstep.built.entries_eq_nil htextless,
        List.append_nil]
      exact List.Sublist.refl _
    · exact ⟨rfl, List.Sublist.refl _⟩

/-- A new block is not listed yet. -/
theorem raises [Scalar α] {d : BlockDefinition} (h : ws.Enrolled H)
    (hstep : ws.Raises d id b ws') : ws'.Enrolled (insert id H) := by
  have hp : ws'.procedures = ws.procedures := by
    obtain ⟨t, hm, rfl⟩ := hstep.step
    simp only
    rw [hm.rest]
  have hne : ∀ x ∉ insert id H, x ≠ id ∧ x ∉ H := fun x hx =>
    ⟨fun he => hx (Or.inl he), fun hm => hx (Or.inr hm)⟩
  refine (h.mono (Set.subset_insert id H)).carry hp (fun x hx hl => ?_) fun x hx b' hb' => ?_
  · obtain ⟨b', hb'⟩ := hl
    rw [hstep.blocks, if_neg (hne x hx).1] at hb'
    exact ⟨b', hb'⟩
  · exact ⟨b', by rw [hstep.blocks, if_neg (hne x hx).1, hb'], rfl, List.Sublist.refl _⟩

/-- A block is entered on the list. -/
theorem enrol {name : String} (h : ws.Enrolled (insert id H)) (hb : ws.blocks[id]? = some b)
    (hcall : b.isCall) (htexts : b.texts.Sublist [(Container.procedureField, name)]) :
    Enrolled H { ws with procedures := ws.procedures.register name id } where
  once := Procedures.nodup_register h.once
  caller x hx b' hb' hcall' := by
    by_cases hxid : x = id
    · exact ⟨name, Procedures.mem_register.mpr (Or.inr ⟨rfl, hxid⟩)⟩
    · obtain ⟨other, hmem⟩ := h.caller x (by simp [hxid, hx]) b' hb' hcall'
      exact ⟨other, Procedures.mem_register.mpr (Or.inl ⟨hmem, hxid⟩)⟩
  call x hx other hmem := by
    rcases Procedures.mem_register.mp hmem with ⟨hmem, hxid⟩ | ⟨rfl, rfl⟩
    · exact h.call x (by simp [hxid, hx]) other hmem
    · exact ⟨b, hb, hcall, htexts⟩

/-- A block that is no call and is not listed needs no exception. -/
theorem of_unlisted (h : ws.Enrolled (insert id H)) (hb : ∀ b, ws.blocks[id]? = some b → b.isCall = false)
    (hmem : ∀ name, (name, id) ∉ ws.procedures.calls) : ws.Enrolled H where
  once := h.once
  caller x hx b' hb' hcall := by
    by_cases hxid : x = id
    · subst hxid
      rw [hb b' hb'] at hcall
      cases hcall
    · exact h.caller x (by simp [hxid, hx]) b' hb' hcall
  call x hx name hname := by
    by_cases hxid : x = id
    · exact (hmem name (hxid ▸ hname)).elim
    · exact h.call x (by simp [hxid, hx]) name hname

/-- Nothing more is said of a block that gets other inputs. -/
theorem setInputs {inputs : List Input} (h : ws.Enrolled H) :
    Enrolled (insert id H) (ws.setInputs id b inputs) := by
  have hne : ∀ x ∉ insert id H, x ≠ id := fun x hx he => hx (Or.inl he)
  refine (h.mono (Set.subset_insert id H)).carry rfl (fun x hx hl => ?_) fun x hx c hc => ?_
  · obtain ⟨c, hc⟩ := hl
    rw [getElem?_setInputs, if_neg (hne x hx)] at hc
    exact ⟨c, hc⟩
  · exact ⟨c, by rw [getElem?_setInputs, if_neg (hne x hx), hc], rfl, List.Sublist.refl _⟩

/-- Setting a field renames the block if it is a call. -/
theorem withField {name value : String} {inputs : List Input} (h : ws.Enrolled ∅)
    (hb : ws.blocks[id]? = some b) (hset : setFieldAmong name value b.inputs = some inputs) :
    (ws.withField id b name value inputs).Enrolled ∅ := by
  have hnew : (ws.setInputs id b inputs).blocks[id]? = some { b with inputs := inputs } := by
    rw [getElem?_setInputs, if_pos rfl]
  unfold Workspace.withField
  by_cases hcall : b.isCall
  · -- a call has no other text than the one that names it
    obtain ⟨old, hmem⟩ := h.caller id (Set.notMem_empty id) b hb hcall
    obtain ⟨b', hb', -, htexts⟩ := h.call id (Set.notMem_empty id) old hmem
    rw [hb, Option.some.injEq] at hb'
    subst hb'
    have hnames : (Field.names (Input.allFields b.inputs)).Sublist [Container.procedureField] :=
      htexts.map Prod.fst
    have hname : name ∈ Field.names (Input.allFields b.inputs) := by
      by_contra hn
      rw [setFieldAmong_eq_none.mpr hn] at hset
      cases hset
    obtain rfl : name = Container.procedureField := List.mem_singleton.mp (hnames.subset hname)
    have htexts' : ({ b with inputs := inputs } : Block α).texts.Sublist
        [(Container.procedureField, value)] := by
      rw [Block.texts, entries_setFieldAmong hset (hnames.nodup (List.nodup_singleton _))]
      exact htexts.map _
    rw [if_pos (by simp [hcall])]
    exact h.setInputs.enrol hnew hcall htexts'
  · rw [if_neg (by simp [hcall])]
    refine h.setInputs.of_unlisted (fun b' hb' => ?_) fun other hmem => ?_
    · rw [hnew, Option.some.injEq] at hb'
      subst hb'
      exact Bool.eq_false_iff.mpr hcall
    · obtain ⟨b', hb', hcall', -⟩ := h.call id (Set.notMem_empty id) other hmem
      rw [hb, Option.some.injEq] at hb'
      exact hcall (hb' ▸ hcall')

end Enrolled

/-- A block that is being made, and is not listed yet. -/
structure Unlisted (id : BlockId) (ws : Workspace α) : Prop where
  enrolled : ws.Enrolled (insert id ∅)
  absent : ∀ name, (name, id) ∉ ws.procedures.calls

/-- A block that is being made may get any inputs. -/
theorem fine_unlisted [Scalar α] (strict : Prop) (id : BlockId) :
    Fine (α := α) strict id (Unlisted id) where
  shifts _ hstep h := ⟨h.enrolled.shifts hstep, by rw [hstep.rest]; exact h.absent⟩
  sheds _ _ hstep h := by
    obtain ⟨R, hl, -⟩ := hstep
    refine ⟨h.enrolled.loses hl, fun name hmem => h.absent name ?_⟩
    rw [hl.procedures] at hmem
    exact (List.mem_filter.mp hmem).1
  pushes _ hstep h _ :=
    ⟨h.enrolled.pushes hstep fun _ _ => Or.inl (Or.inl rfl), by rw [hstep.rest]; exact h.absent⟩

theorem fine_enrolled [Scalar α] (strict : Prop) (id : BlockId) :
    FineFor (α := α) InputTemplate.Textless strict id (Enrolled ∅) where
  shifts _ hstep h := h.shifts hstep
  sheds _ _ hstep h := by
    obtain ⟨R, hl, -⟩ := hstep
    exact h.loses hl
  pushes _ hstep h hT := h.pushes hstep fun t ht => Or.inr (hT t ht)

end Workspace

namespace Edit

open Workspace

variable [Scalar α] {strict : Prop} {id : BlockId}

theorem setUnits_enrolled (id : BlockId) (n : Nat) :
    Leads (Good strict id (Enrolled (α := α) ∅)) (setUnits id n)
      (fun _ t => Good strict id (Enrolled ∅) t ∧ t.Live id) fun t => t.Sound ∧ t.Enrolled ∅ := by
  refine setUnits_keeps (T := InputTemplate.Textless) (K := fun _ _ => Enrolled ∅)
    (fine_enrolled strict id).handles (fun _ _ => (fine_enrolled strict id).handles)
    (fun _ hb h => h.withBlock hb rfl (List.Sublist.refl _)) (fun _ _ h => ?_) (fun _ _ h => h) n
    fun _ ht => ht
  split
  · exact h.congr rfl rfl
  · exact h

theorem setUnits_unlisted (id : BlockId) (n : Nat) :
    Leads (Good strict id (Unlisted (α := α) id)) (setUnits id n)
      (fun _ t => Good strict id (Unlisted id) t ∧ t.Live id) fun t => t.Sound ∧ t.Unlisted id := by
  refine setUnits_keeps (K := fun _ _ => Unlisted id) (fine_unlisted strict id).handles
    (fun _ _ => (fine_unlisted strict id).handles) (fun _ hb h => ⟨h.enrolled.withBlock hb rfl
      (List.Sublist.refl _), h.absent⟩) (fun _ _ h => ?_) (fun _ _ h => h) n
  split
  · exact ⟨h.enrolled.congr rfl rfl, h.absent⟩
  · exact h

/-- A block that is being made after its definition, and is not listed yet. -/
def Making (id : BlockId) (d : BlockDefinition) (ts : List InputTemplate) (ws : Workspace α) :
    Prop :=
  Forming True id d 0 ts ws ∧ Good True id (Unlisted id) ws ∧ ws.Live id

omit [Scalar α] in
/-- A block that turns out to be no call is as it should be. -/
theorem Making.enrolled {d : BlockDefinition} {ts : List InputTemplate} {ws : Workspace α}
    (h : Making id d ts ws) (hd : d.container.map (·.kind) ≠ some .call) : ws.Enrolled ∅ := by
  obtain ⟨hform, hgood, -⟩ := h
  refine hgood.keeps.enrolled.of_unlisted (fun b hb => ?_) hgood.keeps.absent
  have hcontainer := (hform.own b hb).1.container
  rw [Block.isCall, hcontainer]
  exact decide_eq_false hd

theorem addInputs_making {d : BlockDefinition} {ts : List InputTemplate} (us : List InputTemplate) :
    Leads (Making (α := α) id d ts) (us.forM (addInput id)) (fun _ => Making id d (ts ++ us))
      fun _ => False :=
  ((addInputs_forms us).and (Leads.forM_list us fun t _ =>
    addInput_stays (fine_unlisted True id).handles t)).refused fun _ h => h.2

/-- A new container is listed if it is a call. -/
theorem finishContainer_enrolled {d : BlockDefinition} {spec : ContainerTemplate}
    (hd : d.container = some spec) :
    Leads (Making (α := α) id d []) (finishContainer id spec) (fun _ t => t.Enrolled ∅)
      fun _ => False := by
  unfold finishContainer initContainer
  refine Leads.bind (Q := fun _ => Making id d (Container.plan spec 0)) ?_ fun _ => ?_
  · refine (addInputs_making (Container.head spec)).bind fun _ => ?_
    refine ((setUnits_forms hd (Or.inr ⟨rfl, rfl⟩) 0).and (setUnits_unlisted id 0)).weaken
      (fun _ h => ⟨h.1, h.2.1⟩) (fun _ _ h => h) fun _ h => h.1.2.2 trivial
  refine Leads.ite (fun hcall => ?_) fun hcall => Leads.pure fun _ h => h.enrolled ?_
  · unfold registerCall
    refine (Leads.block fun _ h hn => (not_live hn h.2.2).elim).bind fun b => Leads.alter ?_
    rintro t ⟨⟨hform, hgood, -⟩, hb⟩
    have hstyled := (hform.own b hb).1
    have hiscall : b.isCall := by
      rw [Block.isCall, hstyled.container, hd, Option.map_some, hcall]
      rfl
    have hnames : b.texts.map Prod.fst = [Container.procedureField] := by
      have hfollow := fieldNames_of_follows hstyled.inputs
      rw [Container.names_plan, if_pos hcall] at hfollow
      exact hfollow
    obtain ⟨⟨name, text⟩, htexts, rfl⟩ := List.map_eq_singleton_iff.mp hnames
    refine hgood.keeps.enrolled.enrol hb hiscall ?_
    rw [Block.fieldText?_eq, htexts]
    simp
  · rw [hd, Option.map_some, ne_eq, Option.some.injEq]
    exact hcall

theorem newBlock_enrolled (typeName : String) :
    Leads (fun ws : Workspace α => ws.Sound ∧ ws.Shaped ∧ ws.Enrolled ∅) (newBlock typeName)
      (fun _ t => t.Enrolled ∅) fun t => t.Enrolled ∅ := by
  refine newBlock_raises typeName (fun _ _ h _ => h.2) fun s d id hd => ?_
  have hraise : ∀ t, ((s.Shaped ∧ s.Enrolled ∅) ∧ s.Sound ∧ ∃ b, s.Raises d id b t) →
      Making id d [] t ∧ (d.container.isSome → d.inputs = []) := by
    rintro t ⟨⟨hshaped, henrolled⟩, hs, b, hr⟩
    have hform : Forming True id d 0 [] t := Forming.raise hs hshaped hd hr
    refine ⟨⟨hform, ⟨hform.sound, fun _ => (hform.stays trivial).1, henrolled.raises hr,
      fun name hmem => ?_⟩, hr.live⟩, hshaped.tidy.bare hd⟩
    have hp : t.procedures = s.procedures := by
      obtain ⟨u, hm, rfl⟩ := hr.step
      simp only
      rw [hm.rest]
    rw [hp] at hmem
    obtain ⟨b', hb', -⟩ := henrolled.call id (Set.notMem_empty id) name hmem
    rw [hr.dead hs] at hb'
    cases hb'
  refine Leads.bind (Q := fun _ t => Making id d d.inputs t ∧ (d.container.isSome → d.inputs = []))
    (((addInputs_making d.inputs).frame.pre hraise).refused fun _ h => h.1.elim) fun _ => ?_
  refine Leads.bind (Leads.fire (Q := fun _ t => Making id d d.inputs t ∧
    (d.container.isSome → d.inputs = [])) ?_) fun _ => ?_
  · rintro t ⟨⟨hform, hgood, hl⟩, hbare⟩
    exact ⟨⟨hform.withEvents _, ⟨hgood.sound.withEvents _, hgood.tame,
      hgood.keeps.enrolled.congr rfl rfl, hgood.keeps.absent⟩, hl⟩, hbare⟩
  refine Leads.bind (Q := fun _ t => t.Enrolled ∅) ?_ fun _ => Leads.pure fun _ h => h
  cases hc : d.container with
  | none => exact Leads.pure fun _ h => h.1.enrolled (by rw [hc]; nofun)
  | some spec =>
    refine ((finishContainer_enrolled hc).refused fun _ h => h.elim).pre ?_
    rintro t ⟨h, hbare⟩
    rwa [hbare rfl] at h

end Edit

/-! ### Every run -/

namespace Workspace

theorem stable_enrolled [Scalar α] :
    Stable (α := α) False fun _ ws => ws.Shaped ∧ ws.Enrolled ∅ where
  mono _ h := h
  shifts {X} _ _ _ hs hstep h := ⟨stable_shaped.shifts (X := X) hs hstep h.1, h.2.shifts hstep.toShifts⟩
  decorate {X ws id b b'} hs hb he h := by
    refine ⟨stable_shaped.decorate (X := X) hs hb he h.1, h.2.withBlock hb
      (congrArg (fun u : Block Unit => u.container) he) ?_⟩
    have htexts : b'.texts = b.texts := congrArg (fun u : Block Unit => u.texts) he
    rw [htexts]
  field {X} _ _ _ _ _ _ hs hb hf h :=
    ⟨stable_shaped.field (X := X) hs hb hf h.1, h.2.withField hb hf⟩
  side {X} _ _ _ h := ⟨stable_shaped.side (X := X) h.1, h.2.congr rfl rfl⟩
  note {X} _ _ he h := ⟨stable_shaped.note (X := X) he h.1, h.2.congr rfl rfl⟩
  group {X} _ _ h := ⟨stable_shaped.group (X := X) h.1, h.2.congr rfl rfl⟩
  template {X} _ _ _ _ hs ht hr h :=
    ⟨stable_shaped.template (X := X) hs ht hr h.1, h.2.congr (by rw [hr]) (by rw [hr])⟩
  cuts {X} _ _ _ _ _ hs hstep h :=
    ⟨stable_shaped.cuts (X := X) hs hstep h.1, h.2.congr (by rw [hstep.rest]) hstep.blocks⟩
  ties {X} _ _ _ _ _ hs hstep h :=
    ⟨stable_shaped.ties (X := X) hs hstep h.1, h.2.congr (by rw [hstep.rest]) hstep.blocks⟩
  prunes {X} _ _ _ _ _ hs hb hl hR h :=
    ⟨stable_shaped.prunes (X := X) hs hb hl hR h.1, h.2.loses hl⟩
  fill _ _ h := h
  newBlock {X} typeName := ((stable_shaped.newBlock (X := X) typeName).and
    (Edit.newBlock_enrolled typeName)).weaken (fun _ h => ⟨⟨h.1, h.2.1⟩, h⟩) (fun _ _ h => h)
      fun _ h => h
  setUnits {X} id n := ((stable_shaped.setUnits (X := X) id n).and
    (Edit.setUnits_enrolled id n)).weaken
      (fun _ h => ⟨⟨h.1, h.2.1.1, False.elim⟩, h.1, False.elim, h.2.1.2⟩)
      (fun _ _ h => ⟨h.1, h.2.1.keeps⟩) fun _ h => ⟨h.1, h.2.2⟩
  refreshControls {X} id := ((stable_shaped.refreshControls (X := X) id).and
    (Edit.refreshControls_keeps (fine_enrolled False id).handles fun _ ht => ht)).weaken
      (fun _ h => ⟨⟨h.1, h.2.1.1, False.elim⟩, h.1, False.elim, h.2.1.2⟩)
      (fun _ _ h => ⟨h.1, h.2.1.keeps⟩) fun _ h => ⟨h.1, h.2.keeps⟩

variable {ws : Workspace α}

/-- The list of callers has each call once, under the name of the procedure that it calls, and the
list of names has each procedure that is called. -/
structure ListsCalls (ws : Workspace α) : Prop where
  once : (ws.procedures.calls.map Prod.snd).Nodup
  listed : ∀ (x : BlockId) b, ws.blocks[x]? = some b → b.isCall →
    ∃ name, b.fieldText? Container.procedureField = some name ∧ x ∈ ws.procedures.callers name
  live : ∀ name, ∀ x ∈ ws.procedures.callers name, ∃ b, ws.blocks[x]? = some b ∧ b.isCall ∧
    b.fieldText? Container.procedureField = some name
  sorted : ws.procedures.names.Pairwise (· < ·)
  named : ∀ name, name ∈ ws.procedures.names ↔ ws.procedures.callers name ≠ []

theorem Enrolled.listsCalls (h : ws.Enrolled ∅) (hshaped : ws.Shaped) : ws.ListsCalls := by
  have hlive : ∀ name, ∀ x ∈ ws.procedures.callers name, ∃ b, ws.blocks[x]? = some b ∧ b.isCall ∧
      b.fieldText? Container.procedureField = some name := by
    intro name x hx
    obtain ⟨b, hb, hcall, htexts⟩ :=
      h.call x (Set.notMem_empty x) name (Procedures.mem_callers.mp hx)
    refine ⟨b, hb, hcall, ?_⟩
    -- the shape of a call says that it has the text
    obtain ⟨d, ts, hstyled, hplan⟩ := hshaped.at_ x b hb
    have hkind := of_decide_eq_true hcall
    rw [hstyled.container, Option.map_eq_some_iff] at hkind
    obtain ⟨spec, hd, hspec⟩ := hkind
    obtain ⟨-, rfl⟩ := hplan.eq_plan hd
    have hnames := fieldNames_of_follows hstyled.inputs
    rw [Container.names_plan, if_pos hspec] at hnames
    have htexts' : b.texts = [(Container.procedureField, name)] := by
      refine htexts.eq_of_length ?_
      have := congrArg List.length hnames
      rwa [Field.names, List.length_map] at this
    rw [Block.fieldText?_eq, htexts']
    simp
  refine ⟨h.once, fun x b hb hcall => ?_, hlive, ws.procedures.pairwise_names, fun name => ?_⟩
  · obtain ⟨name, hmem⟩ := h.caller x (Set.notMem_empty x) b hb hcall
    have hx := Procedures.mem_callers.mpr hmem
    obtain ⟨b', hb', -, htext⟩ := hlive name x hx
    rw [hb, Option.some.injEq] at hb'
    exact ⟨name, hb' ▸ htext, hx⟩
  · rw [Procedures.mem_names, ← List.isEmpty_eq_false_iff, List.isEmpty_eq_false_iff_exists_mem]
    simp only [Procedures.mem_callers]

end Workspace

namespace Editor

open Workspace

variable [Scalar α] {config : EditorConfig α} {e : Editor α} {actions : List (Action α)}

/-- In every run over the palette, whatever is refused, the callers are the calls that are there. -/
theorem run_listsCalls (hstart : create config Palette.registry = .ok e)
    (hlast : Lasts (e.run actions)) : (e.run actions).workspace.ListsCalls := by
  obtain ⟨-, rfl⟩ := create_eq_ok hstart
  have hempty : Enrolled ∅ (Workspace.empty config Palette.registry) := by
    refine ⟨List.nodup_nil, fun x _ b hb => ?_, fun x _ name hmem => ?_⟩
    · rw [getElem?_blocks_empty] at hb
      cases hb
    · cases hmem
  have hsteady : Steady (fun _ ws => ws.Shaped ∧ ws.Enrolled ∅) Set.univ
      (Workspace.empty config Palette.registry) :=
    ⟨empty_sound Palette.registry_onePlug, empty_shaped config Palette.registry_tidy, hempty⟩
  have hend := run_steady stable_enrolled hsteady hlast False.elim
  exact hend.keeps.2.listsCalls hend.keeps.1

/-- Two calls are made and renamed, and one of them is plugged into the other and goes when that loses
its argument. -/
theorem run_listsCalls_shrink :
    let e := (fresh (.standard : EditorConfig Int) Palette.registry).run
      [.newBlock "Call", .newBlock "Call", .setField ⟨0⟩ "func" "f", .setField ⟨1⟩ "func" "g",
        .setUnits ⟨0⟩ 1, .connect ⟨2⟩ ⟨1⟩, .setField ⟨1⟩ "func" "f", .setUnits ⟨0⟩ 0]
    e.workspace.procedures.calls = [("f", ⟨0⟩)] ∧ e.workspace.ListsCalls :=
  ⟨by decide +kernel, run_listsCalls (create_fresh (by decide)) (by decide +kernel)⟩

end Editor

end BlockEditor
