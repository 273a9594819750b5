import BlockEditor.Format.Snapshot
import BlockEditor.Proofs.Records
import BlockEditor.Proofs.Snapshot

/-!
# Reading snapshots back

A snapshot that was written is read back as it was, to any depth: what was left out has the value
that a reader puts in its place. Only a shape that is `null` is taken for none. What was read from
some JSON value, however that was written, is written and read without a change.
-/

namespace BlockEditor

namespace Snapshot

/-- Tables are in order and shapes in canonical form, at every depth. -/
inductive Tidy : Snapshot → Prop
  | intro {s : Snapshot} (fields : Assoc.Ordered s.fields)
      (extra : ∀ j, s.extra = some j → j.canonical = j) (inputs : Assoc.Ordered s.inputs)
      (blocks : ∀ i ∈ s.inputs, ∀ t, i.2.block = some t → t.Tidy)
      (templates : ∀ i ∈ s.inputs, ∀ t, i.2.template = some t → t.Tidy)
      (next : ∀ n, s.next = some n → n.Tidy) : Tidy s

mutual

/-- The same snapshot without shapes that are `null`, at every depth. -/
def withoutNulls : Snapshot → Snapshot
  | ⟨typeName, placeholder, fields, extra, inputs, next, copyOnDrag⟩ =>
    ⟨typeName, placeholder, fields, extra.filter (!·.isNull), inputsWithoutNulls inputs,
      anyWithoutNulls next, copyOnDrag⟩

def anyWithoutNulls : Option Snapshot → Option Snapshot
  | none => none
  | some s => some (withoutNulls s)

def inputsWithoutNulls :
    List (String × InputSnapshot Snapshot) → List (String × InputSnapshot Snapshot)
  | [] => []
  | (name, ⟨block, template⟩) :: rest =>
    (name, ⟨anyWithoutNulls block, anyWithoutNulls template⟩) :: inputsWithoutNulls rest

end

end Snapshot

namespace InputSnapshot

/-- What an input holds, without shapes that are `null`. -/
def withoutNulls (i : InputSnapshot Snapshot) : InputSnapshot Snapshot :=
  ⟨i.block.map Snapshot.withoutNulls, i.template.map Snapshot.withoutNulls⟩

/-- What is written of what an input holds, by the names of the fields. -/
def written (i : InputSnapshot Snapshot) : List (String × Option Json) :=
  [("block", i.block.map Snapshot.toJson), ("shadow", i.template.map Snapshot.toJson)]

end InputSnapshot

namespace Snapshot

theorem anyWithoutNulls_eq (o : Option Snapshot) : anyWithoutNulls o = o.map withoutNulls := by
  cases o <;> rfl

theorem inputsWithoutNulls_eq (l : List (String × InputSnapshot Snapshot)) :
    inputsWithoutNulls l = l.map fun i => (i.1, i.2.withoutNulls) := by
  induction l with
  | nil => rfl
  | cons i rest ih =>
    rw [inputsWithoutNulls, ih, anyWithoutNulls_eq, anyWithoutNulls_eq]
    rfl

theorem withoutNulls_eq (s : Snapshot) : s.withoutNulls =
    { s with
      extra := s.extra.filter (!·.isNull)
      inputs := s.inputs.map fun i => (i.1, i.2.withoutNulls)
      next := s.next.map withoutNulls } := by
  obtain ⟨typeName, placeholder, fields, extra, inputs, next, copyOnDrag⟩ := s
  rw [withoutNulls, inputsWithoutNulls_eq, anyWithoutNulls_eq]

theorem anyToJson_eq (o : Option Snapshot) : anyToJson o = o.map toJson := by
  cases o <;> rfl

theorem inputsToJson_eq (l : List (String × InputSnapshot Snapshot)) :
    inputsToJson l = l.map fun i => (i.1, i.2.toJson) := by
  induction l with
  | nil => rfl
  | cons i rest ih =>
    rw [inputsToJson, ih, anyToJson_eq, anyToJson_eq]
    rfl

/-- What is written of a snapshot, by the names of the fields. -/
def written (s : Snapshot) : List (String × Option Json) :=
  [ ("type", some (.str s.typeName)),
    ("shadow", if s.placeholder then some (.bool true) else none),
    ("fields", table (s.fields.map fun f => (f.1, .str f.2))),
    ("extraState", s.extra),
    ("inputs", table (s.inputs.map fun i => (i.1, i.2.toJson))),
    ("next", s.next.map toJson),
    ("duplicateOnDrag", s.copyOnDrag.map .bool) ]

theorem toJson_eq (s : Snapshot) : s.toJson = .record s.written := by
  obtain ⟨typeName, placeholder, fields, extra, inputs, next, copyOnDrag⟩ := s
  rw [toJson, inputsToJson_eq, anyToJson_eq]
  rfl

theorem isNull_toJson (s : Snapshot) : s.toJson.isNull = false := by
  rw [toJson_eq]
  rfl

/-! ### Reading what was written -/

section Fields

open Json

variable {β γ : Type} {fields : Fields} {n : Nat} {read : Json → Option γ}
  {g : β → γ}

/-- A field that is left out if it is empty. -/
theorem orElse_table (write : β → Json) {l : List (String × β)}
    (h : fields n = table (l.map fun e => (e.1, write e.2)))
    (hl : Assoc.Ordered l) (hread : ∀ e ∈ l, read (write e.2) = some (g e.2)) :
    fields.orElse n [] (table? read) = some (l.map fun e => (e.1, g e.2)) := by
  unfold Fields.orElse
  rw [h]
  cases l with
  | nil => rfl
  | cons e rest =>
    have hall : ((e :: rest).map fun e => (e.1, write e.2)).mapM
        (fun m => (do return (m.1, ← read m.2) : Option (String × γ)))
          = some ((e :: rest).map fun e => (e.1, g e.2)) := by
      rw [List.mapM_map]
      refine mapM_eq_some fun e he => ?_
      simp only [Function.comp_apply, hread e he]
      rfl
    have hordered : Assoc.Ordered ((e :: rest).map fun e => (e.1, g e.2)) :=
      List.pairwise_map.mpr hl
    change table? read (.obj ((e :: rest).map fun e => (e.1, write e.2))) = _
    unfold table?
    dsimp only
    rw [hall]
    exact congrArg some hordered.ofList_eq

/-- A field that is left out if it has no value, and whose values are not `null`. -/
theorem optional_map (write : β → Json) {o : Option β} (h : fields n = o.map write)
    (hnull : ∀ x, (write x).isNull = false)
    (hread : ∀ x, o = some x → read (write x) = some (g x)) :
    fields.optional n read = some (o.map g) := by
  unfold Fields.optional Fields.orElse
  rw [h]
  cases o with
  | none => rfl
  | some x =>
    have hx := hread x rfl
    have hnotnull := hnull x
    change optional? read (write x) = _
    unfold optional?
    split
    · next he =>
      rw [he] at hnotnull
      cases hnotnull
    · rw [hx]
      rfl

/-- A value of any kind, of which `null` is taken for none. -/
theorem optional_any {o : Option Json} (h : fields n = o) (ho : ∀ j, o = some j → j.canonical = j) :
    fields.optional n (fun j => some j.canonical) = some (o.filter (!·.isNull)) := by
  unfold Fields.optional Fields.orElse
  rw [h]
  cases o with
  | none => rfl
  | some j =>
    have hj := ho j rfl
    cases j <;> first | rfl | exact congrArg (fun j => some (some j)) hj

end Fields

theorem inputOfJson?_toJson {read : Json → Option Snapshot} {i : InputSnapshot Snapshot}
    (h : i.All fun s => read s.toJson = some s.withoutNulls) :
    inputOfJson? read i.toJson = some i.withoutNulls := by
  have hnames : i.written.map Prod.fst = SnapshotRecord.outline.names .input := rfl
  have hfields := Json.fields?_record i.written (by rw [hnames]; decide)
  rw [hnames] at hfields
  unfold inputOfJson?
  have hjson : i.toJson = .record i.written := rfl
  rw [hjson, hfields, Option.bind_eq_bind, Option.bind_some]
  rw [optional_map (n := 0) (o := i.block) Snapshot.toJson rfl isNull_toJson h.1,
    optional_map (n := 1) (o := i.template) Snapshot.toJson rfl isNull_toJson h.2]
  rfl

/-- What is written of a part lies deeper than the whole. -/
theorem nesting_input {s : Snapshot} {name : String} {i : InputSnapshot Snapshot} {t : Snapshot}
    (hi : (name, i) ∈ s.inputs) (ht : i.block = some t ∨ i.template = some t) :
    t.toJson.nesting < s.toJson.nesting := by
  have hpart : t.toJson.nesting < i.toJson.nesting := by
    unfold InputSnapshot.toJson
    rcases ht with ht | ht
    · exact Json.nesting_lt_record "block" (by simp [ht])
    · exact Json.nesting_lt_record "shadow" (by simp [ht])
  have hmem : (name, i.toJson) ∈ s.inputs.map fun i => (i.1, i.2.toJson) :=
    List.mem_map_of_mem (f := fun i : String × InputSnapshot Snapshot => (i.1, i.2.toJson)) hi
  have htable : table (s.inputs.map fun i => (i.1, i.2.toJson))
      = some (.obj (s.inputs.map fun i => (i.1, i.2.toJson))) := by
    unfold table
    rw [if_neg]
    rw [List.isEmpty_iff]
    exact List.ne_nil_of_mem hmem
  have hinput := Json.nesting_lt_of_mem hmem
  have hwhole : (Json.obj (s.inputs.map fun i => (i.1, i.2.toJson))).nesting <
      s.toJson.nesting := by
    rw [toJson_eq]
    exact Json.nesting_lt_record "inputs" (by simp [written, htable])
  omega

theorem nesting_next {s n : Snapshot} (h : s.next = some n) :
    n.toJson.nesting < s.toJson.nesting := by
  rw [toJson_eq s]
  exact Json.nesting_lt_record "next" (by simp [written, h])

/-- What a reader finds of a snapshot that was written. -/
def found (s : Snapshot) : Json.Fields :=
  fun i => (s.written[i]?).bind Prod.snd

theorem fields?_toJson (s : Snapshot) :
    s.toJson.fields? (SnapshotRecord.outline.names .snapshot) = some s.found := by
  have hnames : s.written.map Prod.fst = SnapshotRecord.outline.names .snapshot := rfl
  have hfields := Json.fields?_record s.written (by rw [hnames]; decide)
  rw [hnames, ← toJson_eq] at hfields
  exact hfields

theorem placeholder_found (s : Snapshot) :
    s.found.orElse 1 false Json.bool? = some s.placeholder := by
  have hfound : s.found 1 = if s.placeholder then some (.bool true) else none := rfl
  unfold Json.Fields.orElse
  rw [hfound]
  cases s.placeholder <;> rfl

theorem fields_found {s : Snapshot} (h : Assoc.Ordered s.fields) :
    s.found.orElse 2 [] (table? Json.str?) = some s.fields := by
  have hread : s.found.orElse 2 [] (table? Json.str?) =
      some (s.fields.map fun f => (f.1, id f.2)) :=
    orElse_table .str rfl h fun _ _ => rfl
  rw [hread]
  exact congrArg some (List.map_id' s.fields)

theorem copyOnDrag_found (s : Snapshot) : s.found.optional 6 Json.bool? = some s.copyOnDrag := by
  have hread : s.found.optional 6 Json.bool? = some (s.copyOnDrag.map id) :=
    optional_map .bool rfl (fun _ => rfl) fun _ _ => rfl
  rw [hread, Option.map_id_fun, id]

theorem ofJsonWithin?_toJson (s : Snapshot) (hs : s.Tidy) (depth : Nat)
    (hdepth : s.toJson.nesting < depth) :
    ofJsonWithin? depth s.toJson = some s.withoutNulls := by
  induction s using Snapshot.induct generalizing depth with
  | step s hinputs hnext =>
    obtain ⟨depth, rfl⟩ : ∃ d, depth = d + 1 := ⟨depth - 1, by omega⟩
    obtain ⟨hfields, hextra, hordered, hblocks, htemplates, hbelow⟩ := hs
    have hparts : ∀ i ∈ s.inputs, i.2.All fun t =>
        ofJsonWithin? depth t.toJson = some t.withoutNulls := by
      rintro ⟨name, i⟩ hi
      constructor
      · intro t ht
        have hlt := nesting_input hi (.inl ht)
        exact (hinputs _ hi).1 t ht (hblocks _ hi t ht) depth (by omega)
      · intro t ht
        have hlt := nesting_input hi (.inr ht)
        exact (hinputs _ hi).2 t ht (htemplates _ hi t ht) depth (by omega)
    have hnexts : ∀ n, s.next = some n → ofJsonWithin? depth n.toJson = some n.withoutNulls := by
      intro n hn
      have hlt := nesting_next hn
      exact hnext n hn (hbelow n hn) depth (by omega)
    have htype : s.found.required 0 Json.str? = some s.typeName := rfl
    have hshape : s.found.optional 3 (fun j => some j.canonical) =
        some (s.extra.filter (!·.isNull)) :=
      optional_any rfl hextra
    have hheld : s.found.orElse 4 [] (table? (inputOfJson? (ofJsonWithin? depth)))
        = some (s.inputs.map fun i => (i.1, i.2.withoutNulls)) :=
      orElse_table InputSnapshot.toJson rfl hordered
        fun i hi => inputOfJson?_toJson (hparts i hi)
    have hunder : s.found.optional 5 (ofJsonWithin? depth) = some (s.next.map withoutNulls) :=
      optional_map toJson rfl isNull_toJson hnexts
    unfold ofJsonWithin?
    rw [fields?_toJson, withoutNulls_eq]
    simp only [Option.bind_eq_bind, Option.bind_some, htype, placeholder_found, fields_found hfields,
      hshape, hheld, hunder, copyOnDrag_found]
    rfl

/-! ### What was read -/

section Read

open Json

variable {β : Type} {fields : Fields} {n : Nat} {read : Json → Option β}

theorem orElse_eq_some {x d : β} (h : fields.orElse n d read = some x) :
    x = d ∨ ∃ j, read j = some x := by
  unfold Fields.orElse at h
  split at h
  · cases h
    exact .inl rfl
  · exact .inr ⟨_, h⟩

theorem optional_eq_some {o : Option β} (h : fields.optional n read = some o) {x : β}
    (hx : o = some x) : ∃ j, j.isNull = false ∧ read j = some x := by
  subst hx
  rcases orElse_eq_some h with h | ⟨j, hj⟩
  · cases h
  · unfold optional? at hj
    split at hj
    · cases hj
    · next hnull =>
      obtain ⟨x', hx', he⟩ := Option.map_eq_some_iff.mp hj
      cases he
      refine ⟨j, ?_, hx'⟩
      cases j <;> first | rfl | exact (hnull rfl).elim

theorem mem_of_mapM_eq_some {γ : Type} {f : γ → Option β} {l : List γ} {l' : List β}
    (h : l.mapM f = some l') {y : β} (hy : y ∈ l') : ∃ x ∈ l, f x = some y := by
  induction l generalizing l' with
  | nil =>
    cases h
    cases hy
  | cons x rest ih =>
    rw [List.mapM_cons] at h
    obtain ⟨x', hx', h⟩ := Option.bind_eq_some_iff.mp h
    obtain ⟨rest', hrest', h⟩ := Option.bind_eq_some_iff.mp h
    cases h
    rcases List.mem_cons.mp hy with rfl | hy
    · exact ⟨x, List.mem_cons_self, hx'⟩
    · obtain ⟨z, hz, hfz⟩ := ih hrest' hy
      exact ⟨z, List.mem_cons_of_mem x hz, hfz⟩

/-- The entries of a table that was read are in order, and each value was read. -/
theorem table?_eq_some {l : List (String × β)} (h : fields.orElse n [] (table? read) = some l) :
    Assoc.Ordered l ∧ ∀ e ∈ l, ∃ j, read j = some e.2 := by
  rcases orElse_eq_some h with rfl | ⟨j, hj⟩
  · exact ⟨List.Pairwise.nil, List.forall_mem_nil _⟩
  · unfold table? at hj
    split at hj
    · obtain ⟨entries, hentries, he⟩ := Option.bind_eq_some_iff.mp hj
      cases he
      refine ⟨Assoc.ordered_ofList entries, fun e he => ?_⟩
      obtain ⟨m, -, hm⟩ := mem_of_mapM_eq_some hentries (Assoc.mem_of_mem_ofList he)
      obtain ⟨v, hv, he⟩ := Option.bind_eq_some_iff.mp hm
      cases he
      exact ⟨m.2, hv⟩
    · cases hj

end Read

theorem inputOfJson?_eq_some {read : Json → Option Snapshot} {j : Json} {i : InputSnapshot Snapshot}
    (h : inputOfJson? read j = some i) : i.All fun t => ∃ j, read j = some t := by
  obtain ⟨fields, -, h⟩ := Option.bind_eq_some_iff.mp h
  obtain ⟨block, hblock, h⟩ := Option.bind_eq_some_iff.mp h
  obtain ⟨template, htemplate, h⟩ := Option.bind_eq_some_iff.mp h
  cases h
  constructor
  · intro t ht
    obtain ⟨j, -, hj⟩ := optional_eq_some hblock ht
    exact ⟨j, hj⟩
  · intro t ht
    obtain ⟨j, -, hj⟩ := optional_eq_some htemplate ht
    exact ⟨j, hj⟩

theorem withoutNulls_eq_self {o : Option Snapshot} (h : ∀ t, o = some t → t.withoutNulls = t) :
    o.map withoutNulls = o := by
  cases o with
  | none => rfl
  | some t => exact congrArg some (h t rfl)

/-- What was read is tidy, and no shape in it is `null`. -/
theorem tidy_of_ofJsonWithin? {depth : Nat} {j : Json} {s : Snapshot}
    (h : ofJsonWithin? depth j = some s) : s.Tidy ∧ s.withoutNulls = s := by
  induction depth generalizing j s with
  | zero => cases h
  | succ depth ih =>
    unfold ofJsonWithin? at h
    obtain ⟨found, -, h⟩ := Option.bind_eq_some_iff.mp h
    obtain ⟨typeName, -, h⟩ := Option.bind_eq_some_iff.mp h
    obtain ⟨placeholder, -, h⟩ := Option.bind_eq_some_iff.mp h
    obtain ⟨fields, hfields, h⟩ := Option.bind_eq_some_iff.mp h
    obtain ⟨extra, hextra, h⟩ := Option.bind_eq_some_iff.mp h
    obtain ⟨inputs, hinputs, h⟩ := Option.bind_eq_some_iff.mp h
    obtain ⟨next, hnext, h⟩ := Option.bind_eq_some_iff.mp h
    obtain ⟨copyOnDrag, -, h⟩ := Option.bind_eq_some_iff.mp h
    cases h
    obtain ⟨hfields, -⟩ := table?_eq_some hfields
    obtain ⟨hordered, hread⟩ := table?_eq_some hinputs
    have hparts : ∀ i ∈ inputs, i.2.All fun t => t.Tidy ∧ t.withoutNulls = t := by
      intro i hi
      obtain ⟨j, hj⟩ := hread i hi
      obtain ⟨hblock, htemplate⟩ := inputOfJson?_eq_some hj
      exact ⟨fun t ht => (hblock t ht).elim fun _ => ih,
        fun t ht => (htemplate t ht).elim fun _ => ih⟩
    have hbelow : ∀ n, next = some n → n.Tidy ∧ n.withoutNulls = n := by
      intro n hn
      obtain ⟨j, -, hj⟩ := optional_eq_some hnext hn
      exact ih hj
    have hshape : ∀ v, extra = some v → v.canonical = v ∧ v.isNull = false := by
      intro v hv
      obtain ⟨j, hnull, hj⟩ := optional_eq_some hextra hv
      cases hj
      exact ⟨j.canonical_canonical, j.isNull_canonical.trans hnull⟩
    refine ⟨.intro hfields (fun v hv => (hshape v hv).1) hordered
      (fun i hi t ht => ((hparts i hi).1 t ht).1) (fun i hi t ht => ((hparts i hi).2 t ht).1)
      fun n hn => (hbelow n hn).1, ?_⟩
    have hinputs' : inputs.map (fun i => (i.1, i.2.withoutNulls)) = inputs := by
      refine (List.map_congr_left fun i hi => ?_).trans (List.map_id' inputs)
      refine Prod.ext rfl (congrArg₂ InputSnapshot.mk ?_ ?_)
      · exact withoutNulls_eq_self fun t ht => ((hparts i hi).1 t ht).2
      · exact withoutNulls_eq_self fun t ht => ((hparts i hi).2 t ht).2
    have hextra' : extra.filter (!·.isNull) = extra := by
      cases extra with
      | none => rfl
      | some v =>
        rw [Option.filter_some, (hshape v rfl).2]
        rfl
    rw [withoutNulls_eq, hinputs', hextra', withoutNulls_eq_self fun n hn => (hbelow n hn).2]

/-- A snapshot is read back as it was written, but for shapes that are `null`. What was read from
any value is read back as it is, so that it is written as before. -/
theorem toJson_rereads :
    (∀ s : Snapshot, s.Tidy → ofJson? s.toJson = some s.withoutNulls) ∧
    ∀ j s, ofJson? j = some s → s.Tidy ∧ ofJson? s.toJson = some s ∧
      (ofJson? s.toJson).map toJson = some s.toJson := by
  have hwritten : ∀ s : Snapshot, s.Tidy → ofJson? s.toJson = some s.withoutNulls :=
    fun s hs => ofJsonWithin?_toJson s hs _ (Nat.lt_succ_self _)
  refine ⟨hwritten, fun j s hj => ?_⟩
  obtain ⟨htidy, hsame⟩ := tidy_of_ofJsonWithin? hj
  have hback := hwritten s htidy
  rw [hsame] at hback
  exact ⟨htidy, hback, by rw [hback, Option.map_some]⟩

theorem tidy_leaf {typeName : String} {placeholder : Bool} {fields : List (String × String)}
    {copyOnDrag : Option Bool} (h : Assoc.Ordered fields) :
    Tidy ⟨typeName, placeholder, fields, some .null, [], none, copyOnDrag⟩ :=
  .intro h (fun _ hj => by cases hj; rfl) List.Pairwise.nil (List.forall_mem_nil _)
    (List.forall_mem_nil _) nofun

/-- A list that holds a number, with a placeholder to fall back on and a statement below. Each of
them has a shape that is `null`. -/
theorem toJson_rereads_list :
    let leaf (typeName : String) (placeholder : Bool) (fields : List (String × String)) : Snapshot :=
      ⟨typeName, placeholder, fields, some .null, [], none, some placeholder⟩
    let s : Snapshot :=
      { leaf "List" false [] with
        inputs := [("input_000001", ⟨some (leaf "int" false [("value", "7")]), some (leaf "Name" true [])⟩)]
        next := some (leaf "Pass" false []) }
    ofJson? s.toJson = some s.withoutNulls ∧ s.withoutNulls.Tidy ∧
      (ofJson? s.withoutNulls.toJson).map toJson = some s.withoutNulls.toJson := by
  intro leaf s
  have hs : s.Tidy := by
    refine .intro (by decide) (fun _ hj => by cases hj; rfl) (by decide) ?_ ?_ ?_
    · intro i hi t ht
      obtain rfl := List.mem_singleton.mp hi
      cases ht
      exact tidy_leaf (by decide)
    · intro i hi t ht
      obtain rfl := List.mem_singleton.mp hi
      cases ht
      exact tidy_leaf (by decide)
    · intro n hn
      cases hn
      exact tidy_leaf (by decide)
  have hread := toJson_rereads.1 s hs
  obtain ⟨htidy, -, hagain⟩ := toJson_rereads.2 _ _ hread
  exact ⟨hread, htidy, hagain⟩

end Snapshot

end BlockEditor
