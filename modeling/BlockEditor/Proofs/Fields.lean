import BlockEditor.Proofs.Assoc
import BlockEditor.Proofs.Workspace.Styling

/-!
# The texts of fields

Text fields are set one by one, each under its name. If no two have one name, then all of them can
be set to what another block of the type holds.
-/

namespace BlockEditor

variable {α : Type}

/-- Names and texts of the text fields. -/
def Field.entries (fields : List Field) : List (String × String) :=
  fields.filterMap Field.entry?

def Field.names (fields : List Field) : List String :=
  (Field.entries fields).map Prod.fst

/-- The fields of a list of inputs, in order. -/
def Input.allFields (inputs : List Input) : List Field :=
  inputs.flatMap (·.fields)

def InputTemplate.allFields (ts : List InputTemplate) : List Field :=
  ts.flatMap (·.fields)

namespace Assoc

variable {β : Type}

/-- Set the value of all entries of a name. -/
def put (name : String) (value : β) (l : List (String × β)) : List (String × β) :=
  l.map fun e => if e.1 = name then (name, value) else e

theorem map_fst_put (name : String) (value : β) (l : List (String × β)) :
    (put name value l).map Prod.fst = l.map Prod.fst := by
  rw [put, List.map_map]
  refine List.map_congr_left fun e _ => ?_
  by_cases he : e.1 = name
  · simp [he]
  · simp [he]

theorem put_of_notMem {name : String} {value : β} {l : List (String × β)}
    (h : name ∉ l.map Prod.fst) : put name value l = l := by
  have hsame : ∀ e ∈ l, (if e.1 = name then (name, value) else e) = e := by
    intro e he
    refine if_neg ?_
    rintro rfl
    exact h (List.mem_map_of_mem he)
  rw [put, List.map_congr_left hsame, List.map_id']

theorem put_append (name : String) (value : β) (l l' : List (String × β)) :
    put name value (l ++ l') = put name value l ++ put name value l' :=
  List.map_append

/-- Put a list of entries into another one, one after the other. -/
def putAll (entries l : List (String × β)) : List (String × β) :=
  entries.foldl (fun l e => put e.1 e.2 l) l

theorem map_fst_putAll (entries l : List (String × β)) :
    (putAll entries l).map Prod.fst = l.map Prod.fst := by
  induction entries generalizing l with
  | nil => rfl
  | cons e rest ih =>
    rw [putAll, List.foldl_cons]
    exact (ih _).trans (map_fst_put e.1 e.2 l)

theorem putAll_append (entries l l' : List (String × β)) :
    putAll entries (l ++ l') = putAll entries l ++ putAll entries l' := by
  induction entries generalizing l l' with
  | nil => rfl
  | cons e rest ih =>
    rw [putAll, List.foldl_cons, put_append]
    exact ih _ _

/-- Of the entries of one name the last one counts. -/
theorem putAll_single {entries : List (String × β)} {name : String} {old value : β}
    (h : (name, value) ∈ entries ∨ old = value)
    (hsole : ∀ v, (name, v) ∈ entries → v = value) :
    putAll entries [(name, old)] = [(name, value)] := by
  induction entries generalizing old with
  | nil =>
    rcases h with h | rfl
    · cases h
    · rfl
  | cons e rest ih =>
    have hrest : ∀ v, (name, v) ∈ rest → v = value := fun v hv =>
      hsole v (List.mem_cons_of_mem e hv)
    rw [putAll, List.foldl_cons, put, List.map_singleton]
    by_cases he : name = e.1
    · have hv : e.2 = value := hsole e.2 (by rw [he]; exact List.mem_cons_self)
      rw [if_pos he, ← he]
      exact ih (Or.inr hv) hrest
    · rw [if_neg he]
      refine ih (h.imp_left fun hmem => ?_) hrest
      refine (List.mem_cons.mp hmem).resolve_left fun hhead => he ?_
      rw [← hhead]

/-- Entries of distinct names are all taken over. -/
theorem putAll_eq {entries l l' : List (String × β)} (hnames : l.map Prod.fst = l'.map Prod.fst)
    (hnodup : (l'.map Prod.fst).Nodup) (hmem : ∀ e ∈ l', e ∈ entries)
    (hsole : ∀ e ∈ entries, e ∈ l') : putAll entries l = l' := by
  have key : ∀ m m' : List (String × β), m.map Prod.fst = m'.map Prod.fst →
      (∀ e ∈ m', e ∈ l') → putAll entries m = m' := by
    intro m m' hm hsub
    induction m' generalizing m with
    | nil =>
      rw [List.map_nil, List.map_eq_nil_iff] at hm
      subst hm
      exact List.eq_nil_of_map_eq_nil (map_fst_putAll entries [])
    | cons e rest ih =>
      cases m with
      | nil => cases hm
      | cons e₀ rest₀ =>
        obtain ⟨name, value⟩ := e
        obtain ⟨name₀, old⟩ := e₀
        rw [List.map_cons, List.map_cons, List.cons.injEq] at hm
        obtain ⟨hname, hm⟩ := hm
        have hname : name₀ = name := hname
        subst hname
        have hin : (name₀, value) ∈ l' := hsub _ List.mem_cons_self
        have hhead : putAll entries [(name₀, old)] = [(name₀, value)] := by
          refine putAll_single (Or.inl (hmem _ hin)) fun v hv => ?_
          exact congrArg Prod.snd (List.inj_on_of_nodup_map hnodup (hsole _ hv) hin rfl)
        rw [← List.singleton_append, putAll_append, hhead,
          ih rest₀ hm fun e he => hsub e (List.mem_cons_of_mem _ he)]
        rfl
  exact key l l' hnames fun e he => he

/-- Entries of distinct names that are put in order have all the names still. -/
theorem putAll_ofList {l l' : List (String × β)} (hnames : l.map Prod.fst = l'.map Prod.fst)
    (hnodup : (l'.map Prod.fst).Nodup) : putAll (ofList l') l = l' :=
  putAll_eq hnames hnodup (fun _ he => (mem_ofList hnodup).mpr he)
    fun _ he => (mem_ofList hnodup).mp he

end Assoc

/-! ### Fields that are set -/

namespace Field

theorem entries_cons (f : Field) (rest : List Field) :
    entries (f :: rest) = f.entry?.toList ++ entries rest := by
  cases f <;> rfl

theorem entries_append (l l' : List Field) : entries (l ++ l') = entries l ++ entries l' :=
  List.filterMap_append

theorem names_cons (f : Field) (rest : List Field) :
    names (f :: rest) = f.entry?.toList.map Prod.fst ++ names rest := by
  rw [names, entries_cons, List.map_append]
  rfl

theorem names_append (l l' : List Field) : names (l ++ l') = names l ++ names l' := by
  rw [names, entries_append, List.map_append]
  rfl

theorem names_eq_nil {fields : List Field} (h : ∀ f ∈ fields, f.entry? = none) :
    names fields = [] := by
  rw [names, entries, List.filterMap_eq_nil_iff.mpr h]
  rfl

/-- The texts apart, the names are those of the fields. -/
theorem names_map_setText (value : String) (fields : List Field) :
    names (fields.map (setText value)) = names fields := by
  induction fields with
  | nil => rfl
  | cons f rest ih =>
    rw [List.map_cons, names_cons, names_cons, ih]
    cases f <;> rfl

end Field

theorem setFieldIn_eq_none {name value : String} {fields : List Field} :
    setFieldIn name value fields = none ↔ name ∉ Field.names fields := by
  induction fields with
  | nil => exact iff_of_true rfl List.not_mem_nil
  | cons f rest ih =>
    rw [Field.names_cons, List.mem_append, not_or, ← ih, setFieldIn]
    cases f with
    | text key old =>
      by_cases hk : key = name
      · simp [Field.isNamed, Field.entry?, hk]
      · simp [Field.isNamed, Field.entry?, hk, Ne.symm hk]
    | _ => simp [Field.isNamed, Field.entry?]

/-- If a name stands once, then to set its field is to set its entry. -/
theorem entries_setFieldIn {name value : String} {fields fields' : List Field}
    (h : setFieldIn name value fields = some fields') (hnodup : (Field.names fields).Nodup) :
    Field.entries fields' = Assoc.put name value (Field.entries fields) := by
  induction fields generalizing fields' with
  | nil => cases h
  | cons f rest ih =>
    rw [Field.names_cons, List.nodup_append] at hnodup
    rw [Field.entries_cons, Assoc.put_append]
    unfold setFieldIn at h
    split at h
    next hn =>
      cases h
      cases f with
      | text key old =>
        have hk : key = name := by simpa [Field.isNamed] using hn
        subst hk
        have hrest : key ∉ Field.names rest := fun hmem =>
          hnodup.2.2 key (by simp [Field.entry?]) key hmem rfl
        rw [Field.entries_cons, Assoc.put_of_notMem hrest]
        simp [Field.setText, Field.entry?, Assoc.put]
      | label text => cases hn
      | action control => cases hn
    next hn =>
      obtain ⟨rest', hrest, rfl⟩ := Option.map_eq_some_iff.mp h
      have hf : name ∉ f.entry?.toList.map Prod.fst := by
        cases f with
        | text key old =>
          have hk : key ≠ name := by simpa [Field.isNamed] using hn
          simpa [Field.entry?] using hk.symm
        | label text => exact List.not_mem_nil
        | action control => exact List.not_mem_nil
      rw [Field.entries_cons, ih hrest hnodup.2.1, Assoc.put_of_notMem hf]

namespace Input

theorem allFields_cons (i : Input) (rest : List Input) :
    allFields (i :: rest) = i.fields ++ allFields rest :=
  List.flatMap_cons

end Input

theorem setFieldAmong_eq_none {name value : String} {inputs : List Input} :
    setFieldAmong name value inputs = none ↔ name ∉ Field.names (Input.allFields inputs) := by
  induction inputs with
  | nil => exact iff_of_true rfl List.not_mem_nil
  | cons i rest ih =>
    rw [Input.allFields_cons, Field.names_append, List.mem_append, not_or, ← ih,
      ← @setFieldIn_eq_none name value, setFieldAmong]
    cases setFieldIn name value i.fields with
    | none => simp
    | some fields => simp

theorem entries_setFieldAmong {name value : String} {inputs inputs' : List Input}
    (h : setFieldAmong name value inputs = some inputs')
    (hnodup : (Field.names (Input.allFields inputs)).Nodup) :
    Field.entries (Input.allFields inputs') =
      Assoc.put name value (Field.entries (Input.allFields inputs)) := by
  induction inputs generalizing inputs' with
  | nil => cases h
  | cons i rest ih =>
    rw [Input.allFields_cons, Field.names_append, List.nodup_append] at hnodup
    rw [Input.allFields_cons, Field.entries_append, Assoc.put_append]
    rw [setFieldAmong] at h
    cases hi : setFieldIn name value i.fields with
    | none =>
      rw [hi] at h
      obtain ⟨rest', hrest, rfl⟩ := Option.map_eq_some_iff.mp h
      rw [Input.allFields_cons, Field.entries_append, ih hrest hnodup.2.1,
        Assoc.put_of_notMem (setFieldIn_eq_none.mp hi)]
    | some fields =>
      rw [hi] at h
      cases h
      have hmem : name ∈ Field.names i.fields := by
        refine Classical.byContradiction fun hn => ?_
        rw [setFieldIn_eq_none.mpr hn] at hi
        cases hi
      have hrest : name ∉ Field.names (Input.allFields rest) := fun hn =>
        hnodup.2.2 name hmem name hn rfl
      rw [Input.allFields_cons, Field.entries_append, entries_setFieldIn hi hnodup.1,
        Assoc.put_of_notMem hrest]

/-! ### The fields of a definition -/

namespace InputTemplate

theorem allFields_cons (t : InputTemplate) (rest : List InputTemplate) :
    allFields (t :: rest) = t.fields ++ allFields rest :=
  List.flatMap_cons

theorem allFields_append (ts us : List InputTemplate) :
    allFields (ts ++ us) = allFields ts ++ allFields us :=
  List.flatMap_append

end InputTemplate

namespace Container

/-- Slots show labels at most. -/
theorem names_slotsAfter (kind : ContainerKind) (old new : Nat) :
    Field.names (InputTemplate.allFields (slotsAfter kind old new)) = [] := by
  refine Field.names_eq_nil fun f hf => ?_
  obtain ⟨t, ht, hf⟩ := List.mem_flatMap.mp hf
  obtain ⟨p, stem, -, -, -, rfl⟩ := mem_slotsAfter.mp ht
  obtain ⟨label, -, rfl⟩ := List.mem_map.mp hf
  rfl

/-- The only text field of a container is the name that a call calls. -/
theorem names_plan (spec : ContainerTemplate) (n : Nat) :
    Field.names (InputTemplate.allFields (plan spec n)) =
      if spec.kind = .call then [procedureField] else [] := by
  have hhead : Field.names (InputTemplate.allFields (head spec)) =
      if spec.kind = .call then [procedureField] else [] := by
    have hlabel : Field.names [Field.label spec.openWith] = [] := rfl
    have hopening : Field.names (opening spec).fields =
        if spec.kind = .call then [procedureField] else [] := by
      rw [opening, mark, Field.names_append, hlabel, List.append_nil]
      split <;> rfl
    rw [head, InputTemplate.allFields_cons, Field.names_append, hopening]
    split <;> split <;> rfl
  have hmarks : Field.names (InputTemplate.allFields [closing spec, controls n]) = [] := by
    rw [InputTemplate.allFields_cons, InputTemplate.allFields_cons, closing, controls]
    unfold mark
    split <;> split <;> rfl
  rw [plan, body, InputTemplate.allFields_append, InputTemplate.allFields_append,
    Field.names_append, Field.names_append, hhead, names_slotsAfter, hmarks, List.append_nil,
    List.append_nil]

end Container

/-- The inputs of a block with `n` units, if it shows no controls that it has no use for. -/
def BlockDefinition.settled (d : BlockDefinition) (n : Nat) : List InputTemplate :=
  match d.container with
  | some spec => Container.plan spec n
  | none => d.inputs

/-- Names of the inputs that have connections. -/
def InputTemplate.socketNames (ts : List InputTemplate) : List String :=
  (ts.filter fun t => t.kind.connection?.isSome).map (·.name)

/-- No two inputs of a definition to which something can be plugged have one name, and no two of
its text fields. -/
structure Registry.Distinct (r : Registry) : Prop where
  sockets : ∀ {typeName d}, r.get? typeName = some d → (InputTemplate.socketNames d.inputs).Nodup
  fields : ∀ {typeName d}, r.get? typeName = some d →
    (Field.names (InputTemplate.allFields d.inputs)).Nodup

theorem Registry.Distinct.settled {r : Registry} (h : r.Distinct) {typeName : String}
    {d : BlockDefinition} (hd : r.get? typeName = some d) (n : Nat) :
    (InputTemplate.socketNames (d.settled n)).Nodup ∧
      (Field.names (InputTemplate.allFields (d.settled n))).Nodup := by
  unfold BlockDefinition.settled
  cases d.container with
  | none => exact ⟨h.sockets hd, h.fields hd⟩
  | some spec =>
    refine ⟨(Container.nodup_names_plan spec n).sublist (List.filter_sublist.map _), ?_⟩
    rw [Container.names_plan]
    split
    · exact List.nodup_singleton _
    · exact List.nodup_nil

namespace Workspace

variable {ws : Workspace α} {inputs : List Input} {ts : List InputTemplate}

theorem fieldNames_of_follows (h : List.Forall₂ ws.Follows inputs ts) :
    Field.names (Input.allFields inputs) = Field.names (InputTemplate.allFields ts) := by
  induction h with
  | nil => rfl
  | cons hi _ ih =>
    rw [Input.allFields_cons, InputTemplate.allFields_cons, Field.names_append, Field.names_append,
      ih, ← Field.names_map_setText "", hi.fields, Field.names_map_setText]

end Workspace

end BlockEditor
