import BlockEditor.Proofs.Fields
import BlockEditor.Proofs.Workspace.Hanging
import BlockEditor.Proofs.Workspace.Saving

/-!
# What a snapshot holds

A snapshot that was taken of a block fits the definition of the block's type: it has a text for each
text field, and for the inputs that something hangs on it has a snapshot that was taken of a block
too, of a type that fits there. The block itself may be gone.
-/

namespace BlockEditor

variable {α : Type}

/-- Lists that go together entry by entry with a third one go together. -/
theorem forall₂_comp {A B C : Type} {R : A → B → Prop} {S : B → C → Prop} {T : A → C → Prop}
    {as : List A} {bs : List B} {cs : List C} (h : List.Forall₂ R as bs) (h' : List.Forall₂ S bs cs)
    (hT : ∀ a b c, R a b → S b c → T a c) : List.Forall₂ T as cs := by
  induction h generalizing cs with
  | nil =>
    cases h'
    exact .nil
  | cons hr _ ih =>
    cases h' with
    | cons hs hrest => exact .cons (hT _ _ _ hr hs) (ih hrest)

/-- The plug with which blocks of the type hang on a socket of the given kind. -/
def BlockDefinition.plugFor? (d : BlockDefinition) : ConnectionKind → Option ConnectionTemplate
  | .inputValue => d.output
  | .nextStatement => d.previous
  | .outputValue | .previousStatement => none

/-- Blocks of the type fit a socket that is of the given kind and accepts `check`. -/
def Registry.Suits (r : Registry) (kind : ConnectionKind) (check : Option (List String))
    (typeName : String) : Prop :=
  ∃ d p, r.get? typeName = some d ∧ d.plugFor? kind = some p ∧ checksFit check p.check

namespace Workspace

variable {r : Registry} {ws : Workspace α} {x a child : BlockId} {c s p : ConnectionId}
  {b : Block α} {d : BlockDefinition} {ts : List InputTemplate} {k : ConnectionKind}
  {y : Connection α} {snapshot : Snapshot}

/-- The blocks are made after the definitions of `r`, and linked as they should be. -/
structure Standard (r : Registry) (ws : Workspace α) : Prop where
  sound : ws.Sound
  shaped : ws.Shaped
  registry : ws.registry = r

/-- The snapshot is that of the block `x`, and no input from there on lacks its placeholder. -/
structure Records (ws : Workspace α) (x : BlockId) (s : Snapshot) : Prop where
  tame : ws.graph.Tame x
  full : ∀ c y, ws.connections[c]? = some y → ws.Branch x y.block → ws.Full c
  saved : ws.save x = .ok s

theorem live_of_save (h : ws.save x = .ok snapshot) : ws.Live x := by
  cases hb : ws.blocks[x]? with
  | some b => exact ⟨b, hb⟩
  | none =>
    unfold Workspace.save Workspace.walkBound at h
    rw [saveWithin, Workspace.block, hb] at h
    cases h

theorem Records.below (h : ws.Records x snapshot) (hs : ws.Sound) (hu : ws.graph.Under a x)
    {s : Snapshot} (ha : ws.save a = .ok s) : ws.Records a s where
  tame := h.tame.of_under hs.wired hu
  full c y hy hb := h.full c y hy (Branch.trans hb (Or.inr (.single hu)))
  saved := ha

/-! ### What hangs on a socket suits it -/

theorem Styled.plugFor? (h : ws.Styled b d ts) (k : ConnectionKind) :
    ws.Meets (b.plugFor? k) ((d.plugFor? k).map (·.check)) := by
  cases k with
  | inputValue => exact h.output
  | nextStatement => exact h.previous
  | outputValue => trivial
  | previousStatement => trivial

/-- The plug of a link is the one that goes with the kind of the socket. -/
theorem Sound.plugFor_of_across (hs : ws.Sound) (hy : ws.connections[s]? = some y)
    (hk : y.kind.isSocket) (ha : ws.across s = some a) :
    ∃ b p z, ws.blocks[a]? = some b ∧ b.plugFor? y.kind = some p ∧
      ws.connections[p]? = some z ∧ checksFit y.check z.check := by
  obtain ⟨p, v, hl, hv⟩ := (across_socket hy hk).mp ha
  obtain ⟨z, hz, rfl⟩ := connection_of_wire hl.plug
  obtain ⟨z', hz', -, hkind, hfit, -⟩ := hs.target hy hl.down
  rw [hz, Option.some.injEq] at hz'
  subst hz'
  obtain ⟨b, hb, hrole⟩ := hs.owner hz
  refine ⟨b, p, z, by rw [← hv]; exact hb, ?_, hz, hfit⟩
  rw [mem_roles] at hrole
  rw [hkind] at hrole
  cases hyk : y.kind with
  | inputValue =>
    simp only [hyk, ConnectionKind.opposite] at hrole
    rcases hrole with ⟨ho, -⟩ | ⟨-, h⟩ | ⟨-, h⟩ | ⟨i, -, -, h⟩
    · exact ho
    · cases h
    · cases h
    · exact absurd (InputKind.isSocket_of_connection? h.symm) (by decide)
  | nextStatement =>
    simp only [hyk, ConnectionKind.opposite] at hrole
    rcases hrole with ⟨-, h⟩ | ⟨hp, -⟩ | ⟨-, h⟩ | ⟨i, -, -, h⟩
    · cases h
    · exact hp
    · cases h
    · exact absurd (InputKind.isSocket_of_connection? h.symm) (by decide)
  | outputValue => simp [hyk, ConnectionKind.isSocket] at hk
  | previousStatement => simp [hyk, ConnectionKind.isSocket] at hk

/-- A snapshot names the type of its block. -/
theorem typeName_of_save (hs : ws.Sound) (ht : ws.graph.Tame x) (h : ws.save x = .ok snapshot) :
    ∃ b, ws.blocks[x]? = some b ∧ snapshot.typeName = b.typeName := by
  obtain ⟨b, hb⟩ := live_of_save h
  obtain ⟨entries, next, -, -, rfl⟩ := (hs.save_eq_ok ht hb).mp h
  exact ⟨b, hb, rfl⟩

theorem Standard.suits (h : ws.Standard r) (hy : ws.connections[s]? = some y)
    (hk : y.kind.isSocket) (ha : ws.across s = some a) (hb : ws.blocks[a]? = some b) :
    r.Suits y.kind y.check b.typeName := by
  obtain ⟨b', p, z, hb', hp, hz, hfit⟩ := h.sound.plugFor_of_across hy hk ha
  rw [hb, Option.some.injEq] at hb'
  subst hb'
  obtain ⟨d, ts, hstyled, -⟩ := h.shaped.at_ a b hb
  have hmeets := hstyled.plugFor? y.kind
  rw [hp] at hmeets
  cases hd : d.plugFor? y.kind with
  | none =>
    rw [hd] at hmeets
    exact hmeets.elim
  | some q =>
    rw [hd] at hmeets
    obtain ⟨z', hz', hcheck⟩ := hmeets
    rw [hz, Option.some.injEq] at hz'
    subst hz'
    rw [hcheck] at hfit
    exact ⟨d, q, by rw [← h.registry]; exact hstyled.known, hd, hfit⟩

/-- A block of a type that suits a socket can be plugged in. -/
theorem Standard.welcomes (h : ws.Standard r) (hy : ws.connections[s]? = some y)
    (hb : ws.blocks[child]? = some b) (hsuits : r.Suits y.kind y.check b.typeName)
    (hne : y.block ≠ child) : ws.Welcomes s child := by
  obtain ⟨d, q, hd, hq, hfit⟩ := hsuits
  obtain ⟨d', ts, hstyled, -⟩ := h.shaped.at_ child b hb
  have hknown := hstyled.known
  rw [h.registry, hd, Option.some.injEq] at hknown
  subst hknown
  have hmeets := hstyled.plugFor? y.kind
  rw [hq] at hmeets
  cases hp : b.plugFor? y.kind with
  | none =>
    rw [hp] at hmeets
    exact hmeets.elim
  | some p =>
    rw [hp] at hmeets
    obtain ⟨z, hz, hcheck⟩ := hmeets
    obtain ⟨z', hz', hzb, hzk, -⟩ := h.sound.plugFor? hb hp
    rw [hz, Option.some.injEq] at hz'
    subst hz'
    refine ⟨p, ?_, ?_⟩
    · unfold Workspace.plugFor
      rw [connection_eq_ok.mpr hy, block_eq_ok.mpr hb]
      simp only [bind, Except.bind, hp, pure, Except.pure]
    · unfold Workspace.canConnect
      rw [connection_eq_ok.mpr hy, connection_eq_ok.mpr hz]
      simp only [bind, Except.bind, pure, Except.pure, Except.ok.injEq]
      rw [hzb, hzk, Connection.fits, show z.check = q.check from hcheck, hfit]
      simp [hne]

end Workspace

/-! ### Snapshots of blocks -/

open Workspace

/-- The snapshot was taken of a block. -/
def Snapshot.Genuine (α : Type) (r : Registry) (s : Snapshot) : Prop :=
  ∃ (ws : Workspace α) (x : BlockId), ws.Standard r ∧ ws.Records x s

/-- What a snapshot holds of an input that is made after the template: nothing, or the snapshot of a
block that suits the input. -/
inductive InputTemplate.Carries (α : Type) (r : Registry) (t : InputTemplate) :
    Option (String × InputSnapshot Snapshot) → Prop
  | nothing : Carries α r t none
  | block {k : ConnectionKind} {s : Snapshot} (template : Option Snapshot) :
      t.kind.connection? = some k → s.Genuine α r → r.Suits k t.check s.typeName →
      Carries α r t (some (t.name, .ofChild template s))

/-- The snapshot fits a definition, for a block with `n` units. Its inputs are those of `entries`. -/
structure Snapshot.Fits (α : Type) (r : Registry) (d : BlockDefinition) (n : Nat)
    (entries : List (Option (String × InputSnapshot Snapshot))) (s : Snapshot) : Prop where
  known : r.get? s.typeName = some d
  units : n ≤ Container.maxUnits
  solid : d.container = none → n = 0
  extra : s.extra = d.container.map fun _ => Container.shapeOf n
  fields : ∃ l, s.fields = Assoc.ofList l ∧
    l.map Prod.fst = Field.names (InputTemplate.allFields (d.settled n))
  carries : List.Forall₂ (InputTemplate.Carries α r) (d.settled n) entries
  inputs : s.inputs = Assoc.ofList (entries.filterMap fun entry => entry)
  next : ∀ below, s.next = some below →
    ∃ t, d.next = some t ∧ below.Genuine α r ∧ r.Suits .nextStatement t.check below.typeName

namespace Workspace

variable {r : Registry} {ws : Workspace α} {x : BlockId} {b : Block α} {d : BlockDefinition}
  {ts : List InputTemplate} {n : Nat} {s : Snapshot}
  {entries : List (Option (String × InputSnapshot Snapshot))}

/-- Controls on a block that is no container hold nothing. -/
theorem planned_settled (h : d.Planned n ts) :
    n ≤ Container.maxUnits ∧ (d.container = none → n = 0) ∧
      (ts = d.settled n ∨ ts = d.settled n ++ [Container.controls n]) := by
  cases h with
  | container hd hn => simp [BlockDefinition.settled, hd, hn]
  | plain hd => simp [BlockDefinition.settled, hd]
  | controlled hd => simp [BlockDefinition.settled, hd]

/-- What a snapshot says of an input: nothing if the input is empty, else what hangs on it. -/
theorem Records.entry (h : ws.Records x s) (hs : ws.Sound) (hb : ws.blocks[x]? = some b) {i : Input}
    {e : Option (String × InputSnapshot Snapshot)} (hi : i ∈ b.inputs) (he : ws.Holds i e) :
    (i.connection.bind ws.across = none ∧ e = none) ∨ ∃ child below template,
      i.connection.bind ws.across = some child ∧ ws.Records child below ∧
        e = some (i.name, .ofChild template below) := by
  cases he with
  | plain hc => exact Or.inl ⟨by rw [hc]; rfl, rfl⟩
  | @empty c y hc hy ha =>
    refine Or.inl ⟨by rw [hc]; exact ha, ?_⟩
    obtain ⟨y', hy', hyb, -⟩ := hs.socket hb (mem_sockets_of_input hi hc)
    rw [hy, Option.some.injEq] at hy'
    subst hy'
    have hfull := h.full c y hy (by rw [hyb]; exact branch_self ws x) x b i y hb hi hc hy
    cases htemplate : y.template with
    | none => rfl
    | some template =>
      -- an input with a template holds at least the placeholder
      rw [htemplate] at hfull
      obtain ⟨p, hp⟩ := Option.isSome_iff_exists.mp (hfull rfl)
      obtain ⟨z, hz, -⟩ := hs.target hy hp
      rw [across, targetOf_eq hy, hp, Option.bind_some, hz] at ha
      cases ha
  | @filled c y child below hc hy ha hsave =>
    have hunder := hs.under_of_across hb (mem_sockets_of_input hi hc) ha
    exact Or.inr ⟨child, below, y.template, by rw [hc]; exact ha, h.below hs hunder hsave, rfl⟩

/-- What a snapshot says of an input that follows a template. -/
theorem Records.carries (h : ws.Records x s) (hw : ws.Standard r) (hb : ws.blocks[x]? = some b)
    {i : Input} {t : InputTemplate} {e : Option (String × InputSnapshot Snapshot)} (hi : i ∈ b.inputs)
    (ht : ws.Follows i t) (he : ws.Holds i e) : t.Carries α r e := by
  rcases h.entry hw.sound hb hi he with ⟨-, rfl⟩ | ⟨child, below, template, ha, hbelow, rfl⟩
  · exact .nothing
  obtain ⟨c, hc, ha⟩ := Option.bind_eq_some_iff.mp ha
  rcases ht.plain_or_socket hw.sound hb hi with ⟨hn, -⟩ | ⟨c', y, hc', hy, -, hk, hcheck⟩
  · rw [hc] at hn
    cases hn
  · rw [hc, Option.some.injEq] at hc'
    subst hc'
    obtain ⟨b', hb', htype⟩ := typeName_of_save hw.sound hbelow.tame hbelow.saved
    have hsuits := hw.suits hy (InputKind.isSocket_of_connection? hk) ha hb'
    rw [hcheck, ← htype] at hsuits
    rw [ht.name]
    exact .block template hk ⟨ws, child, hw, hbelow⟩ hsuits

theorem Records.carriesAll (h : ws.Records x s) (hw : ws.Standard r) (hb : ws.blocks[x]? = some b)
    (hstyled : ws.Styled b d ts) (hholds : List.Forall₂ ws.Holds b.inputs entries) :
    List.Forall₂ (InputTemplate.Carries α r) ts entries := by
  have hfollows := (List.forall₂_and_left _ _).mpr ⟨fun i hi => hi, hstyled.inputs⟩
  exact forall₂_comp hfollows.flip hholds fun t i e ht he => h.carries hw hb ht.1 ht.2 he

theorem Records.carriesNext (h : ws.Records x s) (hw : ws.Standard r) (hb : ws.blocks[x]? = some b)
    (hstyled : ws.Styled b d ts) {below : Snapshot} (hnext : ws.Precedes b (some below)) :
    ∃ t, d.next = some t ∧ below.Genuine α r ∧ r.Suits .nextStatement t.check below.typeName := by
  cases hnext with
  | @next child _ ha hsave =>
    obtain ⟨c, hc, hca⟩ := Option.bind_eq_some_iff.mp ha
    rcases hstyled.next_cases hw.sound hb with ⟨hn, -⟩ | ⟨c', y, t, hn, hd, hy, -, hkind, hcheck⟩
    · rw [hc] at hn
      cases hn
    · rw [hc, Option.some.injEq] at hn
      subst hn
      have hunder := hw.sound.under_of_across hb (mem_sockets.mpr (Or.inr hc)) hca
      have hbelow := h.below hw.sound hunder hsave
      obtain ⟨b', hb', htype⟩ := typeName_of_save hw.sound hbelow.tame hsave
      have hsuits := hw.suits hy (by rw [hkind]; rfl) hca hb'
      rw [hkind, hcheck, ← htype] at hsuits
      exact ⟨t, hd, ⟨ws, child, hw, hbelow⟩, hsuits⟩

/-- Controls on a block that is no container can be left out. -/
theorem settled_carries (hts : ts = d.settled n ∨ ts = d.settled n ++ [Container.controls n])
    (hall : List.Forall₂ (InputTemplate.Carries α r) ts entries) :
    ∃ entries', List.Forall₂ (InputTemplate.Carries α r) (d.settled n) entries' ∧
      (entries.filterMap fun e => e) = entries'.filterMap fun e => e := by
  rcases hts with rfl | rfl
  · exact ⟨entries, hall, rfl⟩
  · have htake := (List.forall₂_take_append _ _ _ hall.flip).flip
    have hdrop := (List.forall₂_drop_append _ _ _ hall.flip).flip
    refine ⟨_, htake, ?_⟩
    conv_lhs => rw [← List.take_append_drop (d.settled n).length entries]
    rw [List.filterMap_append]
    generalize entries.drop (d.settled n).length = rest at hdrop
    cases hdrop with
    | cons he hnil =>
      cases hnil
      cases he with
      | nothing => simp
      | block template hk => cases hk

theorem names_settled (hts : ts = d.settled n ∨ ts = d.settled n ++ [Container.controls n]) :
    Field.names (InputTemplate.allFields ts) =
      Field.names (InputTemplate.allFields (d.settled n)) := by
  rcases hts with rfl | rfl
  · rfl
  · have hcontrols : Field.names (InputTemplate.allFields [Container.controls n]) = [] := by
      unfold Container.controls Container.mark
      split <;> rfl
    rw [InputTemplate.allFields_append, Field.names_append, hcontrols, List.append_nil]

/-- A snapshot that was taken of a block fits the definition of the block. -/
theorem Records.fits (h : ws.Records x s) (hw : ws.Standard r) :
    ∃ d n entries, s.Fits α r d n entries := by
  obtain ⟨b, hb⟩ := live_of_save h.saved
  obtain ⟨entries, next, hholds, hnext, rfl⟩ := (hw.sound.save_eq_ok h.tame hb).mp h.saved
  obtain ⟨d, ts, hstyled, hplan⟩ := hw.shaped.at_ x b hb
  obtain ⟨hunits, hsolid, hts⟩ := planned_settled hplan
  obtain ⟨entries', hall', hentries⟩ := settled_carries hts (h.carriesAll hw hb hstyled hholds)
  have hextra : b.extra = d.container.map fun _ => Container.shapeOf b.units := by
    rw [Block.extra, hstyled.container, Option.map_map]
    rfl
  refine ⟨d, b.units, entries', ?_, hunits, hsolid, hextra, ⟨_, rfl, ?_⟩, hall',
    congrArg Assoc.ofList hentries, ?_⟩
  · rw [← hw.registry]
    exact hstyled.known
  · rw [← names_settled hts, ← fieldNames_of_follows hstyled.inputs]
    rfl
  · rintro below rfl
    exact h.carriesNext hw hb hstyled hnext

end Workspace

theorem Snapshot.Genuine.fits {r : Registry} {s : Snapshot} (h : s.Genuine α r) :
    ∃ d n entries, s.Fits α r d n entries := by
  obtain ⟨ws, x, hw, hx⟩ := h
  exact hx.fits hw

/-- A snapshot is that of any block that fits it too. -/
theorem Snapshot.Fits.eq_snapshot {r : Registry} {d : BlockDefinition} {n : Nat}
    {entries : List (Option (String × InputSnapshot Snapshot))} {s : Snapshot} {b : Block α}
    (h : s.Fits α r d n entries) (htidy : r.Tidy) (hknown : r.get? b.typeName = some d)
    (hcontainer : b.container = d.container.map (·.kind)) (hunits : b.units = n)
    (hplaceholder : b.placeholder = s.placeholder)
    (hfields : s.fields = Assoc.ofList (b.fields.filterMap Field.entry?))
    (hcopy : b.copyOnDrag = s.copyOnDrag) : s = b.snapshot entries s.next := by
  have htype : s.typeName = b.typeName :=
    (htidy.keyed h.known).symm.trans (htidy.keyed hknown)
  have hextra : s.extra = b.extra := by
    rw [h.extra, Block.extra, hcontainer, Option.map_map, hunits]
    rfl
  have hinputs := h.inputs
  obtain ⟨typeName, placeholder, fields, extra, inputs, next, copyOnDrag⟩ := s
  simp only at htype hextra hfields hinputs hplaceholder hcopy
  rw [htype, hextra, hfields, hinputs, ← hplaceholder, ← hcopy]
  rfl

/-! ### The entries by their names -/

section Names

variable {r : Registry} {ts : List InputTemplate}
  {entries : List (Option (String × InputSnapshot Snapshot))}

theorem socketNames_cons (t : InputTemplate) (ts : List InputTemplate) :
    InputTemplate.socketNames (t :: ts) =
      if t.kind.connection?.isSome then t.name :: InputTemplate.socketNames ts
      else InputTemplate.socketNames ts := by
  unfold InputTemplate.socketNames
  rw [List.filter_cons]
  split <;> rfl

/-- Entries stand under the names of sockets, in their order. -/
theorem names_of_carries (h : List.Forall₂ (InputTemplate.Carries α r) ts entries) :
    ((entries.filterMap fun e => e).map Prod.fst).Sublist (InputTemplate.socketNames ts) := by
  induction h with
  | nil => exact List.Sublist.refl _
  | @cons t e ts entries he _ ih =>
    rw [socketNames_cons]
    cases he with
    | nothing =>
      simp only [List.filterMap_cons_none]
      split
      · exact ih.cons _
      · exact ih
    | block template hk =>
      rw [hk, Option.isSome_some, if_pos rfl]
      exact ih.cons_cons _

/-- Of a socket with a name of its own the entry under this name is the entry. -/
theorem carries_lookup (h : List.Forall₂ (InputTemplate.Carries α r) ts entries)
    (hnodup : (InputTemplate.socketNames ts).Nodup) :
    List.Forall₂ (fun t e => t.Carries α r e ∧ ∀ i, t.kind.connection?.isSome →
      ((t.name, i) ∈ (entries.filterMap fun e => e) ↔ e = some (t.name, i))) ts entries := by
  induction h with
  | nil => exact .nil
  | @cons t e ts entries he hrest ih =>
    have hnames := names_of_carries hrest
    rw [socketNames_cons] at hnodup
    have hmem : ∀ x, x ∈ ((e :: entries).filterMap fun e => e) ↔
        e = some x ∨ x ∈ entries.filterMap fun e => e := fun x => by
      cases e <;> simp [eq_comm]
    have hnodup' : (InputTemplate.socketNames ts).Nodup := by
      split at hnodup
      · exact (List.nodup_cons.mp hnodup).2
      · exact hnodup
    refine .cons ⟨he, fun i hk => ?_⟩ ?_
    · rw [if_pos hk] at hnodup
      rw [hmem, or_iff_left]
      intro hi
      exact (List.nodup_cons.mp hnodup).1 (hnames.subset (List.mem_map_of_mem hi))
    · have hall := (List.forall₂_and_left _ _).mpr ⟨fun t' ht' => ht', ih hnodup'⟩
      refine hall.imp fun t' e' ht' => ⟨ht'.2.1, fun i hk => ?_⟩
      rw [hmem, ← ht'.2.2 i hk, or_iff_right]
      rintro rfl
      -- the entry of another socket stands under another name
      have hsocket : t'.name ∈ InputTemplate.socketNames ts :=
        List.mem_map_of_mem (List.mem_filter.mpr ⟨ht'.1, hk⟩)
      generalize hx : (t'.name, i) = x at he
      cases he with
      | block template hk' =>
        rw [hk', Option.isSome_some, if_pos rfl] at hnodup
        rw [show t'.name = t.name from congrArg Prod.fst hx] at hsocket
        exact (List.nodup_cons.mp hnodup).1 hsocket

/-- In a snapshot no two inputs have one name. -/
theorem Workspace.Records.nodup_names {ws : Workspace α} {x : BlockId} {s : Snapshot} {b : Block α}
    (h : ws.Records x s) (hw : ws.Standard r) (hdistinct : r.Distinct) (hb : ws.blocks[x]? = some b)
    (hholds : List.Forall₂ ws.Holds b.inputs entries) :
    ((entries.filterMap fun e => e).map Prod.fst).Nodup := by
  obtain ⟨d, ts, hstyled, hplan⟩ := hw.shaped.at_ x b hb
  obtain ⟨-, -, hts⟩ := planned_settled hplan
  obtain ⟨entries', hall, hentries⟩ := settled_carries hts (h.carriesAll hw hb hstyled hholds)
  have hknown := hstyled.known
  rw [hw.registry] at hknown
  rw [hentries]
  exact (hdistinct.settled hknown b.units).1.sublist (names_of_carries hall)

end Names

end BlockEditor
