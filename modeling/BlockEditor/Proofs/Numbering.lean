import BlockEditor.Proofs.Evaluation
import Mathlib.Data.List.Nodup

/-!
# Numbers that are handed out once

As long as the words last, no two blocks of a run have the same number, and no two connections. So
what has gone never comes back, and what is new takes nobody's place. After that the numbers start
again from 0, whoever has them.
-/

namespace BlockEditor

namespace IdSupply

variable {s s' : IdSupply} {n m : Nat} {w : UInt32}

/-- The words for the first `n` numbers. -/
def words (n : Nat) : List UInt32 :=
  (List.range n).map UInt32.ofNat

/-- The ids of blocks that have been handed out, in that order. -/
def blockIds (s : IdSupply) : List BlockId :=
  (words s.blocks).map BlockId.mk

/-- The ids of connections that have been handed out, in that order. -/
def connectionIds (s : IdSupply) : List ConnectionId :=
  (words s.connections).map ConnectionId.mk

theorem words_prefix (h : m ≤ n) : words m <+: words n := by
  have hle : List.range m <+: List.range n := by
    rw [← Nat.add_sub_cancel' h, List.range_add]
    exact List.prefix_append _ _
  exact hle.map UInt32.ofNat

theorem mem_words (h : n ≤ 2 ^ 32) : w ∈ words n ↔ w.toNat < n := by
  simp only [words, List.mem_map, List.mem_range]
  constructor
  · rintro ⟨k, hk, rfl⟩
    rw [UInt32.toNat_ofNat']
    omega
  · exact fun hw => ⟨w.toNat, hw, UInt32.ofNat_toNat⟩

/-- The words are distinct until they run out. -/
theorem nodup_words : (words n).Nodup ↔ n ≤ 2 ^ 32 := by
  constructor
  · intro h
    by_contra hn
    have hinj := List.inj_on_of_nodup_map h
    have hzero : (0 : Nat) = 2 ^ 32 := hinj (List.mem_range.mpr (by omega))
      (List.mem_range.mpr (by omega)) (by decide)
    omega
  · intro h
    refine List.Nodup.map_on (fun i hi j hj he => ?_) List.nodup_range
    have hi := List.mem_range.mp hi
    have hj := List.mem_range.mp hj
    have he := congrArg UInt32.toNat he
    rw [UInt32.toNat_ofNat', UInt32.toNat_ofNat'] at he
    omega

/-- The next word is one of those before if they have run out. -/
theorem ofNat_mem_words : UInt32.ofNat n ∈ words n ↔ 2 ^ 32 ≤ n := by
  constructor
  · intro h
    by_contra hn
    have hlt := (mem_words (by omega)).mp h
    rw [UInt32.toNat_ofNat'] at hlt
    omega
  · intro h
    refine List.mem_map.mpr ⟨n - 2 ^ 32, List.mem_range.mpr (by omega), ?_⟩
    refine UInt32.toNat_inj.mp ?_
    rw [UInt32.toNat_ofNat', UInt32.toNat_ofNat']
    omega

theorem mem_blockIds (h : s.Lasts) {x : BlockId} : x ∈ s.blockIds ↔ x.index.toNat < s.blocks := by
  rw [← mem_words h.1, blockIds, List.mem_map]
  exact ⟨fun ⟨w, hw, hx⟩ => hx ▸ hw, fun hw => ⟨x.index, hw, rfl⟩⟩

theorem mem_connectionIds (h : s.Lasts) {c : ConnectionId} :
    c ∈ s.connectionIds ↔ c.index.toNat < s.connections := by
  rw [← mem_words h.2, connectionIds, List.mem_map]
  exact ⟨fun ⟨w, hw, hc⟩ => hc ▸ hw, fun hw => ⟨c.index, hw, rfl⟩⟩

theorem nodup_blockIds : s.blockIds.Nodup ↔ s.blocks ≤ 2 ^ 32 := by
  rw [blockIds, List.nodup_map_iff fun _ _ => congrArg BlockId.index, nodup_words]

theorem nodup_connectionIds : s.connectionIds.Nodup ↔ s.connections ≤ 2 ^ 32 := by
  rw [connectionIds, List.nodup_map_iff fun _ _ => congrArg ConnectionId.index, nodup_words]

theorem nextBlock_mem_blockIds : s.nextBlock.1 ∈ s.blockIds ↔ 2 ^ 32 ≤ s.blocks := by
  rw [← ofNat_mem_words, blockIds, nextBlock,
    List.mem_map_of_injective fun _ _ => congrArg BlockId.index]

theorem nextConnection_mem_connectionIds :
    s.nextConnection.1 ∈ s.connectionIds ↔ 2 ^ 32 ≤ s.connections := by
  rw [← ofNat_mem_words, connectionIds, nextConnection,
    List.mem_map_of_injective fun _ _ => congrArg ConnectionId.index]

end IdSupply

variable {α : Type}

namespace Workspace

variable {ws ws' ws'' : Workspace α} {x id : BlockId} {c : ConnectionId}

/-- What there is has a number that was not handed out before, or it was there before. -/
structure Predates (ws ws' : Workspace α) : Prop where
  blockCount : ws.ids.blocks ≤ ws'.ids.blocks
  endCount : ws.ids.connections ≤ ws'.ids.connections
  blocks : ∀ x : BlockId, x.index.toNat < ws.ids.blocks → ws'.Live x → ws.Live x
  connections : ∀ c : ConnectionId, c.index.toNat < ws.ids.connections →
    ∀ y', ws'.connections[c]? = some y' →
      ∃ y, ws.connections[c]? = some y ∧ y.block = y'.block ∧ y.kind = y'.kind

namespace Predates

theorem refl (ws : Workspace α) : ws.Predates ws :=
  ⟨le_rfl, le_rfl, fun _ _ h => h, fun _ _ y hy => ⟨y, hy, rfl, rfl⟩⟩

theorem trans (h : ws.Predates ws') (h' : ws'.Predates ws'') : ws.Predates ws'' where
  blockCount := h.blockCount.trans h'.blockCount
  endCount := h.endCount.trans h'.endCount
  blocks x hx hl := h.blocks x hx (h'.blocks x (hx.trans_le h.blockCount) hl)
  connections c hc y'' hy'' := by
    obtain ⟨y', hy', hb', hk'⟩ := h'.connections c (hc.trans_le h.endCount) y'' hy''
    obtain ⟨y, hy, hb, hk⟩ := h.connections c hc y' hy'
    exact ⟨y, hy, hb.trans hb', hk.trans hk'⟩

/-- A step that makes nothing. -/
theorem of_ids (hids : ws'.ids = ws.ids) (hlive : ∀ x, ws'.Live x → ws.Live x)
    (hends : ∀ (c : ConnectionId) y', ws'.connections[c]? = some y' →
      ∃ y, ws.connections[c]? = some y ∧ y.block = y'.block ∧ y.kind = y'.kind) :
    ws.Predates ws' :=
  ⟨(congrArg IdSupply.blocks hids).ge, (congrArg IdSupply.connections hids).ge,
    fun x _ => hlive x, fun c _ => hends c⟩

theorem of_eq (hids : ws'.ids = ws.ids) (hblocks : ws'.blocks = ws.blocks)
    (hconnections : ws'.connections = ws.connections) : ws.Predates ws' := by
  refine of_ids hids (fun x hx => ?_) fun c y hy => ⟨y, ?_, rfl, rfl⟩
  · rwa [Live, hblocks] at hx
  · rwa [hconnections] at hy

theorem insert {b b' : Block α} (hb : ws.blocks[id]? = some b) :
    ws.Predates { ws with blocks := ws.blocks.insert id b' } := by
  refine of_ids rfl (fun x hx => ?_) fun c y hy => ⟨y, hy, rfl, rfl⟩
  obtain ⟨b'', hx⟩ := hx
  rw [getElem?_insert] at hx
  split at hx
  · next h =>
    subst h
    exact ⟨b, hb⟩
  · exact ⟨b'', hx⟩

theorem shifts {S : BlockId → Prop} (h : ws.Shifts S ws') : ws.Predates ws' := by
  refine of_ids h.ids (fun x ⟨b', hb'⟩ => ?_) fun c y' hy' => ?_
  · obtain ⟨b, hb, -⟩ := h.symm_block hb'
    exact ⟨b, hb⟩
  · obtain ⟨y, hy, he⟩ := h.symm_connection hy'
    exact ⟨y, hy, congrArg (fun u : Connection Unit => u.block) he,
      congrArg (fun u : Connection Unit => u.kind) he⟩

/-- A step that changes what connections hold. -/
theorem map {f : ConnectionId → Connection α → Connection α} (hids : ws'.ids = ws.ids)
    (hblocks : ws'.blocks = ws.blocks)
    (h : ∀ c : ConnectionId, ws'.connections[c]? = (ws.connections[c]?).map (f c))
    (hf : ∀ c y, (f c y).block = y.block ∧ (f c y).kind = y.kind) : ws.Predates ws' := by
  refine of_ids hids (fun x hx => ?_) fun c y' hy' => ?_
  · rwa [Live, hblocks] at hx
  · rw [h, Option.map_eq_some_iff] at hy'
    obtain ⟨y, hy, rfl⟩ := hy'
    exact ⟨y, hy, (hf c y).1.symm, (hf c y).2.symm⟩

theorem cuts {s p : ConnectionId} {child : BlockId} (h : ws.Cuts s p child ws') :
    ws.Predates ws' := by
  refine map h.ids h.blocks h.connections fun c y => ?_
  split <;> exact ⟨rfl, rfl⟩

theorem ties {s p : ConnectionId} {child : BlockId} (h : ws.Ties s p child ws') :
    ws.Predates ws' := by
  refine map h.ids h.blocks h.connections fun c y => ?_
  split
  · exact ⟨rfl, rfl⟩
  · split <;> exact ⟨rfl, rfl⟩

theorem loses {keep gone : List Input} {R : List BlockId} (h : ws.Loses id keep gone R ws') :
    ws.Predates ws' := by
  refine of_ids h.ids (fun x ⟨b', hb'⟩ => ?_) fun c y' hy' => ?_
  · obtain ⟨-, b, hb, -⟩ := h.old hb'
    exact ⟨b, hb⟩
  · obtain ⟨-, y, hy, rfl⟩ := h.old_connection hy'
    exact ⟨y, hy, rfl, rfl⟩

theorem pushes [Scalar α] {ts : List InputTemplate} {is : List Input} {l : List NewEnd}
    (h : ws.Pushes id ts is l ws') : ws.Predates ws' where
  blockCount := by
    rw [h.rest]
  endCount := h.count
  blocks x _ hx := by
    obtain ⟨b', hb'⟩ := hx
    rw [h.blocks, Option.map_eq_some_iff] at hb'
    obtain ⟨b, hb, -⟩ := hb'
    exact ⟨b, hb⟩
  connections c hc y' hy' := by
    rw [h.kept_of_old hc] at hy'
    exact ⟨y', hy', rfl, rfl⟩

theorem raises [Scalar α] {d : BlockDefinition} {b : Block α} (h : ws.Raises d id b ws') :
    ws.Predates ws' where
  blockCount := by
    rw [h.ids_blocks]
    exact Nat.le_succ _
  endCount := h.count
  blocks x hx := by
    rintro ⟨b', hb'⟩
    rw [h.blocks, if_neg] at hb'
    · exact ⟨b', hb'⟩
    · rintro rfl
      rw [h.new] at hx
      exact Nat.lt_irrefl _ hx
  connections c hc y' hy' := by
    rw [h.kept_of_old hc] at hy'
    exact ⟨y', hy', rfl, rfl⟩

end Predates

/-- All ids are distinct. A block or a connection with an id that had been handed out was there, the
connection on the same block and of the same kind. -/
structure NumbersAnew (ws ws' : Workspace α) : Prop where
  blockIds : ws'.ids.blockIds.Nodup
  connectionIds : ws'.ids.connectionIds.Nodup
  blockIds_prefix : ws.ids.blockIds <+: ws'.ids.blockIds
  connectionIds_prefix : ws.ids.connectionIds <+: ws'.ids.connectionIds
  blocks : ∀ x, ws'.Live x → x ∈ ws'.ids.blockIds ∧ (x ∈ ws.ids.blockIds → ws.Live x)
  connections : ∀ (c : ConnectionId) y', ws'.connections[c]? = some y' →
    c ∈ ws'.ids.connectionIds ∧ (c ∈ ws.ids.connectionIds →
      ∃ y, ws.connections[c]? = some y ∧ y.block = y'.block ∧ y.kind = y'.kind)

theorem Predates.numbersAnew (h : ws.Predates ws') (hlast : ws.ids.Lasts) (hlast' : ws'.ids.Lasts)
    (hs : ws'.Sound) : ws.NumbersAnew ws' where
  blockIds := IdSupply.nodup_blockIds.mpr hlast'.1
  connectionIds := IdSupply.nodup_connectionIds.mpr hlast'.2
  blockIds_prefix := (IdSupply.words_prefix h.blockCount).map _
  connectionIds_prefix := (IdSupply.words_prefix h.endCount).map _
  blocks x hx := by
    obtain ⟨b, hb⟩ := hx
    exact ⟨(IdSupply.mem_blockIds hlast').mpr (hs.blockIds hb), fun hold =>
      h.blocks x ((IdSupply.mem_blockIds hlast).mp hold) ⟨b, hb⟩⟩
  connections c y' hy' :=
    ⟨(IdSupply.mem_connectionIds hlast').mpr (hs.connectionIds hy'), fun hold =>
      h.connections c ((IdSupply.mem_connectionIds hlast).mp hold) y' hy'⟩

section Stable

variable [Scalar α]

omit [Scalar α] in
theorem coarse_predates (ws : Workspace α) : Coarse ws.Predates where
  units hb h := h.trans (.insert hb)
  events h := h.trans (.of_eq rfl rfl rfl)
  procedures h := h.trans (.of_eq rfl rfl rfl)

theorem fine_predates (ws : Workspace α) (id : BlockId) : Fine False id ws.Predates where
  shifts _ hstep h := h.trans (.shifts hstep)
  sheds _ _ hstep h := by
    obtain ⟨R, hl, -⟩ := hstep
    exact h.trans (.loses hl)
  pushes _ hstep h _ := h.trans (.pushes hstep)

theorem stable_predates (ws : Workspace α) : Stable False fun _ => ws.Predates where
  mono _ h := h
  shifts _ hstep h := h.trans (.shifts hstep.toShifts)
  decorate _ hb _ h := h.trans (.insert hb)
  field _ hb _ h := (coarse_predates ws).procedures (h.trans (.insert hb))
  side h := h.trans (.of_eq rfl rfl rfl)
  note _ h := h.trans (.of_eq rfl rfl rfl)
  group h := h.trans (.of_eq rfl rfl rfl)
  template {X ws ws' c t} _ hc hr h := by
    refine h.trans (.map (by rw [hr]) (by rw [hr]) hc fun d y => ?_)
    split <;> exact ⟨rfl, rfl⟩
  cuts _ hstep h := h.trans (.cuts hstep)
  ties _ hstep h := h.trans (.ties hstep)
  prunes _ _ hl _ h := h.trans (.loses hl)
  fill _ _ h := h
  newBlock typeName := ((coarse_predates ws).newBlock (fine_predates ws)
    (fun _ _ hstep h => h.trans (.raises hstep)) typeName).weaken (fun _ h => h)
      (fun _ _ h => h.1.keeps) fun _ h => h.2
  setUnits id n := ((coarse_predates ws).setUnits (fine_predates ws id) n).weaken
    (fun _ h => ⟨h.1, h.2.2, h.2.1⟩) (fun _ _ h => h.1.keeps) fun _ h => h.2
  refreshControls id := (Edit.refreshControls_keeps (fine_predates ws id).handles).weaken
    (fun _ h => ⟨h.1, h.2.2, h.2.1⟩) (fun _ _ h => h.1.keeps) fun _ h => h.keeps

end Stable

end Workspace

namespace Editor

open Workspace

variable [Scalar α] {config : EditorConfig α} {registry : Registry} {e : Editor α}
  {l l' : List (Action α)}

theorem run_predates (hs : e.workspace.Sound) (hlast : Lasts (e.run l)) :
    e.workspace.Predates (e.run l).workspace :=
  (run_steady (stable_predates e.workspace) ⟨hs, .refl _⟩ hlast False.elim).keeps

/-- In every run the next id is a new one until the words have run out, and until then whatever is
made has a new number. -/
theorem run_numbersAnew (hone : registry.OnePlug) (hstart : create config registry = .ok e)
    (hblocks : (e.run (l ++ l')).workspace.ids.blocks ≤ 2 ^ 32)
    (hconnections : (e.run (l ++ l')).workspace.ids.connections ≤ 2 ^ 32) :
    (e.run l).workspace.NumbersAnew (e.run (l ++ l')).workspace ∧
      ∀ s : IdSupply, (s.nextBlock.1 ∈ s.blockIds ↔ 2 ^ 32 ≤ s.blocks) ∧
        (s.nextConnection.1 ∈ s.connectionIds ↔ 2 ^ 32 ≤ s.connections) := by
  refine ⟨?_, fun s => ⟨s.nextBlock_mem_blockIds, s.nextConnection_mem_connectionIds⟩⟩
  have hlast : Lasts (e.run (l ++ l')) := ⟨hblocks, hconnections⟩
  have ht := run_wired hone hstart hlast
  rw [run_append] at ht hlast ⊢
  have hlast' : Lasts (e.run l) := lasts_of_run hlast
  exact (run_predates (run_wired hone hstart hlast') hlast).numbersAnew hlast' hlast ht

/-- A block goes and another one is made. -/
theorem run_numbersAnew_dispose :
    let e := fresh (.standard : EditorConfig Int) Palette.registry
    let l := [.newBlock "Return", .newBlock "int", .dispose ⟨1⟩]
    let l' := [.newBlock "Name"]
    (e.run (l ++ l')).workspace.ids = ⟨3, 4⟩ ∧
      (e.run l).workspace.NumbersAnew (e.run (l ++ l')).workspace :=
  ⟨by decide +kernel, (run_numbersAnew Palette.registry_onePlug (create_fresh (by decide))
    (by decide +kernel) (by decide +kernel)).1⟩

end Editor

/-! ### When the words have run out -/

section Reuse

variable [Scalar α]

namespace Edit

open Workspace

variable {ws : Workspace α} {x : BlockId} {b : Block α}

theorem layOut_of_sockets_nil (hb : ws.blocks[x]? = some b) (hs : b.sockets = []) :
    layOut x ws = .ok ⟨⟩ (ws.place (Layout.offsets b)) := by
  unfold layOut
  rw [bind_eq (query_block hb)]
  simp only [occupiedSockets, hs, List.filter_nil]
  rfl

/-- An input without a connection changes nothing but its block. -/
theorem addInput_of_kind (hb : ws.blocks[x]? = some b) (hs : b.sockets = []) {i : InputTemplate}
    (hi : i.kind.connection? = none) : ∃ t, addInput x i ws = .ok ⟨⟩ t ∧
      t.registry = ws.registry ∧ t.ids = ws.ids ∧
      ∀ c : ConnectionId, (t.connections[c]?).map Connection.unplaced =
        (ws.connections[c]?).map Connection.unplaced := by
  have hpush : pushInputs x [i] ws = .ok ⟨⟩
      (ws.setInputs x b (b.inputs ++ [⟨i.name, i.kind, i.fields, none⟩])) := by
    unfold pushInputs
    rw [bind_eq (query_block hb)]
    have hmount : [i].mapM (mountInput x) ws = .ok [⟨i.name, i.kind, i.fields, none⟩] ws := by
      simp only [List.mapM, List.mapM.loop, mountInput, hi]
      rfl
    rw [bind_eq hmount]
    unfold updateBlock
    rw [bind_eq (query_block hb)]
    rfl
  unfold addInput
  rw [bind_eq hpush, layOut_of_sockets_nil
    (b := { b with inputs := b.inputs ++ [⟨i.name, i.kind, i.fields, none⟩] })]
  · refine ⟨_, rfl, rfl, rfl, fun c => ?_⟩
    exact (getElem?_place _ _ c).1
  · rw [getElem?_setInputs, if_pos rfl]
  · simpa [Block.sockets] using hs

/-- A `Pass` takes the next numbers, whoever has them. -/
theorem newBlock_pass (h : ws.registry = Palette.registry) :
    ∃ t, newBlock "Pass" ws = .ok ws.ids.nextBlock.1 t ∧ t.registry = Palette.registry ∧
      t.ids = ⟨ws.ids.blocks + 1, ws.ids.connections + 1⟩ ∧
      ∀ c : ConnectionId, (t.connections[c]?).map (·.block) =
        if c = ws.ids.nextConnection.1 then some ws.ids.nextBlock.1
        else (ws.connections[c]?).map (·.block) := by
  have hd : ∃ d t i, Palette.registry.get? "Pass" = some d ∧ d.output = none ∧
      d.previous = some t ∧ d.next = none ∧ d.inputs = [i] ∧ i.kind.connection? = none ∧
      d.container = none := by
    refine ⟨_, ⟨none⟩, Palette.row [.label "pass"], rfl, ?_⟩
    decide
  obtain ⟨d, t, i, hd, ho, hp, hn, hi, hk, hc⟩ := hd
  unfold newBlock
  rw [bind_eq (show (get : Edit α (Workspace α)) ws = .ok ws ws from rfl), h, hd]
  dsimp only
  rw [ho, hp, hn, hi, hc]
  -- the workspace in which the block stands with its only end
  let v : Workspace α := { ws with
    ids := ⟨ws.ids.blocks + 1, ws.ids.connections + 1⟩
    connections := ws.connections.insert ws.ids.nextConnection.1
      ⟨ws.ids.nextBlock.1, .previousStatement, Point.origin, t.check, none, none⟩
    blocks := ws.blocks.insert ws.ids.nextBlock.1
      (rawBlock { d with container := none } none (some ws.ids.nextConnection.1) none)
    top := ws.top ++ [ws.ids.nextBlock.1] }
  obtain ⟨u, hu, hregistry, hids, hends⟩ := addInput_of_kind
    (show v.blocks[ws.ids.nextBlock.1]? = _ by rw [getElem?_insert, if_pos rfl]) rfl hk
  have hforM : [i].forM (addInput ws.ids.nextBlock.1) v = .ok ⟨⟩ u :=
    (bind_eq hu).trans rfl
  have hrest : ([i].forM (addInput ws.ids.nextBlock.1) >>= fun _ => do
      fire (.create ws.ids.nextBlock.1 d.typeName)
      return ws.ids.nextBlock.1) v = .ok ws.ids.nextBlock.1
        { u with events := u.events.fire (.create ws.ids.nextBlock.1 d.typeName) } := by
    rw [bind_eq hforM]
    rfl
  refine ⟨_, hrest, hregistry.trans h, hids, fun c => ?_⟩
  have hc := congrArg (Option.map Connection.block) (hends c)
  rw [Option.map_map, Option.map_map] at hc
  refine hc.trans ?_
  simp only [v, Std.ExtTreeMap.getElem?_insert, Std.LawfulEqCmp.compare_eq_iff_eq]
  by_cases hnew : c = ws.ids.nextConnection.1
  · rw [if_pos hnew.symm, if_pos hnew]
    rfl
  · rw [if_neg (Ne.symm hnew), if_neg hnew]
    rfl
end Edit

namespace Editor

open Workspace

/-- A `Return`, and then as many `Pass` as asked for. -/
def passes (n : Nat) : List (Action α) :=
  .newBlock "Return" :: List.replicate n (.newBlock "Pass")

theorem after_pass {e : Editor α} (h : e.workspace.registry = Palette.registry) :
    (e.after (.newBlock "Pass")).workspace.registry = Palette.registry ∧
      (e.after (.newBlock "Pass")).workspace.ids =
        ⟨e.workspace.ids.blocks + 1, e.workspace.ids.connections + 1⟩ ∧
      ∀ c : ConnectionId, ((e.after (.newBlock "Pass")).workspace.connections[c]?).map (·.block) =
        if c = e.workspace.ids.nextConnection.1 then some e.workspace.ids.nextBlock.1
        else (e.workspace.connections[c]?).map (·.block) := by
  obtain ⟨t, ht, hkept⟩ := Edit.newBlock_pass h
  have hperform : perform (.newBlock "Pass") e = .ok () { e with workspace := t } := by
    change (discard (Act.edit (Edit.newBlock "Pass")) : Act α Unit) e = _
    exact bind_eq (by rw [Act.edit, ht])
  unfold after
  rw [hperform]
  exact hkept

/-- The first connection stays that of the first block until the words have run out. -/
theorem run_passes (n : Nat) :
    let ws := ((fresh (.standard : EditorConfig Int) Palette.registry).run (passes n)).workspace
    ws.registry = Palette.registry ∧ ws.ids = ⟨n + 1, n + 2⟩ ∧
      (n + 2 ≤ 2 ^ 32 → (ws.connections[(⟨0⟩ : ConnectionId)]?).map (·.block) = some ⟨0⟩) := by
  induction n with
  | zero =>
    refine ⟨rfl, by decide +kernel, fun _ => by decide +kernel⟩
  | succ n ih =>
    obtain ⟨hregistry, hids, hfirst⟩ := ih
    have hrun : passes (α := Int) (n + 1) = passes n ++ [.newBlock "Pass"] := by
      rw [passes, passes, List.replicate_succ', List.cons_append]
    obtain ⟨hregistry', hids', hends⟩ := after_pass hregistry
    rw [hrun, run_append]
    refine ⟨hregistry', hids'.trans (by rw [hids]), fun hn => ?_⟩
    refine (hends ⟨0⟩).trans ?_
    rw [if_neg, hfirst (by omega)]
    rw [hids]
    intro h
    have h := congrArg (fun c : ConnectionId => c.index.toNat) h
    simp only [IdSupply.nextConnection, UInt32.toNat_ofNat'] at h
    change 0 = (n + 2) % 2 ^ 32 at h
    omega

/-- After 2 ^ 32 connections the next one takes the place of the first, which is still there. -/
theorem reuses_first_connection :
    let e := (fresh (.standard : EditorConfig Int) Palette.registry).run (passes (2 ^ 32 - 2))
    e.workspace.ids.nextConnection.1 = ⟨0⟩ ∧ ⟨0⟩ ∈ e.workspace.ids.connectionIds ∧
      (e.workspace.connections[(⟨0⟩ : ConnectionId)]?).map (·.block) = some ⟨0⟩ ∧
      ((e.after (.newBlock "Pass")).workspace.connections[(⟨0⟩ : ConnectionId)]?).map (·.block) =
        some ⟨UInt32.ofNat (2 ^ 32 - 1)⟩ := by
  obtain ⟨hregistry, hids, hfirst⟩ := run_passes (2 ^ 32 - 2)
  obtain ⟨-, -, hends⟩ := after_pass hregistry
  simp only [hids] at hends ⊢
  refine ⟨by decide, IdSupply.nextConnection_mem_connectionIds.mpr (by decide),
    hfirst (by decide), (hends ⟨0⟩).trans (if_pos (by decide))⟩

end Editor

end Reuse

end BlockEditor
