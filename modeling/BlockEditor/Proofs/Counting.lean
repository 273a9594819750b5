import BlockEditor.Proofs.Originals
import Mathlib.Algebra.GroupWithZero.Nat

/-!
# Counting blocks

A snapshot that was taken of a block counts the block and those below it. This is how many blocks are
built from it.
-/

namespace BlockEditor

variable {α : Type}

namespace Snapshot

mutual

/-- How many blocks a snapshot holds. An input without a block counts as the placeholder of its
template. -/
def size : Snapshot → Nat
  | ⟨_, _, _, _, inputs, next, _⟩ => sizeOfInputs inputs + (sizeIfAny next).getD 0 + 1

def sizeIfAny : Option Snapshot → Option Nat
  | none => none
  | some s => some (size s)

def sizeOfInputs : List (String × InputSnapshot Snapshot) → Nat
  | [] => 0
  | (_, ⟨block, template⟩) :: rest =>
    (sizeIfAny block <|> sizeIfAny template).getD 0 + sizeOfInputs rest

end

theorem sizeIfAny_eq (o : Option Snapshot) : sizeIfAny o = o.map size := by
  cases o <;> rfl

end Snapshot

/-- How many blocks an input holds. -/
def InputSnapshot.size (i : InputSnapshot Snapshot) : Nat :=
  (i.block.map Snapshot.size <|> i.template.map Snapshot.size).getD 0

theorem InputSnapshot.size_ofChild (template : Option Snapshot) (s : Snapshot) :
    (InputSnapshot.ofChild template s).size = s.size := by
  unfold InputSnapshot.ofChild InputSnapshot.size
  split <;> rfl

namespace Snapshot

theorem sizeOfInputs_eq (l : List (String × InputSnapshot Snapshot)) :
    sizeOfInputs l = (l.map fun i => i.2.size).sum := by
  induction l with
  | nil => rfl
  | cons i rest ih =>
    obtain ⟨name, block, template⟩ := i
    rw [sizeOfInputs, ih, sizeIfAny_eq, sizeIfAny_eq]
    rfl

theorem size_eq (s : Snapshot) :
    s.size = (s.inputs.map fun i => i.2.size).sum + (s.next.map size).getD 0 + 1 := by
  obtain ⟨typeName, placeholder, fields, extra, inputs, next, copyOnDrag⟩ := s
  rw [size, sizeOfInputs_eq, sizeIfAny_eq]

end Snapshot

namespace Workspace

variable {r : Registry} {ws : Workspace α} {x : BlockId} {b : Block α} {s : Snapshot}
  {kids : List BlockId} {parts : List Snapshot} {n : Nat}
  {entries : List (Option (String × InputSnapshot Snapshot))}

/-- The inputs of a block hold as many blocks as the entries of its snapshot. -/
theorem Records.inputs_size (h : ws.Records x s) (hs : ws.Sound) (hb : ws.blocks[x]? = some b)
    {is : List Input} (his : ∀ i ∈ is, i ∈ b.inputs) (hholds : List.Forall₂ ws.Holds is entries) :
    ∃ parts, List.Forall₂ ws.Records (is.filterMap fun i => i.connection.bind ws.across) parts ∧
      (parts.map Snapshot.size).sum =
        ((entries.filterMap fun e => e).map fun i => i.2.size).sum := by
  induction hholds with
  | nil => exact ⟨[], .nil, rfl⟩
  | @cons i e is entries he _ ih =>
    obtain ⟨parts, hparts, hsum⟩ := ih fun j hj => his j (List.mem_cons_of_mem i hj)
    rcases h.entry hs hb (his i List.mem_cons_self) he with
      ⟨ha, rfl⟩ | ⟨child, below, template, ha, hbelow, rfl⟩
    · rw [List.filterMap_cons, ha]
      exact ⟨parts, hparts, hsum⟩
    · rw [List.filterMap_cons, ha]
      refine ⟨below :: parts, .cons hbelow hparts, ?_⟩
      simp only [List.filterMap_cons, List.map_cons, List.sum_cons, InputSnapshot.size_ofChild, hsum]

/-- A walk over some blocks counts what hangs on each. -/
theorem walk_size (hwalk : ∀ a part seen, ws.graph.Shallow n a → ws.Records a part →
      ∃ l, ws.descendantsFrom n seen a = .ok l ∧ l.length = seen.length + part.size)
    (h : List.Forall₂ ws.Records kids parts) (hkids : ∀ a ∈ kids, ws.graph.Shallow n a)
    (seen : List BlockId) : ∃ l, kids.foldlM (ws.descendantsFrom n) seen = .ok l ∧
      l.length = seen.length + (parts.map Snapshot.size).sum := by
  induction h generalizing seen with
  | nil => exact ⟨seen, rfl, rfl⟩
  | @cons a part kids parts ha _ ih =>
    obtain ⟨l, hl, hlen⟩ := hwalk a part seen (hkids a List.mem_cons_self) ha
    obtain ⟨l', hl', hlen'⟩ := ih (fun y hy => hkids y (List.mem_cons_of_mem a hy)) l
    refine ⟨l', ?_, ?_⟩
    · rw [List.foldlM_cons, hl]
      exact hl'
    · rw [hlen', hlen, List.map_cons, List.sum_cons, Nat.add_assoc]

theorem ofList_perm {β : Type} {l : List (String × β)} (h : (l.map Prod.fst).Nodup) :
    (Assoc.ofList l).Perm l :=
  (List.perm_ext_iff_of_nodup (Assoc.nodup_names_ofList l).of_map h.of_map).mpr fun _ =>
    Assoc.mem_ofList h

/-- The children of a block are what its inputs hold, and the block below. -/
theorem sockets_across (b : Block α) : b.sockets.filterMap ws.across =
    (b.inputs.filterMap fun i => i.connection.bind ws.across) ++ (b.next.bind ws.across).toList := by
  rw [Block.sockets, List.filterMap_append, List.filterMap_filterMap]
  congr 1
  cases b.next with
  | none => rfl
  | some c => cases h : ws.across c <;> simp [h]

/-- The snapshots of the children of a block are counted by its snapshot. -/
theorem Records.children (h : ws.Records x s) (hw : ws.Standard r) (hdistinct : r.Distinct)
    (hb : ws.blocks[x]? = some b) : ∃ parts, List.Forall₂ ws.Records (b.sockets.filterMap ws.across) parts ∧
      s.size = (parts.map Snapshot.size).sum + 1 := by
  obtain ⟨entries, next, hholds, hnext, rfl⟩ := (hw.sound.save_eq_ok h.tame hb).mp h.saved
  obtain ⟨parts, hparts, hsum⟩ := h.inputs_size hw.sound hb (fun _ hi => hi) hholds
  have hperm := ofList_perm (h.nodup_names hw hdistinct hb hholds)
  have hinputs : ((b.snapshot entries next).inputs.map fun i => i.2.size).sum =
      (parts.map Snapshot.size).sum := (hperm.map _).sum_nat.trans hsum.symm
  rw [sockets_across, Snapshot.size_eq, hinputs]
  cases hnext with
  | last ha =>
    rw [ha]
    exact ⟨parts, by simpa using hparts, rfl⟩
  | @next child below ha hsave =>
    rw [ha]
    obtain ⟨c, hc, hca⟩ := Option.bind_eq_some_iff.mp ha
    have hunder := hw.sound.under_of_across hb (mem_sockets.mpr (Or.inr hc)) hca
    refine ⟨parts ++ [below], List.rel_append hparts (.cons (h.below hw.sound hunder hsave) .nil), ?_⟩
    rw [List.map_append, List.sum_append]
    simp [Block.snapshot]

/-- A walk down from a block counts what its snapshot counts. -/
theorem Records.walk_size (h : ws.Records x s) (hw : ws.Standard r) (hdistinct : r.Distinct)
    (hn : ws.graph.Shallow n x) (seen : List BlockId) :
    ∃ l, ws.descendantsFrom n seen x = .ok l ∧ l.length = seen.length + s.size := by
  induction n generalizing x s seen with
  | zero => exact hn.elim
  | succ n ih =>
    obtain ⟨b, hb⟩ := live_of_save h.saved
    obtain ⟨parts, hparts, hsize⟩ := h.children hw hdistinct hb
    obtain ⟨l, hl, hlen⟩ := Workspace.walk_size (fun a part seen ha hpart => ih hpart ha seen) hparts
      (fun a ha => hn a ((hw.sound.mem_children hb).mp ha)) (x :: seen)
    refine ⟨l, ?_, ?_⟩
    · rw [Workspace.descendantsFrom, hw.sound.children hb]
      exact hl
    · rw [hlen, List.length_cons, hsize]
      omega

theorem Records.descendants (h : ws.Records x s) (hw : ws.Standard r) (hdistinct : r.Distinct) :
    ∃ l, ws.descendants x = .ok l ∧ l.length = s.size := by
  obtain ⟨l, hl, hlen⟩ := h.walk_size hw hdistinct (hw.sound.shallow h.tame) []
  refine ⟨l.reverse, ?_, by rw [List.length_reverse, hlen, List.length_nil, Nat.zero_add]⟩
  rw [Workspace.descendants, hl]
  rfl

end Workspace

end BlockEditor
