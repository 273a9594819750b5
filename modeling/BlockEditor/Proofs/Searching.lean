import BlockEditor.Drag.Candidate
import BlockEditor.Proofs.Exact
import BlockEditor.Proofs.Regular

/-!
# The search for a candidate

The search takes the ends of the dragged block in turn, goes through all ends of the workspace for
each, and never looks farther than what it has found. That comes to a single pass over all pairs of
ends. It ends with the nearest pair, and with the last one of the nearest.
-/

namespace BlockEditor

/-- Numbers are ordered by a total preorder. What is not a number is compared to nothing. -/
class Scalar.Ordered (α : Type) [Scalar α] : Prop where
  isNumber_of_le : ∀ {x y : α}, Scalar.le x y → Scalar.isNumber x ∧ Scalar.isNumber y
  le_total : ∀ {x y : α}, Scalar.isNumber x → Scalar.isNumber y → Scalar.le x y ∨ Scalar.le y x
  le_trans : ∀ {x y z : α}, Scalar.le x y → Scalar.le y z → Scalar.le x z

instance : Scalar.Ordered ℚ where
  isNumber_of_le _ := ⟨decide_eq_true rfl, decide_eq_true rfl⟩
  le_total {x y} _ _ := (Rat.le_total (a := x) (b := y)).imp decide_eq_true decide_eq_true
  le_trans h h' := decide_eq_true (Rat.le_trans (of_decide_eq_true h) (of_decide_eq_true h'))

instance : Scalar.Ordered Int where
  isNumber_of_le _ := ⟨decide_eq_true rfl, decide_eq_true rfl⟩
  le_total {x y} _ _ := (Int.le_total x y).imp decide_eq_true decide_eq_true
  le_trans h h' := decide_eq_true (Int.le_trans (of_decide_eq_true h) (of_decide_eq_true h'))

variable {α : Type}

/-! ### One pass over a list -/

namespace Candidate

/-- One candidate comes before another: its own end is earlier among the ends of the dragged
block, or its neighbour is an earlier one for the same end. -/
def Before (ends : List ConnectionId) (c d : Candidate α) : Prop :=
  List.Sublist [c.own, d.own] ends ∨ c.own = d.own ∧ compare c.neighbour d.neighbour = .lt

variable [Scalar α] {radius : α} {l : List (Candidate α)} {best : Candidate α}

/-- How far is looked once something is found. -/
def reach (radius : α) (found : Option (Candidate α)) : α :=
  (found.map (·.distance)).getD radius

/-- What a search for the nearest connection would answer. -/
def hit (c : Candidate α) : ConnectionId × α :=
  (c.neighbour, c.distance)

/-- Take a candidate that is no farther than what was found. -/
def take (radius : α) (found : Option (Candidate α)) (c : Candidate α) : Option (Candidate α) :=
  if Scalar.le c.distance (reach radius found) then some c else found

/-- What was found before is kept until something is found in the narrower search. -/
theorem foldl_take_or (l : List (Candidate α)) (found acc : Option (Candidate α)) :
    l.foldl (take radius) (acc.or found) =
      (l.foldl (take (reach radius found)) acc).or found := by
  induction l generalizing acc with
  | nil => rfl
  | cons c rest ih =>
    have hstep : take radius (acc.or found) c = (take (reach radius found) acc c).or found := by
      have hreach : reach (reach radius found) acc = reach radius (acc.or found) := by
        cases acc <;> rfl
      unfold take
      rw [hreach]
      by_cases h : Scalar.le c.distance (reach radius (acc.or found))
      · rw [if_pos h, if_pos h, Option.some_or]
      · rw [if_neg h, if_neg h]
    rw [List.foldl_cons, List.foldl_cons, hstep, ih]

theorem foldl_take_mem {found : Option (Candidate α)} {c : Candidate α}
    (h : l.foldl (take radius) found = some c) : found = some c ∨ c ∈ l := by
  induction l generalizing found with
  | nil => exact Or.inl h
  | cons a rest ih =>
    rcases ih h with h | h
    · unfold take at h
      split at h
      · exact Or.inr (Option.some.inj h ▸ List.mem_cons_self)
      · exact Or.inl h
    · exact Or.inr (List.mem_cons_of_mem a h)

/-- The last of the nearest candidates of a list. -/
structure Wins (radius : α) (l : List (Candidate α)) (best : Candidate α) : Prop where
  within : Scalar.le best.distance radius
  last : ∃ before after, l = before ++ best :: after ∧
    (∀ c ∈ before, Scalar.le c.distance radius → Scalar.le best.distance c.distance) ∧
    ∀ c ∈ after, Scalar.le c.distance radius → ¬ Scalar.le c.distance best.distance

/-- The last of the nearest is no farther than any other. -/
theorem Wins.nearest [Scalar.Ordered α] (h : Wins radius l best) {c : Candidate α} (hc : c ∈ l)
    (hnear : Scalar.le c.distance radius) : Scalar.le best.distance c.distance := by
  have number := (Scalar.Ordered.isNumber_of_le h.within).1
  have total := Scalar.Ordered.le_total number (Scalar.Ordered.isNumber_of_le hnear).1
  obtain ⟨before, after, rfl, hbefore, hafter⟩ := h.last
  rcases List.mem_append.mp hc with hc | hc
  · exact hbefore c hc hnear
  · rcases List.mem_cons.mp hc with rfl | hc
    · exact total.elim id id
    · exact total.resolve_right (hafter c hc hnear)

/-- What a pass over a list ends with. -/
theorem foldl_take [Scalar.Ordered α] (radius : α) (l : List (Candidate α)) :
    (l.foldl (take radius) none = none → ∀ c ∈ l, ¬ Scalar.le c.distance radius) ∧
      ∀ best, l.foldl (take radius) none = some best → Wins radius l best := by
  induction l using List.reverseRecOn with
  | nil => exact ⟨fun _ _ => nofun, fun _ => nofun⟩
  | append_singleton l c ih =>
    rw [List.foldl_append, List.foldl_cons, List.foldl_nil]
    cases hfound : l.foldl (take radius) none with
    | none =>
      have hfar := ih.1 hfound
      have hreach : reach radius (none : Option (Candidate α)) = radius := rfl
      rw [take, hreach]
      split
      · next hnear =>
        refine ⟨nofun, fun best h => ?_⟩
        obtain rfl := Option.some.inj h
        exact ⟨hnear, l, [], rfl, fun d hd hn => absurd hn (hfar d hd), nofun⟩
      · next hout =>
        refine ⟨fun _ d hd => ?_, nofun⟩
        rcases List.mem_append.mp hd with hd | hd
        · exact hfar d hd
        · exact List.mem_singleton.mp hd ▸ hout
    | some a =>
      have hwins := ih.2 a hfound
      have hreach : reach radius (some a) = a.distance := rfl
      rw [take, hreach]
      split
      · next hnear =>
        refine ⟨nofun, fun best h => ?_⟩
        obtain rfl := Option.some.inj h
        refine ⟨Scalar.Ordered.le_trans hnear hwins.within, l, [], rfl, fun d hd hn => ?_, nofun⟩
        exact Scalar.Ordered.le_trans hnear (hwins.nearest hd hn)
      · next hout =>
        refine ⟨nofun, fun best h => ?_⟩
        obtain rfl := Option.some.inj h
        obtain ⟨before, after, rfl, hbefore, hafter⟩ := hwins.last
        refine ⟨hwins.within, before, after ++ [c], by simp, hbefore, fun d hd hn => ?_⟩
        rcases List.mem_append.mp hd with hd | hd
        · exact hafter d hd hn
        · exact List.mem_singleton.mp hd ▸ hout

/-- In a list that is sorted, those that are as near as the last of the nearest come before it. -/
theorem Wins.before {R : Candidate α → Candidate α → Prop} (h : Wins radius l best)
    (hsorted : l.Pairwise R) {c : Candidate α} (hc : c ∈ l) (hne : c ≠ best)
    (hnear : Scalar.le c.distance radius) (htie : Scalar.le c.distance best.distance) :
    R c best := by
  obtain ⟨before, after, rfl, -, hafter⟩ := h.last
  rcases List.mem_append.mp hc with hc | hc
  · exact (List.pairwise_append.mp hsorted).2.2 c hc best List.mem_cons_self
  · rcases List.mem_cons.mp hc with rfl | hc
    · exact absurd rfl hne
    · exact absurd htie (hafter c hc hnear)

end Candidate

namespace Workspace

variable {ws : Workspace α} {x : BlockId} {b : Block α} {own : ConnectionId} {y : Connection α}

/-! ### The ends of the dragged block -/

namespace Coherent

theorem descendantsFrom_ok (h : ws.Coherent) (n : Nat) (seen : List BlockId) (hl : ws.Live x) :
    ∃ l, ws.descendantsFrom n seen x = .ok l := by
  induction n generalizing x seen with
  | zero => exact ⟨seen, rfl⟩
  | succ n ih =>
    obtain ⟨kids, hkids, -, hmem⟩ := h.children x hl
    have hfold : ∀ (l : List BlockId) (seen : List BlockId), l ⊆ kids →
        ∃ found, l.foldlM (ws.descendantsFrom n) seen = .ok found := by
      intro l
      induction l with
      | nil => exact fun seen _ => ⟨seen, rfl⟩
      | cons k rest ihl =>
        intro seen hsub
        obtain ⟨found, hfound⟩ := ih seen (live_of_parent ((hmem k).mp (hsub List.mem_cons_self)))
        rw [List.foldlM_cons, hfound]
        exact ihl found fun a ha => hsub (List.mem_cons_of_mem k ha)
    rw [descendantsFrom, hkids]
    exact hfold kids (x :: seen) (List.Subset.refl _)

/-- The end of a stack is the next connection of a block. -/
theorem stackEnd_ok (h : ws.Coherent) (n : Nat) (hl : ws.Live x) :
    ∃ found, ws.stackEndWithin true n x = .ok found ∧ ∀ c, found = some c →
      ∃ (a : BlockId) (o : Block α), ws.blocks[a]? = some o ∧ o.next = some c := by
  induction n generalizing x with
  | zero => exact ⟨none, rfl, nofun⟩
  | succ n ih =>
    obtain ⟨b, hb⟩ := hl
    simp only [stackEndWithin, block_eq_ok.mpr hb, bind, Except.bind]
    cases hn : b.next with
    | none => exact ⟨none, rfl, nofun⟩
    | some c =>
      have hat : ∃ (a : BlockId) (o : Block α), ws.blocks[a]? = some o ∧ o.next = some c :=
        ⟨x, b, hb, hn⟩
      obtain ⟨y, hy, -⟩ := h.listed x b hb c (by simp [Block.connections, hn])
      simp only [h.furnished.blockAcross hy]
      cases ha : ws.across c with
      | none => exact ⟨some c, rfl, fun d hd => Option.some.inj hd ▸ hat⟩
      | some below =>
        obtain ⟨o, ho⟩ := h.furnished.live_across ha
        simp only [block_eq_ok.mpr ho]
        split
        · exact ⟨some c, rfl, fun d hd => Option.some.inj hd ▸ hat⟩
        · exact ih ⟨o, ho⟩

/-- The ends that a drop could use are there, and are listed once each. -/
theorem dragEnds_ok (h : ws.Coherent) (hb : ws.blocks[x]? = some b) :
    ∃ ends, ws.dragEnds x = .ok ends ∧ ends.Nodup ∧
      ∀ c ∈ ends, ∃ y, ws.connections[c]? = some y := by
  have hown := h.nodup_connections hb
  have hlisted : ∀ c ∈ b.connections, ∃ y, ws.connections[c]? = some y := fun c hc =>
    (h.listed x b hb c hc).imp fun _ hy => hy.1
  obtain ⟨found, hfound, hnext⟩ := h.stackEnd_ok ws.walkBound ⟨b, hb⟩
  simp only [dragEnds, stackEnd, block_eq_ok.mpr hb, hfound, bind, Except.bind, pure, Except.pure]
  cases found with
  | none => exact ⟨b.connections, rfl, hown, hlisted⟩
  | some last =>
    obtain ⟨a, o, ho, hlast⟩ := hnext last rfl
    obtain ⟨y, hy, hya⟩ := h.listed a o ho last (by simp [Block.connections, hlast])
    dsimp only
    split
    · exact ⟨b.connections, rfl, hown, hlisted⟩
    · next hne =>
      refine ⟨b.connections ++ [last], rfl, ?_, fun c hc => ?_⟩
      · refine List.nodup_append.mpr ⟨hown, List.nodup_singleton last, ?_⟩
        rintro c hc d hd rfl
        obtain rfl := List.mem_singleton.mp hd
        -- an end of the block itself at the bottom of the stack is its next connection
        obtain ⟨y', hy', hyx⟩ := h.listed x b hb c hc
        rw [hy, Option.some.injEq] at hy'
        subst hy'
        obtain rfl : a = x := hya.symm.trans hyx
        rw [hb, Option.some.injEq] at ho
        exact hne (ho ▸ hlast)
      · rcases List.mem_append.mp hc with hc | hc
        · exact hlisted c hc
        · exact ⟨y, List.mem_singleton.mp hc ▸ hy⟩

theorem endPosition_ok [Scalar α] (h : ws.Coherent) (hy : ws.connections[own]? = some y) :
    ∃ place, ws.endPosition own = .ok place := by
  obtain ⟨b, hb, -⟩ := h.owned own y hy
  simp only [endPosition, connection_eq_ok.mpr hy, block_eq_ok.mpr hb, bind, Except.bind, pure,
    Except.pure]
  exact ⟨_, rfl⟩

end Coherent

/-! ### The search is a pass over all pairs -/

variable [Scalar α] {radius : α} {delta : Point α}
  {accept : Connection α → ConnectionId → Connection α → Bool}

/-- The candidate that an end of the workspace makes with `own`, however far it is. -/
def partner (ws : Workspace α) (own : ConnectionId) (y : Connection α) (origin : Point α)
    (accept : Connection α → ConnectionId → Connection α → Bool) (id : ConnectionId)
    (z : Connection α) : Option (Candidate α) :=
  if z.kind ≠ y.kind.opposite || z.block = y.block then none
  else
    match ws.blocks[z.block]? with
    | none => none
    | some owner =>
      if accept y id z then some ⟨own, id, origin.distance (owner.position + z.offset)⟩ else none

/-- All candidates with an end of the dragged block, in the order of the workspace. -/
def partners (ws : Workspace α) (delta : Point α)
    (accept : Connection α → ConnectionId → Connection α → Bool) (own : ConnectionId) :
    List (Candidate α) :=
  match ws.connections[own]?, ws.endPosition own with
  | some y, .ok place =>
    ws.connections.toList.filterMap fun p => ws.partner own y (place + delta) accept p.1 p.2
  | _, _ => []

theorem partner_eq_some {origin : Point α} {id : ConnectionId} {z : Connection α}
    {c : Candidate α} : ws.partner own y origin accept id z = some c ↔
      z.kind = y.kind.opposite ∧ z.block ≠ y.block ∧ accept y id z ∧ ∃ owner,
        ws.blocks[z.block]? = some owner ∧
        c = ⟨own, id, origin.distance (owner.position + z.offset)⟩ := by
  unfold partner
  split
  · next h =>
    rw [Bool.or_eq_true, decide_eq_true_eq, decide_eq_true_eq] at h
    refine ⟨nofun, fun ⟨hk, hb, _⟩ => ?_⟩
    exact absurd hk (h.resolve_right hb)
  · next h =>
    rw [Bool.or_eq_true, decide_eq_true_eq, decide_eq_true_eq, not_or, not_not] at h
    cases ws.blocks[z.block]? with
    | none => exact ⟨nofun, fun ⟨_, _, _, o, ho, _⟩ => nomatch ho⟩
    | some owner =>
      dsimp only
      split
      · next ha =>
        refine ⟨fun hc => ⟨h.1, h.2, ha, owner, rfl, (Option.some.inj hc).symm⟩, ?_⟩
        rintro ⟨-, -, -, o, ho, rfl⟩
        exact congrArg _ (Option.some.inj ho ▸ rfl)
      · next ha => exact ⟨nofun, fun ⟨_, _, h, _⟩ => absurd h ha⟩

/-- A step of the search among the ends of the workspace. -/
theorem nearer_eq (own : ConnectionId) (origin : Point α) (found : Option (Candidate α))
    (id : ConnectionId) (z : Connection α) :
    ws.nearer y origin radius accept (found.map Candidate.hit) id z =
      (match ws.partner own y origin accept id z with
        | some c => Candidate.take radius found c
        | none => found).map Candidate.hit := by
  have hreach : ((found.map Candidate.hit).map (·.2)).getD radius =
      Candidate.reach radius found := by
    rw [Option.map_map]
    rfl
  unfold nearer partner
  rw [hreach]
  split
  · rfl
  · cases ws.blocks[z.block]? with
    | none => rfl
    | some owner =>
      dsimp only
      cases accept y id z with
      | false => simp
      | true =>
        simp only [Bool.and_true, if_true, Candidate.take]
        split <;> rfl

theorem nearest_eq {place : Point α} (hy : ws.connections[own]? = some y)
    (hplace : ws.endPosition own = .ok place) :
    ws.nearest own radius delta accept =
      .ok (((ws.partners delta accept own).foldl (Candidate.take radius) none).map
        Candidate.hit) := by
  have hfold : ∀ (l : List (ConnectionId × Connection α)) (found : Option (Candidate α)),
      l.foldl (fun near p => ws.nearer y (place + delta) radius accept near p.1 p.2)
          (found.map Candidate.hit) =
        ((l.filterMap fun p => ws.partner own y (place + delta) accept p.1 p.2).foldl
          (Candidate.take radius) found).map Candidate.hit := by
    intro l
    induction l with
    | nil => exact fun found => rfl
    | cons p rest ih =>
      intro found
      rw [List.foldl_cons, nearer_eq own, ih, List.filterMap_cons]
      cases ws.partner own y (place + delta) accept p.1 p.2 <;> rfl
  simp only [nearest, partners, connection_eq_ok.mpr hy, hy, hplace, bind, Except.bind, pure,
    Except.pure, Std.ExtTreeMap.foldl_eq_foldl_toList]
  exact congrArg _ (hfold _ none)

/-- The candidates of an end are those that the rules allow, with their distances. -/
theorem Coherent.mem_partners (h : ws.Coherent) (hy : ws.connections[own]? = some y)
    {c : Candidate α} : c ∈ ws.partners delta accept own ↔
      c.own = own ∧ ∃ z, ws.connections[c.neighbour]? = some z ∧ z.kind = y.kind.opposite ∧
        z.block ≠ y.block ∧ accept y c.neighbour z ∧
        ws.candidateDistance c delta = .ok c.distance := by
  obtain ⟨place, hplace⟩ := h.endPosition_ok hy
  have hmem : ∀ {id : ConnectionId} {z : Connection α},
      (id, z) ∈ ws.connections.toList ↔ ws.connections[id]? = some z :=
    Std.ExtTreeMap.mem_toList_iff_getElem?_eq_some
  have hdistance : ∀ {id : ConnectionId} {z : Connection α} {owner : Block α} {d : α},
      ws.connections[id]? = some z → ws.blocks[z.block]? = some owner →
      (ws.candidateDistance ⟨own, id, d⟩ delta = .ok d ↔
        (place + delta).distance (owner.position + z.offset) = d) := by
    intro id z owner d hz ho
    have hend : ws.endPosition id = .ok (owner.position + z.offset) := by
      simp only [endPosition, connection_eq_ok.mpr hz, block_eq_ok.mpr ho, bind, Except.bind, pure,
        Except.pure]
    simp only [candidateDistance, hplace, hend, bind, Except.bind, pure, Except.pure,
      Except.ok.injEq]
  simp only [partners, hy, hplace, List.mem_filterMap, Prod.exists, hmem, partner_eq_some]
  constructor
  · rintro ⟨id, z, hz, hk, hb, ha, owner, ho, rfl⟩
    exact ⟨rfl, z, hz, hk, hb, ha, (hdistance hz ho).mpr rfl⟩
  · obtain ⟨own', neighbour, d⟩ := c
    rintro ⟨rfl, z, hz, hk, hb, ha, hd⟩
    obtain ⟨owner, ho, -⟩ := h.owned neighbour z hz
    exact ⟨neighbour, z, hz, hk, hb, ha, owner, ho, by rw [(hdistance hz ho).mp hd]⟩

/-- For one end of the dragged block the pass goes on over the candidates of that end. -/
theorem Coherent.nearerCandidate_eq (h : ws.Coherent) (hy : ws.connections[own]? = some y)
    (found : Option (Candidate α)) : ws.nearerCandidate radius delta accept found own =
      .ok ((ws.partners delta accept own).foldl (Candidate.take radius) found) := by
  obtain ⟨place, hplace⟩ := h.endPosition_ok hy
  have hfold : (ws.partners delta accept own).foldl (Candidate.take radius) found =
      ((ws.partners delta accept own).foldl (Candidate.take (Candidate.reach radius found))
        none).or found := Candidate.foldl_take_or _ found none
  have hnear : ws.nearest own ((found.map (·.distance)).getD radius) delta accept =
      .ok (((ws.partners delta accept own).foldl
        (Candidate.take (Candidate.reach radius found)) none).map Candidate.hit) :=
    nearest_eq hy hplace
  rw [nearerCandidate, hnear, hfold]
  cases hbest : (ws.partners delta accept own).foldl
      (Candidate.take (Candidate.reach radius found)) none with
  | none => rfl
  | some c =>
    have hmem := (Candidate.foldl_take_mem hbest).resolve_left nofun
    rw [Option.some_or, ← ((h.mem_partners hy).mp hmem).1]
    rfl

/-- The search is a single pass over the candidates of all ends. -/
theorem Coherent.foldlM_nearerCandidate (h : ws.Coherent) {ends : List ConnectionId}
    (hends : ∀ c ∈ ends, ∃ y, ws.connections[c]? = some y) (found : Option (Candidate α)) :
    ends.foldlM (ws.nearerCandidate radius delta accept) found =
      .ok ((ends.flatMap (ws.partners delta accept)).foldl (Candidate.take radius) found) := by
  induction ends generalizing found with
  | nil => rfl
  | cons own rest ih =>
    obtain ⟨y, hy⟩ := hends own List.mem_cons_self
    rw [List.foldlM_cons, h.nearerCandidate_eq hy, List.flatMap_cons, List.foldl_append]
    exact ih (fun c hc => hends c (List.mem_cons_of_mem own hc)) _

/-- The candidates come in the order in which ties are broken. -/
theorem Coherent.pairwise_partners (h : ws.Coherent) {ends : List ConnectionId}
    (hends : ∀ c ∈ ends, ∃ y, ws.connections[c]? = some y) :
    (ends.flatMap (ws.partners delta accept)).Pairwise (Candidate.Before ends) := by
  have hown : ∀ own ∈ ends, ∀ c ∈ ws.partners delta accept own, c.own = own := by
    intro own ho c hc
    obtain ⟨y, hy⟩ := hends own ho
    exact ((h.mem_partners hy).mp hc).1
  refine List.pairwise_flatMap.mpr ⟨fun own ho => ?_, ?_⟩
  · obtain ⟨y, hy⟩ := hends own ho
    obtain ⟨place, hplace⟩ := h.endPosition_ok hy
    simp only [partners, hy, hplace]
    refine List.pairwise_filterMap.mpr ?_
    refine Std.ExtTreeMap.ordered_keys_toList.imp ?_
    intro p q hpq c hc d hd
    obtain ⟨-, -, -, -, -, rfl⟩ := partner_eq_some.mp hc
    obtain ⟨-, -, -, -, -, rfl⟩ := partner_eq_some.mp hd
    exact Or.inr ⟨rfl, hpq⟩
  · refine List.Pairwise.imp_of_mem ?_ (List.pairwise_iff_forall_sublist.mpr fun {a b} h => h)
    intro a b ha hb hab c hc d hd
    refine Or.inl ?_
    rw [hown a ha c hc, hown b hb d hd]
    exact hab

/-! ### What is found -/

/-- A pair of ends that a drag by `delta` can find: an end that a drop could use, and an end of
another block that goes with it, may be offered to it, and is no farther than is looked. -/
def Reaches (ws : Workspace α) (x : BlockId) (holding : Bool) (delta : Point α)
    (c : Candidate α) : Prop :=
  ∃ b dragged ends y z, ws.blocks[x]? = some b ∧ ws.descendants x = .ok dragged ∧
    ws.dragEnds x = .ok ends ∧ c.own ∈ ends ∧ ws.connections[c.own]? = some y ∧
    ws.connections[c.neighbour]? = some z ∧ z.kind = y.kind.opposite ∧ z.block ≠ y.block ∧
    ws.Live z.block ∧ ws.offers dragged b.next.isSome y c.neighbour z ∧
    ws.candidateDistance c delta = .ok c.distance ∧
    Scalar.le c.distance (if holding then ws.config.connectingRadius else ws.config.snapRadius)

/-- The pass is over the pairs that are reached, and over those that are too far away. -/
theorem Coherent.reaches_iff (h : ws.Coherent) {dragged : List BlockId} {ends : List ConnectionId}
    (hb : ws.blocks[x]? = some b) (hdragged : ws.descendants x = .ok dragged)
    (hends : ws.dragEnds x = .ok ends) (hlisted : ∀ c ∈ ends, ∃ y, ws.connections[c]? = some y)
    {holding : Bool} {c : Candidate α} : ws.Reaches x holding delta c ↔
      c ∈ ends.flatMap (ws.partners delta (ws.offers dragged b.next.isSome)) ∧
        Scalar.le c.distance
          (if holding then ws.config.connectingRadius else ws.config.snapRadius) := by
  rw [List.mem_flatMap]
  constructor
  · rintro ⟨b', dragged', ends', y, z, hb', hdragged', hends', hown, hy, hz, hk, hne, -, haccept,
      hd, hnear⟩
    rw [hb, Option.some.injEq] at hb'
    rw [hdragged, Except.ok.injEq] at hdragged'
    rw [hends, Except.ok.injEq] at hends'
    subst hb' hdragged' hends'
    exact ⟨⟨c.own, hown, (h.mem_partners hy).mpr ⟨rfl, z, hz, hk, hne, haccept, hd⟩⟩, hnear⟩
  · rintro ⟨⟨own, hown, hc⟩, hnear⟩
    obtain ⟨y, hy⟩ := hlisted own hown
    obtain ⟨rfl, z, hz, hk, hne, haccept, hd⟩ := (h.mem_partners hy).mp hc
    obtain ⟨o, ho, -⟩ := h.owned c.neighbour z hz
    exact ⟨b, dragged, ends, y, z, hb, hdragged, hends, hown, hy, hz, hk, hne, ⟨o, ho⟩, haccept, hd,
      hnear⟩

/-- The search misses nothing: it finds the nearest pair, and of pairs that are equally near the
one whose own end is the last, with the last neighbour. -/
theorem Coherent.bestCandidate_last [Scalar.Ordered α] (h : ws.Coherent) (hl : ws.Live x)
    (holding : Bool) (delta : Point α) : ∃ ends found, ws.dragEnds x = .ok ends ∧ ends.Nodup ∧
      ws.bestCandidate x holding delta = .ok found ∧
      (found = none ↔ ∀ c, ¬ ws.Reaches x holding delta c) ∧
      ∀ best, found = some best → ws.Reaches x holding delta best ∧
        ∀ c, ws.Reaches x holding delta c → Scalar.le best.distance c.distance ∧
          (Scalar.le c.distance best.distance → c ≠ best → c.Before ends best) := by
  obtain ⟨b, hb⟩ := hl
  obtain ⟨walked, hwalked⟩ := h.descendantsFrom_ok ws.walkBound [] ⟨b, hb⟩
  have hdragged : ws.descendants x = .ok walked.reverse := by
    simp only [descendants, hwalked, bind, Except.bind, pure, Except.pure]
  obtain ⟨ends, hends, hnodup, hlisted⟩ := h.dragEnds_ok hb
  set radius := if holding then ws.config.connectingRadius else ws.config.snapRadius
  set all := ends.flatMap (ws.partners delta (ws.offers walked.reverse b.next.isSome)) with hall
  have hreaches : ∀ c, ws.Reaches x holding delta c ↔ c ∈ all ∧ Scalar.le c.distance radius :=
    fun c => h.reaches_iff hb hdragged hends hlisted
  have hsearch : ws.bestCandidate x holding delta =
      .ok (all.foldl (Candidate.take radius) none) := by
    rw [hall, ← h.foldlM_nearerCandidate hlisted]
    simp only [bestCandidate, hdragged, block_eq_ok.mpr hb, hends, bind, Except.bind]
    rfl
  obtain ⟨hnone, hsome⟩ := Candidate.foldl_take radius all
  have hmem : ∀ {best}, all.foldl (Candidate.take radius) none = some best → best ∈ all :=
    fun hbest => (Candidate.foldl_take_mem hbest).resolve_left (by simp)
  refine ⟨ends, _, hends, hnodup, hsearch, ⟨fun hempty c hc => ?_, fun hfar => ?_⟩,
    fun best hbest => ⟨?_, fun c hc => ?_⟩⟩
  · obtain ⟨hc, hnear⟩ := (hreaches c).mp hc
    exact hnone hempty c hc hnear
  · cases hbest : all.foldl (Candidate.take radius) none with
    | none => rfl
    | some best =>
      exact absurd ((hreaches best).mpr ⟨hmem hbest, (hsome best hbest).within⟩) (hfar best)
  · exact (hreaches best).mpr ⟨hmem hbest, (hsome best hbest).within⟩
  · obtain ⟨hc, hnear⟩ := (hreaches c).mp hc
    exact ⟨(hsome best hbest).nearest hc hnear, fun htie hne =>
      (hsome best hbest).before (h.pairwise_partners hlisted) hc hne hnear htie⟩

end Workspace

namespace Editor

open Workspace

/-- A number is carried over two statements that lie in one place. The one made last takes it. -/
theorem bestCandidate_last_number :
    let ws := ((fresh (.standard : EditorConfig Int) Palette.registry).run
      [.newBlock "int", .newBlock "Return", .newBlock "Return"]).workspace
    (ws.bestCandidate ⟨0⟩ false ⟨40, 0⟩).toOption = some (some ⟨⟨0⟩, ⟨4⟩, 0⟩) ∧
      ∀ c, ws.Reaches ⟨0⟩ false ⟨40, 0⟩ c → 0 ≤ c.distance ∧
        (c.distance ≤ 0 → c ≠ ⟨⟨0⟩, ⟨4⟩, 0⟩ → c.Before [⟨0⟩] ⟨⟨0⟩, ⟨4⟩, 0⟩) := by
  intro ws
  have hnumber : (ws.bestCandidate ⟨0⟩ false ⟨40, 0⟩).toOption = some (some ⟨⟨0⟩, ⟨4⟩, 0⟩) := by
    decide +kernel
  have hends : (ws.dragEnds ⟨0⟩).toOption = some [⟨0⟩] := by decide +kernel
  have hlive : ws.Live ⟨0⟩ := hasBlock_iff.mp (by decide +kernel)
  have hsound : ws.Sound ∧ ws.Topped := run_sound Palette.registry_onePlug
    (create_fresh (by decide)) (by decide +kernel) (staysAcyclic_of_ordered (by decide +kernel))
  obtain ⟨ends, found, hends', -, hfound, -, hbest⟩ :=
    (hsound.1.coherent hsound.2).bestCandidate_last hlive false ⟨40, 0⟩
  rw [hends', Except.toOption, Option.some.injEq] at hends
  have hsome : found = some ⟨⟨0⟩, ⟨4⟩, 0⟩ := by
    rw [hfound, Except.toOption, Option.some.injEq] at hnumber
    exact hnumber
  refine ⟨hnumber, fun c hc => ?_⟩
  obtain ⟨hle, hbefore⟩ := (hbest _ hsome).2 c hc
  rw [hends] at hbefore
  exact ⟨of_decide_eq_true hle, fun htie => hbefore (decide_eq_true htie)⟩

end Editor

end BlockEditor
