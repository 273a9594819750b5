import BlockEditor.Container.Templates
import Mathlib.Data.List.Nodup

/-!
# The plan of a container

The inputs that a container of a number of units has, in order. The names of the slots differ from
each other and from the names of the other inputs, so that a name leads to one place in the plan.
-/

namespace BlockEditor.Container

variable {kind : ContainerKind} {spec : ContainerTemplate} {stem stem' : String}
  {p p' old new m n : Nat} {t : InputTemplate}

/-- What stands before the closing mark. -/
def body (spec : ContainerTemplate) (n : Nat) : List InputTemplate :=
  head spec ++ slotsAfter spec.kind 0 n

def plan (spec : ContainerTemplate) (n : Nat) : List InputTemplate :=
  body spec n ++ [closing spec, controls n]

/-! ### Names of slots -/

theorem toList_slotName (stem : String) (p : Nat) : (slotName stem p).toList =
    stem.toList ++ '_' ::
      (List.replicate (6 - (Nat.toDigits 10 p).length) '0' ++ Nat.toDigits 10 p) := by
  simp [slotName, String.toList_append]

theorem ofDigitChars_zeros (k : Nat) (l : List Char) :
    Nat.ofDigitChars 10 (List.replicate k '0' ++ l) 0 = Nat.ofDigitChars 10 l 0 := by
  induction k with
  | zero => rfl
  | succ k ih =>
    rw [List.replicate_succ, List.cons_append, ← ih]
    rfl

theorem takeWhile_stem (h : '_' ∉ stem.toList) (l : List Char) :
    (stem.toList ++ '_' :: l).takeWhile (· ≠ '_') = stem.toList := by
  rw [List.takeWhile_append_of_pos]
  · simp
  · intro c hc
    have hne : c ≠ '_' := fun h' => h (h' ▸ hc)
    simpa using hne

theorem slotName_inj (h : '_' ∉ stem.toList) (h' : '_' ∉ stem'.toList)
    (he : slotName stem p = slotName stem' p') : stem = stem' ∧ p = p' := by
  have hl := congrArg String.toList he
  rw [toList_slotName, toList_slotName] at hl
  have hstem : stem.toList = stem'.toList := by
    rw [← takeWhile_stem h, hl, takeWhile_stem h']
  rw [hstem] at hl
  have hdigits := (List.cons.inj (List.append_cancel_left hl)).2
  have hp := congrArg (fun l => Nat.ofDigitChars 10 l 0) hdigits
  simp only [ofDigitChars_zeros, Nat.ofDigitChars_ten_toDigits] at hp
  exact ⟨String.toList_injective hstem, hp⟩

/-- Stems are words that begin with `t` or `i`. -/
theorem stem_spec (h : stem ∈ kind.stems) : '_' ∉ stem.toList ∧
    ∃ c l, stem.toList = c :: l ∧ (c = 't' ∨ c = 'i') := by
  have hall : stem = "target" ∨ stem = "iter" ∨ stem = "if" ∨ stem = "input" := by
    cases kind with
    | comprehension hasCondition =>
      cases hasCondition <;> simp [ContainerKind.stems] at h <;> tauto
    | _ => simp [ContainerKind.stems] at h; tauto
  rcases hall with rfl | rfl | rfl | rfl
  · exact ⟨by decide, 't', _, rfl, Or.inl rfl⟩
  · exact ⟨by decide, 'i', _, rfl, Or.inr rfl⟩
  · exact ⟨by decide, 'i', _, rfl, Or.inr rfl⟩
  · exact ⟨by decide, 'i', _, rfl, Or.inr rfl⟩

theorem nodup_stems (kind : ContainerKind) : kind.stems.Nodup := by
  cases kind with
  | comprehension hasCondition => cases hasCondition <;> decide
  | _ => decide

theorem stems_eq (kind : ContainerKind) : ∃ rest, kind.stems = kind.firstStem :: rest := by
  cases kind with
  | comprehension hasCondition => cases hasCondition <;> exact ⟨_, rfl⟩
  | _ => exact ⟨_, rfl⟩

theorem slotName_ne_of_head {name : String} {c : Char} {l : List Char} (h : stem ∈ kind.stems)
    (hname : name.toList = c :: l) (hc : c ≠ 't' ∧ c ≠ 'i') : slotName stem p ≠ name := by
  intro he
  obtain ⟨-, d, l', hd, hd'⟩ := stem_spec h
  have hl := congrArg String.toList he
  rw [toList_slotName, hd, hname] at hl
  have hdc : d = c := (List.cons.inj hl).1
  rcases hd' with rfl | rfl
  · exact hc.1 hdc.symm
  · exact hc.2 hdc.symm

/-! ### Slots -/

theorem mem_slotsAfter : t ∈ slotsAfter kind old new ↔
    ∃ p stem, old < p ∧ p ≤ new ∧ stem ∈ kind.stems ∧ t = slot kind p stem := by
  simp only [slotsAfter, unitSlots, List.mem_flatMap, List.mem_range'_1, List.mem_map]
  constructor
  · rintro ⟨p, hp, stem, hstem, rfl⟩
    exact ⟨p, stem, by omega, by omega, hstem, rfl⟩
  · rintro ⟨p, stem, hlo, hhi, hstem, rfl⟩
    exact ⟨p, by omega, stem, hstem, rfl⟩

theorem slotsAfter_append (h : old ≤ m) (h' : m ≤ new) :
    slotsAfter kind old m ++ slotsAfter kind m new = slotsAfter kind old new := by
  have hrange : List.range' (old + 1) (m - old) ++ List.range' (m + 1) (new - m) =
      List.range' (old + 1) (new - old) := by
    rw [show m + 1 = old + 1 + 1 * (m - old) by omega, List.range'_append]
    congr 1
    omega
  rw [slotsAfter, slotsAfter, ← List.flatMap_append, hrange, slotsAfter]

theorem body_append (h : old ≤ new) :
    body spec old ++ slotsAfter spec.kind old new = body spec new := by
  rw [body, List.append_assoc, slotsAfter_append (Nat.zero_le old) h, body]

theorem body_zero (spec : ContainerTemplate) : body spec 0 = head spec := by
  simp [body, slotsAfter]

theorem slotsAfter_cons (kind : ContainerKind) (h : m < n) :
    ∃ rest, slotsAfter kind m n = slot kind (m + 1) kind.firstStem :: rest := by
  obtain ⟨rest, hrest⟩ := stems_eq kind
  obtain ⟨k, hk⟩ : ∃ k, n - m = k + 1 := ⟨n - m - 1, by omega⟩
  rw [slotsAfter, hk, List.range'_succ, List.flatMap_cons, unitSlots, hrest]
  exact ⟨_, rfl⟩

theorem mem_head (h : t ∈ head spec) : t.name = openInput ∨ t.name = elementInput := by
  unfold head at h
  rcases List.mem_cons.mp h with rfl | h
  · exact Or.inl rfl
  · split at h
    · rw [List.mem_singleton.mp h]
      exact Or.inr rfl
    · cases h

/-- Each input of the body is named after its place. -/
theorem mem_body (h : t ∈ body spec n) : t.name = openInput ∨ t.name = elementInput ∨
    ∃ p stem, 0 < p ∧ p ≤ n ∧ stem ∈ spec.kind.stems ∧ t.name = slotName stem p := by
  rcases List.mem_append.mp h with h | h
  · exact (mem_head h).imp_right Or.inl
  · obtain ⟨p, stem, hlo, hhi, hstem, rfl⟩ := mem_slotsAfter.mp h
    exact Or.inr (Or.inr ⟨p, stem, hlo, hhi, hstem, rfl⟩)

theorem body_name_ne {name : String} {c : Char} {l : List Char} (h : t ∈ body spec n)
    (hname : name.toList = c :: l) (hc : c ≠ 't' ∧ c ≠ 'i') (ho : name ≠ openInput)
    (he : name ≠ elementInput) : t.name ≠ name := by
  rcases mem_body h with h | h | ⟨p, stem, -, -, hstem, h⟩
  · rw [h]
    exact ho.symm
  · rw [h]
    exact he.symm
  · rw [h]
    exact slotName_ne_of_head hstem hname hc

theorem body_ne_controls (h : t ∈ body spec n) : t.name ≠ controlsInput :=
  body_name_ne h (c := 'c') rfl (by decide) (by decide) (by decide)

theorem body_ne_close (h : t ∈ body spec n) : t.name ≠ closeInput :=
  body_name_ne h (c := 'c') rfl (by decide) (by decide) (by decide)

/-! ### Taking the plan apart -/

theorem erase_last {name : String} {l : List InputTemplate} (h : ∀ t ∈ l, t.name ≠ name)
    (ht : t.name = name) : (l ++ [t]).eraseP (·.name = name) = l := by
  rw [List.eraseP_append_right]
  · simp [ht]
  · simpa using h

theorem erase_none {name : String} {l : List InputTemplate} (h : ∀ t ∈ l, t.name ≠ name) :
    l.eraseP (·.name = name) = l :=
  List.eraseP_of_forall_not (by simpa using h)

theorem plan_erase_controls (spec : ContainerTemplate) (n : Nat) :
    (plan spec n).eraseP (·.name = controlsInput) = body spec n ++ [closing spec] := by
  have hl : plan spec n = (body spec n ++ [closing spec]) ++ [controls n] := by simp [plan]
  rw [hl]
  refine erase_last (fun t ht => ?_) rfl
  rcases List.mem_append.mp ht with ht | ht
  · exact body_ne_controls ht
  · rw [List.mem_singleton.mp ht]
    exact (by decide : closeInput ≠ controlsInput)

theorem body_closing_erase_controls (spec : ContainerTemplate) (n : Nat) :
    (body spec n ++ [closing spec]).eraseP (·.name = controlsInput) = body spec n ++ [closing spec] := by
  refine erase_none fun t ht => ?_
  rcases List.mem_append.mp ht with ht | ht
  · exact body_ne_controls ht
  · rw [List.mem_singleton.mp ht]
    exact (by decide : closeInput ≠ controlsInput)

/-- Without the closing mark and the controls, if they are there, only the body is left. -/
theorem erase_marks {l : List InputTemplate} (h : l = plan spec n ∨ n = 0 ∧ l = head spec) :
    (l.eraseP (·.name = controlsInput)).eraseP (·.name = closeInput) = body spec n := by
  rcases h with rfl | ⟨rfl, rfl⟩
  · rw [plan_erase_controls]
    exact erase_last (fun t ht => body_ne_close ht) rfl
  · rw [← body_zero, erase_none fun t ht => body_ne_controls ht]
    exact erase_none fun t ht => body_ne_close ht

/-- The first slot of the unit after `m` ones stands where a body of `m` units ends. -/
theorem findIdx?_body (h : m < n) :
    (body spec n).findIdx? (·.name = slotName spec.kind.firstStem (m + 1)) =
      some (body spec m).length := by
  obtain ⟨rest, hrest⟩ := slotsAfter_cons spec.kind h
  have hfirst : spec.kind.firstStem ∈ spec.kind.stems := by
    obtain ⟨l, hl⟩ := stems_eq spec.kind
    rw [hl]
    exact List.mem_cons_self
  have hnone : (body spec m).findIdx? (·.name = slotName spec.kind.firstStem (m + 1)) = none := by
    rw [List.findIdx?_eq_none_iff]
    intro t ht
    have hne : t.name ≠ slotName spec.kind.firstStem (m + 1) := by
      rcases mem_body ht with h | h | ⟨p, stem, -, hp, hstem, h⟩
      · rw [h]
        exact (slotName_ne_of_head hfirst (c := 'o') rfl (by decide)).symm
      · rw [h]
        exact (slotName_ne_of_head hfirst (c := 'e') rfl (by decide)).symm
      · rw [h]
        intro he
        have := (slotName_inj (stem_spec hstem).1 (stem_spec hfirst).1 he).2
        omega
    simpa using hne
  rw [← body_append (Nat.le_of_lt h), List.findIdx?_append, hnone, hrest, List.findIdx?_cons]
  simp [slot]

theorem take_body (h : m ≤ n) : (body spec n).take (body spec m).length = body spec m := by
  rw [← body_append h, List.take_left]

/-- All names in a plan are distinct. -/
theorem nodup_names_plan (spec : ContainerTemplate) (n : Nat) :
    ((plan spec n).map (·.name)).Nodup := by
  have hslots : ((slotsAfter spec.kind 0 n).map (·.name)).Nodup := by
    rw [slotsAfter, List.map_flatMap, List.nodup_flatMap]
    constructor
    · intro p _
      rw [unitSlots, List.map_map]
      refine (nodup_stems spec.kind).map_on fun a ha b hb he => ?_
      exact (slotName_inj (stem_spec ha).1 (stem_spec hb).1 he).1
    · refine List.Pairwise.imp_of_mem ?_ List.nodup_range'
      intro p q _ _ hne a ha hb
      simp only [unitSlots, List.map_map, List.mem_map, Function.comp_apply] at ha hb
      obtain ⟨stem, hstem, rfl⟩ := ha
      obtain ⟨stem', hstem', he⟩ := hb
      exact hne (slotName_inj (stem_spec hstem').1 (stem_spec hstem).1 he).2.symm
  have hhead : ((head spec).map (·.name)).Nodup := by
    unfold head
    split <;> simp [opening, mark, element, openInput, elementInput]
  have hbody : ((body spec n).map (·.name)).Nodup := by
    rw [body, List.map_append, List.nodup_append]
    refine ⟨hhead, hslots, ?_⟩
    intro a ha b hb
    obtain ⟨t, ht, rfl⟩ := List.mem_map.mp ha
    obtain ⟨u, hu, rfl⟩ := List.mem_map.mp hb
    obtain ⟨p, stem, -, -, hstem, rfl⟩ := mem_slotsAfter.mp hu
    rcases mem_head ht with h | h
    · rw [h]
      exact (slotName_ne_of_head hstem (c := 'o') rfl (by decide)).symm
    · rw [h]
      exact (slotName_ne_of_head hstem (c := 'e') rfl (by decide)).symm
  rw [plan, List.map_append, List.nodup_append]
  refine ⟨hbody, by simp [closing, controls, mark, closeInput, controlsInput], ?_⟩
  intro a ha b hb
  obtain ⟨t, ht, rfl⟩ := List.mem_map.mp ha
  have hcases : b = closeInput ∨ b = controlsInput := by
    simpa [closing, controls, mark] using hb
  rcases hcases with rfl | rfl
  · exact body_ne_close ht
  · exact body_ne_controls ht

end BlockEditor.Container
