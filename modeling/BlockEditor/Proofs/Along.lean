import BlockEditor.Proofs.Leads
import Mathlib.Order.Defs.Unbundled

/-!
# What holds between the start and the end of a step

A relation between states that is reflexive and transitive holds along a step, refused or not, if it
holds along each of the steps that it is put together from. The rules are found by the shape of the
step.
-/

namespace BlockEditor

variable {β γ ε σ : Type}

/-- The state that a step ends in, refused or not. -/
def ended : EStateM.Result ε σ β → σ
  | .ok _ t => t
  | .error _ t => t

namespace Leads

variable [Numbered σ] {P : σ → Prop} {Q : β → σ → Prop} {E : σ → Prop} {m : EStateM ε σ β} {s : σ}

theorem lasts_of_ended (h : Leads P m Q E) (hlast : Lasts (ended (m s))) : Lasts s := by
  have hstep := h s
  cases hm : m s with
  | ok a t =>
    rw [hm] at hstep hlast
    exact (hstep hlast).1
  | error e t =>
    rw [hm] at hstep hlast
    exact (hstep hlast).1

/-- A step that cannot be refused is carried out. -/
theorem carried_out (h : Leads P m Q E) (hE : ∀ t, ¬ E t) (hs : P s) (hlast : Lasts (ended (m s))) :
    ∃ a t, m s = .ok a t ∧ Q a t := by
  have hstep := h s
  cases hm : m s with
  | ok a t =>
    rw [hm] at hstep hlast
    exact ⟨a, t, rfl, (hstep hlast).2 hs⟩
  | error e t =>
    rw [hm] at hstep hlast
    exact (hE t ((hstep hlast).2 hs)).elim

end Leads

/-- What was and what is after the step are related, whether it is refused or not. -/
class Along (R : σ → σ → Prop) [IsPreorder σ R] (m : EStateM ε σ β) : Prop where
  along : ∀ s, R s (ended (m s))

namespace Along

variable {R : σ → σ → Prop} [IsPreorder σ R]

theorem ok {m : EStateM ε σ β} {s t : σ} {a : β} (h : Along R m) (hm : m s = .ok a t) : R s t := by
  have hs := h.along s
  rwa [hm] at hs

theorem error {m : EStateM ε σ β} {s t : σ} {e : ε} (h : Along R m) (hm : m s = .error e t) :
    R s t := by
  have hs := h.along s
  rwa [hm] at hs

theorem mono {R' : σ → σ → Prop} [IsPreorder σ R'] {m : EStateM ε σ β} (h : Along R m)
    (hR : ∀ s t, R s t → R' s t) : Along R' m :=
  ⟨fun s => hR _ _ (h.along s)⟩

instance (a : β) : Along R (Pure.pure a : EStateM ε σ β) :=
  ⟨refl_of R⟩

instance (e : ε) : Along R (throw e : EStateM ε σ β) :=
  ⟨refl_of R⟩

instance : Along R (get : EStateM ε σ σ) :=
  ⟨refl_of R⟩

theorem get_bind {f : σ → EStateM ε σ β} (h : ∀ s, R s (ended (f s s))) : Along R (get >>= f) :=
  ⟨h⟩

theorem modify {f : σ → σ} (h : ∀ s, R s (f s)) : Along R (modify f : EStateM ε σ PUnit) :=
  ⟨h⟩

theorem bind {m : EStateM ε σ β} {f : β → EStateM ε σ γ} (h : Along R m)
    (hf : ∀ a, Along R (f a)) : Along R (m >>= f) := by
  constructor
  intro s
  cases hm : m s with
  | ok a t =>
    rw [bind_eq hm]
    exact trans_of R (h.ok hm) ((hf a).along t)
  | error e t =>
    rw [bind_error hm]
    exact h.error hm

instance {m : EStateM ε σ β} {f : β → EStateM ε σ γ} [Along R m] [∀ a, Along R (f a)] :
    Along R (m >>= f) :=
  bind inferInstance inferInstance

instance {p : Prop} [Decidable p] {m m' : EStateM ε σ β} [Along R m] [Along R m'] :
    Along R (if p then m else m') := by
  split <;> infer_instance

/-- A step that may be left out. -/
theorem optional {c : Prop} [Decidable c] {m : EStateM ε σ PUnit} {f : PUnit → EStateM ε σ β}
    (h : Along R m) (hf : ∀ a, Along R (f a)) : Along R (if c then m >>= f else f ⟨⟩) := by
  split
  · exact .bind h hf
  · exact hf ⟨⟩

instance {m : EStateM ε σ β} {handler : ε → EStateM ε σ β} [h : Along R m]
    [hh : ∀ e, Along R (handler e)] : Along R (tryCatch m handler) := by
  constructor
  intro s
  cases hm : m s with
  | ok a t =>
    rw [tryCatch_ok hm]
    exact h.ok hm
  | error e t =>
    rw [tryCatch_error hm]
    exact trans_of R (h.error hm) ((hh e).along t)

instance {f : β → EStateM ε σ PUnit} [∀ a, Along R (f a)] (o : Option β) : Along R (o.forM f) := by
  cases o with
  | none => exact inferInstanceAs (Along R (Pure.pure ()))
  | some a => exact inferInstanceAs (Along R (f a))

theorem forM {f : β → EStateM ε σ PUnit} {l : List β} (h : ∀ a, Along R (f a)) :
    Along R (l.forM f) := by
  induction l with
  | nil => exact inferInstanceAs (Along R (Pure.pure PUnit.unit))
  | cons a rest ih => exact .bind (h a) fun _ => ih

instance {f : β → EStateM ε σ PUnit} [∀ a, Along R (f a)] (l : List β) : Along R (l.forM f) :=
  forM inferInstance

instance {f : β → EStateM ε σ γ} [∀ a, Along R (f a)] (l : List β) : Along R (l.mapM f) := by
  induction l with
  | nil =>
    rw [List.mapM_nil]
    infer_instance
  | cons a rest ih =>
    rw [List.mapM_cons]
    infer_instance

instance {f : γ → β → EStateM ε σ γ} [∀ c a, Along R (f c a)] (c : γ) (l : List β) :
    Along R (l.foldlM f c) := by
  induction l generalizing c with
  | nil => exact inferInstanceAs (Along R (Pure.pure c))
  | cons a rest ih =>
    rw [List.foldlM_cons]
    infer_instance

end Along

end BlockEditor
