import BlockEditor.Editor.Basic
import Mathlib.Algebra.Group.Nat.Defs

/-!
# Reasoning about steps

A step of a workspace or of an editor may be refused halfway, and it may hand out ids. What is
said about it here holds whether it is refused or not, and as long as the ids are distinct words.
The rules follow the way in which steps are put together.
-/

namespace BlockEditor

/-- As many ids have been handed out as there are words for, at most. -/
def IdSupply.Lasts (s : IdSupply) : Prop :=
  s.blocks ≤ 2 ^ 32 ∧ s.connections ≤ 2 ^ 32

instance (s : IdSupply) : Decidable s.Lasts :=
  inferInstanceAs (Decidable (_ ∧ _))

/-- States that hand out ids. -/
class Numbered (σ : Type) where
  supply : σ → IdSupply

def Lasts {σ : Type} [Numbered σ] (s : σ) : Prop :=
  (Numbered.supply s).Lasts

instance {σ : Type} [Numbered σ] (s : σ) : Decidable (Lasts s) :=
  inferInstanceAs (Decidable (Numbered.supply s).Lasts)

instance {α : Type} : Numbered (Workspace α) := ⟨fun ws => ws.ids⟩

instance {α : Type} : Numbered (Editor α) := ⟨fun e => e.workspace.ids⟩

theorem lasts_workspace {α : Type} {ws : Workspace α} : Lasts ws ↔ ws.ids.Lasts :=
  Iff.rfl

theorem lasts_editor {α : Type} {e : Editor α} : Lasts e ↔ e.workspace.ids.Lasts :=
  Iff.rfl

section Caught

variable {ε σ β : Type} {m : EStateM ε σ β} {handler : ε → EStateM ε σ β} {s t : σ}

theorem tryCatch_ok {a : β} (h : m s = .ok a t) : tryCatch m handler s = .ok a t := by
  change EStateM.tryCatch m handler s = _
  delta EStateM.tryCatch
  rw [h]

theorem tryCatch_error {e : ε} (h : m s = .error e t) : tryCatch m handler s = handler e t := by
  change EStateM.tryCatch m handler s = _
  delta EStateM.tryCatch
  rw [h]
  rfl

end Caught

section Rules

/-- Once the first step is done, what is left is the second one. -/
theorem bind_eq {ε σ β γ : Type} {m : EStateM ε σ β} {f : β → EStateM ε σ γ} {s t : σ} {a : β}
    (h : m s = .ok a t) : (m >>= f) s = f a t := by
  change EStateM.bind m f s = _
  rw [EStateM.bind, h]

/-- If two steps are carried out, then so is each of them. -/
theorem bind_ok {ε σ β γ : Type} {m : EStateM ε σ β} {f : β → EStateM ε σ γ} {s t : σ} {c : γ}
    (h : (m >>= f) s = .ok c t) : ∃ a u, m s = .ok a u ∧ f a u = .ok c t := by
  change EStateM.bind m f s = _ at h
  unfold EStateM.bind at h
  cases hm : m s with
  | ok a u =>
    rw [hm] at h
    exact ⟨a, u, rfl, h⟩
  | error err u =>
    rw [hm] at h
    cases h

/-- If the first step is refused, then nothing more is done. -/
theorem bind_error {ε σ β γ : Type} {m : EStateM ε σ β} {f : β → EStateM ε σ γ} {s t : σ} {e : ε}
    (h : m s = .error e t) : (m >>= f) s = .error e t := by
  change EStateM.bind m f s = _
  rw [EStateM.bind, h]

variable {ε σ β γ : Type} [Numbered σ]

/-- As long as the ids last, the step leads from `P` to `Q`, or it is refused, and `E` holds of the
refusal and of the state that is left. -/
def Tells (P : σ → Prop) (m : EStateM ε σ β) (Q : β → σ → Prop) (E : ε → σ → Prop) : Prop :=
  ∀ s, match m s with
    | .ok a t => Lasts t → Lasts s ∧ (P s → Q a t)
    | .error e t => Lasts t → Lasts s ∧ (P s → E e t)

/-- As long as the ids last, the step leads from `P` to `Q`, or it is refused in `E`. -/
def Leads (P : σ → Prop) (m : EStateM ε σ β) (Q : β → σ → Prop) (E : σ → Prop) : Prop :=
  Tells P m Q fun _ => E

/-- The step keeps `P`, whether it is refused or not. -/
abbrev Keeps (P : σ → Prop) (m : EStateM ε σ β) : Prop :=
  Leads P m (fun _ => P) P

namespace Tells

variable {P P' : σ → Prop} {Q Q' : β → σ → Prop} {R : γ → σ → Prop} {E E' : ε → σ → Prop}
variable {m : EStateM ε σ β}

theorem weaken (h : Tells P m Q E) (hP : ∀ s, P' s → P s) (hQ : ∀ a s, Q a s → Q' a s)
    (hE : ∀ e s, E e s → E' e s) : Tells P' m Q' E' := by
  intro s
  have hs := h s
  cases hm : m s with
  | ok a t =>
    rw [hm] at hs
    exact fun ht => ⟨(hs ht).1, fun hp => hQ a t ((hs ht).2 (hP s hp))⟩
  | error e t =>
    rw [hm] at hs
    exact fun ht => ⟨(hs ht).1, fun hp => hE e t ((hs ht).2 (hP s hp))⟩

theorem pre (h : Tells P m Q E) (hP : ∀ s, P' s → P s) : Tells P' m Q E :=
  h.weaken hP (fun _ _ q => q) fun _ _ e => e

theorem post (h : Tells P m Q E) (hQ : ∀ a s, Q a s → Q' a s) : Tells P m Q' E :=
  h.weaken (fun _ p => p) hQ fun _ _ e => e

protected theorem bind {f : β → EStateM ε σ γ} (hm : Tells P m Q E)
    (hf : ∀ a, Tells (Q a) (f a) R E) : Tells P (m >>= f) R E := by
  intro s
  have hs := hm s
  change match EStateM.bind m f s with
    | .ok c t => Lasts t → Lasts s ∧ (P s → R c t)
    | .error e t => Lasts t → Lasts s ∧ (P s → E e t)
  cases h : m s with
  | error e t =>
    rw [h] at hs
    simpa only [EStateM.bind, h] using hs
  | ok a t =>
    rw [h] at hs
    have ht := hf a t
    simp only [EStateM.bind, h]
    cases h' : f a t with
    | ok c u =>
      rw [h'] at ht
      exact fun hu => ⟨(hs (ht hu).1).1, fun hp => (ht hu).2 ((hs (ht hu).1).2 hp)⟩
    | error e u =>
      rw [h'] at ht
      exact fun hu => ⟨(hs (ht hu).1).1, fun hp => (ht hu).2 ((hs (ht hu).1).2 hp)⟩

protected theorem ite {c : Prop} [Decidable c] {m' : EStateM ε σ β}
    (h : c → Tells P m Q E) (h' : ¬ c → Tells P m' Q E) : Tells P (if c then m else m') Q E := by
  split
  · exact h ‹_›
  · exact h' ‹_›

protected theorem tryCatch {handler : ε → EStateM ε σ β} (h : Tells P m Q E)
    (h' : ∀ e, Tells (E e) (handler e) Q E') : Tells P (tryCatch m handler) Q E' := by
  intro s
  have hs := h s
  cases hm : m s with
  | ok a t =>
    rw [hm] at hs
    rw [tryCatch_ok hm]
    exact hs
  | error e t =>
    rw [hm] at hs
    rw [tryCatch_error hm]
    have ht := h' e t
    cases h'' : handler e t with
    | ok c u =>
      rw [h''] at ht
      exact fun hu => ⟨(hs (ht hu).1).1, fun hp => (ht hu).2 ((hs (ht hu).1).2 hp)⟩
    | error e u =>
      rw [h''] at ht
      exact fun hu => ⟨(hs (ht hu).1).1, fun hp => (ht hu).2 ((hs (ht hu).1).2 hp)⟩

protected theorem throw {e : ε} (h : ∀ s, P s → E e s) :
    Tells P (MonadExcept.throw e : EStateM ε σ β) Q E :=
  fun s hs => ⟨hs, h s⟩

/-- A step that is never refused has no refusal to tell of. -/
theorem of_leads (h : Leads P m Q fun _ => False) : Tells P m Q E :=
  Tells.weaken h (fun _ p => p) (fun _ _ q => q) fun _ _ h => h.elim

theorem ok (h : Tells P m Q E) {s t : σ} {a : β} (hm : m s = .ok a t) (ht : Lasts t) (hp : P s) :
    Q a t := by
  have hs := h s
  rw [hm] at hs
  exact (hs ht).2 hp

theorem error (h : Tells P m Q E) {s t : σ} {e : ε} (hm : m s = .error e t) (ht : Lasts t)
    (hp : P s) : E e t := by
  have hs := h s
  rw [hm] at hs
  exact (hs ht).2 hp

/-- A step may be carried out, if only it takes back no ids. -/
theorem of_result {P₀ : σ → Prop} {Q₀ : β → σ → Prop} {E₀ : ε → σ → Prop} (base : Tells P₀ m Q₀ E₀)
    (h : ∀ s, P s → match m s with
      | .ok a t => Q a t
      | .error e t => E e t) : Tells P m Q E := by
  intro s
  have hbase := base s
  have hs := h s
  cases hm : m s with
  | ok a t =>
    rw [hm] at hbase hs
    exact fun ht => ⟨(hbase ht).1, hs⟩
  | error e t =>
    rw [hm] at hbase hs
    exact fun ht => ⟨(hbase ht).1, hs⟩

/-- A step may be taken for another one that does the same from where it starts. -/
theorem congr {P₀ : σ → Prop} {Q₀ : β → σ → Prop} {E₀ : ε → σ → Prop} {m' : EStateM ε σ β}
    (base : Tells P₀ m Q₀ E₀) (h : Tells P m' Q E) (hm : ∀ s, P s → m s = m' s) :
    Tells P m Q E := by
  intro s
  have hbase := base s
  by_cases hp : P s
  · rw [hm s hp]
    exact h s
  · cases hms : m s with
    | ok a t =>
      rw [hms] at hbase
      exact fun ht => ⟨(hbase ht).1, fun h => (hp h).elim⟩
    | error e t =>
      rw [hms] at hbase
      exact fun ht => ⟨(hbase ht).1, fun h => (hp h).elim⟩

/-- What a step does is known if its start is. -/
theorem runs {s₀ : σ} (h : Tells (· = s₀) m Q E) :
    Tells (· = s₀) m (fun a t => Q a t ∧ m s₀ = .ok a t) E := by
  intro s
  have hs := h s
  cases hm : m s with
  | ok a t =>
    rw [hm] at hs
    exact fun ht => ⟨(hs ht).1, fun he => ⟨(hs ht).2 he, he ▸ hm⟩⟩
  | error e t =>
    rw [hm] at hs
    exact hs

/-- A step whose first part is known goes on like the rest of it. -/
theorem resume {P₀ : σ → Prop} {Q₀ : β → σ → Prop} {E₀ : ε → σ → Prop} {m' : EStateM ε σ β}
    {s₀ s₁ : σ} (base : Tells P₀ m Q₀ E₀) (hm : m s₀ = m' s₁) (h : Tells (· = s₁) m' Q E) :
    Tells (· = s₀) m Q E := by
  intro s
  have hbase := base s
  have hs := h s₁
  rw [← hm] at hs
  cases hms : m s with
  | ok a t =>
    rw [hms] at hbase
    refine fun ht => ⟨(hbase ht).1, ?_⟩
    rintro rfl
    rw [hms] at hs
    exact (hs ht).2 rfl
  | error e t =>
    rw [hms] at hbase
    refine fun ht => ⟨(hbase ht).1, ?_⟩
    rintro rfl
    rw [hms] at hs
    exact (hs ht).2 rfl

/-- A step may be looked at from each of its starts. -/
theorem fix (h : ∀ s, Tells (fun t => t = s ∧ P s) m Q E) : Tells P m Q E := by
  intro s
  have hs := h s s
  cases hm : m s with
  | ok a t =>
    rw [hm] at hs
    exact fun ht => ⟨(hs ht).1, fun hp => (hs ht).2 ⟨rfl, hp⟩⟩
  | error e t =>
    rw [hm] at hs
    exact fun ht => ⟨(hs ht).1, fun hp => (hs ht).2 ⟨rfl, hp⟩⟩

/-- What does not speak of the state may be assumed. -/
theorem assuming {P₀ : σ → Prop} {Q₀ : β → σ → Prop} {E₀ : ε → σ → Prop} {c : Prop}
    (base : Tells P₀ m Q₀ E₀) (h : c → Tells P m Q E) : Tells (fun s => P s ∧ c) m Q E := by
  by_cases hc : c
  · exact (h hc).pre fun _ hp => hp.1
  · exact of_result base fun _ hp => (hc hp.2).elim

/-- Each start may be looked at for itself, with what is known of it. -/
theorem each {P₀ : σ → Prop} {Q₀ : β → σ → Prop} {E₀ : ε → σ → Prop} (base : Tells P₀ m Q₀ E₀)
    (h : ∀ s, P s → Tells (· = s) m Q E) : Tells P m Q E :=
  Tells.fix fun s => Tells.assuming base (h s)

end Tells

namespace Leads

variable {P P' : σ → Prop} {Q Q' : β → σ → Prop} {R : γ → σ → Prop} {E E' : σ → Prop}
variable {m : EStateM ε σ β}

theorem weaken (h : Leads P m Q E) (hP : ∀ s, P' s → P s) (hQ : ∀ a s, Q a s → Q' a s)
    (hE : ∀ s, E s → E' s) : Leads P' m Q' E' :=
  Tells.weaken h hP hQ fun _ => hE

theorem pre (h : Leads P m Q E) (hP : ∀ s, P' s → P s) : Leads P' m Q E :=
  h.weaken hP (fun _ _ q => q) fun _ e => e

theorem post (h : Leads P m Q E) (hQ : ∀ a s, Q a s → Q' a s) : Leads P m Q' E :=
  h.weaken (fun _ p => p) hQ fun _ e => e

theorem refused (h : Leads P m Q E) (hE : ∀ s, E s → E' s) : Leads P m Q E' :=
  h.weaken (fun _ p => p) (fun _ _ q => q) hE

theorem and (h : Leads P m Q E) (h' : Leads P' m Q' E') :
    Leads (fun s => P s ∧ P' s) m (fun a s => Q a s ∧ Q' a s) (fun s => E s ∧ E' s) := by
  intro s
  have hs := h s
  have hs' := h' s
  cases hm : m s with
  | ok a t =>
    rw [hm] at hs hs'
    exact fun ht => ⟨(hs ht).1, fun hp => ⟨(hs ht).2 hp.1, (hs' ht).2 hp.2⟩⟩
  | error e t =>
    rw [hm] at hs hs'
    exact fun ht => ⟨(hs ht).1, fun hp => ⟨(hs ht).2 hp.1, (hs' ht).2 hp.2⟩⟩

/-- What does not speak of the state holds after the step if it did before. -/
theorem frame {c : Prop} (h : Leads P m Q E) :
    Leads (fun s => P s ∧ c) m (fun a s => Q a s ∧ c) (fun s => E s ∧ c) := by
  intro s
  have hs := h s
  cases hm : m s with
  | ok a t =>
    rw [hm] at hs
    exact fun ht => ⟨(hs ht).1, fun hp => ⟨(hs ht).2 hp.1, hp.2⟩⟩
  | error e t =>
    rw [hm] at hs
    exact fun ht => ⟨(hs ht).1, fun hp => ⟨(hs ht).2 hp.1, hp.2⟩⟩

/-- Nothing is known of what the step leads to, only that it takes back no ids. -/
theorem anyhow (base : Leads P m Q E) : Keeps (fun _ => True) m := by
  refine Tells.of_result base fun s _ => ?_
  cases m s with
  | ok a t => trivial
  | error e t => trivial

/-- What is to be shown from some state may be shown from each. -/
theorem choose {X : Type} [hX : Nonempty X] {P : X → σ → Prop} (h : ∀ x, Leads (P x) m Q E) :
    Leads (fun s => ∃ x, P x s) m Q E := by
  intro s
  have hs := fun x => h x s
  obtain ⟨x₀⟩ := hX
  cases hm : m s with
  | ok a t =>
    simp only [hm] at hs
    exact fun ht => ⟨(hs x₀ ht).1, fun ⟨x, hp⟩ => (hs x ht).2 hp⟩
  | error e t =>
    simp only [hm] at hs
    exact fun ht => ⟨(hs x₀ ht).1, fun ⟨x, hp⟩ => (hs x ht).2 hp⟩

/-- A step may be looked at from each of its starts. -/
theorem fix (h : ∀ s, Leads (fun t => t = s ∧ P s) m Q E) : Leads P m Q E :=
  Tells.fix h

/-- A step may be looked at from each of its starts by another rule, or be seen to be refused. -/
theorem from_starts {P₀ E₀ : σ → Prop} {Q₀ : β → σ → Prop} (base : Leads P₀ m Q₀ E₀)
    (h : ∀ s, P s → (∃ e, m s = .error e s ∧ E s) ∨ Leads (· = s) m Q E) : Leads P m Q E := by
  intro s
  have hbase := base s
  cases hm : m s with
  | ok a t =>
    rw [hm] at hbase
    refine fun ht => ⟨(hbase ht).1, fun hp => ?_⟩
    rcases h s hp with ⟨e, he, -⟩ | hl
    · rw [hm] at he
      cases he
    · have hs := hl s
      rw [hm] at hs
      exact (hs ht).2 rfl
  | error e t =>
    rw [hm] at hbase
    refine fun ht => ⟨(hbase ht).1, fun hp => ?_⟩
    rcases h s hp with ⟨e', he, hE⟩ | hl
    · rw [hm] at he
      cases he
      exact hE
    · have hs := hl s
      rw [hm] at hs
      exact (hs ht).2 rfl

protected theorem pure {a : β} (h : ∀ s, P s → Q a s) :
    Leads P (Pure.pure a : EStateM ε σ β) Q E :=
  fun s hs => ⟨hs, h s⟩

protected theorem throw {e : ε} (h : ∀ s, P s → E s) :
    Leads P (MonadExcept.throw e : EStateM ε σ β) Q E :=
  fun s hs => ⟨hs, h s⟩

protected theorem get {Q : σ → σ → Prop} (h : ∀ s, P s → Q s s) :
    Leads P (MonadState.get : EStateM ε σ σ) Q E :=
  fun s hs => ⟨hs, h s⟩

protected theorem modify {f : σ → σ} {Q : Unit → σ → Prop} (hf : ∀ s, Lasts (f s) → Lasts s)
    (h : ∀ s, P s → Q () (f s)) : Leads P (modify f : EStateM ε σ Unit) Q E :=
  fun s hs => ⟨hf s hs, h s⟩

/-- A step that is never refused. -/
protected theorem step {f : σ → β × σ} (hm : ∀ s, m s = .ok (f s).1 (f s).2)
    (hf : ∀ s, Lasts (f s).2 → Lasts s)
    (h : ∀ s, Lasts (f s).2 → P s → Q (f s).1 (f s).2) : Leads P m Q E := by
  intro s
  rw [hm s]
  exact fun hs => ⟨hf s hs, h s hs⟩

protected theorem bind {f : β → EStateM ε σ γ} (hm : Leads P m Q E)
    (hf : ∀ a, Leads (Q a) (f a) R E) : Leads P (m >>= f) R E :=
  Tells.bind hm hf

protected theorem ite {c : Prop} [Decidable c] {m' : EStateM ε σ β}
    (h : c → Leads P m Q E) (h' : ¬ c → Leads P m' Q E) : Leads P (if c then m else m') Q E := by
  split
  · exact h ‹_›
  · exact h' ‹_›

/-- A step that may be left out, and changes what holds. -/
theorem optionally {c : Prop} [Decidable c] {m : EStateM ε σ PUnit} {f : PUnit → EStateM ε σ γ}
    {Q : PUnit → σ → Prop} {R : γ → σ → Prop} (h : c → Leads P m Q E)
    (h' : ¬ c → ∀ s, P s → Q ⟨⟩ s) (hf : Leads (Q ⟨⟩) (f ⟨⟩) R E) :
    Leads P (if c then m >>= f else f ⟨⟩) R E :=
  Leads.ite (fun hc => (h hc).bind fun _ => hf) fun hc => hf.pre (h' hc)

/-- One of two steps, and then what follows in either case. -/
theorem either {c : Prop} [Decidable c] {m' : EStateM ε σ β} {f : β → EStateM ε σ γ}
    (h : c → Leads P m Q E) (h' : ¬ c → Leads P m' Q E) (hf : ∀ a, Leads (Q a) (f a) R E) :
    Leads P (if c then m >>= f else m' >>= f) R E :=
  Leads.ite (fun hc => (h hc).bind hf) fun hc => (h' hc).bind hf

/-- A step that may be left out. -/
theorem optional {c : Prop} [Decidable c] {m : EStateM ε σ PUnit} {f : PUnit → EStateM ε σ β}
    (h : c → Leads P m (fun _ => P) E) (h' : Leads P (f ⟨⟩) Q E) :
    Leads P (if c then m >>= f else f ⟨⟩) Q E :=
  Leads.ite (fun hc => (h hc).bind fun _ => h') fun _ => h'

protected theorem tryCatch {handler : ε → EStateM ε σ β} (h : Leads P m Q E)
    (h' : ∀ e, Leads E (handler e) Q E') : Leads P (tryCatch m handler) Q E' :=
  Tells.tryCatch h h'

/-- What every round of a loop keeps is kept by the loop. -/
theorem forM_list {I : σ → Prop} (l : List γ) {f : γ → EStateM ε σ PUnit}
    (h : ∀ x ∈ l, Leads I (f x) (fun _ => I) E) : Leads I (l.forM f) (fun _ => I) E := by
  induction l with
  | nil => exact Leads.pure fun _ hi => hi
  | cons x rest ih =>
    refine (h x List.mem_cons_self).bind fun _ => ?_
    exact ih fun y hy => h y (List.mem_cons_of_mem x hy)

theorem forM_option (o : Option γ) {f : γ → EStateM ε σ PUnit} {Q : PUnit → σ → Prop}
    (h : ∀ x, o = some x → Leads P (f x) Q E) (h' : o = none → ∀ s, P s → Q ⟨⟩ s) :
    Leads P (o.forM f) Q E := by
  cases o with
  | none => exact Leads.pure (h' rfl)
  | some x => exact h x rfl

end Leads

end Rules

section Workspaces

variable {α β : Type} {P : Workspace α → Prop} {Q : β → Workspace α → Prop} {E : Workspace α → Prop}

namespace Leads

/-- A question leaves the workspace as it is. -/
theorem query {q : Workspace α → Answer α β} (h : ∀ ws a, P ws → q ws = .ok a → Q a ws)
    (h' : ∀ ws e, P ws → q ws = .error e → E ws) : Leads P (Edit.query q) Q E := by
  intro ws
  unfold Edit.query
  cases hq : q ws with
  | ok a => exact fun hs => ⟨hs, fun hp => h ws a hp hq⟩
  | error e => exact fun hs => ⟨hs, fun hp => h' ws e hp hq⟩

/-- A change that hands out no ids. -/
theorem alter {f : Workspace α → Workspace α} {Q : Unit → Workspace α → Prop}
    (h : ∀ ws, P ws → Q () (f ws)) (hf : ∀ ws, (f ws).ids = ws.ids := by exact fun _ => rfl) :
    Leads P (modify f : Edit α Unit) Q E := by
  refine Leads.modify (fun ws hs => ?_) h
  rw [lasts_workspace] at hs ⊢
  rwa [hf] at hs

/-- A step of the workspace is a step of the editor. -/
theorem edit {m : Edit α β} (h : Leads P m Q E) :
    Leads (fun e => P e.workspace) (Act.edit m) (fun a e => Q a e.workspace)
      (fun e => E e.workspace) := by
  intro e
  have hw := h e.workspace
  unfold Act.edit
  cases hm : m e.workspace with
  | ok a ws =>
    rw [hm] at hw
    exact hw
  | error refusal ws =>
    rw [hm] at hw
    exact hw

end Leads

end Workspaces

end BlockEditor
