import BlockEditor.Container.Items
import Mathlib.Data.List.TakeWhile

/-!
# The number of units that a stored value stands for

The reading of a stored count agrees with exact arithmetic, whatever the length of the text. Digits
are read with an upper bound on the way; the bound is so far above the greatest number of units that
it never shows.
-/

namespace BlockEditor.Container

/-- The characters of decimal notation. -/
def IsDigit (c : Char) : Prop :=
  '0' ≤ c ∧ c ≤ '9'

/-- The text begins with an integer: blanks, at most one sign, and then digits, all that stand
there. -/
def Begins (s : List Char) (negative : Bool) (digits : List Char) : Prop :=
  ∃ blanks sign rest, s = blanks ++ (sign ++ (digits ++ rest)) ∧
    (∀ c ∈ blanks, Text.isBlank c) ∧
    (if negative then sign = ['-'] else sign = [] ∨ sign = ['+']) ∧
    digits ≠ [] ∧ (∀ c ∈ digits, IsDigit c) ∧ ∀ c ∈ rest.head?, ¬ IsDigit c

/-- How stored values are read as numbers of units. -/
structure Reads (units : Option Json → Nat) : Prop where
  bounded : ∀ v, units v ≤ 999999
  integer : ∀ n : Int, (units (some (.num (.int n))) : Int) = min (max n 0) 999999
  text : ∀ s negative digits, Begins s.toList negative digits →
    units (some (.str s)) = if negative then 0 else min (Nat.ofDigitChars 10 digits 0) 999999
  otherText : ∀ s, (∀ negative digits, ¬ Begins s.toList negative digits) →
    units (some (.str s)) = 0
  bool : ∀ b, units (some (.bool b)) = 0
  arr : ∀ items, units (some (.arr items)) = 0
  obj : ∀ members, units (some (.obj members)) = 0
  null : units (some .null) = 0
  missing : units none = 0

variable {s rest blanks digits : List Char} {negative : Bool} {c : Char}

/-! ### Digits -/

/-- One digit more, of a number that may have reached the bound before. -/
theorem appendDigit_min (n : Nat) (c : Char) :
    appendDigit (min n maxInteger) c = min (10 * n + (c.toNat - '0'.toNat)) maxInteger := by
  unfold appendDigit
  omega

/-- Where the bound is met on the way does not matter. -/
theorem foldl_appendDigit (digits : List Char) (n : Nat) :
    digits.foldl appendDigit (min n maxInteger) =
      min (Nat.ofDigitChars 10 digits n) maxInteger := by
  induction digits generalizing n with
  | nil => rw [Nat.ofDigitChars_nil, List.foldl_nil]
  | cons c rest ih => rw [List.foldl_cons, appendDigit_min, ih, Nat.ofDigitChars_cons]

theorem decimal_eq (digits : List Char) :
    decimal digits = min (Nat.ofDigitChars 10 digits 0) maxInteger :=
  foldl_appendDigit digits 0

theorem capUnits_decimal (digits : List Char) :
    capUnits (decimal digits) = min (Nat.ofDigitChars 10 digits 0) 999999 := by
  have hbound : 999999 ≤ maxInteger := by decide
  rw [decimal_eq, capUnits, maxUnits]
  omega

/-! ### What stands before the digits -/

theorem isDigit_iff : isDigit c ↔ IsDigit c := by
  rw [isDigit, Bool.and_eq_true, decide_eq_true_eq, decide_eq_true_eq, IsDigit]

theorem toNat_of_isDigit (h : IsDigit c) : 48 ≤ c.toNat ∧ c.toNat ≤ 57 :=
  h

theorem not_isBlank_of_isDigit (h : IsDigit c) : Text.isBlank c = false := by
  obtain ⟨hlow, hhigh⟩ := toNat_of_isDigit h
  simp only [Text.isBlank, Bool.or_eq_false_iff, Bool.and_eq_false_iff, decide_eq_false_iff_not,
    beq_eq_false_iff_ne]
  omega

theorem trimStart_append (h : ∀ c ∈ blanks, Text.isBlank c) (s : List Char) :
    Text.trimStart (blanks ++ s) = Text.trimStart s := by
  unfold Text.trimStart
  exact List.dropWhile_append_of_pos h

theorem trimStart_of_head (h : ∀ c ∈ s.head?, Text.isBlank c = false) : Text.trimStart s = s := by
  cases s with
  | nil => rfl
  | cons c rest =>
    unfold Text.trimStart
    rw [List.dropWhile_cons_of_neg]
    rw [h c rfl]
    exact Bool.false_ne_true

theorem splitSign_of_isDigit (h : ∀ c ∈ s.head?, IsDigit c) : splitSign s = (false, s) := by
  unfold splitSign
  split
  · exact absurd (toNat_of_isDigit (h _ rfl)) (by decide)
  · exact absurd (toNat_of_isDigit (h _ rfl)) (by decide)
  · rfl

/-- A sign is split off; no sign means plus. -/
theorem splitSign_eq {after : List Char} (h : splitSign s = (negative, after)) :
    ∃ sign, s = sign ++ after ∧ if negative then sign = ['-'] else sign = [] ∨ sign = ['+'] := by
  unfold splitSign at h
  split at h
  · cases h
    exact ⟨['-'], rfl, rfl⟩
  · cases h
    exact ⟨['+'], rfl, Or.inr rfl⟩
  · cases h
    exact ⟨[], rfl, Or.inl rfl⟩

theorem leadingDigits_append (h : ∀ c ∈ digits, IsDigit c) (hrest : ∀ c ∈ rest.head?, ¬ IsDigit c) :
    leadingDigits (digits ++ rest) = digits := by
  unfold leadingDigits
  rw [List.takeWhile_append_of_pos fun c hc => isDigit_iff.mpr (h c hc)]
  cases rest with
  | nil => rw [List.takeWhile_nil, List.append_nil]
  | cons c rest =>
    rw [List.takeWhile_cons_of_neg, List.append_nil]
    rw [isDigit_iff]
    exact hrest c rfl

/-! ### Texts -/

theorem leadingInteger?_of_begins (h : Begins s negative digits) :
    leadingInteger? s = some (if negative then -(decimal digits : Int) else decimal digits) := by
  obtain ⟨blanks, sign, rest, rfl, hblanks, hsign, hne, hdigits, hrest⟩ := h
  have hhead : ∀ c ∈ (digits ++ rest).head?, IsDigit c := by
    obtain ⟨d, ds, rfl⟩ := List.exists_cons_of_ne_nil hne
    rintro c hc
    cases hc
    exact hdigits d List.mem_cons_self
  have hsplit : splitSign (Text.trimStart (blanks ++ (sign ++ (digits ++ rest)))) =
      (negative, digits ++ rest) := by
    rw [trimStart_append hblanks]
    cases negative with
    | true =>
      rw [if_pos rfl] at hsign
      rw [hsign]
      rfl
    | false =>
      rw [if_neg Bool.false_ne_true] at hsign
      rcases hsign with rfl | rfl
      · rw [List.nil_append, trimStart_of_head fun c hc => not_isBlank_of_isDigit (hhead c hc)]
        exact splitSign_of_isDigit hhead
      · rfl
  have hnonempty : digits.isEmpty = false := List.isEmpty_eq_false_iff.mpr hne
  unfold leadingInteger?
  simp only [hsplit, leadingDigits_append hdigits hrest, hnonempty]
  cases negative <;> rfl

theorem begins_of_leadingInteger? {n : Int} (h : leadingInteger? s = some n) :
    ∃ negative digits, Begins s negative digits := by
  unfold leadingInteger? at h
  cases hsplit : splitSign (Text.trimStart s) with
  | mk negative after =>
    simp only [hsplit] at h
    obtain ⟨sign, hafter, hsign⟩ := splitSign_eq hsplit
    have hne : leadingDigits after ≠ [] := by
      intro hempty
      rw [hempty, List.isEmpty_nil, if_pos rfl] at h
      cases h
    refine ⟨negative, leadingDigits after, s.takeWhile Text.isBlank, sign, after.dropWhile isDigit,
      ?_, fun c hc => List.mem_takeWhile_imp hc, hsign, hne,
      fun c hc => isDigit_iff.mp (List.mem_takeWhile_imp hc), ?_⟩
    · have hdigits : leadingDigits after ++ after.dropWhile isDigit = after :=
        List.takeWhile_append_dropWhile
      rw [hdigits, ← hafter]
      exact List.takeWhile_append_dropWhile.symm
    · intro c hc
      have hnot := List.head?_dropWhile_not isDigit after
      rw [hc] at hnot
      rw [← isDigit_iff]
      exact fun hdigit => absurd hdigit (by simpa using hnot)

/-! ### Stored values -/

theorem unitsOf_str (s : String) : unitsOf (some (.str s)) =
    match leadingInteger? s.toList with
    | some n => capUnits n.toNat
    | none => 0 := rfl

theorem unitsOf_of_begins {s : String} (h : Begins s.toList negative digits) :
    unitsOf (some (.str s)) =
      if negative then 0 else min (Nat.ofDigitChars 10 digits 0) 999999 := by
  rw [unitsOf_str, leadingInteger?_of_begins h]
  cases negative with
  | true =>
    have hneg : (-(decimal digits : Int)).toNat = 0 := by omega
    simp only [if_true, hneg]
    rfl
  | false => exact capUnits_decimal digits

theorem unitsOf_le (v : Option Json) : unitsOf v ≤ 999999 := by
  unfold unitsOf
  split
  · exact Nat.min_le_right _ _
  · exact Nat.zero_le _

theorem reads_unitsOf : Reads unitsOf where
  bounded := unitsOf_le
  integer n := by
    have hcap : unitsOf (some (.num (.int n))) = min n.toNat 999999 := rfl
    rw [hcap]
    omega
  text _ _ _ h := unitsOf_of_begins h
  otherText s h := by
    rw [unitsOf_str]
    cases hn : leadingInteger? s.toList with
    | none => rfl
    | some n =>
      obtain ⟨negative, digits, hbegins⟩ := begins_of_leadingInteger? hn
      exact (h negative digits hbegins).elim
  bool _ := rfl
  arr _ := rfl
  obj _ := rfl
  null := rfl
  missing := rfl

end BlockEditor.Container
