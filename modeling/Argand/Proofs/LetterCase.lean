import Argand.Proofs.NumberText

namespace Argand

variable {c l : Char}

theorem not_blank_beginsWord {c : Char} (h : (c.isAlpha || c == '_') = true) :
    isBlank c = false := by
  have bounds : (65 ≤ c.toNat ∧ c.toNat ≤ 90) ∨ (97 ≤ c.toNat ∧ c.toNat ≤ 122) ∨
      c.toNat = 95 := by
    rcases Bool.or_eq_true_iff.mp h with letter | line
    · rcases Bool.or_eq_true_iff.mp letter with upper | lower
      · simp only [Char.isUpper, decide_eq_true_eq, ge_iff_le, UInt32.le_iff_toNat_le] at upper
        exact Or.inl upper
      · simp only [Char.isLower, Bool.and_eq_true, decide_eq_true_eq, ge_iff_le,
          UInt32.le_iff_toNat_le] at lower
        exact Or.inr (Or.inl lower)
    · rw [eq_of_beq line]
      exact Or.inr (Or.inr rfl)
  simp [isBlank]
  omega

/-- What is the same for all letters does not see their case. -/
theorem apply_toLower {α : Type} {f : Char → α} {a : α} (h : ∀ c, c.isAlpha = true → f c = a)
    (c : Char) : f c.toLower = f c := by
  by_cases upper : c.isUpper = true
  · have letter : c.isAlpha = true := by simp [Char.isAlpha, upper]
    have lower : c.toLower.isAlpha = true := by rwa [Char.isAlpha_toLower_eq_isAlpha]
    rw [h c letter, h c.toLower lower]
  · rw [Char.toLower_eq_of_not_isUpper upper]

theorem toLower_of_not_letter (h : c.isAlpha = false) : c.toLower = c := by
  apply Char.toLower_eq_of_not_isUpper
  intro upper
  simp [Char.isAlpha, upper] at h

theorem toLower_eq_iff (hl : l.isLower = true) : c.toLower = l ↔ c = l ∨ c = l.toUpper := by
  have fixed : l.toLower = l := Char.toLower_eq_of_not_isUpper (Char.not_isUpper_of_isLower hl)
  constructor
  · intro h
    by_cases upper : c.isUpper = true
    · have raised : c.toUpper = c :=
        Char.toUpper_eq_of_not_isLower fun lower => Char.not_isUpper_of_isLower lower upper
      right
      rw [← raised, ← Char.toUpper_toLower_eq_toUpper, h]
    · rw [Char.toLower_eq_of_not_isUpper upper] at h
      exact Or.inl h
  · rintro (rfl | rfl)
    · exact fixed
    · rw [Char.toLower_toUpper_eq_toLower, fixed]

/-- A test for a letter in either case does not see the case. -/
theorem eitherCase_toLower (hl : l.isLower = true) (c : Char) :
    (c.toLower = l ∨ c.toLower = l.toUpper) ↔ (c = l ∨ c = l.toUpper) := by
  have never : c.toLower ≠ l.toUpper := by
    intro same
    have upper : l.toUpper.isUpper = true := by
      rw [Char.isUpper_toUpper_eq_isAlpha, Char.isAlpha, hl, Bool.or_true]
    rw [← same, Char.isUpper_toLower_eq_false] at upper
    cases upper
  rw [toLower_eq_iff hl, or_iff_left never]

theorem isDigit_toLower (c : Char) : c.toLower.isDigit = c.isDigit := by
  refine apply_toLower (a := false) (fun c letter => ?_) c
  by_contra digit
  have noWord := Token.not_beginsWord_of_digit (Bool.eq_true_of_not_eq_false digit)
  simp [letter] at noWord

theorem isBlank_toLower (c : Char) : isBlank c.toLower = isBlank c :=
  apply_toLower (fun _ letter => not_blank_beginsWord (Bool.or_eq_true_iff.mpr (Or.inl letter))) c

theorem isNameChar_toLower (c : Char) : isNameChar c.toLower = isNameChar c :=
  apply_toLower (a := true) (fun _ letter => by simp [isNameChar, Char.isAlphanum, letter]) c

theorem beginsWord_toLower (c : Char) :
    (c.toLower.isAlpha || c.toLower == '_') = (c.isAlpha || c == '_') :=
  apply_toLower (f := fun c => c.isAlpha || c == '_') (a := true)
    (fun _ letter => by simp [letter]) c

theorem beq_toLower {d : Char} (hd : d.isAlpha = false) (c : Char) :
    (c.toLower == d) = (c == d) := by
  refine apply_toLower (f := (· == d)) (a := false) (fun c letter => ?_) c
  rw [beq_eq_false_iff_ne]
  rintro rfl
  exact Bool.noConfusion (letter.symm.trans hd)

end Argand
