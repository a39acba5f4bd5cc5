import Argand.Proofs.WindowActions
import Mathlib.Logic.ExistsUnique

namespace Argand.Window

/-- What is read when a text in the formula field is applied. -/
def compileEntry (text : String) : Except ReadError (Expr Float × Explanation) :=
  Formula.compile (String.ofList (trimBlank text.toList))

/-- The text that the first so many actions of a run applied last, if any of them did after the last
reset. -/
def appliedText (inputs : List Input) : Nat → Option String
  | 0 => none
  | k + 1 =>
    match (inputs.flatMap actions)[k]? with
    | some .applyFormula => some (moment inputs k).entry
    | some .reset => none
    | _ => appliedText inputs k

/-- What became of the text that was applied last. -/
inductive FormulaCase
  | untouched
  | rejected
  | accepted

/-- The message, the tree and the explanation are all those of the case. -/
def FormulaCase.Holds (applied : Option String) (p : Plotter) : FormulaCase → Prop
  | untouched =>
    applied = none ∧ p.error = "" ∧ p.tree = Expr.identity ∧ p.explanation = .empty
  | rejected => ∃ text e, applied = some text ∧ compileEntry text = .error e ∧
    p.error = e.message ∧ p.tree = Expr.identity ∧ p.explanation = .empty
  | accepted => ∃ text, applied = some text ∧ p.error = "" ∧
    compileEntry text = .ok (p.tree, p.explanation)

/-- The parts of the plotter that tell of the formula. -/
def parts (p : Plotter) : String × Expr Float × Explanation := (p.error, p.tree, p.explanation)

variable {p q : Plotter} {applied : Option String} {c c' : FormulaCase}

theorem FormulaCase.holds_congr (h : parts q = parts p) : c.Holds applied q ↔ c.Holds applied p := by
  obtain ⟨error, rest⟩ := Prod.mk.inj h
  obtain ⟨tree, explanation⟩ := Prod.mk.inj rest
  cases c <;> simp only [Holds, error, tree, explanation]

theorem FormulaCase.Holds.unique (h : c.Holds applied p) (h' : c'.Holds applied p) : c = c' := by
  cases c with
  | untouched =>
    obtain ⟨rfl, -⟩ := h
    cases c' with
    | untouched => rfl
    | rejected => obtain ⟨_, _, applied, -⟩ := h'; cases applied
    | accepted => obtain ⟨_, applied, -⟩ := h'; cases applied
  | rejected =>
    obtain ⟨text, e, rfl, read, -⟩ := h
    cases c' with
    | untouched => cases h'.1
    | rejected => rfl
    | accepted =>
      obtain ⟨text', same, -, read'⟩ := h'
      cases same
      rw [read] at read'
      cases read'
  | accepted =>
    obtain ⟨text, rfl, -, read⟩ := h
    cases c' with
    | untouched => cases h'.1
    | rejected =>
      obtain ⟨text', e, same, read', -⟩ := h'
      cases same
      rw [read] at read'
      cases read'
    | accepted => rfl

theorem parts_setParameters (p : Plotter) (parameters : Plot.Parameters) :
    parts (p.setParameters parameters) = parts p := by
  unfold Plotter.setParameters
  split <;> rfl

theorem parts_sweepAgain (p : Plotter) : parts p.sweepAgain = parts p := by
  unfold Plotter.sweepAgain
  split <;> rfl

theorem parts_drag (input : Input) (p : Plotter) : parts (Window.drag input p) = parts p := by
  unfold Window.drag
  split
  next => split <;> rfl
  next => rfl

/-- Only reading a formula and resetting touch the parts that tell of it. -/
theorem Action.parts_act {a : Action} (ha : a ≠ .applyFormula) (hr : a ≠ .reset) (p : Plotter) :
    parts (a.act p) = parts p := by
  cases a with
  | clearEntry | edit | setPalette => rfl
  | sweepIfNeeded =>
    rw [act, doIf]
    split
    next => exact parts_sweepAgain p
    next => rfl
  | applyFormula => exact absurd rfl ha
  | reset => exact absurd rfl hr
  | setMode | toggleLogHeight | setResolution | setDefaultResolution =>
    exact parts_setParameters p _
  | drag distance => exact parts_drag _ p

/-- Reading a formula leaves nothing of what was there before. -/
theorem exists_holds_applyFormula (p : Plotter) :
    ∃ c : FormulaCase, c.Holds (some p.entry) (applyAndFocus p) := by
  unfold applyAndFocus Plotter.applyFormula
  cases hc : Formula.compile (String.ofList (trimBlank p.entry.toList)) with
  | ok read => exact ⟨.accepted, p.entry, rfl, rfl, hc⟩
  | error e => exact ⟨.rejected, p.entry, e, rfl, hc, rfl, rfl, rfl⟩

theorem appliedText_succ {inputs : List Input} {k : Nat} {a : Action}
    (h : (inputs.flatMap actions)[k]? = some a) (ha : a ≠ .applyFormula) (hr : a ≠ .reset) :
    appliedText inputs (k + 1) = appliedText inputs k := by
  rw [appliedText, h]
  cases a with
  | applyFormula => exact absurd rfl ha
  | reset => exact absurd rfl hr
  | _ => rfl

theorem exists_holds_moment (inputs : List Input) (k : Nat) :
    ∃ c : FormulaCase, c.Holds (appliedText inputs k) (moment inputs k) := by
  induction k with
  | zero => exact ⟨.untouched, rfl, rfl, rfl, rfl⟩
  | succ k ih =>
    cases h : (inputs.flatMap actions)[k]? with
    | none =>
      rw [moment_of_end h, appliedText, h]
      exact ih
    | some a =>
      by_cases ha : a = .applyFormula
      · subst ha
        rw [moment_succ h, appliedText, h]
        exact exists_holds_applyFormula _
      · by_cases hr : a = .reset
        · subst hr
          rw [moment_succ h, appliedText, h]
          exact ⟨.untouched, rfl, rfl, rfl, rfl⟩
        · obtain ⟨c, hc⟩ := ih
          rw [moment_succ h, appliedText_succ h ha hr]
          exact ⟨c, (FormulaCase.holds_congr (Action.parts_act ha hr _)).mpr hc⟩

theorem message_ne_empty (e : ReadError) : e.message ≠ "" := by
  simp [ReadError.message]

/-- The label of an error is shown exactly as long as the last formula could not be read. -/
theorem FormulaCase.Holds.error_ne_empty_iff (h : c.Holds applied p) :
    p.error ≠ "" ↔ FormulaCase.rejected.Holds applied p := by
  constructor
  · intro shown
    cases c with
    | untouched => exact absurd h.2.1 shown
    | rejected => exact h
    | accepted =>
      obtain ⟨_, -, empty, -⟩ := h
      exact absurd empty shown
  · rintro ⟨_, e, -, -, message, -⟩
    rw [message]
    exact message_ne_empty e

/-- At every moment the message, the tree and the explanation are those of one and the same case,
which only reading a formula and resetting change. -/
theorem formula_parts_agree (inputs : List Input) :
    (∀ k, ∃! c : FormulaCase, c.Holds (appliedText inputs k) (moment inputs k)) ∧
    (∃! c : FormulaCase, c.Holds (appliedText inputs (inputs.flatMap actions).length)
      (run inputs).plotter) ∧
    (∀ k, (moment inputs k).error ≠ "" ↔
      FormulaCase.rejected.Holds (appliedText inputs k) (moment inputs k)) ∧
    ∀ k a, (inputs.flatMap actions)[k]? = some a → a ≠ .applyFormula → a ≠ .reset →
      ∀ c : FormulaCase, c.Holds (appliedText inputs (k + 1)) (moment inputs (k + 1)) ↔
        c.Holds (appliedText inputs k) (moment inputs k) := by
  have one (k : Nat) : ∃! c : FormulaCase, c.Holds (appliedText inputs k) (moment inputs k) := by
    obtain ⟨c, hc⟩ := exists_holds_moment inputs k
    exact ⟨c, hc, fun _ h => h.unique hc⟩
  refine ⟨one, plotter_run inputs ▸ one _, fun k => ?_, fun k a h ha hr c => ?_⟩
  · obtain ⟨c, hc⟩ := exists_holds_moment inputs k
    exact hc.error_ne_empty_iff
  · rw [moment_succ h, appliedText_succ h ha hr]
    exact FormulaCase.holds_congr (Action.parts_act ha hr _)

/-- A formula is applied, and in the next pass the field is emptied. -/
theorem formula_parts_agree_escape :
    ∀ c : FormulaCase,
      c.Holds (appliedText [{ edit := some "1/z", enter := true }, { escape := true }] 6)
        (moment [{ edit := some "1/z", enter := true }, { escape := true }] 6) ↔
      c.Holds (appliedText [{ edit := some "1/z", enter := true }, { escape := true }] 5)
        (moment [{ edit := some "1/z", enter := true }, { escape := true }] 5) :=
  (formula_parts_agree [{ edit := some "1/z", enter := true }, { escape := true }]).2.2.2 5
    .clearEntry rfl nofun nofun

end Argand.Window
