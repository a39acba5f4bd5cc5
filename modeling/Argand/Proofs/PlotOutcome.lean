import Argand.Proofs.OneShot
import Argand.Proofs.RoundTrip
import Argand.Proofs.WrappedSizes

namespace Argand.Plot

/-- What may come of the request for a plot on a machine with words of `w` bits. The resolution is
looked at before the formula, and the buffers are asked for last. -/
inductive Outcome (w : Nat) (source : String) (p : Parameters) :
    Except (Failure PlotError) (Surface Float32) → Prop
  | zeroResolution (h : p.resolution = 0) :
      Outcome w source p (.error (.refused (.configuration .zeroResolution)))
  | unreadable {e : ReadError} (hr : 0 < p.resolution)
      (h : Formula.parse source variableName = .error e) :
      Outcome w source p (.error (.refused (.reading e)))
  | overflow {x : Expr Float} (hr : 0 < p.resolution)
      (h : Formula.parse source variableName = .ok x)
      (hs : sweepMachine w p x = .error .capacityOverflow) :
      Outcome w source p (.error .capacityOverflow)
  | plotted {x : Expr Float} {s : Surface Float32} (hr : 0 < p.resolution)
      (h : Formula.parse source variableName = .ok x) (hs : sweepMachine w p x = .ok s) :
      Outcome w source p (.ok s)

/-- The same for a caller that gives the code of a mode, which is looked at first. -/
inductive CodedOutcome (w : Nat) (source : String) (resolution code : Nat) (logHeight : Bool) :
    Except (Failure PlotError) (Surface Float32) → Prop
  | unknownMode (h : ∀ mode : Mode, mode.code ≠ code) :
      CodedOutcome w source resolution code logHeight
        (.error (.refused (.configuration (.unknownMode code))))
  | known {r : Except (Failure PlotError) (Surface Float32)} (mode : Mode) (hm : mode.code = code)
      (h : Outcome w source ⟨resolution, mode, logHeight⟩ r) :
      CodedOutcome w source resolution code logHeight r

/-- The same for a caller that takes the identity for a formula that cannot be read. -/
inductive TolerantOutcome (w : Nat) (source : String) (p : Parameters) :
    Except (Failure PlotError) (Surface Float32 × Option ReadError) → Prop
  | plotted {s : Surface Float32} (h : evaluate w source p = .ok s) :
      TolerantOutcome w source p (.ok (s, none))
  | identity {s : Surface Float32} {e : ReadError}
      (h : evaluate w source p = .error (.refused (.reading e)))
      (hs : evaluate w variableName p = .ok s) : TolerantOutcome w source p (.ok (s, some e))
  | identityOverflow {e : ReadError} (h : evaluate w source p = .error (.refused (.reading e)))
      (hs : evaluate w variableName p = .error .capacityOverflow) :
      TolerantOutcome w source p (.error .capacityOverflow)
  | refused {e : ConfigurationError}
      (h : evaluate w source p = .error (.refused (.configuration e))) :
      TolerantOutcome w source p (.error (.refused (.configuration e)))
  | overflow (h : evaluate w source p = .error .capacityOverflow) :
      TolerantOutcome w source p (.error .capacityOverflow)

variable {w : Nat} {source : String} {p : Parameters} {resolution code : Nat} {logHeight : Bool}
  {r : Except (Failure PlotError) (Surface Float32)}

/-- With subdivisions a sweep is never refused. -/
theorem sweepMachine_of_pos (w : Nat) (h : 0 < p.resolution) (x : Expr Float) :
    (∃ s, sweepMachine w p x = .ok s) ∨ sweepMachine w p x = .error .capacityOverflow := by
  rw [sweepMachine, sweep_eq h]
  split
  next => exact Or.inl ⟨_, rfl⟩
  next => exact Or.inr rfl

theorem evaluate_of_zero (h : p.resolution = 0) :
    evaluate w source p = .error (.refused (.configuration .zeroResolution)) := by
  rw [evaluate, Grid.ofResolution_of_zero h]
  rfl

/-- Above zero the outcome is that of the formula and of its sweep. -/
theorem evaluate_of_pos (w : Nat) (source : String) (h : 0 < p.resolution) :
    evaluate w source p = match Formula.parse source variableName with
      | .ok x => (sweepMachine w p x).mapError (.map .configuration)
      | .error e => .error (.refused (.reading e)) := by
  rw [evaluate, Grid.ofResolution_of_pos h]
  cases Formula.parse source variableName <;> rfl

theorem evaluate_of_read {x : Expr Float} (h : 0 < p.resolution)
    (read : Formula.parse source variableName = .ok x) :
    evaluate w source p = (sweepMachine w p x).mapError (.map .configuration) := by
  rw [evaluate_of_pos w source h, read]

theorem evaluate_of_unreadable {e : ReadError} (h : 0 < p.resolution)
    (read : Formula.parse source variableName = .error e) :
    evaluate w source p = .error (.refused (.reading e)) := by
  rw [evaluate_of_pos w source h, read]

theorem outcome_evaluate (w : Nat) (source : String) (p : Parameters) :
    Outcome w source p (evaluate w source p) := by
  rcases Nat.eq_zero_or_pos p.resolution with zero | pos
  · rw [evaluate_of_zero zero]
    exact .zeroResolution zero
  · cases read : Formula.parse source variableName with
    | error e =>
      rw [evaluate_of_unreadable pos read]
      exact .unreadable pos read
    | ok x =>
      rw [evaluate_of_read pos read]
      rcases sweepMachine_of_pos w pos x with ⟨s, swept⟩ | swept
      · rw [swept]
        exact .plotted pos read swept
      · rw [swept]
        exact .overflow pos read swept

theorem evaluate_eq_iff : evaluate w source p = r ↔ Outcome w source p r := by
  refine ⟨fun h => h ▸ outcome_evaluate w source p, fun h => ?_⟩
  cases h with
  | zeroResolution zero => exact evaluate_of_zero zero
  | unreadable pos read => exact evaluate_of_unreadable pos read
  | overflow pos read swept | plotted pos read swept =>
    rw [evaluate_of_read pos read, swept]
    rfl

theorem evaluateCoded_code (mode : Mode) :
    evaluateCoded w source resolution mode.code logHeight =
      evaluate w source ⟨resolution, mode, logHeight⟩ := by
  cases mode <;> rfl

theorem evaluateCoded_of_unknown (h : ∀ mode : Mode, mode.code ≠ code) :
    evaluateCoded w source resolution code logHeight =
      .error (.refused (.configuration (.unknownMode code))) := by
  have absent : Mode.all.find? (·.code == code) = none :=
    List.find?_eq_none.mpr fun mode _ => by simpa using h mode
  rw [evaluateCoded, Mode.ofCode, absent]
  rfl

theorem evaluateCoded_eq_iff :
    evaluateCoded w source resolution code logHeight = r ↔
      CodedOutcome w source resolution code logHeight r := by
  constructor
  · rintro rfl
    by_cases known : ∃ mode : Mode, mode.code = code
    · obtain ⟨mode, rfl⟩ := known
      rw [evaluateCoded_code]
      exact .known mode rfl (outcome_evaluate _ _ _)
    · have unknown (mode : Mode) : mode.code ≠ code := fun h => known ⟨mode, h⟩
      rw [evaluateCoded_of_unknown unknown]
      exact .unknownMode unknown
  · intro h
    cases h with
    | unknownMode none => exact evaluateCoded_of_unknown none
    | known mode hm outcome =>
      rw [← hm, evaluateCoded_code]
      exact evaluate_eq_iff.mpr outcome

theorem parse_variable : Formula.parse variableName variableName = .ok Expr.identity := by
  have printable : (Expr.unknown : Expr Float).Printable := by
    refine ⟨plainValues_operation ?_, trivial, by decide, by decide⟩
    simp
  exact printable.parse_text

/-- The tolerant caller asks like the other one, and after an error of reading once more. -/
theorem evaluateOrIdentity_eq_evaluate (w : Nat) (source : String) (p : Parameters) :
    evaluateOrIdentity w source p = match evaluate w source p with
      | .ok s => .ok (s, none)
      | .error (.refused (.reading e)) => (evaluate w variableName p).map (·, some e)
      | .error f => .error f := by
  rcases Nat.eq_zero_or_pos p.resolution with zero | pos
  · rw [evaluate_of_zero zero, evaluateOrIdentity, Grid.ofResolution_of_zero zero]
    rfl
  · rw [evaluateOrIdentity_eq pos]
    cases read : Formula.parse source variableName with
    | ok x =>
      rw [evaluate_of_read pos read]
      rcases sweepMachine_of_pos w pos x with ⟨s, swept⟩ | swept
      · simp only [swept]
        rfl
      · simp only [swept]
        rfl
    | error e => rw [evaluate_of_unreadable pos read, evaluate_of_read pos parse_variable]

theorem tolerantOutcome_evaluateOrIdentity (w : Nat) (source : String) (p : Parameters) :
    TolerantOutcome w source p (evaluateOrIdentity w source p) := by
  rw [evaluateOrIdentity_eq_evaluate]
  have outcome := outcome_evaluate w source p
  cases direct : evaluate w source p with
  | ok s => exact .plotted direct
  | error f =>
    rw [direct] at outcome
    cases outcome with
    | zeroResolution => exact .refused direct
    | overflow => exact .overflow direct
    | unreadable pos =>
      -- The identity can always be read, so that only its sweep may fail.
      have fallback := evaluate_of_read (w := w) pos parse_variable
      rcases sweepMachine_of_pos w pos Expr.identity with ⟨s, swept⟩ | swept
      · rw [swept] at fallback
        simp only [fallback]
        exact .identity direct fallback
      · rw [swept] at fallback
        simp only [fallback]
        exact .identityOverflow direct fallback

theorem evaluateOrIdentity_eq_iff
    {t : Except (Failure PlotError) (Surface Float32 × Option ReadError)} :
    evaluateOrIdentity w source p = t ↔ TolerantOutcome w source p t := by
  refine ⟨fun h => h ▸ tolerantOutcome_evaluateOrIdentity w source p, fun h => ?_⟩
  rw [evaluateOrIdentity_eq_evaluate]
  cases h with
  | plotted direct | refused direct | overflow direct => rw [direct]
  | identity direct fallback | identityOverflow direct fallback =>
    simp only [direct, fallback]
    rfl

theorem sweepMachine_isOk_iff (h : 0 < p.resolution) {x : Expr Float} :
    (∃ s, sweepMachine w p x = .ok s) ↔ Grid.Reservable w ⟨p.resolution, h⟩ := by
  rw [sweepMachine, sweep_eq h]
  split
  next room => exact iff_of_true ⟨_, rfl⟩ room
  next room => exact iff_of_false (by rintro ⟨s, ⟨⟩⟩) room

theorem evaluateCoded_isOk_iff :
    (∃ s, evaluateCoded w source resolution code logHeight = .ok s) ↔
      (∃ mode : Mode, mode.code = code) ∧ (∃ x, Formula.parse source variableName = .ok x) ∧
        ∃ h : 0 < resolution, Grid.Reservable w ⟨resolution, h⟩ := by
  constructor
  · rintro ⟨s, h⟩
    cases evaluateCoded_eq_iff.mp h with
    | known mode hm outcome =>
      cases outcome with
      | plotted pos read swept =>
        exact ⟨⟨mode, hm⟩, ⟨_, read⟩, pos, (sweepMachine_isOk_iff pos).mp ⟨s, swept⟩⟩
  · rintro ⟨⟨mode, hm⟩, ⟨x, read⟩, pos, room⟩
    obtain ⟨s, swept⟩ := (sweepMachine_isOk_iff (p := ⟨resolution, mode, logHeight⟩) pos).mpr room
    exact ⟨s, evaluateCoded_eq_iff.mpr (.known mode hm (.plotted pos read swept))⟩

/-- An error has a place exactly if it is one of the formula. -/
theorem evaluateCoded_position_iff {place : Nat} :
    (∃ e, evaluateCoded w source resolution code logHeight = .error (.refused e) ∧
        e.position? = some place) ↔
      (∃ mode : Mode, mode.code = code) ∧ 0 < resolution ∧
        ∃ e, Formula.parse source variableName = .error e ∧ e.position = place := by
  constructor
  · rintro ⟨e, h, at_place⟩
    cases evaluateCoded_eq_iff.mp h with
    | unknownMode => cases at_place
    | known mode hm outcome =>
      cases outcome with
      | zeroResolution => cases at_place
      | unreadable pos read => exact ⟨⟨mode, hm⟩, pos, _, read, Option.some.inj at_place⟩
  · rintro ⟨⟨mode, hm⟩, pos, e, read, rfl⟩
    exact ⟨_, evaluateCoded_eq_iff.mpr (.known mode hm (.unreadable pos read)), rfl⟩

/-- Where a word holds the number of points, it need not hold the bytes of their numbers. -/
theorem reservable_page_iff (h : 0 < resolution) (hn : resolution ≤ 3276) :
    Grid.Reservable pageWordSize ⟨resolution, h⟩ ↔ resolution ≤ 668 := by
  have counted : exactSide resolution ^ 2 < 2 ^ 32 :=
    calc exactSide resolution ^ 2
        ≤ 65521 ^ 2 := Nat.pow_le_pow_left (by rw [exactSide]; omega) 2
      _ < 2 ^ 32 := by decide
  exact (Grid.reservable_iff_of_lt (g := ⟨resolution, h⟩) counted).trans short_buffer_lt_iff

/-- What a page can plot is plotted alike on any machine with longer words. -/
theorem evaluate_page (hw : pageWordSize ≤ w) (hn : p.resolution ≤ 668) (source : String) :
    evaluate w source p = evaluate pageWordSize source p := by
  have swept (x : Expr Float) : sweepMachine w p x = sweepMachine pageWordSize p x :=
    sweep_eq_of_le hw (short_buffer_lt_iff.mpr hn) x
  simp only [evaluate, swept]

/-- The three ways to ask for a plot agree, and of several faults they tell the same one. A plot of
a formula without faults fails only if its buffers cannot be reserved. -/
theorem entry_points_agree (w : Nat) (source : String) (resolution code : Nat) (logHeight : Bool) :
    (∀ r, evaluateCoded w source resolution code logHeight = r ↔
      CodedOutcome w source resolution code logHeight r) ∧
    ((∃ s, evaluateCoded w source resolution code logHeight = .ok s) ↔
      (∃ mode : Mode, mode.code = code) ∧ (∃ x, Formula.parse source variableName = .ok x) ∧
        ∃ h : 0 < resolution, Grid.Reservable w ⟨resolution, h⟩) ∧
    (∀ h : 0 < resolution, resolution ≤ 3276 →
      (Grid.Reservable pageWordSize ⟨resolution, h⟩ ↔ resolution ≤ 668)) ∧
    (∀ place, (∃ e, evaluateCoded w source resolution code logHeight = .error (.refused e) ∧
        e.position? = some place) ↔
      (∃ mode : Mode, mode.code = code) ∧ 0 < resolution ∧
        ∃ e, Formula.parse source variableName = .error e ∧ e.position = place) ∧
    (∀ mode : Mode, evaluate w source ⟨resolution, mode, logHeight⟩ =
      evaluateCoded w source resolution mode.code logHeight) ∧
    (∀ mode : Mode, pageWordSize ≤ w → resolution ≤ 668 →
      evaluate w source ⟨resolution, mode, logHeight⟩ =
        evaluateCoded pageWordSize source resolution mode.code logHeight) ∧
    ∀ p t, evaluateOrIdentity w source p = t ↔ TolerantOutcome w source p t :=
  ⟨fun _ => evaluateCoded_eq_iff, evaluateCoded_isOk_iff, fun h => reservable_page_iff h,
    fun _ => evaluateCoded_position_iff, fun mode => (evaluateCoded_code mode).symm,
    fun mode hw hn => (evaluate_page hw hn source).trans (evaluateCoded_code mode).symm,
    fun _ _ => evaluateOrIdentity_eq_iff⟩

theorem evaluateCoded_variable_overflow (logHeight : Bool) {h : 0 < resolution}
    (full : ¬ Grid.Reservable w ⟨resolution, h⟩) :
    evaluateCoded w variableName resolution Mode.real.code logHeight =
      .error .capacityOverflow := by
  have swept : sweepMachine w ⟨resolution, .real, logHeight⟩ Expr.identity =
      .error .capacityOverflow :=
    sweep_eq_overflow (p := ⟨resolution, .real, logHeight⟩) full _
  exact evaluateCoded_eq_iff.mpr (.known .real rfl (.overflow h parse_variable swept))

/-- The identity can be read and the first mode is known, but a page does not plot 669 subdivisions
a unit, nor a machine with long words 43835327. -/
theorem entry_points_overflow :
    evaluateCoded pageWordSize variableName 669 0 false = .error .capacityOverflow ∧
    evaluateCoded 64 variableName 43835327 0 false = .error .capacityOverflow ∧
    ¬ ((∃ s, evaluateCoded pageWordSize variableName 669 0 false = .ok s) ↔
      (∃ mode : Mode, mode.code = 0) ∧ 0 < 669 ∧
        ∃ x, Formula.parse variableName variableName = .ok x) := by
  have full : ¬ Grid.Reservable pageWordSize ⟨669, by decide⟩ := by decide
  have full' : ¬ Grid.Reservable 64 ⟨43835327, by decide⟩ := by decide
  have overflow := evaluateCoded_variable_overflow false full
  refine ⟨overflow, evaluateCoded_variable_overflow false full', fun claimed => ?_⟩
  obtain ⟨s, returned⟩ := claimed.mpr ⟨⟨.real, rfl⟩, by decide, _, parse_variable⟩
  cases overflow.symm.trans returned

end Argand.Plot
