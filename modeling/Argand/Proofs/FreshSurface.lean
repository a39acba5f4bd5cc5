import Argand.Proofs.SweepSamples
import Argand.Proofs.WindowActions

namespace Argand.Window

open Plot (Parameters Surface Grid exactSide sweepMachine)

def Allowed (parameters : Parameters) : Prop :=
  1 ≤ parameters.resolution ∧ parameters.resolution ≤ Plotter.maxResolution

instance : DecidablePred Allowed := fun _ => inferInstanceAs (Decidable (_ ∧ _))

/-- The finest grid that is allowed can be stored even where words are short. -/
theorem buffer_of_allowed {w : Nat} (hw : 32 ≤ w) {parameters : Parameters}
    (ha : Allowed parameters) : 12 * exactSide parameters.resolution ^ 2 < 2 ^ (w - 1) := by
  have high := ha.2
  rw [Plotter.maxResolution] at high
  have bound : exactSide parameters.resolution ≤ 801 := by
    rw [exactSide]
    omega
  calc 12 * exactSide parameters.resolution ^ 2
      ≤ 12 * 801 ^ 2 := Nat.mul_le_mul_left 12 (Nat.pow_le_pow_left bound 2)
    _ < 2 ^ (32 - 1) := by decide
    _ ≤ 2 ^ (w - 1) := Nat.pow_le_pow_right (by decide) (Nat.sub_le_sub_right hw 1)

/-- A window on a page has short words and shows the same. -/
theorem sweepMachine_page {parameters : Parameters} (ha : Allowed parameters) (x : Expr Float) :
    sweepMachine Plotter.wordSize parameters x = sweepMachine Plot.pageWordSize parameters x :=
  Plot.sweep_eq_of_le (by decide) (buffer_of_allowed (by decide) ha) x

theorem sweepMachine_eq_ok {parameters : Parameters} (ha : Allowed parameters) (x : Expr Float) :
    sweepMachine Plotter.wordSize parameters x =
      .ok (Plot.sweepGrid Plotter.wordSize ⟨parameters.resolution, ha.1⟩ parameters x) :=
  Plot.sweep_eq_ok (Grid.reservable_of_buffer (buffer_of_allowed (by decide) ha)) x

/-- Within the allowed resolutions no size wraps, so that the points form a square. -/
theorem pointCount_of_allowed {parameters : Parameters} (ha : Allowed parameters) :
    Grid.pointCount Plotter.wordSize ⟨parameters.resolution, ha.1⟩ =
      exactSide parameters.resolution * exactSide parameters.resolution := by
  rw [← Nat.pow_two]
  exact Grid.pointCount_eq (Grid.lt_two_pow_of_buffer (buffer_of_allowed (by decide) ha))

theorem sizes_of_sweepMachine {parameters : Parameters} {x : Expr Float} {s : Surface Float32}
    (ha : Allowed parameters) (h : sweepMachine Plotter.wordSize parameters x = .ok s) :
    s.positions.size = 3 * s.channels.size ∧ ∃ side, s.channels.size = side * side := by
  rw [sweepMachine_eq_ok ha, Except.ok.injEq] at h
  rw [← h, Plot.size_positions_sweepGrid, Plot.size_channels_sweepGrid]
  exact ⟨rfl, _, pointCount_of_allowed ha⟩

/-- The surface on display is nothing yet or one whole sweep, and it is that of the current tree and
parameters unless a new sweep is already asked for. -/
structure Fresh (p : Plotter) : Prop where
  allowed : Allowed p.parameters
  whole : p.output = .empty ∨
    ∃ parameters tree, sweepMachine Plotter.wordSize parameters tree = .ok p.output
  triples : p.output.positions.size = 3 * p.output.channels.size
  square : ∃ side, p.output.channels.size = side * side
  current : p.needsSweep = false →
    sweepMachine Plotter.wordSize p.parameters p.tree = .ok p.output
  /-- A sweep never fails. -/
  accepted : ∃ s, sweepMachine Plotter.wordSize p.parameters p.tree = .ok s ∧
    p.sweepAgain = p.setOutput s

theorem sweepAgain_eq_setOutput {p : Plotter} {s : Surface Float32}
    (h : sweepMachine Plotter.wordSize p.parameters p.tree = .ok s) :
    p.sweepAgain = p.setOutput s := by
  rw [Plotter.sweepAgain, h]

theorem accepted_of_allowed {p : Plotter} (h : Allowed p.parameters) :
    ∃ s, sweepMachine Plotter.wordSize p.parameters p.tree = .ok s ∧
      p.sweepAgain = p.setOutput s :=
  ⟨_, sweepMachine_eq_ok h p.tree, sweepAgain_eq_setOutput (sweepMachine_eq_ok h p.tree)⟩

theorem fresh_initial : Fresh .initial where
  allowed := by decide
  whole := Or.inl rfl
  triples := rfl
  square := ⟨0, rfl⟩
  current := nofun
  accepted := accepted_of_allowed (by decide)

variable {p q : Plotter}

/-- Whatever else an action changes, it may leave the surface with its tree and parameters. -/
theorem Fresh.keep (h : Fresh p) (hp : q.parameters = p.parameters) (ht : q.tree = p.tree)
    (ho : q.output = p.output) (hn : q.needsSweep = p.needsSweep) : Fresh q := by
  refine ⟨?_, ?_, ?_, ?_, ?_, accepted_of_allowed ?_⟩
  all_goals simp only [hp, ht, ho, hn]
  · exact h.allowed
  · exact h.whole
  · exact h.triples
  · exact h.square
  · exact h.current
  · exact h.allowed

/-- An action that asks for a new sweep may change the tree and the parameters. -/
theorem Fresh.ask (h : Fresh p) (ha : Allowed q.parameters) (ho : q.output = p.output)
    (hn : q.needsSweep = true) : Fresh q := by
  refine ⟨ha, ?_, ?_, ?_, ?_, accepted_of_allowed ha⟩
  all_goals simp only [ho, hn]
  · exact h.whole
  · exact h.triples
  · exact h.square
  · nofun

theorem Fresh.sweepAgain (h : Fresh p) : Fresh p.sweepAgain := by
  obtain ⟨s, hs, eq⟩ := h.accepted
  obtain ⟨triples, square⟩ := sizes_of_sweepMachine h.allowed hs
  rw [eq]
  exact ⟨h.allowed, Or.inr ⟨_, _, hs⟩, triples, square, fun _ => hs, accepted_of_allowed h.allowed⟩

theorem Fresh.setParameters (h : Fresh p) {parameters : Parameters} (ha : Allowed parameters) :
    Fresh (p.setParameters parameters) := by
  unfold Plotter.setParameters
  split
  next => exact h
  next => exact h.ask ha rfl rfl

theorem Fresh.setResolution (h : Fresh p) (resolution : Nat) :
    Fresh (p.setResolution resolution) :=
  h.setParameters ⟨Nat.le_max_left .., Nat.max_le.mpr ⟨by decide, Nat.min_le_right ..⟩⟩

theorem Fresh.applyFormula (h : Fresh p) : Fresh p.applyFormula := by
  unfold Plotter.applyFormula
  split
  next => exact h.ask h.allowed rfl rfl
  next => exact h.ask h.allowed rfl rfl

theorem Fresh.drag (h : Fresh p) (input : Input) : Fresh (Window.drag input p) := by
  unfold Window.drag
  split
  next =>
    split
    next => exact h
    next => exact h.keep rfl rfl rfl rfl
  next => exact h

theorem Fresh.act (h : Fresh p) (a : Action) : Fresh (a.act p) := by
  cases a with
  | clearEntry => exact h.keep rfl rfl rfl rfl
  | sweepIfNeeded =>
    rw [Action.act, doIf]
    split
    next => exact h.sweepAgain
    next => exact h
  | edit => exact h.keep rfl rfl rfl rfl
  | applyFormula => exact h.applyFormula.keep rfl rfl rfl rfl
  | reset => exact fresh_initial
  | setMode => exact h.setParameters h.allowed
  | setPalette => exact h.keep rfl rfl rfl rfl
  | toggleLogHeight => exact h.setParameters h.allowed
  | setResolution => exact h.setResolution _
  | setDefaultResolution => exact h.setResolution _
  | drag distance => exact h.drag _

/-- From the formula field on, a pass shows the surface of the current tree and parameters. -/
theorem Fresh.sweepMachine_begin (h : Fresh p) (input : Input) :
    sweepMachine Plotter.wordSize (begin input p).parameters (begin input p).tree =
      .ok (begin input p).output := by
  have cleared : Fresh (doIf input.escape Plotter.clearEntry p) := by
    unfold doIf
    split
    next => exact h.keep rfl rfl rfl rfl
    next => exact h
  unfold begin
  generalize doIf input.escape Plotter.clearEntry p = q at cleared
  simp only
  cases hn : q.needsSweep with
  | true =>
    obtain ⟨s, hs, eq⟩ := cleared.accepted
    rw [doIf, if_pos rfl, eq]
    exact hs
  | false => exact cleared.current hn

/-- The surface is fresh after every pass, and at every moment within a pass. -/
theorem run_fresh (inputs : List Input) :
    Fresh (run inputs).plotter ∧ ∀ k, Fresh (moment inputs k) := by
  have moments := moment_induction fresh_initial (fun a p (h : Fresh p) => h.act a) inputs
  exact ⟨plotter_run inputs ▸ moments _, moments⟩

end Argand.Window
