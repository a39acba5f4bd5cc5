import Argand.Proofs.FreshSurface

namespace Argand

theorem Formula.parse_eq_map_compile (source : String) :
    parse source Argand.variableName = (compile source).map (·.1) := by
  unfold parse compile
  cases stages source Argand.variableName <;> rfl

namespace Plot

/-- With one subdivision at least there is a plot, of the formula or else of the identity, if there
is one at all. -/
theorem evaluateOrIdentity_eq {w : Nat} {parameters : Parameters} (h : 1 ≤ parameters.resolution)
    (source : String) :
    evaluateOrIdentity w source parameters = match Formula.parse source variableName with
      | .ok x => ((sweepMachine w parameters x).mapError (.map .configuration)).map (·, none)
      | .error e =>
        ((sweepMachine w parameters Expr.identity).mapError (.map .configuration)).map
          (·, some e) := by
  rw [evaluateOrIdentity, Grid.ofResolution_of_pos h]
  cases Formula.parse source variableName <;> rfl

end Plot

namespace Window

open Plot (sweepMachine evaluateOrIdentity Surface)

/-- The ways to have the text in the field read. -/
inductive Confirmation
  | enter
  | button

/-- The input of a pass in which a text is put in the field and confirmed. -/
def confirm (text : String) : Confirmation → Input
  | .enter => { edit := some text, enter := true }
  | .button => { edit := some text, clicked := fun b => b = .plot }

theorem actions_confirm (text : String) (c : Confirmation) :
    actions (confirm text c) = [.sweepIfNeeded, .edit (some text), .applyFormula,
      .setResolution none, .drag none] := by
  cases c <;> rfl

theorem actions_idle :
    actions {} = [.sweepIfNeeded, .edit none, .setResolution none, .drag none] := rfl

variable {p : Plotter}

theorem setResolution_of_allowed (h : Allowed p.parameters) :
    p.setResolution p.parameters.resolution = p := by
  have nearest : max 1 (min p.parameters.resolution Plotter.maxResolution) =
      p.parameters.resolution := by
    obtain ⟨low, high⟩ := h
    omega
  rw [Plotter.setResolution, nearest, Plotter.setParameters, if_pos rfl]

/-- The end of a pass without events changes nothing. -/
theorem act_rest (h : Allowed p.parameters) : act p [.setResolution none, .drag none] = p :=
  setResolution_of_allowed h

theorem sweepIfNeeded_parameters (p : Plotter) :
    (Action.act .sweepIfNeeded p).parameters = p.parameters := by
  rw [Action.act, doIf]
  split
  next =>
    unfold Plotter.sweepAgain
    split <;> rfl
  next => rfl

theorem applyAndFocus_parameters (p : Plotter) : (applyAndFocus p).parameters = p.parameters := by
  unfold applyAndFocus Plotter.applyFormula
  split <;> rfl

theorem applyAndFocus_needsSweep (p : Plotter) : (applyAndFocus p).needsSweep = true := by
  unfold applyAndFocus Plotter.applyFormula
  split <;> rfl

/-- Reading the text in the field tells the error and keeps the tree of the one-shot plot. -/
theorem evaluateOrIdentity_entry {s : Surface Float32} (h : Allowed p.parameters)
    (hs : sweepMachine Plotter.wordSize p.parameters (applyAndFocus p).tree = .ok s) :
    ∃ error, evaluateOrIdentity Plotter.wordSize (String.ofList (trimBlank p.entry.toList))
        p.parameters = .ok (s, error) ∧
      (applyAndFocus p).error = error.elim "" ReadError.message := by
  rw [Plot.evaluateOrIdentity_eq h.1, Formula.parse_eq_map_compile]
  unfold applyAndFocus Plotter.applyFormula at hs ⊢
  generalize Formula.compile (String.ofList (trimBlank p.entry.toList)) = result at hs ⊢
  cases result with
  | ok read =>
    have swept : sweepMachine Plotter.wordSize p.parameters read.1 = .ok s := hs
    refine ⟨none, ?_, rfl⟩
    simp only [Except.map, swept]
    rfl
  | error e =>
    have swept : sweepMachine Plotter.wordSize p.parameters Expr.identity = .ok s := hs
    refine ⟨some e, ?_, rfl⟩
    simp only [Except.map, swept]
    rfl

/-- A pass in which a text is confirmed ends with the text being read. -/
theorem act_confirm (h : Allowed p.parameters) (text : String) (c : Confirmation) :
    act p (actions (confirm text c)) =
      applyAndFocus (Action.act (.edit (some text)) (Action.act .sweepIfNeeded p)) := by
  have read (q : Plotter) (hq : q.parameters = p.parameters) :
      act (applyAndFocus q) [.setResolution none, .drag none] = applyAndFocus q :=
    act_rest (by rwa [applyAndFocus_parameters, hq])
  rw [actions_confirm]
  exact read _ (sweepIfNeeded_parameters p)

/-- A pass without events makes up for a sweep that is asked for. -/
theorem act_idle {s : Surface Float32} (h : Allowed p.parameters) (asked : p.needsSweep = true)
    (hs : sweepMachine Plotter.wordSize p.parameters p.tree = .ok s) :
    act p (actions {}) = { p.setOutput s with focusEntry := false } := by
  have swept : Action.act .sweepIfNeeded p = p.setOutput s := by
    rw [Action.act, doIf, if_pos asked, sweepAgain_eq_setOutput hs]
  rw [actions_idle, act_cons, act_cons, swept]
  exact act_rest h

/-- When a text has been confirmed in one pass, the next pass shows its plot and the error of its
reading, whatever was there before. -/
theorem confirmed_agrees_with_evaluate (inputs : List Input) (text : String) (c : Confirmation) :
    ∃ output error,
      evaluateOrIdentity Plotter.wordSize (String.ofList (trimBlank text.toList))
        (run inputs).plotter.parameters = .ok (output, error) ∧
      (run (inputs ++ [confirm text c, {}])).plotter.output = output ∧
      (run (inputs ++ [confirm text c, {}])).plotter.error = error.elim "" ReadError.message ∧
      (run (inputs ++ [confirm text c, {}])).plotter.needsSweep = false ∧
      (run (inputs ++ [confirm text c, {}])).plotter.parameters =
        (run inputs).plotter.parameters := by
  have fresh : Fresh (run inputs).plotter :=
    plotter_run inputs ▸ moment_induction fresh_initial (fun a p h => h.act a) inputs _
  have start := fresh.allowed
  generalize hp : (run inputs).plotter = p at start
  obtain ⟨q, hq⟩ : ∃ q, Action.act (.edit (some text)) (Action.act .sweepIfNeeded p) = q := ⟨_, rfl⟩
  have entry : q.entry = text := hq ▸ rfl
  have kept : q.parameters = p.parameters := hq ▸ sweepIfNeeded_parameters p
  have allowed : Allowed q.parameters := kept ▸ start
  obtain ⟨s, swept⟩ :
      ∃ s, sweepMachine Plotter.wordSize q.parameters (applyAndFocus q).tree = .ok s :=
    ⟨_, sweepMachine_eq_ok allowed _⟩
  obtain ⟨error, plot, message⟩ := evaluateOrIdentity_entry allowed swept
  have shown : (run (inputs ++ [confirm text c, {}])).plotter =
      { (applyAndFocus q).setOutput s with focusEntry := false } := by
    rw [List.append_cons, run_snoc, run_snoc, hp, act_confirm start, hq]
    rw [← applyAndFocus_parameters q] at allowed swept
    exact act_idle allowed (applyAndFocus_needsSweep q) swept
  rw [shown, ← kept, ← entry]
  exact ⟨s, error, plot, rfl, message, rfl, applyAndFocus_parameters q⟩

end Window
end Argand
