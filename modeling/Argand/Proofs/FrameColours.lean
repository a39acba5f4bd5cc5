import Argand.Proofs.OneShot
import Argand.Proofs.PreviewMesh

namespace Argand

namespace Preview

open Plot (Mode Surface)

variable {o : Orientation} {mode : Mode} {palette : Palette} {s : Surface Float32}
  {preview : Preview}

/-- The corner stands on a point of the surface and has the colour of its channel. -/
def Shows (mode : Mode) (palette : Palette) (s : Surface Float32) (v : Vertex) : Prop :=
  ∃ k channel, s.channels[k]? = some channel ∧ s.positions[3 * k]? = some v.x ∧
    s.positions[3 * k + 2]? = some v.z ∧ v.colour = Plot.colour mode palette channel

theorem shows_of_ofSurface? (h : ofSurface? o mode palette s = some preview) :
    ∀ v ∈ preview.vertices, Shows mode palette s v := by
  obtain ⟨side, hs, rfl⟩ := Option.map_eq_some_iff.mp h
  obtain ⟨pos, square, triples⟩ := side?_eq_some_iff.mp hs
  intro v hv
  obtain ⟨l, hl, hv⟩ := List.mem_flatMap.mp (List.mem_toArray.mp hv)
  obtain ⟨c, hc, rfl⟩ := List.mem_map.mp hv
  have stands : StandsOn o mode palette s (l * side + c) (vertex o mode palette s (l * side + c)) :=
    standsOn_vertex triples (lt_pointCount square pos hl hc)
  obtain ⟨channel, there, colour⟩ := stands.colour
  exact ⟨l * side + c, channel, there, stands.x, stands.z, colour⟩

end Preview

namespace Window

open Plot (Mode Surface sweepMachine)

variable {input : Input} {p : Plotter} {a : Action} {as : List Action}

/-- The actions of a pass after the sweep and the drawing of the formula field. -/
def lateActions (input : Input) : List Action :=
  asked input.enter .applyFormula ++ asked (input.clicked .plot) .applyFormula ++
  asked (input.clicked .clear) .clearEntry ++ asked (input.clicked .clearAll) .reset ++
  Mode.all.flatMap (fun m => asked (input.clicked (.mode m)) (.setMode m)) ++
  Palette.all.flatMap (fun c => asked (input.clicked (.palette c)) (.setPalette c)) ++
  asked (input.clicked .logHeight) .toggleLogHeight ++ [.setResolution input.resolution] ++
  asked (input.clicked .defaultResolution) .setDefaultResolution ++ [.drag input.drag]

theorem actions_eq (input : Input) : actions input =
    asked input.escape .clearEntry ++ [.sweepIfNeeded, .edit input.edit] ++ lateActions input := by
  simp only [actions, lateActions, List.append_assoc]

theorem plotter_pass_begin (w : Window) (input : Input) :
    (w.pass input).1.plotter = act (begin input w.plotter) (lateActions input) := by
  rw [plotter_pass, actions_eq, act_append, act_append, act_asked]
  rfl

theorem mem_asked {b : Bool} {c : Action} : a ∈ asked b c ↔ b = true ∧ a = c := by
  cases b <;> simp [asked]

theorem sweep_not_mem_lateActions (input : Input) : .sweepIfNeeded ∉ lateActions input := by
  simp [lateActions, mem_asked]

theorem reset_mem_lateActions (input : Input) :
    .reset ∈ lateActions input ↔ input.clicked .clearAll = true := by
  simp [lateActions, mem_asked]

/-- The modes that are clicked, in the order in which they are set. -/
def clickedModes (input : Input) : List Mode := Mode.all.filter fun m => input.clicked (.mode m)

def Action.mode? : Action → Option Mode
  | setMode m => some m
  | _ => none

theorem filterMap_asked (b : Bool) (a : Action) :
    (asked b a).filterMap Action.mode? = if b then a.mode?.toList else [] := by
  cases b
  · rfl
  · cases h : a.mode? <;> simp [asked, h]

theorem filterMap_setModes (modes : List Mode) :
    (modes.flatMap fun m => asked (input.clicked (.mode m)) (.setMode m)).filterMap Action.mode? =
      modes.filter fun m => input.clicked (.mode m) := by
  induction modes with
  | nil => rfl
  | cons m modes ih =>
    rw [List.flatMap_cons, List.filterMap_append, ih, filterMap_asked]
    cases h : input.clicked (.mode m) <;> simp [h, Action.mode?]

theorem filterMap_lateActions (input : Input) :
    (lateActions input).filterMap Action.mode? = clickedModes input := by
  simp only [lateActions, List.filterMap_append, filterMap_setModes]
  simp [clickedModes, filterMap_asked, Action.mode?, Palette.all]

theorem parameters_setParameters (p : Plotter) (parameters : Plot.Parameters) :
    (p.setParameters parameters).parameters = parameters := by
  unfold Plotter.setParameters
  split
  next same => exact same
  next => rfl

theorem output_setParameters (p : Plotter) (parameters : Plot.Parameters) :
    (p.setParameters parameters).output = p.output := by
  unfold Plotter.setParameters
  split <;> rfl

theorem unasked_setParameters {parameters : Plot.Parameters}
    (h : (p.setParameters parameters).needsSweep = false) :
    p.needsSweep = false ∧ (p.setParameters parameters).parameters = p.parameters := by
  unfold Plotter.setParameters at h ⊢
  split at h
  next same => exact ⟨h, by rw [if_pos same]⟩
  next => cases h

theorem applyAndFocus_output (p : Plotter) : (applyAndFocus p).output = p.output := by
  unfold applyAndFocus Plotter.applyFormula
  split <;> rfl

theorem drag_kept (input : Input) (p : Plotter) :
    (Window.drag input p).parameters = p.parameters ∧ (Window.drag input p).output = p.output ∧
      (Window.drag input p).needsSweep = p.needsSweep := by
  unfold Window.drag
  split
  next => split <;> exact ⟨rfl, rfl, rfl⟩
  next => exact ⟨rfl, rfl, rfl⟩

theorem Action.mode_act (hr : a ≠ .reset) (p : Plotter) :
    (a.act p).parameters.mode = a.mode?.getD p.parameters.mode := by
  cases a with
  | clearEntry | edit | setPalette => rfl
  | sweepIfNeeded => exact congrArg (·.mode) (sweepIfNeeded_parameters p)
  | applyFormula => exact congrArg (·.mode) (applyAndFocus_parameters p)
  | reset => exact absurd rfl hr
  | setMode | toggleLogHeight | setResolution | setDefaultResolution =>
    exact congrArg (·.mode) (parameters_setParameters p _)
  | drag => exact congrArg (·.mode) (drag_kept _ p).1

theorem Action.output_act (hr : a ≠ .reset) (hs : a ≠ .sweepIfNeeded) (p : Plotter) :
    (a.act p).output = p.output := by
  cases a with
  | clearEntry | edit | setPalette => rfl
  | sweepIfNeeded => exact absurd rfl hs
  | applyFormula => exact applyAndFocus_output p
  | reset => exact absurd rfl hr
  | setMode | toggleLogHeight | setResolution | setDefaultResolution =>
    exact output_setParameters p _
  | drag => exact (drag_kept _ p).2.1

theorem Action.unasked (hs : a ≠ .sweepIfNeeded) (h : (a.act p).needsSweep = false) :
    p.needsSweep = false ∧ (a.act p).parameters = p.parameters := by
  cases a with
  | clearEntry | edit | setPalette => exact ⟨h, rfl⟩
  | sweepIfNeeded => exact absurd rfl hs
  | applyFormula => cases (applyAndFocus_needsSweep p).symm.trans h
  | reset => cases h
  | setMode | toggleLogHeight | setResolution | setDefaultResolution =>
    exact unasked_setParameters h
  | drag =>
    obtain ⟨parameters, -, needsSweep⟩ := drag_kept _ p
    exact ⟨needsSweep.symm.trans h, parameters⟩

theorem act_mode (hr : .reset ∉ as) (p : Plotter) :
    (act p as).parameters.mode = (as.filterMap Action.mode?).getLast?.getD p.parameters.mode := by
  induction as generalizing p with
  | nil => rfl
  | cons a as ih =>
    obtain ⟨first, others⟩ := List.ne_and_not_mem_of_not_mem_cons hr
    rw [act_cons, ih others, Action.mode_act (Ne.symm first), List.filterMap_cons]
    cases a.mode? with
    | none => rfl
    | some m => simp only [List.getLast?_cons, Option.getD_some]

theorem act_output (hs : .sweepIfNeeded ∉ as) (p : Plotter) :
    .reset ∉ as ∧ (act p as).output = p.output ∨ .reset ∈ as ∧ (act p as).output = .empty := by
  induction as generalizing p with
  | nil => exact Or.inl ⟨List.not_mem_nil, rfl⟩
  | cons a as ih =>
    obtain ⟨first, others⟩ := List.ne_and_not_mem_of_not_mem_cons hs
    rw [act_cons]
    by_cases hr : a = .reset
    · subst hr
      refine Or.inr ⟨List.mem_cons_self, ?_⟩
      rcases ih others (Action.act .reset p) with ⟨-, kept⟩ | ⟨-, empty⟩
      · exact kept
      · exact empty
    · rw [← Action.output_act hr (Ne.symm first) p]
      rcases ih others (a.act p) with ⟨none, kept⟩ | ⟨later, empty⟩
      · exact Or.inl ⟨List.not_mem_cons_of_ne_of_not_mem (Ne.symm hr) none, kept⟩
      · exact Or.inr ⟨List.mem_cons_of_mem a later, empty⟩

theorem act_unasked (hs : .sweepIfNeeded ∉ as) (h : (act p as).needsSweep = false) :
    p.needsSweep = false ∧ (act p as).parameters = p.parameters := by
  induction as generalizing p with
  | nil => exact ⟨h, rfl⟩
  | cons a as ih =>
    obtain ⟨first, others⟩ := List.ne_and_not_mem_of_not_mem_cons hs
    obtain ⟨before, later⟩ := ih others h
    obtain ⟨start, now⟩ := Action.unasked (Ne.symm first) before
    exact ⟨start, later.trans now⟩

theorem begin_kept (input : Input) (p : Plotter) :
    (begin input p).parameters = p.parameters ∧ (begin input p).tree = p.tree := by
  have cleared : (doIf input.escape Plotter.clearEntry p).parameters = p.parameters ∧
      (doIf input.escape Plotter.clearEntry p).tree = p.tree := by
    unfold doIf
    split <;> exact ⟨rfl, rfl⟩
  rw [← cleared.1, ← cleared.2]
  unfold begin
  generalize doIf input.escape Plotter.clearEntry p = q
  refine ⟨sweepIfNeeded_parameters q, ?_⟩
  change (doIf q.needsSweep Plotter.sweepAgain q).tree = q.tree
  unfold doIf Plotter.sweepAgain
  split
  next => split <;> rfl
  next => rfl

/-- How a pass with this input shows a plotter, with the plotter and the preview after it. -/
structure Frame (input : Input) (p q : Plotter) (preview : Preview) : Prop where
  /-- The channels are those of the sweep with the mode from before the pass. -/
  swept : sweepMachine Plotter.wordSize p.parameters p.tree = .ok q.output
  shows : ∀ v ∈ preview.vertices, Preview.Shows q.parameters.mode q.palette q.output v
  mode : q.parameters.mode = (clickedModes input).getLast?.getD p.parameters.mode
  /-- If the mode is another one now, the next pass sweeps anew. -/
  unasked : q.needsSweep = false → q.parameters = p.parameters

/-- Where no other mode is clicked, the colours are those of the mode of the sweep. -/
theorem Frame.shows_of_same_mode {q : Plotter} {preview : Preview} (h : Frame input p q preview)
    (same : ∀ m ∈ clickedModes input, m = p.parameters.mode) :
    ∀ v ∈ preview.vertices, Preview.Shows p.parameters.mode q.palette q.output v := by
  have kept : q.parameters.mode = p.parameters.mode := by
    rw [h.mode]
    cases last : (clickedModes input).getLast? with
    | none => rfl
    | some m => exact same m (List.mem_of_getLast? last)
  exact kept ▸ h.shows

theorem side?_of_sweepMachine {parameters : Plot.Parameters} {x : Expr Float}
    {s : Surface Float32} (ha : Allowed parameters)
    (h : sweepMachine Plotter.wordSize parameters x = .ok s) :
    Preview.side? s = some (Plot.exactSide parameters.resolution) := by
  rw [sweepMachine_eq_ok ha, Except.ok.injEq] at h
  have count := pointCount_of_allowed ha
  refine Preview.side?_eq_some_iff.mpr ⟨Nat.succ_pos _, ?_, ?_⟩
  · rw [← h, Surface.pointCount, Plot.size_channels_sweepGrid, count]
  · rw [← h, Surface.pointCount, Plot.size_positions_sweepGrid, Plot.size_channels_sweepGrid]

theorem fresh_run (inputs : List Input) : Fresh (run inputs).plotter :=
  plotter_run inputs ▸ moment_induction fresh_initial (fun _ _ h => h.act _) inputs _

/-- A pass paints unless everything is cleared, and what it paints are the channels of the sweep in
the mode from before the pass, in the colours of the mode that was clicked last. -/
theorem pass_frame (inputs : List Input) (input : Input) :
    ((run inputs).pass input).2.preview.isSome = !input.clicked .clearAll ∧
    ∀ preview, ((run inputs).pass input).2.preview = some preview →
      Frame input (run inputs).plotter ((run inputs).pass input).1.plotter preview := by
  have painted : ((run inputs).pass input).2.preview =
      paint ((run inputs).pass input).1.plotter := rfl
  rw [painted, plotter_pass_begin]
  have fresh := fresh_run inputs
  generalize (run inputs).plotter = p at fresh
  obtain ⟨parameters, tree⟩ := begin_kept input p
  have swept := fresh.sweepMachine_begin input
  rw [parameters, tree] at swept
  rcases act_output (sweep_not_mem_lateActions input) (begin input p) with
    ⟨kept, output⟩ | ⟨reset, output⟩
  · have clicked : input.clicked .clearAll = false :=
      Bool.eq_false_iff.mpr (mt (reset_mem_lateActions input).mpr kept)
    rw [← output] at swept
    refine ⟨?_, fun preview h => ⟨swept, Preview.shows_of_ofSurface? h, ?_, fun h => ?_⟩⟩
    · rw [paint, Preview.ofSurface?, side?_of_sweepMachine fresh.allowed swept, clicked]
      rfl
    · rw [act_mode kept, filterMap_lateActions, parameters]
    · rw [← parameters]
      exact (act_unasked (sweep_not_mem_lateActions input) h).2
  · have nothing : paint (act (begin input p) (lateActions input)) = none := by
      rw [paint, output]
      rfl
    rw [nothing, (reset_mem_lateActions input).mp reset]
    refine ⟨rfl, fun preview painted => ?_⟩
    cases painted

/-- After the first pass another mode is clicked: for one pass, imaginary parts are taken for
angles. -/
theorem pass_frame_mode_clicked : ∃ preview output,
    ((run [{}]).pass { clicked := fun b => b = .mode .length }).2.preview = some preview ∧
    sweepMachine Plotter.wordSize ⟨10, .real, false⟩ .unknown = .ok output ∧
    ∀ v ∈ preview.vertices, Preview.Shows .length .coloured output v := by
  obtain ⟨painted, frame⟩ := pass_frame [{}] { clicked := fun b => b = .mode .length }
  obtain ⟨preview, h⟩ := Option.isSome_iff_exists.mp painted
  obtain ⟨swept, shows, mode, -⟩ := frame preview h
  refine ⟨preview, _, h, swept, ?_⟩
  rw [mode] at shows
  exact shows

end Window
end Argand
