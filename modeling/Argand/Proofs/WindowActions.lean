import Argand.Window

namespace Argand.Window

/-- What a pass does to the plotter in one step. -/
inductive Action
  | clearEntry
  | sweepIfNeeded
  | edit (text : Option String)
  | applyFormula
  | reset
  | setMode (mode : Plot.Mode)
  | setPalette (palette : Palette)
  | toggleLogHeight
  | setResolution (resolution : Option Nat)
  | setDefaultResolution
  | drag (distance : Option (Float32 × Float32))

def Action.act : Action → Plotter → Plotter
  | clearEntry, p => p.clearEntry
  | sweepIfNeeded, p => doIf p.needsSweep Plotter.sweepAgain p
  | edit text, p => { p with entry := text.getD p.entry, focusEntry := false }
  | applyFormula, p => applyAndFocus p
  | reset, p => p.reset
  | setMode mode, p => p.setMode mode
  | setPalette palette, p => p.setPalette palette
  | toggleLogHeight, p => p.setLogHeight !p.parameters.logHeight
  | setResolution resolution, p => p.setResolution (resolution.getD p.parameters.resolution)
  | setDefaultResolution, p => p.setDefaultResolution
  | drag distance, p => Window.drag { drag := distance } p

def act (p : Plotter) (actions : List Action) : Plotter := actions.foldl (fun p a => a.act p) p

@[simp] theorem act_nil (p : Plotter) : act p [] = p := rfl

@[simp] theorem act_cons (p : Plotter) (a : Action) (rest : List Action) :
    act p (a :: rest) = act (a.act p) rest := rfl

@[simp] theorem act_append (p : Plotter) (as bs : List Action) :
    act p (as ++ bs) = act (act p as) bs :=
  List.foldl_append

def asked (b : Bool) (a : Action) : List Action := if b then [a] else []

/-- The actions of a pass, from the top of the window to the bottom. -/
def actions (input : Input) : List Action :=
  asked input.escape .clearEntry ++ [.sweepIfNeeded, .edit input.edit] ++
  asked input.enter .applyFormula ++ asked (input.clicked .plot) .applyFormula ++
  asked (input.clicked .clear) .clearEntry ++ asked (input.clicked .clearAll) .reset ++
  Plot.Mode.all.flatMap (fun m => asked (input.clicked (.mode m)) (.setMode m)) ++
  Palette.all.flatMap (fun c => asked (input.clicked (.palette c)) (.setPalette c)) ++
  asked (input.clicked .logHeight) .toggleLogHeight ++ [.setResolution input.resolution] ++
  asked (input.clicked .defaultResolution) .setDefaultResolution ++ [.drag input.drag]

theorem act_asked (b : Bool) (a : Action) (p : Plotter) : act p (asked b a) = doIf b a.act p := by
  cases b <;> rfl

theorem act_flatMap {α : Type} (xs : List α) (f : α → List Action) (p : Plotter) :
    act p (xs.flatMap f) = xs.foldl (fun p x => act p (f x)) p := by
  induction xs generalizing p with
  | nil => rfl
  | cons x xs ih => rw [List.flatMap_cons, act_append, ih, List.foldl_cons]

/-- A pass is its actions, one after the other. -/
theorem plotter_pass (w : Window) (input : Input) :
    (w.pass input).1.plotter = act w.plotter (actions input) := by
  simp only [actions, act_append, act_cons, act_nil, act_flatMap, act_asked]
  rfl

def run (inputs : List Input) : Window := inputs.foldl (fun w input => (w.pass input).1) initial

theorem run_snoc (inputs : List Input) (input : Input) :
    (run (inputs ++ [input])).plotter = act (run inputs).plotter (actions input) := by
  rw [run, List.foldl_append, List.foldl_cons, List.foldl_nil, plotter_pass]
  rfl

/-- The plotter after so many actions of a run, also within a pass. -/
def moment (inputs : List Input) (k : Nat) : Plotter :=
  act .initial ((inputs.flatMap actions).take k)

theorem plotter_run (inputs : List Input) :
    (run inputs).plotter = moment inputs (inputs.flatMap actions).length := by
  have passes (w : Window) : (inputs.foldl (fun w input => (w.pass input).1) w).plotter =
      act w.plotter (inputs.flatMap actions) := by
    induction inputs generalizing w with
    | nil => rfl
    | cons input inputs ih =>
      rw [List.foldl_cons, ih, plotter_pass, List.flatMap_cons, act_append]
  rw [run, passes, moment, List.take_length]
  rfl

theorem moment_succ {inputs : List Input} {k : Nat} {a : Action}
    (h : (inputs.flatMap actions)[k]? = some a) : moment inputs (k + 1) = a.act (moment inputs k) := by
  rw [moment, List.take_add_one, h, act_append]
  rfl

theorem moment_of_end {inputs : List Input} {k : Nat}
    (h : (inputs.flatMap actions)[k]? = none) : moment inputs (k + 1) = moment inputs k := by
  rw [moment, List.take_add_one, h, Option.toList_none, List.append_nil]
  rfl

/-- What holds when the window opens and is kept by every action holds at every moment. -/
theorem moment_induction {P : Plotter → Prop} (start : P .initial)
    (step : ∀ (a : Action) (p : Plotter), P p → P (a.act p)) (inputs : List Input) (k : Nat) :
    P (moment inputs k) := by
  have kept (as : List Action) (p : Plotter) (h : P p) : P (act p as) := by
    induction as generalizing p with
    | nil => exact h
    | cons a as ih => exact ih (a.act p) (step a p h)
  exact kept _ _ start

end Argand.Window
