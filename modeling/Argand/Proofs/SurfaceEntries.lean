import Argand.Proofs.SweepSamples

namespace Argand.Plot

namespace Surface

variable {S : Type}

/-! What a surface holds of the point with the given index. -/

def x? (s : Surface S) (index : Nat) : Option S := s.positions[3 * index]?

def height? (s : Surface S) (index : Nat) : Option S := s.positions[3 * index + 1]?

def z? (s : Surface S) (index : Nat) : Option S := s.positions[3 * index + 2]?

def channel? (s : Surface S) (index : Nat) : Option S := s.channels[index]?

structure Holds (s : Surface S) (index : Nat) (e : Sample S) : Prop where
  x : s.x? index = some e.x
  height : s.height? index = some e.height
  z : s.z? index = some e.z
  channel : s.channel? index = some e.channel

end Surface

section Sweep

variable {R S : Type} [Scalar R] [Elementary R] [Scalar S] [Narrowing R S]
  (w : Nat) (g : Grid) (p : Parameters) (x : Expr R) (index : Nat)

theorem getElem?_positions_sweepGrid {part : Nat} (hp : part < 3) :
    (sweepGrid (S := S) w g p x).positions[3 * index + part]? =
      if index < g.pointCount w then
        let s : Sample S := sampleAt w g p x index
        [s.x, s.height, s.z][part]?
      else none := by
  split
  next h =>
    have entry : ((List.range (g.pointCount w)).map (sampleAt (S := S) w g p x))[index]? =
        some (sampleAt w g p x index) := by
      rw [List.getElem?_map, List.getElem?_range h]
      rfl
    rw [sweepGrid_eq_ofSamples, Surface.getElem?_positions_ofSamples entry part hp]
  next h =>
    have size := size_positions_sweepGrid (S := S) w g p x
    exact Array.getElem?_eq_none (by omega)

theorem x?_sweepGrid : (sweepGrid (S := S) w g p x).x? index =
    if index < g.pointCount w then some (sampleAt w g p x index : Sample S).x else none :=
  getElem?_positions_sweepGrid w g p x index (show 0 < 3 by decide)

theorem height?_sweepGrid : (sweepGrid (S := S) w g p x).height? index =
    if index < g.pointCount w then some (sampleAt w g p x index : Sample S).height else none :=
  getElem?_positions_sweepGrid w g p x index (show 1 < 3 by decide)

theorem z?_sweepGrid : (sweepGrid (S := S) w g p x).z? index =
    if index < g.pointCount w then some (sampleAt w g p x index : Sample S).z else none :=
  getElem?_positions_sweepGrid w g p x index (show 2 < 3 by decide)

theorem channel?_sweepGrid : (sweepGrid (S := S) w g p x).channel? index =
    if index < g.pointCount w then some (sampleAt w g p x index : Sample S).channel else none := by
  rw [Surface.channel?, ← Array.getElem?_toList, sweepGrid_eq_ofSamples, Surface.channels_ofSamples,
    List.map_map, List.getElem?_map]
  split
  next h =>
    rw [List.getElem?_range h]
    rfl
  next h =>
    rw [List.getElem?_eq_none (by rw [List.length_range]; omega)]
    rfl

theorem holds_sweepGrid (h : index < g.pointCount w) :
    (sweepGrid w g p x).Holds index (sampleAt w g p x index : Sample S) where
  x := by rw [x?_sweepGrid, if_pos h]
  height := by rw [height?_sweepGrid, if_pos h]
  z := by rw [z?_sweepGrid, if_pos h]
  channel := by rw [channel?_sweepGrid, if_pos h]

theorem singularCount_sweepGrid : (sweepGrid (S := S) w g p x).singularCount =
    (List.range (g.pointCount w)).countP fun i => (x.eval (g.point w i)).bound.2.isSome := by
  rw [sweepGrid_eq_ofSamples, Surface.singularCount_ofSamples, List.countP_map]
  rfl

end Sweep

end Argand.Plot
