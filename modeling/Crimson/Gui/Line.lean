import Crimson.Lib.LineWalk
import Mathlib.Data.List.Range

/-!
# Lines (`gfx_line` in `gui_graphics.c`)

The loop ends at the far point only, and every value in it is an `int32_t`: a result outside 32
bits would be undefined, so the model has none. For end points whose coordinates are at most 2^28
the loop is the walk of `Lib.LineWalk` (`gfxLineLoop_eq`), which the bounds of its error keep
within 32 bits.
-/

set_option autoImplicit false

namespace Crimson.Gui

open Crimson.Lib.LineWalk

/-- A value of type `int32_t`. -/
def int32 (n : Int) : Option Int := if -2 ^ 31 ≤ n ∧ n < 2 ^ 31 then some n else none

/-- The local variables that the loop changes. -/
structure LineState where
  x0 : Int
  y0 : Int
  err : Int
deriving DecidableEq, Repr

/-- A round of the loop behind the test for the end point. -/
def gfxLineStep (dx dy sx sy : Int) (s : LineState) : Option LineState := do
  let e2 ← int32 (2 * s.err)
  let minusDy ← int32 (-dy)
  let s ← if minusDy < e2 then do
      let err ← int32 (s.err - dy)
      let x0 ← int32 (s.x0 + sx)
      some { s with x0 := x0, err := err }
    else some s
  if e2 < dx then do
    let err ← int32 (s.err + dx)
    let y0 ← int32 (s.y0 + sy)
    some { s with y0 := y0, err := err }
  else some s

/-- `while (1)`: the points that are plotted. -/
def gfxLineLoop (x1 y1 dx dy sx sy : Int) : Nat → LineState → Option (List (Int × Int))
  | 0, _ => none
  | fuel + 1, s =>
    if s.x0 = x1 ∧ s.y0 = y1 then some [(s.x0, s.y0)]
    else do
      let s' ← gfxLineStep dx dy sx sy s
      let points ← gfxLineLoop x1 y1 dx dy sx sy fuel s'
      some ((s.x0, s.y0) :: points)

/-- `gfx_line`, with a context: the points it gives to `gfx_putpixel`. -/
def gfxLine (fuel : Nat) (x0 y0 x1 y1 : Int) : Option (List (Int × Int)) := do
  let dx ← int32 (if x0 < x1 then x1 - x0 else x0 - x1)
  let dy ← int32 (if y0 < y1 then y1 - y0 else y0 - y1)
  let sx := if x0 < x1 then 1 else -1
  let sy := if y0 < y1 then 1 else -1
  let err ← int32 (dx - dy)
  gfxLineLoop x1 y1 dx dy sx sy fuel { x0 := x0, y0 := y0, err := err }

/-- Two points next to each other, or one. -/
def Touching (p q : Int × Int) : Prop := |q.1 - p.1| ≤ 1 ∧ |q.2 - p.2| ≤ 1

/-! ## The loop is the walk -/

section

variable {x0 y0 x1 y1 dx dy sx sy : Int} {n fuel : Nat}

theorem int32_eq {n : Int} (hlo : -2 ^ 31 ≤ n) (hhi : n < 2 ^ 31) : int32 n = some n := if_pos ⟨hlo, hhi⟩

/-- The variables after the steps of a walk. -/
def lineAt (x0 y0 sx sy : Int) (s : Walk) : LineState := ⟨x0 + sx * s.a, y0 + sy * s.b, s.err⟩

/-- A step to one side or the other stays where the coordinates are small. -/
structure Small (x0 y0 x1 y1 dx dy sx sy : Int) : Prop where
  x0_le : |x0| ≤ 2 ^ 28
  y0_le : |y0| ≤ 2 ^ 28
  dx_nonneg : 0 ≤ dx
  dx_le : dx ≤ 2 ^ 29
  dy_nonneg : 0 ≤ dy
  dy_le : dy ≤ 2 ^ 29
  sx_eq : sx = 1 ∨ sx = -1
  sy_eq : sy = 1 ∨ sy = -1
  x1_eq : x1 = x0 + sx * dx
  y1_eq : y1 = y0 + sy * dy

theorem int32_side {x sx a D : Int} (hx : |x| ≤ 2 ^ 28) (hs : sx = 1 ∨ sx = -1) (ha : 0 ≤ a) (haD : a ≤ D)
    (hD : D ≤ 2 ^ 29) :
    int32 (x + sx * a + sx) = some (x + sx * (a + 1)) := by
  have hx := abs_le.mp hx
  rcases hs with rfl | rfl
  · rw [int32_eq (by omega) (by omega)]
    congr 1
    omega
  · rw [int32_eq (by omega) (by omega)]
    congr 1
    omega

theorem gfxLineStep_eq {s : Walk} (h : Small x0 y0 x1 y1 dx dy sx sy) (hs : Between dx dy s) :
    gfxLineStep dx dy sx sy (lineAt x0 y0 sx sy s) = some (lineAt x0 y0 sx sy (advance dx dy s)) := by
  have hmax : max dx dy ≤ 2 ^ 29 := max_le h.dx_le h.dy_le
  have hlow := hs.low
  have hhigh := hs.high
  have hdx := h.dx_nonneg
  have hdxle := h.dx_le
  have hdy := h.dy_nonneg
  have hdyle := h.dy_le
  have hstepx := int32_side h.x0_le h.sx_eq hs.a_nonneg hs.a_le h.dx_le
  have hstepy := int32_side h.y0_le h.sy_eq hs.b_nonneg hs.b_le h.dy_le
  have he2 : int32 (2 * s.err) = some (2 * s.err) := int32_eq (by omega) (by omega)
  have hminus : int32 (-dy) = some (-dy) := int32_eq (by omega) (by omega)
  have hfirst : int32 (s.err - dy) = some (s.err - dy) := int32_eq (by omega) (by omega)
  have hsecond : int32 (s.err + dx) = some (s.err + dx) := int32_eq (by omega) (by omega)
  have hboth : int32 (s.err - dy + dx) = some (s.err - dy + dx) := int32_eq (by omega) (by omega)
  simp only [gfxLineStep, lineAt, he2, hminus, Option.bind_eq_bind, Option.bind_some]
  by_cases hx : -dy < 2 * s.err
  · by_cases hy : 2 * s.err < dx
    · simp [hx, hy, hfirst, hstepx, hboth, hstepy, advance]
    · simp [hx, hy, hfirst, hstepx, advance]
  · by_cases hy : 2 * s.err < dx
    · simp [hx, hy, hsecond, hstepy, advance]
    · simp [hx, hy, advance]

/-- The point of round `n`. -/
def pointAt (x0 y0 dx dy sx sy : Int) (n : Nat) : Int × Int :=
  (x0 + sx * (walk dx dy n).a, y0 + sy * (walk dx dy n).b)

theorem at_end_iff (h : Small x0 y0 x1 y1 dx dy sx sy) (hpos : 0 < max dx dy) (hn : (n : Int) ≤ max dx dy) :
    (x0 + sx * (walk dx dy n).a = x1 ∧ y0 + sy * (walk dx dy n).b = y1) ↔ (n : Int) = max dx dy := by
  rw [← walk_end_iff h.dx_nonneg h.dy_nonneg hpos hn, h.x1_eq, h.y1_eq]
  rcases h.sx_eq with rfl | rfl <;> rcases h.sy_eq with rfl | rfl <;> omega

/-- **The loop ends with round `max dx dy`**, and has plotted the points of the walk. -/
theorem gfxLineLoop_eq (h : Small x0 y0 x1 y1 dx dy sx sy) (hpos : 0 < max dx dy) {left : Nat}
    (hn : (n : Int) + left = max dx dy) (hfuel : left < fuel) :
    gfxLineLoop x1 y1 dx dy sx sy fuel (lineAt x0 y0 sx sy (walk dx dy n)) =
      some ((List.range' n (left + 1)).map (pointAt x0 y0 dx dy sx sy)) := by
  induction left generalizing n fuel with
  | zero =>
    obtain ⟨fuel, rfl⟩ := Nat.exists_eq_succ_of_ne_zero (Nat.ne_of_gt hfuel)
    have hend := (at_end_iff h hpos (by omega)).mpr (show (n : Int) = max dx dy by omega)
    rw [gfxLineLoop]
    exact if_pos hend
  | succ left ih =>
    obtain ⟨fuel, rfl⟩ := Nat.exists_eq_succ_of_ne_zero (show fuel ≠ 0 by omega)
    have hgoing := mt (at_end_iff h hpos (by omega)).mp (show ¬(n : Int) = max dx dy by omega)
    have hbetween := between_walk h.dx_nonneg h.dy_nonneg hpos (show (n : Int) ≤ max dx dy by omega)
    have hrest : gfxLineLoop x1 y1 dx dy sx sy fuel (lineAt x0 y0 sx sy (walk dx dy (n + 1))) =
        some ((List.range' (n + 1) (left + 1)).map (pointAt x0 y0 dx dy sx sy)) := ih (by omega) (by omega)
    have hsplit : List.range' n (left + 1 + 1) = n :: List.range' (n + 1) (left + 1) := List.range'_succ
    rw [gfxLineLoop, hsplit]
    refine (if_neg hgoing).trans ?_
    rw [gfxLineStep_eq h hbetween, ← walk_succ]
    simp only [Option.bind_eq_bind, Option.bind_some, hrest]
    rfl

/-! ## A line -/

theorem gfxLine_eq (hx0 : |x0| ≤ 2 ^ 28) (hy0 : |y0| ≤ 2 ^ 28) (hx1 : |x1| ≤ 2 ^ 28) (hy1 : |y1| ≤ 2 ^ 28) :
    ∃ dx dy sx sy, dx = |x1 - x0| ∧ dy = |y1 - y0| ∧ Small x0 y0 x1 y1 dx dy sx sy ∧
      ∀ fuel, gfxLine fuel x0 y0 x1 y1 = gfxLineLoop x1 y1 dx dy sx sy fuel (lineAt x0 y0 sx sy (walk dx dy 0)) := by
  have hboundx0 := abs_le.mp hx0
  have hboundy0 := abs_le.mp hy0
  have hboundx1 := abs_le.mp hx1
  have hboundy1 := abs_le.mp hy1
  obtain ⟨dx, hdx⟩ : ∃ dx, dx = if x0 < x1 then x1 - x0 else x0 - x1 := ⟨_, rfl⟩
  obtain ⟨dy, hdy⟩ : ∃ dy, dy = if y0 < y1 then y1 - y0 else y0 - y1 := ⟨_, rfl⟩
  obtain ⟨sx, hsx⟩ : ∃ sx : Int, sx = if x0 < x1 then 1 else -1 := ⟨_, rfl⟩
  obtain ⟨sy, hsy⟩ : ∃ sy : Int, sy = if y0 < y1 then 1 else -1 := ⟨_, rfl⟩
  have hside {p q D s : Int} (hD : D = if p < q then q - p else p - q) (hs : s = if p < q then 1 else -1) :
      D = |q - p| ∧ (s = 1 ∨ s = -1) ∧ q = p + s * D := by
    split at hD
    · rename_i hlt
      rw [if_pos hlt] at hs
      subst hs
      rw [abs_of_pos (by omega)]
      omega
    · rename_i hge
      rw [if_neg hge] at hs
      subst hs
      rw [abs_of_nonpos (by omega)]
      omega
  obtain ⟨habsx, hsx', hendx⟩ := hside hdx hsx
  obtain ⟨habsy, hsy', hendy⟩ := hside hdy hsy
  have hdx0 : 0 ≤ dx := habsx ▸ abs_nonneg _
  have hdy0 : 0 ≤ dy := habsy ▸ abs_nonneg _
  have hdx1 : dx ≤ 2 ^ 29 := habsx ▸ abs_le.mpr ⟨by omega, by omega⟩
  have hdy1 : dy ≤ 2 ^ 29 := habsy ▸ abs_le.mpr ⟨by omega, by omega⟩
  refine ⟨dx, dy, sx, sy, habsx, habsy, ⟨hx0, hy0, hdx0, hdx1, hdy0, hdy1, hsx', hsy', hendx, hendy⟩, fun fuel => ?_⟩
  have hstart : lineAt x0 y0 sx sy (walk dx dy 0) = { x0 := x0, y0 := y0, err := dx - dy } := by
    simp [lineAt, walk]
  rw [gfxLine, ← hdx, ← hdy, ← hsx, ← hsy, int32_eq (by omega) (by omega), int32_eq (by omega) (by omega), hstart]
  simp only [Option.bind_eq_bind, Option.bind_some]
  rw [int32_eq (by omega) (by omega)]
  rfl

theorem pointAt_touching (h : Small x0 y0 x1 y1 dx dy sx sy) (n : Nat) :
    Touching (pointAt x0 y0 dx dy sx sy n) (pointAt x0 y0 dx dy sx sy (n + 1)) := by
  obtain ⟨ha, ha', hb, hb'⟩ := advance_near dx dy (walk dx dy n)
  simp only [Touching, pointAt, walk_succ, abs_le]
  rcases h.sx_eq with rfl | rfl <;> rcases h.sy_eq with rfl | rfl <;> omega

theorem pointAt_zero : pointAt x0 y0 dx dy sx sy 0 = (x0, y0) := by
  simp [pointAt, walk]

theorem pointAt_end (h : Small x0 y0 x1 y1 dx dy sx sy) (hn : (n : Int) = max dx dy) :
    pointAt x0 y0 dx dy sx sy n = (x1, y1) := by
  by_cases hpos : 0 < max dx dy
  · have hend := (at_end_iff h hpos hn.le).mpr hn
    exact Prod.ext hend.1 hend.2
  · have hdx := h.dx_nonneg
    have hdy := h.dy_nonneg
    obtain rfl : n = 0 := by omega
    rw [pointAt_zero, h.x1_eq, h.y1_eq, show dx = 0 by omega, show dy = 0 by omega, Int.mul_zero, Int.mul_zero,
      Int.add_zero, Int.add_zero]

theorem gfxLineLoop_start (h : Small x0 y0 x1 y1 dx dy sx sy) (hn : (n : Int) = max dx dy) (hfuel : n < fuel) :
    gfxLineLoop x1 y1 dx dy sx sy fuel (lineAt x0 y0 sx sy (walk dx dy 0)) =
      some ((List.range (n + 1)).map (pointAt x0 y0 dx dy sx sy)) := by
  by_cases hpos : 0 < max dx dy
  · rw [List.range_eq_range']
    exact gfxLineLoop_eq h hpos (by omega) hfuel
  · -- a line of one point
    have hdx := h.dx_nonneg
    have hdy := h.dy_nonneg
    obtain rfl : n = 0 := by omega
    obtain ⟨fuel, rfl⟩ := Nat.exists_eq_succ_of_ne_zero (Nat.ne_of_gt hfuel)
    have hend := pointAt_end h hn
    rw [gfxLineLoop]
    exact if_pos ⟨congrArg Prod.fst hend, congrArg Prod.snd hend⟩

/-- What a line is: as many points as the longer side asks for, from end to end without a gap. -/
structure IsLine (x0 y0 x1 y1 : Int) (points : List (Int × Int)) : Prop where
  length : (points.length : Int) = max |x1 - x0| |y1 - y0| + 1
  head : points.head? = some (x0, y0)
  last : points.getLast? = some (x1, y1)
  touching : points.IsChain Touching

/-- **`gfx_line` plots a line**, within 32 bits and in as many rounds as it has points. -/
theorem gfx_line_plots (hx0 : |x0| ≤ 2 ^ 28) (hy0 : |y0| ≤ 2 ^ 28) (hx1 : |x1| ≤ 2 ^ 28) (hy1 : |y1| ≤ 2 ^ 28) :
    ∃ points, IsLine x0 y0 x1 y1 points ∧ ∀ fuel, points.length ≤ fuel → gfxLine fuel x0 y0 x1 y1 = some points := by
  obtain ⟨dx, dy, sx, sy, hdx, hdy, hsmall, hline⟩ := gfxLine_eq hx0 hy0 hx1 hy1
  have hdx0 := hsmall.dx_nonneg
  obtain ⟨n, hn⟩ : ∃ n : Nat, (n : Int) = max dx dy := ⟨(max dx dy).toNat, Int.toNat_of_nonneg (le_max_of_le_left hdx0)⟩
  refine ⟨(List.range (n + 1)).map (pointAt x0 y0 dx dy sx sy), ⟨?_, ?_, ?_, ?_⟩, ?_⟩
  · rw [List.length_map, List.length_range, Nat.cast_succ, hn, hdx, hdy]
  · rw [List.head?_map, List.head?_range, if_neg (Nat.succ_ne_zero n), Option.map_some, pointAt_zero]
  · rw [List.getLast?_map, List.getLast?_range, if_neg (Nat.succ_ne_zero n), Option.map_some, Nat.add_sub_cancel,
      pointAt_end hsmall hn]
  · exact (List.isChain_map _).mpr ((List.isChain_range_succ _ n).mpr fun m _ => pointAt_touching hsmall m)
  · intro fuel hfuel
    rw [List.length_map, List.length_range] at hfuel
    rw [hline, gfxLineLoop_start hsmall hn hfuel]

theorem gfx_line_plots_flat :
    ∃ points, IsLine 0 0 5 (-2) points ∧ ∀ fuel, points.length ≤ fuel → gfxLine fuel 0 0 5 (-2) = some points :=
  gfx_line_plots (by decide) (by decide) (by decide) (by decide)

end

end Crimson.Gui
