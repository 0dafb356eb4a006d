import Mathlib.Logic.Function.Iterate
import Mathlib.Tactic.Linarith

/-!
# Walking along a line with an error term

From a point to one that is `D` steps away in the one direction and `d` in the other: in each
round a step is taken in the first direction, in the second or in both, as the error says, and the
error takes it into account. `walk D d n` is where `n` rounds lead. With `d ≤ D` every round takes
a step in the first direction (`OnLine`), and the other case is the mirror image (`walk_swap`). So
the far end is reached with round `max D d` and not before (`walk_end_iff`).
-/

set_option autoImplicit false

namespace Crimson.Lib.LineWalk

/-- The steps taken in the two directions, and the error. -/
structure Walk where
  a : Int
  b : Int
  err : Int
deriving DecidableEq, Repr

def advance (D d : Int) (s : Walk) : Walk where
  a := if -d < 2 * s.err then s.a + 1 else s.a
  b := if 2 * s.err < D then s.b + 1 else s.b
  err := s.err - (if -d < 2 * s.err then d else 0) + (if 2 * s.err < D then D else 0)

def walk (D d : Int) (n : Nat) : Walk := (advance D d)^[n] ⟨0, 0, D - d⟩

/-- The directions exchanged. -/
def Walk.swap (s : Walk) : Walk := ⟨s.b, s.a, -s.err⟩

variable {D d : Int} {n : Nat} {s : Walk}

theorem walk_succ : walk D d (n + 1) = advance D d (walk D d n) := Function.iterate_succ_apply' ..

theorem advance_swap : advance d D s.swap = (advance D d s).swap := by
  have hfirst : -D < 2 * -s.err ↔ 2 * s.err < D := by omega
  have hsecond : 2 * -s.err < d ↔ -d < 2 * s.err := by omega
  simp only [advance, Walk.swap, hfirst, hsecond, Walk.mk.injEq, true_and]
  split <;> split <;> omega

theorem walk_swap : walk d D n = (walk D d n).swap := by
  induction n with
  | zero =>
    simp only [walk, Function.iterate_zero, id_eq, Walk.swap, Walk.mk.injEq, true_and]
    omega
  | succ n ih => rw [walk_succ, ih, advance_swap, walk_succ]

/-- A round takes a step or none in each direction. -/
theorem advance_near (D d : Int) (s : Walk) :
    s.a ≤ (advance D d s).a ∧ (advance D d s).a ≤ s.a + 1 ∧ s.b ≤ (advance D d s).b ∧ (advance D d s).b ≤ s.b + 1 := by
  simp only [advance]
  split <;> split <;> omega

/-! ## Along the longer side -/

/-- After `n` rounds with `d ≤ D`. -/
structure OnLine (D d : Int) (n : Nat) (s : Walk) : Prop where
  major : s.a = n
  minor : 0 ≤ s.b
  err : s.err = D - d - n * d + s.b * D
  low : -d < 2 * s.err
  high : 2 * s.err < 3 * D - 2 * d
  diagonal : d = D → s.err = 0

theorem onLine_start (hD : 0 < D) (hd : 0 ≤ d) (hle : d ≤ D) : OnLine D d 0 ⟨0, 0, D - d⟩ where
  major := rfl
  minor := le_rfl
  err := by simp
  low := by
    dsimp only
    omega
  high := by
    dsimp only
    omega
  diagonal := by
    dsimp only
    omega

theorem OnLine.advance (h : OnLine D d n s) (hd : 0 ≤ d) (hle : d ≤ D) :
    OnLine D d (n + 1) (advance D d s) := by
  have herr := h.err
  have hlow := h.low
  have hhigh := h.high
  have hdiag := h.diagonal
  have hnext : ((n + 1 : Nat) : Int) * d = n * d + d := by
    rw [Nat.cast_succ, add_mul, one_mul]
  have hmajor : (LineWalk.advance D d s).a = (n + 1 : Nat) := by
    simp only [LineWalk.advance, if_pos hlow, h.major, Nat.cast_succ]
  -- the error is kept between its bounds by the step to the side, where it is taken
  by_cases hside : 2 * s.err < D
  · have hsucc : (s.b + 1) * D = s.b * D + D := by rw [add_mul, one_mul]
    refine ⟨hmajor, ?_, ?_, ?_, ?_, ?_⟩ <;> simp only [LineWalk.advance, if_pos hlow, if_pos hside]
    · exact Int.le_add_one h.minor
    · rw [hnext, hsucc]
      omega
    · omega
    · omega
    · intro heq
      have := hdiag heq
      omega
  · refine ⟨hmajor, ?_, ?_, ?_, ?_, ?_⟩ <;> simp only [LineWalk.advance, if_pos hlow, if_neg hside]
    · exact h.minor
    · rw [hnext]
      omega
    · by_cases heq : d = D
      · have := hdiag heq
        omega
      · omega
    · omega
    · intro heq
      have := hdiag heq
      omega

theorem onLine_walk (hD : 0 < D) (hd : 0 ≤ d) (hle : d ≤ D) : OnLine D d n (walk D d n) := by
  induction n with
  | zero => exact onLine_start hD hd hle
  | succ n ih =>
    rw [walk_succ]
    exact ih.advance hd hle

theorem OnLine.minor_le (h : OnLine D d n s) (hD : 0 < D) (hd : 0 ≤ d) (hn : (n : Int) ≤ D) : s.b ≤ d := by
  have herr := h.err
  have hhigh := h.high
  have hnd : n * d ≤ D * d := mul_le_mul_of_nonneg_right hn hd
  have hprod : D * (2 * s.b) < D * (2 * d + 1) := by linarith [mul_comm s.b D]
  have hb := lt_of_mul_lt_mul_left hprod hD.le
  omega

/-- All rounds of the longer side bring the walk to the end of the other one. -/
theorem OnLine.le_minor (h : OnLine D d n s) (hD : 0 < D) (hd : 0 ≤ d) (hn : (n : Int) = D) : d ≤ s.b := by
  have herr := h.err
  have hlow := h.low
  rw [hn] at herr
  have hprod : D * 0 < D * (2 * (1 - d + s.b)) := by linarith [mul_comm s.b D]
  have hb := lt_of_mul_lt_mul_left hprod hD.le
  omega

/-! ## Either side -/

/-- What holds of the walk before the far end. -/
structure Between (D d : Int) (s : Walk) : Prop where
  a_nonneg : 0 ≤ s.a
  a_le : s.a ≤ D
  b_nonneg : 0 ≤ s.b
  b_le : s.b ≤ d
  low : -(3 * max D d) < 2 * s.err
  high : 2 * s.err < 3 * max D d

theorem Between.swap (h : Between D d s) : Between d D s.swap where
  a_nonneg := h.b_nonneg
  a_le := h.b_le
  b_nonneg := h.a_nonneg
  b_le := h.a_le
  low := by
    have := h.high
    simp only [Walk.swap]
    omega
  high := by
    have := h.low
    simp only [Walk.swap]
    omega

theorem between_of_le (hD : 0 < D) (hd : 0 ≤ d) (hle : d ≤ D) (hn : (n : Int) ≤ D) : Between D d (walk D d n) := by
  have h := onLine_walk (n := n) hD hd hle
  have hlow := h.low
  have hhigh := h.high
  have hmajor := h.major
  exact ⟨by omega, by omega, h.minor, h.minor_le hD hd hn, by omega, by omega⟩

theorem end_iff_of_le (hD : 0 < D) (hd : 0 ≤ d) (hle : d ≤ D) (hn : (n : Int) ≤ D) :
    (walk D d n).a = D ∧ (walk D d n).b = d ↔ (n : Int) = D := by
  have h := onLine_walk (n := n) hD hd hle
  rw [h.major]
  constructor
  · exact And.left
  · intro heq
    exact ⟨heq, le_antisymm (h.minor_le hD hd hn) (h.le_minor hD hd heq)⟩

theorem between_walk (hD : 0 ≤ D) (hd : 0 ≤ d) (hpos : 0 < max D d) (hn : (n : Int) ≤ max D d) :
    Between D d (walk D d n) := by
  rcases le_total d D with hle | hle
  · exact between_of_le (by omega) hd hle (by omega)
  · rw [walk_swap]
    exact (between_of_le (by omega) hD hle (by omega)).swap

/-- **The far end is reached with the last round of the longer side.** -/
theorem walk_end_iff (hD : 0 ≤ D) (hd : 0 ≤ d) (hpos : 0 < max D d) (hn : (n : Int) ≤ max D d) :
    (walk D d n).a = D ∧ (walk D d n).b = d ↔ (n : Int) = max D d := by
  rcases le_total d D with hle | hle
  · rw [max_eq_left hle]
    exact end_iff_of_le (by omega) hd hle (by omega)
  · rw [max_eq_right hle, walk_swap, and_comm]
    exact end_iff_of_le (by omega) hD hle (by omega)

end Crimson.Lib.LineWalk
