/-!
# Three-valued truth

A comparison with NULL is neither true nor false but unknown. The three values are
ordered `no < unknown < yes`; conjunction is the lesser of two values, disjunction
the greater, and negation turns the order round.
-/

namespace RelationalStore

/-- The truth of a condition on a row. -/
inductive Truth where
  | no
  | unknown
  | yes
  deriving DecidableEq, Repr

namespace Truth

/-- The place of a value in the order. -/
def rank : Truth → Nat
  | no => 0
  | unknown => 1
  | yes => 2

/-- Whether one value stands below another. -/
def less (a b : Truth) : Bool :=
  a.rank < b.rank

/-- Conjunction: the lesser of the two. -/
def and (a b : Truth) : Truth :=
  if b.less a then b else a

/-- Disjunction: the greater of the two. -/
def or (a b : Truth) : Truth :=
  if a.less b then b else a

/-- Negation. -/
def not : Truth → Truth
  | no => yes
  | unknown => unknown
  | yes => no

/-- The truth of a fact that is known. -/
def ofBool (b : Bool) : Truth :=
  if b then yes else no

end Truth

end RelationalStore
