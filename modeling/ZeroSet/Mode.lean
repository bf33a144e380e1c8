/-!
# Evaluation modes

An expression can be read as a real number, as a short vector or as an interval of
reals.  The mode decides which literals are legal and what the operators mean.
-/

namespace ZeroSet

/-- The three readings of an expression. -/
inductive Mode where
  /-- Plain real arithmetic. -/
  | real
  /-- Vectors of one to four components, each component read as a real. -/
  | vector
  /-- Intervals that enclose every real value. -/
  | interval
deriving DecidableEq

namespace Mode

/-- The name of a mode in messages. -/
def name : Mode → String
  | real => "REAL"
  | vector => "VECTOR"
  | interval => "INTERVAL"

/-- The name of the values that a mode produces. -/
def kind : Mode → String
  | real => "real"
  | vector => "vector"
  | interval => "interval"

end Mode

end ZeroSet
