import ObjectQuery.Plan.Column

/-! Conditions on the columns of a statement's tables, as trees. -/
namespace ObjectQuery

inductive Operator where
  | eq
  | ne
  | gt
  | ge
  | lt
  | le
  | matches
  | notMatches
  deriving DecidableEq, Repr

namespace Operator

def symbol : Operator → String
  | .eq => "="
  | .ne => "<>"
  | .gt => ">"
  | .ge => ">="
  | .lt => "<"
  | .le => "<="
  | .matches => "~"
  | .notMatches => "!~"

def complement : Operator → Operator
  | .eq => .ne
  | .ne => .eq
  | .gt => .le
  | .ge => .lt
  | .lt => .ge
  | .le => .gt
  | .matches => .notMatches
  | .notMatches => .matches

end Operator

inductive Test where
  | never
  | typeAmong (column : Column) (ids : List Int32)
  | isNull (column : Column)
  | compare (column : Column) (operator : Operator) (parameter : BoundParameter)
  | pathMatches (column : Column) (pattern : String)
  | all (tests : List Test)
  | any (tests : List Test)
  deriving Repr

namespace Test

mutual
def toCondition : Test → Condition
  | .never => .raw "1 = 0"
  | .typeAmong c ids => .raw (c.text ++ " IN (" ++ ", ".intercalate (ids.map (toString ·.toInt)) ++ ")")
  | .isNull c => .isNull c.text
  | .compare c o p => .binary c.text o.symbol p
  | .pathMatches c pattern => .raw (c.text ++ " ~ '" ++ pattern ++ "'")
  | .all ts => .all (toConditions ts)
  | .any ts => .any (toConditions ts)
def toConditions : List Test → List Condition
  | [] => []
  | t :: ts => toCondition t :: toConditions ts
end

theorem toConditionsMap (ts : List Test) : toConditions ts = ts.map toCondition := by
  induction ts with
  | nil => rfl
  | cons t ts ih => rw [toConditions, ih, List.map_cons]

end Test
end ObjectQuery
