import Fish.Stack.Basic

/-!
# Operators

The operations on the two values on top of a stack. The value on top is the right operand: it is
the divisor of a quotient or remainder, and there it must not be zero, of either sign.
-/

namespace Fish

/-- The result of an operator; `x` was on top and `y` below it. -/
def Operator.apply (op : Operator) (y x : Binary64) : Except Fault Binary64 :=
  match op with
  | .add => .ok (y.add x)
  | .sub => .ok (y.sub x)
  | .mul => .ok (y.mul x)
  -- The format has a quotient by zero, but a program does not get to see it.
  | .div => if x.isZero then .error .divisionByZero else .ok (y.div x)
  | .mod => if x.isZero then .error .divisionByZero else .ok (y.mod x)
  | .eq => .ok (.ofBool (y.equals x))
  | .lt => .ok (.ofBool (y.less x))
  | .gt => .ok (.ofBool (x.less y))

/-- Replaces the two values on top of a stack by the result of an operator. They are gone also if
    there is no result, and so is a single one. -/
def Stack.operate (op : Operator) : Action Stack Unit := fun s =>
  match s.values with
  | x :: y :: rest =>
    match op.apply y x with
    | .ok value => .ok () { s with values := value :: rest }
    | .error fault => .error fault { s with values := rest }
  | _ => .error (.stackUnderflow 2 s.size) { s with values := [] }

end Fish
