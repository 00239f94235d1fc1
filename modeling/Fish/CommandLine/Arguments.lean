import Fish.Binary64.Numeral

/-!
# Arguments of the command line

A command line names a program, either by the path of a script or by its text, and says how to run
it. `Arguments.parse` reads the arguments from the left; the first one that makes no sense rejects
the whole line, and a request for help before that ends the reading. Only when all are read is it
checked that there is exactly one program.

The value of an option may be attached to it (`-cTEXT`, `-c=TEXT`, `--code=TEXT`) or be the next
argument. A value that is an argument of its own must not look like an option. A negative number
does, so only the option whose values are numbers takes one, and only in the forms of
`isNegativeNumber`.
-/

namespace Fish.CommandLine

/-- The options that take a value. -/
inductive Flag
  | code
  | string
  | value
  | seed
  | maxSteps
deriving DecidableEq, Repr

/-- The option with a long name. -/
def Flag.ofName? : String → Option Flag
  | "code" => some .code
  | "string" => some .string
  | "value" => some .value
  | "seed" => some .seed
  | "max-steps" => some .maxSteps
  | _ => none

/-- The option with a short name. -/
def Flag.ofLetter? : Char → Option Flag
  | 'c' => some .code
  | 's' => some .string
  | 'v' => some .value
  | _ => none

/-- What the arguments say. -/
structure Arguments where
  /-- The path of the program. -/
  script : Option String := none
  /-- The text of the program. -/
  code : Option String := none
  /-- The characters that are on the stack at the beginning. -/
  string : Option String := none
  /-- The numbers that are on the stack above them. -/
  values : List Binary64 := []
  seed : Option UInt64 := none
  /-- The number of steps after which the program is stopped. -/
  maxSteps : Option Nat := none
deriving DecidableEq

/-- Why reading the arguments ended early. -/
inductive Refusal
  /-- Help was asked for. -/
  | help
  /-- The arguments make no sense. -/
  | invalid
deriving DecidableEq, Repr

/-- What a single argument is, before a separate value is looked for. -/
inductive Argument
  | help
  | script (path : String)
  | option (flag : Flag) (attached : Option String)
  | unknown
deriving DecidableEq, Repr

/-- A natural number that fits into 64 bits: digits after an optional plus. -/
def natural? (text : String) : Option Nat :=
  let digits := match text.toList with
    | '+' :: rest => rest
    | rest => rest
  let n := Numeral.natOfDigits digits
  if digits ≠ [] ∧ digits.all Char.isDigit ∧ n < UInt64.size then some n else none

/-- The characters after a minus are those of a number: digits, then an optional point, and then
    an optional `e` of either case, which neither begins nor ends them. -/
def isUnsignedNumber (cs : List Char) : Bool :=
  let rest := cs.dropWhile Char.isDigit
  -- A point is passed only after a digit.
  let rest := match rest with
    | '.' :: places => if rest.length < cs.length then places.dropWhile Char.isDigit else rest
    | _ => rest
  match rest with
  | [] => true
  | mark :: digits =>
    (mark = 'e' || mark = 'E') && rest.length < cs.length && digits ≠ [] &&
      digits.all Char.isDigit

/-- The argument is a minus with a number after it. -/
def isNegativeNumber (arg : String) : Bool :=
  match arg.toList with
  | '-' :: rest => isUnsignedNumber rest
  | _ => false

/-- The argument has the look of an option. A minus alone has not. -/
def looksLikeOption (arg : String) : Bool :=
  match arg.toList with
  | '-' :: _ :: _ => true
  | _ => false

/-- The argument can be the value of the option before it. -/
def Flag.takes (flag : Flag) (arg : String) : Bool :=
  !looksLikeOption arg || (flag = .value && isNegativeNumber arg)

/-- A long option, without its two minus signs. -/
def Argument.ofLong (cs : List Char) : Argument :=
  let name := String.ofList (cs.takeWhile (· ≠ '='))
  let attached := match cs.dropWhile (· ≠ '=') with
    | [] => none
    | _ :: value => some (String.ofList value)
  match Flag.ofName? name with
  | some flag => .option flag attached
  -- Help takes no value.
  | none => if name = "help" ∧ attached = none then .help else .unknown

/-- The value attached to a short option, without an equals sign at its beginning. -/
def attached? : List Char → Option String
  | [] => none
  | '=' :: value => some (String.ofList value)
  | value => some (String.ofList value)

/-- What an argument is. -/
def Argument.of (arg : String) : Argument :=
  match arg.toList with
  | '-' :: '-' :: cs => .ofLong cs
  | '-' :: c :: cs =>
    match Flag.ofLetter? c with
    | some flag => .option flag (attached? cs)
    | none => if c = 'h' then .help else .unknown
  -- A minus alone is a path like any other.
  | _ => .script arg

namespace Arguments

/-- Takes the path of the script. It is not empty, and there is only one. -/
def setScript (a : Arguments) (path : String) : Except Refusal Arguments :=
  if path = "" ∨ a.script.isSome then .error .invalid else .ok { a with script := some path }

/-- Takes the value of an option. Only numbers for the stack may be given more than once. -/
def set (a : Arguments) (flag : Flag) (value : String) : Except Refusal Arguments :=
  match flag with
  | .code => if a.code.isSome then .error .invalid else .ok { a with code := some value }
  | .string => if a.string.isSome then .error .invalid else .ok { a with string := some value }
  | .value =>
    match Binary64.ofText? value with
    | some number => .ok { a with values := a.values ++ [number] }
    | none => .error .invalid
  | .seed =>
    match natural? value with
    | some n => if a.seed.isSome then .error .invalid else .ok { a with seed := some (.ofNat n) }
    | none => .error .invalid
  | .maxSteps =>
    match natural? value with
    | some n => if a.maxSteps.isSome then .error .invalid else .ok { a with maxSteps := some n }
    | none => .error .invalid

/-- Reads the arguments from the left. After `--` all are paths. -/
def read (a : Arguments) : List String → Except Refusal Arguments
  | [] => .ok a
  | arg :: rest =>
    if arg = "--" then rest.foldlM setScript a
    else match Argument.of arg with
      | .help => .error .help
      | .unknown => .error .invalid
      | .script path => do read (← a.setScript path) rest
      | .option flag (some value) => do read (← a.set flag value) rest
      -- The value has to be the next argument.
      | .option flag none =>
        match rest with
        | [] => .error .invalid
        | value :: rest =>
          if flag.takes value then do read (← a.set flag value) rest else .error .invalid

/-- There is exactly one program. -/
def hasOneProgram (a : Arguments) : Bool := a.script.isSome ^^ a.code.isSome

/-- Reads a command line. -/
def parse (args : List String) : Except Refusal Arguments := do
  let a ← read {} args
  if a.hasOneProgram then .ok a else .error .invalid

/-- The values of the first stack: the code points of the characters, then the numbers. -/
def initialStack (a : Arguments) : List Binary64 :=
  (a.string.getD "").toList.map (fun c => .ofNat c.toNat) ++ a.values

end Arguments

end Fish.CommandLine
