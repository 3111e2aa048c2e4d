import Stencil.Text.Blank
import Stencil.Text.Style

/-!
The arguments of the command: options, at most one file to read, and assumptions about
expressions, each written as `expression=truth value`.
-/
namespace Stencil.CommandLine

abbrev Assumption := String × Bool

/-- Why a text is no assumption. -/
inductive AssumptionError where
  | noEquals (raw : String)
  | notBoolean (value : String)
  deriving DecidableEq, Repr

def AssumptionError.message : AssumptionError → String
  | noEquals raw => s!"expected EXPR=BOOL, got '{raw}'"
  | notBoolean value => s!"'{value}' is not a boolean"

/-- The parts of a text in front of the last `=` and behind it. -/
def splitAtLastEquals (cs : List Char) : Option (List Char × List Char) :=
  let behind := cs.reverse.takeWhile (· ≠ '=')
  match cs.reverse.drop behind.length with
  | [] => none
  | _ :: before => some (before.reverse, behind.reverse)

def truthValue? (value : List Char) : Option Bool :=
  if value = "true".toList ∨ value = "1".toList then some true
  else if value = "false".toList ∨ value = "0".toList then some false
  else none

/-- An expression may contain `=`, and blanks around it and around the truth value do not
count. -/
def parseAssumption (raw : String) : Except AssumptionError Assumption :=
  match splitAtLastEquals raw.toList with
  | none => .error (.noEquals raw)
  | some (expression, value) =>
    match truthValue? (Text.trimChars value) with
    | some b => .ok (String.ofList (Text.trimChars expression), b)
    | none => .error (.notBoolean (String.ofList (Text.trimChars value)))

structure Arguments where
  input : Option String
  config : Option String
  light : Bool
  preserveComments : Bool
  json : Bool
  verbose : Bool
  assumptions : List Assumption
  deriving DecidableEq, Repr

inductive ArgumentError where
  | badAssumption (raw : String) (error : AssumptionError)
  | missingValue (option : String)
  | unexpected (argument : String)
  | repeated (option : String)
  deriving DecidableEq, Repr

/-- With what the user wrote, and what can be written, in bold. -/
def ArgumentError.message : ArgumentError → String
  | badAssumption raw error =>
    s!"{label} invalid value '{Text.bold raw}' for '{Text.bold assume}': {error.message}" ++ hint
  | missingValue name =>
    s!"{label} a value is required for '{Text.bold name}' but none was supplied" ++ hint
  | unexpected argument => s!"{label} unexpected argument '{Text.bold argument}' found" ++ hint
  | repeated name =>
    s!"{label} the argument '{Text.bold name}' cannot be used multiple times" ++ hint
where
  label := Text.bold "error:"
  assume := "--assume <EXPR=BOOL>"
  hint := s!"\n\nFor more information, try '{Text.bold help}'.\n"
  help := "--help"

namespace Arguments

def empty : Arguments :=
  ⟨none, none, false, false, false, false, []⟩

def setConfig (a : Arguments) (path : String) : Except ArgumentError Arguments :=
  match a.config with
  | none => .ok { a with config := some path }
  | some _ => .error (.repeated "--config <CONFIG>")

def addAssumption (a : Arguments) (raw : String) : Except ArgumentError Arguments :=
  match parseAssumption raw with
  | .ok assumption => .ok { a with assumptions := a.assumptions ++ [assumption] }
  | .error e => .error (.badAssumption raw e)

def setInput (a : Arguments) (path : String) : Except ArgumentError Arguments :=
  match a.input with
  | none => .ok { a with input := some path }
  | some _ => .error (.unexpected path)

/-- An option without a value. -/
def setFlag (a : Arguments) (name : String) : Except ArgumentError Arguments :=
  if name = "--light" then once a.light { a with light := true }
  else if name = "--preserve-comments" then
    once a.preserveComments { a with preserveComments := true }
  else if name = "--json" then once a.json { a with json := true }
  else if name = "--verbose" then once a.verbose { a with verbose := true }
  else .error (.unexpected name)
where
  once (before : Bool) (after : Arguments) : Except ArgumentError Arguments :=
    if before then .error (.repeated name) else .ok after

/-- Whether an argument is an option, which no value of another option can be. -/
def isOption (argument : String) : Bool :=
  match argument.toList with
  | '-' :: _ :: _ => true
  | _ => false

/-- The rest of a text behind a start. -/
def after? (start argument : String) : Option String :=
  if start.toList.isPrefixOf argument.toList then
    some (String.ofList (argument.toList.drop start.length))
  else none

/-- Letters behind one dash: switches, and at the end `c` with its value, which the next argument
gives when nothing is left. -/
def addShort (a : Arguments) (next : List String) :
    List Char → Except ArgumentError (Arguments × List String)
  | [] => .ok (a, next)
  | 'v' :: cs => do
    let a ← a.setFlag "--verbose"
    addShort a next cs
  | 'c' :: [] =>
    match next with
    | value :: rest =>
      if isOption value then .error (.missingValue "--config <CONFIG>")
      else (a.setConfig value).map (·, rest)
    | [] => .error (.missingValue "--config <CONFIG>")
  | 'c' :: '=' :: cs => (a.setConfig (String.ofList cs)).map (·, next)
  | 'c' :: cs => (a.setConfig (String.ofList cs)).map (·, next)
  | c :: _ => .error (.unexpected (String.ofList ['-', c]))

/-- Takes one argument, and the next one where it is a value. -/
def add (a : Arguments) (argument : String) (next : List String) :
    Except ArgumentError (Arguments × List String) :=
  if !isOption argument then (a.setInput argument).map (·, next)
  else if let some raw := after? "--assume=" argument then (a.addAssumption raw).map (·, next)
  else if let some path := after? "--config=" argument then (a.setConfig path).map (·, next)
  else if argument = "--assume" then
    match next with
    | raw :: rest =>
      if isOption raw then .error (.missingValue "--assume <EXPR=BOOL>")
      else (a.addAssumption raw).map (·, rest)
    | [] => .error (.missingValue "--assume <EXPR=BOOL>")
  else if argument = "--config" then a.addShort next ['c']
  else if (after? "--" argument).isSome then (a.setFlag argument).map (·, next)
  else a.addShort next (argument.toList.drop 1)

/-- Arguments from left to right. Behind `--` there are only files. The count bounds how many there
are still to take. -/
def addAll (a : Arguments) : Nat → List String → Except ArgumentError Arguments
  | _, [] => .ok a
  | 0, _ => .ok a
  | n + 1, argument :: next =>
    if argument = "--" then next.foldlM setInput a
    else do
      let (a, rest) ← a.add argument next
      addAll a n rest

def parse (arguments : List String) : Except ArgumentError Arguments :=
  addAll empty arguments.length arguments

end Arguments
end Stencil.CommandLine
