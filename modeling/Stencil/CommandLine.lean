import Stencil.CommandLine.Arguments
import Stencil.Compiled.Evaluation
import Stencil.Compiled.Json
import Stencil.Options.Toml
import Stencil.Outline
import Stencil.Report

/-!
The command: reads options and a source, compiles it, and shows the outcome as an outline or as
JSON, or the reports of its errors. With assumptions it also shows which refs a pass under them
makes live. What is read is asked of the surroundings.
-/
namespace Stencil.CommandLine

inductive Input where
  | standard
  | file (path : String)
  deriving DecidableEq, Repr

/-- Why the command gives up. -/
inductive Failure where
  | arguments (error : ArgumentError)
  | configUnreadable (path reason : String)
  | configInvalid (path text : String) (error : Options.FileError)
  | unreadable (path reason : String)
  | standardUnreadable (reason : String)
  | source (error : SourceError) (text file : String)
  deriving Repr

structure Outcome where
  status : Nat
  output : String
  errors : String
  deriving DecidableEq, Repr

/-- Without styles, as for a reader that is no terminal. Where an error cannot be shown the command
crashes, and the text of the crash itself is left out. -/
def Failure.message : Failure → String
  | arguments error => Text.unstyled error.message
  | configUnreadable path reason =>
    s!"Error loading config '{path}': Failed to read config file: {reason}\n"
  | configInvalid path text error =>
    s!"Error loading config '{path}': Failed to parse config TOML: " ++ error.display text ++ "\n"
  | unreadable path reason => s!"Error reading file '{path}': {reason}\n"
  | standardUnreadable reason => s!"Error reading from stdin: {reason}\n"
  | source error text file => (error.report? text file).elim "" (· ++ "\n")

/-- Wrong arguments have a status of their own, and so has the crash over an error that cannot be
shown. -/
def Failure.status : Failure → Nat
  | arguments _ => 2
  | source error text file => if (error.report? text file).isSome then 1 else 101
  | _ => 1

def Failure.outcome (f : Failure) : Outcome :=
  ⟨f.status, "", f.message⟩

/-- The refs that a pass under assumptions makes live. -/
def liveRefs (c : CompiledTemplate) (assumptions : List Assumption) : Binding Unit :=
  let ids := ((c.render (Answers.ofAssumptions assumptions).ask).run []).1
  Binding.ofPass c (ids.map fun id => ⟨id, ()⟩)

/-- The lines of a text, each moved to the right. -/
def indented (text : String) : String :=
  String.join ((Text.feedLines text.toList).map fun line => "  " ++ String.ofList line ++ "\n")

/-- What is shown of a compiled template. -/
def Arguments.shown (a : Arguments) (c : CompiledTemplate) : String :=
  (if a.json then c.json.pretty ++ "\n" else c.outline) ++
    (if a.assumptions.isEmpty then ""
      else "live refs\n" ++ indented (liveRefs c a.assumptions).outline)

/-- Options of the file, and switches over them. -/
def Arguments.over (a : Arguments) (o : Options) : Options :=
  ⟨o.lightMode || a.light, o.preserveComments || a.preserveComments⟩

section Run
variable {m : Type → Type} [Monad m] (read : Input → m (Except String String))

def Arguments.options (a : Arguments) : ExceptT Failure m Options := do
  match a.config with
  | none => pure (a.over .standard)
  | some path =>
    match ← read (.file path) with
    | .error reason => throw (.configUnreadable path reason)
    | .ok text =>
      match Options.ofToml text with
      | .error error => throw (.configInvalid path text error)
      | .ok o => pure (a.over o)

/-- The source text and the name it goes by. -/
def Arguments.source (a : Arguments) : ExceptT Failure m (String × String) := do
  match a.input with
  | some path =>
    match ← read (.file path) with
    | .error reason => throw (.unreadable path reason)
    | .ok text => pure (text, path)
  | none =>
    match ← read .standard with
    | .error reason => throw (.standardUnreadable reason)
    | .ok text => pure (text, "<stdin>")

def attempt (arguments : List String) : ExceptT Failure m String := do
  match Arguments.parse arguments with
  | .error error => throw (.arguments error)
  | .ok a =>
    let options ← a.options read
    let (text, file) ← a.source read
    match compileSource options text with
    | .error error => throw (.source error text file)
    | .ok c => pure (a.shown c)

def run (arguments : List String) : m Outcome := do
  match ← (attempt read arguments).run with
  | .ok text => pure ⟨0, text, ""⟩
  | .error failure => pure failure.outcome

end Run
end Stencil.CommandLine
