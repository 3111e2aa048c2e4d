import Stencil.Decimal.Shortest
import Stencil.Options
import Stencil.Text.Quoted
import Stencil.Toml.Frame
import Stencil.Toml.Parser

/-!
Options from a TOML document: a table `compile` with truth values under the names of the options,
or an array of them in order. What is not said is off. The first entry that does not fit is the
error.
-/
namespace Stencil.Options

/-- Why an entry does not fit. -/
inductive Misfit where
  | unknownField (name : String) (known : List String)
  | invalidType (found expected : String)
  deriving DecidableEq, Repr

def Misfit.message : Misfit → String
  | unknownField name known =>
    "unknown field `" ++ name ++ "`, expected " ++
      " or ".intercalate (known.map fun k => "`" ++ k ++ "`")
  | invalidType found expected => "invalid type: " ++ found ++ ", expected " ++ expected

inductive FileError where
  | notToml (refusal : Toml.Refusal)
  | misfit (misfit : Misfit) (span : Span)
  deriving DecidableEq, Repr

/-- The error with the line of the document that it points at. -/
def FileError.display (text : String) : FileError → String
  | notToml r => Toml.frame text (r.span text) r.message
  | misfit m span => Toml.frame text span m.message

/-- A value in messages about its type. -/
def typeName : Toml.Value → String
  | .scalar (.string s) _ => "string " ++ Text.quote s
  | .scalar (.integer n) _ => "integer `" ++ Int.repr n ++ "`"
  | .scalar (.float x) _ => "floating point `" ++ Decimal.ofFloat x ++ "`"
  | .scalar (.boolean b) _ => "boolean `" ++ (if b then "true" else "false") ++ "`"
  | .scalar .dateTime _ | .table .. => "map"
  | .array .. | .tables _ => "sequence"

/-- A truth value. An error points at the value, or where it has no place at `place`. -/
def switch (place : Span) : Toml.Value → Except FileError Bool
  | .scalar (.boolean b) _ => .ok b
  | v => .error (.misfit (.invalidType (typeName v) "a boolean") (v.span?.getD place))

def unknown (key : Toml.Key) (known : List String) : FileError :=
  .misfit (.unknownField key.value known) key.span

def fields : List String :=
  ["light_mode", "preserve_comments"]

/-- The options with one more entry of the table. -/
def set (o : Options) (entry : Toml.Key × Toml.Value) : Except FileError Options :=
  let (key, v) := entry
  if key.value = "light_mode" then do
    return { o with lightMode := ← switch key.span v }
  else if key.value = "preserve_comments" then do
    return { o with preserveComments := ← switch key.span v }
  else .error (unknown key fields)

/-- The options as items of an array. Items behind the last option do not count. -/
def ofItems (place : Span) : List Toml.Value → Except FileError Options
  | [] => .ok standard
  | [light] => do return ⟨← switch place light, false⟩
  | light :: preserve :: _ => do return ⟨← switch place light, ← switch place preserve⟩

/-- The options in the value of `compile`. A date is read like a table of one private field. -/
def ofValue (place : Span) (v : Toml.Value) : Except FileError Options :=
  match v with
  | .table _ entries _ => entries.foldlM set standard
  | .array items _ | .tables items => ofItems place items
  | .scalar .dateTime span => .error (unknown ⟨"$__toml_private_datetime", span⟩ fields)
  | .scalar _ span =>
    .error (.misfit (.invalidType (typeName v) "struct CompileOptions") span)

def ofToml (text : String) : Except FileError Options :=
  match Toml.parse text with
  | .error refusal => .error (.notToml refusal)
  | .ok (.table _ entries _) =>
    entries.foldlM (fun _ (key, v) =>
      if key.value = "compile" then ofValue key.span v else .error (unknown key ["compile"]))
      standard
  | .ok _ => .ok standard

end Stencil.Options
