import Stencil.Compile
import Stencil.Node.Parser

/-!
From source text to a compiled template, through the tree between them.
-/
namespace Stencil

/-- Why a source does not compile: it is no template, or its directives are faulty. -/
inductive SourceError where
  | parse (error : SyntaxError)
  | compile (errors : List CompileError)
  deriving DecidableEq, Repr

namespace SourceError

def count : SourceError → Nat
  | parse _ => 1
  | compile errors => errors.length

def message : SourceError → String
  | parse error => "parse errors: " ++ error.display
  | compile errors => "compile errors: " ++ "; ".intercalate (errors.map (·.message))

end SourceError

def compileSource (options : Options) (source : String) :
    Except SourceError CompiledTemplate := do
  let t ← (Template.parse source).mapError .parse
  (t.compile options).mapError .compile

end Stencil
