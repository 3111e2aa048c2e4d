/-!
Tokens of template markup and how messages name them.
-/
namespace Stencil

inductive Token where
  /-- Character data between tags. -/
  | text (content : String)
  | comment (body : String)
  /-- The mark `<`. -/
  | tagOpen
  /-- The mark `</`. -/
  | closeTagOpen
  /-- The mark `>`. -/
  | tagClose
  /-- The mark `/>`. -/
  | selfClose
  | name (name : String)
  | equals
  /-- A quoted value, without its quotes. -/
  | literal (value : String)
  /-- A braced value, without its braces and trimmed. -/
  | expression (source : String)
  /-- Input that forms no token. -/
  | invalid
  deriving DecidableEq, Repr

namespace Token

def describe : Token → String
  | text _ => "text"
  | comment _ => "comment"
  | tagOpen => "'<'"
  | closeTagOpen => "'</'"
  | tagClose => "'>'"
  | selfClose => "'/>'"
  | name n => s!"name '{n}'"
  | equals => "'='"
  | literal s => "string \"" ++ s ++ "\""
  | expression e => "expression \x7b" ++ e ++ "\x7d"
  | invalid => "invalid input"

end Token
end Stencil
