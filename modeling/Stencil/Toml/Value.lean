import Stencil.Toml.Key
import Stencil.Toml.Refusal

/-!
TOML values, each with its place in the document, and what may be added to a table. Tables that a
document only implies have no place.
-/
namespace Stencil.Toml

inductive Scalar where
  | string (text : String)
  | integer (n : Int)
  | float (x : Float)
  | boolean (b : Bool)
  | dateTime
  deriving Repr

/-- How a table came to be, which decides what may still be added to it. -/
inductive Origin where
  /-- The root, or a table with a header of its own. -/
  | header
  /-- By a header of a table inside it. -/
  | implied
  /-- By a dotted key. -/
  | dotted
  /-- In braces. Such a table is complete. -/
  | inline
  deriving DecidableEq, Repr

/-- The entries of a table are in the order of the document. -/
inductive Value where
  | scalar (scalar : Scalar) (span : Span)
  | array (items : List Value) (span : Span)
  | table (origin : Origin) (entries : List (Located String × Value)) (span : Option Span)
  /-- Tables under one repeated header. -/
  | tables (items : List Value)
  deriving Repr, Inhabited

namespace Value

def span? : Value → Option Span
  | scalar _ span | array _ span => some span
  | table _ _ span => span
  | tables items =>
    match items.head?, items.getLast? with
    | some (table _ _ (some first)), some (table _ _ (some last)) => some ⟨first.start, last.stop⟩
    | _, _ => none

/-- What a value is called in messages. -/
def kind : Value → String
  | scalar (.string _) _ => "string"
  | scalar (.integer _) _ => "integer"
  | scalar (.float _) _ => "float"
  | scalar (.boolean _) _ => "boolean"
  | scalar .dateTime _ => "datetime"
  | array .. => "array"
  | table .. => "inline table"
  | tables _ => "array of tables"

def emptyTable (origin : Origin) : Value :=
  table origin [] none

def find? (key : Key) (entries : List (Key × Value)) : Option Value :=
  (entries.find? (·.1.value == key.value)).map (·.2)

/-- Changes what stands under a key, or puts something new behind all entries. -/
def update (key : Key) (f : Option Value → Except Violation Value) :
    List (Key × Value) → Except Violation (List (Key × Value))
  | [] => (f none).map fun v => [(key, v)]
  | (k, v) :: rest =>
    if k.value = key.value then (f (some v)).map fun v => (k, v) :: rest
    else (update key f rest).map ((k, v) :: ·)

def names (path : List Key) : List String :=
  path.map (·.value)

/-- What leads into a table. -/
inductive Access where
  /-- The header of a table inside it. -/
  | header
  /-- A dotted key. -/
  | dotted
  /-- A dotted key in braces. -/
  | braces
  deriving DecidableEq, Repr

/-- The table that a key on the way creates. -/
def Access.fresh : Access → Value
  | header => emptyTable .implied
  | dotted | braces => emptyTable .dotted

/-- Goes from the entry at the end of a path into the table that it stands for: of repeated
tables the last one. Braces cannot be entered, nor can dotted keys enter a table with a
header. -/
def enter (access : Access) (path : List String) (f : Value → Except Violation Value) :
    Value → Except Violation Value
  | table origin entries span =>
    if access ≠ .braces ∧ origin = .inline then
      .error (.noTable path (table origin entries span).kind)
    else if access ≠ .header ∧ (origin = .header ∨ origin = .inline) then
      .error (.duplicateKey (path.getLast?.getD "") none)
    else f (table origin entries span)
  | tables items =>
    match items.reverse with
    | last :: before => (f last).map fun v => tables (before.reverse ++ [v])
    | [] => .error (.noTable path (tables []).kind)
  | v => .error (.noTable path v.kind)

/-- Changes the table at the end of a path, which goes on from a path that was walked before, and
creates the tables on the way. -/
def descend (access : Access) (f : Value → Except Violation Value) (walked : List String) :
    List Key → Value → Except Violation Value
  | [], v => f v
  | key :: path, table origin entries span =>
    let walked := walked ++ [key.value]
    let inside := descend access f walked path
    let changed := update key
      (fun v? => v?.elim (inside access.fresh) (enter access walked inside)) entries
    changed.map (table origin · span)
  | _ :: _, v => .error (.noTable walked v.kind)

/-- Puts a value under a key that is new in a table with a name. A dotted path ends in a table
that dotted keys made, and only such a path does. -/
def put (access : Access) (name : Option (List String)) (path : List Key) (key : Key)
    (value : Value) : Value → Except Violation Value :=
  descend access (fun
    | table origin entries span =>
      if (origin = .dotted) = (path = []) then .error (.duplicateKey key.value none)
      else if (find? key entries).isSome then .error (.duplicateKey key.value name)
      else .ok (table origin (entries ++ [(key, value)]) span)
    | v => .error (.noTable (names path) v.kind)) [] path

/-- A table in braces with these entries. -/
def inlineTable (assignments : List (List Key × Key × Value)) :
    Except Violation (List (Key × Value)) := do
  let v ← assignments.foldlM (fun v (path, key, value) => put .braces none path key value v)
    (emptyTable .inline)
  match v with
  | table _ entries _ => .ok entries
  | _ => .ok []

/-- Opens the table of a header: a new one behind all others, with what headers inside it have
implied. -/
def openTable (path : List Key) (key : Key) (span : Span) : Value → Except Violation Value
  | table origin entries own =>
    match find? key entries with
    | none => .ok (table origin (entries ++ [(key, table .header [] (some span))]) own)
    | some (table .implied inner _) =>
      let others := entries.filter (·.1.value != key.value)
      .ok (table origin (others ++ [(key, table .header inner (some span))]) own)
    | some _ => .error (.duplicateKey (spelled key.value) (some (names path)))
  | v => .error (.noTable (names path) v.kind)

/-- Opens the next of the tables under a repeated header. -/
def openRepeated (path : List Key) (key : Key) (span : Span) : Value → Except Violation Value
  | table origin entries own =>
    let fresh := table .header [] (some span)
    let changed := update key (fun
      | none => .ok (tables [fresh])
      | some (tables items) => .ok (tables (items ++ [fresh]))
      | some _ => .error (.duplicateKey (spelled key.value) (some (names path)))) entries
    changed.map (table origin · own)
  | v => .error (.noTable (names path) v.kind)

/-- The place of a table grows with the assignments below its header. -/
def extendOver (added : Value) : Value → Value
  | table origin entries (some own) =>
    table origin entries (some ⟨own.start, (added.span?.map (·.stop)).getD own.stop⟩)
  | v => v

end Value

/-- A line of a document. -/
inductive Statement where
  | header (path : List Key) (key : Key) (span : Span)
  | repeatedHeader (path : List Key) (key : Key) (span : Span)
  | assignment (path : List Key) (key : Key) (value : Value)
  deriving Repr

/-- A document so far: its root table, and the path of the table that assignments go to. -/
structure Document where
  root : Value
  current : List Key
  deriving Repr

namespace Document

def empty : Document :=
  ⟨.emptyTable .header, []⟩

/-- The document with one more statement, unless it contradicts what is there. -/
def add (d : Document) : Statement → Except Violation Document
  | .header path key span =>
    (Value.descend .header (Value.openTable path key span) [] path d.root).map
      (⟨·, path ++ [key]⟩)
  | .repeatedHeader path key span =>
    (Value.descend .header (Value.openRepeated path key span) [] path d.root).map
      (⟨·, path ++ [key]⟩)
  | .assignment path key value =>
    let assign (table : Value) :=
      Value.put .dotted (some (Value.names d.current)) path key value
        (Value.extendOver value table)
    (Value.descend .header assign [] d.current d.root).map (⟨·, d.current⟩)

end Document
end Stencil.Toml
