import Stencil.Toml.Refusal

/-!
Readers of a text: each takes something off its front or refuses. After a refusal the text is as
it was, and another reader can be tried, unless the refusal is final.
-/
namespace Stencil.Toml

/-- The text still to read, and the offset at which it starts. -/
structure Cursor where
  pos : Nat
  rest : List Char
  deriving Repr

def Reader (α : Type) :=
  StateT Cursor (Except Refusal) α

namespace Reader
variable {α : Type}

instance : Monad Reader :=
  inferInstanceAs (Monad (StateT Cursor (Except Refusal)))

/-- Refuses at an offset. -/
def refuseAt (pos : Nat) (violation : Option Violation) : Reader α := fun _ =>
  .error ⟨pos, none, [], violation, false⟩

def refuse : Reader α := fun cursor =>
  refuseAt cursor.pos none cursor

def orElse (first : Reader α) (second : Unit → Reader α) : Reader α := fun cursor =>
  match first cursor with
  | .ok result => .ok result
  | .error r => if r.isFinal then .error r else second () cursor

instance : Alternative Reader where
  failure := refuse
  orElse := orElse

/-- A reader whose refusals are changed. -/
def onRefusal (f : Refusal → Refusal) (r : Reader α) : Reader α := fun cursor =>
  (r cursor).mapError f

/-- Nothing else is tried when this refuses. -/
def commit (r : Reader α) : Reader α :=
  r.onRefusal ({ · with isFinal := true })

/-- A name for what is read, unless a smaller part of it has one. -/
def named (name : String) (r : Reader α) : Reader α :=
  r.onRefusal fun e => { e with inside := e.inside.or name }

def wanting (what : List String) (r : Reader α) : Reader α :=
  r.onRefusal fun e => { e with wanted := e.wanted ++ what }

/-- Refuses in front of what it reads. -/
def whole (r : Reader α) : Reader α := fun cursor =>
  r.onRefusal ({ · with pos := cursor.pos }) cursor

def offset : Reader Nat := fun cursor =>
  .ok (cursor.pos, cursor)

def remaining : Reader (List Char) := fun cursor =>
  .ok (cursor.rest, cursor)

/-- What another part of the library makes of the text behind an offset. -/
def ofExcept (pos : Nat) : Except Violation α → Reader α
  | .ok a => pure a
  | .error violation => refuseAt pos violation

/-- A character of a class. -/
def satisfy (p : Char → Bool) : Reader Char := fun cursor =>
  match cursor.rest with
  | [] => refuse cursor
  | c :: cs => if p c then .ok (c, ⟨cursor.pos + c.utf8Size, cs⟩) else refuse cursor

def char (c : Char) : Reader Unit :=
  discard (satisfy (· == c))

def word (cs : List Char) : Reader Unit :=
  whole (cs.forM char)

/-- As often as possible, up to a number of times. -/
def atMost (r : Reader α) : Nat → Reader (List α)
  | 0 => pure []
  | n + 1 => (do
      let first ← r
      let others ← atMost r n
      pure (first :: others)) <|> pure []

/-- As often as possible. A reader that takes at least one character cannot succeed more often
than there are characters. -/
def many (r : Reader α) : Reader (List α) := do
  atMost r (← remaining).length

/-- Goes on from a value as often as possible, up to a number of times. -/
def iterate (r : α → Reader α) : Nat → α → Reader α
  | 0, a => pure a
  | n + 1, a => (do iterate r n (← r a)) <|> pure a

def exactly (n : Nat) (r : Reader α) : Reader (List α) :=
  match n with
  | 0 => pure []
  | n + 1 => do
    let first ← r
    let others ← exactly n r
    pure (first :: others)

/-- One or more, with a separator between two. -/
def separated (r : Reader α) (separator : Reader Unit) : Reader (List α) := do
  let first ← r
  let others ← many (do separator; r)
  pure (first :: others)

/-- With the place of what is read. -/
def located (r : Reader α) : Reader (Located α) := do
  let start ← offset
  let a ← r
  let stop ← offset
  pure ⟨a, ⟨start, stop⟩⟩

/-- Succeeds at the end of the text. -/
def atEnd : Reader Unit := fun cursor =>
  if cursor.rest.isEmpty then .ok ((), cursor) else refuse cursor

/-- What the whole of a text reads as. -/
def readAll (r : Reader α) (text : List Char) : Except Refusal α :=
  ((do let a ← r; atEnd; pure a : Reader α) ⟨0, text⟩).map (·.1)

end Reader
end Stencil.Toml
