import Stencil.CommandLine

/-!
The command as a program: where its inputs come from and where its outcome goes.
-/
open Stencil

/-- The reason that the system gives, with its number. A number may come as a negative one in
thirty-two bits. -/
def reason : IO.Error → String
  | .noFileOrDirectory _ code details | .inappropriateType _ code details
  | .permissionDenied _ code details | .invalidArgument _ code details =>
    let number := if code.toNat < 0x80000000 then code.toNat else 0x100000000 - code.toNat
    s!"{details.capitalize} (os error {number})"
  | e => toString e

def decoded (bytes : ByteArray) : Except String String :=
  (String.fromUTF8? bytes).elim (.error "stream did not contain valid UTF-8") .ok

/-- A text from the surroundings, or the reason why there is none. -/
def readText (input : CommandLine.Input) : IO (Except String String) := do
  try
    match input with
    | .standard => return decoded (← (← IO.getStdin).readBinToEnd)
    | .file path => return decoded (← IO.FS.readBinFile path)
  catch e => return .error (reason e)

def main (arguments : List String) : IO UInt32 := do
  let outcome ← CommandLine.run readText arguments
  IO.print outcome.output
  IO.eprint outcome.errors
  return outcome.status.toUInt32
