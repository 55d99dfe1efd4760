import StyleSlots.Command.Run

/-! # The command line program

    Reads the file that the command line names, runs the command, and
    prints what it answers. -/

open StyleSlots

/-- The contents of a file that can be read. -/
def readContents (file : Text) : IO (Option ByteArray) := do
  try
    return some (← IO.FS.readBinFile (String.ofList file))
  catch _ => return none

/-- Runs the program with the given arguments. -/
def main (args : List String) : IO UInt32 := do
  let outcome ← match Command.ofArguments? (args.map String.toList) with
    | none => pure Outcome.usageError
    | some command => do
      let contents ← match command.file? with
        | some file => readContents file
        | none => pure none
      pure (command.run contents)
  match outcome with
  | .usageError => IO.eprintln (String.ofList Command.helpText)
  | .notName => IO.eprintln "Error: no file can have that name"
  | .notText => IO.eprintln "Error: the file is not valid UTF-8"
  | .finished _ out err => do
    IO.eprint (String.ofList err)
    IO.print (String.ofList out)
  return UInt32.ofNat outcome.status
