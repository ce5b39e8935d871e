import SqliteReader.CommandLine

/-! Reads the file that the command line names, and prints what the command answers. -/

open SqliteReader

def readDisk (path : String) : IO (Option Disk) := do
  try
    let image ← IO.FS.readBinFile path
    return some { image }
  catch _ => return none

def main (arguments : List String) : IO UInt32 := do
  let disk ← match arguments with
    | path :: _ => readDisk path
    | [] => pure none
  let outcome := CommandLine.run (fun _ => disk) arguments
  IO.print outcome.printed
  IO.eprint outcome.reported
  return UInt32.ofNat outcome.code
