import TableParsing.CommandLine

/-!
# Entry point

The expression is the argument of `--input` or `-i`, or the first line of standard input. If the
environment variable `LOG_LEVEL` is `info`, the counters of a successful run are logged.
-/

namespace TableParsing

namespace CommandLine

/-- The text that the arguments give, if any. Arguments of another form are refused. -/
def textOf? : List String → Option (Option String)
  | [] => some none
  | ["--input", text] | ["-i", text] => some (some text)
  | [argument] =>
    match argument.toList with
    | '-' :: '-' :: 'i' :: 'n' :: 'p' :: 'u' :: 't' :: '=' :: text =>
      some (some (String.ofList text))
    | _ => none
  | _ => none

end CommandLine

end TableParsing

/-- All bytes of a stream, after those already read. -/
partial def TableParsing.CommandLine.readBytes (stream : IO.FS.Stream) (read : ByteArray) :
    IO ByteArray := do
  let chunk ← stream.read 65536
  if chunk.isEmpty then return read else readBytes stream (read ++ chunk)

/-- Run the program on the arguments, or on standard input if they give no expression. -/
def main (args : List String) : IO UInt32 := do
  match TableParsing.CommandLine.textOf? args with
  | none =>
    IO.eprintln "usage: [--input TEXT]"
    return 2
  | some text? =>
    let input ← match text? with
      | some text => pure (TableParsing.CommandLine.Input.argument text)
      | none => do
        let bytes ← TableParsing.CommandLine.readBytes (← IO.getStdin) .empty
        pure (TableParsing.CommandLine.Input.standardInput bytes.toList)
    let stats := (← IO.getEnv "LOG_LEVEL") == some "info"
    let outcome := TableParsing.CommandLine.run input stats
    IO.print outcome.output
    for line in outcome.errors do
      IO.eprintln line
    return outcome.exitCode.toUInt32
