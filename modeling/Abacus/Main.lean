import Abacus.Session
/-! # The command line -/
namespace Abacus

open Session

partial def readLine (input : IO.FS.Stream) (line : List UInt8) : IO (List UInt8) := do
  match (← input.read 1).toList with
  | [] => return line.reverse
  | b :: _ => if b = 10 then return (b :: line).reverse else readLine input (b :: line)

partial def converse (input output : IO.FS.Stream) : IO Unit := do
  output.putStr prompt
  output.flush
  let line ← readLine input []
  match if line.isEmpty then none else lineText? line with
  | none => output.putStr farewell
  | some text =>
    output.putStr (answer text)
    converse input output

end Abacus

def main : IO UInt32 := do
  Abacus.converse (← IO.getStdin) (← IO.getStdout)
  return Abacus.Session.exitCode
