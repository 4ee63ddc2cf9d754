import Stun.Tool.Run

/-!
# The command

Reads the command line, the input where it is needed and random bytes, and does what
`Stun.Tool.run` says.
-/

/-- All bytes that a stream has left, behind those read before. -/
partial def Stun.Tool.readAll (stream : IO.FS.Stream) (before : ByteArray) : IO ByteArray := do
  let more ← stream.read 65536
  if more.isEmpty then return before else readAll stream (before ++ more)

/-- Runs the command. -/
def main (words : List String) : IO UInt32 := do
  let words := words.map Stun.Bytes.ofString
  let input ←
    if Stun.Tool.needsInput words then Stun.Tool.readAll (← IO.getStdin) .empty else pure .empty
  let random ← IO.getRandomBytes 12
  let outcome := Stun.Tool.run words input.toList (some (Stun.Bytes.fit 12 random.toList))
  (← IO.getStdout).write outcome.stdout.toByteArray
  (← IO.getStderr).write outcome.stderr.toByteArray
  return outcome.status.toUInt32
