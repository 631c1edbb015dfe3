/-
The command: reads the input, runs the command and writes what it leaves.
-/
import Deflate.Command.Run

namespace Deflate.Command

/-- The fault that an error of the system is. -/
def faultOf (e : IO.Error) : Fault :=
  match e with
  | .alreadyExists _ code _ | .otherError code _ | .resourceBusy code _
  | .resourceVanished code _ | .unsupportedOperation code _ | .hardwareFault code _
  | .unsatisfiedConstraints code _ | .illegalOperation code _ | .protocolError code _
  | .timeExpired code _ | .interrupted _ code _ | .noFileOrDirectory _ code _
  | .invalidArgument _ code _ | .permissionDenied _ code _ | .resourceExhausted _ code _
  | .inappropriateType _ code _ | .noSuchThing _ code _ => .system code.toNat
  | .unexpectedEof => .plain .unexpectedEnd
  | .userError text => .told .other text

/-- How many bytes are asked for at a time. -/
def chunkSize : USize := 65536

/-- Reads a stream to its end or its first fault. -/
partial def deliveriesOf (stream : IO.FS.Stream) (before : Array Delivery) :
    BaseIO (Array Delivery) := do
  match ← (stream.read chunkSize).toBaseIO with
  | .error e => return before.push (.fail (faultOf e))
  | .ok chunk =>
      if chunk.isEmpty then return before else deliveriesOf stream (before.push (.bytes chunk))

/-- Reads a file. -/
def openFile (path : String) : BaseIO (Except Fault (List Delivery)) := do
  match ← (IO.FS.Handle.mk path .read).toBaseIO with
  | .error e => return .error (faultOf e)
  | .ok handle => return .ok (← deliveriesOf (.ofHandle handle) #[]).toList

/-- Writes bytes and flushes; the result is the answer that a sink gave. -/
def tryWrite (stream : IO.FS.Stream) (bytes : ByteArray) : BaseIO (List WriteReply) := do
  if bytes.isEmpty then return []
  match ← (do stream.write bytes; stream.flush : IO Unit).toBaseIO with
  | .ok () => return []
  | .error e => return [.fail (faultOf e)]

/-- Reads the input that the arguments ask for, runs the command on it, and
writes what it leaves. If the output fails, the command is run again with a
standard output that fails so. -/
def main (arguments : List String) : IO UInt32 := do
  let opened ← match Request.ofArguments arguments with
    | .ok (.inflate (some path)) =>
        if path = "-" then pure (.ok []) else openFile path
    | _ => pure (.ok [])
  let standardInput ← match Request.ofArguments arguments with
    | .ok (.inflate none) | .ok (.inflate (some "-")) => do
        pure (← deliveriesOf (← IO.getStdin) #[]).toList
    | _ => pure []
  let invocation : Invocation :=
    { arguments
      logSetting? := ← IO.getEnv "RUST_LOG"
      standardInput
      openFile := fun _ => opened
      standardOutput := .ofReplies [] []
      clock := .still }
  let replies ← tryWrite (← IO.getStdout) invocation.run.standardOutput.accepted
  let finish :=
    { invocation with standardOutput := .ofReplies replies [] : Invocation }.run
  (← IO.getStderr).putStr finish.errorText
  return UInt32.ofNat finish.exitCode

end Deflate.Command

/-- The command. -/
def main (arguments : List String) : IO UInt32 :=
  Deflate.Command.main arguments
