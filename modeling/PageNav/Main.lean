import PageNav.Command.Run

/-! # The program -/

namespace PageNav.Command

def refusal : IO.Error → ReadFailure
  | .alreadyExists _ code details => .refused details code.toNat
  | .otherError code details => .refused details code.toNat
  | .resourceBusy code details => .refused details code.toNat
  | .resourceVanished code details => .refused details code.toNat
  | .unsupportedOperation code details => .refused details code.toNat
  | .hardwareFault code details => .refused details code.toNat
  | .unsatisfiedConstraints code details => .refused details code.toNat
  | .illegalOperation code details => .refused details code.toNat
  | .protocolError code details => .refused details code.toNat
  | .timeExpired code details => .refused details code.toNat
  | .interrupted _ code details => .refused details code.toNat
  | .noFileOrDirectory _ code details => .refused details code.toNat
  | .invalidArgument _ code details => .refused details code.toNat
  | .permissionDenied _ code details => .refused details code.toNat
  | .resourceExhausted _ code details => .refused details code.toNat
  | .inappropriateType _ code details => .refused details code.toNat
  | .noSuchThing _ code details => .refused details code.toNat
  | .unexpectedEof => .refused "end of file" 0
  | .userError message => .refused message 0

def readSource (source : Source) : IO (Except ReadFailure String) := do
  try
    let bytes ←
      match source with
      | .standardInput => (← IO.getStdin).readBinToEnd
      | .file path => IO.FS.withFile path .read fun handle => handle.readBinToEnd
    match String.fromUTF8? bytes with
    | some text => return .ok text
    | none => return .error .notText
  catch e => return .error (refusal e)

/-- Runs the command that the arguments ask for. The result is the exit code. -/
def program (arguments : List String) : IO UInt32 := do
  let report ← report readSource (← (← IO.getStdout).isTty) arguments
  IO.print report.output
  IO.eprint report.complaint
  return report.code.toUInt32

end PageNav.Command

def main (arguments : List String) : IO UInt32 :=
  PageNav.Command.program arguments
