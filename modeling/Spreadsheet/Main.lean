import Spreadsheet.CommandLine.Session
import Std.Time.Format
import Std.Time.Zoned

/-! # The program

Connects the command line with the files, the clock and the random numbers of the machine. -/

namespace Spreadsheet.Machine

/-- The number of a system error, which some calls give negated in 32 bits. -/
def errorNumber (code : UInt32) : Nat :=
  if code.toNat < UInt32.size / 2 then code.toNat else UInt32.size - code.toNat

/-- The wording of the errors that files commonly meet; of others the given wording. -/
def errorText (number : Nat) (details : String) : String :=
  match number with
  | 2 => "No such file or directory"
  | 13 => "Permission denied"
  | 20 => "Not a directory"
  | 21 => "Is a directory"
  | 28 => "No space left on device"
  | 30 => "Read-only file system"
  | 36 => "File name too long"
  | _ => details

/-- Why the system refuses to reach a file. -/
def reason : IO.Error → String
  | .alreadyExists _ code details | .invalidArgument _ code details
  | .permissionDenied _ code details | .resourceExhausted _ code details
  | .inappropriateType _ code details | .noSuchThing _ code details
  | .interrupted _ code details | .noFileOrDirectory _ code details
  | .otherError code details | .resourceBusy code details | .resourceVanished code details
  | .unsupportedOperation code details | .hardwareFault code details
  | .unsatisfiedConstraints code details | .illegalOperation code details
  | .protocolError code details | .timeExpired code details =>
    errorText (errorNumber code) details ++ " (os error " ++ Numeral.text (errorNumber code) ++ ")"
  | .unexpectedEof => "unexpected end of file"
  | .userError details => details

def disk : CommandLine.Disk IO where
  read path := do
    try return .ok (← IO.FS.readBinFile path).toList
    catch e => return .error (reason e)
  write path text := do
    try return .ok (← IO.FS.writeFile path text)
    catch e => return .error (reason e)

def volatile : Volatile → IO Scalar
  | .rand => return .number (Float.ofNat (← IO.rand 0 (1 <<< 53 - 1)) / 2 ^ 53)
  | .now => return .text ((← Std.Time.PlainDateTime.now).format "uuuu-MM-dd HH:mm:ss")
  | .today => return .text ((← Std.Time.PlainDateTime.now).format "uuuu-MM-dd")

end Spreadsheet.Machine

def main (args : List String) : IO UInt32 := do
  let o ← Spreadsheet.CommandLine.run Spreadsheet.Machine.disk Spreadsheet.Machine.volatile args
  IO.print o.output
  IO.eprint o.errors
  return o.code
