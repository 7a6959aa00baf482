import Docroot.Text.Utf8

/-!
Failures of input and output: what kind they are, who reports them, and their wording.
-/
namespace Docroot

inductive ErrorKind where
  | notFound
  | permissionDenied
  | connectionRefused
  | connectionReset
  | connectionAborted
  | notConnected
  | addressInUse
  | addressNotAvailable
  | networkUnreachable
  | brokenPipe
  | wouldBlock
  | interrupted
  | timedOut
  | writeZero
  | unexpectedEnd
  | notADirectory
  | isADirectory
  | invalidFilename
  | filesystemLoop
  | invalidInput
  | invalidData
  | uncategorized
  deriving DecidableEq, Repr

/-- The phrase for a kind where nothing more is known. -/
def ErrorKind.phrase : ErrorKind → String
  | notFound => "entity not found"
  | permissionDenied => "permission denied"
  | connectionRefused => "connection refused"
  | connectionReset => "connection reset"
  | connectionAborted => "connection aborted"
  | notConnected => "not connected"
  | addressInUse => "address in use"
  | addressNotAvailable => "address not available"
  | networkUnreachable => "network unreachable"
  | brokenPipe => "broken pipe"
  | wouldBlock => "operation would block"
  | interrupted => "operation interrupted"
  | timedOut => "timed out"
  | writeZero => "write zero"
  | unexpectedEnd => "unexpected end of file"
  | notADirectory => "not a directory"
  | isADirectory => "is a directory"
  | invalidFilename => "invalid filename"
  | filesystemLoop => "filesystem loop or indirection limit (e.g. symlink loop)"
  | invalidInput => "invalid input parameter"
  | invalidData => "invalid data"
  | uncategorized => "uncategorized error"

/-- The text and number of the operating system for a kind it reports. -/
def ErrorKind.systemText (kind : ErrorKind) : String :=
  match kind with
  | notFound => "No such file or directory (os error 2)"
  | uncategorized => "No such device or address (os error 6)"
  | permissionDenied => "Permission denied (os error 13)"
  | notADirectory => "Not a directory (os error 20)"
  | isADirectory => "Is a directory (os error 21)"
  | invalidInput => "Invalid argument (os error 22)"
  | invalidFilename => "File name too long (os error 36)"
  | filesystemLoop => "Too many levels of symbolic links (os error 40)"
  | brokenPipe => "Broken pipe (os error 32)"
  | addressInUse => "Address already in use (os error 98)"
  | addressNotAvailable => "Cannot assign requested address (os error 99)"
  | networkUnreachable => "Network is unreachable (os error 101)"
  | connectionAborted => "Software caused connection abort (os error 103)"
  | connectionReset => "Connection reset by peer (os error 104)"
  | notConnected => "Transport endpoint is not connected (os error 107)"
  | timedOut => "Connection timed out (os error 110)"
  | connectionRefused => "Connection refused (os error 111)"
  | _ => kind.phrase

inductive IoError where
  /-- Reported by the operating system about the file tree or an address. -/
  | system (kind : ErrorKind)
  /-- Reported by a stream, by its kind alone. -/
  | stream (kind : ErrorKind)
  /-- A stream took nothing of what was offered. -/
  | closedWhileWriting
  /-- A file ended before its announced length. -/
  | fileShrank
  /-- The directory to be served is something else. -/
  | rootNotDirectory (root : Bytes)
  /-- A path holds a zero octet. -/
  | zeroInPath
  /-- A text file holds octets that are no text. -/
  | notText
  deriving DecidableEq, Repr

namespace IoError

def kind : IoError → ErrorKind
  | system k => k
  | stream k => k
  | closedWhileWriting => .writeZero
  | fileShrank => .unexpectedEnd
  | rootNotDirectory _ => .invalidInput
  | zeroInPath => .invalidInput
  | notText => .invalidData

def message : IoError → String
  | system k => k.systemText
  | stream k => k.phrase
  | closedWhileWriting => "connection closed while writing"
  | fileShrank => "file shrank while sending"
  | rootNotDirectory root => String.ofList (Utf8.decodeLossy root) ++ " is not a directory"
  | zeroInPath => "file name contained an unexpected NUL byte"
  | notText => "stream did not contain valid UTF-8"

end IoError

end Docroot
