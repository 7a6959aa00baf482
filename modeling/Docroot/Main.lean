import Docroot.CommandLine

/-!
The command line. It works out with which settings the server is to run, checks them, and shows them.
-/
namespace Docroot

def readSettingsFile (file : String) : IO (Except IoError String) := do
  try
    return .ok (← IO.FS.readFile file)
  catch
    | .noFileOrDirectory .. => return .error (.system .notFound)
    | .permissionDenied .. => return .error (.system .permissionDenied)
    | _ => return .error (.system .uncategorized)

/-- The settings that the environment, the arguments and the file they name give together. -/
def gatherSettings (line : CommandLine) : IO (Except SettingsError Settings) := do
  let env : Environment := ⟨← IO.getEnv "LISTEN", ← IO.getEnv "ROOT"⟩
  match line.config with
  | none => return .ok (line.override (Settings.ofEnvironment env))
  | some file =>
    return (Settings.ofFileText env (utf8 file) (← readSettingsFile file)).map line.override

def refuse (message : String) (code : UInt32) : IO UInt32 := do
  IO.eprintln ("error: " ++ message)
  return code

def showSettings (arguments : List String) : IO UInt32 := do
  match CommandLine.read arguments with
  | .error e => refuse e.message 2
  | .ok line =>
    match ← gatherSettings line with
    | .error e => refuse e.message 1
    | .ok settings =>
      match settings.server.limits, settings.server.address with
      | .error e, _ => refuse e.message 1
      | _, .error e => refuse e.message 1
      | .ok limits, .ok address =>
        IO.println ("listen on " ++ address.text)
        IO.println ("serve " ++ settings.files.root)
        IO.println ("connections at most " ++ toString limits.maxConnections)
        IO.println ("idle at most " ++ toString settings.server.idleTimeoutSeconds ++ " s")
        IO.println ("heads at most " ++ toString limits.maxHeaderBytes ++ " octets")
        IO.println ("listings at most " ++ toString settings.files.listingLimit ++ " octets")
        return 0

end Docroot

def main (arguments : List String) : IO UInt32 := Docroot.showSettings arguments
