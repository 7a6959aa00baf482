import Docroot.Settings

/-!
The command line: `[ROOT] [LISTEN] [--config FILE]`. What it says overrides the environment, which overrides
the file, which overrides the defaults.
-/
namespace Docroot

structure CommandLine where
  root : Option String := none
  listen : Option String := none
  config : Option String := none
  deriving DecidableEq, Repr

inductive UsageError where
  | unexpected (argument : String)
  | noFile
  | twoFiles
  deriving DecidableEq, Repr

def UsageError.message : UsageError → String
  | unexpected argument => "unexpected argument " ++ argument
  | noFile => "--config needs a file"
  | twoFiles => "--config cannot be used twice"

namespace CommandLine

def withConfig (line : CommandLine) (file : String) : Except UsageError CommandLine :=
  match line.config with
  | none => .ok { line with config := some file }
  | some _ => .error .twoFiles

def withArgument (line : CommandLine) (argument : String) : Except UsageError CommandLine :=
  match line.root, line.listen with
  | none, _ => .ok { line with root := some argument }
  | some _, none => .ok { line with listen := some argument }
  | some _, some _ => .error (.unexpected argument)

/-- Reads arguments that stand behind those already read. After `--` no argument is an option. -/
def readAfter (line : CommandLine) : List String → Except UsageError CommandLine
  | [] => .ok line
  | "--" :: rest => rest.foldlM withArgument line
  | argument :: rest =>
    if argument = "--config" ∨ argument = "-c" then
      match rest with
      | [] => .error .noFile
      | file :: rest =>
        match line.withConfig file with
        | .ok line => readAfter line rest
        | .error e => .error e
    else if argument.startsWith "-" ∧ argument ≠ "-" then .error (.unexpected argument)
    else
      match line.withArgument argument with
      | .ok line => readAfter line rest
      | .error e => .error e

def read (arguments : List String) : Except UsageError CommandLine := readAfter {} arguments

/-- Puts what the command line says over settings. -/
def override (line : CommandLine) (settings : Settings) : Settings :=
  settings.override ⟨line.listen, line.root⟩

end CommandLine

end Docroot
