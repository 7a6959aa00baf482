import Docroot.FileSystem.Handle
import Docroot.FileSystem.Walk
import Docroot.Limits
import Docroot.Net.ListenAddress
import Docroot.Yaml.Document

/-!
Settings. They have defaults; a YAML file may say otherwise, and the environment overrides both. A text with
nothing in it leaves the defaults, unknown names are passed over, and a known name may come only once.
-/
namespace Docroot

structure ServerSettings where
  /-- `host:port` or a port alone. -/
  listen : String := "0.0.0.0:8080"
  maxConnections : Nat := 1024
  idleTimeoutSeconds : Nat := 10
  maxHeaderBytes : Nat := 8192
  deriving DecidableEq, Repr

structure FileSettings where
  root : String := "."
  /-- The longest listing that is sent, in octets. -/
  listingLimit : Nat := 1048576
  deriving DecidableEq, Repr

structure Settings where
  server : ServerSettings := {}
  files : FileSettings := {}
  deriving DecidableEq, Repr

/-- The variables of the environment that override settings. -/
structure Environment where
  listen : Option String := none
  root : Option String := none
  deriving DecidableEq, Repr

inductive LimitsError where
  | noConnections
  | idleTimeout (seconds : Nat)
  | headerBytes (count : Nat)
  deriving DecidableEq, Repr

def LimitsError.message : LimitsError → String
  | noConnections => "max_connections must be at least 1"
  | idleTimeout seconds =>
    "idle_timeout_secs must be between 1 and " ++ toString Limits.maxIdleSeconds ++ ", got "
      ++ toString seconds
  | headerBytes count =>
    "max_header_bytes must be at least " ++ toString Limits.minHeaderBytes ++ ", got " ++ toString count

namespace ServerSettings

/-- The bounds as they are, unchecked. -/
def uncheckedLimits (s : ServerSettings) : Limits :=
  ⟨s.maxConnections, s.maxHeaderBytes, s.idleTimeoutSeconds * 1000⟩

/-- The bounds, if they make sense; of several faults the first one counts. -/
def limits (s : ServerSettings) : Except LimitsError Limits :=
  if s.maxConnections = 0 then .error .noConnections
  else if s.idleTimeoutSeconds = 0 ∨ Limits.maxIdleSeconds < s.idleTimeoutSeconds then
    .error (.idleTimeout s.idleTimeoutSeconds)
  else if s.maxHeaderBytes < Limits.minHeaderBytes then .error (.headerBytes s.maxHeaderBytes)
  else .ok s.uncheckedLimits

def address (s : ServerSettings) : Except ListenError SocketAddress :=
  SocketAddress.ofListen s.listen

end ServerSettings

def Limits.default : Limits := ServerSettings.uncheckedLimits {}

inductive SettingsError where
  /-- The text is no YAML, or does not say what it should. -/
  | invalid
  | unreadable (path : Bytes) (cause : IoError)
  | unparsable (path : Bytes)
  deriving DecidableEq, Repr

namespace SettingsError

def message : SettingsError → String
  | invalid => "invalid configuration"
  | unreadable path _ => "failed to read config " ++ String.ofList (Utf8.decodeLossy path)
  | unparsable path => "failed to parse config " ++ String.ofList (Utf8.decodeLossy path)

def cause? : SettingsError → Option IoError
  | unreadable _ cause => some cause
  | _ => none

end SettingsError

namespace Settings

open Yaml (Document Value)

/-- The fields of a mapping in which no name of `known` comes twice. -/
def fields? (known : List String) (d : Document) (v : Value) : Option (List (String × Value)) := do
  let fields ← d.fields? v
  if known.all fun name => (fields.filter fun f => f.1 == name).length ≤ 1 then some fields else none

/-- The field of a given name read by `read?`; `default` where there is none. -/
def field? {α : Type} (fields : List (String × Value)) (name : String) (default : α)
    (read? : Value → Option α) : Option α :=
  match fields.lookup name with
  | some v => read? v
  | none => some default

def server? (d : Document) (v : Value) : Option ServerSettings := do
  let start : ServerSettings := {}
  let fields ← fields? ["listen_addr", "max_connections", "idle_timeout_secs", "max_header_bytes"] d v
  let listen ← field? fields "listen_addr" start.listen d.text?
  let maxConnections ← field? fields "max_connections" start.maxConnections d.natural?
  let idleTimeoutSeconds ← field? fields "idle_timeout_secs" start.idleTimeoutSeconds d.natural?
  let maxHeaderBytes ← field? fields "max_header_bytes" start.maxHeaderBytes d.natural?
  return { listen, maxConnections, idleTimeoutSeconds, maxHeaderBytes }

def files? (d : Document) (v : Value) : Option FileSettings := do
  let start : FileSettings := {}
  let fields ← fields? ["root", "listing_limit"] d v
  let root ← field? fields "root" start.root d.text?
  let listingLimit ← field? fields "listing_limit" start.listingLimit d.natural?
  return { root, listingLimit }

def ofDocument? (d : Document) : Option Settings := do
  let fields ← fields? ["server", "static_files"] d d.events
  let server ← field? fields "server" {} (server? d)
  let files ← field? fields "static_files" {} (files? d)
  return { server, files }

def ofYaml (text : String) : Except SettingsError Settings :=
  match (Document.ofText? text).bind ofDocument? with
  | some settings => .ok settings
  | none => .error .invalid

/-- Settings with what the environment says put over them. -/
def override (settings : Settings) (env : Environment) : Settings where
  server := { settings.server with listen := env.listen.getD settings.server.listen }
  files := { settings.files with root := env.root.getD settings.files.root }

/-- The defaults, with what the environment says put over them. -/
def ofEnvironment (env : Environment) : Settings := override {} env

def readText (fs : FileSystem) (path : Bytes) : Except IoError String :=
  match fs.reach path with
  | .error e => .error e
  | .ok location =>
    match Handle.readAllAt fs location with
    | .error e => .error e
    | .ok bytes =>
      match Utf8.decode? bytes with
      | some cs => .ok (String.ofList cs)
      | none => .error .notText

def ofFileText (env : Environment) (path : Bytes) : Except IoError String → Except SettingsError Settings
  | .error e => .error (.unreadable path e)
  | .ok text =>
    match ofYaml text with
    | .ok settings => .ok (settings.override env)
    | .error _ => .error (.unparsable path)

/-- The settings in a file, with what the environment says put over them. -/
def ofFile (fs : FileSystem) (env : Environment) (path : Bytes) : Except SettingsError Settings :=
  ofFileText env path (readText fs path)

end Settings

end Docroot
