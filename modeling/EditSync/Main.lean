import EditSync.Command
import EditSync.Settings.Load
import EditSync.Workspace.Connection

/-! The command line program. All it does itself is to read files and streams and to print. -/

namespace EditSync.CommandLine

/-- What is found where a settings file may be. -/
def readConfigFile (path : String) : IO ConfigFile := do
  try
    return .ofOctets (← IO.FS.readBinFile path).toList
  catch
    | .noFileOrDirectory .. => return .absent
    | _ => return .unreadable

/-- A workspace file, or why it cannot be read. -/
def readWorkspaceFile (root key : String) : IO (Except SyncError String) := do
  match Path.resolve root key with
  | .error e => return .error e
  | .ok path =>
    try
      let octets ← IO.FS.readBinFile path
      return (Text.Utf8.decode? octets.toList).elim (.error (.io .notText)) fun cs => .ok (.ofList cs)
    catch
      | .noFileOrDirectory .. => return .error (.io .notFound)
      | .inappropriateType .. => return .error (.io .isDirectory)
      | _ => return .error (.untracked key)

/-- Loads the settings and tells about it on the error stream. -/
def loadSettings (root : Option String) (overrides : Option SettingsLayer) : IO Settings := do
  let userPath := Settings.userFile ((← IO.getEnv "HOME").getD "") (← IO.getEnv "XDG_CONFIG_HOME")
  let user ← match userPath with
    | some path => readConfigFile path
    | none => pure .absent
  let project ← root.mapM fun root => do
    return (root, ← readConfigFile (Path.join root Settings.fileName))
  let (settings, events) := Settings.load (userPath.getD "") user project overrides
  for event in events do
    IO.eprintln event.message
  return settings

/-- The workspace files with these keys. -/
def sourceFor (root : String) (keys : List String) : IO Source := do
  let files ← keys.mapM fun key => do return (key, ← readWorkspaceFile root key)
  return fun path => (files.lookup path).getD (.error (.untracked path))

/-- Serves the peer on the standard streams until the connection has ended. -/
partial def serve (root : String) (c : Connection) : IO Unit := do
  let octets := (← (← IO.getStdin).read 65536).toList
  let closed := octets.isEmpty
  let source ← sourceFor root (c.filesWanted closed octets)
  let next := c.receive { source := source } closed octets
  let stdout ← IO.getStdout
  stdout.write (Frame.writeAll (next.out.written.drop c.out.written.length)).toByteArray
  stdout.flush
  unless next.ended do
    serve root next

def run (args : List String) : IO UInt32 := do
  match Command.ofArguments args with
  | .error text =>
    IO.eprintln text
    return 2
  | .ok (.config root overrides) =>
    IO.print (← loadSettings root (some overrides)).toToml
    return 0
  | .ok (.serve root peer) =>
    let settings ← loadSettings root none
    let folder ← match root.or settings.workspaceRoot with
      | some folder => pure folder
      | none => pure (← IO.currentDir).toString
    serve folder (.start peer)
    return 0

end EditSync.CommandLine

def main (args : List String) : IO UInt32 := EditSync.CommandLine.run args
