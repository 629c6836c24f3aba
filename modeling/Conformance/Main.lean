import Conformance.Command.Session
import Conformance.Download.Reply

namespace Conformance.Terminal

def located (host : Host) (path : String) : Host.Location :=
  (Host.names path).foldl
    (fun reached name =>
      if name = "." then reached
      else if name = ".." then reached.dropLast
      else reached ++ [name])
    (host.origin path)

def withFolders (host : Host) (location : Host.Location) : Host :=
  ((List.range location.length).map location.take).foldl
    (fun host folder => if folder.isEmpty then host else host.put folder .folder) host

partial def take (host : Host) (location : Host.Location) (path : String) : IO Host := do
  let place := (← IO.currentDir) / path
  unless ← place.pathExists do return host
  match (← place.symlinkMetadata).type with
  | .symlink => return host.put location (.link (← IO.FS.realPath place).toString)
  | .dir =>
    let mut host := host.put location .folder
    for entry in ← place.readDir do
      host ← take host (location ++ [entry.fileName]) entry.path.toString
    return host
  | _ => return host.put location (.file (← IO.FS.readBinFile place))

def takeTargets (host : Host) : IO Host :=
  host.entries.toList.foldlM
    (fun host entry =>
      match entry.2 with
      | .link target =>
        let location := Host.names target
        if (host.get? location).isSome then pure host
        else take (withFolders host location) location target
      | _ => pure host)
    host

def takeAll (host : Host) (paths : List String) : IO Host := do
  takeTargets (← paths.foldlM
    (fun host path =>
      let location := located host path
      take (withFolders host location) location path)
    host)

def pathOf (location : Host.Location) : String :=
  "/" ++ "/".intercalate location

def isSame : Host.Entry → Host.Entry → Bool
  | .file left, .file right => left == right
  | .folder, .folder => true
  | .link left, .link right => left == right
  | _, _ => false

def putBack (before after : Host) : IO Unit := do
  let here ← IO.currentDir
  for (location, entry) in before.entries.toList.reverse do
    if (after.get? location).isNone then
      match entry with
      | .folder => IO.FS.removeDir (here / pathOf location)
      | _ => IO.FS.removeFile (here / pathOf location)
  for (location, entry) in after.entries.toList do
    unless (before.get? location).any (isSame entry) do
      match entry with
      | .folder => IO.FS.createDirAll (here / pathOf location)
      | .file bytes => IO.FS.writeBinFile (here / pathOf location) bytes
      | .link _ => pure ()

def wishes : IO Text.StyleWishes := do
  return { force := ← IO.getEnv "CLICOLOR_FORCE"
           never := ← IO.getEnv "NO_COLOR"
           usual := ← IO.getEnv "CLICOLOR" }

def defaultCache : IO String := do
  let folder ← match ← IO.getEnv "XDG_CACHE_HOME" with
    | some folder => pure folder
    | none => pure (Host.join ((← IO.getEnv "HOME").getD "/tmp") ".cache")
  return Host.join folder "test262"

def print (line : Line) : IO Unit :=
  match line with
  | .out text => IO.println text
  | .err text => IO.eprintln text

def perform (arguments : Arguments) : IO UInt32 := do
  let surroundings : Surroundings :=
    { color := (← wishes).isOn (← (← IO.getStdout).isTty)
      fetcher := Download.offline
      defaultCache := ← defaultCache }
  let here := Host.names (← IO.currentDir).toString
  let bare := withFolders (Host.empty here) (here ++ ["."])
  let configured ← takeAll bare [arguments.options.config.getD Settings.defaultFile]
  let settings := (Session.settingsOf configured arguments.options).1
  let host ← takeAll configured (Session.places surroundings settings)
  let session := Session.run surroundings arguments host
  session.notices.forM fun notice => IO.eprintln s!"WARN {notice.message}"
  session.lines.forM print
  putBack host session.cache.host
  return UInt32.ofNat session.code

end Conformance.Terminal

def main (arguments : List String) : IO UInt32 :=
  match Conformance.Arguments.read? arguments with
  | some arguments => Conformance.Terminal.perform arguments
  | none => do
    IO.eprintln "error: the arguments are malformed"
    return UInt32.ofNat Conformance.Session.usageCode
