import ModuleSystem.Command

/-!
# The program

The commands are functions of what is on the disk.  The program surveys the working directory and
every path that its arguments and the environment name, lets the command decide, and prints what it
says.
-/

namespace ModuleSystem.Program

/-- The text of some bytes. -/
def textOfBytes (bytes : ByteArray) : Text := bytes.toList

/-- The bytes of a text. -/
def bytesOfText (t : Text) : ByteArray := ByteArray.mk t.toArray

/-- The nodes at some paths and below them, together with those known already. What cannot be read
is left out. -/
partial def survey : List IO.FS.DirEntry → List (List Text × DiskNode) →
    IO (List (List Text × DiskNode))
  | [], nodes => pure nodes
  | e :: rest, nodes => do
    let path := e.path
    let key := Path.segments (Text.ofString path.toString)
    if (nodes.lookup key).isSome then survey rest nodes
    else
      try
        let real ← IO.FS.realPath path
        if Path.segments (Text.ofString real.toString) ≠ key then
          let target : IO.FS.DirEntry := { e with fileName := real.toString }
          survey (target :: rest) ((key, .link (Text.ofString real.toString)) :: nodes)
        else if ← path.isDir then
          let entries ← path.readDir
          survey (entries.toList ++ rest) ((key, .directory) :: nodes)
        else
          let bytes ← IO.FS.readBinFile path
          survey rest ((key, .file (textOfBytes bytes)) :: nodes)
      catch _ => survey rest nodes

/-- Everything that is still to come on a stream. -/
partial def readAll (s : IO.FS.Stream) (before : ByteArray) : IO ByteArray := do
  let bytes ← s.read 65536
  if bytes.isEmpty then pure before else readAll s (before ++ bytes)

/-- The settings that the environment holds. -/
def environment : IO (List (Text × Text)) :=
  Config.names.filterMapM fun name => do
    let variableName := Config.variableName name
    match String.fromUTF8? (bytesOfText variableName) with
    | none => pure none
    | some key => return (← IO.getEnv key).map fun v => (variableName, Text.ofString v)

/-- The paths that an argument may name. -/
def mentioned (argument : String) : List String :=
  match argument.splitOn "=" with
  | _ :: value@(_ :: _) => [argument, "=".intercalate value]
  | _ => [argument]

/-- Runs a command line and gives its exit code. -/
def run (args : List String) : IO UInt32 := do
  let here ← IO.currentDir
  let found ← environment
  let values := found.filterMap fun v => String.fromUTF8? (bytesOfText v.2)
  let paths := "." :: args.flatMap mentioned ++ values
  let entries := paths.map fun p => ({ root := here, fileName := p } : IO.FS.DirEntry)
  let nodes ← survey entries []
  let arguments := args.map Text.ofString
  let stdin ← if Command.readsStdin arguments then readAll (← IO.getStdin) .empty else pure .empty
  let outcome := Command.execute
    { disk := Disk.ofNodes (Path.segments (Text.ofString here.toString)) nodes
      environment := found
      stdin := textOfBytes stdin }
    arguments
  (← IO.getStdout).write (bytesOfText outcome.stdout)
  (← IO.getStderr).write (bytesOfText (outcome.log ++ outcome.stderr))
  return outcome.code.toNat.toUInt32

end ModuleSystem.Program

/-- The program. -/
def main (args : List String) : IO UInt32 := ModuleSystem.Program.run args
