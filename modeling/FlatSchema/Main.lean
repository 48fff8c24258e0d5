import FlatSchema.Command

/-!
# The program

The command on the files of the system.  Files are read when the command asks
for them: it is run on the files that are known, and what it would have read
besides is read then, until there is nothing new.
-/

namespace FlatSchema.Command

def withFile (tree : FileTree) (path : Text) (bs : List UInt8) : FileTree :=
  match tree.makeDirectory (Path.dirname path) with
  | .ok made => made.put path (.file bs)
  | .error _ => tree

def fetch (path : Text) : IO (Option (List UInt8)) := do
  match path.toString? with
  | none => return none
  | some name =>
    try
      return some (← IO.FS.readBinFile name).toList
    catch _ =>
      return none

partial def gather (dir : Text) (args : List String) (tried : List Text)
    (tree : FileTree) : IO FileTree := do
  let wanted := (reads dir tree args).filter fun path => !tried.contains path
  if wanted.isEmpty then
    return tree
  let mut known := tree
  for path in wanted do
    if let some bs ← fetch path then
      known := withFile known path bs
  gather dir args (tried ++ wanted) known

def store (earlier later : FileTree) : IO Unit := do
  for (path, bs) in later.files.reverse do
    unless earlier.files.contains (path, bs) do
      if let (some name, some dir) :=
          (path.toString?, (Path.dirname path).toString?) then
        IO.FS.createDirAll dir
        IO.FS.writeBinFile name (ByteArray.mk bs.toArray)

def put (stream : IO.FS.Stream) (text : Text) : IO Unit :=
  stream.putStr (Utf8.decodeFile (Utf8.encode text))

def runHere (args : List String) : IO UInt32 := do
  let dir := Text.ofString (← IO.currentDir).toString
  let tree ← gather dir args [] .empty
  let out := run dir tree args
  put (← IO.getStderr) out.err
  try
    store tree out.tree
    put (← IO.getStdout) out.out
    return UInt32.ofNat out.code
  catch err =>
    put (← IO.getStderr) (complaint (Text.ofString (toString err)))
    return 1

end FlatSchema.Command

def main (args : List String) : IO UInt32 :=
  FlatSchema.Command.runHere args
