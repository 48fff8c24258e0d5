import FlatSchema.Compile
import FlatSchema.FileTree

/-!
# The command line

The command compiles one entry file and writes what is generated next to it or
into an output directory.  Diagnostics go to the error stream in the order of
display; a command that cannot be understood is answered with its usage.

The command runs on a file tree: it gives its exit code, what it prints and the
tree after it.
-/

namespace FlatSchema.Command

def version : String := "0.1.0"

def targetNames : String :=
  "|".intercalate (Target.all.map Target.name)

def usage : String :=
  "\n".intercalate
    ["fbsgen [options] <entry.fbs>",
      "",
      "Options:",
      "  -o, --out-dir <dir>     Directory generated files are written to (default: next to entry)",
      s!"  -t, --target <target>   Output target: {targetNames} (repeatable, default: ts)",
      "  -I, --include <dir>     Add include search path (repeatable)",
      "      --runtime <spec>    Module specifier generated code imports the runtime from",
      "  -V, --version           Print version",
      "  -h, --help              Show help",
      ""]

inductive UsageError where
  | missingValue (opt : String)
  | unsupportedTarget (name : String)
  | unknownOption (opt : String)
  | entryCount
deriving DecidableEq, Inhabited, Repr

def UsageError.message : UsageError → String
  | .missingValue opt => s!"{opt} expects a value"
  | .unsupportedTarget name => s!"Unsupported --target \"{name}\" (expected {targetNames})"
  | .unknownOption opt => s!"Unknown option \"{opt}\""
  | .entryCount => "Expected exactly one <entry.fbs> argument"

inductive ValueOption where
  | outDir
  | target
  | includeDir
  | runtime
deriving DecidableEq, Inhabited, Repr

namespace ValueOption

def all : List ValueOption :=
  [.outDir, .target, .includeDir, .runtime]

def long : ValueOption → String
  | .outDir => "--out-dir"
  | .target => "--target"
  | .includeDir => "--include"
  | .runtime => "--runtime"

def short? : ValueOption → Option String
  | .outDir => some "-o"
  | .target => some "-t"
  | .includeDir => some "-I"
  | .runtime => none

def after? (start text : String) : Option String :=
  if start.toList.isPrefixOf text.toList then
    some (String.ofList (text.toList.drop start.toList.length))
  else none

def isSpelling (opt : ValueOption) (arg : String) : Bool :=
  arg == opt.long || opt.short? == some arg

end ValueOption

structure Settings where
  entry : Option String
  outDir : Option String
  targets : List Target
  includeDirs : List String
  runtimeImport : Option String
deriving DecidableEq, Inhabited

def Settings.start : Settings := ⟨none, none, [], [], none⟩

def Settings.set (cfg : Settings) (opt : ValueOption) (v : String) : Except UsageError Settings :=
  match opt with
  | .outDir => .ok { cfg with outDir := some v }
  | .includeDir => .ok { cfg with includeDirs := cfg.includeDirs ++ [v] }
  | .runtime => .ok { cfg with runtimeImport := some v }
  | .target =>
    match Target.ofName? v with
    | none => .error (.unsupportedTarget v)
    | some target =>
      if cfg.targets.contains target then .ok cfg
      else .ok { cfg with targets := cfg.targets ++ [target] }

inductive Request where
  | help
  | version
  | compile (cfg : Settings)
deriving DecidableEq, Inhabited

def inlineOption? (arg : String) : Option (ValueOption × String) :=
  ValueOption.all.findSome? fun opt =>
    (ValueOption.after? (opt.long ++ "=") arg).map fun v => (opt, v)

def takeEntry (cfg : Settings) (arg : String) : Except UsageError Settings :=
  if "-".toList.isPrefixOf arg.toList then .error (.unknownOption arg)
  else if cfg.entry.isSome then .error .entryCount
  else .ok { cfg with entry := some arg }

def readArguments (cfg : Settings) : List String → Except UsageError Request
  | [] =>
    if cfg.entry.all String.isEmpty then .error .entryCount
    else .ok (.compile cfg)
  | arg :: rest =>
    if arg = "-h" || arg = "--help" then .ok .help
    else if arg = "-V" || arg = "--version" then .ok .version
    else
      match inlineOption? arg with
      | some (opt, v) =>
        if v.isEmpty then .error (.missingValue opt.long)
        else do readArguments (← cfg.set opt v) rest
      | none =>
        match ValueOption.all.find? fun opt => opt.isSpelling arg with
        | some opt =>
          match rest with
          | v :: tail =>
            if v.isEmpty then .error (.missingValue arg)
            else do readArguments (← cfg.set opt v) tail
          | [] => .error (.missingValue arg)
        | none => do readArguments (← takeEntry cfg arg) rest

structure Outcome where
  code : Nat
  out : Text
  err : Text
  tree : FileTree
deriving Inhabited

def hostOf (dir : Text) (tree : FileTree) : Host where
  normalize := Path.resolve dir
  join := fun base path => Path.resolve (Path.resolve dir base) path
  dirname := Path.dirname
  files := tree.files.map fun (path, bs) => (path, Utf8.decodeFile bs)
  failure := fun path =>
    match tree.walk path with
    | .error .nameTooLong =>
      some (Text.ofString "Error: " ++ FileError.nameTooLong.message .openFile path)
    | _ => none

def compileOptions (cfg : Settings) : CompileOptions where
  includeDirs := cfg.includeDirs.map Text.ofString
  targets := if cfg.targets.isEmpty then [.ts] else cfg.targets
  emit := { EmitOptions.standard with
    runtimeImport := cfg.runtimeImport.getD EmitOptions.standard.runtimeImport }

def writeArtifact (root : Text) (tree : FileTree) (artifact : Artifact) :
    Except Text (FileTree × Text) := do
  let path := Path.resolve root artifact.path
  let dir := Path.dirname path
  match tree.makeDirectory dir with
  | .error error => .error (error.message .makeDirectory dir)
  | .ok made =>
    match made.writeFile path (Utf8.encode artifact.text) with
    | .error error => .error (error.message .openFile path)
    | .ok raw => .ok (raw, path)

/-- Write generated files.  Gives the tree, the paths and the first failure. -/
def writeArtifacts (root : Text) : FileTree → List Artifact → FileTree × List Text × Option Text
  | tree, [] => (tree, [], none)
  | tree, artifact :: rest =>
    match writeArtifact root tree artifact with
    | .ok (raw, path) =>
      let (last, paths, failure) := writeArtifacts root raw rest
      (last, path :: paths, failure)
    | .error msg =>
      let (last, paths, _) := writeArtifacts root tree rest
      (last, paths, some msg)

def linesOf (lines : List Text) : Text :=
  ⟨(lines.map fun line => line.units ++ [10]).flatten⟩

def complaint (msg : Text) : Text :=
  linesOf [Text.ofString "fbsgen: " ++ msg]

def compile (dir : Text) (tree : FileTree) (cfg : Settings) : Outcome :=
  let e := Text.ofString (cfg.entry.getD "")
  match Compilation.run (hostOf dir tree) e (compileOptions cfg) with
  | .error fault => ⟨1, Text.empty, complaint fault.message, tree⟩
  | .ok res =>
    let shown := linesOf ((DiagnosticAt.sortForDisplay res.diagnostics).map DiagnosticAt.render)
    if DiagnosticAt.hasErrors res.diagnostics then ⟨1, Text.empty, shown, tree⟩
    else
      let outDir := match cfg.outDir with
        | some given => Text.ofString given
        | none => Path.dirname (Path.resolve dir e)
      match writeArtifacts (Path.resolve dir outDir) tree res.artifacts with
      | (last, paths, none) => ⟨0, linesOf paths, shown, last⟩
      | (last, _, some msg) => ⟨1, Text.empty, shown ++ complaint msg, last⟩

def run (dir : Text) (tree : FileTree) (args : List String) : Outcome :=
  match readArguments .start args with
  | .error error =>
    ⟨2, Text.empty, complaint error.message ++ linesOf [Text.ofString usage], tree⟩
  | .ok .help => ⟨0, usage, Text.empty, tree⟩
  | .ok .version => ⟨0, linesOf [Text.ofString version], Text.empty, tree⟩
  | .ok (.compile cfg) => compile dir tree cfg

def reads (dir : Text) (tree : FileTree) (args : List String) : List Text :=
  match readArguments .start args with
  | .ok (.compile cfg) =>
    let e := Text.ofString (cfg.entry.getD "")
    (Include.load (hostOf dir tree) (compileOptions cfg).includeDirs e).reads
  | _ => []

end FlatSchema.Command
