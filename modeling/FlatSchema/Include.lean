import FlatSchema.Path
import FlatSchema.Schema.Parser
import FlatSchema.Source.Bundle
import FlatSchema.Symbols

/-!
# Included files

A schema is loaded together with everything it includes.  An include is looked
for next to the file it stands in and then in the include directories; the
first file that exists is taken.  Each file is read and parsed once.

Loading goes by rounds: a round parses the files that the last round has found
and that are new.  Every round but the last parses a file that exists, so there
are no more rounds than files.  What is wrong with each file is reported in
the order of the paths.
-/

namespace FlatSchema

/-- Where schemas are read from: how paths are formed, the files there are, and why a path cannot
be read where that is so. -/
structure Host where
  normalize : Text → Text
  join : Text → Text → Text
  dirname : Text → Text
  files : List (Text × String)
  failure : Text → Option Text

inductive FileRead where
  | content (text : String)
  | missing
  | failed (reason : Text)
deriving DecidableEq, Inhabited, Repr

namespace Host

def read (host : Host) (path : Text) : FileRead :=
  match host.failure path, host.files.lookup path with
  | some reason, _ => .failed reason
  | none, some text => .content text
  | none, none => .missing

/-- The sources of a bundle as files.  Of two whose paths lead to one file the last counts. -/
def ofBundle (bundle : Bundle) : Host where
  normalize := Path.normalize
  join := fun dir path => Path.normalize (Path.join dir path)
  dirname := Path.dirname
  files := (bundle.mapPaths Path.normalize).sources.map fun src => (src.path, src.text)
  failure := fun _ => none

end Host

namespace Include

inductive Probe where
  | found (path : Text)
  | missing
  | failed (path : Text) (reason : Text)
deriving DecidableEq, Inhabited, Repr

/-- Try paths in order up to the first that is not missing.  Gives all paths that were tried. -/
def probe (host : Host) : List Text → Probe × List Text
  | [] => (.missing, [])
  | path :: rest =>
    match host.read path with
    | .content _ => (.found path, [path])
    | .failed reason => (.failed path reason, [path])
    | .missing =>
      let (res, tried) := probe host rest
      (res, path :: tried)

variable (host : Host) (dirs : List Text)

/-- The places where an included file may be. -/
def candidates (file target : Text) : List Text :=
  (host.join (host.dirname file) target ::
    dirs.map fun dir => host.join dir target).eraseDups

structure Directive where
  target : Text
  span : Span
deriving DecidableEq, Inhabited, Repr

def directives (sch : Schema) : List Directive :=
  sch.items.filterMap fun item =>
    match item with
    | .includeFile target span => some ⟨target, span⟩
    | _ => none

def quoted (text : Text) : Text :=
  Text.ofString "\"" ++ text ++ Text.ofString "\""

def notFound (file : Text) (directive : Directive) (tried : List Text) : Diagnostic :=
  let lines := tried.map fun path => Text.ofString "- " ++ path
  Diagnostic.errorAtPosition "FBS003"
    (Text.ofString "Failed to resolve include " ++ quoted directive.target ++
      Text.ofString " from " ++ quoted file ++ Text.ofString ". Tried:\n" ++
      Text.join "\n" lines)
    file directive.span.start

def notReadable (file : Text) (directive : Directive) (path reason : Text) : Diagnostic :=
  Diagnostic.errorAtPosition "FBS001"
    (Text.ofString "Failed to read included file " ++ quoted path ++ Text.ofString ": " ++ reason)
    file directive.span.start

/-- A file that has been parsed: its schema, what is wrong with it, the files that it includes,
and the paths that were tried for them. -/
structure Loaded where
  path : Text
  schema : Option Schema
  diagnostics : List Diagnostic
  includes : List Text
  tried : List Text
deriving Inhabited

def follow (loaded : Loaded) (directive : Directive) : Loaded :=
  let paths := candidates host dirs loaded.path directive.target
  let (res, tried) := probe host paths
  let noted := { loaded with tried := loaded.tried ++ tried }
  match res with
  | .found path => { noted with includes := noted.includes ++ [path] }
  | .missing =>
    { noted with
      diagnostics := noted.diagnostics ++ [notFound loaded.path directive paths] }
  | .failed path reason =>
    { noted with
      diagnostics := noted.diagnostics ++ [notReadable loaded.path directive path reason] }

def loadFile (path : Text) (text : String) : Loaded :=
  let parsed := (Source.mk path text).parse
  let start : Loaded := ⟨path, parsed.schema, parsed.diagnostics, [], []⟩
  match parsed.schema with
  | none => start
  | some sch => (directives sch).foldl (follow host dirs) start

def loadPath? (path : Text) : Option Loaded :=
  match host.read path with
  | .content text => some (loadFile host dirs path text)
  | _ => none

/-- Load the files of `frontier` that are new, then what they include, for a number of rounds. -/
def rounds (host : Host) (dirs : List Text) : Nat → List Loaded → List Text → List Loaded
  | 0, loaded, _ => loaded
  | n + 1, loaded, frontier =>
    let fresh := frontier.eraseDups.filter fun path =>
      !loaded.any fun file => file.path == path
    let files := fresh.filterMap (loadPath? host dirs)
    rounds host dirs n (loaded ++ files) (files.flatMap Loaded.includes)

def sortFiles (files : List Loaded) : List Loaded :=
  files.mergeSort fun left right => left.path.le right.path

/-- A set of schemas that has been loaded, unless something was wrong, with the paths that were
read. -/
structure Loading where
  schemas : Option (List Schema)
  diagnostics : List Diagnostic
  reads : List Text
deriving Inhabited

def unreadable (e : Text) (msg : Text) : Loading :=
  ⟨none, [Diagnostic.errorIn "FBS001" msg e], [e]⟩

/-- Load a file and all that it includes. -/
def load (entryFile : Text) : Loading :=
  let e := host.normalize entryFile
  match host.read e with
  | .failed reason => unreadable e (Text.ofString "Failed to read entry file: " ++ reason)
  | .missing =>
    unreadable e
      (Text.ofString "Entry file " ++ quoted e ++ Text.ofString " does not exist.")
  | .content _ =>
    let normalized := dirs.map host.normalize
    let files := sortFiles (rounds host normalized (host.files.length + 1) [] [e])
    let diags := files.flatMap Loaded.diagnostics
    let reads := (e :: files.flatMap Loaded.tried).eraseDups
    let schemas := Schema.sortByPath (files.filterMap Loaded.schema)
    ⟨if DiagnosticAt.hasErrors diags then none else some schemas, diags, reads⟩

end Include

end FlatSchema
