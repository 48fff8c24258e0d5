import FlatSchema.Rpc.Behaviour

/-!
# Scripts

A script is a list of instructions for a participant, with a line that it logs
when it starts and one that it logs when it ends, whatever the way it ends.
The texts of a script are templates over the variables that the script sets as
it is performed.
-/

namespace FlatSchema.Rpc

inductive Variable where
  | request
  | path
  /-- All requests that were gathered, with plus signs between them. -/
  | all
  /-- The number of the turn of the innermost loop. -/
  | index
deriving DecidableEq, Inhabited, Repr

inductive Segment where
  | text (text : String)
  | hole (which : Variable)
deriving DecidableEq, Inhabited, Repr

abbrev Template := List Segment

structure Bindings where
  request : String
  path : String
  all : List String
  index : Nat
deriving DecidableEq, Inhabited, Repr

def Bindings.value (bindings : Bindings) : Variable → String
  | .request => bindings.request
  | .path => bindings.path
  | .all => "+".intercalate bindings.all
  | .index => toString bindings.index

namespace Template

def plain (text : String) : Template :=
  [.text text]

def named? : String → Option Variable
  | "req" => some .request
  | "path" => some .path
  | "all" => some .all
  | "i" => some .index
  | _ => none

/-- The template of the pieces of a text that follow an opening brace. -/
def ofPieces : List String → Template
  | [] => []
  | piece :: rest =>
    let inside := piece.toList.takeWhile (· != '\x7d')
    match named? (String.ofList inside), piece.toList.drop inside.length with
    | some which, _ :: tail => .hole which :: .text (String.ofList tail) :: ofPieces rest
    | _, _ => .text ("\x7b" ++ piece) :: ofPieces rest

/-- Reads a template; braces around anything but a variable stay as they are. -/
def ofString (text : String) : Template :=
  match text.splitOn "\x7b" with
  | [] => []
  | first :: rest => .text first :: ofPieces rest

def fill (template : Template) (bindings : Bindings) : String :=
  String.join (template.map fun
    | .text text => text
    | .hole which => bindings.value which)

end Template

inductive Instruction where
  | log (line : Template)
  | logAborted
  | produce (msg : Template)
  | raise (msg : Template)
  | wait (gate : String)
  | part (body : List Instruction)
  /-- Perform the body as a part for each number from `index` and below `n`. -/
  | loop (index n : Nat) (body : List Instruction)
  | read
  | readAll
  | echo (msg : Template)
  | releaseInput
deriving Inhabited, Repr

structure Script where
  opening : String
  closing : String
  body : List Instruction
deriving Inhabited, Repr

def Script.noRequest : String :=
  "<end>"

/-- The script of a handler, which logs its name with where it is and has its instructions as a
part. -/
def Script.ofHandler (name : String) (body : List Instruction) : Script :=
  ⟨name ++ ":start", name ++ ":end", [.part body]⟩

inductive RequestItem where
  | message (message : String)
  | wait (gate : String)
  | raise (message : String)
deriving DecidableEq, Inhabited, Repr

def Script.ofRequests (items : List RequestItem) : Script :=
  ⟨"requests:open", "requests:close", items.flatMap fun
    | .message msg => [.produce (.plain msg)]
    | .wait gate => [.log (.plain ("requests:wait " ++ gate)), .wait gate]
    | .raise msg => [.raise (.plain msg)]⟩

inductive Stage where
  | opening
  | playing
  | closing (fault : Option Fault)
  | over (fault : Option Fault)
deriving DecidableEq, Inhabited, Repr

inductive Level where
  | running (todo : List Instruction)
  | stopped
  | failed (fault : Fault)
deriving Inhabited, Repr

def Level.fault? : Level → Option Fault
  | .failed fault => some fault
  | _ => none

structure Performance where
  script : Script
  stage : Stage
  /-- The whole and the parts in its place, the innermost first. -/
  levels : List Level
  bindings : Bindings
deriving Inhabited, Repr

namespace Performance

def start (script : Script) (path req : String) : Performance :=
  ⟨script, .opening, [.running script.body], ⟨req, path, [], 0⟩⟩

def actOf (bindings : Bindings) : Instruction → Act
  | .log line => .log (line.fill bindings)
  | .logAborted => .checkAborted
  | .produce msg => .produce (msg.fill bindings)
  | .raise _ => .skip
  | .wait gate => .wait gate
  | .part _ => .delegate
  | .loop .. => .skip
  | .read => .read
  | .readAll => .read
  | .echo _ => .read
  | .releaseInput => .releaseInput

def actOfLevels (bindings : Bindings) : List Level → Act
  | .running (instr :: _) :: _ => actOf bindings instr
  | .failed fault :: _ :: _ => .fail fault
  | _ :: _ :: _ => .finish
  | _ => .skip

variable (perf : Performance)

def act : Act :=
  match perf.stage with
  | .opening => .log perf.script.opening
  | .playing => actOfLevels perf.bindings perf.levels
  | .closing _ => .log perf.script.closing
  | .over none => .finish
  | .over (some fault) => .fail fault

def goTo (outer : List Level) (todo : List Instruction) : Performance :=
  { perf with levels := .running todo :: outer }

def goOn (outer : List Level) (rest : List Instruction) : Instruction → Heard → Performance
  | .raise msg, _ =>
    { perf with
      levels := .failed (.raised (msg.fill perf.bindings)) :: outer }
  | .logAborted, .aborted yes =>
    perf.goTo outer (.log (.plain s!"aborted:{yes}") :: rest)
  | .part body, _ => perf.goTo (.running rest :: outer) body
  | .loop index n body, _ =>
    if index < n then
      { perf with
        levels := .running (.part body :: .loop (index + 1) n body :: rest) :: outer
        bindings := { perf.bindings with index } }
    else
      perf.goTo outer rest
  | .read, .request msg =>
    { perf with
      levels := .running rest :: outer
      bindings := { perf.bindings with
        request := msg.getD Script.noRequest
        all := perf.bindings.all ++ msg.toList } }
  | .readAll, .request (some msg) =>
    { perf with
      bindings := { perf.bindings with all := perf.bindings.all ++ [msg] } }
  | .echo template, .request (some msg) =>
    { perf with
      levels := .running (.produce template :: .echo template :: rest) :: outer
      bindings := { perf.bindings with request := msg } }
  | _, _ => perf.goTo outer rest

def Level.after (level : Level) : Heard → Level
  | .stop => .stopped
  | .fault fault => .failed fault
  | _ => level

/-- The performance after an answer to its levels.  Where the innermost level has ended, the one
around it hears how, and the end of the last leads to the closing line. -/
def hearLevels (heard : Heard) : List Level → Performance
  | .running (instr :: rest) :: outer =>
    match heard with
    | .stop => { perf with levels := .stopped :: outer }
    | .fault fault => { perf with levels := .failed fault :: outer }
    | heard => perf.goOn outer rest instr heard
  | _ :: level :: outer => { perf with levels := Level.after level heard :: outer }
  | [level] => { perf with stage := .closing level.fault? }
  | [] => { perf with stage := .closing none }

def hear (heard : Heard) : Performance :=
  match perf.stage with
  | .opening => { perf with stage := .playing }
  | .playing => perf.hearLevels heard perf.levels
  | .closing fault => { perf with stage := .over fault }
  | .over _ => perf

end Performance

instance : Behaviour Performance where
  act := Performance.act
  hear := Performance.hear

end FlatSchema.Rpc
