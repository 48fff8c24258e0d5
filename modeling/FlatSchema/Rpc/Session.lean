import FlatSchema.Rpc.Machine.Steps

/-!
# Sessions

A session is a machine with names for its streams and their iterators, driven
by one operation at a time.  A name can be given to another stream later on;
the iterator that was taken under it stays until another one is taken.

After each operation the machine runs until it is at rest.  The report of an
operation says what it gave at once, what was logged, which awaited outcomes
are there now, and how many calls are active.
-/

namespace FlatSchema.Rpc

inductive Operation (σ : Type) where
  | describe (method : Method)
  | handle (handler : Handler σ)
  | call (opening : Opening σ) (signal : Option String)
  | stream (name : String) (opening : Opening σ) (signal : Option String)
  | iterate (name : String)
  | next (name : String)
  | leave (name : String)
  | cancel (name : String)
  | cancelled (name : String)
  | collect (name : String) (plan : GatherPlan)
  /-- Gather all responses of a call straight from the loopback, past the codecs of its method. -/
  | exchange (method : Method) (requests : Requests σ)
  | abort (signal : String)
  | openGate (gate : String)

inductive Answer where
  | nothing
  | description (parts : List String)
  | flag (v : Bool)
  | later (ans : FutureId)
deriving DecidableEq, Inhabited, Repr

/-- The streams that have a name, and those whose iterators were taken under one, the latest
first. -/
structure Names where
  streams : List (String × StreamId)
  iterators : List (String × StreamId)
deriving DecidableEq, Inhabited, Repr

namespace Names

def empty : Names :=
  ⟨[], []⟩

def stream? (names : Names) (name : String) : Option StreamId :=
  names.streams.lookup name

/-- The stream whose iterator was taken under a name, or else the stream of that name. -/
def iterator? (names : Names) (name : String) : Option StreamId :=
  names.iterators.lookup name <|> names.stream? name

def nameStream (names : Names) (name : String) (id : StreamId) : Names :=
  { names with streams := (name, id) :: names.streams }

def takeIterator (names : Names) (name : String) : Names :=
  match names.stream? name with
  | some id => { names with iterators := (name, id) :: names.iterators }
  | none => names

end Names

namespace Run

variable {σ : Type}

def resolved (outcome : Outcome) : Run σ FutureId := do
  let ans ← newFuture
  settle ans outcome
  return ans

/-- Begin a call that has a single response.  A single request is written at once. -/
def beginCall (opening : Opening σ) (signal : Option String) : Run σ FutureId := do
  let path := opening.method.path
  let begin (requests : Requests σ) : Run σ FutureId := do
    let id ← newStream { opening with requests } signal
    startTask (.iterate id (.firstResponse path signal))
  match opening.requests with
  | .message msg =>
    match opening.method.request.encode msg with
    | .ok bs => begin (.encoded bs)
    | .error fault => resolved (.error fault)
  | requests => begin requests

def beginExchange (method : Method) (requests : Requests σ) :
    Run σ (Except Fault FutureId) := do
  match ← requestSource { method with request := .plain } requests with
  | .error fault => return .error fault
  | .ok src =>
    match ← openLoopback method.path src none with
    | .error fault => return .error fault
    | .ok responses => return .ok (← startTask (.consume responses (.gatherEncoded .plain [])))

/-- What an operation does before the machine runs; streams and iterators are found by name. -/
def operate (streamOf iteratorOf : String → StreamId) : Operation σ → Run σ (Except Fault Answer)
  | .describe method =>
    return .ok (.description [method.service, method.name, method.path, method.streaming.name])
  | .handle handler => return (← register handler).map fun _ => .nothing
  | .call opening signal => return .ok (.later (← beginCall opening signal))
  | .stream _ opening signal => do
      let _ ← newStream opening signal
      return .ok .nothing
  | .iterate name => return (← iterate (streamOf name)).map fun _ => .nothing
  | .next name => return .ok (.later (← startTask (.next (iteratorOf name))))
  | .leave name => return .ok (.later (← startTask (.release (iteratorOf name))))
  | .cancel name => return .ok (.later (← startTask (.cancel (streamOf name))))
  | .cancelled name => do
      let m ← get
      return .ok (.flag (m.streams[streamOf name]?.any fun call => call.state.aborted))
  | .collect name plan =>
    return .ok (.later (← startTask (.iterate (streamOf name) (.gather plan []))))
  | .exchange method requests => return (← beginExchange method requests).map .later
  | .abort name => do
      abortSignal name []
      return .ok .nothing
  | .openGate name => do
      settle (← gate name) (.ok .void)
      return .ok .nothing

end Run

/-- The names after an operation with its answer; `id` is the stream that it created, if any. -/
def Names.after {σ : Type} (names : Names) (id : StreamId) :
    Operation σ → Except Fault Answer → Names
  | .stream name .., _ => names.nameStream name id
  | .iterate name, .ok _ => names.takeIterator name
  | _, _ => names

structure Session (σ : Type) where
  machine : Machine σ
  names : Names
  /-- The operations whose outcome is not there yet, by number, in order. -/
  awaited : List (Nat × FutureId)
  count : Nat

structure OperationReport where
  answer : Except Fault Answer
  log : List String
  settled : List (Nat × Outcome)
  active : Nat

namespace Session

variable {σ : Type}

def start (σ : Type) : Session σ :=
  ⟨Machine.start σ, .empty, [], 0⟩

def patience : Nat :=
  1000000000000

def outcome? (m : Machine σ) (ans : FutureId) : Option Outcome :=
  match m.futures[ans]? with
  | some (.settled outcome) => some outcome
  | _ => none

def perform [Behaviour σ] (sess : Session σ) (op : Operation σ) : Session σ × OperationReport :=
  let fresh := sess.machine.streams.size
  let streamOf (name : String) : StreamId := (sess.names.stream? name).getD fresh
  let iteratorOf (name : String) : StreamId := (sess.names.iterator? name).getD fresh
  let (ans, begun) := (Run.operate streamOf iteratorOf op).run sess.machine
  let rested := begun.settle patience
  let awaited := match ans with
    | .ok (.later ans) => sess.awaited ++ [(sess.count, ans)]
    | _ => sess.awaited
  (⟨{ rested with log := [] }, sess.names.after fresh op ans,
      awaited.filter fun e => (outcome? rested e.2).isNone, sess.count + 1⟩,
    ⟨ans, rested.log, awaited.filterMap fun e =>
      (outcome? rested e.2).map fun outcome => (e.1, outcome), rested.active⟩)

/-- Perform operations in order: all reports, and the numbers of those still without outcome. -/
def performAll [Behaviour σ] (operations : List (Operation σ)) : List OperationReport × List Nat :=
  let (sess, reports) := operations.foldl
    (fun (sess, reports) op =>
      let (sess, report) := sess.perform op
      (sess, reports ++ [report]))
    (start σ, ([] : List OperationReport))
  (reports, sess.awaited.map (·.1))

end Session

end FlatSchema.Rpc
