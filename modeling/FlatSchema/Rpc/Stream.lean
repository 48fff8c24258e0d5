/-!
# Streams of responses

The state of the client's side of one call, apart from any scheduling.  Nothing
is opened before the first pull.  A stream ends when its source of responses
ends or fails, or when it is closed, and it asks that source to release itself
at most once: closing forgets the source.

Each operation is one uninterrupted move.  It gives the new state and says what
the caller has to do next; other operations may happen before that is done.
-/

namespace FlatSchema.Rpc

/-- The client's side of a call, over sources of responses of some type. -/
structure ResponseStream (ι : Type) where
  /-- The source of responses, from its opening until the stream lets it go. -/
  source : Option ι
  consumed : Bool
  closed : Bool
  /-- A pull may still be waiting for the source. -/
  inFlight : Bool
  aborted : Bool
deriving DecidableEq, Inhabited, Repr

namespace ResponseStream

variable {ι : Type}

def fresh (aborted : Bool) : ResponseStream ι :=
  ⟨none, false, false, false, aborted⟩

inductive Pull (ι : Type) where
  | close
  | open
  | ask (src : ι)
deriving DecidableEq, Inhabited, Repr

variable (stream : ResponseStream ι)

/-- Ask a stream for its next response. -/
def pull : ResponseStream ι × Pull ι :=
  if stream.closed || stream.aborted then
    (stream, .close)
  else
    ({ stream with inFlight := true }, match stream.source with
      | none => .open
      | some src => .ask src)

def opened (src : ι) : ResponseStream ι :=
  { stream with source := some src }

def failed : ResponseStream ι :=
  { stream with closed := true, source := none, inFlight := stream.aborted }

def interrupted : ResponseStream ι :=
  { stream with inFlight := stream.aborted }

def answered : ResponseStream ι :=
  { stream with inFlight := false }

def exhausted : ResponseStream ι :=
  { stream with closed := true, source := none, inFlight := false }

def abort : ResponseStream ι :=
  { stream with aborted := true }

inductive Closing (ι : Type) where
  | nothing
  | await (src : ι)
  /-- Ask the source to release itself; nobody waits for its answer. -/
  | dismiss (src : ι)
deriving DecidableEq, Inhabited, Repr

/--
Close the stream.  A source that has no way to release itself is let go.  While
a pull is waiting, the release is not waited for: it comes after that pull.
-/
def close (releasable : ι → Bool) (stream : ResponseStream ι) : ResponseStream ι × Closing ι :=
  if stream.closed then
    (stream, .nothing)
  else
    ({ stream with closed := true, source := none }, match stream.source with
      | none => .nothing
      | some src =>
        if !releasable src then .nothing
        else if stream.inFlight then .dismiss src
        else .await src)

@[simp]
theorem pull_closed {stream : ResponseStream ι} (closed : stream.closed = true) :
    stream.pull = (stream, .close) := by
  simp [pull, closed]

@[simp]
theorem close_closed {stream : ResponseStream ι} (releasable : ι → Bool)
    (closed : stream.closed = true) : stream.close releasable = (stream, .nothing) := by
  simp [close, closed]

end ResponseStream

end FlatSchema.Rpc
