import FlatSchema.Rpc.Fault

/-!
# Participants

A participant of a call, such as a handler or a source of requests, produces
messages one at a time.  Between them it may write to the log, wait for a gate,
read requests, or see whether its call was aborted.  It may also let a part of
itself take its place, which then produces in its stead until the part is over.
How its body is written is its own matter: all that the machinery sees is what
it does now, and how it goes on after it has heard the answer.
-/

namespace FlatSchema.Rpc

inductive Act where
  | skip
  | log (line : String)
  | checkAborted
  | wait (gate : String)
  | produce (msg : String)
  | read
  | releaseInput
  /-- Let a part take the place of the whole.  The answer comes at once, and what is done then is
  done by the part, until it finishes or fails; after that the whole hears how it ended. -/
  | delegate
  | finish
  | fail (fault : Fault)
deriving DecidableEq, Inhabited, Repr

inductive Heard where
  | proceed
  | aborted (yes : Bool)
  /-- The request that was read, or that there is none. -/
  | request (msg : Option String)
  | fault (fault : Fault)
  | stop
deriving DecidableEq, Inhabited, Repr

class Behaviour (σ : Type) where
  act : σ → Act
  hear : σ → Heard → σ

end FlatSchema.Rpc
