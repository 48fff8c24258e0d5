/-!
# Faults of remote calls

A call ends in a fault either because the machinery of calls raises one, which
then has a code, or because a participant does: a handler, a codec, a source of
requests or a transport.  Each cause is a constructor; its wording is one
function.
-/

namespace FlatSchema.Rpc

inductive FaultCode where
  | cancelled
  | unimplemented
  | invalidArgument
  | internal
  | alreadyConsumed
deriving DecidableEq, Inhabited, Repr

def FaultCode.name : FaultCode → String
  | .cancelled => "cancelled"
  | .unimplemented => "unimplemented"
  | .invalidArgument => "invalid-argument"
  | .internal => "internal"
  | .alreadyConsumed => "already-consumed"

inductive Fault where
  /-- The caller's signal stopped the call before its response. -/
  | cancelled (path : String)
  | unimplemented (path : String)
  | noRequest (path : String)
  | noResponse (path : String)
  | alreadyConsumed
  | alreadyRegistered (path : String)
  | raised (message : String)
deriving DecidableEq, Inhabited, Repr

namespace Fault

def code? : Fault → Option FaultCode
  | .cancelled _ => some .cancelled
  | .unimplemented _ => some .unimplemented
  | .noRequest _ => some .invalidArgument
  | .noResponse _ => some .internal
  | .alreadyConsumed => some .alreadyConsumed
  | .alreadyRegistered _ => none
  | .raised _ => none

def message : Fault → String
  | .cancelled path => path ++ " was cancelled"
  | .unimplemented path => "No handler registered for " ++ path
  | .noRequest path => path ++ " received no request"
  | .noResponse path => path ++ " completed without a response"
  | .alreadyConsumed => "A ServerStream can only be iterated once"
  | .alreadyRegistered path => "Handler already registered for " ++ path
  | .raised message => message

end Fault

end FlatSchema.Rpc
