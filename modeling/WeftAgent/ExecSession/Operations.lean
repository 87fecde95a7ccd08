import WeftAgent.ExecSession.Sessions

/-!
# Sequences of registry operations

The methods of `Sessions` called one after the other by anybody, with any IDs and cancel functions.
Each runs under the mutex of the registry, so a sequence of calls is all there is to concurrent use.
-/

namespace WeftAgent.ExecSession

open Go

/-- A call of a method of `Sessions`. -/
inductive Operation where
  | open' (id : GoString) (cancel : Instance)
  | close (id : GoString)
  /-- With the order in which it ranges over the live sessions. -/
  | closeAll (order : RangeOrder Instance)

/-- The registry, and the cancel functions invoked so far. -/
structure Ledger where
  sessions : Sessions := {}
  cancelled : List Instance := []

def Ledger.perform (l : Ledger) : Operation → Ledger
  | .open' id cancel =>
    let (sessions, cancelled) := l.sessions.open' id cancel
    { sessions := sessions, cancelled := l.cancelled ++ cancelled }
  | .close id =>
    let (sessions, cancelled) := l.sessions.close id
    { sessions := sessions, cancelled := l.cancelled ++ cancelled }
  | .closeAll order =>
    let (sessions, cancelled) := l.sessions.closeAll
    { sessions := sessions, cancelled := l.cancelled ++ order.visit cancelled }

/-- The registry that `NewSessions` builds, after some operations. -/
def performAll (ops : List Operation) : Ledger := ops.foldl Ledger.perform {}

/-- The ID that an operation is on; `CloseAll` is on none in particular. -/
def Operation.on : Operation → Option GoString
  | .open' id _ => some id
  | .close id => some id
  | .closeAll _ => none

/-- The instance that an operation opens, with its ID. -/
def Operation.opens : Operation → Option (GoString × Instance)
  | .open' id cancel => some (id, cancel)
  | .close _ | .closeAll _ => none

/-- All instances ever opened, with their IDs. -/
def opened (ops : List Operation) : List (GoString × Instance) := ops.filterMap Operation.opens

end WeftAgent.ExecSession
