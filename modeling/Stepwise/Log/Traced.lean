/-
# Traced results

A result together with the events that were noted on the way to it.  The events stay even when the
result is a fault.
-/
import Stepwise.Log.Record

namespace Stepwise

/-- A result or a fault, with the events that came before it. -/
structure Traced (α : Type) where
  events : List Event
  outcome : Except Fault α

namespace Traced

variable {α β : Type}

/-- A result without events. -/
def pure (a : α) : Traced α := ⟨[], .ok a⟩

/-- Continues with a result; a fault stays. -/
def bind (t : Traced α) (f : α → Traced β) : Traced β :=
  match t.outcome with
  | .error fault => ⟨t.events, .error fault⟩
  | .ok a => ⟨t.events ++ (f a).events, (f a).outcome⟩

instance : Monad Traced where
  pure := pure
  bind := bind

/-- Notes an event. -/
def log (event : Event) : Traced Unit := ⟨[event], .ok ()⟩

/-- A result that may be a fault. -/
def ofExcept (r : Except Fault α) : Traced α := ⟨[], r⟩

/-- A result that may be a foreseen failure. -/
def ofFailure (r : Except Failure α) : Traced α := ⟨[], liftFailure r⟩

/-- A result that may be a breakdown. -/
def ofBreakdown (r : Except Breakdown α) : Traced α := ⟨[], liftBreakdown r⟩

/-- Ends in a fault. -/
def fail (fault : Fault) : Traced α := ⟨[], .error fault⟩

end Traced

end Stepwise
