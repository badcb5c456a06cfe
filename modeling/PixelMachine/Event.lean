/-! Notifications of a machine's changes and those who observe them. -/
namespace PixelMachine

/-- A change that observers hear of. -/
inductive Event where
  | haltedChanged (halted : Bool)
  | pausedChanged (paused : Bool)
  /-- The machine paused before the instruction at this address, counted from one. -/
  | breakpointHit (address : UInt64)
  deriving DecidableEq, Repr

/-- Someone who observes, and who may close: a channel when its receiver is dropped, any other observer
when it says so. The first entry of `closing` tells whether it closes by itself before the next event,
and so on; without an entry it does not. An event that finds a channel closed is lost, any other
observer still hears it. -/
structure Observer where
  id : Nat
  channel : Bool := true
  /-- It was closed since the last event. -/
  closed : Bool := false
  closing : List Bool := []
  deriving DecidableEq, Repr

namespace Observer

/-- The observer closes by the time of the next event. -/
def closes (b : Observer) : Bool := b.closing.headD false

/-- The next event finds the observer closed. -/
def foundClosed (b : Observer) : Bool := b.closed || b.closes

/-- The next event comes to the observer's ears. -/
def hears (b : Observer) : Bool := !(b.channel && b.foundClosed)

/-- The observer after the next event. -/
def afterEvent (b : Observer) : Observer := { b with closing := b.closing.tail }

end Observer

/-- The observers in order of registration, what each was told and all that was announced, both with
the newest first. -/
structure Observers where
  list : List Observer := []
  delivered : List (Nat × Event) := []
  announced : List Event := []
  nextId : Nat := 0
  deriving DecidableEq, Repr

namespace Observers

/-- Registers an observer: a channel, or one that answers for itself whether it is closed. -/
def subscribe (o : Observers) (channel : Bool := true) (closing : List Bool := []) : Observers :=
  { o with
    list := o.list ++ [{ id := o.nextId, channel := channel, closing := closing }]
    nextId := o.nextId + 1 }

/-- Closes an observer; the next event will find it so. -/
def hangUp (o : Observers) (id : Nat) : Observers :=
  { o with list := o.list.map fun b => if b.id = id then { b with closed := true } else b }

/-- Tells an event to all, in order, and removes those whom it finds closed. -/
def announce (o : Observers) (e : Event) : Observers :=
  { o with
    list := (o.list.filter fun b => !b.foundClosed).map (·.afterEvent)
    delivered := ((o.list.filter (·.hears)).map fun b => (b.id, e)).reverse ++ o.delivered
    announced := e :: o.announced }

end Observers

end PixelMachine
