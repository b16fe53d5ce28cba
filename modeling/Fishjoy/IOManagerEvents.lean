import Fishjoy.Scheduler

namespace Fishjoy

-- `IOManager::Event` is an unscoped enumeration; a cast can give it any value.
abbrev Event := BitVec 32

namespace Event

def none : Event := 0
def read : Event := 1
def write : Event := 4

end Event

def epollIn : BitVec 32 := 1
def epollOut : BitVec 32 := 4
def epollErr : BitVec 32 := 8
def epollHup : BitVec 32 := 16

inductive IOFault where
  | assertion (text : String)
  | nullScheduler
  | outOfRange
  deriving DecidableEq

structure EventContext (Sched Fiber Callback : Type) where
  scheduler : Option Sched
  fiber : Option Fiber
  cb : Option Callback

-- Which of its two contexts a reference into an `FdContext` means.
inductive Side where
  | read
  | write
  deriving DecidableEq

def Side.event : Side → Event
  | .read => Event.read
  | .write => Event.write

structure FdContext (Sched Fiber Callback : Type) where
  read : EventContext Sched Fiber Callback
  write : EventContext Sched Fiber Callback
  fd : Nat
  events : Event

-- What `Scheduler::GetThis` and `Fiber::GetThis` give on the calling thread, and
-- whether the state of that fiber is `RUNNING`.
structure Caller (Sched Fiber : Type) where
  scheduler : Option Sched
  fiber : Fiber
  running : Bool

-- One call of `schedule`: the scheduler and the fiber or callback it got.
abbrev Handing (Sched Fiber Callback : Type) := Sched × Option (Work Fiber Callback)

variable {Sched Fiber Callback : Type}

namespace EventContext

def empty : EventContext Sched Fiber Callback := ⟨none,none,none⟩

def isEmpty (ctx : EventContext Sched Fiber Callback) : Bool :=
  ctx.scheduler.isNone && ctx.fiber.isNone && ctx.cb.isNone

end EventContext

namespace FdContext

def fresh (fd : Nat) : FdContext Sched Fiber Callback := ⟨.empty,.empty,fd,Event.none⟩

def context (ctx : FdContext Sched Fiber Callback) : Side → EventContext Sched Fiber Callback
  | .read => ctx.read
  | .write => ctx.write

def setContext (ctx : FdContext Sched Fiber Callback) (side : Side) (event : EventContext Sched Fiber Callback) :
    FdContext Sched Fiber Callback :=
  match side with
  | .read => {ctx with read := event}
  | .write => {ctx with write := event}

def getEventContext (event : Event) : Except IOFault Side :=
  if event = Event.read then .ok .read
  else if event = Event.write then .ok .write
  else .error (.assertion "getContext")

def resetEventContext (ctx : FdContext Sched Fiber Callback) (side : Side) : FdContext Sched Fiber Callback :=
  ctx.setContext side .empty

-- The parameter shadows the member `events`: it is the parameter that is tested
-- and cleared, against itself.
def triggerEvent (ctx : FdContext Sched Fiber Callback) (event : Event) :
    Except IOFault (FdContext Sched Fiber Callback × Handing Sched Fiber Callback) :=
  if event &&& event = 0 then .error (.assertion "event & event")
  else
    let event := event &&& ~~~event
    (getEventContext event).bind fun side =>
      let entry := ctx.context side
      match entry.scheduler with
      | none => .error .nullScheduler
      | some scheduler =>
        let work := match entry.cb with
          | some cb => some (.callback cb)
          | none => entry.fiber.map .fiber
        .ok (ctx.resetEventContext side,scheduler,work)

end FdContext

-- `pendingEventCount` is unsigned in the source; here a decrement below zero
-- would show. `handed` is the history of the calls of `schedule`.
structure IOManager (Sched Fiber Callback : Type) where
  fdContexts : List (FdContext Sched Fiber Callback)
  pendingEventCount : Int
  handed : List (Handing Sched Fiber Callback)

-- An entry of the array that `epoll_wait` filled: the pipe, or the context with
-- its mask, and what `epoll_ctl` will return for it.
inductive Readiness where
  | tickle
  | ready (fd : Nat) (events : BitVec 32) (rt2 : Int)

namespace IOManager

def contextResize (m : IOManager Sched Fiber Callback) (size : Nat) : IOManager Sched Fiber Callback :=
  {m with fdContexts := (List.range size).map fun i => (m.fdContexts[i]?).getD (.fresh i)}

def initial : IOManager Sched Fiber Callback := (⟨[],0,[]⟩ : IOManager Sched Fiber Callback).contextResize 32

-- `fd * 1.5` is truncated to an integer.
def reserve (m : IOManager Sched Fiber Callback) (fd : Nat) : IOManager Sched Fiber Callback :=
  if m.fdContexts.length > fd then m else m.contextResize (fd*3/2)

def put (m : IOManager Sched Fiber Callback) (fd : Nat) (ctx : FdContext Sched Fiber Callback) :
    IOManager Sched Fiber Callback :=
  {m with fdContexts := m.fdContexts.set fd ctx}

def addEvent (m : IOManager Sched Fiber Callback) (fd : Nat) (event : Event) (callback : Option Callback)
    (caller : Caller Sched Fiber) (rt : Int) : Except IOFault (Int × IOManager Sched Fiber Callback) :=
  let m := m.reserve fd
  match m.fdContexts[fd]? with
  | none => .error .outOfRange
  | some ctx =>
    if ctx.events &&& event ≠ 0 then .error (.assertion "!(fd_ctx->events & event)")
    else if rt ≠ 0 then .ok (-1,m)
    else
      let m := {m with pendingEventCount := m.pendingEventCount+1}
      let ctx := {ctx with events := ctx.events ||| event}
      (FdContext.getEventContext event).bind fun side =>
        if !(ctx.context side).isEmpty then
          .error (.assertion "!event_ctx.scheduler && !event_ctx.fiber && !event_ctx.cb")
        else
          match callback with
          | some cb => .ok (0,m.put fd (ctx.setContext side ⟨caller.scheduler,none,some cb⟩))
          | none =>
            if caller.running then .ok (0,m.put fd (ctx.setContext side ⟨caller.scheduler,some caller.fiber,none⟩))
            else .error (.assertion "event_ctx.fiber->getState() == Fiber::RUNNING")

def delEvent (m : IOManager Sched Fiber Callback) (fd : Nat) (event : Event) (rt : Int) :
    Except IOFault (Bool × IOManager Sched Fiber Callback) :=
  match m.fdContexts[fd]? with
  | none => .ok (false,m)
  | some ctx =>
    if ctx.events &&& event = 0 then .ok (false,m)
    else
      let newEvents := ctx.events &&& ~~~event
      if rt ≠ 0 then .ok (false,m)
      else
        let m := {m with pendingEventCount := m.pendingEventCount-1}
        let ctx := {ctx with events := newEvents}
        (FdContext.getEventContext event).map fun side => (true,m.put fd (ctx.resetEventContext side))

-- `triggerEvent` for the context at `fd`, and the decrement behind it.
def trigger (m : IOManager Sched Fiber Callback) (fd : Nat) (ctx : FdContext Sched Fiber Callback) (event : Event) :
    Except IOFault (FdContext Sched Fiber Callback × IOManager Sched Fiber Callback) :=
  (ctx.triggerEvent event).map fun (ctx,handing) =>
    (ctx,{m.put fd ctx with
      handed := m.handed ++ [handing]
      pendingEventCount := m.pendingEventCount-1})

def cancelEvent (m : IOManager Sched Fiber Callback) (fd : Nat) (event : Event) (rt : Int) :
    Except IOFault (Bool × IOManager Sched Fiber Callback) :=
  match m.fdContexts[fd]? with
  | none => .ok (false,m)
  | some ctx =>
    if ctx.events &&& event = 0 then .ok (false,m)
    else if rt ≠ 0 then .ok (false,m)
    else (m.trigger fd ctx event).map fun (_,m) => (true,m)

-- `wanted` is the member `events`, read again before each test, or the ready events.
def triggerBoth (m : IOManager Sched Fiber Callback) (fd : Nat) (ctx : FdContext Sched Fiber Callback)
    (wanted : FdContext Sched Fiber Callback → Event) :
    Except IOFault (FdContext Sched Fiber Callback × IOManager Sched Fiber Callback) :=
  (if wanted ctx &&& Event.read ≠ 0 then m.trigger fd ctx Event.read else .ok (ctx,m)).bind fun (ctx,m) =>
    if wanted ctx &&& Event.write ≠ 0 then m.trigger fd ctx Event.write else .ok (ctx,m)

def cancelAll (m : IOManager Sched Fiber Callback) (fd : Nat) (rt : Int) :
    Except IOFault (Bool × IOManager Sched Fiber Callback) :=
  match m.fdContexts[fd]? with
  | none => .ok (false,m)
  | some ctx =>
    if ctx.events = 0 then .ok (false,m)
    else if rt ≠ 0 then .ok (false,m)
    else (m.triggerBoth fd ctx FdContext.events).bind fun (ctx,m) =>
      if ctx.events = 0 then .ok (true,m) else .error (.assertion "fd_ctx->events == 0")

-- `EPOLLERR` and `EPOLLHUP` stand for every registered event.
def realEvents (ctx : FdContext Sched Fiber Callback) (events : BitVec 32) : Event :=
  let events := if events &&& (epollErr ||| epollHup) ≠ 0 then
    events ||| (epollIn ||| epollOut) &&& ctx.events else events
  (if events &&& epollIn ≠ 0 then Event.read else Event.none) |||
    (if events &&& epollOut ≠ 0 then Event.write else Event.none)

-- One turn of the loop of `idle` over the ready events.
def dispatchOne (m : IOManager Sched Fiber Callback) : Readiness → Except IOFault (IOManager Sched Fiber Callback)
  | .tickle => .ok m
  | .ready fd events rt2 =>
    match m.fdContexts[fd]? with
    | none => .error .outOfRange
    | some ctx =>
      let real := realEvents ctx events
      if ctx.events &&& real = Event.none then .ok m
      else if rt2 ≠ 0 then .ok m
      else (m.triggerBoth fd ctx fun _ => real).map fun (_,m) => m

def dispatch (m : IOManager Sched Fiber Callback) : List Readiness → Except IOFault (IOManager Sched Fiber Callback)
  | [] => .ok m
  | e :: rest => (m.dispatchOne e).bind (dispatch · rest)

end IOManager

-- The complete calls. What `epoll_ctl` and `epoll_wait` return is an input.
inductive IOAction (Sched Fiber Callback : Type) where
  | addEvent (fd : Nat) (event : Event) (callback : Option Callback) (caller : Caller Sched Fiber) (rt : Int)
  | delEvent (fd : Nat) (event : Event) (rt : Int)
  | cancelEvent (fd : Nat) (event : Event) (rt : Int)
  | cancelAll (fd : Nat) (rt : Int)
  | dispatch (events : List Readiness)

namespace IOManager

def perform (m : IOManager Sched Fiber Callback) :
    IOAction Sched Fiber Callback → Except IOFault (IOManager Sched Fiber Callback)
  | .addEvent fd event callback caller rt => (m.addEvent fd event callback caller rt).map (·.2)
  | .delEvent fd event rt => (m.delEvent fd event rt).map (·.2)
  | .cancelEvent fd event rt => (m.cancelEvent fd event rt).map (·.2)
  | .cancelAll fd rt => (m.cancelAll fd rt).map (·.2)
  | .dispatch events => m.dispatch events

def next (m : IOManager Sched Fiber Callback) (a : IOAction Sched Fiber Callback) :
    Option (IOManager Sched Fiber Callback) :=
  (m.perform a).toOption

def Start (m : IOManager Sched Fiber Callback) : Prop := m = initial

end IOManager
end Fishjoy
