import Fishjoy.Foundation.OrderedSet
import Mathlib.Data.UInt
import Mathlib.Logic.Function.Basic
import Mathlib.Order.Defs.LinearOrder

namespace Fishjoy
open OrderedSet

structure Timer (Callback : Type) where
  recurring : Bool
  ms : UInt64
  next : UInt64
  cb : Option Callback

-- What the comparator reads through a non-null `Timer::ptr`.
structure Timer.Key (Ptr : Type) where
  next : UInt64
  address : Ptr

def Timer.Comparator [LinearOrder Ptr] : Option (Timer.Key Ptr) → Option (Timer.Key Ptr) → Bool
  | none,none => false
  | none,some _ => true
  | some _,none => false
  | some lhs,some rhs =>
    if lhs.next < rhs.next then true
    else if rhs.next < lhs.next then false
    else decide (lhs.address < rhs.address)

-- `object` is the memory that the pointers lead to and `made` tells at which
-- addresses `addTimer` has constructed a timer; `timers` is `m_timers`.
structure TimerManager (Ptr Callback : Type) where
  object : Ptr → Timer Callback
  made : Ptr → Bool
  timers : List Ptr
  tickled : Bool
  previousTime : UInt64

inductive Fault where
  | eraseEnd
  deriving DecidableEq

namespace TimerManager
variable {Ptr Callback : Type} [LinearOrder Ptr]

def initial (memory : Ptr → Timer Callback) (now : UInt64) : TimerManager Ptr Callback :=
  ⟨memory,fun _ => false,[],false,now⟩

def store (m : TimerManager Ptr Callback) (p : Ptr) (t : Timer Callback) : TimerManager Ptr Callback :=
  {m with object := Function.update m.object p t}

def key (m : TimerManager Ptr Callback) (p : Ptr) : Timer.Key Ptr := ⟨(m.object p).next,p⟩

def less (m : TimerManager Ptr Callback) (p q : Ptr) : Bool :=
  Timer.Comparator (some (m.key p)) (some (m.key q))

def find (m : TimerManager Ptr Callback) (p : Ptr) : Nat := OrderedSet.find m.less p m.timers

-- Erasing `end()` is undefined behaviour.
def erase (m : TimerManager Ptr Callback) (it : Nat) : Except Fault (TimerManager Ptr Callback) :=
  if it < m.timers.length then .ok {m with timers := m.timers.eraseIdx it} else .error .eraseEnd

def insert (m : TimerManager Ptr Callback) (p : Ptr) : Nat × TimerManager Ptr Callback :=
  let placed := OrderedSet.insert m.less p m.timers
  (placed.1,{m with timers := placed.2})

-- The overload that takes the lock. The flag tells that, once the lock is
-- released, `onTimerInsertedAtFront` is called.
def addTimerLocked (m : TimerManager Ptr Callback) (val : Ptr) : Bool × TimerManager Ptr Callback :=
  let (it,m) := m.insert val
  let atFront := it == 0 && !m.tickled
  (atFront,if atFront then {m with tickled := true} else m)

def addTimer (m : TimerManager Ptr Callback) (self : Ptr) (ms : UInt64) (cb : Option Callback)
    (recurring : Bool) (now : UInt64) : Bool × TimerManager Ptr Callback :=
  let m := {m.store self ⟨recurring,ms,now+ms,cb⟩ with made := Function.update m.made self true}
  m.addTimerLocked self

-- Returns the timeout; `~0ull` stands for no timer.
def getNextTimer (m : TimerManager Ptr Callback) (now : UInt64) : UInt64 × TimerManager Ptr Callback :=
  let m := {m with tickled := false}
  match m.timers with
  | [] => (~~~0,m)
  | next :: _ =>
    if (m.object next).next ≤ now then (0,m) else ((m.object next).next-now,m)

omit [LinearOrder Ptr] in
theorem getNextTimer_frame (m : TimerManager Ptr Callback) (now : UInt64) :
    (m.getNextTimer now).2 = {m with tickled := false} := by
  unfold getNextTimer
  dsimp only
  split
  · rfl
  · split <;> rfl

def detectClockRollover (m : TimerManager Ptr Callback) (now : UInt64) : Bool × TimerManager Ptr Callback :=
  let rollover := decide (now < m.previousTime) && decide (now < m.previousTime-60*60*1000)
  (rollover,{m with previousTime := now})

-- The loop over the expired timers.
def collect (now : UInt64) : List Ptr → TimerManager Ptr Callback →
    List (Option Callback) × TimerManager Ptr Callback
  | [],m => ([],m)
  | p :: rest,m =>
    let timer := m.object p
    let m := if timer.recurring then ((m.store p {timer with next := now+timer.ms}).insert p).2
      else m.store p {timer with cb := none}
    (timer.cb :: (collect now rest m).1,(collect now rest m).2)

-- Where the lower bound and the loop behind it leave the iterator; `nowTimer`
-- is the address of the probe allocated for the search.
def expiredEnd (m : TimerManager Ptr Callback) (now : UInt64) (nowTimer : Ptr) (rollover : Bool) : Nat :=
  let it := if rollover then m.timers.length
    else lowerBound (fun p => Timer.Comparator (some (m.key p)) (some ⟨now,nowTimer⟩)) m.timers
  it+((m.timers.drop it).takeWhile fun p => (m.object p).next == now).length

structure Expiry (Ptr Callback : Type) where
  expired : List Ptr
  cbs : List (Option Callback)
  manager : TimerManager Ptr Callback

-- The section under the write lock; `now` was read before the lock was taken.
def listExpiredCb (m : TimerManager Ptr Callback) (now : UInt64) (nowTimer : Ptr) : Expiry Ptr Callback :=
  match m.timers with
  | [] => ⟨[],[],m⟩
  | first :: _ =>
    let (rollover,m) := m.detectClockRollover now
    if !rollover && decide ((m.object first).next > now) then ⟨[],[],m⟩
    else
      let it := m.expiredEnd now nowTimer rollover
      let expired := m.timers.take it
      let (cbs,m) := collect now expired {m with timers := m.timers.drop it}
      ⟨expired,cbs,m⟩

end TimerManager

namespace Timer
variable {Ptr Callback : Type} [LinearOrder Ptr]

structure Done (Ptr Callback : Type) where
  result : Bool
  atFront : Bool
  manager : TimerManager Ptr Callback

def cancel (m : TimerManager Ptr Callback) (self : Ptr) : Except Fault (Done Ptr Callback) :=
  if (m.object self).cb.isSome then
    let m := m.store self {m.object self with cb := none}
    let it := m.find self
    (m.erase it).map fun m => ⟨true,false,m⟩
  else .ok ⟨false,false,m⟩

def refresh (m : TimerManager Ptr Callback) (self : Ptr) (now : UInt64) : Except Fault (Done Ptr Callback) :=
  if (m.object self).cb.isNone then .ok ⟨false,false,m⟩
  else
    let it := m.find self
    if it = m.timers.length then .ok ⟨false,false,m⟩
    else (m.erase it).map fun m =>
      let m := m.store self {m.object self with next := now+(m.object self).ms}
      ⟨true,false,(m.insert self).2⟩

-- The test before the lock is taken.
def resetUnchanged (m : TimerManager Ptr Callback) (self : Ptr) (ms : UInt64) (fromNow : Bool) : Bool :=
  ms == (m.object self).ms && !fromNow

def reset (m : TimerManager Ptr Callback) (self : Ptr) (ms : UInt64) (fromNow : Bool) (now : UInt64) :
    Except Fault (Done Ptr Callback) :=
  if (m.object self).cb.isNone then .ok ⟨false,false,m⟩
  else
    let it := m.find self
    if it = m.timers.length then .ok ⟨false,false,m⟩
    else (m.erase it).map fun m =>
      let timer := m.object self
      let start := if fromNow then now else timer.next-timer.ms
      let m := m.store self {timer with ms := ms,next := start+ms}
      let (atFront,m) := m.addTimerLocked self
      ⟨true,atFront,m⟩

end Timer

-- The lock-protected sections, with every clock reading as an input, and the
-- return of `reset` before its lock. A handle exists only once `addTimer` has
-- returned it, and `addTimer` gets fresh memory.
inductive TimerOp (Ptr Callback : Type) where
  | addTimer (self : Ptr) (ms : UInt64) (cb : Option Callback) (recurring : Bool) (now : UInt64)
  | cancel (self : Ptr)
  | refresh (self : Ptr) (now : UInt64)
  | resetUnchanged (self : Ptr) (ms : UInt64) (fromNow : Bool)
  | reset (self : Ptr) (ms : UInt64) (fromNow : Bool) (now : UInt64)
  | listExpiredCb (now : UInt64) (nowTimer : Ptr)
  | getNextTimer (now : UInt64)

def TimerOp.self : TimerOp Ptr Callback → Option Ptr
  | .addTimer self .. | .cancel self | .refresh self _ | .resetUnchanged self .. | .reset self .. => some self
  | .listExpiredCb .. | .getNextTimer _ => none

def TimerOp.callable : TimerOp Ptr Callback → Bool
  | .addTimer _ _ cb _ _ => cb.isSome
  | _ => true

namespace TimerManager
variable {Ptr Callback : Type} [LinearOrder Ptr]

def expiredBy (m : TimerManager Ptr Callback) : TimerOp Ptr Callback → List Ptr
  | .listExpiredCb now nowTimer => (m.listExpiredCb now nowTimer).expired
  | _ => []

def perform (m : TimerManager Ptr Callback) : TimerOp Ptr Callback → Except Fault (TimerManager Ptr Callback)
  | .addTimer self ms cb recurring now => .ok (m.addTimer self ms cb recurring now).2
  | .cancel self => (Timer.cancel m self).map (·.manager)
  | .refresh self now => (Timer.refresh m self now).map (·.manager)
  | .resetUnchanged .. => .ok m
  | .reset self ms fromNow now => (Timer.reset m self ms fromNow now).map (·.manager)
  | .listExpiredCb now nowTimer => .ok (m.listExpiredCb now nowTimer).manager
  | .getNextTimer now => .ok (m.getNextTimer now).2

def enabled (m : TimerManager Ptr Callback) : TimerOp Ptr Callback → Bool
  | .addTimer self .. => !m.made self
  | .cancel self | .refresh self _ | .reset self .. => m.made self
  | .resetUnchanged self ms fromNow => m.made self && Timer.resetUnchanged m self ms fromNow
  | .listExpiredCb .. | .getNextTimer _ => true

def next (m : TimerManager Ptr Callback) (op : TimerOp Ptr Callback) : Option (TimerManager Ptr Callback) :=
  if m.enabled op then (m.perform op).toOption else none

def Start (m : TimerManager Ptr Callback) : Prop := ∃ memory now, m = initial memory now

end TimerManager
end Fishjoy
