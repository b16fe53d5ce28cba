import Fishjoy.Foundation.Roster
import Fishjoy.Foundation.Transition
import Mathlib.Data.List.Range
import Mathlib.Data.List.Nodup

namespace Fishjoy.TcpServerRun
open Transition

-- A task of the accept worker. A listening socket is known by its number.
inductive Task where
  | startAccept (sock : Nat)
  | closing
  deriving DecidableEq

-- Where a call of `startAccept` stands: at the test of `m_isStop`, before
-- `accept` reads the descriptor, in `accept` with it, yielded with the event
-- registered, with a client that it has not yet scheduled, or past the loop.
inductive Stand where
  | test
  | accepting
  | calling
  | waiting
  | got (client : Nat)
  | left
  deriving DecidableEq

structure Loop where
  sock : Nat
  stand : Stand
  deriving DecidableEq

-- `handled` are the clients given to the I/O worker. `dropped` are the sockets
-- that a failing `bind` took from `m_socks` while something still served them.
-- Nothing happens once the process has `aborted`.
structure State where
  m_isStop : Bool
  m_socks : List Nat
  made : Nat
  closed : Nat → Bool
  tasks : List Task
  loops : List Loop
  clients : Nat
  handled : List Nat
  dropped : List Nat
  aborted : Bool

inductive Action where
  | bind (opened : Nat) (failed : Bool)
  | start
  | stop
  | dispatch (k : Nat)
  | test (k : Nat)
  | enter (k : Nat)
  | accept (k : Nat) (client : Bool)
  | addEvent (k : Nat)
  | trigger (k : Nat)
  | schedule (k : Nat)
  deriving DecidableEq

def begins : State := ⟨true,[],0,fun _ => false,[],[],0,[],[],false⟩

def serving (s : State) (x : Nat) : Bool :=
  s.tasks.contains (.startAccept x) || s.loops.any fun l => l.sock = x ∧ l.stand ≠ .left

-- The destructor of a socket that nothing refers to any more closes it.
def collect (s : State) : State :=
  {s with closed := fun x => s.closed x || (decide (x < s.made) && !s.m_socks.contains x && !serving s x)}

def bind (s : State) (opened : Nat) (failed : Bool) : State :=
  let m_socks := s.m_socks ++ List.range' s.made opened
  if failed then
    collect {s with m_socks := [], made := s.made+opened, dropped := s.dropped ++ m_socks.filter (serving s)}
  else {s with m_socks := m_socks, made := s.made+opened}

def start (s : State) : State :=
  if s.m_isStop then {s with m_isStop := false, tasks := s.tasks ++ s.m_socks.map .startAccept} else s

def stop (s : State) : State := {s with m_isStop := true, tasks := s.tasks ++ [.closing]}

-- The event of the socket is registered.
def registered (s : State) (x : Nat) : Bool := s.loops.any fun l => l.sock = x ∧ l.stand = .waiting

-- `cancelAll` triggers a registered event, and every trigger ends in the
-- assertion of `getEventContext`.
def dispatch (s : State) (k : Nat) : Task → State
  | .startAccept sock => {s with tasks := s.tasks.eraseIdx k, loops := s.loops ++ [⟨sock,.test⟩]}
  | .closing =>
    if s.m_socks.any (registered s) then {s with aborted := true}
    else collect {s with
      tasks := s.tasks.eraseIdx k, closed := fun x => s.closed x || s.m_socks.contains x, m_socks := []}

def moveTo (s : State) (k : Nat) (sock : Nat) (stand : Stand) : State := {s with loops := s.loops.set k ⟨sock,stand⟩}

-- A closed socket has no descriptor to read, but a call that has read it before
-- may give a client still. `hooked` are the sockets that `do_io` knows: they
-- register their event and yield, the others wait in the kernel.
def act (hooked : Nat → Bool) (s : State) : Action → Option State
  | .bind opened failed => some (bind s opened failed)
  | .start => some (start s)
  | .stop => some (stop s)
  | .dispatch k => s.tasks[k]?.map (dispatch s k)
  | .test k => s.loops[k]?.bind fun l =>
    if l.stand = .test then
      if s.m_isStop then some (collect (moveTo s k l.sock .left)) else some (moveTo s k l.sock .accepting)
    else none
  | .enter k => s.loops[k]?.bind fun l =>
    if l.stand = .accepting then
      if s.closed l.sock then some (moveTo s k l.sock .test) else some (moveTo s k l.sock .calling)
    else none
  | .accept k client => s.loops[k]?.bind fun l =>
    if l.stand = .calling then
      if client then some {moveTo s k l.sock (.got s.clients) with clients := s.clients+1}
      else some (moveTo s k l.sock .test)
    else none
  | .addEvent k => s.loops[k]?.bind fun l =>
    if l.stand = .calling ∧ hooked l.sock then
      if registered s l.sock then some {s with aborted := true} else some (moveTo s k l.sock .waiting)
    else none
  | .trigger k => s.loops[k]?.bind fun l => if l.stand = .waiting then some {s with aborted := true} else none
  | .schedule k => s.loops[k]?.bind fun l =>
    match l.stand with
    | .got client => some {moveTo s k l.sock .test with handled := s.handled ++ [client]}
    | _ => none

def next (hooked : Nat → Bool) (s : State) (a : Action) : Option State := if s.aborted then none else act hooked s a

def inHand (l : Loop) : Option Nat :=
  match l.stand with
  | .got client => some client
  | _ => none

structure Serves (s : State) : Prop where
  once : (s.handled ++ s.loops.filterMap inHand).Perm (List.range s.clients)
  listening : ∀ x ∈ s.m_socks, s.closed x = false
  held : ∀ x, x < s.made → s.closed x = false → x ∈ s.m_socks ∨ serving s x = true
  stopped : s.m_isStop = true → .closing ∉ s.tasks → ∀ x, serving s x = true → s.closed x = true ∨ x ∈ s.dropped

-- The server has stopped: the closing task is done, and no `bind` has dropped a
-- socket that was served.
structure Halted (s : State) : Prop where
  m_isStop : s.m_isStop = true
  closing : .closing ∉ s.tasks
  dropped : s.dropped = []

-- What the steps keep. A socket that is served is closed, or the next `closing`
-- will close it, or a `bind` has dropped it.
structure Tracks (s : State) : Prop where
  once : (s.handled ++ s.loops.filterMap inHand).Perm (List.range s.clients)
  listening : ∀ x ∈ s.m_socks, s.closed x = false
  tracked : ∀ x, serving s x = true → s.closed x = true ∨ x ∈ s.m_socks ∨ x ∈ s.dropped
  stopped : s.m_isStop = true → .closing ∉ s.tasks → ∀ x, serving s x = true → s.closed x = true ∨ x ∈ s.dropped
  bound : ∀ x ∈ s.m_socks, x < s.made
  made : ∀ x, serving s x = true → x < s.made
  fresh : ∀ x, s.made ≤ x → s.closed x = false

structure Keeps (s : State) : Prop extends Tracks s where
  held : ∀ x, x < s.made → s.closed x = false → x ∈ s.m_socks ∨ serving s x = true

-- What is served is closed, until `start` serves new sockets.
structure Quiet (s : State) : Prop where
  m_isStop : s.m_isStop = true
  closed : ∀ x, serving s x = true → s.closed x = true

-- What a step finds and leaves.
inductive Moves (s : State) : Action → State → Prop where
  | bind : Moves s (.bind opened failed) (bind s opened failed)
  | start : Moves s .start (start s)
  | stop : Moves s .stop (stop s)
  | dispatch (found : s.tasks[k]? = some task) : Moves s (.dispatch k) (dispatch s k task)
  | leave (found : s.loops[k]? = some l) (here : l.stand = .test) (halted : s.m_isStop = true) :
      Moves s (.test k) (collect (moveTo s k l.sock .left))
  | test (found : s.loops[k]? = some l) (here : l.stand = .test) (goes : s.m_isStop = false) :
      Moves s (.test k) (moveTo s k l.sock .accepting)
  | bad (found : s.loops[k]? = some l) (here : l.stand = .accepting) (shut : s.closed l.sock = true) :
      Moves s (.enter k) (moveTo s k l.sock .test)
  | enter (found : s.loops[k]? = some l) (here : l.stand = .accepting) (listens : s.closed l.sock = false) :
      Moves s (.enter k) (moveTo s k l.sock .calling)
  | accept (found : s.loops[k]? = some l) (here : l.stand = .calling) :
      Moves s (.accept k true) {moveTo s k l.sock (.got s.clients) with clients := s.clients+1}
  | fail (found : s.loops[k]? = some l) (here : l.stand = .calling) :
      Moves s (.accept k false) (moveTo s k l.sock .test)
  | addEvent (found : s.loops[k]? = some l) (here : l.stand = .calling) :
      Moves s (.addEvent k) (moveTo s k l.sock .waiting)
  | abort : Moves s a {s with aborted := true}
  | schedule (found : s.loops[k]? = some l) (here : l.stand = .got client) :
      Moves s (.schedule k) {moveTo s k l.sock .test with handled := s.handled ++ [client]}

section Steps
variable {s t : State} {l : Loop} {k x sock : Nat} {stand : Stand}

theorem serving_iff : serving s x = true ↔ .startAccept x ∈ s.tasks ∨ ∃ l ∈ s.loops, l.sock = x ∧ l.stand ≠ .left := by
  simp [serving]

theorem collect_closed (s : State) (x : Nat) : (collect s).closed x = true ↔
    s.closed x = true ∨ x < s.made ∧ x ∉ s.m_socks ∧ ¬serving s x = true := by
  simp [collect,and_assoc]

theorem serving_moveTo (found : s.loops[k]? = some l) (here : l.stand ≠ .left) (x : Nat)
    (serves : serving (moveTo s k l.sock stand) x = true) : serving s x = true := by
  rcases serving_iff.mp serves with waits | ⟨m,member,same,on⟩
  · exact serving_iff.mpr (.inl waits)
  · rcases Roster.mem_set member with rfl | old
    · exact serving_iff.mpr (.inr ⟨l,List.mem_of_getElem? found,same,here⟩)
    · exact serving_iff.mpr (.inr ⟨m,old,same,on⟩)

theorem next_moves {hooked : Nat → Bool} {a : Action} (moved : next hooked s a = some t) : Moves s a t := by
  obtain ⟨_,moved⟩ := Option.ite_none_left_eq_some.mp moved
  cases a with
  | bind opened failed => cases moved; exact .bind
  | start => cases moved; exact .start
  | stop => cases moved; exact .stop
  | dispatch k =>
      obtain ⟨task,found,rfl⟩ := Option.map_eq_some_iff.mp moved
      exact .dispatch found
  | test k =>
      obtain ⟨l,found,moved⟩ := Option.bind_eq_some_iff.mp moved
      obtain ⟨here,moved⟩ := Option.ite_none_right_eq_some.mp moved
      split at moved
      · rename_i halted; cases moved; exact .leave found here halted
      · rename_i goes; cases moved; exact .test found here (Bool.eq_false_iff.mpr goes)
  | enter k =>
      obtain ⟨l,found,moved⟩ := Option.bind_eq_some_iff.mp moved
      obtain ⟨here,moved⟩ := Option.ite_none_right_eq_some.mp moved
      split at moved
      · rename_i shut; cases moved; exact .bad found here shut
      · rename_i listens; cases moved; exact .enter found here (Bool.eq_false_iff.mpr listens)
  | accept k client =>
      obtain ⟨l,found,moved⟩ := Option.bind_eq_some_iff.mp moved
      obtain ⟨here,moved⟩ := Option.ite_none_right_eq_some.mp moved
      cases client with
      | true => cases moved; exact .accept found here
      | false => cases moved; exact .fail found here
  | addEvent k =>
      obtain ⟨l,found,moved⟩ := Option.bind_eq_some_iff.mp moved
      obtain ⟨⟨here,_⟩,moved⟩ := Option.ite_none_right_eq_some.mp moved
      split at moved
      · cases moved; exact .abort
      · cases moved; exact .addEvent found here
  | trigger k =>
      obtain ⟨l,_,moved⟩ := Option.bind_eq_some_iff.mp moved
      obtain ⟨_,moved⟩ := Option.ite_none_right_eq_some.mp moved
      cases moved
      exact .abort
  | schedule k =>
      obtain ⟨l,found,moved⟩ := Option.bind_eq_some_iff.mp moved
      split at moved
      · rename_i client here; cases moved; exact .schedule found here
      · cases moved

theorem Keeps.serves (keeps : Keeps s) : Serves s :=
  ⟨keeps.once,keeps.listening,keeps.held,keeps.stopped⟩

theorem Keeps.quiet (keeps : Keeps s) (halted : Halted s) : Quiet s := by
  refine ⟨halted.m_isStop,fun x serves => ?_⟩
  rcases keeps.stopped halted.m_isStop halted.closing x serves with shut | gone
  · exact shut
  · rw [halted.dropped] at gone
    cases gone

-- A step closes sockets or serves fewer of them.
theorem Quiet.fewer (quiet : Quiet s) (halted : t.m_isStop = true) (serves : ∀ x, serving t x = true → serving s x = true)
    (closed : ∀ x, s.closed x = true → t.closed x = true) : Quiet t :=
  ⟨halted,fun x serving => closed x (quiet.closed x (serves x serving))⟩

theorem Quiet.moveTo (quiet : Quiet s) (found : s.loops[k]? = some l) (here : l.stand ≠ .left) :
    Quiet (moveTo s k l.sock stand) :=
  quiet.fewer quiet.m_isStop (serving_moveTo found here) fun _ shut => shut

theorem Quiet.collect (quiet : Quiet s) : Quiet (collect s) :=
  quiet.fewer quiet.m_isStop (fun _ serves => serves) fun x shut => (collect_closed s x).mpr (.inl shut)

theorem dispatch_quiet (quiet : Quiet s) {task : Task} (found : s.tasks[k]? = some task) : Quiet (dispatch s k task) := by
  have fewer (x : Nat) (waits : .startAccept x ∈ s.tasks.eraseIdx k) : .startAccept x ∈ s.tasks :=
    (List.eraseIdx_sublist s.tasks k).subset waits
  cases task with
  | startAccept sock =>
      refine quiet.fewer quiet.m_isStop (fun x serves => ?_) fun _ shut => shut
      rcases serving_iff.mp serves with waits | ⟨m,member,same,on⟩
      · exact serving_iff.mpr (.inl (fewer x waits))
      · rcases List.mem_append.mp member with old | new
        · exact serving_iff.mpr (.inr ⟨m,old,same,on⟩)
        · obtain rfl := List.mem_singleton.mp new
          obtain rfl : sock = x := same
          exact serving_iff.mpr (.inl (List.mem_of_getElem? found))
  | closing =>
      rw [dispatch]
      split
      · exact quiet.fewer quiet.m_isStop (fun _ serves => serves) fun _ shut => shut
      · refine Quiet.collect (quiet.fewer quiet.m_isStop ?_ ?_)
        · exact fun x serves => serving_iff.mpr ((serving_iff.mp serves).imp_left (fewer x))
        · intro x shut
          change (s.closed x || s.m_socks.contains x) = true
          rw [shut,Bool.true_or]

end Steps

end Fishjoy.TcpServerRun
