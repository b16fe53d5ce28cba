import Fishjoy.Foundation.Transition
import Fishjoy.IOManagerCalls

namespace Fishjoy.IOManagerInterest
open Transition

def epollEt : BitVec 32 := 0x80000000

inductive CtlOp where
  | add
  | mod
  | del
  deriving DecidableEq

-- The kernel holds a mask for the descriptor while it is in the epoll.
def epollCtl (kernel : Option (BitVec 32)) (op : CtlOp) (events : BitVec 32) : Option (Option (BitVec 32)) :=
  match op,kernel with
  | .add,none => some (some events)
  | .mod,some _ => some (some events)
  | .del,some _ => some none
  | _,_ => none

variable {Sched Fiber Callback : Type}

-- An `addEvent` in progress. `seen` is what it has read from `events`: the
-- operation and the mask for the kernel come from it.
structure Adding (Sched Fiber Callback : Type) where
  event : Side
  callback : Option Callback
  caller : Caller Sched Fiber
  seen : Event

inductive AddPhase (Sched Fiber Callback : Type) where
  | idle
  | read (call : Adding Sched Fiber Callback)
  | registered (call : Adding Sched Fiber Callback)

-- A `delEvent` in progress holds `mutex`, which `addEvent` does not take.
inductive DelPhase where
  | idle
  | read (event : Side) (newEvents : Event)
  | deregistered (event : Side) (newEvents : Event)

structure State (Sched Fiber Callback : Type) where
  fdCtx : FdContext Sched Fiber Callback
  kernel : Option (BitVec 32)
  pendingEventCount : Int
  adding : AddPhase Sched Fiber Callback
  deleting : DelPhase

inductive Action (Sched Fiber Callback : Type) where
  | addRead (event : Side) (callback : Option Callback) (caller : Caller Sched Fiber)
  | addCtl
  | addStore
  | delRead (event : Side)
  | delCtl
  | delStore

def AddPhase.call? : AddPhase Sched Fiber Callback → Option (Adding Sched Fiber Callback)
  | .idle => none
  | .read call | .registered call => some call

def DelPhase.leaving? : DelPhase → Option (Side × Event)
  | .idle => none
  | .read event newEvents | .deregistered event newEvents => some (event,newEvents)

def State.initial (fd : Nat) : State Sched Fiber Callback := ⟨.fresh fd,none,0,.idle,.idle⟩

def Adding.ctl (call : Adding Sched Fiber Callback) (kernel : Option (BitVec 32)) : Option (Option (BitVec 32)) :=
  epollCtl kernel (if call.seen = Event.none then .add else .mod) (epollEt ||| call.seen ||| call.event.event)

def delCtl (newEvents : Event) (kernel : Option (BitVec 32)) : Option (Option (BitVec 32)) :=
  epollCtl kernel (if newEvents = Event.none then .del else .mod) (epollEt ||| newEvents)

-- From the store on. `events` is read again there, and the assertions come
-- behind it: one that fails ends the process.
def arm (fdCtx : FdContext Sched Fiber Callback) (call : Adding Sched Fiber Callback) :
    Option (FdContext Sched Fiber Callback) :=
  if (fdCtx.context call.event).isEmpty && (call.callback.isSome || call.caller.running) then
    some ({fdCtx with events := fdCtx.events ||| call.event.event}.setContext call.event (call.caller.entry call.callback))
  else none

def next (s : State Sched Fiber Callback) : Action Sched Fiber Callback → Option (State Sched Fiber Callback)
  | .addRead event callback caller =>
    match s.adding with
    | .idle =>
      if s.fdCtx.events &&& event.event = 0 then
        some {s with adding := .read ⟨event,callback,caller,s.fdCtx.events⟩}
      else none
    | _ => none
  | .addCtl =>
    match s.adding with
    | .read call =>
      match call.ctl s.kernel with
      | some kernel => some {s with kernel := kernel,adding := .registered call}
      | none => some {s with adding := .idle}
    | _ => none
  | .addStore =>
    match s.adding with
    | .registered call => (arm s.fdCtx call).map fun fdCtx =>
        {s with fdCtx := fdCtx,pendingEventCount := s.pendingEventCount+1,adding := .idle}
    | _ => none
  | .delRead event =>
    match s.deleting with
    | .idle =>
      if s.fdCtx.events &&& event.event = 0 then some s
      else some {s with deleting := .read event (s.fdCtx.events &&& ~~~event.event)}
    | _ => none
  | .delCtl =>
    match s.deleting with
    | .read event newEvents =>
      match delCtl newEvents s.kernel with
      | some kernel => some {s with kernel := kernel,deleting := .deregistered event newEvents}
      | none => some {s with deleting := .idle}
    | _ => none
  | .delStore =>
    match s.deleting with
    | .deregistered event newEvents =>
      some {s with
        fdCtx := {s.fdCtx with events := newEvents}.resetEventContext event
        pendingEventCount := s.pendingEventCount-1
        deleting := .idle}
    | _ => none

-- The two views of the registration, while nobody changes it.
def Consistent (s : State Sched Fiber Callback) : Prop :=
  s.adding = .idle → s.deleting = .idle →
    (∀ mask, s.kernel = some mask → mask = epollEt ||| s.fdCtx.events) ∧ (s.kernel = none ↔ s.fdCtx.events = Event.none)

-- An `addEvent` that goes through stores what it has told the kernel: `events`
-- is at the store what it was when it was read.
def Current (s : State Sched Fiber Callback) : Action Sched Fiber Callback → Prop
  | .addStore => ∀ call, s.adding = .registered call → (arm s.fdCtx call).isSome → s.fdCtx.events = call.seen
  | _ => True

-- What the kernel is to hold for `events`.
def interest (events : Event) : Option (BitVec 32) :=
  if events = Event.none then none else some (epollEt ||| events)

-- A call between its system call and its store has the kernel ahead of `events`.
def AddPhase.ahead? : AddPhase Sched Fiber Callback → Option (Adding Sched Fiber Callback)
  | .registered call => some call
  | _ => none

def DelPhase.ahead? : DelPhase → Option Event
  | .deregistered _ newEvents => some newEvents
  | _ => none

def held (events : Event) (adding : AddPhase Sched Fiber Callback) (deleting : DelPhase) : Option (BitVec 32) :=
  match deleting.ahead?,adding.ahead? with
  | some newEvents,_ => interest newEvents
  | none,some call => if events = call.seen then interest (call.seen ||| call.event.event) else none
  | none,none => interest events

def Known (events : Event) : Prop := ∃ read write, events = Event.mask read write

-- What a `delEvent` will leave: the other event may have come since it read.
def Leaves (events : Event) (event : Side) (newEvents : Event) : Prop :=
  events &&& event.event ≠ 0 ∧ (newEvents = events &&& ~~~event.event ∨ newEvents = Event.none)

structure Valid (s : State Sched Fiber Callback) : Prop where
  known : Known s.fdCtx.events
  kernel : s.kernel = held s.fdCtx.events s.adding s.deleting
  adding : ∀ call, s.adding.call? = some call → Known call.seen ∧ call.seen &&& call.event.event = 0 ∧
    (s.fdCtx.events = call.seen ∨ s.fdCtx.events = Event.none ∧ s.deleting = .idle)
  deleting : ∀ event newEvents, s.deleting.leaving? = some (event,newEvents) → Leaves s.fdCtx.events event newEvents

theorem known_none : Known Event.none := ⟨false,false,rfl⟩

theorem known_set (known : Known events) (event : Side) : Known (events ||| event.event) := by
  obtain ⟨read,write,rfl⟩ := known
  cases event with
  | read => exact ⟨true,write,by cases read <;> cases write <;> rfl⟩
  | write => exact ⟨read,true,by cases read <;> cases write <;> rfl⟩

theorem known_clear (known : Known events) (event : Side) : Known (events &&& ~~~event.event) := by
  obtain ⟨read,write,rfl⟩ := known
  cases event with
  | read => exact ⟨false,write,by cases read <;> cases write <;> rfl⟩
  | write => exact ⟨read,false,by cases read <;> cases write <;> rfl⟩

theorem set_ne_none (known : Known events) (event : Side) : events ||| event.event ≠ Event.none := by
  obtain ⟨read,write,rfl⟩ := known
  cases event <;> cases read <;> cases write <;> decide

theorem ne_none_of_bit {events : Event} {event : Side} (bit : events &&& event.event ≠ 0) : events ≠ Event.none := by
  rintro rfl
  exact bit (by cases event <;> rfl)

theorem bit_set {events : Event} {event : Side} (bit : events &&& event.event ≠ 0) (other : Side) :
    (events ||| other.event) &&& event.event ≠ 0 := by
  intro empty
  rw [BitVec.and_or_distrib_right] at empty
  exact bit (BitVec.or_eq_zero_iff.mp empty).1

-- The event to be deleted is the only one while the other one is not there.
theorem leaves_none (known : Known events) (leaves : Leaves events event newEvents)
    (free : events &&& Side.event other = 0) : newEvents = Event.none := by
  obtain ⟨bit,rfl | rfl⟩ := leaves
  · obtain ⟨read,write,rfl⟩ := known
    revert bit free
    cases event <;> cases other <;> cases read <;> cases write <;> decide
  · rfl

theorem interest_set (known : Known events) (event : Side) :
    interest (events ||| event.event) = some (epollEt ||| events ||| event.event) := by
  unfold interest
  rw [if_neg (set_ne_none known event),BitVec.or_assoc]

theorem arm_events {fdCtx armed : FdContext Sched Fiber Callback} {call : Adding Sched Fiber Callback}
    (done : arm fdCtx call = some armed) : armed.events = fdCtx.events ||| call.event.event := by
  obtain ⟨_,same⟩ := Option.ite_none_right_eq_some.mp done
  cases same
  cases call.event <;> rfl

theorem initial_valid (fd : Nat) : Valid (State.initial fd : State Sched Fiber Callback) :=
  ⟨known_none,rfl,nofun,nofun⟩

variable {s s' : State Sched Fiber Callback}

theorem consistent_of_valid (valid : Valid s) : Consistent s := by
  intro adding deleting
  have kernel : s.kernel = interest s.fdCtx.events := by
    rw [valid.kernel,adding,deleting]
    rfl
  unfold interest at kernel
  by_cases empty : s.fdCtx.events = Event.none
  · rw [if_pos empty] at kernel
    simp [kernel,empty]
  · rw [if_neg empty] at kernel
    simp [kernel,empty]

theorem addRead_valid (valid : Valid s) (moved : next s (.addRead event callback caller) = some s') : Valid s' := by
  cases addingEq : s.adding with
  | idle =>
      simp only [next,addingEq] at moved
      obtain ⟨free,same⟩ := Option.ite_none_right_eq_some.mp moved
      cases same
      have kernel := valid.kernel
      rw [addingEq] at kernel
      refine ⟨valid.known,kernel,?_,valid.deleting⟩
      rintro call ⟨⟩
      exact ⟨valid.known,free,.inl rfl⟩
  | _ => simp only [next,addingEq] at moved; cases moved

-- While a `delEvent` is in progress nothing else has been taken away.
theorem seen_of_deleting (valid : Valid s) (adding : s.adding.call? = some call) (busy : s.deleting ≠ .idle) :
    s.fdCtx.events = call.seen :=
  (valid.adding call adding).2.2.resolve_right fun gone => busy gone.2

theorem ctl_interest (call : Adding Sched Fiber Callback) (known : Known call.seen) :
    call.ctl (interest call.seen) = some (interest (call.seen ||| call.event.event)) := by
  unfold Adding.ctl
  rw [interest_set known]
  unfold interest
  by_cases empty : call.seen = Event.none
  · rw [if_pos empty,if_pos empty]
    rfl
  · rw [if_neg empty,if_neg empty]
    rfl

-- The system call goes through only where what has been read still holds, and no
-- other call is behind its own.
theorem ctl_cases (valid : Valid s) (reading : s.adding = .read call) :
    call.ctl s.kernel = none ∨
      call.ctl s.kernel = some (interest (call.seen ||| call.event.event)) ∧ s.fdCtx.events = call.seen ∧
        s.deleting.ahead? = none := by
  have reads : s.adding.call? = some call := by rw [reading]; rfl
  obtain ⟨known,free,current⟩ := valid.adding call reads
  have kernel := valid.kernel
  rw [reading] at kernel
  cases ahead : s.deleting.ahead? with
  | some newEvents =>
      left
      cases deletingEq : s.deleting with
      | deregistered event left_ =>
          rw [deletingEq] at ahead kernel
          cases ahead
          have leaves := valid.deleting event newEvents (by rw [deletingEq]; rfl)
          rw [seen_of_deleting valid reads (by rw [deletingEq]; nofun)] at leaves
          have absent : s.kernel = none := by
            rw [kernel,leaves_none known leaves free]
            rfl
          unfold Adding.ctl
          rw [absent,if_neg (ne_none_of_bit leaves.1)]
          rfl
      | _ => rw [deletingEq] at ahead; cases ahead
  | none =>
      have settled : s.kernel = interest s.fdCtx.events := by
        rw [kernel]
        unfold held
        rw [ahead]
        rfl
      by_cases same : s.fdCtx.events = call.seen
      · right
        rw [settled,same]
        exact ⟨ctl_interest call known,rfl,rfl⟩
      · left
        have gone := (current.resolve_left same).1
        rw [gone] at same settled
        unfold Adding.ctl
        rw [settled,if_neg (Ne.symm same)]
        rfl

theorem addCtl_valid (valid : Valid s) (moved : next s .addCtl = some s') : Valid s' := by
  cases addingEq : s.adding with
  | read call =>
      have kernel := valid.kernel
      rw [addingEq] at kernel
      simp only [next,addingEq] at moved
      rcases ctl_cases valid addingEq with failed | ⟨done,same,behind⟩
      · rw [failed] at moved
        cases moved
        exact ⟨valid.known,kernel,nofun,valid.deleting⟩
      · rw [done] at moved
        cases moved
        refine ⟨valid.known,?_,?_,valid.deleting⟩
        · unfold held
          rw [behind]
          exact (if_pos same).symm
        · rintro other ⟨⟩
          exact valid.adding call (by rw [addingEq]; rfl)
  | _ => simp only [next,addingEq] at moved; cases moved

theorem addStore_next (adding : s.adding = .registered call) : next s .addStore = (arm s.fdCtx call).map fun fdCtx =>
    {s with fdCtx := fdCtx,pendingEventCount := s.pendingEventCount+1,adding := .idle} := by
  simp only [next,adding]

theorem addStore_valid (valid : Valid s) (current : Current s .addStore) (moved : next s .addStore = some s') :
    Valid s' := by
  cases addingEq : s.adding with
  | registered call =>
      obtain ⟨known,free,_⟩ := valid.adding call (by rw [addingEq]; rfl)
      rw [addStore_next addingEq] at moved
      obtain ⟨armed,done,same⟩ := Option.map_eq_some_iff.mp moved
      cases same
      have seen := current call addingEq (by rw [done]; rfl)
      have events := arm_events done
      have kernel := valid.kernel
      rw [addingEq] at kernel
      refine ⟨?_,?_,nofun,?_⟩
      · change Known armed.events
        rw [events]
        exact known_set valid.known _
      · change s.kernel = held armed.events .idle s.deleting
        rw [kernel,events,seen]
        unfold held
        cases ahead : s.deleting.ahead? with
        | some newEvents => rfl
        | none => exact if_pos rfl
      · intro event newEvents leaving
        have leaves := valid.deleting event newEvents leaving
        change Leaves armed.events event newEvents
        rw [events]
        exact ⟨bit_set leaves.1 _,.inr (leaves_none valid.known leaves (by rw [seen]; exact free))⟩
  | _ => simp only [next,addingEq] at moved; cases moved

theorem delRead_valid (valid : Valid s) (moved : next s (.delRead event) = some s') : Valid s' := by
  cases deletingEq : s.deleting with
  | idle =>
      simp only [next,deletingEq] at moved
      by_cases absent : s.fdCtx.events &&& event.event = 0
      · rw [if_pos absent] at moved
        cases moved
        exact valid
      · rw [if_neg absent] at moved
        cases moved
        have kernel := valid.kernel
        rw [deletingEq] at kernel
        refine ⟨valid.known,kernel,?_,?_⟩
        · intro call adding
          obtain ⟨known,free,current⟩ := valid.adding call adding
          exact ⟨known,free,.inl (current.resolve_right fun gone => ne_none_of_bit absent gone.1)⟩
        · rintro other newEvents ⟨⟩
          exact ⟨absent,.inl rfl⟩
  | _ => simp only [next,deletingEq] at moved; cases moved

theorem present (valid : Valid s) (reading : s.deleting = .read event newEvents) : ∃ mask, s.kernel = some mask := by
  have leaves := valid.deleting event newEvents (by rw [reading]; rfl)
  have kernel := valid.kernel
  rw [reading] at kernel
  cases addingEq : s.adding with
  | registered call =>
      have adding : s.adding.call? = some call := by rw [addingEq]; rfl
      have same := seen_of_deleting valid adding (by rw [reading]; nofun)
      rw [addingEq] at kernel
      have ahead : s.kernel = interest (call.seen ||| call.event.event) := kernel.trans (if_pos same)
      rw [interest_set (valid.adding call adding).1] at ahead
      exact ⟨_,ahead⟩
  | _ =>
      rw [addingEq] at kernel
      have settled : s.kernel = interest s.fdCtx.events := kernel
      unfold interest at settled
      rw [if_neg (ne_none_of_bit leaves.1)] at settled
      exact ⟨_,settled⟩

theorem delCtl_some (newEvents : Event) (mask : BitVec 32) : delCtl newEvents (some mask) = some (interest newEvents) := by
  unfold delCtl interest
  by_cases empty : newEvents = Event.none
  · rw [if_pos empty,if_pos empty]
    rfl
  · rw [if_neg empty,if_neg empty]
    rfl

theorem delCtl_valid (valid : Valid s) (moved : next s .delCtl = some s') : Valid s' := by
  cases deletingEq : s.deleting with
  | read event newEvents =>
      obtain ⟨mask,kernel⟩ := present valid deletingEq
      simp only [next,deletingEq,kernel,delCtl_some] at moved
      cases moved
      refine ⟨valid.known,rfl,?_,?_⟩
      · intro call (adding : s.adding.call? = some call)
        obtain ⟨known,free,_⟩ := valid.adding call adding
        have same := seen_of_deleting valid adding (by rw [deletingEq]; nofun)
        exact ⟨known,free,.inl same⟩
      · rintro other left ⟨⟩
        exact valid.deleting event newEvents (by rw [deletingEq]; rfl)
  | _ => simp only [next,deletingEq] at moved; cases moved

theorem delStore_valid (valid : Valid s) (moved : next s .delStore = some s') : Valid s' := by
  cases deletingEq : s.deleting with
  | deregistered event newEvents =>
      simp only [next,deletingEq] at moved
      cases moved
      have leaves := valid.deleting event newEvents (by rw [deletingEq]; rfl)
      have kernel := valid.kernel
      rw [deletingEq] at kernel
      have events : ({s.fdCtx with events := newEvents}.resetEventContext event).events = newEvents := by
        cases event <;> rfl
      -- An `addEvent` in progress has seen the event that is now gone.
      have behind : ∀ call, s.adding.call? = some call → newEvents = Event.none ∧ newEvents ≠ call.seen := by
        intro call adding
        obtain ⟨known,free,_⟩ := valid.adding call adding
        rw [seen_of_deleting valid adding (by rw [deletingEq]; nofun)] at leaves
        have gone := leaves_none known leaves free
        exact ⟨gone,fun equal => ne_none_of_bit leaves.1 (equal.symm.trans gone)⟩
      refine ⟨?_,?_,?_,nofun⟩
      · change Known (FdContext.resetEventContext _ _).events
        rw [events]
        rcases leaves.2 with rfl | rfl
        · exact known_clear valid.known event
        · exact known_none
      · change s.kernel = held (FdContext.resetEventContext _ _).events s.adding .idle
        rw [kernel,events]
        cases addingEq : s.adding with
        | registered call =>
            obtain ⟨gone,other⟩ := behind call (by rw [addingEq]; rfl)
            refine Eq.trans ?_ (if_neg other).symm
            rw [gone]
            rfl
        | _ => rfl
      · intro call adding
        obtain ⟨known,free,_⟩ := valid.adding call adding
        exact ⟨known,free,.inr ⟨events.trans (behind call adding).1,rfl⟩⟩
  | _ => simp only [next,deletingEq] at moved; cases moved

theorem valid_step (valid : Valid s) (current : Current s a) (moved : next s a = some s') : Valid s' := by
  cases a with
  | addRead event callback caller => exact addRead_valid valid moved
  | addCtl => exact addCtl_valid valid moved
  | addStore => exact addStore_valid valid current moved
  | delRead event => exact delRead_valid valid moved
  | delCtl => exact delCtl_valid valid moved
  | delStore => exact delStore_valid valid moved

theorem current_of_consistent (valid : Valid s) (after : ∀ s', next s a = some s' → Consistent s') : Current s a := by
  cases a with
  | addStore =>
      intro call adding goes
      obtain ⟨armed,done⟩ := Option.isSome_iff_exists.mp goes
      obtain ⟨_,_,current⟩ := valid.adding call (by rw [adding]; rfl)
      rcases current with same | ⟨gone,deleting⟩
      · exact same
      · apply Classical.byContradiction
        intro other
        have kernel := valid.kernel
        rw [adding,deleting] at kernel
        have absent : s.kernel = none := kernel.trans (if_neg other)
        have moved : next s .addStore = some
            {s with fdCtx := armed,pendingEventCount := s.pendingEventCount+1,adding := .idle} := by
          rw [addStore_next adding,done]
          rfl
        have empty : armed.events = Event.none := ((after _ moved rfl deleting).2).mp absent
        rw [arm_events done,gone] at empty
        exact set_ne_none known_none _ empty
  | _ => trivial

theorem interest_exactly (fd : Nat) (actions : List (Action Sched Fiber Callback)) :
    Throughout next Consistent (State.initial fd) actions ↔ Along next Current (State.initial fd) actions :=
  throughout_exactly (initial_valid fd) (fun _ => consistent_of_valid) (fun _ _ _ => valid_step)
    fun _ _ => current_of_consistent

-- The read event is registered; the write event comes while it goes. The kernel
-- drops the descriptor after it has got both events.
def crossed : List (Action Unit Unit Unit) :=
  let caller : Caller Unit Unit := ⟨some (),(),true⟩
  [.addRead .read (some ()) caller,.addCtl,.addStore,
    .addRead .write (some ()) caller,.addCtl,.delRead .read,.delCtl,.delStore,.addStore]

theorem interest_fails : ¬Throughout next Consistent (State.initial 7) crossed := by
  intro holds
  obtain ⟨s,ran,adding,deleting,kernel,events⟩ : ∃ s, run next (State.initial 7) crossed = some s ∧
      s.adding = .idle ∧ s.deleting = .idle ∧ s.kernel = none ∧ s.fdCtx.events = Event.write := ⟨_,rfl,rfl,rfl,rfl,rfl⟩
  have last := ((holds.reached crossed [] ran) adding deleting).2.mp kernel
  rw [events] at last
  exact absurd last (by decide)

-- The state as the complete calls see it.
def Shows (m : IOManager Sched Fiber Callback) (fd : Nat) (s : State Sched Fiber Callback) : Prop :=
  m.fdContexts[fd]? = some s.fdCtx ∧ m.pendingEventCount = s.pendingEventCount

theorem addEvent_arms {m : IOManager Sched Fiber Callback} (found : m.fdContexts[fd]? = some ctx)
    (call : Adding Sched Fiber Callback) (free : ctx.events &&& call.event.event = 0) :
    (∃ armed, arm ctx call = some armed ∧ m.addEvent fd call.event.event call.callback call.caller 0 =
      .ok (0,{m.put fd armed with pendingEventCount := m.pendingEventCount+1})) ∨
    arm ctx call = none ∧ ∃ fault, m.addEvent fd call.event.event call.callback call.caller 0 = .error fault := by
  have reserved : m.reserve fd = m := if_pos (List.getElem?_eq_some_iff.mp found).1
  simp only [IOManager.addEvent,reserved,found,arm,Caller.entry]
  rw [if_neg (not_not.mpr free),if_neg (not_not.mpr rfl),FdContext.getEventContext_event]
  simp only [Except.bind,FdContext.context_events]
  cases empty : (ctx.context call.event).isEmpty with
  | false => exact .inr ⟨rfl,_,rfl⟩
  | true =>
      cases call.callback with
      | some cb => exact .inl ⟨_,rfl,rfl⟩
      | none =>
          cases running : call.caller.running with
          | true => exact .inl ⟨_,rfl,rfl⟩
          | false => exact .inr ⟨rfl,_,rfl⟩

-- Without interference the three steps are the complete call.
theorem addEvent_alone {m : IOManager Sched Fiber Callback} (valid : Valid s) (shows_ : Shows m fd s)
    (adding : s.adding = .idle) (deleting : s.deleting = .idle) (event : Side) (callback : Option Callback)
    (caller : Caller Sched Fiber) :
    (∃ t m', run next s [.addRead event callback caller,.addCtl,.addStore] = some t ∧
      m.addEvent fd event.event callback caller 0 = .ok (0,m') ∧ Shows m' fd t) ∨
    run next s [.addRead event callback caller,.addCtl,.addStore] = none ∧
      ∃ fault, m.addEvent fd event.event callback caller 0 = .error fault := by
  obtain ⟨found,count⟩ := shows_
  have inside := (List.getElem?_eq_some_iff.mp found).1
  have kernel : s.kernel = interest s.fdCtx.events := by
    rw [valid.kernel,adding,deleting]
    rfl
  by_cases free : s.fdCtx.events &&& event.event = 0
  · let call : Adding Sched Fiber Callback := ⟨event,callback,caller,s.fdCtx.events⟩
    have done : call.ctl s.kernel = some (interest (call.seen ||| call.event.event)) := by
      rw [kernel]
      exact ctl_interest call valid.known
    have first : next s (.addRead event callback caller) = some {s with adding := .read call} := by
      simp only [next,adding]
      exact if_pos free
    have second : next {s with adding := .read call} .addCtl =
        some {s with kernel := interest (call.seen ||| call.event.event),adding := .registered call} := by
      simp only [next,done]
    have third := addStore_next
      (s := {s with kernel := interest (call.seen ||| call.event.event),adding := .registered call}) rfl
    simp only [run,first,second,third,Option.bind_some,Option.bind_fun_some]
    rcases addEvent_arms found call free with ⟨armed,arms,ok⟩ | ⟨fails,fault,error⟩
    · rw [arms]
      exact .inl ⟨_,_,rfl,ok,by simp [IOManager.put,inside],congrArg (·+1) count⟩
    · rw [fails]
      exact .inr ⟨rfl,fault,error⟩
  · right
    have reserved : m.reserve fd = m := if_pos inside
    refine ⟨?_,.assertion "!(fd_ctx->events & event)",?_⟩
    · simp only [run,next,adding]
      rw [if_neg free]
      rfl
    · simp only [IOManager.addEvent,reserved,found]
      exact if_pos free

theorem delEvent_alone {m : IOManager Sched Fiber Callback} (valid : Valid s) (shows_ : Shows m fd s)
    (deleting : s.deleting = .idle) (event : Side) (bit : s.fdCtx.events &&& event.event ≠ 0) :
    ∃ t m', run next s [.delRead event,.delCtl,.delStore] = some t ∧
      m.delEvent fd event.event 0 = .ok (true,m') ∧ Shows m' fd t := by
  obtain ⟨found,count⟩ := shows_
  have inside := (List.getElem?_eq_some_iff.mp found).1
  let newEvents := s.fdCtx.events &&& ~~~event.event
  have first : next s (.delRead event) = some {s with deleting := .read event newEvents} := by
    simp only [next,deleting]
    exact if_neg bit
  obtain ⟨mask,kernel⟩ := present (delRead_valid valid first) rfl
  have second : next {s with deleting := .read event newEvents} .delCtl =
      some {s with kernel := interest newEvents,deleting := .deregistered event newEvents} := by
    simp only at kernel
    simp only [next,kernel,delCtl_some]
  refine ⟨_,m.unregister fd s.fdCtx event,by simp only [run,first,second,Option.bind_some]; rfl,?_,?_,?_⟩
  · simp only [IOManager.delEvent,found,FdContext.getEventContext_event]
    rw [if_neg bit,if_neg (not_not.mpr rfl)]
    rfl
  · simp [IOManager.unregister,IOManager.put,inside]
    rfl
  · exact congrArg (·-1) count

end Fishjoy.IOManagerInterest
