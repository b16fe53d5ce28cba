import Fishjoy.IOManagerCalls
import Fishjoy.Foundation.Transition
import Fishjoy.Foundation.Registry

namespace Fishjoy
open Transition
variable {Sched Fiber Callback : Type}

-- What the calls are for: a registration of a side of a descriptor waits in its
-- slot with the scheduler and the work that it got.
abbrev EventRegistry (Sched Fiber Callback : Type) := Registry (Nat × Side) (Option Sched × Work Fiber Callback)

def Caller.payload (caller : Caller Sched Fiber) (callback : Option Callback) : Option Sched × Work Fiber Callback :=
  match callback with
  | some cb => (caller.scheduler,.callback cb)
  | none => (caller.scheduler,.fiber caller.fiber)

def Event.side? (event : Event) : Option Side :=
  if event = Event.read then some .read else if event = Event.write then some .write else Option.none

def EventContext.of : Option (Nat × Option Sched × Work Fiber Callback) → EventContext Sched Fiber Callback
  | none => .empty
  | some (_,scheduler,.fiber f) => ⟨scheduler,some f,none⟩
  | some (_,scheduler,.callback c) => ⟨scheduler,none,some c⟩

-- The place of the bit of a side in an `Event` and in an `epoll` mask.
def Side.bit : Side → Nat
  | .read => 0
  | .write => 2

namespace EventRegistry

def readyFor (events : BitVec 32) : Side → Bool
  | .read => events &&& epollIn != 0 || events &&& (epollErr ||| epollHup) != 0
  | .write => events &&& epollOut != 0 || events &&& (epollErr ||| epollHup) != 0

-- Readiness resolves what is registered of the ready sides, an error of both.
def settleReady (r : EventRegistry Sched Fiber Callback) : Readiness → EventRegistry Sched Fiber Callback
  | .tickle => r
  | .ready fd events rt2 =>
    if rt2 ≠ 0 then r
    else
      let r := if readyFor events .read then r.hand (fd,.read) else r
      if readyFor events .write then r.hand (fd,.write) else r

def settle (r : EventRegistry Sched Fiber Callback) : IOAction Sched Fiber Callback → EventRegistry Sched Fiber Callback
  | .addEvent fd event callback caller rt =>
    if rt ≠ 0 then r
    else event.side?.elim r fun side => r.register (fd,side) (caller.payload callback)
  | .delEvent fd event rt => if rt ≠ 0 then r else event.side?.elim r fun side => r.drop (fd,side)
  | .cancelEvent fd event rt => if rt ≠ 0 then r else event.side?.elim r fun side => r.hand (fd,side)
  | .cancelAll fd rt => if rt ≠ 0 then r else (r.hand (fd,.read)).hand (fd,.write)
  | .dispatch events => events.foldl settleReady r

end EventRegistry

namespace IOManager
variable {m : IOManager Sched Fiber Callback} {r : EventRegistry Sched Fiber Callback}

-- The bit and the context of every side are those of its slot, and `schedule`
-- got what was handed over, in this order.
structure Represents (m : IOManager Sched Fiber Callback) (r : EventRegistry Sched Fiber Callback) : Prop where
  long : 32 ≤ m.fdContexts.length
  contexts : ∀ (fd : Nat) ctx, m.fdContexts[fd]? = some ctx →
    ctx.events = Event.mask (r.slot (fd,.read)).isSome (r.slot (fd,.write)).isSome ∧
      ∀ side, ctx.context side = .of (r.slot (fd,side))
  beyond : ∀ (fd : Nat) side, m.fdContexts[fd]? = none → r.slot (fd,side) = none
  handed : m.handed.map (fun h => (some h.1,h.2)) = r.handed.map fun entry => (entry.2.1,some entry.2.2)

abbrev Traced (Sched Fiber Callback : Type) := IOManager Sched Fiber Callback × EventRegistry Sched Fiber Callback

def tracedNext (s : Traced Sched Fiber Callback) (a : IOAction Sched Fiber Callback) : Option (Traced Sched Fiber Callback) :=
  (next s.1 a).map fun m => (m,s.2.settle a)

-- The callers' part: they add no event that is still registered, a fiber that
-- is added runs, and `epoll_wait` returns only contexts that were given to it.
def CalledWell (s : Traced Sched Fiber Callback) : IOAction Sched Fiber Callback → Prop
  | .addEvent fd event callback caller _ => ∃ side : Side, event = side.event ∧ s.2.slot (fd,side) = none ∧
      (callback = none → caller.running = true)
  | .delEvent _ event _ | .cancelEvent _ event _ => event = Event.none ∨ ∃ side : Side, event = side.event
  | .cancelAll .. => True
  | .dispatch events => ∀ fd mask rt2, Readiness.ready fd mask rt2 ∈ events → fd < s.1.fdContexts.length

-- The call completes and does to the registrations what it is for.
def Resolves (s : Traced Sched Fiber Callback) (a : IOAction Sched Fiber Callback) : Prop :=
  ∃ m, s.1.perform a = .ok m ∧ Represents m (s.2.settle a) ∧ (s.2.settle a).Accounted

theorem moves_quiet {a : IOAction Sched Fiber Callback} {t : IOManager Sched Fiber Callback} (moves : Moves m a t) :
    m.quiet a = true := by
  cases moves with
  | refused | added | kept | deleted => rfl
  | cancelEvent still | cancelAll still | dispatch still => exact still

theorem represents_registered (rep : Represents m r) {fd : Nat} {ctx : FdContext Sched Fiber Callback}
    (found : m.fdContexts[fd]? = some ctx) (side : Side) : ctx.registered side = (r.slot (fd,side)).isSome := by
  obtain ⟨onRead,onWrite⟩ := FdContext.registered_mask (rep.contexts fd ctx found).1
  cases side with
  | read => exact onRead
  | write => exact onWrite

theorem represents_unregistered (rep : Represents m r) {fd : Nat} {side : Side}
    (clear : m.eventsAt fd &&& side.event = 0) : r.slot (fd,side) = none := by
  cases found : m.fdContexts[fd]? with
  | none => exact rep.beyond fd side found
  | some ctx =>
      have registered := represents_registered rep found side
      rw [eventsAt_some found] at clear
      have unset : ctx.registered side = false := by simp [FdContext.registered,clear]
      rw [unset] at registered
      simpa using registered.symm

-- Fresh contexts stand for free slots.
theorem grown_contexts {contexts : List (FdContext Sched Fiber Callback)} {size : Nat}
    (represented : ∀ (fd : Nat) ctx, contexts[fd]? = some ctx →
      ctx.events = Event.mask (r.slot (fd,.read)).isSome (r.slot (fd,.write)).isSome ∧
        ∀ side, ctx.context side = .of (r.slot (fd,side)))
    (beyond : ∀ (fd : Nat) side, contexts[fd]? = none → r.slot (fd,side) = none) (fd : Nat)
    (ctx : FdContext Sched Fiber Callback)
    (found : (contexts ++ (List.range' contexts.length size).map .fresh)[fd]? = some ctx) :
    ctx.events = Event.mask (r.slot (fd,.read)).isSome (r.slot (fd,.write)).isSome ∧
      ∀ side, ctx.context side = .of (r.slot (fd,side)) := by
  by_cases inside : fd < contexts.length
  · rw [List.getElem?_append_left inside] at found
    exact represented fd ctx found
  · rw [List.getElem?_append_right (Nat.le_of_not_lt inside),List.getElem?_map,Option.map_eq_some_iff] at found
    obtain ⟨i,_,rfl⟩ := found
    have outside : contexts[fd]? = none := List.getElem?_eq_none (Nat.le_of_not_lt inside)
    rw [beyond fd .read outside,beyond fd .write outside]
    refine ⟨show _ = Event.mask false false from rfl,?_⟩
    intro side
    rw [beyond fd side outside]
    cases side <;> rfl

theorem initial_represents : Represents (initial : IOManager Sched Fiber Callback) .empty := by
  have grown := contextResize_grows (m := (⟨[],0,[]⟩ : IOManager Sched Fiber Callback)) (Nat.zero_le 32)
  refine ⟨?_,?_,fun _ _ _ => rfl,rfl⟩
  · simp [initial,contextResize]
  · intro fd ctx found
    rw [initial,grown] at found
    refine grown_contexts ?_ (fun _ _ _ => rfl) fd ctx found
    intro fd ctx found
    simp at found

theorem reserve_represents (rep : Represents m r) (fd : Nat) :
    Represents (m.reserve fd) r ∧ ∃ ctx, (m.reserve fd).fdContexts[fd]? = some ctx := by
  have long := rep.long
  by_cases inside : m.fdContexts.length > fd
  · rw [reserve,if_pos inside]
    exact ⟨rep,_,List.getElem?_eq_getElem inside⟩
  · have grows : m.fdContexts.length ≤ fd*3/2 := by omega
    have grown := contextResize_grows grows
    have below : fd < (m.contextResize (fd*3/2)).fdContexts.length := by
      simp only [contextResize,List.length_map,List.length_range]
      omega
    rw [reserve,if_neg inside]
    refine ⟨⟨?_,?_,?_,rep.handed⟩,_,List.getElem?_eq_getElem below⟩
    · simp only [contextResize,List.length_map,List.length_range]
      omega
    · intro i ctx found
      rw [grown] at found
      exact grown_contexts rep.contexts rep.beyond i ctx found
    · intro i side absent
      rw [grown,List.getElem?_eq_none_iff,List.length_append] at absent
      exact rep.beyond i side (List.getElem?_eq_none (by omega))

-- One context and its slots change together.
theorem put_represents (rep : Represents m r) {fd : Nat} {ctx after : FdContext Sched Fiber Callback}
    {q : EventRegistry Sched Fiber Callback} (found : m.fdContexts[fd]? = some ctx)
    (others : ∀ i side, i ≠ fd → q.slot (i,side) = r.slot (i,side)) (handed : q.handed = r.handed)
    (events : after.events = Event.mask (q.slot (fd,.read)).isSome (q.slot (fd,.write)).isSome)
    (contexts : ∀ side, after.context side = .of (q.slot (fd,side))) (pending : Int) :
    Represents {m.put fd after with pendingEventCount := pending} q := by
  have below : fd < m.fdContexts.length := by
    by_contra beyond
    rw [List.getElem?_eq_none (Nat.le_of_not_lt beyond)] at found
    cases found
  refine ⟨?_,?_,?_,?_⟩
  · simpa [put] using rep.long
  · intro i c at_i
    by_cases same : i = fd
    · subst i
      simp only [put,List.getElem?_set_self below,Option.some.injEq] at at_i
      rw [←at_i]
      exact ⟨events,contexts⟩
    · simp only [put,List.getElem?_set_ne (Ne.symm same)] at at_i
      obtain ⟨masked,entries⟩ := rep.contexts i c at_i
      rw [others i .read same,others i .write same]
      refine ⟨masked,?_⟩
      intro side
      rw [others i side same]
      exact entries side
  · intro i side absent
    by_cases same : i = fd
    · subst i
      simp [put,List.getElem?_set_self below] at absent
    · simp only [put,List.getElem?_set_ne (Ne.symm same)] at absent
      rw [others i side same]
      exact rep.beyond i side absent
  · rw [handed]
    exact rep.handed

theorem side?_event (side : Side) : side.event.side? = some side := by
  cases side <;> rfl

theorem of_payload (caller : Caller Sched Fiber) (callback : Option Callback) (ticket : Nat) :
    EventContext.of (some (ticket,caller.payload callback)) = caller.entry callback := by
  cases callback <;> rfl

theorem setContext_self (ctx : FdContext Sched Fiber Callback) (side : Side) (entry : EventContext Sched Fiber Callback) :
    (ctx.setContext side entry).context side = entry := by
  cases side <;> rfl

theorem setContext_other (ctx : FdContext Sched Fiber Callback) {side other : Side} (apart : other ≠ side)
    (entry : EventContext Sched Fiber Callback) : (ctx.setContext side entry).context other = ctx.context other := by
  cases side <;> cases other
  · exact absurd rfl apart
  · rfl
  · rfl
  · exact absurd rfl apart

theorem setContext_events (ctx : FdContext Sched Fiber Callback) (side : Side) (entry : EventContext Sched Fiber Callback) :
    (ctx.setContext side entry).events = ctx.events := by
  cases side <;> rfl

-- The context after `slot (fd,side)` alone has changed.
theorem write_represents (rep : Represents m r) {fd : Nat} {ctx : FdContext Sched Fiber Callback} {side : Side}
    {q : EventRegistry Sched Fiber Callback} (found : m.fdContexts[fd]? = some ctx)
    {entry : Option (Nat × Option Sched × Work Fiber Callback)} (slot : q.slot = Function.update r.slot (fd,side) entry)
    (handed : q.handed = r.handed) {events : Event}
    (masked : events = Event.mask (q.slot (fd,.read)).isSome (q.slot (fd,.write)).isSome) (pending : Int) :
    Represents {m.put fd ({ctx with events := events}.setContext side (.of entry)) with pendingEventCount := pending} q := by
  refine put_represents rep found ?_ handed ?_ ?_ pending
  · intro i other apart
    rw [slot,Function.update_of_ne]
    intro equal
    exact apart (congrArg Prod.fst equal)
  · rw [setContext_events]
    exact masked
  · intro other
    by_cases same : other = side
    · subst other
      rw [setContext_self,slot,Function.update_self]
    · rw [setContext_other _ same,slot,Function.update_of_ne]
      · exact (rep.contexts fd ctx found).2 other
      · intro equal
        exact same (congrArg Prod.snd equal)

theorem register_represents (rep : Represents m r) {fd : Nat} {ctx : FdContext Sched Fiber Callback} {side : Side}
    (found : m.fdContexts[fd]? = some ctx) (free : r.slot (fd,side) = none) (caller : Caller Sched Fiber)
    (callback : Option Callback) :
    Represents (m.register fd ctx side (caller.entry callback)) (r.register (fd,side) (caller.payload callback)) := by
  have slot : (r.register (fd,side) (caller.payload callback)).slot =
      Function.update r.slot (fd,side) (some (r.made,caller.payload callback)) := rfl
  rw [←of_payload caller callback r.made]
  refine write_represents rep found slot rfl ?_ _
  rw [(rep.contexts fd ctx found).1,slot]
  cases side with
  | read =>
      rw [Function.update_self,Function.update_of_ne (by simp),free]
      exact Event.mask_set_read _
  | write =>
      rw [Function.update_self,Function.update_of_ne (by simp),free]
      exact Event.mask_set_write _

theorem drop_represents (rep : Represents m r) {fd : Nat} {ctx : FdContext Sched Fiber Callback} {side : Side}
    (found : m.fdContexts[fd]? = some ctx) {entry : Nat × Option Sched × Work Fiber Callback}
    (taken : r.slot (fd,side) = some entry) : Represents (m.unregister fd ctx side) (r.drop (fd,side)) := by
  have slot : (r.drop (fd,side)).slot = Function.update r.slot (fd,side) none := by simp [Registry.drop,taken]
  have handed : (r.drop (fd,side)).handed = r.handed := by simp [Registry.drop,taken]
  refine write_represents rep found slot handed ?_ _
  rw [(rep.contexts fd ctx found).1,slot]
  cases side with
  | read =>
      rw [Function.update_self,Function.update_of_ne (by simp),taken]
      exact Event.mask_clear_read _
  | write =>
      rw [Function.update_self,Function.update_of_ne (by simp),taken]
      exact Event.mask_clear_write _

structure Tracked (s : Traced Sched Fiber Callback) : Prop where
  represents : Represents s.1 s.2
  accounted : s.2.Accounted

section Calls
variable {s : Traced Sched Fiber Callback}

theorem addEvent_resolves (tracked : Tracked s) {fd : Nat} {side : Side} {callback : Option Callback}
    {caller : Caller Sched Fiber} (free : s.2.slot (fd,side) = none) (runs : callback = none → caller.running = true)
    (rt : Int) :
    Resolves s (.addEvent fd side.event callback caller rt) := by
  obtain ⟨rep,ctx,found⟩ := reserve_represents tracked.represents fd
  have registered := represents_registered rep found side
  rw [free] at registered
  have clear : ctx.events &&& side.event = 0 := by simpa [FdContext.registered] using registered
  have empty : (ctx.context side).isEmpty = true := by
    rw [(rep.contexts fd ctx found).2 side,free]
    rfl
  by_cases failed : rt ≠ 0
  · refine ⟨s.1.reserve fd,?_,?_,?_⟩
    · simp [perform,addEvent,found,clear,failed,Except.map]
    · simpa [EventRegistry.settle,failed] using rep
    · simpa [EventRegistry.settle,failed] using tracked.accounted
  · have settled : s.2.settle (.addEvent fd side.event callback caller rt) =
        s.2.register (fd,side) (caller.payload callback) := by
      simp [EventRegistry.settle,failed,side?_event]
    refine ⟨(s.1.reserve fd).register fd ctx side (caller.entry callback),?_,?_,?_⟩
    · cases Classical.not_not.mp failed
      cases callback with
      | some cb =>
          simp [perform,addEvent,found,clear,FdContext.getEventContext_event,FdContext.context_events,empty,
            Except.bind,Except.map,Caller.entry,register,put]
      | none =>
          simp [perform,addEvent,found,clear,FdContext.getEventContext_event,FdContext.context_events,empty,
            Except.bind,Except.map,Caller.entry,register,put,runs rfl]
    · rw [settled]
      exact register_represents rep found free caller callback
    · rw [settled]
      exact Registry.register_accounted tracked.accounted free _

theorem unchanged_resolves (tracked : Tracked s) {a : IOAction Sched Fiber Callback} (done : s.1.perform a = .ok s.1)
    (settled : s.2.settle a = s.2) : Resolves s a := by
  refine ⟨s.1,done,?_,?_⟩
  · rw [settled]; exact tracked.represents
  · rw [settled]; exact tracked.accounted

-- A call about an event that is not registered settles nothing.
theorem elim_unregistered (rep : Represents m r) {fd : Nat} {event : Event}
    (named : event = Event.none ∨ ∃ side : Side, event = side.event) (clear : m.eventsAt fd &&& event = 0)
    (change : EventRegistry Sched Fiber Callback → Nat × Side → EventRegistry Sched Fiber Callback)
    (free : ∀ k, r.slot k = none → change r k = r) : (event.side?.elim r fun side => change r (fd,side)) = r := by
  rcases named with rfl | ⟨side,rfl⟩
  · rfl
  · rw [side?_event]
    exact free (fd,side) (represents_unregistered rep clear)

theorem delEvent_resolves (tracked : Tracked s) {fd : Nat} {event : Event}
    (named : event = Event.none ∨ ∃ side : Side, event = side.event) (rt : Int) :
    Resolves s (.delEvent fd event rt) := by
  by_cases clear : s.1.eventsAt fd &&& event = 0
  · apply unchanged_resolves tracked
    · cases found : s.1.fdContexts[fd]? with
      | none => simp [perform,delEvent,found,Except.map]
      | some ctx =>
          rw [eventsAt_some found] at clear
          simp [perform,delEvent,found,clear,Except.map]
    · simp only [EventRegistry.settle]
      split
      · rfl
      · exact elim_unregistered tracked.represents named clear Registry.drop fun k => Registry.drop_free
  · cases found : s.1.fdContexts[fd]? with
    | none => exact absurd (by simp [eventsAt_none found]) clear
    | some ctx =>
        rw [eventsAt_some found] at clear
        by_cases failed : rt ≠ 0
        · apply unchanged_resolves tracked
          · simp [perform,delEvent,found,failed,Except.map]
          · simp [EventRegistry.settle,failed]
        · rcases named with rfl | ⟨side,rfl⟩
          · exact absurd (by simp [Event.none]) clear
          · have set := represents_registered tracked.represents found side
            have registered : ctx.registered side = true := by simpa [FdContext.registered] using clear
            rw [registered] at set
            obtain ⟨entry,taken⟩ := Option.isSome_iff_exists.mp set.symm
            have settled : s.2.settle (.delEvent fd side.event rt) = s.2.drop (fd,side) := by
              simp [EventRegistry.settle,failed,side?_event]
            refine ⟨s.1.unregister fd ctx side,?_,?_,?_⟩
            · simp only [perform,delEvent,found]
              rw [if_neg clear,if_neg failed,FdContext.getEventContext_event]
              rfl
            · rw [settled]; exact drop_represents tracked.represents found taken
            · rw [settled]; exact Registry.drop_accounted tracked.accounted _

theorem cancelEvent_resolves (tracked : Tracked s) {fd : Nat} {event : Event}
    (named : event = Event.none ∨ ∃ side : Side, event = side.event) {rt : Int}
    (still : s.1.quiet (.cancelEvent fd event rt) = true) : Resolves s (.cancelEvent fd event rt) := by
  apply unchanged_resolves tracked (cancelEvent_quiet still)
  simp only [quiet,Bool.or_eq_true,bne_iff_ne,beq_iff_eq] at still
  simp only [EventRegistry.settle]
  split
  · rfl
  · rename_i succeeded
    have clear := still.resolve_left succeeded
    exact elim_unregistered tracked.represents named clear Registry.hand fun k => Registry.hand_free

theorem cancelAll_resolves (tracked : Tracked s) {fd : Nat} {rt : Int}
    (still : s.1.quiet (.cancelAll fd rt) = true) : Resolves s (.cancelAll fd rt) := by
  apply unchanged_resolves tracked (cancelAll_quiet still)
  simp only [quiet,Bool.or_eq_true,bne_iff_ne,beq_iff_eq] at still
  simp only [EventRegistry.settle]
  split
  · rfl
  · rename_i succeeded
    have clear := still.resolve_left succeeded
    have free (side : Side) : s.2.slot (fd,side) = none :=
      represents_unregistered tracked.represents (by simp [clear])
    rw [Registry.hand_free (free .read),Registry.hand_free (free .write)]

end Calls

theorem side_bit (side : Side) (events : BitVec 32) :
    events &&& side.event ≠ 0 ↔ events.getLsbD side.bit = true := by
  have power : side.event = BitVec.twoPow 32 side.bit := by cases side <;> rfl
  have nonzero : BitVec.twoPow 32 side.bit ≠ 0 := by cases side <;> decide
  rw [power,BitVec.and_twoPow]
  cases events.getLsbD side.bit with
  | false => simp
  | true => simpa using nonzero

-- The ready sides are among the real events, whatever else is.
theorem realEvents_ready {ctx : FdContext Sched Fiber Callback} {events : BitVec 32} {side : Side}
    (registered : ctx.events &&& side.event ≠ 0) (ready : EventRegistry.readyFor events side = true) :
    realEvents ctx events &&& side.event ≠ 0 := by
  rw [side_bit] at registered
  obtain ⟨all,masked,real⟩ := realEvents_mask ctx events
  have set : all &&& side.event ≠ 0 := by
    rw [masked]
    by_cases failed : events &&& (epollErr ||| epollHup) ≠ 0
    · rw [if_pos failed,side_bit,BitVec.getLsbD_or,BitVec.getLsbD_and,registered]
      cases side <;> simp [Side.bit,epollIn,epollOut]
    · rw [if_neg failed]
      have fine : (events &&& (epollErr ||| epollHup) != 0) = false := by simpa using failed
      cases side with
      | read =>
          simp only [EventRegistry.readyFor,fine,Bool.or_false,bne_iff_ne] at ready
          exact ready
      | write =>
          simp only [EventRegistry.readyFor,fine,Bool.or_false,bne_iff_ne] at ready
          exact ready
  rw [real]
  cases side with
  | read =>
      rw [decide_eq_true (show all &&& epollIn ≠ 0 from set)]
      exact Event.mask_read _
  | write =>
      rw [decide_eq_true (show all &&& epollOut ≠ 0 from set)]
      exact Event.mask_write _

theorem ready_hit {ctx : FdContext Sched Fiber Callback} {events : BitVec 32} {side : Side}
    (registered : ctx.events &&& side.event ≠ 0) (ready : EventRegistry.readyFor events side = true) :
    ctx.events &&& realEvents ctx events ≠ 0 := by
  have real := realEvents_ready registered ready
  rw [side_bit] at registered real
  intro missed
  have bit : (ctx.events &&& realEvents ctx events).getLsbD side.bit = true := by
    rw [BitVec.getLsbD_and,registered,real]
    rfl
  rw [missed] at bit
  cases side <;> cases bit

theorem settleReady_quiet (rep : Represents m r) {e : Readiness} (still : m.quietOne e = true)
    (known : ∀ fd mask rt2, e = .ready fd mask rt2 → fd < m.fdContexts.length) : r.settleReady e = r := by
  cases e with
  | tickle => rfl
  | ready fd events rt2 =>
      have found := List.getElem?_eq_getElem (known fd events rt2 rfl)
      simp only [quietOne,found,Option.all_some,Bool.or_eq_true,bne_iff_ne,beq_iff_eq] at still
      simp only [EventRegistry.settleReady]
      split
      · rfl
      · rename_i succeeded
        have missed := still.resolve_left succeeded
        have untouched (side : Side) : (if EventRegistry.readyFor events side = true then r.hand (fd,side) else r) = r := by
          split
          · rename_i ready
            refine Registry.hand_free (represents_unregistered rep ?_)
            rw [eventsAt_some found]
            by_contra registered
            exact ready_hit registered ready missed
          · rfl
        rw [untouched .read]
        exact untouched .write

section Calls
variable {s : Traced Sched Fiber Callback}

theorem dispatch_resolves (tracked : Tracked s) {events : List Readiness} (still : s.1.quiet (.dispatch events) = true)
    (known : ∀ fd mask rt2, Readiness.ready fd mask rt2 ∈ events → fd < s.1.fdContexts.length) :
    Resolves s (.dispatch events) := by
  refine unchanged_resolves tracked (dispatch_quiet still known) ?_
  simp only [EventRegistry.settle]
  simp only [quiet] at still
  induction events with
  | nil => rfl
  | cons e rest ih =>
      simp only [List.all_cons,Bool.and_eq_true] at still
      have first : s.2.settleReady e = s.2 := by
        apply settleReady_quiet tracked.represents still.1
        intro fd mask rt2 equal
        exact known fd mask rt2 (by simp [equal])
      rw [List.foldl_cons,first]
      exact ih still.2 fun fd mask rt2 member => known fd mask rt2 (List.mem_cons_of_mem _ member)

theorem quiet_resolves (tracked : Tracked s) {a : IOAction Sched Fiber Callback} (called : CalledWell s a)
    (still : s.1.quiet a = true) : Resolves s a := by
  cases a with
  | addEvent fd event callback caller rt =>
      obtain ⟨side,rfl,free,runs⟩ := called
      exact addEvent_resolves tracked free runs rt
  | delEvent fd event rt => exact delEvent_resolves tracked called rt
  | cancelEvent fd event rt => exact cancelEvent_resolves tracked called still
  | cancelAll fd rt => exact cancelAll_resolves tracked still
  | dispatch events => exact dispatch_resolves tracked still called

theorem resolves_quiet {a : IOAction Sched Fiber Callback} (resolves : Resolves s a) : s.1.quiet a = true := by
  obtain ⟨m,done,_,_⟩ := resolves
  exact moves_quiet (perform_moves done)

theorem resolves_tracked {a : IOAction Sched Fiber Callback} {t : Traced Sched Fiber Callback} (resolves : Resolves s a)
    (moved : tracedNext s a = some t) : Tracked t := by
  obtain ⟨m,done,rep,accounted⟩ := resolves
  simp only [tracedNext,next,done,Except.toOption,Option.map_some,Option.some.injEq] at moved
  rw [←moved]
  exact ⟨rep,accounted⟩

end Calls

theorem registrations_resolved {actions : List (IOAction Sched Fiber Callback)}
    (called : Along tracedNext CalledWell (initial,.empty) actions) :
    Along tracedNext Resolves (initial,.empty) actions ↔
      Along tracedNext (fun s a => s.1.quiet a = true) (initial,.empty) actions := by
  refine along_congr (P := Tracked) ⟨initial_represents,Registry.empty_accounted⟩ ?_ ?_ called
  · exact fun _ _ _ _ _ resolves moved => resolves_tracked resolves moved
  · exact fun _ _ tracked called => ⟨resolves_quiet,quiet_resolves tracked called⟩

def addRead : IOAction Nat Nat Nat := .addEvent 0 Event.read (some 5) ⟨some 1,0,true⟩ 0

def addedRead : Traced Nat Nat Nat := (tracedNext (initial,.empty) addRead).getD (initial,.empty)

theorem addRead_called {s : Traced Nat Nat Nat} (free : s.2.slot (0,.read) = none) : CalledWell s addRead :=
  ⟨.read,rfl,free,fun _ => rfl⟩

-- Cancelling the event that was added stops at the assertion of `getEventContext`.
theorem registrations_not_resolved :
    Along tracedNext CalledWell ((initial,.empty) : Traced Nat Nat Nat) [addRead,.cancelEvent 0 Event.read 0] ∧
    addedRead.1.cancelEvent 0 Event.read 0 = .error (.assertion "getContext") ∧
    ¬Along tracedNext Resolves ((initial,.empty) : Traced Nat Nat Nat) [addRead,.cancelEvent 0 Event.read 0] := by
  have fault : addedRead.1.cancelEvent 0 Event.read 0 = .error (.assertion "getContext") := rfl
  refine ⟨⟨addRead_called rfl,?_⟩,fault,?_⟩
  · intro t moved
    exact ⟨.inr ⟨.read,rfl⟩,fun _ _ => trivial⟩
  · intro resolves
    obtain ⟨m,done,_⟩ := Along.at [addRead] (.cancelEvent 0 Event.read 0) [] (m := addedRead) rfl resolves
    simp only [perform,fault,Except.map] at done
    cases done

-- Added, deleted and added again.
theorem registrations_resolved_reused : Along tracedNext Resolves ((initial,.empty) : Traced Nat Nat Nat)
    [addRead,.delEvent 0 Event.read 0,addRead] := by
  have called : Along tracedNext CalledWell ((initial,.empty) : Traced Nat Nat Nat)
      [addRead,.delEvent 0 Event.read 0,addRead] := by
    refine ⟨addRead_called rfl,?_⟩
    intro t moved
    refine ⟨.inr ⟨.read,rfl⟩,?_⟩
    intro u deleted
    have first : t = addedRead := (Option.some.inj moved).symm
    rw [first] at deleted
    refine ⟨addRead_called ?_,fun _ _ => trivial⟩
    rw [←Option.some.inj deleted]
    rfl
  exact (registrations_resolved called).mpr ⟨rfl,fun _ _ => ⟨rfl,fun _ _ => ⟨rfl,fun _ _ => trivial⟩⟩⟩

end IOManager
end Fishjoy
