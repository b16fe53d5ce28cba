import Fishjoy.IOManagerEvents

namespace Fishjoy
variable {Sched Fiber Callback : Type}

theorem map_ok {α β ε : Type} {x : Except ε α} {f : α → β} {b : β} (done : x.map f = .ok b) :
    ∃ a, x = .ok a ∧ f a = b := by
  cases x with
  | error fault => cases done
  | ok a => exact ⟨a,rfl,Except.ok.inj done⟩

theorem bind_ok {α β ε : Type} {x : Except ε α} {f : α → Except ε β} {b : β} (done : x.bind f = .ok b) :
    ∃ a, x = .ok a ∧ f a = .ok b := by
  cases x with
  | error fault => cases done
  | ok a => exact ⟨a,rfl,done⟩

-- The bits of a context, by side.
def Event.mask (read write : Bool) : Event :=
  (if read then Event.read else Event.none) ||| (if write then Event.write else Event.none)

theorem Event.mask_read (write : Bool) : mask true write &&& Side.read.event ≠ 0 := by
  cases write <;> decide

theorem Event.mask_write (read : Bool) : mask read true &&& Side.write.event ≠ 0 := by
  cases read <;> decide

theorem Event.mask_set_read (write : Bool) : mask false write ||| Side.read.event = mask true write := by
  cases write <;> decide

theorem Event.mask_set_write (read : Bool) : mask read false ||| Side.write.event = mask read true := by
  cases read <;> decide

theorem Event.mask_clear_read (write : Bool) : mask true write &&& ~~~Side.read.event = mask false write := by
  cases write <;> decide

theorem Event.mask_clear_write (read : Bool) : mask read true &&& ~~~Side.write.event = mask read false := by
  cases read <;> decide

namespace FdContext

theorem getEventContext_ok {event : Event} {side : Side} (found : getEventContext event = .ok side) :
    event = side.event := by
  unfold getEventContext at found
  split at found
  · cases found; assumption
  · split at found
    · cases found; assumption
    · cases found

theorem getEventContext_event (side : Side) : getEventContext side.event = .ok side := by
  cases side <;> rfl

-- The cleared parameter names no context.
theorem triggerEvent_fails (ctx : FdContext Sched Fiber Callback) (event : Event) :
    ∃ text, ctx.triggerEvent event = .error (.assertion text) := by
  unfold triggerEvent
  split
  · exact ⟨_,rfl⟩
  · have cleared : event &&& ~~~event = 0 := by simp
    rw [cleared]
    exact ⟨_,rfl⟩

def registered (ctx : FdContext Sched Fiber Callback) (side : Side) : Bool := ctx.events &&& side.event != 0

theorem context_events (ctx : FdContext Sched Fiber Callback) (events : Event) (side : Side) :
    ({ctx with events := events} : FdContext Sched Fiber Callback).context side = ctx.context side := by
  cases side <;> rfl

theorem registered_mask {ctx : FdContext Sched Fiber Callback} {read write : Bool}
    (masked : ctx.events = Event.mask read write) : ctx.registered .read = read ∧ ctx.registered .write = write := by
  unfold registered
  rw [masked]
  cases read <;> cases write <;> decide

end FdContext

namespace IOManager
variable {m t : IOManager Sched Fiber Callback}

theorem trigger_fails (fd : Nat) (ctx : FdContext Sched Fiber Callback) (event : Event)
    (r : FdContext Sched Fiber Callback × IOManager Sched Fiber Callback) : m.trigger fd ctx event ≠ .ok r := by
  intro done
  obtain ⟨_,triggered,_⟩ := map_ok done
  obtain ⟨text,failed⟩ := ctx.triggerEvent_fails event
  rw [failed] at triggered; cases triggered

theorem triggerBoth_ok {fd : Nat} {ctx : FdContext Sched Fiber Callback} {wanted : FdContext Sched Fiber Callback → Event}
    {r : FdContext Sched Fiber Callback × IOManager Sched Fiber Callback} (done : m.triggerBoth fd ctx wanted = .ok r) :
    r = (ctx,m) ∧ wanted ctx &&& Event.read = 0 ∧ wanted ctx &&& Event.write = 0 := by
  obtain ⟨⟨after,n⟩,first,second⟩ := bind_ok done
  split at first
  · exact absurd first (trigger_fails fd ctx _ _)
  · rename_i noRead
    cases first
    simp only at second
    split at second
    · exact absurd second (trigger_fails fd ctx _ _)
    · rename_i noWrite
      cases second
      exact ⟨rfl,Classical.not_not.mp noRead,Classical.not_not.mp noWrite⟩

theorem contextResize_grows {size : Nat} (grows : m.fdContexts.length ≤ size) :
    (m.contextResize size).fdContexts =
      m.fdContexts ++ (List.range' m.fdContexts.length (size-m.fdContexts.length)).map .fresh := by
  apply List.ext_getElem?
  intro i
  by_cases inside : i < m.fdContexts.length
  · rw [List.getElem?_append_left inside]
    simp [contextResize,List.getElem?_range (Nat.lt_of_lt_of_le inside grows),List.getElem?_eq_getElem inside]
  · rw [List.getElem?_append_right (Nat.le_of_not_lt inside)]
    have beyond : m.fdContexts[i]? = none := List.getElem?_eq_none (Nat.le_of_not_lt inside)
    by_cases below : i < size
    · have index : i-m.fdContexts.length < size-m.fdContexts.length := by omega
      have shifted : m.fdContexts.length+(i-m.fdContexts.length) = i := by omega
      simp [contextResize,List.getElem?_range below,beyond,index,shifted]
    · have outside : ¬i-m.fdContexts.length < size-m.fdContexts.length := by omega
      simp [contextResize,below,outside]

def eventsAt (m : IOManager Sched Fiber Callback) (fd : Nat) : Event :=
  ((m.fdContexts[fd]?).map FdContext.events).getD 0

theorem eventsAt_some {fd : Nat} {ctx : FdContext Sched Fiber Callback} (found : m.fdContexts[fd]? = some ctx) :
    m.eventsAt fd = ctx.events := by
  simp [eventsAt,found]

theorem eventsAt_none {fd : Nat} (beyond : m.fdContexts[fd]? = none) : m.eventsAt fd = 0 := by
  simp [eventsAt,beyond]

def quietOne (m : IOManager Sched Fiber Callback) : Readiness → Bool
  | .tickle => true
  | .ready fd events rt2 =>
    rt2 != 0 || (m.fdContexts[fd]?).all fun ctx => ctx.events &&& realEvents ctx events == 0

-- No registered event is cancelled or found ready with a successful `epoll_ctl`.
def quiet (m : IOManager Sched Fiber Callback) : IOAction Sched Fiber Callback → Bool
  | .cancelEvent fd event rt => rt != 0 || m.eventsAt fd &&& event == 0
  | .cancelAll fd rt => rt != 0 || m.eventsAt fd == 0
  | .dispatch events => events.all (quietOne m)
  | _ => true

end IOManager

def Caller.entry (caller : Caller Sched Fiber) (callback : Option Callback) : EventContext Sched Fiber Callback :=
  match callback with
  | some cb => ⟨caller.scheduler,none,some cb⟩
  | none => ⟨caller.scheduler,some caller.fiber,none⟩

namespace IOManager
variable {m t : IOManager Sched Fiber Callback}

def register (m : IOManager Sched Fiber Callback) (fd : Nat) (ctx : FdContext Sched Fiber Callback) (side : Side)
    (entry : EventContext Sched Fiber Callback) : IOManager Sched Fiber Callback :=
  {m.put fd ({ctx with events := ctx.events ||| side.event}.setContext side entry) with
    pendingEventCount := m.pendingEventCount+1}

def unregister (m : IOManager Sched Fiber Callback) (fd : Nat) (ctx : FdContext Sched Fiber Callback) (side : Side) :
    IOManager Sched Fiber Callback :=
  {m.put fd ({ctx with events := ctx.events &&& ~~~side.event}.resetEventContext side) with
    pendingEventCount := m.pendingEventCount-1}

-- What a call that completes has done. None of them has handed anything over.
inductive Moves (m : IOManager Sched Fiber Callback) : IOAction Sched Fiber Callback → IOManager Sched Fiber Callback → Prop where
  | refused (failed : rt ≠ 0) : Moves m (.addEvent fd event callback caller rt) (m.reserve fd)
  | added (side : Side) (found : (m.reserve fd).fdContexts[fd]? = some ctx) (unregistered : ctx.registered side = false)
      (empty : (ctx.context side).isEmpty = true) :
      Moves m (.addEvent fd side.event callback caller 0) ((m.reserve fd).register fd ctx side (caller.entry callback))
  | kept (unmet : rt ≠ 0 ∨ m.eventsAt fd &&& event = 0) : Moves m (.delEvent fd event rt) m
  | deleted (side : Side) (found : m.fdContexts[fd]? = some ctx) (registered : ctx.registered side = true) :
      Moves m (.delEvent fd side.event 0) (m.unregister fd ctx side)
  | cancelEvent (quiet : m.quiet (.cancelEvent fd event rt) = true) : Moves m (.cancelEvent fd event rt) m
  | cancelAll (quiet : m.quiet (.cancelAll fd rt) = true) : Moves m (.cancelAll fd rt) m
  | dispatch (quiet : m.quiet (.dispatch events) = true) : Moves m (.dispatch events) m

theorem addEvent_moves {fd : Nat} {event : Event} {callback : Option Callback} {caller : Caller Sched Fiber} {rt res : Int}
    (done : m.addEvent fd event callback caller rt = .ok (res,t)) :
    Moves m (.addEvent fd event callback caller rt) t := by
  unfold addEvent at done
  cases found : (m.reserve fd).fdContexts[fd]? with
  | none => simp [found] at done
  | some ctx =>
      simp only [found] at done
      split at done
      · cases done
      · rename_i unregistered
        split at done
        · rename_i failed
          cases done
          exact .refused failed
        · rename_i succeeded
          obtain ⟨side,side_ok,done⟩ := bind_ok done
          cases FdContext.getEventContext_ok side_ok
          cases Classical.not_not.mp succeeded
          split at done
          · cases done
          · rename_i filled
            have empty : (ctx.context side).isEmpty = true := by
              simpa [FdContext.context_events] using filled
            have clear : ctx.registered side = false := by
              simpa [FdContext.registered] using unregistered
            cases callback with
            | some cb =>
                cases done
                exact .added side found clear empty
            | none =>
                simp only at done
                split at done
                · cases done
                  exact .added side found clear empty
                · cases done

theorem delEvent_moves {fd : Nat} {event : Event} {rt : Int} {res : Bool}
    (done : m.delEvent fd event rt = .ok (res,t)) : Moves m (.delEvent fd event rt) t := by
  unfold delEvent at done
  cases found : m.fdContexts[fd]? with
  | none =>
      simp only [found] at done
      cases done
      exact .kept (.inr (by simp [eventsAt_none found]))
  | some ctx =>
      simp only [found] at done
      split at done
      · rename_i unregistered
        cases done
        exact .kept (.inr (by rw [eventsAt_some found]; exact unregistered))
      · rename_i registered
        split at done
        · rename_i failed
          cases done
          exact .kept (.inl failed)
        · rename_i succeeded
          obtain ⟨side,side_ok,done⟩ := map_ok done
          cases FdContext.getEventContext_ok side_ok
          cases Classical.not_not.mp succeeded
          cases done
          exact .deleted side found (by simpa [FdContext.registered] using registered)

theorem cancelEvent_moves {fd : Nat} {event : Event} {rt : Int} {res : Bool}
    (done : m.cancelEvent fd event rt = .ok (res,t)) : Moves m (.cancelEvent fd event rt) t := by
  unfold cancelEvent at done
  cases found : m.fdContexts[fd]? with
  | none =>
      simp only [found] at done
      cases done
      exact .cancelEvent (by simp [quiet,eventsAt_none found])
  | some ctx =>
      simp only [found] at done
      split at done
      · rename_i unregistered
        cases done
        exact .cancelEvent (by simp [quiet,eventsAt_some found,unregistered])
      · split at done
        · rename_i failed
          cases done
          exact .cancelEvent (by simp [quiet,failed])
        · obtain ⟨_,triggered,_⟩ := map_ok done
          exact absurd triggered (trigger_fails fd ctx event _)

theorem cancelAll_moves {fd : Nat} {rt : Int} {res : Bool} (done : m.cancelAll fd rt = .ok (res,t)) :
    Moves m (.cancelAll fd rt) t := by
  unfold cancelAll at done
  cases found : m.fdContexts[fd]? with
  | none =>
      simp only [found] at done
      cases done
      exact .cancelAll (by simp [quiet,eventsAt_none found])
  | some ctx =>
      simp only [found] at done
      split at done
      · rename_i unregistered
        cases done
        exact .cancelAll (by simp [quiet,eventsAt_some found,unregistered])
      · rename_i registered
        split at done
        · rename_i failed
          cases done
          exact .cancelAll (by simp [quiet,failed])
        · obtain ⟨⟨after,n⟩,both,done⟩ := bind_ok done
          cases (triggerBoth_ok both).1
          simp only [registered] at done
          cases done

theorem realEvents_mask (ctx : FdContext Sched Fiber Callback) (events : BitVec 32) :
    ∃ all, all = (if events &&& (epollErr ||| epollHup) ≠ 0 then events ||| (epollIn ||| epollOut) &&& ctx.events
        else events) ∧
      realEvents ctx events = Event.mask (decide (all &&& epollIn ≠ 0)) (decide (all &&& epollOut ≠ 0)) := by
  refine ⟨_,rfl,?_⟩
  simp [realEvents,Event.mask]

theorem realEvents_zero {ctx : FdContext Sched Fiber Callback} {events : BitVec 32}
    (noRead : realEvents ctx events &&& Event.read = 0) (noWrite : realEvents ctx events &&& Event.write = 0) :
    realEvents ctx events = 0 := by
  obtain ⟨all,_,real⟩ := realEvents_mask ctx events
  rw [real] at noRead noWrite ⊢
  revert noRead noWrite
  cases decide (all &&& epollIn ≠ 0) <;> cases decide (all &&& epollOut ≠ 0) <;> decide

theorem dispatchOne_ok {e : Readiness} (done : m.dispatchOne e = .ok t) : t = m ∧ quietOne m e = true := by
  cases e with
  | tickle =>
      cases done
      exact ⟨rfl,rfl⟩
  | ready fd events rt2 =>
      unfold dispatchOne at done
      cases found : m.fdContexts[fd]? with
      | none => simp [found] at done
      | some ctx =>
          simp only [found] at done
          split at done
          · rename_i missed
            cases done
            exact ⟨rfl,by simp [quietOne,found,show ctx.events &&& realEvents ctx events = 0 from missed]⟩
          · rename_i hit
            split at done
            · rename_i failed
              cases done
              exact ⟨rfl,by simp [quietOne,failed]⟩
            · obtain ⟨⟨after,n⟩,both,_⟩ := map_ok done
              obtain ⟨_,noRead,noWrite⟩ := triggerBoth_ok both
              rw [realEvents_zero noRead noWrite] at hit
              exact absurd (by simp [Event.none]) hit

theorem dispatch_ok {events : List Readiness} (done : m.dispatch events = .ok t) :
    t = m ∧ m.quiet (.dispatch events) = true := by
  induction events with
  | nil => cases done; exact ⟨rfl,rfl⟩
  | cons e rest ih =>
      obtain ⟨n,first,later⟩ := bind_ok done
      obtain ⟨rfl,quietFirst⟩ := dispatchOne_ok first
      obtain ⟨same,quietLater⟩ := ih later
      refine ⟨same,?_⟩
      simp only [quiet] at quietLater ⊢
      rw [List.all_cons,quietFirst,quietLater]
      rfl

theorem perform_moves {a : IOAction Sched Fiber Callback} (done : m.perform a = .ok t) : Moves m a t := by
  cases a with
  | addEvent fd event callback caller rt =>
      obtain ⟨⟨res,n⟩,called,rfl⟩ := map_ok done
      exact addEvent_moves called
  | delEvent fd event rt =>
      obtain ⟨⟨res,n⟩,called,rfl⟩ := map_ok done
      exact delEvent_moves called
  | cancelEvent fd event rt =>
      obtain ⟨⟨res,n⟩,called,rfl⟩ := map_ok done
      exact cancelEvent_moves called
  | cancelAll fd rt =>
      obtain ⟨⟨res,n⟩,called,rfl⟩ := map_ok done
      exact cancelAll_moves called
  | dispatch events =>
      obtain ⟨rfl,still⟩ := dispatch_ok done
      exact .dispatch still

theorem next_moves {a : IOAction Sched Fiber Callback} (moved : next m a = some t) : Moves m a t := by
  unfold next at moved
  cases done : m.perform a with
  | error fault => rw [done] at moved; cases moved
  | ok n =>
      rw [done] at moved
      cases moved
      exact perform_moves done

-- Conversely the quiet calls complete, and change nothing.
theorem cancelEvent_quiet {fd : Nat} {event : Event} {rt : Int} (still : m.quiet (.cancelEvent fd event rt) = true) :
    m.perform (.cancelEvent fd event rt) = .ok m := by
  simp only [quiet,Bool.or_eq_true,bne_iff_ne,beq_iff_eq] at still
  cases found : m.fdContexts[fd]? with
  | none => simp [perform,cancelEvent,found,Except.map]
  | some ctx =>
      rw [eventsAt_some found] at still
      by_cases clear : ctx.events &&& event = 0
      · simp [perform,cancelEvent,found,clear,Except.map]
      · have failed : rt ≠ 0 := still.resolve_right clear
        simp [perform,cancelEvent,found,failed,Except.map]

theorem cancelAll_quiet {fd : Nat} {rt : Int} (still : m.quiet (.cancelAll fd rt) = true) :
    m.perform (.cancelAll fd rt) = .ok m := by
  simp only [quiet,Bool.or_eq_true,bne_iff_ne,beq_iff_eq] at still
  cases found : m.fdContexts[fd]? with
  | none => simp [perform,cancelAll,found,Except.map]
  | some ctx =>
      rw [eventsAt_some found] at still
      by_cases clear : ctx.events = 0
      · simp [perform,cancelAll,found,clear,Except.map]
      · have failed : rt ≠ 0 := still.resolve_right clear
        simp [perform,cancelAll,found,failed,Except.map]

theorem dispatchOne_quiet {e : Readiness} (still : m.quietOne e = true)
    (known : ∀ fd mask rt2, e = .ready fd mask rt2 → fd < m.fdContexts.length) : m.dispatchOne e = .ok m := by
  cases e with
  | tickle => rfl
  | ready fd events rt2 =>
      have found := List.getElem?_eq_getElem (known fd events rt2 rfl)
      simp only [quietOne,found,Option.all_some,Bool.or_eq_true,bne_iff_ne,beq_iff_eq] at still
      simp only [dispatchOne,found]
      split
      · rfl
      · rename_i hit
        have failed : rt2 ≠ 0 := still.resolve_right hit
        rw [if_pos failed]

theorem dispatch_quiet {events : List Readiness} (still : m.quiet (.dispatch events) = true)
    (known : ∀ fd mask rt2, Readiness.ready fd mask rt2 ∈ events → fd < m.fdContexts.length) :
    m.dispatch events = .ok m := by
  induction events with
  | nil => rfl
  | cons e rest ih =>
      simp only [quiet,List.all_cons,Bool.and_eq_true] at still
      have first : m.dispatchOne e = .ok m := by
        apply dispatchOne_quiet still.1
        intro fd mask rt2 equal
        exact known fd mask rt2 (by simp [equal])
      have later := ih still.2 fun fd mask rt2 member => known fd mask rt2 (List.mem_cons_of_mem _ member)
      simp only [dispatch,first,Except.bind]
      exact later

end IOManager
end Fishjoy
