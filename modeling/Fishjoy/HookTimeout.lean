import Fishjoy.Foundation.Transition

namespace Fishjoy.HookTimeout
open Transition

-- The fiber in `do_io` or `connect_with_timeout`: `refused` is behind `EAGAIN` or
-- `EINPROGRESS`, `failed` behind an `addEvent` that failed, `resumed` behind its
-- `yield`, and `disarmed` before the test of `cancelled`.
inductive Phase where
  | calling
  | refused
  | timed
  | failed
  | added
  | parked
  | resumed
  | disarmed
  | returned
  deriving DecidableEq

-- The callbacks of the call's timers are counted: taken from the timers and to
-- be run, behind the test of `cancelled`, and behind its assignment. `registered`
-- is the event of the call, and `wakeup` says that its fiber is scheduled.
structure State where
  phase : Phase
  armed : Bool
  collected : Nat
  tested : Nat
  cancelling : Nat
  cancelled : Bool
  registered : Bool
  wakeup : Bool
  deriving DecidableEq

inductive Action where
  | attempt (again : Bool)
  | addConditionTimer
  | addEvent (rt : Int)
  | yield
  | resume
  | cancelTimer
  | finish
  | collect
  | lock
  | assign
  | cancelEvent (rt : Int)
  | dispatch (rt : Int)

namespace State

def initial : State := ⟨.calling,false,0,0,0,false,false,false⟩

-- The pointer to `tinfo` that the fiber or a running callback holds.
def alive (s : State) : Bool := s.phase != .returned || decide (0 < s.tested+s.cancelling)

-- The fiber is handed to its scheduler. The assertion at the start of
-- `triggerEvent` ends the process in the code; with `triggers` it holds.
def trigger (triggers : Bool) (s : State) : Option State :=
  if triggers then some {s with registered := false,wakeup := true} else none

end State

-- `retries` tells `do_io`, which calls again, from `connect_with_timeout`. What
-- `epoll_ctl` returns is an input.
def next (retries triggers : Bool) (s : State) : Action → Option State
  | .attempt again =>
    if s.phase = .calling then some {s with phase := if again then .refused else .returned} else none
  | .addConditionTimer => if s.phase = .refused then some {s with phase := .timed,armed := true} else none
  | .addEvent rt =>
    if s.phase = .timed then
      some (if rt ≠ 0 then {s with phase := .failed} else {s with phase := .added,registered := true})
    else none
  | .yield => if s.phase = .added then some {s with phase := .parked} else none
  | .resume => if s.phase = .parked ∧ s.wakeup = true then some {s with phase := .resumed,wakeup := false} else none
  | .cancelTimer =>
    match s.phase with
    | .failed => some {s with phase := .returned,armed := false}
    | .resumed => some {s with phase := .disarmed,armed := false}
    | _ => none
  | .finish =>
    if s.phase = .disarmed then some {s with phase := if s.cancelled || !retries then .returned else .calling} else none
  | .collect => if s.armed then some {s with armed := false,collected := s.collected+1} else none
  | .lock =>
    if 0 < s.collected then
      some {s with collected := s.collected-1,tested := if s.alive && !s.cancelled then s.tested+1 else s.tested}
    else none
  | .assign =>
    if 0 < s.tested then some {s with cancelled := true,tested := s.tested-1,cancelling := s.cancelling+1} else none
  | .cancelEvent rt =>
    if 0 < s.cancelling then
      let s := {s with cancelling := s.cancelling-1}
      if !s.registered || decide (rt ≠ 0) then some s else s.trigger triggers
    else none
  | .dispatch rt => if !s.registered || decide (rt ≠ 0) then some s else s.trigger triggers

-- The fiber sleeps, its time is over, and nothing is under way that would wake
-- it: no task, and no callback that has its `cancelEvent` before it.
structure Lost (s : State) : Prop where
  parked : s.phase = .parked
  registered : s.registered = true
  cancelled : s.cancelled = true
  wakeup : s.wakeup = false
  callbacks : s.tested+s.cancelling = 0

-- The callback does not come to its end before the fiber yields, and the last
-- one does not fail to remove the event of the sleeping fiber.
def InTime (s : State) : Action → Prop
  | .yield => s.phase = .added → s.registered = true → s.cancelled = true → 0 < s.tested+s.cancelling
  | .cancelEvent rt => s.phase = .parked → s.registered = true → s.tested = 0 → s.cancelling = 1 → rt = 0
  | _ => True

def Phase.waiting : Phase → Bool
  | .added | .parked => true
  | _ => false

-- While the fiber waits it is registered or scheduled, and only then.
structure Valid (s : State) : Prop where
  waiting : s.phase.waiting = (s.registered || s.wakeup)
  once : s.registered = true → s.wakeup = false
  assigned : 0 < s.cancelling → s.cancelled = true
  pending : s.phase = .parked → s.registered = true → s.cancelled = true → 0 < s.tested+s.cancelling

theorem initial_valid : Valid .initial := ⟨rfl,nofun,nofun,nofun⟩

theorem not_lost (valid : Valid s) : ¬Lost s := by
  intro lost
  have pending := valid.pending lost.parked lost.registered lost.cancelled
  exact absurd lost.callbacks (Nat.ne_of_gt pending)

variable {retries triggers : Bool} {s s' : State}

theorem trigger_valid (waiting : s.phase.waiting = (s.registered || s.wakeup))
    (assigned : 0 < s.cancelling → s.cancelled = true) (registered : s.registered = true)
    (moved : s.trigger triggers = some s') : Valid s' := by
  obtain ⟨_,same⟩ := Option.ite_none_right_eq_some.mp moved
  cases same
  refine ⟨?_,nofun,assigned,nofun⟩
  rw [waiting,registered]
  rfl

theorem registered_of_some {rt : Int} (something : ¬(!s.registered || decide (rt ≠ 0)) = true) : s.registered = true := by
  cases registered : s.registered with
  | false => exact absurd (by rw [registered]; rfl) something
  | true => rfl

-- A step of the fiber that neither begins nor ends its waiting.
theorem running_valid (valid : Valid s) (phase : Phase) (armed : Bool) (before : s.phase.waiting = false)
    (after : phase.waiting = false) : Valid {s with phase := phase,armed := armed} := by
  refine ⟨?_,valid.once,valid.assigned,?_⟩
  · rw [after,←before]
    exact valid.waiting
  · rintro rfl
    cases after

theorem addEvent_valid (valid : Valid s) (moved : next retries triggers s (.addEvent rt) = some s') : Valid s' := by
  obtain ⟨timed,same⟩ := Option.ite_none_right_eq_some.mp moved
  cases same
  have idle : s.phase.waiting = false := by rw [timed]; rfl
  by_cases failed : rt ≠ 0
  · rw [if_pos failed]
    exact running_valid valid .failed s.armed idle rfl
  · rw [if_neg failed]
    have nothing := valid.waiting
    rw [idle] at nothing
    exact ⟨rfl,fun _ => (Bool.or_eq_false_iff.mp nothing.symm).2,valid.assigned,nofun⟩

theorem yield_valid (valid : Valid s) (inTime : InTime s .yield) (moved : next retries triggers s .yield = some s') :
    Valid s' := by
  obtain ⟨added,same⟩ := Option.ite_none_right_eq_some.mp moved
  cases same
  have waiting := valid.waiting
  rw [added] at waiting
  exact ⟨waiting,valid.once,valid.assigned,fun _ => inTime added⟩

theorem resume_valid (valid : Valid s) (moved : next retries triggers s .resume = some s') : Valid s' := by
  obtain ⟨⟨_,wakeup⟩,same⟩ := Option.ite_none_right_eq_some.mp moved
  cases same
  have removed : s.registered = false := by
    cases registered : s.registered with
    | false => rfl
    | true =>
        have quiet := valid.once registered
        rw [wakeup] at quiet
        cases quiet
  refine ⟨?_,fun _ => rfl,valid.assigned,nofun⟩
  rw [removed]
  rfl

theorem cancelTimer_valid (valid : Valid s) (moved : next retries triggers s .cancelTimer = some s') : Valid s' := by
  cases phaseEq : s.phase with
  | failed =>
      simp only [next,phaseEq] at moved
      cases moved
      exact running_valid valid .returned false (by rw [phaseEq]; rfl) rfl
  | resumed =>
      simp only [next,phaseEq] at moved
      cases moved
      exact running_valid valid .disarmed false (by rw [phaseEq]; rfl) rfl
  | _ => simp only [next,phaseEq] at moved; cases moved

theorem lock_valid (valid : Valid s) (moved : next retries triggers s .lock = some s') : Valid s' := by
  obtain ⟨_,same⟩ := Option.ite_none_right_eq_some.mp moved
  cases same
  refine ⟨valid.waiting,valid.once,valid.assigned,?_⟩
  intro parked registered cancelled
  have before := valid.pending parked registered cancelled
  simp only
  split <;> omega

theorem assign_valid (valid : Valid s) (moved : next retries triggers s .assign = some s') : Valid s' := by
  obtain ⟨_,same⟩ := Option.ite_none_right_eq_some.mp moved
  cases same
  exact ⟨valid.waiting,valid.once,fun _ => rfl,fun _ _ _ => by simp only; omega⟩

theorem cancelEvent_valid (valid : Valid s) (inTime : InTime s (.cancelEvent rt))
    (moved : next retries triggers s (.cancelEvent rt) = some s') : Valid s' := by
  obtain ⟨called,moved⟩ := Option.ite_none_right_eq_some.mp moved
  have assigned : 0 < s.cancelling-1 → s.cancelled = true := fun _ => valid.assigned called
  by_cases nothing : !s.registered || decide (rt ≠ 0)
  · simp only [if_pos nothing] at moved
    cases moved
    refine ⟨valid.waiting,valid.once,assigned,?_⟩
    intro parked (registered : s.registered = true) _
    have error : rt ≠ 0 := by simpa [registered] using nothing
    refine Classical.byContradiction fun last => error (inTime parked registered ?_ ?_)
    all_goals simp only at last; omega
  · simp only [if_neg nothing] at moved
    exact trigger_valid (s := {s with cancelling := s.cancelling-1}) valid.waiting assigned (registered_of_some nothing) moved

theorem dispatch_valid (valid : Valid s) (moved : next retries triggers s (.dispatch rt) = some s') : Valid s' := by
  by_cases nothing : !s.registered || decide (rt ≠ 0)
  · simp only [next,if_pos nothing] at moved
    cases moved
    exact valid
  · simp only [next,if_neg nothing] at moved
    exact trigger_valid valid.waiting valid.assigned (registered_of_some nothing) moved

theorem valid_step (valid : Valid s) (inTime : InTime s a) (moved : next retries triggers s a = some s') : Valid s' := by
  cases a with
  | attempt again =>
      obtain ⟨calling,same⟩ := Option.ite_none_right_eq_some.mp moved
      cases same
      exact running_valid valid _ s.armed (by rw [calling]; rfl) (by cases again <;> rfl)
  | addConditionTimer =>
      obtain ⟨refused,same⟩ := Option.ite_none_right_eq_some.mp moved
      cases same
      exact running_valid valid .timed true (by rw [refused]; rfl) rfl
  | addEvent rt => exact addEvent_valid valid moved
  | yield => exact yield_valid valid inTime moved
  | resume => exact resume_valid valid moved
  | cancelTimer => exact cancelTimer_valid valid moved
  | finish =>
      obtain ⟨disarmed,same⟩ := Option.ite_none_right_eq_some.mp moved
      cases same
      exact running_valid valid _ s.armed (by rw [disarmed]; rfl) (by split <;> rfl)
  | collect =>
      obtain ⟨_,same⟩ := Option.ite_none_right_eq_some.mp moved
      cases same
      exact ⟨valid.waiting,valid.once,valid.assigned,valid.pending⟩
  | lock => exact lock_valid valid moved
  | assign => exact assign_valid valid moved
  | cancelEvent rt => exact cancelEvent_valid valid inTime moved
  | dispatch rt => exact dispatch_valid valid moved

theorem inTime_of_not_lost (valid : Valid s) (after : ∀ s', next retries triggers s a = some s' → ¬Lost s') :
    InTime s a := by
  cases a with
  | yield =>
      intro added registered cancelled
      refine Nat.pos_of_ne_zero fun spent => ?_
      exact after _ (if_pos added) ⟨rfl,registered,cancelled,valid.once registered,spent⟩
  | cancelEvent rt =>
      intro parked registered untested last
      apply Classical.byContradiction
      intro error
      have moved : next retries triggers s (.cancelEvent rt) = some {s with cancelling := s.cancelling-1} := by
        have called : 0 < s.cancelling := by omega
        have nothing : (!s.registered || decide (rt ≠ 0)) = true := by simp [error]
        simp only [next]
        rw [if_pos called,if_pos nothing]
      have cancelled := valid.assigned (by omega)
      exact after _ moved ⟨parked,registered,cancelled,valid.once registered,by simp only; omega⟩
  | _ => trivial

theorem inTime_exactly (retries triggers : Bool) (actions : List Action) :
    Throughout (next retries triggers) (fun s => ¬Lost s) .initial actions ↔
      Along (next retries triggers) InTime .initial actions :=
  throughout_exactly initial_valid (fun _ => not_lost) (fun _ _ _ => valid_step) fun _ _ => inTime_of_not_lost

-- Each callback finds the event and removes it.
def Found (s : State) : Action → Prop
  | .cancelEvent rt => s.registered = true ∧ rt = 0
  | _ => True

def Phase.behindEvent : Phase → Bool
  | .calling | .refused | .timed | .failed => false
  | _ => true

-- The end of the time is still to be told, or the fiber will see it.
def Told (s : State) : Prop :=
  s.cancelled = true → 0 < s.cancelling ∨ s.registered = false ∧ s.phase.behindEvent = true

theorem inTime_of_found (told : Told s) (found : Found s a) : InTime s a := by
  cases a with
  | yield =>
      intro _ registered cancelled
      rcases told cancelled with called | ⟨removed,_⟩
      · omega
      · rw [registered] at removed
        cases removed
  | cancelEvent rt => exact fun _ _ _ _ => found.2
  | _ => trivial

-- A step of the fiber before its event is registered, or behind that.
theorem told_phase (told : Told s) (phase : Phase) (armed registered wakeup : Bool)
    (later : s.registered = false → s.phase.behindEvent = true → registered = false ∧ phase.behindEvent = true) :
    Told {s with phase := phase,armed := armed,registered := registered,wakeup := wakeup} := by
  intro cancelled
  rcases told cancelled with called | ⟨removed,behind⟩
  · exact .inl called
  · exact .inr (later removed behind)

theorem told_trigger {s : State} (waiting : s.phase.waiting = true) (moved : s.trigger triggers = some s') : Told s' := by
  obtain ⟨_,same⟩ := Option.ite_none_right_eq_some.mp moved
  cases same
  intro _
  refine .inr ⟨rfl,?_⟩
  revert waiting
  cases s.phase <;> decide

theorem waiting_of_registered (valid : Valid s) (registered : s.registered = true) : s.phase.waiting = true := by
  rw [valid.waiting,registered]
  rfl

theorem told_step (valid : Valid s) (told : Told s) (found : Found s a) (moved : next retries triggers s a = some s') :
    Told s' := by
  cases a with
  | attempt again =>
      obtain ⟨calling,same⟩ := Option.ite_none_right_eq_some.mp moved
      cases same
      exact told_phase told _ s.armed s.registered s.wakeup fun _ behind => by rw [calling] at behind; cases behind
  | addConditionTimer =>
      obtain ⟨refused,same⟩ := Option.ite_none_right_eq_some.mp moved
      cases same
      exact told_phase told .timed true s.registered s.wakeup fun _ behind => by rw [refused] at behind; cases behind
  | addEvent rt =>
      obtain ⟨timed,same⟩ := Option.ite_none_right_eq_some.mp moved
      cases same
      have before : s.phase.behindEvent = false := by rw [timed]; rfl
      by_cases failed : rt ≠ 0
      · rw [if_pos failed]
        exact told_phase told .failed s.armed s.registered s.wakeup fun _ behind => by rw [before] at behind; cases behind
      · rw [if_neg failed]
        exact told_phase told .added s.armed true s.wakeup fun _ behind => by rw [before] at behind; cases behind
  | yield =>
      obtain ⟨_,same⟩ := Option.ite_none_right_eq_some.mp moved
      cases same
      exact told_phase told .parked s.armed s.registered s.wakeup fun removed _ => ⟨removed,rfl⟩
  | resume =>
      obtain ⟨_,same⟩ := Option.ite_none_right_eq_some.mp moved
      cases same
      exact told_phase told .resumed s.armed s.registered false fun removed _ => ⟨removed,rfl⟩
  | cancelTimer =>
      cases phaseEq : s.phase with
      | failed =>
          simp only [next,phaseEq] at moved
          cases moved
          exact told_phase told .returned false s.registered s.wakeup fun removed _ => ⟨removed,rfl⟩
      | resumed =>
          simp only [next,phaseEq] at moved
          cases moved
          exact told_phase told .disarmed false s.registered s.wakeup fun removed _ => ⟨removed,rfl⟩
      | _ => simp only [next,phaseEq] at moved; cases moved
  | finish =>
      obtain ⟨_,same⟩ := Option.ite_none_right_eq_some.mp moved
      cases same
      intro (cancelled : s.cancelled = true)
      rcases told cancelled with called | ⟨removed,_⟩
      · exact .inl called
      · exact .inr ⟨removed,by rw [cancelled]; rfl⟩
  | collect | lock =>
      obtain ⟨_,same⟩ := Option.ite_none_right_eq_some.mp moved
      cases same
      exact told
  | assign =>
      obtain ⟨_,same⟩ := Option.ite_none_right_eq_some.mp moved
      cases same
      exact fun _ => .inl (Nat.succ_pos _)
  | cancelEvent rt =>
      obtain ⟨registered,rfl⟩ := found
      obtain ⟨_,moved⟩ := Option.ite_none_right_eq_some.mp moved
      have something : ¬(!s.registered || decide ((0 : Int) ≠ 0)) = true := by rw [registered]; decide
      have waiting := waiting_of_registered valid registered
      simp only [if_neg something] at moved
      exact told_trigger (s := {s with cancelling := s.cancelling-1}) waiting moved
  | dispatch rt =>
      by_cases nothing : !s.registered || decide (rt ≠ 0)
      · simp only [next,if_pos nothing] at moved
        cases moved
        exact told
      · simp only [next,if_neg nothing] at moved
        exact told_trigger (waiting_of_registered valid (registered_of_some nothing)) moved

-- A timeout gets lost only by a callback that comes too early or fails.
theorem timeout_kept (retries triggers : Bool) (actions : List Action)
    (found : Along (next retries triggers) Found .initial actions) :
    Throughout (next retries triggers) (fun s => ¬Lost s) .initial actions := by
  apply throughout_of_along (P := fun s => Valid s ∧ Told s) ⟨initial_valid,nofun⟩ (fun _ both => not_lost both.1) _ found
  rintro s a s' ⟨valid,told⟩ found moved
  exact ⟨valid_step valid (inTime_of_found told found) moved,told_step valid told found moved⟩

-- The timer fires, and its callback comes to its end, before `addEvent`.
def early : List Action :=
  [.attempt true,.addConditionTimer,.collect,.lock,.assign,.cancelEvent 0,.addEvent 0,.yield]

theorem timeout_lost : ¬Throughout (next true false) (fun s => ¬Lost s) .initial early ∧
    ¬Throughout (next false false) (fun s => ¬Lost s) .initial early := by
  constructor
  · intro holds
    exact holds.reached early [] (m := ⟨.parked,false,0,0,0,true,true,false⟩) rfl ⟨rfl,rfl,rfl,rfl,rfl⟩
  · intro holds
    exact holds.reached early [] (m := ⟨.parked,false,0,0,0,true,true,false⟩) rfl ⟨rfl,rfl,rfl,rfl,rfl⟩

end Fishjoy.HookTimeout
