import Fishjoy.SchedulerQueue
import Fishjoy.Timer

namespace Fishjoy.IOManagerShutdown
open Transition Crew Scheduler

-- `loop` also covers the run of the task that `holding` records, `chosen` is the
-- branch for no task, and from `readPending` to `scheduling` the idle fiber runs:
-- between the reads of `IOManager::stopping`, in `epoll_wait`, and with the
-- collected callbacks that it has still to schedule.
inductive Phase (Callback : Type) where
  | loop
  | chosen
  | readPending (timeout : UInt64)
  | readScheduler
  | waiting
  | scheduling (cbs : List (Option Callback))
  | left

structure State (n : Nat) (Ptr Fiber Callback : Type) where
  queue : Scheduler.State n Fiber Callback
  timers : TimerManager Ptr Callback
  pendingEventCount : Int
  stopping : Bool
  phase : Fin n → Phase Callback
  idleTerm : Fin n → Bool

-- What code outside of the workers may do before `stop`, and a task at any time.
inductive Effect (Ptr Fiber Callback : Type) where
  | schedule (fc : Option (Work Fiber Callback)) (thread : Int)
  | timer (op : TimerOp Ptr Callback)
  | pending (count : Int)

-- `effect none` comes from outside, `effect (some w)` from the task of worker `w`.
inductive Action (n : Nat) (Ptr Fiber Callback : Type) where
  | effect (source : Option (Fin n)) (e : Effect Ptr Fiber Callback)
  | stop (now : UInt64)
  | dequeue (w : Fin n) (running : Nat → Bool)
  | finish (w : Fin n)
  | leave (w : Fin n)
  | readTimer (w : Fin n) (now : UInt64)
  | readPending (w : Fin n)
  | readScheduler (w : Fin n)
  | listExpiredCb (w : Fin n) (now : UInt64) (nowTimer : Ptr)
  | scheduleCb (w : Fin n)
  | yieldIdle (w : Fin n)

variable {Ptr Fiber Callback : Type} {n : Nat}

namespace State

def initial [LinearOrder Ptr] (memory : Ptr → Timer Callback) (now : UInt64) : State n Ptr Fiber Callback :=
  ⟨.initial,.initial memory now,0,false,fun _ => .loop,fun _ => false⟩

def goto (s : State n Ptr Fiber Callback) (w : Fin n) (phase : Phase Callback) : State n Ptr Fiber Callback :=
  {s with phase := Function.update s.phase w phase}

-- `Scheduler::stopping`, read under the lock.
def schedulerStopping (s : State n Ptr Fiber Callback) : Bool :=
  s.stopping && s.queue.tasks.isEmpty && s.queue.active == 0

def perform [LinearOrder Ptr] (s : State n Ptr Fiber Callback) : Effect Ptr Fiber Callback → Option (State n Ptr Fiber Callback)
  | .schedule fc thread => some {s with queue := s.queue.schedule fc thread}
  | .timer op =>
    if op.self.isSome then (TimerManager.next s.timers op).map fun timers => {s with timers := timers} else none
  | .pending count => some {s with pendingEventCount := count}

def maySource (s : State n Ptr Fiber Callback) : Option (Fin n) → Bool
  | none => !s.stopping
  | some w => (s.queue.holding w).isSome

def endIdle (s : State n Ptr Fiber Callback) (w : Fin n) : State n Ptr Fiber Callback :=
  {s.goto w .loop with idleTerm := Function.update s.idleTerm w true}

end State

def next [LinearOrder Ptr] (tid : Fin n → Int) (s : State n Ptr Fiber Callback) :
    Action n Ptr Fiber Callback → Option (State n Ptr Fiber Callback)
  | .effect source e => if s.maySource source then s.perform e else none
  | .stop now => some {s with timers := (s.timers.getNextTimer now).2, stopping := true}
  | .dequeue w running =>
    match s.phase w with
    | .loop =>
      if (s.queue.holding w).isNone then
        let d := dequeue (tid w) running s.queue.tasks
        some ({s with queue := s.queue.take w d}.goto w (if d.task.isSome then .loop else .chosen))
      else none
    | _ => none
  | .finish w => (s.queue.holding w).map fun t => {s with queue := s.queue.finish w t}
  | .leave w =>
    match s.phase w with
    | .chosen => if s.idleTerm w then some (s.goto w .left) else none
    | _ => none
  | .readTimer w now =>
    match s.phase w with
    | .chosen =>
      if s.idleTerm w then none
      else
        let (timeout,timers) := s.timers.getNextTimer now
        some ({s with timers := timers}.goto w (.readPending timeout))
    | _ => none
  | .readPending w =>
    match s.phase w with
    | .readPending timeout =>
      some (s.goto w (if timeout == ~~~0 && s.pendingEventCount == 0 then .readScheduler else .waiting))
    | _ => none
  | .readScheduler w =>
    match s.phase w with
    | .readScheduler => some (if s.schedulerStopping then s.endIdle w else s.goto w .waiting)
    | _ => none
  | .listExpiredCb w now nowTimer =>
    match s.phase w with
    | .waiting =>
      let expiry := s.timers.listExpiredCb now nowTimer
      some ({s with timers := expiry.manager}.goto w (.scheduling expiry.cbs))
    | _ => none
  | .scheduleCb w =>
    match s.phase w with
    | .scheduling (cb :: rest) =>
      some ({s with queue := s.queue.schedule (cb.map .callback) (-1)}.goto w (.scheduling rest))
    | _ => none
  | .yieldIdle w =>
    match s.phase w with
    | .scheduling [] => some (s.goto w .loop)
    | _ => none

def Start [LinearOrder Ptr] (s : State n Ptr Fiber Callback) : Prop := ∃ memory now, s = .initial memory now

-- The third read that ends the last idle fiber finds the set of timers as the
-- first read did: empty.
def lastClean (s : State n Ptr Fiber Callback) : Action n Ptr Fiber Callback → Bool
  | .readScheduler w =>
    match s.phase w with
    | .readScheduler =>
      !s.schedulerStopping || decide (∃ v, v ≠ w ∧ s.idleTerm v = false) || s.timers.timers.isEmpty
    | _ => true
  | _ => true

def Phase.resting : Phase Callback → Bool
  | .loop | .chosen | .left => true
  | _ => false

def AllEnded (s : State n Ptr Fiber Callback) : Prop := ∀ w, s.idleTerm w = true

structure Drained (s : State n Ptr Fiber Callback) : Prop where
  stopping : s.stopping = true
  tasks : s.queue.tasks = []
  holding : ∀ w, s.queue.holding w = none

structure Closing (s : State n Ptr Fiber Callback) : Prop where
  left : ∀ w, s.phase w = .left → s.idleTerm w = true
  resting : ∀ w, s.idleTerm w = true → (s.phase w).resting = true
  drained : AllEnded s → Drained s

-- What a step does to the fields that the ended idle fibers depend on.
inductive Moves [LinearOrder Ptr] (tid : Fin n → Int) (s : State n Ptr Fiber Callback) :
    Action n Ptr Fiber Callback → State n Ptr Fiber Callback → Prop where
  | effect (may : s.maySource source = true) (done : s.perform e = some u) : Moves tid s (.effect source e) u
  | stop : Moves tid s (.stop now) {s with timers := (s.timers.getNextTimer now).2, stopping := true}
  | dequeue (inLoop : s.phase w = .loop) (free : s.queue.holding w = none) :
      Moves tid s (.dequeue w running) ({s with queue := s.queue.take w (dequeue (tid w) running s.queue.tasks)}.goto w
        (if (dequeue (tid w) running s.queue.tasks).task.isSome then .loop else .chosen))
  | finish (held : s.queue.holding w = some t) : Moves tid s (.finish w) {s with queue := s.queue.finish w t}
  | leave (chosen : s.phase w = .chosen) (term : s.idleTerm w = true) : Moves tid s (.leave w) (s.goto w .left)
  | readTimer (chosen : s.phase w = .chosen) (runs : s.idleTerm w = false) : Moves tid s (.readTimer w now)
      ({s with timers := (s.timers.getNextTimer now).2}.goto w (.readPending (s.timers.getNextTimer now).1))
  | readPending (reading : s.phase w = .readPending timeout) (phase : Phase Callback)
      (other : phase = .readScheduler ∨ phase = .waiting) : Moves tid s (.readPending w) (s.goto w phase)
  | wait (reading : s.phase w = .readScheduler) (goes : s.schedulerStopping = false) :
      Moves tid s (.readScheduler w) (s.goto w .waiting)
  | endIdle (reading : s.phase w = .readScheduler) (stops : s.schedulerStopping = true) :
      Moves tid s (.readScheduler w) (s.endIdle w)
  | listExpiredCb (waiting : s.phase w = .waiting) : Moves tid s (.listExpiredCb w now nowTimer)
      ({s with timers := (s.timers.listExpiredCb now nowTimer).manager}.goto w
        (.scheduling (s.timers.listExpiredCb now nowTimer).cbs))
  | scheduleCb (holds : s.phase w = .scheduling (cb :: rest)) : Moves tid s (.scheduleCb w)
      ({s with queue := s.queue.schedule (cb.map .callback) (-1)}.goto w (.scheduling rest))
  | yieldIdle (done : s.phase w = .scheduling []) : Moves tid s (.yieldIdle w) (s.goto w .loop)

section Frames
variable {tid : Fin n → Int} {s : State n Ptr Fiber Callback} {w : Fin n}

theorem schedulerStopping_drained (active : s.queue.active = tally Option.isSome s.queue.holding)
    (stops : s.schedulerStopping = true) : Drained s := by
  simp only [State.schedulerStopping,Bool.and_eq_true,beq_iff_eq,List.isEmpty_iff] at stops
  obtain ⟨⟨stopping,tasks⟩,zero⟩ := stops
  exact ⟨stopping,tasks,nobody_holds active zero⟩

-- A worker goes on within `Scheduler::run` or within its idle fiber.
theorem goto_closing (closing : Closing s) {q : Phase Callback} (left : q = .left → s.idleTerm w = true)
    (resting : s.idleTerm w = true → q.resting = true) : Closing (s.goto w q) := by
  refine ⟨?_,?_,?_⟩
  · intro v gone
    rcases update_cases gone with ⟨rfl,equal⟩ | ⟨_,before⟩
    · exact left equal
    · exact closing.left v before
  · intro v term
    by_cases same : v = w
    · subst v
      simpa [State.goto] using resting term
    · simpa [State.goto,same] using closing.resting v term
  · intro ended
    have drained := closing.drained ended
    exact ⟨drained.stopping,drained.tasks,drained.holding⟩

theorem running_closing (closing : Closing s) {q : Phase Callback} (runs : s.idleTerm w = false) (stays : q ≠ .left) :
    Closing (s.goto w q) := by
  apply goto_closing closing (fun gone => absurd gone stays)
  intro term
  rw [runs] at term; cases term

theorem idle_running (closing : Closing s) (inside : (s.phase w).resting = false) : s.idleTerm w = false := by
  cases term : s.idleTerm w with
  | false => rfl
  | true => rw [closing.resting w term] at inside; cases inside

theorem inside_unended (closing : Closing s) (inside : (s.phase w).resting = false) : ¬AllEnded s := by
  intro ended
  have term := ended w
  rw [idle_running closing inside] at term; cases term

theorem timers_closing (closing : Closing s) (timers : TimerManager Ptr Callback) : Closing {s with timers := timers} := by
  refine ⟨closing.left,closing.resting,?_⟩
  intro ended
  have drained := closing.drained ended
  exact ⟨drained.stopping,drained.tasks,drained.holding⟩

-- Nothing can add to a drained scheduler.
theorem maySource_drained (drained : Drained s) (source : Option (Fin n)) : s.maySource source = false := by
  cases source with
  | none => simp [State.maySource,drained.stopping]
  | some w => simp [State.maySource,drained.holding w]

theorem queue_closing (closing : Closing s) {queue : Scheduler.State n Fiber Callback}
    (drained : Drained s → queue.tasks = [] ∧ ∀ w, queue.holding w = none) : Closing {s with queue := queue} := by
  refine ⟨closing.left,closing.resting,?_⟩
  intro ended
  have before := closing.drained ended
  exact ⟨before.stopping,(drained before).1,(drained before).2⟩

theorem endIdle_closing (closing : Closing s) (drained : Drained s) : Closing (s.endIdle w) := by
  refine ⟨?_,?_,fun _ => ⟨drained.stopping,drained.tasks,drained.holding⟩⟩
  · intro v gone
    rcases update_cases gone with ⟨_,loops⟩ | ⟨other,before⟩
    · cases loops
    · simpa [State.endIdle,other] using closing.left v before
  · intro v term
    by_cases same : v = w
    · subst v
      simp [State.endIdle,State.goto,Phase.resting]
    · simp only [State.endIdle,State.goto,Function.update_of_ne same] at term ⊢
      exact closing.resting v term

end Frames

section Steps
variable [LinearOrder Ptr] {tid : Fin n → Int} {s u : State n Ptr Fiber Callback} {w : Fin n}
  {a : Action n Ptr Fiber Callback}

theorem next_moves (moved : next tid s a = some u) : Moves tid s a u := by
  cases a with
  | effect source e =>
      simp only [next,Option.ite_none_right_eq_some] at moved
      exact .effect moved.1 moved.2
  | stop now => cases moved; exact .stop
  | dequeue w running =>
      cases inLoop : s.phase w with
      | loop =>
          simp only [next,inLoop,Option.ite_none_right_eq_some,Option.some.injEq,Option.isNone_iff_eq_none] at moved
          obtain ⟨free,rfl⟩ := moved
          exact .dequeue inLoop free
      | _ => simp [next,inLoop] at moved
  | finish w =>
      obtain ⟨t,held,rfl⟩ := Option.map_eq_some_iff.mp moved
      exact .finish held
  | leave w =>
      cases chosen : s.phase w with
      | chosen =>
          simp only [next,chosen,Option.ite_none_right_eq_some,Option.some.injEq] at moved
          obtain ⟨term,rfl⟩ := moved
          exact .leave chosen term
      | _ => simp [next,chosen] at moved
  | readTimer w now =>
      cases chosen : s.phase w with
      | chosen =>
          simp only [next,chosen,Option.ite_none_left_eq_some,Option.some.injEq,Bool.not_eq_true] at moved
          obtain ⟨runs,rfl⟩ := moved
          exact .readTimer chosen runs
      | _ => simp [next,chosen] at moved
  | readPending w =>
      cases reading : s.phase w with
      | readPending timeout =>
          simp only [next,reading,Option.some.injEq] at moved
          rw [←moved]
          refine .readPending reading _ ?_
          split
          · exact .inl rfl
          · exact .inr rfl
      | _ => simp [next,reading] at moved
  | readScheduler w =>
      cases reading : s.phase w with
      | readScheduler =>
          simp only [next,reading,Option.some.injEq] at moved
          rw [←moved]
          split
          · rename_i stops
            exact .endIdle reading stops
          · rename_i goes
            exact .wait reading (by simpa using goes)
      | _ => simp [next,reading] at moved
  | listExpiredCb w now nowTimer =>
      cases waiting : s.phase w with
      | waiting =>
          simp only [next,waiting,Option.some.injEq] at moved
          rw [←moved]
          exact .listExpiredCb waiting
      | _ => simp [next,waiting] at moved
  | scheduleCb w =>
      cases holds : s.phase w with
      | scheduling cbs =>
          cases cbs with
          | nil => simp [next,holds] at moved
          | cons cb rest =>
              simp only [next,holds,Option.some.injEq] at moved
              rw [←moved]
              exact .scheduleCb holds
      | _ => simp [next,holds] at moved
  | yieldIdle w =>
      cases done : s.phase w with
      | scheduling cbs =>
          cases cbs with
          | nil =>
              simp only [next,done,Option.some.injEq] at moved
              rw [←moved]
              exact .yieldIdle done
          | cons cb rest => simp [next,done] at moved
      | _ => simp [next,done] at moved

theorem perform_frame {e : Effect Ptr Fiber Callback} (done : s.perform e = some u) :
    u.phase = s.phase ∧ u.idleTerm = s.idleTerm ∧ (u.queue = s.queue ∨
      ∃ fc thread, u.queue = s.queue.schedule fc thread) := by
  cases e with
  | schedule fc thread =>
      cases done
      exact ⟨rfl,rfl,.inr ⟨fc,thread,rfl⟩⟩
  | timer op =>
      simp only [State.perform,Option.ite_none_right_eq_some] at done
      obtain ⟨timers,_,rfl⟩ := Option.map_eq_some_iff.mp done.2
      exact ⟨rfl,rfl,.inl rfl⟩
  | pending count =>
      cases done
      exact ⟨rfl,rfl,.inl rfl⟩

theorem moves_queue (moves : Moves tid s a u) :
    u.queue = s.queue ∨ ∃ b, Scheduler.next tid s.queue b = some u.queue := by
  cases moves with
  | effect may done =>
      rcases (perform_frame done).2.2 with same | ⟨fc,thread,scheduled⟩
      · exact .inl same
      · exact .inr ⟨.schedule fc thread,congrArg some scheduled.symm⟩
  | @dequeue w running inLoop free => exact .inr ⟨.dequeue w running,if_pos (by rw [free]; rfl)⟩
  | @finish w t held => exact .inr ⟨.finish w,by simp [Scheduler.next,held]⟩
  | @scheduleCb w cb rest holds => exact .inr ⟨.schedule (cb.map .callback) (-1),rfl⟩
  | _ => exact .inl rfl

theorem reached_queue (path : Reached (next tid) anyStep Start s) :
    Reached (Scheduler.next tid) anyStep Scheduler.Start s.queue := by
  apply path.project State.queue
  · rintro s ⟨memory,now,rfl⟩
    rfl
  · exact fun _ _ _ _ moved => moves_queue (next_moves moved)

theorem moves_closing (active : s.queue.active = tally Option.isSome s.queue.holding) (closing : Closing s)
    (moves : Moves tid s a u) : Closing u := by
  cases moves with
  | effect may done =>
      obtain ⟨phase,term,_⟩ := perform_frame done
      refine ⟨?_,?_,?_⟩
      · rw [phase,term]; exact closing.left
      · rw [phase,term]; exact closing.resting
      · intro ended
        unfold AllEnded at ended
        rw [term] at ended
        rw [maySource_drained (closing.drained ended)] at may
        cases may
  | stop =>
      refine ⟨closing.left,closing.resting,?_⟩
      intro ended
      have drained := closing.drained ended
      exact ⟨rfl,drained.tasks,drained.holding⟩
  | @dequeue w running inLoop free =>
      have queue : Closing {s with queue := s.queue.take w (dequeue (tid w) running s.queue.tasks)} := by
        apply queue_closing closing
        intro drained
        rw [take_nothing (drained.holding w) drained.tasks _ running]
        exact ⟨drained.tasks,drained.holding⟩
      apply goto_closing queue
      · split <;> exact fun gone => nomatch gone
      · intro _
        split <;> rfl
  | @finish w t held =>
      apply queue_closing closing
      intro drained
      rw [drained.holding w] at held; cases held
  | leave chosen term => exact goto_closing closing (fun _ => term) fun _ => rfl
  | @readTimer w now chosen runs =>
      exact running_closing (timers_closing closing (s.timers.getNextTimer now).2) runs nofun
  | readPending reading phase other =>
      have runs := idle_running closing (by rw [reading]; rfl)
      apply running_closing closing runs
      rcases other with rfl | rfl <;> exact nofun
  | wait reading goes => exact running_closing closing (idle_running closing (by rw [reading]; rfl)) nofun
  | endIdle reading stops => exact endIdle_closing closing (schedulerStopping_drained active stops)
  | @listExpiredCb w now nowTimer waiting =>
      have runs := idle_running closing (by rw [waiting]; rfl)
      exact running_closing (timers_closing closing (s.timers.listExpiredCb now nowTimer).manager) runs nofun
  | @scheduleCb w cb rest holds =>
      have runs := idle_running closing (by rw [holds]; rfl)
      have moved := running_closing closing runs (show (.scheduling rest : Phase Callback) ≠ .left from nofun)
      refine ⟨moved.left,moved.resting,?_⟩
      intro ended
      have term : s.idleTerm w = true := ended w
      rw [runs] at term; cases term
  | yieldIdle done => exact running_closing closing (idle_running closing (by rw [done]; rfl)) nofun

theorem initial_closing (w : Fin n) (memory : Ptr → Timer Callback) (now : UInt64) :
    Closing (.initial memory now : State n Ptr Fiber Callback) := by
  refine ⟨?_,?_,?_⟩
  · intro v gone
    cases gone
  · exact fun _ _ => rfl
  · intro ended
    cases ended w

theorem reached_closing (w : Fin n) (path : Reached (next tid) anyStep Start s) : Closing s := by
  classical
  induction path with
  | start begins =>
      obtain ⟨memory,now,rfl⟩ := begins
      exact initial_closing w memory now
  | step prior _ moved ih =>
      exact moves_closing (reached_conserved (reached_queue prior)).active ih (next_moves moved)

-- Once every idle fiber has ended, no code runs that could arm a timer.
theorem ended_frozen (closing : Closing s) (ended : AllEnded s) (moves : Moves tid s a u) :
    AllEnded u ∧ u.timers.timers = s.timers.timers := by
  cases moves with
  | effect may done =>
      rw [maySource_drained (closing.drained ended)] at may
      cases may
  | stop => exact ⟨ended,by rw [TimerManager.getNextTimer_frame]⟩
  | dequeue | finish | leave => exact ⟨ended,rfl⟩
  | @readTimer w now chosen runs =>
      have term := ended w
      rw [runs] at term; cases term
  | readPending inside | wait inside | endIdle inside | listExpiredCb inside | scheduleCb inside | yieldIdle inside =>
      exact absurd ended (inside_unended closing (by rw [inside]; rfl))

theorem moves_idleTerm (moves : Moves tid s a u) : (u.idleTerm = s.idleTerm ∧ lastClean s a = true) ∨
    ∃ w, a = .readScheduler w ∧ s.phase w = .readScheduler ∧ s.schedulerStopping = true ∧ u = s.endIdle w := by
  cases moves with
  | effect may done => exact .inl ⟨(perform_frame done).2.1,rfl⟩
  | wait reading goes => exact .inl ⟨rfl,by simp [lastClean,reading,goes]⟩
  | @endIdle w reading stops => exact .inr ⟨w,rfl,reading,stops,rfl⟩
  | _ => exact .inl ⟨rfl,rfl⟩

theorem lastClean_exact (closing : Closing s) (moves : Moves tid s a u) :
    lastClean s a = true ↔ (¬AllEnded s → AllEnded u → u.timers.timers = []) := by
  rcases moves_idleTerm moves with ⟨same,clean⟩ | ⟨w,rfl,reading,stops,rfl⟩
  · refine ⟨?_,fun _ => clean⟩
    intro _ before after
    unfold AllEnded at before after
    rw [same] at after
    exact absurd after before
  · have unended : ¬AllEnded s := inside_unended closing (by rw [reading]; rfl)
    by_cases others : ∃ v, v ≠ w ∧ s.idleTerm v = false
    · have clean : lastClean s (.readScheduler w) = true := by simp [lastClean,reading,others]
      refine ⟨?_,fun _ => clean⟩
      intro _ _ after
      obtain ⟨v,other,runs⟩ := others
      have term := after v
      simp only [State.endIdle,State.goto,Function.update_of_ne other,runs] at term
      cases term
    · have after : AllEnded (s.endIdle w) := by
        intro v
        by_cases same : v = w
        · subst v
          simp [State.endIdle]
        · cases term : s.idleTerm v with
          | false => exact absurd ⟨v,same,term⟩ others
          | true => simpa [State.endIdle,State.goto,same] using term
      have clean : lastClean s (.readScheduler w) = s.timers.timers.isEmpty := by
        simp [lastClean,reading,stops,others]
      rw [clean,List.isEmpty_iff]
      exact ⟨fun empty _ _ => empty,fun empty => empty unended after⟩

theorem run_timers (w : Fin n) {actions : List (Action n Ptr Fiber Callback)}
    (path : Reached (next tid) anyStep Start s) (ran : run (next tid) s actions = some u) (ended : AllEnded u) :
    u.timers.timers = [] ↔ (AllEnded s → s.timers.timers = []) ∧
      Along (next tid) (fun s a => lastClean s a = true) s actions := by
  induction actions generalizing s with
  | nil =>
      cases ran
      exact ⟨fun clean => ⟨fun _ => clean,trivial⟩,fun clean => clean.1 ended⟩
  | cons a rest ih =>
      obtain ⟨middle,moved,later⟩ := Option.bind_eq_some_iff.mp ran
      have closing := reached_closing w path
      have moves := next_moves moved
      rw [ih (.step path trivial moved) later]
      have tail : Along (next tid) (fun s a => lastClean s a = true) s (a :: rest) ↔
          lastClean s a = true ∧ Along (next tid) (fun s a => lastClean s a = true) middle rest := by
        refine and_congr_right fun _ => ?_
        rw [moved]
        simp
      rw [tail,lastClean_exact closing moves,←and_assoc]
      refine and_congr_left fun _ => ?_
      by_cases before : AllEnded s
      · obtain ⟨after,same⟩ := ended_frozen closing before moves
        rw [same]
        exact ⟨fun empty => ⟨fun _ => empty after,fun unended => absurd before unended⟩,fun empty _ => empty.1 before⟩
      · exact ⟨fun empty => ⟨fun ended => absurd ended before,fun _ => empty⟩,fun empty => empty.2 before⟩

end Steps

variable [LinearOrder Ptr] {tid : Fin (n+1) → Int} {s u : State (n+1) Ptr Fiber Callback}
  {actions : List (Action (n+1) Ptr Fiber Callback)}

theorem shutdown_complete (begins : Start s) (ran : run (next tid) s actions = some u)
    (gone : ∀ w, u.phase w = .left) :
    (u.timers.timers = [] ∧ u.queue.tasks = []) ↔
      Along (next tid) (fun s a => lastClean s a = true) s actions := by
  have closing := reached_closing 0 ((Reached.start begins).run along_any ran)
  have ended : AllEnded u := fun w => closing.left w (gone w)
  have unended : ¬AllEnded s := by
    obtain ⟨memory,now,rfl⟩ := begins
    intro ended
    cases ended 0
  rw [run_timers 0 (.start begins) ran ended]
  constructor
  · exact fun nothing => nothing.1.2
  · exact fun clean => ⟨⟨fun ended => absurd ended unended,clean⟩,(closing.drained ended).tasks⟩

-- The idle fiber of worker 0 ends while the callback that worker 1 collected is
-- in no container. Worker 0 then runs this callback, which arms a second timer
-- between the reads of worker 1.
def strandedRun : List (Action 2 Nat Nat Nat) :=
  [.effect none (.timer (.addTimer 1 10 (some 5) false 0)),.stop 0,
    .dequeue w1 fun _ => false,.readTimer w1 10,.readPending w1,.listExpiredCb w1 10 9,
    .dequeue w0 fun _ => false,.readTimer w0 10,.readPending w0,.readScheduler w0,
    .scheduleCb w1,.dequeue w0 fun _ => false,
    .yieldIdle w1,.dequeue w1 fun _ => false,.readTimer w1 11,
    .effect (some w0) (.timer (.addTimer 2 10 (some 6) false 11)),.finish w0,
    .readPending w1,.readScheduler w1,
    .dequeue w0 fun _ => false,.leave w0,.dequeue w1 fun _ => false,.leave w1]

-- Here the second timer is armed before worker 1 reads the next timer.
def servedRun : List (Action 2 Nat Nat Nat) :=
  [.effect none (.timer (.addTimer 1 10 (some 5) false 0)),.stop 0,
    .dequeue w1 fun _ => false,.readTimer w1 10,.readPending w1,.listExpiredCb w1 10 9,
    .dequeue w0 fun _ => false,.readTimer w0 10,.readPending w0,.readScheduler w0,
    .scheduleCb w1,.dequeue w0 fun _ => false,
    .effect (some w0) (.timer (.addTimer 2 10 (some 6) false 11)),.finish w0,
    .yieldIdle w1,.dequeue w1 fun _ => false,.readTimer w1 21,.readPending w1,.listExpiredCb w1 21 9,
    .scheduleCb w1,.yieldIdle w1,.dequeue w1 fun _ => false,.finish w1,
    .dequeue w1 fun _ => false,.readTimer w1 22,.readPending w1,.readScheduler w1,
    .dequeue w0 fun _ => false,.leave w0,.dequeue w1 fun _ => false,.leave w1]

def blank : State 2 Nat Nat Nat := .initial (fun _ => ⟨false,0,0,none⟩) 0

def strandedSample : State 2 Nat Nat Nat := (run (next ownId) blank strandedRun).getD blank

def servedSample : State 2 Nat Nat Nat := (run (next ownId) blank servedRun).getD blank

theorem shutdown_incomplete : ¬∀ (actions : List (Action 2 Nat Nat Nat)) (u : State 2 Nat Nat Nat),
    run (next ownId) blank actions = some u → (∀ w, u.phase w = .left) →
      u.timers.timers = [] ∧ u.queue.tasks = [] := by
  intro complete
  have ran : run (next ownId) blank strandedRun = some strandedSample := rfl
  have gone : ∀ w, strandedSample.phase w = .left := by
    intro w
    match w with
    | 0 => rfl
    | 1 => rfl
  have armed : strandedSample.timers.timers = [2] := rfl
  have empty := (complete strandedRun strandedSample ran gone).1
  rw [armed] at empty
  cases empty

theorem shutdown_complete_served : servedSample.timers.timers = [] ∧ servedSample.queue.tasks = [] := by
  have ran : run (next ownId) blank servedRun = some servedSample := rfl
  have gone : ∀ w, servedSample.phase w = .left := by
    intro w
    match w with
    | 0 => rfl
    | 1 => rfl
  exact (shutdown_complete ⟨_,0,rfl⟩ ran gone).mpr (by decide)

end Fishjoy.IOManagerShutdown
