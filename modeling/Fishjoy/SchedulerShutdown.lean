import Fishjoy.SchedulerQueue

namespace Fishjoy.SchedulerShutdown
open Transition Crew Scheduler
variable {Fiber Callback : Type} {n : Nat}

-- Where a worker is in `Scheduler::run`. `loop` also covers the time in which
-- it runs the task that `holding` records.
inductive Phase where
  | loop
  | idle
  | left
  deriving DecidableEq

structure State (n : Nat) (Fiber Callback : Type) where
  queue : Scheduler.State n Fiber Callback
  stopping : Bool
  phase : Fin n → Phase
  idleTerm : Fin n → Bool

-- `schedule` comes from outside the workers, `scheduleFrom` from the task that
-- worker `w` runs. `resumeIdle` is one test of `Scheduler::idle`.
inductive Action (n : Nat) (Fiber Callback : Type) where
  | schedule (fc : Option (Work Fiber Callback)) (thread : Int)
  | scheduleFrom (w : Fin n) (fc : Option (Work Fiber Callback)) (thread : Int)
  | stop
  | dequeue (w : Fin n) (running : Nat → Bool)
  | finish (w : Fin n)
  | resumeIdle (w : Fin n)
  | leave (w : Fin n)

namespace State

def initial : State n Fiber Callback := ⟨.initial,false,fun _ => .loop,fun _ => false⟩

-- `Scheduler::stopping`, read under the lock.
def isStopping (s : State n Fiber Callback) : Bool :=
  s.stopping && s.queue.tasks.isEmpty && s.queue.active == 0

def goto (s : State n Fiber Callback) (w : Fin n) (phase : Phase) : State n Fiber Callback :=
  {s with phase := Function.update s.phase w phase}

def resumeIdle (s : State n Fiber Callback) (w : Fin n) : State n Fiber Callback :=
  if s.isStopping then {s.goto w .loop with idleTerm := Function.update s.idleTerm w true} else s.goto w .loop

end State

def next (tid : Fin n → Int) (s : State n Fiber Callback) : Action n Fiber Callback → Option (State n Fiber Callback)
  | .schedule fc thread => if s.stopping then none else some {s with queue := s.queue.schedule fc thread}
  | .scheduleFrom w fc thread =>
    if (s.queue.holding w).isSome then some {s with queue := s.queue.schedule fc thread} else none
  | .stop => some {s with stopping := true}
  | .dequeue w running =>
    if s.phase w = .loop ∧ (s.queue.holding w).isNone then
      let d := dequeue (tid w) running s.queue.tasks
      some {s.goto w (if d.task.isSome then .loop else .idle) with queue := s.queue.take w d}
    else none
  | .finish w => (s.queue.holding w).map fun t => {s with queue := s.queue.finish w t}
  | .resumeIdle w => if s.phase w = .idle ∧ s.idleTerm w = false then some (s.resumeIdle w) else none
  | .leave w => if s.phase w = .idle ∧ s.idleTerm w = true then some (s.goto w .left) else none

def Start (s : State n Fiber Callback) : Prop := s = .initial

-- What remains true from the first idle fiber that ends.
structure Drained (s : State n Fiber Callback) : Prop where
  stopping : s.stopping = true
  tasks : s.queue.tasks = []
  holding : ∀ w, s.queue.holding w = none

structure Settled (s : State n Fiber Callback) : Prop where
  ended : ∀ w, s.idleTerm w = true → Drained s
  left : ∀ w, s.phase w = .left → s.idleTerm w = true

section Steps
variable {tid : Fin n → Int} {s u : State n Fiber Callback} {w : Fin n}

theorem Drained.frame (drained : Drained s) (stopping : u.stopping = s.stopping) (queue : u.queue = s.queue) :
    Drained u := by
  refine ⟨stopping.trans drained.stopping,?_,?_⟩
  · rw [queue]; exact drained.tasks
  · rw [queue]; exact drained.holding

theorem initial_settled : Settled (State.initial : State n Fiber Callback) := by
  refine ⟨?_,?_⟩
  · intro w ended
    cases ended
  · intro w left
    cases left

theorem isStopping_drained (active : s.queue.active = tally Option.isSome s.queue.holding)
    (observed : s.isStopping = true) : Drained s := by
  simp only [State.isStopping,Bool.and_eq_true,beq_iff_eq,List.isEmpty_iff] at observed
  obtain ⟨⟨stopping,tasks⟩,zero⟩ := observed
  exact ⟨stopping,tasks,nobody_holds active zero⟩

theorem goto_left {phase : Phase} (settled : Settled s) (stays : phase ≠ .left) (v : Fin n)
    (left : (s.goto w phase).phase v = .left) : s.idleTerm v = true := by
  rcases update_cases left with ⟨_,equal⟩ | ⟨_,left⟩
  · exact absurd equal stays
  · exact settled.left v left

theorem next_settled (active : s.queue.active = tally Option.isSome s.queue.holding) (settled : Settled s)
    {a : Action n Fiber Callback} (moved : next tid s a = some u) : Settled u := by
  cases a with
  | schedule fc thread =>
      simp only [next,Option.ite_none_left_eq_some,Option.some.injEq] at moved
      obtain ⟨open_,rfl⟩ := moved
      refine ⟨?_,settled.left⟩
      intro w ended
      exact absurd (settled.ended w ended).stopping open_
  | scheduleFrom w fc thread =>
      simp only [next,Option.ite_none_right_eq_some,Option.some.injEq] at moved
      obtain ⟨holds,rfl⟩ := moved
      refine ⟨?_,settled.left⟩
      intro v ended
      rw [(settled.ended v ended).holding w] at holds
      cases holds
  | stop =>
      cases moved
      refine ⟨?_,settled.left⟩
      intro w ended
      have drained := settled.ended w ended
      exact ⟨rfl,drained.tasks,drained.holding⟩
  | dequeue w running =>
      simp only [next,Option.ite_none_right_eq_some,Option.some.injEq] at moved
      obtain ⟨_,rfl⟩ := moved
      refine ⟨?_,?_⟩
      · intro v ended
        have drained := settled.ended v ended
        exact drained.frame rfl (take_nothing (drained.holding _) drained.tasks _ running)
      · intro v left
        refine goto_left settled ?_ v left
        split <;> simp
  | finish w =>
      obtain ⟨t,held,rfl⟩ := Option.map_eq_some_iff.mp moved
      refine ⟨?_,settled.left⟩
      intro v ended
      rw [(settled.ended v ended).holding w] at held
      cases held
  | resumeIdle w =>
      simp only [next,Option.ite_none_right_eq_some,Option.some.injEq] at moved
      obtain ⟨_,rfl⟩ := moved
      unfold State.resumeIdle
      by_cases observed : s.isStopping = true
      · rw [if_pos observed]
        have drained := isStopping_drained active observed
        refine ⟨fun _ _ => drained.frame rfl rfl,?_⟩
        intro v left
        have ended := goto_left settled Phase.noConfusion v left
        by_cases same : v = w
        · subst v; simp
        · simpa [same] using ended
      · rw [if_neg observed]
        exact ⟨fun v ended => (settled.ended v ended).frame rfl rfl,goto_left settled Phase.noConfusion⟩
  | leave w =>
      simp only [next,Option.ite_none_right_eq_some,Option.some.injEq] at moved
      obtain ⟨⟨_,term⟩,rfl⟩ := moved
      refine ⟨?_,?_⟩
      · exact fun v ended => (settled.ended v ended).frame rfl rfl
      · intro v left
        rcases update_cases left with ⟨rfl,_⟩ | ⟨_,left⟩
        · exact term
        · exact settled.left v left

theorem next_queue {a : Action n Fiber Callback} (moved : next tid s a = some u) :
    u.queue = s.queue ∨ ∃ b, Scheduler.next tid s.queue b = some u.queue := by
  cases a with
  | schedule fc thread =>
      simp only [next,Option.ite_none_left_eq_some,Option.some.injEq] at moved
      obtain ⟨_,rfl⟩ := moved
      exact .inr ⟨.schedule fc thread,rfl⟩
  | scheduleFrom w fc thread =>
      simp only [next,Option.ite_none_right_eq_some,Option.some.injEq] at moved
      obtain ⟨_,rfl⟩ := moved
      exact .inr ⟨.schedule fc thread,rfl⟩
  | stop =>
      cases moved
      exact .inl rfl
  | dequeue w running =>
      simp only [next,Option.ite_none_right_eq_some,Option.some.injEq] at moved
      obtain ⟨⟨_,free⟩,rfl⟩ := moved
      exact .inr ⟨.dequeue w running,by simp only [Scheduler.next,free,if_true]⟩
  | finish w =>
      obtain ⟨t,held,rfl⟩ := Option.map_eq_some_iff.mp moved
      exact .inr ⟨.finish w,by simp only [Scheduler.next,held,Option.map_some]⟩
  | resumeIdle w =>
      simp only [next,Option.ite_none_right_eq_some,Option.some.injEq] at moved
      obtain ⟨_,rfl⟩ := moved
      refine .inl ?_
      unfold State.resumeIdle
      split <;> rfl
  | leave w =>
      simp only [next,Option.ite_none_right_eq_some,Option.some.injEq] at moved
      obtain ⟨_,rfl⟩ := moved
      exact .inl rfl

theorem reached_queue (path : Reached (next tid) anyStep Start s) :
    Reached (Scheduler.next tid) anyStep Scheduler.Start s.queue :=
  path.project State.queue (fun s begins => by rw [show s = .initial from begins]; rfl) fun _ _ _ _ moved => next_queue moved

theorem reached_settled (path : Reached (next tid) anyStep Start s) : Settled s := by
  classical
  induction path with
  | start begins =>
      rw [begins]
      exact initial_settled
  | step prior _ moved ih => exact next_settled (reached_conserved (reached_queue prior)).active ih moved

theorem next_idleTerm {a : Action n Fiber Callback} (moved : next tid s a = some u)
    (ended : s.idleTerm w = true) : u.idleTerm w = true := by
  cases a with
  | schedule fc thread =>
      simp only [next,Option.ite_none_left_eq_some,Option.some.injEq] at moved
      obtain ⟨_,rfl⟩ := moved
      exact ended
  | finish v =>
      obtain ⟨t,_,rfl⟩ := Option.map_eq_some_iff.mp moved
      exact ended
  | stop => cases moved; exact ended
  | resumeIdle v =>
      simp only [next,Option.ite_none_right_eq_some,Option.some.injEq] at moved
      obtain ⟨_,rfl⟩ := moved
      unfold State.resumeIdle
      split
      · by_cases same : w = v
        · subst w; simp
        · simpa [same] using ended
      · exact ended
  | scheduleFrom v fc thread | dequeue v running | leave v =>
      simp only [next,Option.ite_none_right_eq_some,Option.some.injEq] at moved
      obtain ⟨_,rfl⟩ := moved
      exact ended

theorem run_idleTerm {actions : List (Action n Fiber Callback)} (ran : run (next tid) s actions = some u)
    (ended : s.idleTerm w = true) : u.idleTerm w = true := by
  induction actions generalizing s with
  | nil => cases ran; exact ended
  | cons a rest ih =>
      obtain ⟨middle,moved,later⟩ := Option.bind_eq_some_iff.mp ran
      exact ih later (next_idleTerm moved ended)

theorem stopping_observed (path : Reached (next tid) anyStep Start s)
    (observed : s.idleTerm w = true ∨ s.phase w = .left) :
    ∀ actions u, run (next tid) s actions = some u →
      u.queue.tasks = [] ∧ (∀ v, u.queue.holding v = none) ∧ u.queue.finished.Perm u.queue.pushed := by
  classical
  intro actions u ran
  have ended : s.idleTerm w = true := by
    rcases observed with ended | left
    · exact ended
    · exact (reached_settled path).left w left
  have later := path.run along_any ran
  have drained := (reached_settled later).ended w (run_idleTerm ran ended)
  refine ⟨drained.tasks,drained.holding,?_⟩
  rw [List.perm_iff_count]
  intro t
  have placed := (reached_conserved (reached_queue later)).placed t
  have nobody : tally (fun held => held == some t) u.queue.holding = 0 := by
    rw [tally_eq_zero]
    intro v
    rw [drained.holding v]
    rfl
  rw [Scheduler.State.places,drained.tasks,nobody,List.count_nil] at placed
  omega

end Steps

-- After `stop`, worker 0 runs a callback that schedules a second one for worker
-- 1, and leaves when both have run.
def drainedRun : List (Action 2 Nat Nat) :=
  [.schedule (some (.callback 5)) (-1),.stop,.dequeue w0 fun _ => false,.scheduleFrom w0 (some (.callback 6)) 1,
    .finish w0,.dequeue w1 fun _ => false,.finish w1,.dequeue w0 fun _ => false,.resumeIdle w0,
    .dequeue w0 fun _ => false,.leave w0]

def drainedSample : State 2 Nat Nat := (run (next ownId) .initial drainedRun).getD .initial

theorem drainedSample_reached : Reached (next ownId) anyStep Start drainedSample :=
  Reached.run (.start rfl) along_any (show run (next ownId) .initial drainedRun = some drainedSample from rfl)

theorem stopping_observed_left : drainedSample.queue.tasks = [] ∧
    drainedSample.queue.finished.Perm drainedSample.queue.pushed := by
  obtain ⟨empty,_,done⟩ := stopping_observed (w := 0) drainedSample_reached (.inr rfl) [] drainedSample rfl
  exact ⟨empty,done⟩

end Fishjoy.SchedulerShutdown
