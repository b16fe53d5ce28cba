import Mathlib.Data.List.Basic

namespace Fishjoy

inductive Work (Fiber Callback : Type) where
  | fiber (f : Fiber)
  | callback (c : Callback)
  deriving DecidableEq

def Work.fiber? : Work Fiber Callback → Option Fiber
  | .fiber f => some f
  | .callback _ => none

-- The constructors of the source set one of `fiber` and `callback`. A task in
-- the queue has a non-null one, which is the assertion of `Scheduler::run`.
-- The ticket numbers the pushes of a history; no function reads it.
structure ScheduleTask (Fiber Callback : Type) where
  work : Work Fiber Callback
  thread : Int
  ticket : Nat
  deriving DecidableEq

namespace Scheduler
variable {Fiber Callback : Type}

-- A null fiber or an empty function is `none` and gives no task.
def makeTask (fc : Option (Work Fiber Callback)) (thread : Int) (ticket : Nat) :
    Option (ScheduleTask Fiber Callback) :=
  fc.map fun work => ⟨work,thread,ticket⟩

-- Returns `need_tickle`.
def scheduleNoLock (tasks : List (ScheduleTask Fiber Callback)) (task : Option (ScheduleTask Fiber Callback)) :
    Bool × List (ScheduleTask Fiber Callback) :=
  (tasks.isEmpty,tasks ++ task.toList)

structure Dequeued (Fiber Callback : Type) where
  task : Option (ScheduleTask Fiber Callback)
  tasks : List (ScheduleTask Fiber Callback)
  tickleMe : Bool

def Dequeued.keep (it : ScheduleTask Fiber Callback) (d : Dequeued Fiber Callback) : Dequeued Fiber Callback :=
  {d with tasks := it :: d.tasks}

-- The loop of `Scheduler::run` under the lock, at position `i` of the queue.
-- Other workers change fiber states meanwhile: `running i` is what the test of
-- the `i`-th fiber sees.
def dequeueFrom (thread : Int) (running : Nat → Bool) :
    Nat → List (ScheduleTask Fiber Callback) → Bool → Dequeued Fiber Callback
  | _,[],tickleMe => ⟨none,[],tickleMe⟩
  | i,it :: rest,tickleMe =>
    if it.thread ≠ -1 ∧ it.thread ≠ thread then (dequeueFrom thread running (i+1) rest true).keep it
    else if it.work.fiber?.isSome && running i then (dequeueFrom thread running (i+1) rest tickleMe).keep it
    else ⟨some it,rest,tickleMe || !rest.isEmpty⟩

def dequeue (thread : Int) (running : Nat → Bool) (tasks : List (ScheduleTask Fiber Callback)) :
    Dequeued Fiber Callback :=
  dequeueFrom thread running 0 tasks false

def mayRun (thread : Int) (running : Bool) (t : ScheduleTask Fiber Callback) : Bool :=
  (decide (t.thread = -1) || decide (t.thread = thread)) && !(t.work.fiber?.isSome && running)

-- Nothing is taken and every task was skipped, or the first task that was not
-- skipped is taken out of its place.
inductive Dequeues (thread : Int) (running : Nat → Bool) (i : Nat) (tasks : List (ScheduleTask Fiber Callback)) :
    Dequeued Fiber Callback → Prop where
  | none (skipped : ∀ k (bound : k < tasks.length), mayRun thread (running (i+k)) tasks[k] = false) :
      Dequeues thread running i tasks ⟨none,tasks,tickleMe⟩
  | some (front : List (ScheduleTask Fiber Callback)) (whole : tasks = front ++ t :: back)
      (skipped : ∀ k (bound : k < front.length), mayRun thread (running (i+k)) front[k] = false)
      (allowed : mayRun thread (running (i+front.length)) t = true) :
      Dequeues thread running i tasks ⟨some t,front ++ back,tickleMe⟩

theorem Dequeues.keep {it : ScheduleTask Fiber Callback} {d : Dequeued Fiber Callback}
    (rest : Dequeues thread running (i+1) tasks d) (skip : mayRun thread (running i) it = false) :
    Dequeues thread running i (it :: tasks) (d.keep it) := by
  cases rest with
  | none skipped =>
      refine .none ?_
      intro k bound
      cases k with
      | zero => exact skip
      | succ k =>
          have tail := skipped k (Nat.lt_of_succ_lt_succ bound)
          rw [Nat.add_right_comm] at tail
          exact tail
  | some front whole skipped allowed =>
      refine .some (it :: front) (by rw [whole]; rfl) ?_ ?_
      · intro k bound
        cases k with
        | zero => exact skip
        | succ k =>
            have tail := skipped k (Nat.lt_of_succ_lt_succ bound)
            rw [Nat.add_right_comm] at tail
            exact tail
      · rw [List.length_cons,Nat.add_comm front.length,←Nat.add_assoc]
        exact allowed

theorem dequeueFrom_dequeues (thread : Int) (running : Nat → Bool) (i : Nat)
    (tasks : List (ScheduleTask Fiber Callback)) (tickleMe : Bool) :
    Dequeues thread running i tasks (dequeueFrom thread running i tasks tickleMe) := by
  induction tasks generalizing i tickleMe with
  | nil => exact .none fun k bound => absurd bound (Nat.not_lt_zero k)
  | cons it rest ih =>
      unfold dequeueFrom
      split
      · rename_i pinned
        exact (ih (i+1) true).keep (by simp [mayRun,pinned])
      · rename_i free
        split
        · rename_i busy
          exact (ih (i+1) tickleMe).keep (by simp only [mayRun,busy]; simp)
        · rename_i ready
          refine .some [] rfl (fun k bound => absurd bound (Nat.not_lt_zero k)) ?_
          have own : it.thread = -1 ∨ it.thread = thread := by
            by_cases any : it.thread = -1
            · exact .inl any
            · exact .inr (Classical.not_not.mp fun other => free ⟨any,other⟩)
          have idle : (it.work.fiber?.isSome && running (i+0)) = false := by simpa using ready
          simp only [mayRun,List.length_nil,idle]
          simpa using own

theorem dequeue_dequeues (thread : Int) (running : Nat → Bool) (tasks : List (ScheduleTask Fiber Callback)) :
    Dequeues thread running 0 tasks (dequeue thread running tasks) :=
  dequeueFrom_dequeues thread running 0 tasks false

theorem dequeueFrom_tickles {thread : Int} {running : Nat → Bool} {i : Nat}
    {tasks : List (ScheduleTask Fiber Callback)} {tickleMe : Bool}
    (nothing : (dequeueFrom thread running i tasks tickleMe).task = none)
    (silent : (dequeueFrom thread running i tasks tickleMe).tickleMe = false) :
    tickleMe = false ∧ ∀ t ∈ tasks, t.thread = -1 ∨ t.thread = thread := by
  induction tasks generalizing i tickleMe with
  | nil => exact ⟨silent,fun t member => nomatch member⟩
  | cons it rest ih =>
      unfold dequeueFrom at nothing silent
      split at nothing
      · rename_i pinned
        rw [if_pos pinned] at silent
        cases (ih nothing silent).1
      · rename_i free
        rw [if_neg free] at silent
        have own : it.thread = -1 ∨ it.thread = thread := by
          by_cases any : it.thread = -1
          · exact .inl any
          · exact .inr (Classical.not_not.mp fun other => free ⟨any,other⟩)
        split at nothing
        · rename_i busy
          rw [if_pos busy] at silent
          obtain ⟨before,others⟩ := ih nothing silent
          refine ⟨before,?_⟩
          intro t member
          rcases List.mem_cons.mp member with rfl | later
          · exact own
          · exact others t later
        · cases nothing

-- A worker that takes nothing and tells nobody has passed over fibers that run.
theorem dequeue_silent {thread : Int} {running : Nat → Bool} {tasks : List (ScheduleTask Fiber Callback)}
    (nothing : (dequeue thread running tasks).task = none) (silent : (dequeue thread running tasks).tickleMe = false)
    (k : Nat) (bound : k < tasks.length) : (tasks[k].thread = -1 ∨ tasks[k].thread = thread) ∧
      tasks[k].work.fiber?.isSome = true ∧ running k = true := by
  have own := (dequeueFrom_tickles nothing silent).2 tasks[k] (List.getElem_mem bound)
  have spec := dequeue_dequeues thread running tasks
  generalize dequeue thread running tasks = d at spec nothing
  cases spec with
  | none skipped =>
      have passed := skipped k bound
      simp only [mayRun,Nat.zero_add] at passed
      refine ⟨own,?_⟩
      have mine : (decide (tasks[k].thread = -1) || decide (tasks[k].thread = thread)) = true := by simpa using own
      rw [mine,Bool.true_and,Bool.not_eq_false',Bool.and_eq_true] at passed
      exact passed
  | some => cases nothing

-- The converse: the whole queue is passed over in silence.
theorem dequeueFrom_passes {thread : Int} {running : Nat → Bool} {i : Nat} {tasks : List (ScheduleTask Fiber Callback)}
    {tickleMe : Bool} (passed : ∀ k (bound : k < tasks.length), (tasks[k].thread = -1 ∨ tasks[k].thread = thread) ∧
      tasks[k].work.fiber?.isSome = true ∧ running (i+k) = true) :
    dequeueFrom thread running i tasks tickleMe = ⟨none,tasks,tickleMe⟩ := by
  induction tasks generalizing i with
  | nil => rfl
  | cons it rest ih =>
      obtain ⟨own,fiber,busy⟩ := passed 0 (Nat.zero_lt_succ _)
      have free : ¬(it.thread ≠ -1 ∧ it.thread ≠ thread) := by
        rintro ⟨one,two⟩
        exact own.elim one two
      have running : (it.work.fiber?.isSome && running i) = true := by
        rw [Bool.and_eq_true]
        exact ⟨fiber,busy⟩
      unfold dequeueFrom
      rw [if_neg free,if_pos running,ih]
      · rfl
      · intro k bound
        have later := passed (k+1) (Nat.succ_lt_succ bound)
        rw [←Nat.add_assoc,Nat.add_right_comm] at later
        exact later

end Scheduler
end Fishjoy
