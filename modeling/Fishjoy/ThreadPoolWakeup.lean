import Fishjoy.ThreadPoolTasks
import Mathlib.Logic.Function.Basic

namespace Fishjoy.ThreadPool.Wakeup
open Transition

-- A wait on a condition variable that goes on, that a notification has ended, or
-- that has run out of time. One that is over contends for `taskQueMtx_`.
inductive Wait where
  | waiting
  | notified
  | expired
  deriving DecidableEq

def Wait.notify : Wait → Wait
  | .waiting => .notified
  | wait => wait

def sleeps {Task : Type} : Phase Task → Bool
  | .asleep => true
  | _ => false

-- A call of `submitTask` that waits on `notFull_`.
structure Submitter (Task : Type) where
  task : Task
  wait : Wait

-- `wait` is read for the threads that are asleep on `notEmpty_`.
structure State (Task : Type) where
  pool : ThreadPool.State Task
  wait : Nat → Wait
  submitters : List (Submitter Task)

inductive Action (Task : Type) where
  | submitTask (task : Task)
  | retry (j : Nat)
  | rouse (j : Nat) (wait : Wait)
  | work (i : Nat) (step : Step)
  | wake (i : Nat) (wait : Wait)

namespace State
variable {Task : Type}

def initial (pool : ThreadPool.State Task) : State Task := ⟨pool,fun _ => .waiting,[]⟩

def notifyNotEmpty (s : State Task) : State Task := {s with wait := fun i => (s.wait i).notify}

def notifyNotFull (s : State Task) : State Task :=
  {s with submitters := s.submitters.map fun c => {c with wait := c.wait.notify}}

-- `submitTask` with room in the queue.
def push (s : State Task) (task : Task) : Option (State Task) :=
  (s.pool.submitTask task).map fun pool => {s with pool}.notifyNotEmpty

-- What a thread does to the condition variables in its step.
def signal (s : State Task) (i : Nat) : Step → State Task
  | .sleep => {s with wait := Function.update s.wait i .waiting}
  | .take => if s.pool.taskQue.isEmpty then s.notifyNotFull else s.notifyNotEmpty.notifyNotFull
  | _ => s

-- A thread that is asleep goes on when its wait is over, and is reclaimed only
-- behind a timeout.
def mayWork (s : State Task) (i : Nat) (w : Worker Task) (step : Step) : Bool :=
  (!sleeps w.phase || s.wait i ≠ .waiting) && (step ≠ .reclaim || s.wait i = .expired)

end State

-- A wait may end without a notification, behind its second or before it.
def next {Task : Type} (s : State Task) : Action Task → Option (State Task)
  | .submitTask task =>
    if s.pool.notFull then s.push task else some {s with submitters := s.submitters ++ [⟨task,.waiting⟩]}
  | .retry j => s.submitters[j]?.bind fun c =>
    if c.wait = .waiting then none
    else if s.pool.notFull then {s with submitters := s.submitters.eraseIdx j}.push c.task
    else if c.wait = .expired then some {s with submitters := s.submitters.eraseIdx j}
    else some {s with submitters := s.submitters.set j {c with wait := .waiting}}
  | .rouse j wait => s.submitters[j]?.bind fun c =>
    if wait = .waiting then none else some {s with submitters := s.submitters.set j {c with wait}}
  | .work i step => s.pool.workers[i]?.bind fun w =>
    if s.mayWork i w step then (s.pool.work i w step).map fun pool => ({s with pool} : State Task).signal i step
    else none
  | .wake i wait => if wait = .waiting then none else some {s with wait := Function.update s.wait i wait}

-- No thread sleeps while there is a task, and none waits for room that is there.
structure Alert {Task : Type} (s : State Task) : Prop where
  sound : Sound s.pool
  tasks : s.pool.taskQue ≠ [] → ∀ i w, s.pool.workers[i]? = some w → sleeps w.phase → s.wait i ≠ .waiting
  room : s.pool.notFull = true → ∀ c ∈ s.submitters, c.wait ≠ .waiting
  taken : s.pool.taskQue ≠ [] → ∀ i w, s.pool.workers[i]? = some w → w.phase.awaits = true →
    next s (.work i .take) ≠ none
  served : s.pool.taskQue ≠ [] → 0 < s.pool.initThreadSize.toNat →
    ∃ i step, step ∈ [Step.take,.run,.finish] ∧ next s (.work i step) ≠ none

-- The invariant.
structure Roused {Task : Type} (s : State Task) : Prop where
  kept : Kept s.pool
  tasks : s.pool.taskQue ≠ [] → ∀ i w, s.pool.workers[i]? = some w → sleeps w.phase → s.wait i ≠ .waiting
  room : s.pool.notFull = true → ∀ c ∈ s.submitters, c.wait ≠ .waiting

section Steps
variable {Task : Type} {s t : State Task} {i j : Nat} {w : Worker Task}

theorem notify_over (wait : Wait) : wait.notify ≠ .waiting := by
  cases wait <;> exact fun same => by cases same

theorem notifyNotFull_room (s : State Task) : ∀ c ∈ s.notifyNotFull.submitters, c.wait ≠ .waiting := by
  intro c member
  obtain ⟨before,_,rfl⟩ := List.mem_map.mp member
  exact notify_over before.wait

-- A step of the pool itself, seen with its condition variables.
theorem step_pool {a : Action Task} (moved : next s a = some t) :
    t.pool = s.pool ∨ ∃ b, ThreadPool.next s.pool b = some t.pool := by
  have pushed : ∀ {s t : State Task} {task}, s.push task = some t →
      ∃ b, ThreadPool.next s.pool b = some t.pool := by
    intro s t task moved
    obtain ⟨pool,accepted,rfl⟩ := Option.map_eq_some_iff.mp moved
    exact ⟨.submitTask task,accepted⟩
  cases a with
  | submitTask task =>
      rw [next] at moved
      split at moved
      · exact .inr (pushed moved)
      · cases moved
        exact .inl rfl
  | retry j =>
      obtain ⟨c,found,moved⟩ := Option.bind_eq_some_iff.mp moved
      split at moved
      · cases moved
      · split at moved
        · exact .inr (pushed (s := {s with submitters := s.submitters.eraseIdx j}) moved)
        · split at moved <;> cases moved <;> exact .inl rfl
  | rouse j wait =>
      obtain ⟨c,found,moved⟩ := Option.bind_eq_some_iff.mp moved
      split at moved
      · cases moved
      · cases moved
        exact .inl rfl
  | work i step =>
      obtain ⟨w,found,moved⟩ := Option.bind_eq_some_iff.mp moved
      split at moved
      · obtain ⟨pool,worked,rfl⟩ := Option.map_eq_some_iff.mp moved
        refine .inr ⟨.work i step,?_⟩
        have same : (({s with pool} : State Task).signal i step).pool = pool := by
          unfold State.signal
          split
          · rfl
          · split <;> rfl
          · rfl
        rw [same,ThreadPool.next,found]
        exact worked
      · cases moved
  | wake i wait =>
      rw [next] at moved
      split at moved
      · cases moved
      · cases moved
        exact .inl rfl

theorem step_kept (kept : Kept s.pool) {a : Action Task} (moved : next s a = some t) : Kept t.pool := by
  rcases step_pool moved with same | ⟨b,coarse⟩
  · rw [same]
    exact kept
  · exact kept.next coarse

-- A push only takes room away.
theorem submitTask_room {p q : ThreadPool.State Task} {task : Task} (moved : p.submitTask task = some q)
    (room : q.notFull = true) : p.notFull = true := by
  cases State.submitTask_cases moved with
  | refused => exact room
  | queued before => exact before
  | grown before => exact before

theorem push_roused (room : s.pool.notFull = true → ∀ c ∈ s.submitters, c.wait ≠ .waiting) {task : Task}
    (moved : s.push task = some t) :
    (t.pool.taskQue ≠ [] → ∀ i w, t.pool.workers[i]? = some w → sleeps w.phase → t.wait i ≠ .waiting) ∧
      (t.pool.notFull = true → ∀ c ∈ t.submitters, c.wait ≠ .waiting) := by
  obtain ⟨pool,accepted,rfl⟩ := Option.map_eq_some_iff.mp moved
  exact ⟨fun _ i _ _ _ => notify_over (s.wait i),fun after => room (submitTask_room accepted after)⟩

-- A thread that does not take a task leaves the queue as it is, and only a step
-- to sleep makes it sleep.
theorem work_quiet {p q : ThreadPool.State Task} {step : Step} (found : p.workers[i]? = some w)
    (moved : p.work i w step = some q) (other : step ≠ .take) :
    q.taskQue = p.taskQue ∧ q.notFull = p.notFull ∧
      (step ≠ .sleep → ∀ (k : Nat) (v : Worker Task), q.workers[k]? = some v → sleeps v.phase → p.workers[k]? = some v) := by
  have moves : ∀ (phase : Phase Task) (k : Nat) (v : Worker Task), k ≠ i → (p.goto i w phase).workers[k]? = some v → p.workers[k]? = some v := by
    intro phase k v apart there
    rwa [State.goto,List.getElem?_set_ne (Ne.symm apart)] at there
  have awake : ∀ (phase : Phase Task), sleeps phase = false → ∀ (k : Nat) (v : Worker Task), (p.goto i w phase).workers[k]? = some v →
      sleeps v.phase → p.workers[k]? = some v := by
    intro phase off k v there asleep
    by_cases same : k = i
    · subst same
      have inside := (List.getElem?_eq_some_iff.mp found).1
      rw [State.goto,List.getElem?_set_self inside] at there
      cases there
      rw [off] at asleep
      cases asleep
    · exact moves phase k v same there
  cases State.work_cases moved with
  | sleep => exact ⟨rfl,rfl,fun away => absurd rfl away⟩
  | take => exact absurd rfl other
  | reclaim => exact ⟨rfl,rfl,fun _ => awake .reclaimed rfl⟩
  | run => exact ⟨rfl,rfl,fun _ => awake .ran rfl⟩
  | finish => exact ⟨rfl,rfl,fun _ => awake .loop rfl⟩
  | leave => exact ⟨rfl,rfl,fun _ => awake .leaving rfl⟩
  | erase => exact ⟨rfl,rfl,fun _ => awake .erased rfl⟩
  | notify => exact ⟨rfl,rfl,fun _ => awake .exited rfl⟩

theorem Roused.next (roused : Roused s) {a : Action Task} (moved : next s a = some t) : Roused t := by
  have kept := step_kept roused.kept moved
  suffices both : (t.pool.taskQue ≠ [] → ∀ i w, t.pool.workers[i]? = some w → sleeps w.phase → t.wait i ≠ .waiting) ∧
      (t.pool.notFull = true → ∀ c ∈ t.submitters, c.wait ≠ .waiting) from ⟨kept,both.1,both.2⟩
  have ⟨_,tasks,room⟩ := roused
  cases a with
  | submitTask task =>
      rw [Wakeup.next] at moved
      split at moved
      · exact push_roused room moved
      · rename_i full
        cases moved
        exact ⟨tasks,fun after => absurd after full⟩
  | retry j =>
      obtain ⟨c,found,moved⟩ := Option.bind_eq_some_iff.mp moved
      split at moved
      · cases moved
      · split at moved
        · rename_i free
          refine push_roused (fun _ c member => room free c (List.mem_of_mem_eraseIdx member)) moved
        · rename_i full
          split at moved <;> cases moved <;> exact ⟨tasks,fun after => absurd after full⟩
  | rouse j wait =>
      obtain ⟨c,found,moved⟩ := Option.bind_eq_some_iff.mp moved
      split at moved
      · cases moved
      · rename_i ended
        cases moved
        refine ⟨tasks,fun free d member => ?_⟩
        rcases List.mem_or_eq_of_mem_set member with old | rfl
        · exact room free d old
        · exact ended
  | work i step =>
      obtain ⟨w,found,moved⟩ := Option.bind_eq_some_iff.mp moved
      split at moved
      · obtain ⟨pool,worked,rfl⟩ := Option.map_eq_some_iff.mp moved
        by_cases takes : step = .take
        · subst takes
          rw [State.signal]
          split
          · rename_i empty
            exact ⟨fun some => absurd (List.isEmpty_iff.mp empty) some,fun _ => notifyNotFull_room _⟩
          · exact ⟨fun _ k _ _ _ => notify_over (s.wait k),fun _ => notifyNotFull_room _⟩
        · obtain ⟨queue,same,quiet⟩ := work_quiet found worked takes
          by_cases sleep : step = .sleep
          · subst sleep
            cases State.work_cases worked with
            | sleep awaits running empty => exact ⟨fun some => absurd empty some,room⟩
          · have silent : ({s with pool} : State Task).signal i step = {s with pool} := by
              unfold State.signal
              split
              · exact absurd rfl sleep
              · exact absurd rfl takes
              · rfl
            rw [silent]
            refine ⟨fun some k v there asleep => ?_,fun free => room (same ▸ free)⟩
            exact tasks (queue ▸ some) k v (quiet sleep k v there asleep) asleep
      · cases moved
  | wake i wait =>
      rw [Wakeup.next] at moved
      split at moved
      · cases moved
      · rename_i ended
        cases moved
        refine ⟨fun some k v there asleep => ?_,room⟩
        by_cases same : k = i
        · subst same
          change Function.update s.wait k wait k ≠ _
          rw [Function.update_self]
          exact ended
        · change Function.update s.wait i wait k ≠ _
          rw [Function.update_of_ne same]
          exact tasks some k v there asleep

theorem Roused.taken (roused : Roused s) (queue : s.pool.taskQue ≠ []) (found : s.pool.workers[i]? = some w)
    (awaits : w.phase.awaits = true) : Wakeup.next s (.work i .take) ≠ none := by
  have free : s.mayWork i w .take = true := by
    unfold State.mayWork
    cases asleep : sleeps w.phase with
    | false => rfl
    | true =>
        have ended := roused.tasks queue i w found asleep
        cases wait : s.wait i with
        | waiting => exact absurd wait ended
        | notified => rfl
        | expired => rfl
  rw [Wakeup.next,found,Option.bind_some,if_pos free]
  obtain ⟨task,rest,queue⟩ := List.exists_cons_of_ne_nil queue
  have worked : s.pool.work i w .take = some (s.pool.take i w task rest) := by
    rw [State.work,queue]
    exact if_pos ⟨awaits,roused.kept.running⟩
  rw [worked]
  exact Option.some_ne_none _

-- One of the registered threads can go on.
theorem Roused.served (roused : Roused s) (queue : s.pool.taskQue ≠ []) (crew : 0 < s.pool.initThreadSize.toNat) :
    ∃ i step, step ∈ [Step.take,.run,.finish] ∧ Wakeup.next s (.work i step) ≠ none := by
  obtain ⟨registered,size,atLeast,_,_,staying⟩ := roused.kept.manned
  have many : 0 < s.pool.members.length := by
    rw [←Multiset.coe_card,←registered]
    change 0 < s.pool.threads.card
    omega
  obtain ⟨id,member⟩ := List.exists_mem_of_length_pos many
  obtain ⟨w,present,here⟩ := List.mem_filterMap.mp member
  obtain ⟨i,found⟩ := List.mem_iff_getElem?.mp present
  have active : w.phase.registered = true := by
    rw [Worker.member] at here
    split at here
    · assumption
    · cases here
  have goes : ∀ step pool, sleeps w.phase = false → step ≠ .reclaim → s.pool.work i w step = some pool →
      Wakeup.next s (.work i step) ≠ none := by
    intro step pool awake other worked
    rw [Wakeup.next,found,Option.bind_some,if_pos (by simp [State.mayWork,awake,other]),worked]
    exact Option.some_ne_none _
  cases phase : w.phase with
  | loop => exact ⟨i,.take,.head _,roused.taken queue found (by rw [phase]; rfl)⟩
  | asleep => exact ⟨i,.take,.head _,roused.taken queue found (by rw [phase]; rfl)⟩
  | busy task =>
      exact ⟨i,.run,by decide,goes .run _ (by rw [phase]; rfl) (by decide) (by rw [State.work,phase])⟩
  | ran => exact ⟨i,.finish,by decide,goes .finish _ (by rw [phase]; rfl) (by decide) (by rw [State.work,phase])⟩
  | leaving => exact absurd phase (staying w present)
  | erased => rw [phase] at active; cases active
  | exited => rw [phase] at active; cases active
  | reclaimed => rw [phase] at active; cases active

theorem Roused.alert (roused : Roused s) : Alert s where
  sound := roused.kept.sound
  tasks := roused.tasks
  room := roused.room
  taken := fun queue _ _ found awaits => roused.taken queue found awaits
  served := roused.served

end Steps

theorem no_wakeup_lost {Task : Type} (poolMode : PoolMode) (taskQueMaxSizeThreshold : Int32)
    (threadSizeThreshold initThreadSize : UInt32) (generatedId : Nat) (pool : ThreadPool.State Task)
    (started : (State.constructed poolMode taskQueMaxSizeThreshold threadSizeThreshold generatedId).start initThreadSize =
      some pool) (actions : List (Action Task)) : Throughout next Alert (.initial pool) actions := by
  refine throughout_of_along (P := Roused) ?_ (fun _ => Roused.alert) (fun _ _ _ roused _ => roused.next) along_any
  have kept := constructed_kept started
  obtain ⟨_,_,rfl⟩ := State.start_some.mp started
  exact ⟨kept,fun queue => absurd rfl queue,fun _ _ => nofun⟩

theorem no_wakeup_lost_full : Throughout next Alert
    (.initial ((State.constructed .MODE_FIXED 1 10 0 : ThreadPool.State Nat).started 1))
    [.work 0 .sleep,.submitTask 5,.submitTask 6,.work 0 .take,.retry 0,.work 0 .run] :=
  no_wakeup_lost .MODE_FIXED 1 10 1 0 _ rfl _

end Fishjoy.ThreadPool.Wakeup
