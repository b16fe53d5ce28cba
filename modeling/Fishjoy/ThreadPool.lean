import Mathlib.Data.Finset.Basic
import Mathlib.Order.Interval.Finset.Nat
import Fishjoy.Foundation.Roster
import Fishjoy.Foundation.Transition

namespace Fishjoy.ThreadPool
open Roster

def INT_MAX : Nat := 2147483647

inductive PoolMode where
  | MODE_FIXED
  | MODE_CACHED
  deriving DecidableEq

-- Where a thread is in `threadFunc`. In `loop` it is at the test of the outer
-- loop or waits for the lock, in `asleep` it waits on `notEmpty_`. A thread in
-- `ran` has its task behind it and has yet to count itself idle again.
inductive Phase (Task : Type) where
  | loop
  | asleep
  | busy (task : Task)
  | ran
  | leaving
  | erased
  | exited
  | reclaimed
  deriving DecidableEq

namespace Phase
variable {Task : Type}

def awaits : Phase Task → Bool
  | .loop | .asleep => true
  | _ => false

def task : Phase Task → Option Task
  | .busy task => some task
  | _ => none

-- Its `threadFunc` has not taken it out of `threads_` yet.
def registered : Phase Task → Bool
  | .erased | .exited | .reclaimed => false
  | _ => true

-- It will not notify `exitCond_` any more.
def returned : Phase Task → Bool
  | .exited | .reclaimed => true
  | _ => false

end Phase

structure Worker (Task : Type) where
  threadid : Nat
  phase : Phase Task
  deriving DecidableEq

-- `threads` has the keys of `threads_`: the `Thread` under a key is the one with
-- this id. `generatedId` is the counter of the whole process. The threads that
-- were started are in `workers`, in this order. `accepted`, `executed`,
-- `created` (objects made) and `counted` (increments of `idleThreadSize_` by a
-- creator) are history only.
structure State (Task : Type) where
  threads : Finset Nat
  initThreadSize : UInt32
  curThreadSize : UInt32
  threadSizeThreshold : UInt32
  idleThreadSize : UInt32
  taskQue : List Task
  taskSize : UInt32
  taskQueMaxSizeThreshold : Int32
  poolMode : PoolMode
  isPoolRunning : Bool
  generatedId : Nat
  workers : List (Worker Task)
  accepted : List Task
  executed : List Task
  created : Nat
  counted : Nat

inductive Step where
  | sleep
  | take
  | reclaim
  | run
  | finish
  | leave
  | erase
  | notify
  deriving DecidableEq

inductive Action (Task : Type) where
  | submitTask (task : Task)
  | work (i : Nat) (step : Step)

namespace State
variable {Task : Type}

-- A pool whose mode and thresholds are set.
def constructed (poolMode : PoolMode) (taskQueMaxSizeThreshold : Int32) (threadSizeThreshold : UInt32)
    (generatedId : Nat) : State Task :=
  {threads := ∅, initThreadSize := 0, curThreadSize := 0, threadSizeThreshold, idleThreadSize := 0, taskQue := [],
    taskSize := 0, taskQueMaxSizeThreshold, poolMode, isPoolRunning := false, generatedId, workers := [],
    accepted := [], executed := [], created := 0, counted := 0}

-- An increment beyond `INT_MAX` is undefined.
def createThread (s : State Task) : Option (State Task) :=
  if s.generatedId < INT_MAX then
    some {s with
      threads := insert s.generatedId s.threads
      generatedId := s.generatedId+1
      created := s.created+1}
  else none

-- `threads_[id]->start()`, where the pointer under a new key is null.
def startThread (s : State Task) (id : Nat) : Option (State Task) :=
  if id ∈ s.threads then some {s with workers := s.workers ++ [⟨id,.loop⟩]} else none

def countIdle (s : State Task) : State Task := {s with idleThreadSize := s.idleThreadSize+1, counted := s.counted+1}

def createThreads : Nat → State Task → Option (State Task)
  | 0,s => some s
  | k+1,s => s.createThread.bind (createThreads k)

def startThreads (s : State Task) (i : Nat) : Nat → Option (State Task)
  | 0 => some s
  | k+1 => (s.startThread i).bind fun s => s.countIdle.startThreads (i+1) k

def start (s : State Task) (initThreadSize : UInt32) : Option (State Task) :=
  (createThreads initThreadSize.toNat {s with isPoolRunning := true, initThreadSize, curThreadSize := initThreadSize}).bind
    (startThreads · 0 initThreadSize.toNat)

-- The threshold is converted to `size_t`.
def notFull (s : State Task) : Bool := decide (s.taskQue.length < s.taskQueMaxSizeThreshold.toInt64.toUInt64.toNat)

def push (s : State Task) (task : Task) : State Task :=
  {s with taskQue := s.taskQue ++ [task], taskSize := s.taskSize+1, accepted := s.accepted ++ [task]}

def needsThread (s : State Task) : Bool :=
  s.poolMode = .MODE_CACHED && s.taskSize > s.idleThreadSize && s.curThreadSize < s.threadSizeThreshold

def grow (s : State Task) : Option (State Task) :=
  (s.createThread.bind (·.startThread s.generatedId)).map fun s =>
    {s with curThreadSize := s.curThreadSize+1}.countIdle

-- A call that waits in vain for a second leaves the pool as it is.
def submitTask (s : State Task) (task : Task) : Option (State Task) :=
  if s.notFull then
    if (s.push task).needsThread then (s.push task).grow else some (s.push task)
  else some s

def goto (s : State Task) (i : Nat) (w : Worker Task) (phase : Phase Task) : State Task :=
  {s with workers := s.workers.set i {w with phase}}

def take (s : State Task) (i : Nat) (w : Worker Task) (task : Task) (rest : List Task) : State Task :=
  {s.goto i w (.busy task) with
    idleThreadSize := s.idleThreadSize-1
    taskQue := rest
    taskSize := s.taskSize-1}

def reclaim (s : State Task) (i : Nat) (w : Worker Task) : State Task :=
  {s.goto i w .reclaimed with
    threads := s.threads.erase w.threadid
    curThreadSize := s.curThreadSize-1
    idleThreadSize := s.idleThreadSize-1}

def run (s : State Task) (i : Nat) (w : Worker Task) (task : Task) : State Task :=
  {s.goto i w .ran with executed := s.executed ++ [task]}

def finish (s : State Task) (i : Nat) (w : Worker Task) : State Task :=
  {s.goto i w .loop with idleThreadSize := s.idleThreadSize+1}

def erase (s : State Task) (i : Nat) (w : Worker Task) : State Task :=
  {s.goto i w .erased with threads := s.threads.erase w.threadid}

-- A thread that timed out after a minute without a task may be reclaimed
-- although the queue is not empty again; the time is up to the run.
def work (s : State Task) (i : Nat) (w : Worker Task) : Step → Option (State Task)
  | .sleep => if w.phase.awaits ∧ s.isPoolRunning ∧ s.taskQue.isEmpty then some (s.goto i w .asleep) else none
  | .take =>
    match s.taskQue with
    | [] => none
    | task :: rest => if w.phase.awaits ∧ s.isPoolRunning then some (s.take i w task rest) else none
  | .reclaim =>
    match w.phase with
    | .asleep =>
      if s.poolMode = .MODE_CACHED ∧ s.curThreadSize > s.initThreadSize then some (s.reclaim i w) else none
    | _ => none
  | .run =>
    match w.phase with
    | .busy task => some (s.run i w task)
    | _ => none
  | .finish =>
    match w.phase with
    | .ran => some (s.finish i w)
    | _ => none
  | .leave => if w.phase.awaits ∧ s.isPoolRunning = false then some (s.goto i w .leaving) else none
  | .erase =>
    match w.phase with
    | .leaving => some (s.erase i w)
    | _ => none
  | .notify =>
    match w.phase with
    | .erased => some (s.goto i w .exited)
    | _ => none

end State

def next {Task : Type} (s : State Task) : Action Task → Option (State Task)
  | .submitTask task => s.submitTask task
  | .work i step => s.workers[i]?.bind fun w => s.work i w step

theorem increment {x : UInt32} (room : x.toNat+1 < 2^32) : (x+1).toNat = x.toNat+1 := by
  rw [UInt32.toNat_add]
  exact Nat.mod_eq_of_lt room

theorem decrement {x : UInt32} (some : 0 < x.toNat) : (x-1).toNat = x.toNat-1 :=
  UInt32.toNat_sub_of_le _ _ (UInt32.le_iff_toNat_le.mpr some)

section Inversion
variable {Task : Type} {s u : State Task} {i : Nat} {w : Worker Task}

-- What is read from the two phases in which a thread has no task alike.
theorem awaits_read {β : Type} (read : Phase Task → β) {phase : Phase Task} (awaits : phase.awaits = true) {v : β}
    (loop : read .loop = v) (asleep : read .asleep = v) : read phase = v := by
  cases phase with
  | loop => exact loop
  | asleep => exact asleep
  | _ => cases awaits

namespace State

-- What a thread does in one step.
inductive Worked (s : State Task) (i : Nat) (w : Worker Task) : Step → State Task → Prop where
  | sleep (awaits : w.phase.awaits = true) (running : s.isPoolRunning = true) (empty : s.taskQue = []) :
      Worked s i w .sleep (s.goto i w .asleep)
  | take (task : Task) (rest : List Task) (awaits : w.phase.awaits = true) (running : s.isPoolRunning = true)
      (queue : s.taskQue = task :: rest) : Worked s i w .take (s.take i w task rest)
  | reclaim (asleep : w.phase = .asleep) (cached : s.poolMode = .MODE_CACHED)
      (above : s.initThreadSize < s.curThreadSize) : Worked s i w .reclaim (s.reclaim i w)
  | run (task : Task) (busy : w.phase = .busy task) : Worked s i w .run (s.run i w task)
  | finish (ran : w.phase = .ran) : Worked s i w .finish (s.finish i w)
  | leave (awaits : w.phase.awaits = true) (stopped : s.isPoolRunning = false) :
      Worked s i w .leave (s.goto i w .leaving)
  | erase (leaving : w.phase = .leaving) : Worked s i w .erase (s.erase i w)
  | notify (erased : w.phase = .erased) : Worked s i w .notify (s.goto i w .exited)

theorem work_cases {step : Step} (moved : s.work i w step = some u) : Worked s i w step u := by
  cases step with
  | sleep =>
      simp only [work,Option.ite_none_right_eq_some,Option.some.injEq] at moved
      obtain ⟨⟨awaits,running,empty⟩,rfl⟩ := moved
      exact .sleep awaits running (List.isEmpty_iff.mp empty)
  | take =>
      simp only [work] at moved
      split at moved
      · cases moved
      · rename_i task rest queue
        simp only [Option.ite_none_right_eq_some,Option.some.injEq] at moved
        obtain ⟨⟨awaits,running⟩,rfl⟩ := moved
        exact .take task rest awaits running queue
  | reclaim =>
      simp only [work] at moved
      split at moved
      · rename_i asleep
        simp only [Option.ite_none_right_eq_some,Option.some.injEq] at moved
        obtain ⟨⟨cached,above⟩,rfl⟩ := moved
        exact .reclaim asleep cached above
      · cases moved
  | run =>
      simp only [work] at moved
      split at moved
      · rename_i task busy
        cases moved
        exact .run task busy
      · cases moved
  | finish =>
      simp only [work] at moved
      split at moved
      · rename_i ran
        cases moved
        exact .finish ran
      · cases moved
  | leave =>
      simp only [work,Option.ite_none_right_eq_some,Option.some.injEq] at moved
      obtain ⟨⟨awaits,stopped⟩,rfl⟩ := moved
      exact .leave awaits stopped
  | erase =>
      simp only [work] at moved
      split at moved
      · rename_i leaving
        cases moved
        exact .erase leaving
      · cases moved
  | notify =>
      simp only [work] at moved
      split at moved
      · rename_i erased
        cases moved
        exact .notify erased
      · cases moved

-- The pool with one more thread, which is registered and starts in its loop.
def grown (s : State Task) : State Task :=
  {s with
    threads := insert s.generatedId s.threads
    curThreadSize := s.curThreadSize+1
    idleThreadSize := s.idleThreadSize+1
    generatedId := s.generatedId+1
    workers := s.workers ++ [⟨s.generatedId,.loop⟩]
    created := s.created+1
    counted := s.counted+1}

theorem grow_some : s.grow = some u ↔ s.generatedId < INT_MAX ∧ u = s.grown := by
  unfold grow createThread
  by_cases below : s.generatedId < INT_MAX
  · rw [if_pos below,Option.bind_some,startThread,if_pos (Finset.mem_insert_self _ _)]
    exact ⟨fun same => ⟨below,(Option.some.inj same).symm⟩,fun both => congrArg some both.2.symm⟩
  · rw [if_neg below]
    exact iff_of_false (fun same => by cases same) fun both => below both.1

inductive Submitted (s : State Task) (task : Task) : State Task → Prop where
  | refused (full : s.notFull = false) : Submitted s task s
  | queued (room : s.notFull = true) (enough : (s.push task).needsThread = false) : Submitted s task (s.push task)
  | grown (room : s.notFull = true) (needed : (s.push task).needsThread = true) (below : s.generatedId < INT_MAX) :
      Submitted s task (s.push task).grown

theorem submitTask_cases {task : Task} (moved : s.submitTask task = some u) : Submitted s task u := by
  unfold submitTask at moved
  cases room : s.notFull with
  | false =>
      rw [room] at moved
      cases moved
      exact .refused room
  | true =>
      rw [room,if_pos rfl] at moved
      cases needed : (s.push task).needsThread with
      | false =>
          rw [needed] at moved
          cases moved
          exact .queued room needed
      | true =>
          rw [needed,if_pos rfl] at moved
          obtain ⟨below,rfl⟩ := grow_some.mp moved
          exact .grown room needed below

end State
end Inversion
end Fishjoy.ThreadPool
