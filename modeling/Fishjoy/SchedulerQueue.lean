import Fishjoy.Scheduler
import Fishjoy.Foundation.Transition
import Fishjoy.Foundation.Crew

namespace Fishjoy.Scheduler
open Transition Crew
variable {Fiber Callback : Type} {n : Nat}

-- `active` is `m_activeThreadCount`; a decrement below zero would show. The
-- local `task` of each worker is in `holding`; the counter still includes it
-- until `resume` has returned. `pushed` and `finished` are history only.
structure State (n : Nat) (Fiber Callback : Type) where
  tasks : List (ScheduleTask Fiber Callback)
  active : Int
  holding : Fin n → Option (ScheduleTask Fiber Callback)
  pushed : List (ScheduleTask Fiber Callback)
  finished : List (ScheduleTask Fiber Callback)

inductive Action (n : Nat) (Fiber Callback : Type) where
  | schedule (fc : Option (Work Fiber Callback)) (thread : Int)
  | dequeue (w : Fin n) (running : Nat → Bool)
  | finish (w : Fin n)

namespace State

def initial : State n Fiber Callback := ⟨[],0,fun _ => none,[],[]⟩

def schedule (s : State n Fiber Callback) (fc : Option (Work Fiber Callback)) (thread : Int) : State n Fiber Callback :=
  let task := makeTask fc thread s.pushed.length
  {s with tasks := (scheduleNoLock s.tasks task).2, pushed := s.pushed ++ task.toList}

def take (s : State n Fiber Callback) (w : Fin n) (d : Dequeued Fiber Callback) : State n Fiber Callback :=
  {s with
    tasks := d.tasks
    active := if d.task.isSome then s.active+1 else s.active
    holding := Function.update s.holding w d.task}

def finish (s : State n Fiber Callback) (w : Fin n) (t : ScheduleTask Fiber Callback) : State n Fiber Callback :=
  {s with active := s.active-1, holding := Function.update s.holding w none, finished := s.finished ++ [t]}

end State

-- The id of a worker's thread is `tid`.
def next (tid : Fin n → Int) (s : State n Fiber Callback) : Action n Fiber Callback → Option (State n Fiber Callback)
  | .schedule fc thread => some (s.schedule fc thread)
  | .dequeue w running => if (s.holding w).isNone then some (s.take w (dequeue (tid w) running s.tasks)) else none
  | .finish w => (s.holding w).map fun t => s.finish w t

def Start (s : State n Fiber Callback) : Prop := s = .initial

theorem idle_unchanged {s : State n Fiber Callback} {w : Fin n} (free : s.holding w = none) (tickleMe : Bool) :
    s.take w ⟨none,s.tasks,tickleMe⟩ = s := by
  have same : Function.update s.holding w none = s.holding := by
    rw [←free]
    exact Function.update_eq_self w s.holding
  simp [State.take,same]

theorem take_nothing {s : State n Fiber Callback} {w : Fin n} (free : s.holding w = none) (empty : s.tasks = [])
    (thread : Int) (running : Nat → Bool) : s.take w (dequeue thread running s.tasks) = s := by
  have unchanged := idle_unchanged free false
  rw [empty] at unchanged ⊢
  exact unchanged

-- `m_activeThreadCount` is exact, so zero means that no worker holds a task.
theorem nobody_holds {s : State n Fiber Callback} (active : s.active = tally Option.isSome s.holding)
    (zero : s.active = 0) (w : Fin n) : s.holding w = none := by
  have nobody : tally Option.isSome s.holding = 0 := by omega
  have absent := tally_eq_zero.mp nobody w
  simpa using absent

theorem mayRun_own {thread : Int} {running : Bool} {t : ScheduleTask Fiber Callback}
    (allowed : mayRun thread running t = true) : t.thread = -1 ∨ t.thread = thread := by
  simp only [mayRun,Bool.and_eq_true,Bool.or_eq_true,decide_eq_true_eq] at allowed
  exact allowed.1

-- What one dequeue section does: the worker stays empty-handed because it may
-- run no task, or it takes the first one it may run out of its place.
inductive Takes (tid : Fin n → Int) (s : State n Fiber Callback) (w : Fin n) (running : Nat → Bool) :
    State n Fiber Callback → Prop where
  | none (skipped : ∀ k (bound : k < s.tasks.length), mayRun (tid w) (running k) s.tasks[k] = false) :
      Takes tid s w running s
  | some (front : List (ScheduleTask Fiber Callback)) (t : ScheduleTask Fiber Callback)
      (whole : s.tasks = front ++ t :: back)
      (skipped : ∀ k (bound : k < front.length), mayRun (tid w) (running k) front[k] = false)
      (allowed : mayRun (tid w) (running front.length) t = true) :
      Takes tid s w running {s with
        tasks := front ++ back, active := s.active+1, holding := Function.update s.holding w (some t)}

theorem dequeue_takes {tid : Fin n → Int} {s u : State n Fiber Callback} {w : Fin n} {running : Nat → Bool}
    (moved : next tid s (.dequeue w running) = some u) :
    s.holding w = none ∧ Takes tid s w running u := by
  simp only [next,Option.ite_none_right_eq_some,Option.isNone_iff_eq_none] at moved
  obtain ⟨free,equal⟩ := moved
  refine ⟨free,?_⟩
  have spec := dequeue_dequeues (tid w) running s.tasks
  rw [←Option.some.inj equal]
  generalize dequeue (tid w) running s.tasks = d at spec
  cases spec with
  | none skipped =>
      rw [idle_unchanged free]
      exact .none (by simpa using skipped)
  | some front whole skipped allowed =>
      exact .some front _ whole (by simpa using skipped) (by simpa using allowed)

section Places
variable [DecidableEq Fiber] [DecidableEq Callback]

def State.places (s : State n Fiber Callback) (t : ScheduleTask Fiber Callback) : Nat :=
  s.tasks.count t+tally (fun held => held == some t) s.holding+s.finished.count t

structure Conserved (tid : Fin n → Int) (s : State n Fiber Callback) : Prop where
  numbered : s.pushed.map ScheduleTask.ticket = List.range s.pushed.length
  placed : ∀ t, s.places t = s.pushed.count t
  own : ∀ w t, s.holding w = some t → t.thread = -1 ∨ t.thread = tid w
  active : s.active = tally Option.isSome s.holding

variable {tid : Fin n → Int} {s u : State n Fiber Callback} {w : Fin n} {t : ScheduleTask Fiber Callback}

theorem count_held (t other : ScheduleTask Fiber Callback) : [t].count other = (some t == some other).toNat := by
  rw [List.count_singleton,Option.some_beq_some]
  cases t == other <;> rfl

theorem initial_conserved : Conserved tid (State.initial : State n Fiber Callback) := by
  have nobody (p : Option (ScheduleTask Fiber Callback) → Bool) (empty : p none = false) :
      tally p (State.initial : State n Fiber Callback).holding = 0 := tally_eq_zero.mpr fun _ => empty
  refine ⟨rfl,?_,?_,?_⟩
  · intro t
    simp only [State.places,nobody (fun held => held == some t) rfl]
    rfl
  · intro w t held
    cases held
  · rw [nobody Option.isSome rfl]
    rfl

theorem schedule_conserved (conserved : Conserved tid s) (fc : Option (Work Fiber Callback)) (thread : Int) :
    Conserved tid (s.schedule fc thread) := by
  refine ⟨?_,?_,conserved.own,conserved.active⟩
  · have numbered := conserved.numbered
    cases fc with
    | none => simpa [State.schedule,makeTask] using numbered
    | some work => simp [State.schedule,makeTask,numbered,List.range_succ]
  · intro t
    have placed := conserved.placed t
    simp only [State.places,State.schedule,scheduleNoLock,List.count_append] at placed ⊢
    omega

theorem took_conserved (conserved : Conserved tid s) (free : s.holding w = none)
    {front back : List (ScheduleTask Fiber Callback)} (whole : s.tasks = front ++ t :: back)
    (own : t.thread = -1 ∨ t.thread = tid w) (tickleMe : Bool) :
    Conserved tid (s.take w ⟨some t,front ++ back,tickleMe⟩) := by
  refine ⟨conserved.numbered,?_,?_,?_⟩
  · intro other
    have placed := conserved.placed other
    have moved := tally_update (fun held => held == some other) s.holding w (some t)
    rw [free] at moved
    have split : ([t] ++ back).count other = [t].count other+back.count other := List.count_append
    rw [List.singleton_append] at split
    simp only [State.places,State.take,whole,List.count_append,split,count_held] at placed ⊢
    simp only [Option.none_beq_some,Bool.toNat_false,Nat.add_zero] at moved
    omega
  · intro v u held
    rcases update_cases held with ⟨rfl,equal⟩ | ⟨_,held⟩
    · cases equal
      exact own
    · exact conserved.own v u held
  · have moved := tally_update Option.isSome s.holding w (some t)
    rw [free] at moved
    have active := conserved.active
    simp only [State.take,Option.isSome_some,if_true]
    simp only [Option.isSome_none,Option.isSome_some,Bool.toNat_false,Bool.toNat_true] at moved
    omega

theorem finish_conserved (conserved : Conserved tid s) (held : s.holding w = some t) :
    Conserved tid (s.finish w t) := by
  refine ⟨conserved.numbered,?_,?_,?_⟩
  · intro other
    have placed := conserved.placed other
    have moved := tally_update (fun held => held == some other) s.holding w none
    rw [held] at moved
    simp only [State.places,State.finish,List.count_append,count_held] at placed ⊢
    simp only [Option.none_beq_some,Bool.toNat_false,Nat.add_zero] at moved
    omega
  · intro v u held
    rcases update_cases held with ⟨_,equal⟩ | ⟨_,held⟩
    · cases equal
    · exact conserved.own v u held
  · have moved := tally_update Option.isSome s.holding w none
    rw [held] at moved
    have active := conserved.active
    simp only [State.finish]
    simp only [Option.isSome_none,Option.isSome_some,Bool.toNat_false,Bool.toNat_true] at moved
    omega

theorem next_conserved (conserved : Conserved tid s) {a : Action n Fiber Callback}
    (moved : next tid s a = some u) : Conserved tid u := by
  cases a with
  | schedule fc thread =>
      cases moved
      exact schedule_conserved conserved fc thread
  | dequeue w running =>
      obtain ⟨free,takes⟩ := dequeue_takes moved
      cases takes with
      | none => exact conserved
      | some front t whole skipped allowed => exact took_conserved conserved free whole (mayRun_own allowed) true
  | finish w =>
      obtain ⟨t,held,rfl⟩ := Option.map_eq_some_iff.mp moved
      exact finish_conserved conserved held

theorem reached_conserved (path : Reached (next tid) anyStep Start s) : Conserved tid s :=
  path.invariant (fun _ begins => begins ▸ initial_conserved) fun _ _ _ conserved _ moved => next_conserved conserved moved

theorem conserved_nodup (conserved : Conserved tid s) : s.pushed.Nodup := by
  apply List.Nodup.of_map ScheduleTask.ticket
  rw [conserved.numbered]
  exact List.nodup_range

theorem tasks_in_one_place (path : Reached (next tid) anyStep Start s) :
    (∀ t ∈ s.pushed, s.places t = 1) ∧
    (∀ t ∉ s.pushed, s.places t = 0) ∧
    (∀ work thread u, next tid s (.schedule (some work) thread) = some u →
      ∃ t, t.work = work ∧ t.thread = thread ∧ t ∉ s.pushed ∧ u.pushed = s.pushed ++ [t]) ∧
    (∀ w t, s.holding w = some t → t.thread = -1 ∨ t.thread = tid w) ∧
    (∀ w running u, next tid s (.dequeue w running) = some u → Takes tid s w running u) ∧
    s.active = tally Option.isSome s.holding := by
  have conserved := reached_conserved path
  have distinct := conserved_nodup conserved
  refine ⟨?_,?_,?_,conserved.own,?_,conserved.active⟩
  · intro t member
    rw [conserved.placed]
    exact List.count_eq_one_of_mem distinct member
  · intro t absent
    rw [conserved.placed]
    exact List.count_eq_zero_of_not_mem absent
  · intro work thread u moved
    cases moved
    refine ⟨⟨work,thread,s.pushed.length⟩,rfl,rfl,?_,rfl⟩
    intro member
    have later := conserved_nodup (schedule_conserved conserved (some work) thread)
    exact (List.nodup_append.mp later).2.2 _ member _ (by simp [makeTask]) rfl
  · exact fun w running u moved => (dequeue_takes moved).2

end Places

def ownId (w : Fin n) : Int := w.val

def w0 : Fin 2 := 0

def w1 : Fin 2 := 1

-- Worker 0 passes over the task of thread 1 and takes the callback behind it.
def pinnedRun : List (Action 2 Nat Nat) :=
  [.schedule (some (.fiber 7)) 1,.schedule (some (.callback 9)) (-1),.dequeue w0 fun _ => false]

def pinnedSample : State 2 Nat Nat := (run (next ownId) .initial pinnedRun).getD .initial

theorem pinnedSample_reached : Reached (next ownId) anyStep Start pinnedSample :=
  Reached.run (.start rfl) along_any (show run (next ownId) .initial pinnedRun = some pinnedSample from rfl)

theorem tasks_in_one_place_pinned : (∀ t ∈ pinnedSample.pushed, pinnedSample.places t = 1) ∧
    (1 : Int) = tally Option.isSome pinnedSample.holding :=
  ⟨(tasks_in_one_place pinnedSample_reached).1,(tasks_in_one_place pinnedSample_reached).2.2.2.2.2⟩

end Fishjoy.Scheduler
