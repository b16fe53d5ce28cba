import Fishjoy.Scheduler
import Fishjoy.Foundation.Transition
import Fishjoy.Foundation.Crew

namespace Fishjoy.IOManagerWakeup
open Transition Crew Scheduler

-- A worker between two scans of the queue. `scanned` is behind the lock with
-- `tickle_me`, `writing` in `tickle` behind its test, `chosen` before the branch
-- on the task; from `idling` to `woken` it is counted in `m_idleThreadCount`.
inductive Phase (Fiber Callback : Type) where
  | loop
  | scanned (task : Option (ScheduleTask Fiber Callback)) (tickleMe : Bool)
  | writing (task : Option (ScheduleTask Fiber Callback))
  | chosen (task : Option (ScheduleTask Fiber Callback))
  | working (f : Fiber)
  | stopped
  | idling
  | blocked
  | woken

-- `calls` and `writes` count the calls of `schedule` that are before the test of
-- `tickle` and before its `write`; `running` is `m_state = RUNNING`.
structure State (n : Nat) (Fiber Callback : Type) where
  tasks : List (ScheduleTask Fiber Callback)
  idle : Int
  pipe : Nat
  calls : Nat
  writes : Nat
  phase : Fin n → Phase Fiber Callback
  running : Fiber → Bool

inductive Action (n : Nat) (Fiber Callback : Type) where
  | schedule (fc : Option (Work Fiber Callback)) (thread : Int)
  | scheduleTickle
  | scheduleWrite
  | dequeue (w : Fin n) (running : Nat → Bool)
  | tickle (w : Fin n)
  | write (w : Fin n)
  | resume (w : Fin n) (f : Fiber)
  | stop (w : Fin n)
  | finish (w : Fin n)
  | enterIdle (w : Fin n)
  | wait (w : Fin n)
  | wake (w : Fin n)
  | drain (w : Fin n)
  | yieldIdle (w : Fin n)

variable {Fiber Callback : Type} {n : Nat}

namespace State

def initial (running : Fiber → Bool) : State n Fiber Callback := ⟨[],0,0,0,0,fun _ => .loop,running⟩

def goto (s : State n Fiber Callback) (w : Fin n) (phase : Phase Fiber Callback) : State n Fiber Callback :=
  {s with phase := Function.update s.phase w phase}

def schedule (s : State n Fiber Callback) (fc : Option (Work Fiber Callback)) (thread : Int) : State n Fiber Callback :=
  let (needTickle,tasks) := scheduleNoLock s.tasks (makeTask fc thread 0)
  {s with tasks := tasks, calls := if needTickle then s.calls+1 else s.calls}

-- `hasIdleThreads` for a worker, which then writes or goes on.
def tickle (s : State n Fiber Callback) (w : Fin n) (task : Option (ScheduleTask Fiber Callback)) : State n Fiber Callback :=
  s.goto w (if s.idle > 0 then .writing task else .chosen task)

end State

-- A callback runs on a fiber of its own.
def runsOn (f : Fiber) [DecidableEq Fiber] : Work Fiber Callback → Bool
  | .fiber g => decide (g = f)
  | .callback _ => true

-- `wake` needs no cause: `epoll_wait` also returns for timers and descriptors.
def next [DecidableEq Fiber] (tid : Fin n → Int) (s : State n Fiber Callback) :
    Action n Fiber Callback → Option (State n Fiber Callback)
  | .schedule fc thread => some (s.schedule fc thread)
  | .scheduleTickle =>
    if s.calls = 0 then none
    else some {s with calls := s.calls-1, writes := if s.idle > 0 then s.writes+1 else s.writes}
  | .scheduleWrite => if s.writes = 0 then none else some {s with writes := s.writes-1, pipe := s.pipe+1}
  | .dequeue w running =>
    match s.phase w with
    | .loop =>
      let d := dequeue (tid w) running s.tasks
      some ({s with tasks := d.tasks}.goto w (.scanned d.task d.tickleMe))
    | _ => none
  | .tickle w =>
    match s.phase w with
    | .scanned task tickleMe => some (if tickleMe then s.tickle w task else s.goto w (.chosen task))
    | _ => none
  | .write w =>
    match s.phase w with
    | .writing task => some ({s with pipe := s.pipe+1}.goto w (.chosen task))
    | _ => none
  | .resume w f =>
    match s.phase w with
    | .chosen (some t) =>
      if runsOn f t.work && !s.running f then
        some ({s with running := Function.update s.running f true}.goto w (.working f))
      else none
    | _ => none
  | .stop w =>
    match s.phase w with
    | .working f => some ({s with running := Function.update s.running f false}.goto w .stopped)
    | _ => none
  | .finish w =>
    match s.phase w with
    | .stopped => some (s.goto w .loop)
    | _ => none
  | .enterIdle w =>
    match s.phase w with
    | .chosen none => some ({s with idle := s.idle+1}.goto w .idling)
    | _ => none
  | .wait w =>
    match s.phase w with
    | .idling => some (s.goto w .blocked)
    | _ => none
  | .wake w =>
    match s.phase w with
    | .blocked => some (s.goto w .woken)
    | _ => none
  | .drain w =>
    match s.phase w with
    | .woken => some {s with pipe := 0}
    | _ => none
  | .yieldIdle w =>
    match s.phase w with
    | .woken => some ({s with idle := s.idle-1}.goto w .loop)
    | _ => none

def Start (s : State n Fiber Callback) : Prop := ∃ running, s = .initial running

-- A task that one of the workers may run now.
def Waiting (tid : Fin n → Int) (s : State n Fiber Callback) : Prop :=
  ∃ t ∈ s.tasks, ∃ w, (t.thread = -1 ∨ t.thread = tid w) ∧ ∀ f, t.work = .fiber f → s.running f = false

-- Every worker sleeps, the pipe is empty and a task waits.
structure Asleep (tid : Fin n → Int) (s : State n Fiber Callback) : Prop where
  blocked : ∀ w, s.phase w = .blocked
  pipe : s.pipe = 0
  waiting : Waiting tid s

-- Nor is a call of `schedule` between its push and the end of its `tickle`.
structure Lost (tid : Fin n → Int) (s : State n Fiber Callback) : Prop where
  asleep : Asleep tid s
  settled : s.calls = 0 ∧ s.writes = 0

-- A call of `schedule` puts a byte into the pipe with its own next steps.
def Coming [DecidableEq Fiber] (tid : Fin n → Int) (s : State n Fiber Callback) : Prop :=
  ∃ actions u, (∀ a ∈ actions, a = .scheduleTickle ∨ a = .scheduleWrite) ∧
    run (next tid) s actions = some u ∧ 0 < u.pipe

-- The worker scans the queue again before it blocks, or is about to write to
-- the pipe or to test whether it has to.
def Phase.notifies : Phase Fiber Callback → Bool
  | .loop | .writing _ | .working _ | .stopped | .woken => true
  | .scanned task tickleMe => task.isSome || tickleMe
  | .chosen task => task.isSome
  | .idling | .blocked => false

def Notified (s : State n Fiber Callback) : Prop :=
  0 < s.calls ∨ 0 < s.writes ∨ 0 < s.pipe ∨ ∃ w, (s.phase w).notifies = true

instance (s : State n Fiber Callback) : Decidable (Notified s) :=
  inferInstanceAs (Decidable (0 < s.calls ∨ 0 < s.writes ∨ 0 < s.pipe ∨ ∃ w, (s.phase w).notifies = true))

def eligible (tid : Fin n → Int) (thread : Int) : Bool := decide (thread = -1 ∨ ∃ w, thread = tid w)

def someEligible (tid : Fin n → Int) (s : State n Fiber Callback) : Bool := s.tasks.any fun t => eligible tid t.thread

def seenRunning (thread : Int) (running : Bool) (t : ScheduleTask Fiber Callback) : Bool :=
  decide (t.thread = -1 ∨ t.thread = thread) && t.work.fiber?.isSome && running

-- What must hold before a step: somebody else notifies when a task is pushed
-- without `tickle`, when a `tickle` sees no idle thread while a task waits for
-- some worker, and when a scan passes over the whole queue because the fibers
-- are running.
def heard (tid : Fin n → Int) (s : State n Fiber Callback) : Action n Fiber Callback → Bool
  | .schedule fc thread => fc.isNone || !eligible tid thread || s.tasks.isEmpty || decide (Notified s)
  | .scheduleTickle => decide (s.idle > 0) || !someEligible tid s || decide (Notified {s with calls := s.calls-1})
  | .tickle w =>
    match s.phase w with
    | .scanned task true => decide (s.idle > 0) || !someEligible tid s || decide (Notified (s.goto w (.chosen task)))
    | _ => true
  | .dequeue w running =>
    s.tasks.isEmpty || decide (∃ i : Fin s.tasks.length, seenRunning (tid w) (running i) s.tasks[i] = false) ||
      decide (Notified (s.goto w (.chosen none)))
  | _ => true

-- While a task waits that some worker may take, somebody will look or be told.
def Watched (tid : Fin n → Int) (s : State n Fiber Callback) : Prop := someEligible tid s = true → Notified s

-- What a step finds and leaves.
inductive Moves [DecidableEq Fiber] (tid : Fin n → Int) (s : State n Fiber Callback) :
    Action n Fiber Callback → State n Fiber Callback → Prop where
  | schedule : Moves tid s (.schedule fc thread) (s.schedule fc thread)
  | scheduleTickle (called : 0 < s.calls) : Moves tid s .scheduleTickle
      {s with calls := s.calls-1, writes := if s.idle > 0 then s.writes+1 else s.writes}
  | scheduleWrite (seen : 0 < s.writes) :
      Moves tid s .scheduleWrite {s with writes := s.writes-1, pipe := s.pipe+1}
  | dequeue (inLoop : s.phase w = .loop) : Moves tid s (.dequeue w running)
      ({s with tasks := (dequeue (tid w) running s.tasks).tasks}.goto w
        (.scanned (dequeue (tid w) running s.tasks).task (dequeue (tid w) running s.tasks).tickleMe))
  | tickle (scanned : s.phase w = .scanned task true) : Moves tid s (.tickle w) (s.tickle w task)
  | skipTickle (scanned : s.phase w = .scanned task false) : Moves tid s (.tickle w) (s.goto w (.chosen task))
  | write (writing : s.phase w = .writing task) :
      Moves tid s (.write w) ({s with pipe := s.pipe+1}.goto w (.chosen task))
  | resume (chosen : s.phase w = .chosen (some t)) :
      Moves tid s (.resume w f) ({s with running := Function.update s.running f true}.goto w (.working f))
  | stop (working : s.phase w = .working f) :
      Moves tid s (.stop w) ({s with running := Function.update s.running f false}.goto w .stopped)
  | finish (stopped : s.phase w = .stopped) : Moves tid s (.finish w) (s.goto w .loop)
  | enterIdle (chosen : s.phase w = .chosen none) :
      Moves tid s (.enterIdle w) ({s with idle := s.idle+1}.goto w .idling)
  | wait (idling : s.phase w = .idling) : Moves tid s (.wait w) (s.goto w .blocked)
  | wake (blocked : s.phase w = .blocked) : Moves tid s (.wake w) (s.goto w .woken)
  | drain (woken : s.phase w = .woken) : Moves tid s (.drain w) {s with pipe := 0}
  | yieldIdle (woken : s.phase w = .woken) :
      Moves tid s (.yieldIdle w) ({s with idle := s.idle-1}.goto w .loop)

-- A worker that `m_idleThreadCount` counts.
def Phase.counted : Phase Fiber Callback → Bool
  | .idling | .blocked | .woken => true
  | _ => false

def Counted (s : State n Fiber Callback) : Prop := s.idle = tally Phase.counted s.phase

section Steps
variable {tid : Fin n → Int} {s u : State n Fiber Callback} {w : Fin n} {q : Phase Fiber Callback}

theorem next_moves [DecidableEq Fiber] {a : Action n Fiber Callback} (moved : next tid s a = some u) :
    Moves tid s a u := by
  cases a with
  | schedule fc thread => cases moved; exact .schedule
  | scheduleTickle =>
      simp only [next,Option.ite_none_left_eq_some,Option.some.injEq] at moved
      obtain ⟨called,rfl⟩ := moved
      exact .scheduleTickle (Nat.pos_of_ne_zero called)
  | scheduleWrite =>
      simp only [next,Option.ite_none_left_eq_some,Option.some.injEq] at moved
      obtain ⟨seen,rfl⟩ := moved
      exact .scheduleWrite (Nat.pos_of_ne_zero seen)
  | dequeue w running =>
      simp only [next] at moved
      split at moved
      · cases moved; exact .dequeue ‹_›
      · cases moved
  | tickle w =>
      simp only [next] at moved
      split at moved
      case h_1 task tickleMe scanned =>
        cases tickleMe with
        | true => cases moved; exact .tickle scanned
        | false => cases moved; exact .skipTickle scanned
      case h_2 => cases moved
  | resume w f =>
      simp only [next] at moved
      split at moved
      case h_1 t chosen =>
        simp only [Option.ite_none_right_eq_some,Option.some.injEq] at moved
        obtain ⟨_,rfl⟩ := moved
        exact .resume chosen
      case h_2 => cases moved
  | write w =>
      simp only [next] at moved
      split at moved
      · cases moved; exact .write ‹_›
      · cases moved
  | stop w =>
      simp only [next] at moved
      split at moved
      · cases moved; exact .stop ‹_›
      · cases moved
  | finish w =>
      simp only [next] at moved
      split at moved
      · cases moved; exact .finish ‹_›
      · cases moved
  | enterIdle w =>
      simp only [next] at moved
      split at moved
      · cases moved; exact .enterIdle ‹_›
      · cases moved
  | wait w =>
      simp only [next] at moved
      split at moved
      · cases moved; exact .wait ‹_›
      · cases moved
  | wake w =>
      simp only [next] at moved
      split at moved
      · cases moved; exact .wake ‹_›
      · cases moved
  | drain w =>
      simp only [next] at moved
      split at moved
      · cases moved; exact .drain ‹_›
      · cases moved
  | yieldIdle w =>
      simp only [next] at moved
      split at moved
      · cases moved; exact .yieldIdle ‹_›
      · cases moved

theorem goto_counted (counted : Counted s) {idle : Int}
    (moved : idle+(s.phase w).counted.toNat = s.idle+q.counted.toNat) :
    idle = tally Phase.counted (Function.update s.phase w q) := by
  have sum := tally_update Phase.counted s.phase w q
  have before : s.idle = tally Phase.counted s.phase := counted
  omega

theorem next_counted [DecidableEq Fiber] {a : Action n Fiber Callback} (counted : Counted s)
    (moved : next tid s a = some u) : Counted u := by
  cases next_moves moved with
  | schedule => exact counted
  | scheduleTickle _ => exact counted
  | scheduleWrite _ => exact counted
  | drain _ => exact counted
  | dequeue inLoop => exact goto_counted counted (by rw [inLoop]; rfl)
  | tickle scanned =>
      unfold State.tickle
      split
      · exact goto_counted counted (by rw [scanned]; rfl)
      · exact goto_counted counted (by rw [scanned]; rfl)
  | skipTickle scanned => exact goto_counted counted (by rw [scanned]; rfl)
  | write writing => exact goto_counted counted (by rw [writing]; rfl)
  | resume chosen => exact goto_counted counted (by rw [chosen]; rfl)
  | stop working => exact goto_counted counted (by rw [working]; rfl)
  | finish stopped => exact goto_counted counted (by rw [stopped]; rfl)
  | enterIdle chosen => exact goto_counted counted (by rw [chosen]; simp [State.goto,Phase.counted])
  | wait idling => exact goto_counted counted (by rw [idling]; rfl)
  | wake blocked => exact goto_counted counted (by rw [blocked]; rfl)
  | yieldIdle woken => exact goto_counted counted (by rw [woken]; simp [State.goto,Phase.counted])

theorem goto_notified (notifies : q.notifies = true) : Notified (s.goto w q) :=
  .inr (.inr (.inr ⟨w,by simpa [State.goto] using notifies⟩))

-- A worker that does not count may go where it likes.
theorem goto_keeps (notified : Notified s) (silent : (s.phase w).notifies = false) : Notified (s.goto w q) := by
  rcases notified with calls | writes | pipe | ⟨v,here⟩
  · exact .inl calls
  · exact .inr (.inl writes)
  · exact .inr (.inr (.inl pipe))
  · have apart : v ≠ w := by
      rintro rfl
      rw [silent] at here; cases here
    exact .inr (.inr (.inr ⟨v,by simpa [State.goto,apart] using here⟩))

theorem schedule_eligible (fc : Option (Work Fiber Callback)) (thread : Int) :
    someEligible tid (s.schedule fc thread) = (someEligible tid s || (fc.isSome && eligible tid thread)) := by
  cases fc with
  | none => simp [someEligible,State.schedule,scheduleNoLock,makeTask]
  | some work => simp [someEligible,State.schedule,scheduleNoLock,makeTask]

theorem schedule_watched (watched : Watched tid s) {fc : Option (Work Fiber Callback)} {thread : Int}
    (permitted : heard tid s (.schedule fc thread) = true) : Watched tid (s.schedule fc thread) := by
  intro waits
  by_cases empty : s.tasks.isEmpty = true
  · exact .inl (by simp [State.schedule,scheduleNoLock,empty])
  · have calls : (s.schedule fc thread).calls = s.calls := if_neg empty
    have before : Notified s := by
      rw [schedule_eligible,Bool.or_eq_true] at waits
      rcases waits with old | pushed
      · exact watched old
      · simp only [Bool.and_eq_true] at pushed
        rw [Bool.not_eq_true] at empty
        cases fc with
        | none => cases pushed.1
        | some work =>
            simp only [heard,Option.isNone_some,pushed.2,empty,Bool.not_true,Bool.false_or,decide_eq_true_eq] at permitted
            exact permitted
    rcases before with before | before
    · exact .inl (by rw [calls]; exact before)
    · exact .inr before

theorem scheduleTickle_watched (permitted : heard tid s .scheduleTickle = true) :
    Watched tid {s with calls := s.calls-1, writes := if s.idle > 0 then s.writes+1 else s.writes} := by
  intro waits
  by_cases seen : s.idle > 0
  · exact .inr (.inl (by simp [seen]))
  · have waits : someEligible tid s = true := waits
    simp only [heard,seen,waits,decide_false,Bool.not_true,Bool.false_or,decide_eq_true_eq] at permitted
    rw [if_neg seen]
    exact permitted

-- Which of the phases that count for nothing a worker is in makes no difference.
theorem goto_same {p : Phase Fiber Callback} (same : p.notifies = q.notifies) (notified : Notified (s.goto w p)) :
    Notified (s.goto w q) := by
  rcases notified with calls | writes | pipe | ⟨v,here⟩
  · exact .inl calls
  · exact .inr (.inl writes)
  · exact .inr (.inr (.inl pipe))
  · refine .inr (.inr (.inr ⟨v,?_⟩))
    by_cases at_w : v = w
    · subst v
      simpa [State.goto,same] using here
    · simpa [State.goto,at_w] using here

theorem dequeue_watched {running : Nat → Bool} (permitted : heard tid s (.dequeue w running) = true) :
    Watched tid ({s with tasks := (dequeue (tid w) running s.tasks).tasks}.goto w
      (.scanned (dequeue (tid w) running s.tasks).task (dequeue (tid w) running s.tasks).tickleMe)) := by
  intro waits
  cases taken : (dequeue (tid w) running s.tasks).task with
  | some t => exact goto_notified (by simp [Phase.notifies])
  | none =>
      cases silent : (dequeue (tid w) running s.tasks).tickleMe with
      | true => exact goto_notified (by simp [Phase.notifies])
      | false =>
          have nonempty : s.tasks.isEmpty = false := by
            cases tasks : s.tasks with
            | nil =>
                simp only [State.goto,someEligible,tasks] at waits
                cases waits
            | cons => rfl
          have passed : ¬∃ i : Fin s.tasks.length, seenRunning (tid w) (running i) s.tasks[i] = false := by
            rintro ⟨i,unseen⟩
            obtain ⟨own,fiber,runs⟩ := dequeue_silent taken silent i i.isLt
            simp [seenRunning,own,fiber,runs] at unseen
          simp only [heard,nonempty,passed,decide_false,Bool.or_false,Bool.false_or,decide_eq_true_eq] at permitted
          exact goto_same (p := .chosen none) rfl permitted

theorem tickle_watched {task : Option (ScheduleTask Fiber Callback)} (scanned : s.phase w = .scanned task true)
    (permitted : heard tid s (.tickle w) = true) : Watched tid (s.tickle w task) := by
  intro waits
  unfold State.tickle at waits ⊢
  by_cases seen : s.idle > 0
  · rw [if_pos seen]
    exact goto_notified rfl
  · rw [if_neg seen] at waits ⊢
    have waits : someEligible tid s = true := waits
    simp only [heard,scanned,seen,waits,decide_false,Bool.not_true,Bool.false_or,decide_eq_true_eq] at permitted
    exact permitted

-- The steps that do not touch the queue: the worker counts afterwards, or did
-- not count before, or has written to the pipe.
theorem goto_watched (watched : Watched tid s) (kind : q.notifies = true ∨ (s.phase w).notifies = false) :
    Watched tid (s.goto w q) := by
  intro waits
  rcases kind with notifies | silent
  · exact goto_notified notifies
  · exact goto_keeps (watched waits) silent

theorem next_watched (watched : Watched tid s) [DecidableEq Fiber] {a : Action n Fiber Callback}
    (permitted : heard tid s a = true) (moved : next tid s a = some u) : Watched tid u := by
  cases next_moves moved with
  | schedule => exact schedule_watched watched permitted
  | scheduleTickle _ => exact scheduleTickle_watched permitted
  | scheduleWrite _ => exact fun _ => .inr (.inr (.inl (Nat.succ_pos _)))
  | dequeue _ => exact dequeue_watched permitted
  | tickle scanned => exact tickle_watched scanned permitted
  | @skipTickle _ task scanned =>
      apply goto_watched watched
      rw [scanned]
      cases task with
      | none => exact .inr rfl
      | some t => exact .inl rfl
  | write _ => exact fun _ => .inr (.inr (.inl (Nat.succ_pos _)))
  | resume _ => exact goto_watched watched (.inl rfl)
  | stop _ => exact goto_watched watched (.inl rfl)
  | finish _ => exact goto_watched watched (.inl rfl)
  | enterIdle chosen => exact goto_watched watched (.inr (by simp [chosen,Phase.notifies]))
  | wait idling => exact goto_watched watched (.inr (by simp [idling,Phase.notifies]))
  | wake _ => exact goto_watched watched (.inl rfl)
  | @drain w woken => exact fun _ => .inr (.inr (.inr ⟨w,by simp [woken,Phase.notifies]⟩))
  | yieldIdle _ => exact goto_watched watched (.inl rfl)

theorem reached_watched [DecidableEq Fiber]
    (path : Reached (next tid) (fun s a => heard tid s a = true) Start s) : Watched tid s := by
  apply path.invariant
  · rintro s ⟨running,rfl⟩ waits
    cases waits
  · exact fun _ _ _ watched permitted moved => next_watched watched permitted moved

theorem reached_counted [DecidableEq Fiber] (path : Reached (next tid) law Start s) : Counted s := by
  apply path.invariant
  · rintro s ⟨running,rfl⟩
    exact congrArg Nat.cast (tally_eq_zero.mpr fun _ => rfl).symm
  · exact fun _ _ _ counted _ moved => next_counted counted moved

theorem waiting_eligible (waiting : Waiting tid s) : someEligible tid s = true := by
  obtain ⟨t,member,w,own,_⟩ := waiting
  refine List.any_eq_true.mpr ⟨t,member,decide_eq_true ?_⟩
  rcases own with any | mine
  · exact .inl any
  · exact .inr ⟨w,mine⟩

-- The sleepers are counted, so a call that has still to test will write.
theorem asleep_coming [DecidableEq Fiber] (watched : Watched tid s) (counted : Counted s) (asleep : Asleep tid s) :
    Coming tid s := by
  obtain ⟨blocked,pipe,waiting⟩ := asleep
  obtain ⟨_,_,w,_⟩ := id waiting
  have idle : s.idle > 0 := by
    have some : tally Phase.counted s.phase ≠ 0 := by
      intro none
      have here := tally_eq_zero.mp none w
      rw [blocked w] at here
      cases here
    have same : s.idle = tally Phase.counted s.phase := counted
    omega
  rcases watched (waiting_eligible waiting) with called | written | piped | ⟨v,notifies⟩
  · refine ⟨[.scheduleTickle,.scheduleWrite],{s with calls := s.calls-1, pipe := s.pipe+1},?_,?_,Nat.succ_pos _⟩
    · simp
    · simp [run,next,Nat.ne_of_gt called,idle]
  · refine ⟨[.scheduleWrite],{s with writes := s.writes-1, pipe := s.pipe+1},?_,?_,Nat.succ_pos _⟩
    · simp
    · simp [run,next,Nat.ne_of_gt written]
  · omega
  · rw [blocked v] at notifies
    cases notifies

theorem watched_found (watched : Watched tid s) : ¬Lost tid s := by
  rintro ⟨⟨blocked,pipe,waiting⟩,calls,writes⟩
  rcases watched (waiting_eligible waiting) with called | written | piped | ⟨v,notifies⟩
  · omega
  · omega
  · omega
  · rw [blocked v] at notifies
    cases notifies

-- Behind a step that is not heard, nobody notifies any more.
theorem unheard_silent [DecidableEq Fiber] {a : Action n Fiber Callback} (moved : next tid s a = some u)
    (unheard : heard tid s a = false) : ¬Notified u := by
  cases next_moves moved with
  | @schedule fc thread =>
      simp only [heard,Bool.or_eq_false_iff,decide_eq_false_iff_not] at unheard
      obtain ⟨⟨_,nonempty⟩,silent⟩ := unheard
      have calls : (s.schedule fc thread).calls = s.calls := if_neg (by simp [nonempty])
      rintro (called | notified)
      · exact silent (.inl (by rw [←calls]; exact called))
      · exact silent (.inr notified)
  | scheduleTickle _ =>
      simp only [heard,Bool.or_eq_false_iff,decide_eq_false_iff_not] at unheard
      rw [if_neg unheard.1.1]
      exact unheard.2
  | @dequeue w running _ =>
      simp only [heard,Bool.or_eq_false_iff,decide_eq_false_iff_not,not_exists,Bool.not_eq_false] at unheard
      obtain ⟨⟨_,passed⟩,silent⟩ := unheard
      have same : dequeue (tid w) running s.tasks = ⟨none,s.tasks,false⟩ := by
        apply dequeueFrom_passes
        intro k bound
        have seen := passed ⟨k,bound⟩
        simp only [seenRunning,Bool.and_eq_true,decide_eq_true_eq] at seen
        rw [Nat.zero_add]
        exact ⟨seen.1.1,seen.1.2,seen.2⟩
      rw [same]
      exact fun notified => silent (goto_same (p := .scanned none false) rfl notified)
  | tickle scanned =>
      simp only [heard,scanned,Bool.or_eq_false_iff,decide_eq_false_iff_not] at unheard
      rw [State.tickle,if_neg unheard.1.1]
      exact unheard.2
  | skipTickle scanned => simp [heard,scanned] at unheard
  | _ => cases unheard

-- All but the phases and the idle counter stays as it was.
structure Resting (s u : State n Fiber Callback) : Prop where
  tasks : u.tasks = s.tasks
  running : u.running = s.running
  pipe : u.pipe = s.pipe
  calls : u.calls = s.calls
  writes : u.writes = s.writes

theorem Resting.trans {x : State n Fiber Callback} (first : Resting s u) (second : Resting u x) : Resting s x :=
  ⟨second.tasks.trans first.tasks,second.running.trans first.running,second.pipe.trans first.pipe,
    second.calls.trans first.calls,second.writes.trans first.writes⟩

variable (tid) in
theorem sleep_worker [DecidableEq Fiber] (silent : (s.phase w).notifies = false) :
    ∃ actions u, run (next tid) s actions = some u ∧ u.phase = Function.update s.phase w .blocked ∧ Resting s u := by
  cases at_w : s.phase w with
  | scanned task tickleMe =>
      rw [at_w] at silent
      simp only [Phase.notifies,Bool.or_eq_false_iff,Option.isSome_eq_false_iff,Option.isNone_iff_eq_none] at silent
      obtain ⟨rfl,rfl⟩ := silent
      refine ⟨[.tickle w,.enterIdle w,.wait w],
        ({s.goto w (.chosen none) with idle := s.idle+1}.goto w .idling).goto w .blocked,?_,?_,⟨rfl,rfl,rfl,rfl,rfl⟩⟩
      · simp [run,next,at_w,State.goto]
      · simp [State.goto]
  | chosen task =>
      rw [at_w] at silent
      simp only [Phase.notifies,Option.isSome_eq_false_iff,Option.isNone_iff_eq_none] at silent
      obtain rfl := silent
      refine ⟨[.enterIdle w,.wait w],({s with idle := s.idle+1}.goto w .idling).goto w .blocked,?_,?_,
        ⟨rfl,rfl,rfl,rfl,rfl⟩⟩
      · simp [run,next,at_w,State.goto]
      · simp [State.goto]
  | idling =>
      refine ⟨[.wait w],s.goto w .blocked,?_,rfl,⟨rfl,rfl,rfl,rfl,rfl⟩⟩
      simp [run,next,at_w]
  | blocked =>
      refine ⟨[],s,rfl,?_,⟨rfl,rfl,rfl,rfl,rfl⟩⟩
      rw [←at_w,Function.update_eq_self]
  | _ => rw [at_w] at silent; cases silent

variable (tid) in
-- Without a notice the workers fall asleep one after another.
theorem sleep_all [DecidableEq Fiber] (silent : ¬Notified s) (ws : List (Fin n)) :
    ∃ actions u, run (next tid) s actions = some u ∧ ¬Notified u ∧ Resting s u ∧ ∀ w ∈ ws, u.phase w = .blocked := by
  induction ws with
  | nil => exact ⟨[],s,rfl,silent,⟨rfl,rfl,rfl,rfl,rfl⟩,fun w member => nomatch member⟩
  | cons w rest ih =>
      obtain ⟨earlier,m,ran,quiet,resting,asleep⟩ := ih
      have here : (m.phase w).notifies = false :=
        Bool.eq_false_iff.mpr fun notifies => quiet (.inr (.inr (.inr ⟨w,notifies⟩)))
      obtain ⟨later,u,slept,phase,rests⟩ := sleep_worker tid here
      refine ⟨earlier ++ later,u,run_append ran slept,?_,resting.trans rests,?_⟩
      · rintro (calls | writes | pipe | ⟨v,notifies⟩)
        · exact quiet (.inl (by rw [←rests.calls]; exact calls))
        · exact quiet (.inr (.inl (by rw [←rests.writes]; exact writes)))
        · exact quiet (.inr (.inr (.inl (by rw [←rests.pipe]; exact pipe))))
        · rw [phase] at notifies
          by_cases same : v = w
          · subst v
            rw [Function.update_self] at notifies
            cases notifies
          · rw [Function.update_of_ne same] at notifies
            exact quiet (.inr (.inr (.inr ⟨v,notifies⟩)))
      · intro v member
        rw [phase]
        by_cases same : v = w
        · rw [same,Function.update_self]
        · rw [Function.update_of_ne same]
          exact asleep v ((List.mem_cons.mp member).resolve_left same)

theorem silent_lost [DecidableEq Fiber] (silent : ¬Notified s) (waiting : Waiting tid s) :
    ∃ actions u, run (next tid) s actions = some u ∧ Lost tid u := by
  obtain ⟨actions,u,ran,quiet,resting,asleep⟩ := sleep_all tid silent (List.finRange n)
  refine ⟨actions,u,ran,⟨fun w => asleep w (List.mem_finRange w),?_,?_⟩,?_,?_⟩
  · exact Nat.eq_zero_of_not_pos fun pipe => quiet (.inr (.inr (.inl pipe)))
  · rw [Waiting,resting.tasks,resting.running]
    exact waiting
  · exact Nat.eq_zero_of_not_pos fun calls => quiet (.inl calls)
  · exact Nat.eq_zero_of_not_pos fun writes => quiet (.inr (.inl writes))

theorem wakeups_kept [DecidableEq Fiber] :
    (∀ s : State n Fiber Callback, Reached (next tid) (fun s a => heard tid s a = true) Start s →
      ¬Lost tid s ∧ (Asleep tid s → Coming tid s)) ∧
    ∀ s : State n Fiber Callback, Reached (next tid) (fun s a => heard tid s a = true) Start s →
      ∀ a u, next tid s a = some u → heard tid s a = false → Waiting tid u →
        ∃ actions x, run (next tid) u actions = some x ∧ Lost tid x := by
  refine ⟨?_,?_⟩
  · intro s path
    have watched := reached_watched path
    exact ⟨watched_found watched,asleep_coming watched (reached_counted path)⟩
  · exact fun s _ a u moved unheard waiting => silent_lost (unheard_silent moved unheard) waiting

end Steps

-- The worker has found the queue empty and is not counted yet when the callback
-- is pushed: `tickle` writes nothing, and the worker blocks.
def sleptRun : List (Action 1 Nat Nat) :=
  [.dequeue 0 fun _ => false,.tickle 0,.schedule (some (.callback 5)) (-1),.scheduleTickle,.enterIdle 0,.wait 0]

def sleptSample : State 1 Nat Nat := (run (next fun _ => 0) (.initial fun _ => false) sleptRun).getD (.initial fun _ => false)

theorem sleptSample_reached : Reached (next fun _ => 0) anyStep Start sleptSample :=
  Reached.run (.start ⟨_,rfl⟩) along_any (show run (next fun _ => 0) (.initial fun _ => false) sleptRun = _ from rfl)

theorem sleptSample_lost : Lost (fun _ => 0) sleptSample := by
  refine ⟨⟨?_,rfl,⟨.callback 5,-1,0⟩,List.mem_singleton_self _,0,.inl rfl,?_⟩,rfl,rfl⟩
  · intro w
    have only : w = 0 := Subsingleton.elim w 0
    rw [only]
    rfl
  · intro f absurd
    cases absurd

theorem wakeups_lost :
    (¬∀ s : State 1 Nat Nat, Reached (next fun _ => 0) anyStep Start s → ¬Asleep (fun _ => 0) s) ∧
    ¬∀ s : State 1 Nat Nat, Reached (next fun _ => 0) anyStep Start s → ¬Lost (fun _ => 0) s :=
  ⟨fun kept => kept sleptSample sleptSample_reached sleptSample_lost.asleep,
    fun kept => kept sleptSample sleptSample_reached sleptSample_lost⟩

-- The same callback is pushed when the worker is counted.
def wokenRun : List (Action 1 Nat Nat) :=
  [.dequeue 0 fun _ => false,.tickle 0,.enterIdle 0,.schedule (some (.callback 5)) (-1),.scheduleTickle,.wait 0,
    .scheduleWrite]

def wokenSample : State 1 Nat Nat := (run (next fun _ => 0) (.initial fun _ => false) wokenRun).getD (.initial fun _ => false)

theorem wakeups_kept_woken : wokenSample.pipe = 1 ∧ ¬Lost (fun _ => 0) wokenSample := by
  have path : Reached (next fun _ => 0) (fun s a => heard (fun _ => 0) s a = true) Start wokenSample :=
    Reached.run (.start ⟨_,rfl⟩) (show Along (next fun _ => 0) _ (.initial fun _ => false) wokenRun by decide) rfl
  exact ⟨rfl,(wakeups_kept.1 wokenSample path).1⟩

end Fishjoy.IOManagerWakeup
