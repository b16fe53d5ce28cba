import Fishjoy.SchedulerQueue

namespace Fishjoy.FiberHandoff
open Transition Crew Scheduler

inductive FiberState where
  | ready
  | running
  | term
  deriving DecidableEq

-- Where a worker is with the fiber of its task. `picked` is behind the dequeue;
-- between `entering` and `executing` is the `swapcontext` of `Fiber::resume`,
-- and `yielding` is behind the write of `m_state` and before the `swapcontext`
-- of `Fiber::yield`, so the context is not saved yet.
inductive Phase (Fiber Callback : Type) where
  | loop
  | calling (c : Callback)
  | picked (f : Fiber)
  | entering (f : Fiber)
  | executing (f : Fiber)
  | yielding (f : Fiber)

variable {Fiber Callback : Type} {n : Nat}

def Phase.of : Option (Work Fiber Callback) → Phase Fiber Callback
  | none => .loop
  | some (.fiber f) => .picked f
  | some (.callback c) => .calling c

def Phase.fiber? : Phase Fiber Callback → Option Fiber
  | .loop | .calling _ => none
  | .picked f | .entering f | .executing f | .yielding f => some f

-- `pending` is history: the fiber was scheduled and not entered since.
structure State (n : Nat) (Fiber Callback : Type) where
  queue : Scheduler.State n Fiber Callback
  phase : Fin n → Phase Fiber Callback
  state : Fiber → FiberState
  made : Fiber → Bool
  pending : Fiber → Bool

inductive Action (n : Nat) (Fiber Callback : Type) where
  | construct (f : Fiber)
  | schedule (fc : Option (Work Fiber Callback)) (thread : Int)
  | dequeue (w : Fin n) (running : Nat → Bool)
  | newFiber (w : Fin n) (f : Fiber)
  | resumeState (w : Fin n)
  | enter (w : Fin n)
  | yieldState (w : Fin n)
  | finish (w : Fin n)
  | save (w : Fin n)

variable [DecidableEq Fiber]

namespace State

def initial : State n Fiber Callback :=
  ⟨.initial,fun _ => .loop,fun _ => .ready,fun _ => false,fun _ => false⟩

def goto (s : State n Fiber Callback) (w : Fin n) (phase : Phase Fiber Callback) : State n Fiber Callback :=
  {s with phase := Function.update s.phase w phase}

def become (s : State n Fiber Callback) (f : Fiber) (state : FiberState) : State n Fiber Callback :=
  {s with state := Function.update s.state f state}

def mark (s : State n Fiber Callback) (f : Fiber) (pending : Bool) : State n Fiber Callback :=
  {s with pending := Function.update s.pending f pending}

def construct (s : State n Fiber Callback) (f : Fiber) : State n Fiber Callback :=
  {s.become f .ready with made := Function.update s.made f true}

-- The test of the task that is taken is the last one of the scan.
def mayTake (s : State n Fiber Callback) (d : Dequeued Fiber Callback) : Bool :=
  match d.task.map ScheduleTask.work with
  | some (.fiber f) => s.state f != .running
  | _ => true

def yieldState (s : State n Fiber Callback) (f : Fiber) : State n Fiber Callback :=
  if s.state f = .term then s else s.become f .ready

end State

-- An assertion that fails is no step. A callback task gets a fiber of its own,
-- which its worker alone resumes.
def next (tid : Fin n → Int) (s : State n Fiber Callback) : Action n Fiber Callback → Option (State n Fiber Callback)
  | .construct f => if s.made f then none else some (s.construct f)
  | .schedule fc thread =>
    let scheduled := {s with queue := s.queue.schedule fc thread}
    match fc with
    | some (.fiber f) => if s.made f then some (scheduled.mark f true) else none
    | _ => some scheduled
  | .dequeue w running =>
    let d := dequeue (tid w) running s.queue.tasks
    match s.phase w with
    | .loop =>
      if (s.queue.holding w).isNone && s.mayTake d then
        some ({s with queue := s.queue.take w d}.goto w (.of (d.task.map ScheduleTask.work)))
      else none
    | _ => none
  | .newFiber w f =>
    match s.phase w with
    | .calling _ => if s.made f then none else some (((s.construct f).mark f true).goto w (.picked f))
    | _ => none
  | .resumeState w =>
    match s.phase w with
    | .picked f => if s.state f = .ready then some ((s.become f .running).goto w (.entering f)) else none
    | _ => none
  | .enter w =>
    match s.phase w with
    | .entering f => some ((s.mark f false).goto w (.executing f))
    | _ => none
  | .yieldState w =>
    match s.phase w with
    | .executing f => if s.state f = .ready then none else some ((s.yieldState f).goto w (.yielding f))
    | _ => none
  | .finish w =>
    match s.phase w with
    | .executing f => some ((s.become f .term).goto w (.yielding f))
    | _ => none
  | .save w =>
    match s.phase w,s.queue.holding w with
    | .yielding _,some t => some ({s with queue := s.queue.finish w t}.goto w .loop)
    | _,_ => none

def Start (s : State n Fiber Callback) : Prop := s = .initial

-- A fiber is scheduled at most once between two entries, and one that is
-- scheduled does not end before it yields.
def supported (s : State n Fiber Callback) : Action n Fiber Callback → Bool
  | .schedule (some (.fiber f)) _ => !s.pending f && s.state f != .term
  | .finish w =>
    match s.phase w with
    | .executing f => !s.pending f
    | _ => true
  | _ => true

def Phase.saves (f : Fiber) : Phase Fiber Callback → Bool
  | .yielding g => decide (g = f)
  | _ => false

-- No dequeue takes a fiber whose context its worker has still to save.
def saved (tid : Fin n → Int) (s : State n Fiber Callback) : Action n Fiber Callback → Bool
  | .dequeue w running =>
    match (dequeue (tid w) running s.queue.tasks).task.map ScheduleTask.work with
    | some (.fiber f) => decide (∀ v, (s.phase v).saves f = false)
    | _ => true
  | _ => true

def Phase.claims (f : Fiber) : Phase Fiber Callback → Bool
  | .picked g | .entering g => decide (g = f)
  | _ => false

def Phase.onStack (f : Fiber) : Phase Fiber Callback → Bool
  | .executing g | .yielding g => decide (g = f)
  | _ => false

def Phase.runs (f : Fiber) : Phase Fiber Callback → Bool
  | .entering g | .executing g => decide (g = f)
  | _ => false

-- What a step does, its guards included.
inductive Moves (tid : Fin n → Int) (s : State n Fiber Callback) :
    Action n Fiber Callback → State n Fiber Callback → Prop where
  | construct (fresh : s.made f = false) : Moves tid s (.construct f) (s.construct f)
  | scheduleFiber (made : s.made f = true) : Moves tid s (.schedule (some (.fiber f)) thread)
      ({s with queue := s.queue.schedule (some (.fiber f)) thread}.mark f true)
  | schedule (other : ∀ f, fc ≠ some (.fiber f)) :
      Moves tid s (.schedule fc thread) {s with queue := s.queue.schedule fc thread}
  | none (inLoop : s.phase w = .loop) (taken : (dequeue (tid w) running s.queue.tasks).task = none) :
      Moves tid s (.dequeue w running) (s.goto w .loop)
  | fiber (front : List (ScheduleTask Fiber Callback)) (inLoop : s.phase w = .loop) (idle : s.state f ≠ .running)
      (taken : (dequeue (tid w) running s.queue.tasks).task = some t) (work : t.work = .fiber f)
      (whole : s.queue.tasks = front ++ t :: back) (tasks : queue.tasks = front ++ back) :
      Moves tid s (.dequeue w running) ({s with queue := queue}.goto w (.picked f))
  | callback (front : List (ScheduleTask Fiber Callback)) (inLoop : s.phase w = .loop)
      (taken : (dequeue (tid w) running s.queue.tasks).task = some t) (work : t.work = .callback c)
      (whole : s.queue.tasks = front ++ t :: back) (tasks : queue.tasks = front ++ back) :
      Moves tid s (.dequeue w running) ({s with queue := queue}.goto w (.calling c))
  | newFiber (calling : s.phase w = .calling c) (fresh : s.made f = false) :
      Moves tid s (.newFiber w f) (((s.construct f).mark f true).goto w (.picked f))
  | resumeState (picked : s.phase w = .picked f) (ready : s.state f = .ready) :
      Moves tid s (.resumeState w) ((s.become f .running).goto w (.entering f))
  | enter (entering : s.phase w = .entering f) : Moves tid s (.enter w) ((s.mark f false).goto w (.executing f))
  | yieldState (executing : s.phase w = .executing f) :
      Moves tid s (.yieldState w) ((s.yieldState f).goto w (.yielding f))
  | finish (executing : s.phase w = .executing f) :
      Moves tid s (.finish w) ((s.become f .term).goto w (.yielding f))
  | save (yielding : s.phase w = .yielding f) :
      Moves tid s (.save w) ({s with queue := s.queue.finish w t}.goto w .loop)

section Steps
variable {tid : Fin n → Int} {s u : State n Fiber Callback} {a : Action n Fiber Callback} {w : Fin n}

theorem dequeue_moves {running : Nat → Bool} (inLoop : s.phase w = .loop) (free : s.queue.holding w = none)
    (may : s.mayTake (dequeue (tid w) running s.queue.tasks) = true) :
    Moves tid s (.dequeue w running)
      ({s with queue := s.queue.take w (dequeue (tid w) running s.queue.tasks)}.goto w
        (.of ((dequeue (tid w) running s.queue.tasks).task.map ScheduleTask.work))) := by
  have spec := dequeue_dequeues (tid w) running s.queue.tasks
  generalize result : dequeue (tid w) running s.queue.tasks = d at spec may
  cases spec with
  | none skipped =>
      rw [idle_unchanged free]
      exact .none inLoop (by rw [result])
  | @some t back tickleMe front whole skipped allowed =>
      cases work : t.work with
      | fiber f =>
          have idle : s.state f ≠ .running := by simpa [State.mayTake,work] using may
          simp only [Option.map_some,work]
          exact .fiber front inLoop idle (by rw [result]) work whole rfl
      | callback c =>
          simp only [Option.map_some,work]
          exact .callback front inLoop (by rw [result]) work whole rfl

theorem next_moves (moved : next tid s a = some u) : Moves tid s a u := by
  cases a with
  | construct f =>
      simp only [next,Option.ite_none_left_eq_some,Option.some.injEq,Bool.not_eq_true] at moved
      obtain ⟨fresh,rfl⟩ := moved
      exact .construct fresh
  | schedule fc thread =>
      rcases fc with _ | f | c
      · cases moved
        exact .schedule fun f equal => nomatch equal
      · simp only [next,Option.ite_none_right_eq_some,Option.some.injEq] at moved
        obtain ⟨made,rfl⟩ := moved
        exact .scheduleFiber made
      · cases moved
        exact .schedule fun f equal => nomatch equal
  | dequeue w running =>
      cases inLoop : s.phase w with
      | loop =>
          simp only [next,inLoop,Option.ite_none_right_eq_some,Option.some.injEq,Bool.and_eq_true,
            Option.isNone_iff_eq_none] at moved
          obtain ⟨⟨free,may⟩,rfl⟩ := moved
          exact dequeue_moves inLoop free may
      | _ => simp [next,inLoop] at moved
  | newFiber w f =>
      cases calling : s.phase w with
      | calling c =>
          simp only [next,calling,Option.ite_none_left_eq_some,Option.some.injEq,Bool.not_eq_true] at moved
          obtain ⟨fresh,rfl⟩ := moved
          exact .newFiber calling fresh
      | _ => simp [next,calling] at moved
  | resumeState w =>
      cases picked : s.phase w with
      | picked f =>
          simp only [next,picked,Option.ite_none_right_eq_some,Option.some.injEq] at moved
          obtain ⟨ready,rfl⟩ := moved
          exact .resumeState picked ready
      | _ => simp [next,picked] at moved
  | enter w =>
      cases entering : s.phase w with
      | entering f =>
          simp only [next,entering,Option.some.injEq] at moved
          exact moved ▸ .enter entering
      | _ => simp [next,entering] at moved
  | yieldState w =>
      cases executing : s.phase w with
      | executing f =>
          simp only [next,executing,Option.ite_none_left_eq_some,Option.some.injEq] at moved
          obtain ⟨_,rfl⟩ := moved
          exact .yieldState executing
      | _ => simp [next,executing] at moved
  | finish w =>
      cases executing : s.phase w with
      | executing f =>
          simp only [next,executing,Option.some.injEq] at moved
          exact moved ▸ .finish executing
      | _ => simp [next,executing] at moved
  | save w =>
      cases yielding : s.phase w with
      | yielding f =>
          cases held : s.queue.holding w with
          | none => simp [next,yielding,held] at moved
          | some t =>
              simp only [next,yielding,held,Option.some.injEq] at moved
              exact moved ▸ .save yielding
      | _ => simp [next,yielding] at moved

theorem claims_fiber {f : Fiber} {p : Phase Fiber Callback} (holds : p.claims f = true) : p.fiber? = some f := by
  cases p with
  | picked g | entering g => exact congrArg some (of_decide_eq_true holds)
  | _ => cases holds

theorem onStack_fiber {f : Fiber} {p : Phase Fiber Callback} (holds : p.onStack f = true) : p.fiber? = some f := by
  cases p with
  | executing g | yielding g => exact congrArg some (of_decide_eq_true holds)
  | _ => cases holds

theorem runs_fiber {f : Fiber} {p : Phase Fiber Callback} (holds : p.runs f = true) : p.fiber? = some f := by
  cases p with
  | entering g | executing g => exact congrArg some (of_decide_eq_true holds)
  | _ => cases holds

-- At most one worker is on the stack of a fiber, and none while another is
-- about to enter it.
structure Apart (phase : Fin n → Phase Fiber Callback) : Prop where
  alone : ∀ v w f, (phase v).onStack f = true → (phase w).onStack f = true → v = w
  apart : ∀ v w f, (phase v).claims f = true → (phase w).onStack f = false

theorem Apart.move {phase : Fin n → Phase Fiber Callback} (sep : Apart phase) (w : Fin n) (q : Phase Fiber Callback)
    (claims : ∀ f, q.claims f = true → (phase w).claims f = true ∨ ∀ v, (phase v).onStack f = false)
    (stack : ∀ f, q.onStack f = true → (phase w).onStack f = true ∨
      (∀ v, (phase v).onStack f = false) ∧ ∀ v ≠ w, (phase v).claims f = false) :
    Apart (Function.update phase w q) := by
  have clear : ∀ f, q.claims f = true → ∀ v, (phase v).onStack f = false := by
    intro f claim v
    rcases claims f claim with held | free
    · exact sep.apart w v f held
    · exact free v
  refine ⟨?_,?_⟩
  · intro v x f first second
    by_cases one : v = w
    · by_cases two : x = w
      · exact one.trans two.symm
      · subst v
        simp only [Function.update_self,Function.update_of_ne two] at first second
        rcases stack f first with held | ⟨free,_⟩
        · exact sep.alone w x f held second
        · rw [free x] at second; cases second
    · by_cases two : x = w
      · subst x
        simp only [Function.update_self,Function.update_of_ne one] at first second
        rcases stack f second with held | ⟨free,_⟩
        · exact sep.alone v w f first held
        · rw [free v] at first; cases first
      · simp only [Function.update_of_ne one,Function.update_of_ne two] at first second
        exact sep.alone v x f first second
  · intro v x f claim
    by_cases one : v = w
    · by_cases two : x = w
      · subst v; subst x
        simp only [Function.update_self] at claim ⊢
        cases q with
        | executing g | yielding g => cases claim
        | _ => rfl
      · subst v
        simp only [Function.update_self,Function.update_of_ne two] at claim ⊢
        exact clear f claim x
    · by_cases two : x = w
      · subst x
        simp only [Function.update_self,Function.update_of_ne one] at claim ⊢
        cases onto : q.onStack f with
        | false => rfl
        | true =>
            rcases stack f onto with held | ⟨_,free⟩
            · rw [sep.apart v w f claim] at held; cases held
            · rw [free v one] at claim; cases claim
      · simp only [Function.update_of_ne one,Function.update_of_ne two] at claim ⊢
        exact sep.apart v x f claim

def queued (f : Fiber) (tasks : List (ScheduleTask Fiber Callback)) : Nat :=
  tasks.countP fun t => decide (t.work.fiber? = some f)

def Phase.Running (state : Fiber → FiberState) (p : Phase Fiber Callback) : Prop :=
  ∀ f, p.runs f = true → state f = .running

def Phase.Made (made : Fiber → Bool) (p : Phase Fiber Callback) : Prop := ∀ f, p.fiber? = some f → made f = true

-- `pending` is the one right to enter a fiber: it lies in the queue or with the
-- worker that claims the fiber.
structure Handed (s : State n Fiber Callback) : Prop where
  apart : Apart s.phase
  token : ∀ f, queued f s.queue.tasks+tally (Phase.claims f) s.phase = (s.pending f).toNat
  running : ∀ w, (s.phase w).Running s.state
  made : ∀ w, (s.phase w).Made s.made
  known : ∀ t ∈ s.queue.tasks, ∀ f, t.work.fiber? = some f → s.made f = true
  live : ∀ f, s.pending f = true → s.state f ≠ .term

theorem initial_handed : Handed (State.initial : State n Fiber Callback) := by
  refine ⟨⟨?_,?_⟩,?_,?_,?_,?_,?_⟩
  · intro v w f onto
    cases onto
  · intro v w f claim
    cases claim
  · intro f
    have nobody : tally (Phase.claims f) (State.initial : State n Fiber Callback).phase = 0 := tally_eq_zero.mpr fun _ => rfl
    rw [nobody]
    rfl
  · intro w f runs
    cases runs
  · intro w f named
    cases named
  · intro t member
    cases member
  · intro f pending
    cases pending

theorem queued_append (f : Fiber) (front back : List (ScheduleTask Fiber Callback)) :
    queued f (front ++ back) = queued f front+queued f back := List.countP_append

theorem queued_cons (f : Fiber) (t : ScheduleTask Fiber Callback) (back : List (ScheduleTask Fiber Callback)) :
    queued f (t :: back) = queued f back+(decide (t.work.fiber? = some f)).toNat := by
  unfold queued
  by_cases same : t.work.fiber? = some f <;> simp [same]

theorem Handed.claimed {f : Fiber} (handed : Handed s) (claim : (s.phase w).claims f = true) :
    s.pending f = true ∧ queued f s.queue.tasks = 0 ∧ ∀ v ≠ w, (s.phase v).claims f = false := by
  have token := handed.token f
  have moved := tally_update (Phase.claims f) s.phase w .loop
  rw [claim] at moved
  simp only [Phase.claims,Bool.toNat_true,Bool.toNat_false,Nat.add_zero] at moved
  have bound := Bool.toNat_le (s.pending f)
  have others : tally (Phase.claims f) (Function.update s.phase w .loop) = 0 := by omega
  refine ⟨?_,?_,?_⟩
  · cases pending : s.pending f with
    | true => rfl
    | false => rw [pending] at token; simp only [Bool.toNat_false] at token; omega
  · omega
  · intro v other
    have absent := tally_eq_zero.mp others v
    rwa [Function.update_of_ne other] at absent

omit [DecidableEq Fiber] in
theorem goto_loop (inLoop : s.phase w = .loop) : s.goto w .loop = s := by
  have same : Function.update s.phase w .loop = s.phase := by
    rw [←inLoop]
    exact Function.update_eq_self w s.phase
  simp [State.goto,same]

-- A worker that goes to a phase in which it runs nothing.
theorem Handed.running_rest (handed : Handed s) {phase : Phase Fiber Callback} (rests : ∀ f, phase.runs f = false)
    (v : Fin n) : (Function.update s.phase w phase v).Running s.state := by
  refine update_all (P := Phase.Running s.state) (fun v _ => handed.running v) ?_ v
  intro f runs
  rw [rests] at runs
  cases runs

-- A worker that has no other fiber than before.
theorem Handed.made_kept (handed : Handed s) {phase : Phase Fiber Callback}
    (same : ∀ f, phase.fiber? = some f → (s.phase w).fiber? = some f) (v : Fin n) :
    (Function.update s.phase w phase v).Made s.made :=
  update_all (P := Phase.Made s.made) (fun v _ => handed.made v) (fun f named => handed.made w f (same f named)) v

theorem construct_handed {f : Fiber} (handed : Handed s) (fresh : s.made f = false) : Handed (s.construct f) := by
  have known {g : Fiber} (made : s.made g = true) : g ≠ f := by
    rintro rfl
    rw [fresh] at made; cases made
  have kept {g : Fiber} (made : s.made g = true) : (s.construct f).made g = true := by
    simpa [State.construct,known made] using made
  refine ⟨handed.apart,handed.token,?_,?_,?_,?_⟩
  · intro w g runs
    have other := known (handed.made w g (runs_fiber runs))
    simpa [State.construct,State.become,other] using handed.running w g runs
  · exact fun w g named => kept (handed.made w g named)
  · exact fun t member g named => kept (handed.known t member g named)
  · intro g pending
    by_cases same : g = f
    · subst g
      simp [State.construct,State.become]
    · simpa [State.construct,State.become,same] using handed.live g pending

theorem schedule_handed {fc : Option (Work Fiber Callback)} (handed : Handed s) (other : ∀ f, fc ≠ some (.fiber f))
    (thread : Int) : Handed {s with queue := s.queue.schedule fc thread} := by
  have member {t : ScheduleTask Fiber Callback} (pushed : t ∈ (makeTask fc thread s.queue.pushed.length).toList) :
      t.work.fiber? = none := by
    rcases fc with _ | f | c
    · cases pushed
    · exact absurd rfl (other f)
    · cases List.mem_singleton.mp pushed
      rfl
  refine ⟨handed.apart,?_,handed.running,handed.made,?_,handed.live⟩
  · intro f
    have nothing : queued f (makeTask fc thread s.queue.pushed.length).toList = 0 := by
      rw [queued,List.countP_eq_zero]
      intro t pushed
      simp [member pushed]
    have token := handed.token f
    simp only [Scheduler.State.schedule,scheduleNoLock,queued_append]
    omega
  · intro t queued f named
    rcases List.mem_append.mp queued with before | pushed
    · exact handed.known t before f named
    · rw [member pushed] at named; cases named

theorem scheduleFiber_handed {f : Fiber} (handed : Handed s) (made : s.made f = true) (once : s.pending f = false)
    (runnable : s.state f ≠ .term) (thread : Int) :
    Handed ({s with queue := s.queue.schedule (some (.fiber f)) thread}.mark f true) := by
  refine ⟨handed.apart,?_,handed.running,handed.made,?_,?_⟩
  · intro g
    have token := handed.token g
    simp only [State.mark,Scheduler.State.schedule,scheduleNoLock,makeTask,Option.map_some,Option.toList_some,
      queued_append,queued_cons,Work.fiber?,Option.some.injEq]
    by_cases same : f = g
    · subst g
      rw [once] at token
      simp only [Function.update_self,decide_true,Bool.toNat_true,Bool.toNat_false] at token ⊢
      simp only [queued,List.countP_nil] at token ⊢
      omega
    · simp only [Function.update_of_ne (Ne.symm same),same,decide_false,Bool.toNat_false]
      simp only [queued,List.countP_nil] at token ⊢
      omega
  · intro t queued g named
    rcases List.mem_append.mp queued with before | pushed
    · exact handed.known t before g named
    · cases List.mem_singleton.mp pushed
      cases named
      exact made
  · intro g pending
    rcases update_cases pending with ⟨rfl,_⟩ | ⟨_,before⟩
    · exact runnable
    · exact handed.live g before

theorem remaining_known {t : ScheduleTask Fiber Callback} {front back : List (ScheduleTask Fiber Callback)}
    {queue : Scheduler.State n Fiber Callback} (handed : Handed s) (whole : s.queue.tasks = front ++ t :: back)
    (tasks : queue.tasks = front ++ back) : ∀ u ∈ queue.tasks, ∀ f, u.work.fiber? = some f → s.made f = true := by
  intro u member f named
  refine handed.known u ?_ f named
  rw [tasks,List.mem_append] at member
  rw [whole]
  rcases member with one | two
  · exact List.mem_append_left _ one
  · exact List.mem_append_right _ (List.mem_cons_of_mem _ two)

theorem fiber_handed {f : Fiber} {t : ScheduleTask Fiber Callback} {front back : List (ScheduleTask Fiber Callback)}
    {queue : Scheduler.State n Fiber Callback} (handed : Handed s) (inLoop : s.phase w = .loop)
    (idle : s.state f ≠ .running) (settled : ∀ v, (s.phase v).saves f = false) (work : t.work = .fiber f)
    (whole : s.queue.tasks = front ++ t :: back) (tasks : queue.tasks = front ++ back) :
    Handed ({s with queue := queue}.goto w (.picked f)) := by
  have made : s.made f = true := handed.known t (by simp [whole]) f (by simp [work,Work.fiber?])
  have free : ∀ v, (s.phase v).onStack f = false := by
    intro v
    cases at_v : s.phase v with
    | executing g =>
        apply decide_eq_false
        rintro rfl
        exact idle (handed.running v g (by simp [at_v,Phase.runs]))
    | yielding g =>
        have settled := settled v
        rwa [at_v] at settled
    | _ => rfl
  refine ⟨handed.apart.move w _ ?_ ?_,?_,?_,?_,?_,handed.live⟩
  · intro g claim
    cases of_decide_eq_true claim
    exact .inr free
  · intro g onto
    cases onto
  · intro g
    have token := handed.token g
    have moved := tally_update (Phase.claims g) s.phase w (.picked f)
    rw [whole,queued_append,queued_cons,work] at token
    rw [inLoop] at moved
    simp only [State.goto,tasks,queued_append]
    simp only [Phase.claims,Work.fiber?,Option.some.injEq,Bool.toNat_false] at moved token
    omega
  · exact handed.running_rest fun _ => rfl
  · apply update_all (P := Phase.Made s.made) (fun v _ => handed.made v)
    intro g named
    cases named
    exact made
  · have known := remaining_known handed whole tasks
    exact known

theorem callback_handed {c : Callback} {t : ScheduleTask Fiber Callback}
    {front back : List (ScheduleTask Fiber Callback)} {queue : Scheduler.State n Fiber Callback} (handed : Handed s)
    (inLoop : s.phase w = .loop) (work : t.work = .callback c) (whole : s.queue.tasks = front ++ t :: back)
    (tasks : queue.tasks = front ++ back) : Handed ({s with queue := queue}.goto w (.calling c)) := by
  refine ⟨handed.apart.move w _ ?_ ?_,?_,?_,?_,?_,handed.live⟩
  · intro g claim
    cases claim
  · intro g onto
    cases onto
  · intro g
    have token := handed.token g
    have moved := tally_update (Phase.claims g) s.phase w (.calling c)
    rw [whole,queued_append,queued_cons,work] at token
    rw [inLoop] at moved
    simp only [State.goto,tasks,queued_append]
    simp only [Phase.claims,Work.fiber?,reduceCtorEq,decide_false,Bool.toNat_false] at moved token
    omega
  · exact handed.running_rest fun _ => rfl
  · exact handed.made_kept fun g named => by cases named
  · have known := remaining_known handed whole tasks
    exact known

theorem newFiber_handed {c : Callback} {f : Fiber} (handed : Handed s) (calling : s.phase w = .calling c)
    (fresh : s.made f = false) : Handed (((s.construct f).mark f true).goto w (.picked f)) := by
  have unnamed (v : Fin n) : (s.phase v).fiber? ≠ some f := by
    intro named
    have made := handed.made v f named
    rw [fresh] at made; cases made
  have absent : queued f s.queue.tasks = 0 := by
    rw [queued,List.countP_eq_zero]
    intro t member named
    have made := handed.known t member f (of_decide_eq_true named)
    rw [fresh] at made; cases made
  have unclaimed : tally (Phase.claims f) s.phase = 0 := by
    rw [tally_eq_zero]
    intro v
    exact Bool.eq_false_iff.mpr fun claim => unnamed v (claims_fiber claim)
  have free (v : Fin n) : (s.phase v).onStack f = false :=
    Bool.eq_false_iff.mpr fun onto => unnamed v (onStack_fiber onto)
  have constructed := construct_handed handed fresh
  refine ⟨handed.apart.move w _ ?_ ?_,?_,?_,?_,constructed.known,?_⟩
  · intro g claim
    cases of_decide_eq_true claim
    exact .inr free
  · intro g onto
    cases onto
  · intro g
    have token := handed.token g
    have moved := tally_update (Phase.claims g) s.phase w (.picked f)
    rw [calling] at moved
    simp only [Phase.claims,Bool.toNat_false] at moved
    change queued g s.queue.tasks+tally (Phase.claims g) (Function.update s.phase w (.picked f)) =
      (Function.update s.pending f true g).toNat
    by_cases same : f = g
    · subst g
      simp only [Function.update_self,decide_true,Bool.toNat_true] at moved ⊢
      omega
    · simp only [Function.update_of_ne (Ne.symm same),same,decide_false,Bool.toNat_false] at moved ⊢
      omega
  · exact constructed.running_rest fun _ => rfl
  · apply update_all (P := Phase.Made (s.construct f).made) (fun v _ => constructed.made v)
    intro g named
    cases named
    exact Function.update_self f true s.made
  · intro g pending
    by_cases same : g = f
    · subst g
      simp [State.mark,State.goto,State.construct,State.become]
    · apply constructed.live g
      rcases update_cases pending with ⟨equal,_⟩ | ⟨_,before⟩
      · exact absurd equal same
      · exact before

theorem resumeState_handed {f : Fiber} (handed : Handed s) (picked : s.phase w = .picked f) :
    Handed ((s.become f .running).goto w (.entering f)) := by
  refine ⟨handed.apart.move w _ ?_ ?_,?_,?_,?_,handed.known,?_⟩
  · intro g claim
    rw [picked]
    exact .inl claim
  · intro g onto
    cases onto
  · intro g
    have token := handed.token g
    have moved := tally_update (Phase.claims g) s.phase w (.entering f)
    rw [picked] at moved
    simp only [Phase.claims] at moved
    change queued g s.queue.tasks+tally (Phase.claims g) (Function.update s.phase w (.entering f)) = (s.pending g).toNat
    omega
  · have kept {g : Fiber} (before : s.state g = .running) : Function.update s.state f .running g = .running := by
      by_cases same : g = f
      · rw [same,Function.update_self]
      · rwa [Function.update_of_ne same]
    apply update_all (P := Phase.Running (s.become f .running).state)
    · exact fun v _ g runs => kept (handed.running v g runs)
    · intro g runs
      cases of_decide_eq_true runs
      exact Function.update_self f _ s.state
  · refine handed.made_kept fun g named => ?_
    rw [picked]
    exact named
  · intro g pending
    by_cases same : g = f
    · subst g
      simp [State.goto,State.become]
    · simpa [State.goto,State.become,same] using handed.live g pending

theorem enter_handed {f : Fiber} (handed : Handed s) (entering : s.phase w = .entering f) :
    Handed ((s.mark f false).goto w (.executing f)) := by
  have claim : (s.phase w).claims f = true := by simp [entering,Phase.claims]
  obtain ⟨pending,unqueued,others⟩ := handed.claimed claim
  refine ⟨handed.apart.move w _ ?_ ?_,?_,?_,?_,handed.known,?_⟩
  · intro g claim
    cases claim
  · intro g onto
    cases of_decide_eq_true onto
    exact .inr ⟨fun v => handed.apart.apart w v f claim,others⟩
  · intro g
    have token := handed.token g
    have moved := tally_update (Phase.claims g) s.phase w (.executing f)
    rw [entering] at moved
    simp only [Phase.claims,Bool.toNat_false] at moved
    change queued g s.queue.tasks+tally (Phase.claims g) (Function.update s.phase w (.executing f)) =
      (Function.update s.pending f false g).toNat
    by_cases same : f = g
    · subst g
      rw [pending] at token
      simp only [Function.update_self,decide_true,Bool.toNat_true,Bool.toNat_false] at moved token ⊢
      omega
    · simp only [Function.update_of_ne (Ne.symm same),same,decide_false,Bool.toNat_false] at moved ⊢
      omega
  · apply update_all (P := Phase.Running s.state) (fun v _ => handed.running v)
    intro g runs
    cases of_decide_eq_true runs
    exact handed.running w f (by simp [entering,Phase.runs])
  · refine handed.made_kept fun g named => ?_
    rw [entering]
    exact named
  · intro g pending
    rcases update_cases pending with ⟨_,absurd⟩ | ⟨_,before⟩
    · cases absurd
    · exact handed.live g before

-- `yield` and the end of `MainFunc` write the state of a fiber that no other
-- worker runs.
theorem yielding_handed {f : Fiber} (handed : Handed s) (executing : s.phase w = .executing f)
    {state : Fiber → FiberState} (others : ∀ g ≠ f, state g = s.state g)
    (live : s.pending f = true → state f ≠ .term) :
    Handed ({s with state := state}.goto w (.yielding f)) := by
  have onto : (s.phase w).onStack f = true := by simp [executing,Phase.onStack]
  refine ⟨handed.apart.move w _ ?_ ?_,?_,?_,?_,handed.known,?_⟩
  · intro g claim
    cases claim
  · intro g holds
    rw [executing]
    exact .inl holds
  · intro g
    have token := handed.token g
    have moved := tally_update (Phase.claims g) s.phase w (.yielding f)
    rw [executing] at moved
    simp only [Phase.claims] at moved
    change queued g s.queue.tasks+tally (Phase.claims g) (Function.update s.phase w (.yielding f)) = (s.pending g).toNat
    omega
  · apply update_all (P := Phase.Running state)
    · intro v other g runs
      have apart : g ≠ f := by
        rintro rfl
        cases at_v : s.phase v with
        | entering h =>
            have claim : (s.phase v).claims g = true := by rw [at_v] at runs ⊢; exact runs
            have clear := handed.apart.apart v w g claim
            rw [onto] at clear; cases clear
        | executing h =>
            refine other (handed.apart.alone v w g ?_ onto)
            rw [at_v] at runs ⊢
            exact runs
        | _ => rw [at_v] at runs; cases runs
      exact (others g apart).trans (handed.running v g runs)
    · intro g runs
      cases runs
  · refine handed.made_kept fun g named => ?_
    rw [executing]
    exact named
  · intro g pending
    by_cases same : g = f
    · subst g
      exact live pending
    · change state g ≠ .term
      rw [others g same]
      exact handed.live g pending

theorem save_handed {f : Fiber} {t : ScheduleTask Fiber Callback} (handed : Handed s)
    (yielding : s.phase w = .yielding f) : Handed ({s with queue := s.queue.finish w t}.goto w .loop) := by
  refine ⟨handed.apart.move w _ ?_ ?_,?_,?_,?_,handed.known,handed.live⟩
  · intro g claim
    cases claim
  · intro g onto
    cases onto
  · intro g
    have token := handed.token g
    have moved := tally_update (Phase.claims g) s.phase w .loop
    rw [yielding] at moved
    simp only [Phase.claims] at moved
    change queued g s.queue.tasks+tally (Phase.claims g) (Function.update s.phase w .loop) = (s.pending g).toNat
    omega
  · exact handed.running_rest fun _ => rfl
  · exact handed.made_kept fun g named => by cases named

theorem moves_handed (handed : Handed s) (pattern : supported s a = true) (settled : saved tid s a = true)
    (moves : Moves tid s a u) : Handed u := by
  cases moves with
  | construct fresh => exact construct_handed handed fresh
  | scheduleFiber made =>
      simp only [supported,Bool.and_eq_true,Bool.not_eq_true',bne_iff_ne] at pattern
      exact scheduleFiber_handed handed made pattern.1 pattern.2 _
  | schedule other => exact schedule_handed handed other _
  | none inLoop taken =>
      rw [goto_loop inLoop]
      exact handed
  | fiber front inLoop idle taken work whole tasks =>
      simp only [saved,taken,Option.map_some,work,decide_eq_true_eq] at settled
      exact fiber_handed handed inLoop idle settled work whole tasks
  | callback front inLoop taken work whole tasks => exact callback_handed handed inLoop work whole tasks
  | newFiber calling fresh => exact newFiber_handed handed calling fresh
  | resumeState picked ready => exact resumeState_handed handed picked
  | enter entering => exact enter_handed handed entering
  | @yieldState _ f executing =>
      unfold State.yieldState
      split
      · exact yielding_handed handed executing (fun _ _ => rfl) (handed.live f)
      · exact yielding_handed handed executing (fun g other => Function.update_of_ne other _ s.state) (by simp)
  | finish executing =>
      simp only [supported,executing,Bool.not_eq_true'] at pattern
      apply yielding_handed handed executing (fun g other => Function.update_of_ne other _ s.state)
      intro pending
      rw [pattern] at pending; cases pending
  | save yielding => exact save_handed handed yielding

theorem reached_handed
    (path : Reached (next tid) (fun s a => supported s a = true ∧ saved tid s a = true) Start s) : Handed s := by
  induction path with
  | start begins =>
      rw [begins]
      exact initial_handed
  | step _ permitted moved ih => exact moves_handed ih permitted.1 permitted.2 (next_moves moved)

-- A worker that is about to switch to a fiber finds no other one on its stack.
def Exclusive (s : State n Fiber Callback) : Prop :=
  ∀ w f, s.phase w = .entering f → ∀ v, (s.phase v).onStack f = false

theorem handed_exclusive (handed : Handed s) : Exclusive s := by
  intro w f entering v
  apply handed.apart.apart w v f
  simp [entering,Phase.claims]

theorem resumeState_next {f : Fiber} (picked : s.phase w = .picked f) (ready : s.state f = .ready) :
    next tid s (.resumeState w) = some ((s.become f .running).goto w (.entering f)) := by
  simp [next,picked,ready]

-- A dequeue in the window of `yield` is enough for two workers on one stack.
theorem unsaved_entered {running : Nat → Bool} (handed : Handed s)
    (moved : next tid s (.dequeue w running) = some u) (unsaved : saved tid s (.dequeue w running) = false) :
    ∃ x, next tid u (.resumeState w) = some x ∧ ¬Exclusive x := by
  have moves := next_moves moved
  cases moves with
  | none inLoop taken => simp [saved,taken] at unsaved
  | callback front inLoop taken work whole tasks => simp [saved,taken,work] at unsaved
  | @fiber _ f _ t back queue front inLoop idle taken work whole tasks =>
      simp only [saved,taken,Option.map_some,work,decide_eq_false_iff_not,not_forall,Bool.not_eq_false] at unsaved
      obtain ⟨v,saves⟩ := unsaved
      have apart : v ≠ w := by
        rintro rfl
        rw [inLoop] at saves; cases saves
      have pending : s.pending f = true := by
        have token := handed.token f
        have here : 0 < queued f s.queue.tasks := by
          rw [queued,List.countP_pos_iff]
          exact ⟨t,by simp [whole],by simp [work,Work.fiber?]⟩
        cases pending : s.pending f with
        | true => rfl
        | false => rw [pending,Bool.toNat_false] at token; omega
      have ready : s.state f = .ready := by
        cases state : s.state f with
        | ready => rfl
        | running => exact absurd state idle
        | term => exact absurd state (handed.live f pending)
      refine ⟨_,resumeState_next (by simp [State.goto]) ready,?_⟩
      intro exclusive
      have clear := exclusive w f (by simp [State.goto]) v
      cases at_v : s.phase v with
      | yielding g =>
          rw [at_v] at saves
          simp only [State.become,State.goto,Function.update_of_ne apart,at_v] at clear
          rw [show Phase.onStack f (.yielding g : Phase Fiber Callback) = true from saves] at clear
          cases clear
      | _ => rw [at_v] at saves; cases saves

theorem contexts_exclusive :
    (∀ s : State n Fiber Callback,
      Reached (next tid) (fun s a => supported s a = true ∧ saved tid s a = true) Start s → Exclusive s) ∧
    ∀ s : State n Fiber Callback,
      Reached (next tid) (fun s a => supported s a = true ∧ saved tid s a = true) Start s →
      ∀ w running u, next tid s (.dequeue w running) = some u → saved tid s (.dequeue w running) = false →
        ∃ x, next tid u (.resumeState w) = some x ∧ ¬Exclusive x := by
  refine ⟨?_,?_⟩
  · exact fun s path => handed_exclusive (reached_handed path)
  · exact fun s path w running u moved unsaved => unsaved_entered (reached_handed path) moved unsaved

end Steps

-- The callback runs on fiber 7, which schedules itself and yields. Worker 1
-- takes the fiber before worker 0 has saved its context.
def stolenRun : List (Action 2 Nat Nat) :=
  [.schedule (some (.callback 1)) (-1),.dequeue w0 fun _ => false,.newFiber w0 7,.resumeState w0,.enter w0,
    .schedule (some (.fiber 7)) (-1),.yieldState w0,.dequeue w1 fun _ => false,.resumeState w1]

def stolenSample : State 2 Nat Nat := (run (next ownId) .initial stolenRun).getD .initial

theorem stolenSample_reached : Reached (next ownId) (fun s a => supported s a = true) Start stolenSample :=
  Reached.run (.start rfl) (show Along (next ownId) _ .initial stolenRun by decide) rfl

theorem contexts_not_exclusive :
    ¬∀ s : State 2 Nat Nat, Reached (next ownId) (fun s a => supported s a = true) Start s → Exclusive s := by
  intro exclusive
  have clear := exclusive stolenSample stolenSample_reached 1 7 rfl 0
  cases clear

-- The same run with the context saved before the second dequeue.
def savedRun : List (Action 2 Nat Nat) :=
  [.schedule (some (.callback 1)) (-1),.dequeue w0 fun _ => false,.newFiber w0 7,.resumeState w0,.enter w0,
    .schedule (some (.fiber 7)) (-1),.yieldState w0,.save w0,.dequeue w1 fun _ => false,.resumeState w1]

def savedSample : State 2 Nat Nat := (run (next ownId) .initial savedRun).getD .initial

theorem contexts_exclusive_saved : savedSample.phase 1 = .entering 7 ∧ ∀ v, (savedSample.phase v).onStack 7 = false := by
  have path : Reached (next ownId) (fun s a => supported s a = true ∧ saved ownId s a = true) Start savedSample :=
    Reached.run (.start rfl) (show Along (next ownId) _ .initial savedRun by decide) rfl
  exact ⟨rfl,contexts_exclusive.1 savedSample path 1 7 rfl⟩

end Fishjoy.FiberHandoff
