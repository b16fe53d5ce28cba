import Fishjoy.ThreadPool

namespace Fishjoy.ThreadPool
open Transition Roster

-- Busy with a task, not yet counted idle after one, or reclaimed.
def Phase.spent {Task : Type} : Phase Task → Bool
  | .busy _ | .ran | .reclaimed => true
  | _ => false

def Worker.spent {Task : Type} (w : Worker Task) : Bool := w.phase.spent

def State.spent {Task : Type} (s : State Task) : Nat := s.workers.countP Worker.spent

-- Where `start(n)` is: what it sets first, its loop over the objects it makes,
-- and its loop over `threads_[i]`, each of which it starts and then counts.
inductive Stage where
  | before
  | running (n : UInt32)
  | sized (n : UInt32)
  | creating (n : UInt32) (i : Nat)
  | starting (n : UInt32) (i : Nat)
  | counting (n : UInt32) (i : Nat)
  | returned

namespace Stage

def launch (n : UInt32) (i : Nat) : Stage := if i < n.toNat then .starting n i else .returned

def create (n : UInt32) (i : Nat) : Stage := if i < n.toNat then .creating n i else .launch n 0

-- The objects of `start` that are made and not counted.
def pending : Stage → Nat
  | .creating _ i => i
  | .starting n i | .counting n i => n.toNat-i
  | _ => 0

def inside : Stage → Prop
  | .starting n i | .counting n i => i < n.toNat
  | _ => True

theorem launch_inside (n : UInt32) (i : Nat) : (launch n i).inside := by
  unfold launch
  split
  · assumption
  · trivial

theorem create_inside (n : UInt32) (i : Nat) : (create n i).inside := by
  unfold create
  split
  · trivial
  · exact launch_inside n 0

theorem launch_pending (n : UInt32) (i : Nat) : (launch n i).pending = n.toNat-i := by
  unfold launch
  split
  · rfl
  · change 0 = _
    omega

theorem create_pending (n : UInt32) (i : Nat) : (create n i).pending ≤ i := by
  unfold create
  split
  · exact Nat.le_refl _
  · rw [launch_pending]
    omega

end Stage

structure Launch (Task : Type) where
  pool : State Task
  stage : Stage

namespace Launch
variable {Task : Type}

-- The counter of the process also moves when another pool makes a thread.
inductive Event (Task : Type) where
  | act (action : Action Task)
  | start (n : UInt32)
  | proceed
  | elsewhere

def proceed (s : Launch Task) : Option (Launch Task) :=
  match s.stage with
  | .before | .returned => none
  | .running n => some ⟨{s.pool with initThreadSize := n},.sized n⟩
  | .sized n => some ⟨{s.pool with curThreadSize := n},.create n 0⟩
  | .creating n i => s.pool.createThread.map (⟨·,.create n (i+1)⟩)
  | .starting n i => (s.pool.startThread i).map (⟨·,.counting n i⟩)
  | .counting n i => some ⟨s.pool.countIdle,.launch n (i+1)⟩

def next (s : Launch Task) : Event Task → Option (Launch Task)
  | .act action => (ThreadPool.next s.pool action).map (⟨·,s.stage⟩)
  | .start n =>
    match s.stage with
    | .before => some ⟨{s.pool with isPoolRunning := true},.running n⟩
    | _ => none
  | .proceed => proceed s
  | .elsewhere =>
    if s.pool.generatedId < INT_MAX then some {s with pool := {s.pool with generatedId := s.pool.generatedId+1}} else none

def initial (pool : State Task) : Launch Task := ⟨pool,.before⟩

def Idle (s : Launch Task) : Prop := s.pool.idleThreadSize.toNat ≤ s.pool.created

-- When a thread takes a task or is reclaimed, the creators have counted more
-- threads than are busy or reclaimed already.
def Ahead (s : Launch Task) (e : Event Task) : Prop :=
  ∀ i step, e = .act (.work i step) → step = .take ∨ step = .reclaim → (next s e).isSome → s.pool.spent < s.pool.counted

structure Counted (s : Launch Task) : Prop where
  balance : s.pool.idleThreadSize.toNat+s.pool.spent = s.pool.counted
  credit : s.pool.counted+s.stage.pending ≤ s.pool.created
  drawn : s.pool.created ≤ s.pool.generatedId
  few : s.pool.created ≤ INT_MAX
  inside : s.stage.inside

section Alone

theorem run_creating (n : UInt32) (k i : Nat) (p : State Task) (whole : i+k = n.toNat) :
    run next ⟨p,.create n i⟩ (List.replicate k .proceed) = (State.createThreads k p).map (⟨·,.launch n 0⟩) := by
  induction k generalizing i p with
  | zero =>
      have done : Stage.create n i = .launch n 0 := if_neg (by omega)
      rw [done]
      rfl
  | succ k ih =>
      have now : Stage.create n i = .creating n i := if_pos (by omega)
      have moved : next ⟨p,.creating n i⟩ .proceed = p.createThread.map (⟨·,.create n (i+1)⟩) := rfl
      rw [now,List.replicate_succ,run,moved,State.createThreads]
      cases p.createThread with
      | none => rfl
      | some made => exact ih (i+1) made (by omega)

theorem run_launching (n : UInt32) (k i : Nat) (p : State Task) (whole : i+k = n.toNat) :
    run next ⟨p,.launch n i⟩ (List.replicate (k*2) .proceed) = (p.startThreads i k).map (⟨·,.returned⟩) := by
  induction k generalizing i p with
  | zero =>
      have done : Stage.launch n i = .returned := if_neg (by omega)
      rw [done]
      rfl
  | succ k ih =>
      have now : Stage.launch n i = .starting n i := if_pos (by omega)
      have moved : next ⟨p,.starting n i⟩ .proceed = (p.startThread i).map (⟨·,.counting n i⟩) := rfl
      rw [now,Nat.succ_mul,List.replicate_succ,List.replicate_succ,run,moved,State.startThreads]
      cases p.startThread i with
      | none => rfl
      | some begun => exact ih (i+1) begun.countIdle (by omega)

-- Without interference the steps are the complete call.
theorem start_alone (p : State Task) (n : UInt32) :
    run next (initial p) (.start n :: .proceed :: .proceed ::
      (List.replicate n.toNat .proceed ++ List.replicate (n.toNat*2) .proceed)) =
      (p.start n).map (⟨·,.returned⟩) := by
  have sized : run next (initial p) (.start n :: .proceed :: .proceed ::
      (List.replicate n.toNat .proceed ++ List.replicate (n.toNat*2) .proceed)) =
    run next ⟨{p with isPoolRunning := true,initThreadSize := n,curThreadSize := n},.create n 0⟩
      (List.replicate n.toNat .proceed ++ List.replicate (n.toNat*2) .proceed) := rfl
  rw [sized,run_bind,run_creating n n.toNat 0 _ (Nat.zero_add _),State.start]
  cases State.createThreads n.toNat {p with isPoolRunning := true,initThreadSize := n,curThreadSize := n} with
  | none => rfl
  | some made => exact run_launching n n.toNat 0 made (Nat.zero_add _)

end Alone

section Steps
variable {s t : Launch Task} {p u : State Task} {i : Nat} {w : Worker Task}

theorem spent_goto (found : p.workers[i]? = some w) (phase : Phase Task) :
    (p.goto i w phase).spent+w.phase.spent.toNat = p.spent+phase.spent.toNat := countP_set found _ Worker.spent

theorem increment_few {x : UInt32} (few : x.toNat ≤ INT_MAX) : (x+1).toNat = x.toNat+1 := by
  unfold INT_MAX at few
  exact increment (by omega)

theorem decrement_zero {x : UInt32} (zero : x.toNat = 0) : INT_MAX < (x-1).toNat := by
  have none : x = 0 := UInt32.toNat_inj.mp zero
  subst none
  decide

-- A step of a thread moves `idleThreadSize_` against the threads that are spent.
theorem work_balance (found : p.workers[i]? = some w) {step : Step} (moved : p.work i w step = some u)
    (balance : p.idleThreadSize.toNat+p.spent = p.counted) (few : p.counted ≤ INT_MAX)
    (ahead : step = .take ∨ step = .reclaim → p.spent < p.counted) :
    u.idleThreadSize.toNat+u.spent = p.counted := by
  have same (phase : Phase Task) (alike : phase.spent = w.phase.spent) :
      p.idleThreadSize.toNat+(p.goto i w phase).spent = p.counted := by
    have weight := spent_goto found phase
    rw [alike] at weight
    omega
  have fewer (phase : Phase Task) (free : w.phase.spent = false) (spends : phase.spent = true) (less : p.spent < p.counted) :
      (p.idleThreadSize-1).toNat+(p.goto i w phase).spent = p.counted := by
    have weight := spent_goto found phase
    have down := decrement (x := p.idleThreadSize) (by omega)
    rw [free,spends,Bool.toNat_false,Bool.toNat_true] at weight
    omega
  cases State.work_cases moved with
  | sleep awaits => exact same _ (awaits_read Phase.spent awaits rfl rfl).symm
  | take task rest awaits => exact fewer _ (awaits_read Phase.spent awaits rfl rfl) rfl (ahead (.inl rfl))
  | reclaim asleep => exact fewer _ (by rw [asleep]; rfl) rfl (ahead (.inr rfl))
  | run task busy => exact same _ (by rw [busy]; rfl)
  | finish ran =>
      have weight := spent_goto found .loop
      have up := increment_few (x := p.idleThreadSize) (by omega)
      rw [ran] at weight
      change (p.goto i w .loop).spent+1 = p.spent+0 at weight
      change (p.idleThreadSize+1).toNat+(p.goto i w .loop).spent = p.counted
      omega
  | leave awaits => exact same _ (awaits_read Phase.spent awaits rfl rfl).symm
  | erase leaving => exact same _ (by rw [leaving]; rfl)
  | notify erased => exact same _ (by rw [erased]; rfl)

theorem work_histories {step : Step} (moved : p.work i w step = some u) :
    u.counted = p.counted ∧ u.created = p.created ∧ u.generatedId = p.generatedId := by
  cases State.work_cases moved with
  | _ => exact ⟨rfl,rfl,rfl⟩

theorem grown_spent (p : State Task) : p.grown.spent = p.spent := List.countP_append

theorem Counted.submitTask (counted : Counted s) {task : Task} (moved : s.pool.submitTask task = some u) :
    Counted ⟨u,s.stage⟩ := by
  obtain ⟨balance,credit,drawn,few,inside⟩ := counted
  cases State.submitTask_cases moved with
  | refused => exact ⟨balance,credit,drawn,few,inside⟩
  | queued => exact ⟨balance,credit,drawn,few,inside⟩
  | grown _ _ below =>
      have up := increment_few (x := s.pool.idleThreadSize) (by omega)
      refine ⟨?_,?_,Nat.succ_le_succ drawn,?_,inside⟩
      · change (s.pool.idleThreadSize+1).toNat+(s.pool.push task).grown.spent = s.pool.counted+1
        rw [grown_spent,up,Nat.add_right_comm]
        exact congrArg Nat.succ balance
      · change s.pool.counted+1+s.stage.pending ≤ s.pool.created+1
        omega
      · change s.pool.created+1 ≤ INT_MAX
        omega

theorem Counted.work (counted : Counted s) (found : s.pool.workers[i]? = some w) {step : Step}
    (moved : s.pool.work i w step = some u) (ahead : step = .take ∨ step = .reclaim → s.pool.spent < s.pool.counted) :
    Counted ⟨u,s.stage⟩ := by
  obtain ⟨balance,credit,drawn,few,inside⟩ := counted
  have kept := work_balance found moved balance (by omega) ahead
  obtain ⟨counts,creates,draws⟩ := work_histories moved
  refine ⟨kept.trans counts.symm,?_,?_,?_,inside⟩
  · change u.counted+s.stage.pending ≤ u.created
    omega
  · change u.created ≤ u.generatedId
    omega
  · change u.created ≤ INT_MAX
    omega

theorem Counted.proceed (counted : Counted s) (moved : proceed s = some t) : Counted t := by
  obtain ⟨balance,credit,drawn,few,inside⟩ := counted
  unfold Launch.proceed at moved
  split at moved
  · cases moved
  · cases moved
  · rename_i n stage
    cases moved
    rw [stage] at credit
    exact ⟨balance,credit,drawn,few,trivial⟩
  · rename_i n stage
    cases moved
    rw [stage] at credit
    have none := Stage.create_pending n 0
    refine ⟨balance,?_,drawn,few,Stage.create_inside n 0⟩
    change s.pool.counted+(Stage.create n 0).pending ≤ s.pool.created
    change s.pool.counted+0 ≤ s.pool.created at credit
    omega
  · rename_i n i stage
    rw [stage] at credit
    obtain ⟨made,create,rfl⟩ := Option.map_eq_some_iff.mp moved
    unfold State.createThread at create
    obtain ⟨below,same⟩ := Option.ite_none_right_eq_some.mp create
    cases same
    have more := Stage.create_pending n (i+1)
    refine ⟨balance,?_,Nat.succ_le_succ drawn,?_,Stage.create_inside n (i+1)⟩
    · change s.pool.counted+(Stage.create n (i+1)).pending ≤ s.pool.created+1
      change s.pool.counted+i ≤ s.pool.created at credit
      omega
    · change s.pool.created+1 ≤ INT_MAX
      omega
  · rename_i n i stage
    rw [stage] at credit inside
    obtain ⟨_,begun,rfl⟩ := Option.map_eq_some_iff.mp moved
    unfold State.startThread at begun
    obtain ⟨_,same⟩ := Option.ite_none_right_eq_some.mp begun
    cases same
    refine ⟨?_,credit,drawn,few,inside⟩
    have same : ({s.pool with workers := s.pool.workers ++ [⟨i,.loop⟩]} : State Task).spent = s.pool.spent :=
      List.countP_append
    dsimp only
    rw [same]
    exact balance
  · rename_i n i stage
    rw [stage] at credit inside
    cases moved
    have up := increment_few (x := s.pool.idleThreadSize) (by omega)
    have rest := Stage.launch_pending n (i+1)
    change s.pool.counted+(n.toNat-i) ≤ s.pool.created at credit
    change i < n.toNat at inside
    refine ⟨?_,?_,drawn,few,Stage.launch_inside n (i+1)⟩
    · change (s.pool.idleThreadSize+1).toNat+s.pool.spent = s.pool.counted+1
      omega
    · change s.pool.counted+1+(Stage.launch n (i+1)).pending ≤ s.pool.created
      omega

theorem Counted.next (counted : Counted s) {e : Event Task} (ahead : Ahead s e) (moved : next s e = some t) :
    Counted t := by
  cases e with
  | act action =>
      obtain ⟨u,acted,rfl⟩ := Option.map_eq_some_iff.mp moved
      cases action with
      | submitTask task => exact counted.submitTask acted
      | work i step =>
          obtain ⟨w,found,acted⟩ := Option.bind_eq_some_iff.mp acted
          exact counted.work found acted fun takes => ahead i step rfl takes (Option.isSome_of_mem moved)
  | start n =>
      obtain ⟨balance,credit,drawn,few,inside⟩ := counted
      simp only [Launch.next] at moved
      split at moved
      · rename_i stage
        cases moved
        rw [stage] at credit
        exact ⟨balance,credit,drawn,few,trivial⟩
      · cases moved
  | proceed => exact counted.proceed moved
  | elsewhere =>
      obtain ⟨balance,credit,drawn,few,inside⟩ := counted
      simp only [Launch.next,Option.ite_none_right_eq_some,Option.some.injEq] at moved
      obtain ⟨_,rfl⟩ := moved
      exact ⟨balance,credit,Nat.le_succ_of_le drawn,few,inside⟩

theorem Counted.idle (counted : Counted s) : Idle s := by
  have balance := counted.balance
  have credit := counted.credit
  unfold Idle
  omega

-- Otherwise the counter is zero before the step and huge behind it.
theorem ahead_sharp (counted : Counted s) (e : Event Task) (after : ∀ t, next s e = some t → Idle t) : Ahead s e := by
  rintro i step rfl takes enabled
  obtain ⟨t,moved⟩ := Option.isSome_iff_exists.mp enabled
  have good := after t moved
  obtain ⟨u,acted,rfl⟩ := Option.map_eq_some_iff.mp moved
  obtain ⟨w,found,acted⟩ := Option.bind_eq_some_iff.mp acted
  by_contra behind
  have balance := counted.balance
  have huge := decrement_zero (x := s.pool.idleThreadSize) (by omega)
  have few := counted.few
  have wrapped : u.idleThreadSize = s.pool.idleThreadSize-1 ∧ u.created = s.pool.created := by
    rcases takes with rfl | rfl
    · cases State.work_cases acted with
      | take => exact ⟨rfl,rfl⟩
    · cases State.work_cases acted with
      | reclaim => exact ⟨rfl,rfl⟩
  change u.idleThreadSize.toNat ≤ u.created at good
  rw [wrapped.1,wrapped.2] at good
  omega

end Steps

theorem constructed_counted (poolMode : PoolMode) (queue : Int32) (threads : UInt32) (g : Nat) :
    Counted (initial (.constructed poolMode queue threads g) : Launch Task) :=
  ⟨rfl,Nat.le_refl _,Nat.zero_le _,Nat.zero_le _,trivial⟩

theorem idle_exactly (poolMode : PoolMode) (taskQueMaxSizeThreshold : Int32) (threadSizeThreshold : UInt32)
    (generatedId : Nat) (events : List (Event Task)) :
    Throughout next Idle
        (initial (.constructed poolMode taskQueMaxSizeThreshold threadSizeThreshold generatedId)) events ↔
      Along next Ahead
        (initial (.constructed poolMode taskQueMaxSizeThreshold threadSizeThreshold generatedId)) events :=
  throughout_exactly (constructed_counted _ _ _ _) (fun _ => Counted.idle) (fun _ _ _ counted => counted.next)
    fun _ e counted => ahead_sharp counted e

-- The thread takes a task between its start and `idleThreadSize_++` of `start`.
def early : List (Event Unit) :=
  [.start 1,.proceed,.proceed,.proceed,.act (.submitTask ()),.proceed,.act (.work 0 .take)]

theorem idle_wraps : ¬∀ (poolMode : PoolMode) (taskQueMaxSizeThreshold : Int32) (threadSizeThreshold : UInt32)
    (generatedId : Nat) (events : List (Event Unit)), Throughout next Idle
      (initial (.constructed poolMode taskQueMaxSizeThreshold threadSizeThreshold generatedId)) events := by
  intro always
  have last := Throughout.reached early [] rfl (always .MODE_FIXED 8 10 0 (early ++ []))
  exact absurd last (by unfold Idle; decide)

end Launch
end Fishjoy.ThreadPool
