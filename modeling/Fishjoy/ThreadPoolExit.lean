import Fishjoy.ThreadPool

namespace Fishjoy.ThreadPool
open Transition

-- The test of the outer loop, the way out of it and the last notification are
-- outside the lock; a thread that waits on `notEmpty_` needs it to go on.
def State.locks {Task : Type} (s : State Task) : Action Task → Bool
  | .submitTask _ | .work _ .sleep | .work _ .take | .work _ .reclaim => true
  | .work i .leave =>
    match s.workers[i]? with
    | some ⟨_,.asleep⟩ => true
    | _ => false
  | _ => false

-- A notification of `exitCond_`.
def Step.notifies : Step → Bool
  | .notify | .reclaim => true
  | _ => false

def Action.notifies {Task : Type} : Action Task → Bool
  | .submitTask _ => false
  | .work _ step => step.notifies

namespace Destructor
variable {Task : Type}

-- Where `~ThreadPool` is: it has cleared `isPoolRunning_`, has the lock, has
-- notified `notEmpty_` and tests `threads_.empty()`, has found threads, waits on
-- `exitCond_`, and is woken and wants the lock back.
inductive Stage where
  | before
  | stopped
  | locked
  | testing
  | tested
  | waiting
  | woken
  | destroyed
  deriving DecidableEq

def Stage.holds : Stage → Bool
  | .locked | .testing | .tested => true
  | _ => false

def Stage.notified : Stage → Stage
  | .waiting => .woken
  | stage => stage

structure Exit (Task : Type) where
  pool : State Task
  stage : Stage

-- `wake` is a spurious one.
inductive Event (Task : Type) where
  | act (action : Action Task)
  | destroy
  | wake

def destroy (s : Exit Task) : Option (Exit Task) :=
  match s.stage with
  | .before => some ⟨{s.pool with isPoolRunning := false},.stopped⟩
  | .stopped => some {s with stage := .locked}
  | .locked => some {s with stage := .testing}
  | .testing => some {s with stage := if s.pool.threads = ∅ then .destroyed else .tested}
  | .tested => some {s with stage := .waiting}
  | .woken => some {s with stage := .testing}
  | .waiting | .destroyed => none

def next (s : Exit Task) : Event Task → Option (Exit Task)
  | .act a =>
    if s.stage.holds ∧ s.pool.locks a then none
    else (ThreadPool.next s.pool a).map fun pool => ⟨pool,if a.notifies then s.stage.notified else s.stage⟩
  | .destroy => destroy s
  | .wake => if s.stage = .waiting then some {s with stage := .woken} else none

-- Nothing to wait for, and nobody to end the wait.
def Deserted (pool : State Task) : Prop := pool.threads = ∅ ∧ ∀ w ∈ pool.workers, w.phase.returned = true

def Awake (s : Exit Task) : Prop := s.stage = .waiting → ¬Deserted s.pool

-- The threads have not all gone when the destructor begins to wait.
def Accompanied (s : Exit Task) : Event Task → Prop
  | .destroy => s.stage = .tested → ¬Deserted s.pool
  | _ => True

section Steps
variable {s t : Exit Task} {p u : State Task}

theorem goto_mem {i : Nat} {w : Worker Task} (found : p.workers[i]? = some w) (phase : Phase Task) :
    {w with phase} ∈ (p.goto i w phase).workers :=
  List.mem_set (List.getElem?_eq_some_iff.mp found).1 _

-- A thread that moves without a notification has still to give one.
theorem work_stays {i : Nat} {w : Worker Task} (found : p.workers[i]? = some w) {step : Step} (silent : step.notifies = false)
    (moved : p.work i w step = some u) : ∃ v ∈ u.workers, v.phase.returned = false := by
  cases State.work_cases moved with
  | reclaim => cases silent
  | notify => cases silent
  | _ => exact ⟨_,goto_mem found _,rfl⟩

theorem act_awake {a : Action Task} (accompanied : ¬Deserted p) (silent : a.notifies = false)
    (moved : ThreadPool.next p a = some u) : ¬Deserted u := by
  cases a with
  | submitTask task =>
      cases State.submitTask_cases moved with
      | refused => exact accompanied
      | queued => exact accompanied
      | grown =>
          rintro ⟨empty,_⟩
          exact Finset.insert_ne_empty _ _ empty
  | work i step =>
      obtain ⟨w,found,moved⟩ := Option.bind_eq_some_iff.mp moved
      obtain ⟨v,member,stays⟩ := work_stays found silent moved
      rintro ⟨_,gone⟩
      rw [gone v member] at stays
      cases stays

theorem Awake.destroy (accompanied : s.stage = .tested → ¬Deserted s.pool) (moved : destroy s = some t) : Awake t := by
  unfold Destructor.destroy at moved
  intro waiting
  cases stage : s.stage with
  | tested =>
      rw [stage] at moved
      cases moved
      exact accompanied stage
  | testing =>
      rw [stage] at moved
      cases moved
      dsimp only at waiting
      split at waiting <;> cases waiting
  | waiting => rw [stage] at moved; cases moved
  | destroyed => rw [stage] at moved; cases moved
  | _ =>
      rw [stage] at moved
      cases moved
      cases waiting

theorem notified_awake (stage : Stage) : stage.notified ≠ .waiting := by
  cases stage <;> exact fun same => by cases same

theorem Awake.next (awake : Awake s) {e : Event Task} (accompanied : Accompanied s e) (moved : next s e = some t) :
    Awake t := by
  cases e with
  | act a =>
      simp only [Destructor.next,Option.ite_none_left_eq_some] at moved
      obtain ⟨_,moved⟩ := moved
      obtain ⟨u,acted,rfl⟩ := Option.map_eq_some_iff.mp moved
      intro waiting
      cases silent : a.notifies with
      | true =>
          dsimp only at waiting
          rw [silent,if_pos rfl] at waiting
          exact absurd waiting (notified_awake _)
      | false =>
          dsimp only at waiting
          rw [silent] at waiting
          exact act_awake (awake waiting) silent acted
  | destroy => exact Awake.destroy accompanied moved
  | wake =>
      simp only [Destructor.next,Option.ite_none_right_eq_some,Option.some.injEq] at moved
      obtain ⟨_,rfl⟩ := moved
      intro waiting
      cases waiting

theorem accompanied_sharp (e : Event Task) (after : ∀ t, next s e = some t → Awake t) : Accompanied s e := by
  cases e with
  | destroy =>
      intro tested
      have moved : next s .destroy = some {s with stage := .waiting} := by
        unfold next destroy
        rw [tested]
      exact after {s with stage := .waiting} moved rfl
  | _ => trivial

end Steps

theorem awake_exactly (pool : State Task) (events : List (Event Task)) :
    Throughout next Awake ⟨pool,.before⟩ events ↔ Along next Accompanied ⟨pool,.before⟩ events :=
  throughout_exactly (fun waiting => by cases waiting) (fun _ awake => awake) (fun _ _ _ awake => awake.next)
    fun _ e _ => accompanied_sharp e

-- The only thread erases itself and notifies between the test and the wait.
def tooSoon : List (Event Unit) :=
  [.destroy,.act (.work 0 .leave),.destroy,.destroy,.destroy,.act (.work 0 .erase),.act (.work 0 .notify),.destroy]

theorem wakeup_lost : ¬∀ (poolMode : PoolMode) (taskQueMaxSizeThreshold : Int32)
    (threadSizeThreshold initThreadSize : UInt32) (generatedId : Nat) (s : State Unit),
    (State.constructed poolMode taskQueMaxSizeThreshold threadSizeThreshold generatedId).start initThreadSize = some s →
    ∀ events : List (Event Unit), Throughout next Awake ⟨s,.before⟩ events := by
  intro always
  have last := Throughout.reached tooSoon [] rfl (always .MODE_FIXED 8 10 1 0 _ rfl (tooSoon ++ []))
  exact last rfl ⟨rfl,by decide⟩

end Destructor
end Fishjoy.ThreadPool
