import Fishjoy.Foundation.Transition
import Mathlib.Data.List.Basic
import Mathlib.Logic.Function.Basic

namespace Fishjoy.ThreadStart
open Transition

-- Where `Thread::run` stands. Behind `notify` it calls its task at once, which
-- is `Scheduler::run`; that has `m_mutex` for the first time when it scans the
-- queue.
inductive Place where
  | entered
  | identified
  | swapped
  | notified
  | executing
  | scanning
  deriving DecidableEq

structure Thread where
  m_id : Int
  m_task : Bool
  m_semaphore : Nat
  place : Place
  deriving DecidableEq

def Thread.new : Thread := ⟨-1,true,0,.entered⟩

-- Where `Scheduler::start` stands, behind the test in its round `i`. The
-- constructor of a thread has two steps: it creates the thread, and waits for
-- the semaphore.
inductive Stage where
  | test
  | create
  | wait
  | push
  | refused
  | returned
  | threw
  deriving DecidableEq

structure State where
  m_threads : Nat → Option Thread
  m_threadIds : List Int
  m_mutex : Bool
  i : Nat
  stage : Stage

-- `stop` sets `m_stopping` without the lock: the test finds it either way.
inductive Action where
  | test (m_stopping : Bool)
  | create (created : Bool)
  | wait
  | push
  | leave
  | run (j : Nat)

-- `m_threadIds` may have the root thread already. The lock is held from here on.
def begins (ids : List Int) : State := ⟨fun _ => none,ids,true,0,.test⟩

def Thread.step (tid : Int) (m_mutex : Bool) (t : Thread) : Option Thread :=
  match t.place with
  | .entered => some {t with m_id := tid, place := .identified}
  | .identified => some {t with m_task := false, place := .swapped}
  | .swapped => some {t with m_semaphore := t.m_semaphore+1, place := .notified}
  | .notified => some {t with place := .executing}
  | .executing => if m_mutex then none else some {t with place := .scanning}
  | .scanning => none

def next (tid : Nat → Int) (m_threadCount : Nat) (s : State) : Action → Option State
  | .test m_stopping =>
    if s.stage = .test then
      if m_stopping then some {s with m_mutex := false, stage := .refused} else some {s with stage := .create}
    else none
  | .create created =>
    if s.stage = .create ∧ s.i < m_threadCount then
      if created then some {s with m_threads := Function.update s.m_threads s.i (some .new), stage := .wait}
      else some {s with m_mutex := false, stage := .threw}
    else none
  | .wait =>
    if s.stage = .wait then
      (s.m_threads s.i).bind fun t =>
        if t.m_semaphore = 0 then none
        else some {s with
          m_threads := Function.update s.m_threads s.i (some {t with m_semaphore := t.m_semaphore-1}), stage := .push}
    else none
  | .push =>
    if s.stage = .push then
      (s.m_threads s.i).map fun t => {s with m_threadIds := s.m_threadIds ++ [t.m_id], i := s.i+1, stage := .create}
    else none
  | .leave => if s.stage = .create ∧ s.i = m_threadCount then some {s with m_mutex := false, stage := .returned} else none
  | .run j => (s.m_threads j).bind fun t =>
    (t.step (tid j) s.m_mutex).map fun t => {s with m_threads := Function.update s.m_threads j (some t)}

def Stage.over : Stage → Bool
  | .refused | .returned | .threw => true
  | .test | .create | .wait | .push => false

def Place.posted : Place → Bool
  | .notified | .executing | .scanning => true
  | .entered | .identified | .swapped => false

structure Started (tid : Nat → Int) (m_threadCount : Nat) (ids : List Int) (s : State) : Prop where
  listed : s.m_threadIds = ids ++ (List.range s.i).map tid
  complete : s.stage = .returned → s.i = m_threadCount ∧
    ∀ j, j < m_threadCount → ∃ t, s.m_threads j = some t ∧ t.m_id = tid j ∧ t.m_task = false
  refused : s.stage = .refused → s.m_threadIds = ids ∧ ∀ j, s.m_threads j = none
  waits : ∀ (j : Nat) (t : Thread), s.m_threads j = some t → t.place = .scanning → s.stage.over = true
  once : ∀ (j : Nat) (t : Thread), s.m_threads j = some t → t.m_semaphore ≤ 1
  moves : s.stage.over = false → ∃ a, (∀ j, a = .run j → j = s.i) ∧ (next tid m_threadCount s a).isSome

-- The thread of a round exists, and its constructor has gone past the semaphore.
def Created (s : State) (j : Nat) : Prop := j < s.i ∨ j = s.i ∧ (s.stage = .wait ∨ s.stage = .push)
def Waited (s : State) (j : Nat) : Prop := j < s.i ∨ j = s.i ∧ s.stage = .push

structure Sound (tid : Int) (waited : Prop) (t : Thread) : Prop where
  id : t.place ≠ .entered → t.m_id = tid
  task : t.place ≠ .entered → t.place ≠ .identified → t.m_task = false
  posted : waited → t.place.posted = true ∧ t.m_semaphore = 0
  unposted : ¬waited → t.m_semaphore = t.place.posted.toNat

structure Threads (tid : Nat → Int) (s : State) : Prop where
  absent : ∀ j, ¬Created s j → s.m_threads j = none
  present : ∀ j, Created s j → ∃ t, s.m_threads j = some t ∧ Sound (tid j) (Waited s j) t
  quiet : s.m_mutex = true → ∀ (j : Nat) (t : Thread), s.m_threads j = some t → t.place ≠ .scanning

structure Handshake (tid : Nat → Int) (m_threadCount : Nat) (ids : List Int) (s : State) : Prop where
  bound : s.i ≤ m_threadCount
  last : s.stage = .wait ∨ s.stage = .push → s.i < m_threadCount
  whole : s.stage = .returned → s.i = m_threadCount
  unmoved : s.stage = .test ∨ s.stage = .refused → s.i = 0
  listed : s.m_threadIds = ids ++ (List.range s.i).map tid
  locked : s.m_mutex = !s.stage.over
  threads : Threads tid s

section Steps
variable {tid : Nat → Int} {m_threadCount : Nat} {ids : List Int} {s u : State} {t v : Thread} {j : Nat}

theorem Sound.congr {waited waited' : Prop} (sound : Sound (tid j) waited t) (same : waited ↔ waited') :
    Sound (tid j) waited' t :=
  ⟨sound.id,sound.task,fun holds => sound.posted (same.mpr holds),fun fails => sound.unposted (mt same.mp fails)⟩

-- Who has notified has its id and has taken its task.
theorem Sound.ready {waited : Prop} (sound : Sound (tid j) waited t) (posted : t.place.posted = true) :
    t.m_id = tid j ∧ t.m_task = false := by
  have entered : t.place ≠ .entered := by
    intro place
    rw [place] at posted
    cases posted
  have identified : t.place ≠ .identified := by
    intro place
    rw [place] at posted
    cases posted
  exact ⟨sound.id entered,sound.task entered identified⟩

-- One step of `Thread::run`.
theorem Sound.step {waited : Prop} {mutex : Bool} (sound : Sound (tid j) waited t)
    (moved : t.step (tid j) mutex = some v) :
    Sound (tid j) waited v ∧ (v.place = .scanning → mutex = false) := by
  obtain ⟨id,task,posted,unposted⟩ := sound
  unfold Thread.step at moved
  cases place : t.place with
  | entered =>
      rw [place] at moved posted unposted
      cases moved
      exact ⟨⟨fun _ => rfl,fun _ no => absurd rfl no,fun holds => absurd (posted holds).1 Bool.false_ne_true,unposted⟩,
        fun same => by cases same⟩
  | identified =>
      rw [place] at moved id posted unposted
      cases moved
      exact ⟨⟨fun _ => id (by decide),fun _ _ => rfl,fun holds => absurd (posted holds).1 Bool.false_ne_true,unposted⟩,
        fun same => by cases same⟩
  | swapped =>
      rw [place] at moved id task posted unposted
      cases moved
      exact ⟨⟨fun _ => id (by decide),fun _ _ => task (by decide) (by decide),
        fun holds => absurd (posted holds).1 Bool.false_ne_true,fun fails => congrArg (· + 1) (unposted fails)⟩,
        fun same => by cases same⟩
  | notified =>
      rw [place] at moved id task posted unposted
      cases moved
      exact ⟨⟨fun _ => id (by decide),fun _ _ => task (by decide) (by decide),posted,unposted⟩,
        fun same => by cases same⟩
  | executing =>
      rw [place] at moved id task posted unposted
      cases mutex with
      | true => cases moved
      | false =>
          cases moved
          exact ⟨⟨fun _ => id (by decide),fun _ _ => task (by decide) (by decide),posted,unposted⟩,fun _ => rfl⟩
  | scanning =>
      rw [place] at moved
      cases moved

theorem Threads.found (threads : Threads tid s) (found : s.m_threads j = some t) :
    Created s j ∧ Sound (tid j) (Waited s j) t := by
  have created : Created s j := by
    by_contra missing
    rw [threads.absent j missing] at found
    cases found
  obtain ⟨_,same,sound⟩ := threads.present j created
  rw [found] at same
  cases same
  exact ⟨created,sound⟩

-- A step of `start` that touches no thread.
theorem Threads.keep (threads : Threads tid s) (placed : u.m_threads = s.m_threads)
    (created : ∀ k, Created u k ↔ Created s k) (waited : ∀ k, Waited u k ↔ Waited s k)
    (mutex : u.m_mutex = true → s.m_mutex = true) : Threads tid u := by
  refine ⟨?_,?_,?_⟩
  · intro k missing
    rw [placed]
    exact threads.absent k (mt (created k).mpr missing)
  · intro k there
    obtain ⟨t,found,sound⟩ := threads.present k ((created k).mp there)
    exact ⟨t,placed ▸ found,sound.congr (waited k).symm⟩
  · intro locked k t found
    rw [placed] at found
    exact threads.quiet (mutex locked) k t found

-- A step at one thread, which the other threads do not see.
theorem Threads.replace (threads : Threads tid s) (placed : u.m_threads = Function.update s.m_threads j (some v))
    (created : ∀ k, Created u k ↔ k = j ∨ Created s k) (waited : ∀ k, k ≠ j → (Waited u k ↔ Waited s k))
    (mutex : u.m_mutex = s.m_mutex) (sound : Sound (tid j) (Waited u j) v)
    (calm : s.m_mutex = true → v.place ≠ .scanning) : Threads tid u := by
  refine ⟨?_,?_,?_⟩
  · intro k missing
    rw [created k,not_or] at missing
    rw [placed,Function.update_of_ne missing.1]
    exact threads.absent k missing.2
  · intro k there
    rw [placed]
    by_cases same : k = j
    · subst same
      exact ⟨v,Function.update_self _ _ _,sound⟩
    · obtain ⟨t,found,sound⟩ := threads.present k (((created k).mp there).resolve_left same)
      rw [Function.update_of_ne same]
      exact ⟨t,found,sound.congr (waited k same).symm⟩
  · intro locked k t found
    rw [mutex] at locked
    rw [placed] at found
    by_cases same : k = j
    · subst same
      rw [Function.update_self] at found
      cases found
      exact calm locked
    · rw [Function.update_of_ne same] at found
      exact threads.quiet locked k t found

theorem test_handshake (hand : Handshake tid m_threadCount ids s) (stage : s.stage = .test) :
    Handshake tid m_threadCount ids {s with stage := .create} := by
  have locked := hand.locked
  rw [stage] at locked
  refine ⟨hand.bound,by simp,by simp,by simp,hand.listed,locked,hand.threads.keep rfl ?_ ?_ id⟩
  · simp [Created,stage]
  · simp [Waited,stage]

theorem refuse_handshake (hand : Handshake tid m_threadCount ids s) (stage : s.stage = .test) :
    Handshake tid m_threadCount ids {s with m_mutex := false, stage := .refused} := by
  refine ⟨hand.bound,by simp,by simp,fun _ => hand.unmoved (.inl stage),hand.listed,rfl,
    hand.threads.keep rfl ?_ ?_ (fun same => by cases same)⟩
  · simp [Created,stage]
  · simp [Waited,stage]

theorem create_handshake (hand : Handshake tid m_threadCount ids s) (stage : s.stage = .create)
    (inside : s.i < m_threadCount) : Handshake tid m_threadCount ids
      {s with m_threads := Function.update s.m_threads s.i (some .new), stage := .wait} := by
  have locked := hand.locked
  rw [stage] at locked
  refine ⟨hand.bound,fun _ => inside,by simp,by simp,hand.listed,locked,
    hand.threads.replace rfl ?_ ?_ rfl ?_ (fun _ same => by cases same)⟩
  · intro k
    simp only [Created,stage]
    simp [or_comm]
  · simp [Waited,stage]
  · refine ⟨fun no => absurd rfl no,fun no => absurd rfl no,?_,fun _ => rfl⟩
    simp [Waited]

theorem throw_handshake (hand : Handshake tid m_threadCount ids s) (stage : s.stage = .create) :
    Handshake tid m_threadCount ids {s with m_mutex := false, stage := .threw} := by
  refine ⟨hand.bound,by simp,by simp,by simp,hand.listed,rfl,
    hand.threads.keep rfl ?_ ?_ (fun same => by cases same)⟩
  · simp [Created,stage]
  · simp [Waited,stage]

-- The semaphore that the creator waits for counts the one notification.
theorem Threads.waiting (threads : Threads tid s) (stage : s.stage = .wait) (found : s.m_threads s.i = some t) :
    t.m_semaphore = t.place.posted.toNat :=
  (threads.found found).2.unposted (by simp [Waited,stage])

theorem wait_handshake (hand : Handshake tid m_threadCount ids s) (stage : s.stage = .wait)
    (found : s.m_threads s.i = some t) (positive : t.m_semaphore ≠ 0) : Handshake tid m_threadCount ids
      {s with m_threads := Function.update s.m_threads s.i (some {t with m_semaphore := t.m_semaphore-1}),
              stage := .push} := by
  have count := hand.threads.waiting stage found
  have posted : t.place.posted = true := by
    by_contra unposted
    rw [Bool.eq_false_iff.mpr unposted] at count
    exact positive count
  rw [posted] at count
  have locked := hand.locked
  rw [stage] at locked
  obtain ⟨_,sound⟩ := hand.threads.found found
  refine ⟨hand.bound,fun _ => hand.last (.inl stage),by simp,by simp,hand.listed,locked,
    hand.threads.replace rfl ?_ ?_ rfl ?_ fun held => hand.threads.quiet held s.i t found⟩
  · intro k
    simp only [Created,stage]
    simp [or_comm]
  · intro k apart
    simp [Waited,stage,apart]
  · exact ⟨sound.id,sound.task,fun _ => ⟨posted,by rw [count]; rfl⟩,fun no => absurd (.inr ⟨rfl,rfl⟩) no⟩

theorem push_handshake (hand : Handshake tid m_threadCount ids s) (stage : s.stage = .push)
    (found : s.m_threads s.i = some t) : Handshake tid m_threadCount ids
      {s with m_threadIds := s.m_threadIds ++ [t.m_id], i := s.i+1, stage := .create} := by
  have locked := hand.locked
  rw [stage] at locked
  obtain ⟨_,sound⟩ := hand.threads.found found
  have known := (sound.ready (sound.posted (.inr ⟨rfl,stage⟩)).1).1
  refine ⟨hand.last (.inr stage),by simp,by simp,by simp,?_,locked,hand.threads.keep rfl ?_ ?_ id⟩
  · rw [List.range_succ,List.map_append,←List.append_assoc,←hand.listed,known]
    rfl
  · intro k
    simp only [Created,stage,reduceCtorEq,or_false,and_false,or_true,and_true]
    exact Nat.lt_succ_iff_lt_or_eq
  · intro k
    simp only [Waited,stage,reduceCtorEq,and_false,or_false,and_true]
    exact Nat.lt_succ_iff_lt_or_eq

theorem leave_handshake (hand : Handshake tid m_threadCount ids s) (stage : s.stage = .create)
    (whole : s.i = m_threadCount) : Handshake tid m_threadCount ids {s with m_mutex := false, stage := .returned} := by
  refine ⟨hand.bound,by simp,fun _ => whole,by simp,hand.listed,rfl,
    hand.threads.keep rfl ?_ ?_ (fun same => by cases same)⟩
  · simp [Created,stage]
  · simp [Waited,stage]

theorem run_handshake (hand : Handshake tid m_threadCount ids s) (found : s.m_threads j = some t)
    (stepped : t.step (tid j) s.m_mutex = some v) :
    Handshake tid m_threadCount ids {s with m_threads := Function.update s.m_threads j (some v)} := by
  obtain ⟨created,sound⟩ := hand.threads.found found
  obtain ⟨sound,calm⟩ := sound.step stepped
  refine ⟨hand.bound,hand.last,hand.whole,hand.unmoved,hand.listed,hand.locked,
    hand.threads.replace rfl ?_ (fun _ _ => Iff.rfl) rfl sound ?_⟩
  · intro k
    refine ⟨.inr,?_⟩
    rintro (rfl | there)
    · exact created
    · exact there
  · intro held place
    rw [calm place] at held
    cases held

theorem step_handshake (hand : Handshake tid m_threadCount ids s) (a : Action)
    (moved : next tid m_threadCount s a = some u) : Handshake tid m_threadCount ids u := by
  cases a with
  | test m_stopping =>
      obtain ⟨stage,moved⟩ := Option.ite_none_right_eq_some.mp moved
      cases m_stopping with
      | true => cases moved; exact refuse_handshake hand stage
      | false => cases moved; exact test_handshake hand stage
  | create created =>
      obtain ⟨⟨stage,inside⟩,moved⟩ := Option.ite_none_right_eq_some.mp moved
      cases created with
      | true => cases moved; exact create_handshake hand stage inside
      | false => cases moved; exact throw_handshake hand stage
  | wait =>
      obtain ⟨stage,moved⟩ := Option.ite_none_right_eq_some.mp moved
      obtain ⟨t,found,moved⟩ := Option.bind_eq_some_iff.mp moved
      obtain ⟨positive,moved⟩ := Option.ite_none_left_eq_some.mp moved
      cases moved
      exact wait_handshake hand stage found positive
  | push =>
      obtain ⟨stage,moved⟩ := Option.ite_none_right_eq_some.mp moved
      obtain ⟨t,found,rfl⟩ := Option.map_eq_some_iff.mp moved
      exact push_handshake hand stage found
  | leave =>
      obtain ⟨⟨stage,whole⟩,moved⟩ := Option.ite_none_right_eq_some.mp moved
      cases moved
      exact leave_handshake hand stage whole
  | run j =>
      obtain ⟨t,found,moved⟩ := Option.bind_eq_some_iff.mp moved
      obtain ⟨v,stepped,rfl⟩ := Option.map_eq_some_iff.mp moved
      exact run_handshake hand found stepped

theorem begins_handshake (tid : Nat → Int) (m_threadCount : Nat) (ids : List Int) :
    Handshake tid m_threadCount ids (begins ids) := by
  refine ⟨Nat.zero_le _,by simp [begins],by simp [begins],fun _ => rfl,(List.append_nil _).symm,rfl,
    fun _ _ => rfl,?_,?_⟩
  · intro j there
    simp [Created,begins] at there
  · intro _ j t found
    cases found

-- While the creator waits, the thread it waits for can go on.
theorem Handshake.moves (hand : Handshake tid m_threadCount ids s) (going : s.stage.over = false) :
    ∃ a, (∀ j, a = .run j → j = s.i) ∧ (next tid m_threadCount s a).isSome := by
  cases stage : s.stage with
  | test => exact ⟨.test false,by simp,by simp [next,stage]⟩
  | create =>
      rcases Nat.lt_or_ge s.i m_threadCount with inside | past
      · exact ⟨.create true,by simp,by simp [next,stage,inside]⟩
      · exact ⟨.leave,by simp,by simp [next,stage,Nat.le_antisymm hand.bound past]⟩
  | wait =>
      obtain ⟨t,found,_⟩ := hand.threads.present s.i (.inr ⟨rfl,.inl stage⟩)
      have count := hand.threads.waiting stage found
      cases posted : t.place.posted with
      | true =>
          rw [posted] at count
          exact ⟨.wait,by simp,by simp [next,stage,found,count]⟩
      | false =>
          refine ⟨.run s.i,by simp,?_⟩
          rw [next,found,Option.bind_some,Option.isSome_map,Thread.step.eq_def]
          cases place : t.place with
          | entered => rfl
          | identified => rfl
          | swapped => rfl
          | _ => rw [place] at posted; cases posted
  | push =>
      obtain ⟨t,found,_⟩ := hand.threads.present s.i (.inr ⟨rfl,.inr stage⟩)
      exact ⟨.push,by simp,by simp [next,stage,found]⟩
  | _ => rw [stage] at going; cases going

theorem Handshake.started (hand : Handshake tid m_threadCount ids s) : Started tid m_threadCount ids s := by
  refine ⟨hand.listed,?_,?_,?_,?_,hand.moves⟩
  · intro returned
    have whole := hand.whole returned
    refine ⟨whole,fun j inside => ?_⟩
    have less : j < s.i := by rwa [whole]
    obtain ⟨t,found,sound⟩ := hand.threads.present j (.inl less)
    exact ⟨t,found,sound.ready (sound.posted (.inl less)).1⟩
  · intro refused
    have none := hand.unmoved (.inr refused)
    have listed := hand.listed
    rw [none] at listed
    refine ⟨listed.trans (List.append_nil _),fun j => hand.threads.absent j ?_⟩
    simp [Created,none,refused]
  · intro j t found scanning
    by_contra going
    have locked := hand.locked
    rw [Bool.eq_false_iff.mpr going] at locked
    exact hand.threads.quiet locked j t found scanning
  · intro j t found
    obtain ⟨_,sound⟩ := hand.threads.found found
    by_cases waited : Waited s j
    · rw [(sound.posted waited).2]
      exact Nat.zero_le _
    · rw [sound.unposted waited]
      exact Bool.toNat_le _

end Steps

theorem threads_started (tid : Nat → Int) (m_threadCount : Nat) (ids : List Int) (actions : List Action) :
    Throughout (next tid m_threadCount) (Started tid m_threadCount ids) (begins ids) actions :=
  throughout_of_along (begins_handshake tid m_threadCount ids) (fun _ hand => hand.started)
    (fun _ a _ hand _ moved => step_handshake hand a moved) along_any

end Fishjoy.ThreadStart
