import Mathlib.Algebra.Order.Group.Multiset
import Mathlib.Tactic.Abel
import Fishjoy.ThreadPoolStart

namespace Fishjoy.ThreadPool
open Transition Roster

def Worker.member {Task : Type} (w : Worker Task) : Option Nat :=
  if w.phase.registered then some w.threadid else none

def Worker.task {Task : Type} (w : Worker Task) : Option Task := w.phase.task

namespace State
variable {Task : Type}

-- The ids of the threads that have not taken themselves out of `threads_`.
def members (s : State Task) : List Nat := s.workers.filterMap Worker.member

def held (s : State Task) : List Task := s.workers.filterMap Worker.task

end State

-- Every accepted task is in the queue, in one thread, or executed, and once.
def Placed {Task : Type} (s : State Task) : Prop := (s.taskQue ++ s.held ++ s.executed).Perm s.accepted

structure Sound {Task : Type} (s : State Task) : Prop where
  taskSize : s.taskSize.toNat = s.taskQue.length%2^32
  exactly : 0 ≤ s.taskQueMaxSizeThreshold.toInt → s.taskSize.toNat = s.taskQue.length
  bounded : 0 < s.taskQueMaxSizeThreshold.toInt → (s.taskQue.length : Int) ≤ s.taskQueMaxSizeThreshold.toInt
  curThreadSize : s.curThreadSize.toNat = s.threads.card
  atLeast : s.initThreadSize.toNat ≤ s.curThreadSize.toNat
  atMost : s.curThreadSize.toNat ≤ max s.initThreadSize.toNat s.threadSizeThreshold.toNat
  placed : Placed s

structure Queued {Task : Type} (s : State Task) : Prop where
  size : s.taskSize = UInt32.ofNat s.taskQue.length
  bounded : 0 ≤ s.taskQueMaxSizeThreshold.toInt → s.taskQue.length ≤ s.taskQueMaxSizeThreshold.toInt.toNat

structure Manned {Task : Type} (s : State Task) : Prop where
  registered : s.threads.val = (s.members : Multiset Nat)
  curThreadSize : s.curThreadSize.toNat = s.threads.card
  atLeast : s.initThreadSize.toNat ≤ s.curThreadSize.toNat
  atMost : s.curThreadSize.toNat ≤ max s.initThreadSize.toNat s.threadSizeThreshold.toNat
  below : ∀ id ∈ s.threads, id < s.generatedId
  staying : ∀ w ∈ s.workers, w.phase ≠ .leaving

-- The invariant of a pool that runs.
structure Kept {Task : Type} (s : State Task) : Prop where
  running : s.isPoolRunning = true
  queued : Queued s
  manned : Manned s
  placed : Placed s

section Steps
variable {Task : Type} {s u : State Task} {i : Nat} {w : Worker Task}

theorem size_t_nonneg {t : Int32} (nonneg : 0 ≤ t.toInt) : t.toInt64.toUInt64.toNat = t.toInt.toNat := by
  have wide : t.toInt64.toInt = t.toInt := t.toInt_toInt64
  have same : t.toInt64.toInt = t.toInt64.toBitVec.toInt := rfl
  have bits : t.toInt64.toUInt64.toNat = t.toInt64.toBitVec.toNat := rfl
  have small := t.toInt64.toBitVec.isLt
  rw [BitVec.toInt_eq_toNat_cond] at same
  split at same <;> omega

theorem Kept.sound (kept : Kept s) : Sound s := by
  obtain ⟨_,⟨size,bounded⟩,manned,placed⟩ := kept
  have counted : s.taskSize.toNat = s.taskQue.length%2^32 := by
    rw [size]
    exact UInt32.toNat_ofNat'
  refine ⟨counted,?_,?_,manned.curThreadSize,manned.atLeast,manned.atMost,placed⟩
  · intro nonneg
    have small := s.taskQueMaxSizeThreshold.toInt_lt
    have few := bounded nonneg
    omega
  · intro positive
    have few := bounded (by omega)
    omega

-- The queue.

theorem Queued.push (queued : Queued s) (room : s.notFull = true) (task : Task) : Queued (s.push task) := by
  obtain ⟨size,bounded⟩ := queued
  refine ⟨?_,fun nonneg => ?_⟩
  · unfold State.push
    rw [List.length_append,UInt32.ofNat_add,←size]
    rfl
  · have less := of_decide_eq_true room
    unfold State.push at nonneg ⊢
    rw [size_t_nonneg nonneg] at less
    rw [List.length_append]
    exact less

theorem Queued.take (queued : Queued s) {task : Task} {rest : List Task} (queue : s.taskQue = task :: rest) :
    Queued (s.take i w task rest) := by
  obtain ⟨size,bounded⟩ := queued
  rw [queue,List.length_cons] at size bounded
  refine ⟨?_,fun nonneg => (Nat.le_succ _).trans (bounded nonneg)⟩
  change s.taskSize-1 = UInt32.ofNat rest.length
  rw [size,UInt32.ofNat_add]
  exact UInt32.add_sub_cancel _ _

-- The threads.

theorem members_goto (found : s.workers[i]? = some w) (phase : Phase Task) :
    ((s.goto i w phase).members ++ w.member.toList).Perm (s.members ++ ({w with phase} : Worker Task).member.toList) :=
  filterMap_set found _ Worker.member

-- A thread changes its phase and stays registered, or unregistered, as it was.
theorem Manned.goto (manned : Manned s) (found : s.workers[i]? = some w) (phase : Phase Task) (stays : phase ≠ .leaving)
    (same : phase.registered = w.phase.registered) : Manned (s.goto i w phase) := by
  have moved := members_goto found phase
  have equal : ({w with phase} : Worker Task).member = w.member := by
    unfold Worker.member
    rw [same]
  rw [equal,List.perm_append_right_iff] at moved
  refine ⟨?_,manned.curThreadSize,manned.atLeast,manned.atMost,manned.below,?_⟩
  · exact manned.registered.trans (Multiset.coe_eq_coe.mpr moved.symm)
  · intro other member
    rcases mem_set member with rfl | old
    · exact stays
    · exact manned.staying other old

theorem Manned.reclaim (manned : Manned s) (found : s.workers[i]? = some w) (asleep : w.phase = .asleep)
    (above : s.initThreadSize < s.curThreadSize) : Manned (s.reclaim i w) := by
  have moved := members_goto found .reclaimed
  have own : w.member = some w.threadid := by
    unfold Worker.member
    rw [asleep]
    rfl
  rw [own] at moved
  have members : (s.members : Multiset Nat) = w.threadid ::ₘ (s.goto i w .reclaimed).members :=
    Multiset.coe_eq_coe.mpr ((List.append_nil s.members ▸ moved.symm).trans (List.perm_append_singleton _ _))
  have inside : w.threadid ∈ s.threads := by
    rw [←Finset.mem_val,manned.registered,members]
    exact Multiset.mem_cons_self _ _
  have above := UInt32.lt_iff_toNat_lt.mp above
  have fewer := decrement (x := s.curThreadSize) (by omega)
  have size := manned.curThreadSize
  have most := manned.atMost
  refine ⟨?_,?_,?_,?_,?_,?_⟩
  · change (s.threads.erase w.threadid).val = ((s.goto i w .reclaimed).members : Multiset Nat)
    rw [Finset.erase_val,manned.registered,members,Multiset.erase_cons_head]
  · change (s.curThreadSize-1).toNat = (s.threads.erase w.threadid).card
    rw [fewer,Finset.card_erase_of_mem inside,size]
  · change s.initThreadSize.toNat ≤ (s.curThreadSize-1).toNat
    omega
  · change (s.curThreadSize-1).toNat ≤ max s.initThreadSize.toNat s.threadSizeThreshold.toNat
    omega
  · exact fun id member => manned.below id (Finset.mem_of_mem_erase member)
  · intro other member
    rcases mem_set member with rfl | old
    · exact fun same => by cases same
    · exact manned.staying other old

theorem Manned.grown (manned : Manned s) (room : s.curThreadSize < s.threadSizeThreshold) : Manned s.grown := by
  have fresh : s.generatedId ∉ s.threads := fun member => Nat.lt_irrefl _ (manned.below _ member)
  have room := UInt32.lt_iff_toNat_lt.mp room
  have small := s.threadSizeThreshold.toNat_lt
  have more := increment (x := s.curThreadSize) (by omega)
  have least := manned.atLeast
  refine ⟨?_,?_,?_,?_,Process.grown_below manned.below,?_⟩
  · change (insert s.generatedId s.threads).val = _
    unfold State.members State.grown
    rw [Finset.insert_val_of_notMem fresh,manned.registered,List.filterMap_append]
    exact Multiset.coe_eq_coe.mpr (List.perm_append_singleton _ _).symm
  · change (s.curThreadSize+1).toNat = (insert s.generatedId s.threads).card
    rw [more,Finset.card_insert_of_notMem fresh,manned.curThreadSize]
  · change s.initThreadSize.toNat ≤ (s.curThreadSize+1).toNat
    omega
  · change (s.curThreadSize+1).toNat ≤ max s.initThreadSize.toNat s.threadSizeThreshold.toNat
    omega
  · intro other member
    rcases List.mem_append.mp member with old | new
    · exact manned.staying other old
    · rw [List.mem_singleton.mp new]
      exact fun same => by cases same

-- The tasks.

theorem held_goto (found : s.workers[i]? = some w) (phase : Phase Task) :
    ((s.goto i w phase).held ++ w.phase.task.toList).Perm (s.held ++ phase.task.toList) :=
  filterMap_set found _ Worker.task

theorem placed_iff : Placed s ↔
    (s.taskQue : Multiset Task)+(s.held : Multiset Task)+(s.executed : Multiset Task) = s.accepted := by
  rw [Multiset.coe_add,Multiset.coe_add]
  exact Multiset.coe_eq_coe.symm

theorem Placed.goto (placed : Placed s) (found : s.workers[i]? = some w) (phase : Phase Task)
    (same : phase.task = w.phase.task) : Placed (s.goto i w phase) := by
  have moved := held_goto found phase
  rw [same,List.perm_append_right_iff] at moved
  exact ((moved.append_left _).append_right _).trans placed

theorem Placed.push (placed : Placed s) (task : Task) : Placed (s.push task) := by
  have placed := placed_iff.mp placed
  refine placed_iff.mpr ?_
  change (↑(s.taskQue ++ [task]) : Multiset Task)+↑s.held+↑s.executed = ↑(s.accepted ++ [task])
  rw [←Multiset.coe_add,←Multiset.coe_add,←placed]
  abel

theorem Placed.take (placed : Placed s) (found : s.workers[i]? = some w) (free : w.phase.task = none) {task : Task}
    {rest : List Task} (queue : s.taskQue = task :: rest) : Placed (s.take i w task rest) := by
  have placed := placed_iff.mp placed
  have moved := held_goto found (.busy task)
  rw [free] at moved
  have moved : ((s.goto i w (.busy task)).held : Multiset Task) = s.held+[task] :=
    Multiset.coe_eq_coe.mpr (List.append_nil (s.goto i w (.busy task)).held ▸ moved)
  have front : (s.taskQue : Multiset Task) = [task]+rest := congrArg _ queue
  refine placed_iff.mpr ?_
  change (rest : Multiset Task)+(s.goto i w (.busy task)).held+s.executed = s.accepted
  rw [moved,←placed,front]
  abel

theorem Placed.run (placed : Placed s) (found : s.workers[i]? = some w) {task : Task} (busy : w.phase = .busy task) :
    Placed (s.run i w task) := by
  have placed := placed_iff.mp placed
  have moved := held_goto found .ran
  rw [busy] at moved
  have moved : ((s.goto i w .ran).held : Multiset Task)+[task] = s.held :=
    Multiset.coe_eq_coe.mpr (List.append_nil s.held ▸ moved)
  refine placed_iff.mpr ?_
  change (s.taskQue : Multiset Task)+(s.goto i w .ran).held+↑(s.executed ++ [task]) = s.accepted
  rw [←placed,←moved,←Multiset.coe_add]
  abel

-- Without threads of an earlier pool the keys that `start` goes through are its own.
theorem started_members (s : State Task) (n : UInt32) (none : s.workers = []) :
    (s.started n).members = List.range' 0 n.toNat ∧ (s.started n).held = [] := by
  have workers : (s.started n).workers = (List.range' 0 n.toNat).map fun id => ⟨id,.loop⟩ := by
    change s.workers ++ _ = _
    rw [none]
    rfl
  unfold State.members State.held
  rw [workers,List.filterMap_map,List.filterMap_map]
  exact ⟨List.filterMap_some,List.filterMap_eq_nil_iff.mpr fun _ _ => rfl⟩

theorem constructed_kept {poolMode : PoolMode} {queue : Int32} {threads : UInt32} {g : Nat} {n : UInt32}
    (started : (State.constructed poolMode queue threads g : State Task).start n = some s) : Kept s := by
  obtain ⟨_,keys,rfl⟩ := State.start_some.mp started
  obtain ⟨members,held⟩ := started_members (State.constructed poolMode queue threads g : State Task) n rfl
  have own : Finset.Ico g (g+n.toNat) = Finset.Ico 0 n.toNat := by
    ext id
    rw [Finset.mem_Ico,Finset.mem_Ico]
    have first : 0 < n.toNat → g = 0 := by
      intro some
      rcases keys 0 some with absent | zero
      · exact absurd absent (Finset.notMem_empty 0)
      · exact Nat.le_zero.mp zero
    omega
  have threads : (State.started (State.constructed poolMode queue threads g : State Task) n).threads =
      Finset.Ico 0 n.toNat := (Finset.empty_union _).trans own
  refine ⟨rfl,⟨rfl,fun _ => Nat.zero_le _⟩,⟨?_,?_,Nat.le_refl _,Nat.le_max_left _ _,?_,?_⟩,?_⟩
  · rw [members,threads]
    rfl
  · rw [threads,Nat.card_Ico]
    rfl
  · intro id member
    change id ∈ ∅ ∪ Finset.Ico g (g+n.toNat) at member
    rw [Finset.empty_union] at member
    exact (Finset.mem_Ico.mp member).2
  · intro w member
    obtain ⟨_,_,rfl⟩ := List.mem_map.mp member
    exact fun same => by cases same
  · unfold Placed
    rw [held]
    exact .nil

theorem Kept.submitTask (kept : Kept s) {task : Task} (moved : s.submitTask task = some u) : Kept u := by
  obtain ⟨running,queued,manned,placed⟩ := kept
  cases State.submitTask_cases moved with
  | refused => exact ⟨running,queued,manned,placed⟩
  | queued room => exact ⟨running,queued.push room task,{manned with},placed.push task⟩
  | grown room needed =>
      have pushed : Manned (s.push task) := {manned with}
      have queue := queued.push room task
      simp only [State.needsThread,Bool.and_eq_true,decide_eq_true_eq] at needed
      refine ⟨running,{queue with},pushed.grown needed.2,?_⟩
      have same : (s.push task).grown.held = (s.push task).held := by
        unfold State.held State.grown
        rw [List.filterMap_append]
        exact List.append_nil _
      unfold Placed
      rw [same]
      exact placed.push task

theorem Kept.work (kept : Kept s) (found : s.workers[i]? = some w) {step : Step} (moved : s.work i w step = some u) :
    Kept u := by
  obtain ⟨running,queued,manned,placed⟩ := kept
  cases State.work_cases moved with
  | sleep awaits =>
      have registered := awaits_read Phase.registered awaits rfl rfl
      have free := awaits_read Phase.task awaits rfl rfl
      exact ⟨running,{queued with},manned.goto found _ (fun same => by cases same) registered.symm,
        placed.goto found _ free.symm⟩
  | take task rest awaits _ queue =>
      have registered := awaits_read Phase.registered awaits rfl rfl
      have free := awaits_read Phase.task awaits rfl rfl
      have crew := manned.goto found (.busy task) (fun same => by cases same) registered.symm
      exact ⟨running,queued.take queue,{crew with},placed.take found free queue⟩
  | reclaim asleep _ above =>
      have free : w.phase.task = none := by rw [asleep]; rfl
      exact ⟨running,{queued with},manned.reclaim found asleep above,placed.goto found .reclaimed free.symm⟩
  | run task busy =>
      have crew := manned.goto found .ran (fun same => by cases same) (by rw [busy]; rfl)
      exact ⟨running,{queued with},{crew with},placed.run found busy⟩
  | finish ran =>
      have crew := manned.goto found .loop (fun same => by cases same) (by rw [ran]; rfl)
      exact ⟨running,{queued with},{crew with},
        placed.goto found .loop (by rw [ran]; rfl)⟩
  | leave _ stopped => rw [running] at stopped; cases stopped
  | erase leaving => exact absurd leaving (manned.staying w (List.mem_of_getElem? found))
  | notify erased =>
      exact ⟨running,{queued with},manned.goto found _ (fun same => by cases same) (by rw [erased]; rfl),
        placed.goto found _ (by rw [erased]; rfl)⟩

theorem Kept.next (kept : Kept s) {a : Action Task} (moved : next s a = some u) : Kept u := by
  cases a with
  | submitTask task => exact kept.submitTask moved
  | work i step =>
      obtain ⟨w,found,moved⟩ := Option.bind_eq_some_iff.mp moved
      exact kept.work found moved

end Steps

theorem sound_throughout {Task : Type} (poolMode : PoolMode) (taskQueMaxSizeThreshold : Int32)
    (threadSizeThreshold initThreadSize : UInt32) (generatedId : Nat) (s : State Task)
    (started : (State.constructed poolMode taskQueMaxSizeThreshold threadSizeThreshold generatedId).start initThreadSize =
      some s) (actions : List (Action Task)) : Throughout next Sound s actions :=
  throughout_of_along (constructed_kept started) (fun _ => Kept.sound) (fun _ _ _ kept _ => kept.next) along_any

theorem sound_throughout_one : Throughout next Sound ((State.constructed .MODE_CACHED 8 10 0 : State Nat).started 1)
    [.submitTask 5,.work 0 .take,.submitTask 6,.work 0 .run] :=
  sound_throughout .MODE_CACHED 8 10 1 0 _ rfl _

-- With a negative threshold, which is a huge `size_t`, nothing is refused.
theorem flood {Task : Type} (task : Task) (k : Nat) (s : State Task) (fixed : s.poolMode = .MODE_FIXED)
    (unlimited : s.taskQueMaxSizeThreshold = -1) (few : s.taskQue.length+k ≤ 2^32) :
    ∃ u, run next s (List.replicate k (.submitTask task)) = some u ∧ u.taskQue.length = s.taskQue.length+k := by
  induction k generalizing s with
  | zero => exact ⟨s,rfl,rfl⟩
  | succ k ih =>
      have room : s.notFull = true := by
        have huge : (-1 : Int32).toInt64.toUInt64.toNat = 2^64-1 := by decide
        unfold State.notFull
        rw [unlimited,huge]
        exact decide_eq_true (by omega)
      have enough : (s.push task).needsThread = false := by
        have same : (s.push task).poolMode = .MODE_FIXED := fixed
        unfold State.needsThread
        rw [same]
        rfl
      have longer : (s.push task).taskQue.length = s.taskQue.length+1 := List.length_append
      have moved : next s (.submitTask task) = some (s.push task) := by
        change s.submitTask task = _
        unfold State.submitTask
        rw [if_pos room,enough]
        rfl
      obtain ⟨u,ran,length⟩ := ih (s.push task) fixed unlimited (by omega)
      refine ⟨u,?_,by omega⟩
      rw [List.replicate_succ,run,moved]
      exact ran

-- After 2^32 calls the queue is longer than any value of the counter.
theorem size_wraps : ¬∀ (poolMode : PoolMode) (taskQueMaxSizeThreshold : Int32)
    (threadSizeThreshold initThreadSize : UInt32) (generatedId : Nat) (s : State Unit),
    (State.constructed poolMode taskQueMaxSizeThreshold threadSizeThreshold generatedId).start initThreadSize = some s →
    ∀ actions : List (Action Unit), Throughout next (fun s => s.taskSize.toNat = s.taskQue.length) s actions := by
  intro always
  obtain ⟨u,ran,length⟩ := flood () (2^32) ((State.constructed .MODE_FIXED (-1) 10 0).started 0) rfl rfl (Nat.le_refl _)
  have last := Throughout.reached _ [] ran (always .MODE_FIXED (-1) 10 0 0 _ rfl _)
  have small := u.taskSize.toNat_lt
  rw [last,length] at small
  exact absurd small (by decide)

end Fishjoy.ThreadPool
