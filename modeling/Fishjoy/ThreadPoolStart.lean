import Fishjoy.ThreadPool

namespace Fishjoy.ThreadPool
open Transition

namespace State
variable {Task : Type} {s u : State Task}

def withThreads (s : State Task) (k : Nat) : State Task :=
  {s with
    threads := s.threads ∪ Finset.Ico s.generatedId (s.generatedId+k)
    generatedId := s.generatedId+k
    created := s.created+k}

def withWorkers (s : State Task) (i k : Nat) : State Task :=
  {s with
    workers := s.workers ++ (List.range' i k).map fun id => ⟨id,.loop⟩
    idleThreadSize := s.idleThreadSize+UInt32.ofNat k
    counted := s.counted+k}

theorem withThreads_zero (s : State Task) : s.withThreads 0 = s := by
  unfold withThreads
  rw [Nat.add_zero,Finset.Ico_self,Finset.union_empty]
  rfl

theorem createThread_some : s.createThread = some u ↔ s.generatedId < INT_MAX ∧ u = s.withThreads 1 := by
  have one : s.threads ∪ Finset.Ico s.generatedId (s.generatedId+1) = insert s.generatedId s.threads := by
    rw [Nat.Ico_succ_singleton,Finset.union_comm]
    rfl
  unfold createThread withThreads
  rw [one,Option.ite_none_right_eq_some,Option.some.injEq]
  exact and_congr_right fun _ => eq_comm

theorem withThreads_add (s : State Task) (j k : Nat) : (s.withThreads j).withThreads k = s.withThreads (j+k) := by
  have joined := Finset.Ico_union_Ico_eq_Ico (Nat.le_add_right s.generatedId j) (Nat.le_add_right (s.generatedId+j) k)
  unfold withThreads
  simp only [Nat.add_assoc] at joined ⊢
  rw [Finset.union_assoc,joined]

theorem createThreads_some {k : Nat} :
    createThreads k s = some u ↔ (k = 0 ∨ s.generatedId+k ≤ INT_MAX) ∧ u = s.withThreads k := by
  induction k generalizing s with
  | zero =>
      rw [withThreads_zero]
      exact ⟨fun same => ⟨.inl rfl,(Option.some.inj same).symm⟩,fun both => congrArg some both.2.symm⟩
  | succ k ih =>
      have later : (s.withThreads 1).generatedId = s.generatedId+1 := rfl
      rw [createThreads,Option.bind_eq_some_iff]
      constructor
      · rintro ⟨_,made,rest⟩
        obtain ⟨below,rfl⟩ := createThread_some.mp made
        obtain ⟨room,rfl⟩ := ih.mp rest
        rw [withThreads_add,Nat.add_comm 1 k]
        exact ⟨by omega,rfl⟩
      · rintro ⟨room,rfl⟩
        refine ⟨_,createThread_some.mpr ⟨by omega,rfl⟩,ih.mpr ⟨by omega,?_⟩⟩
        rw [withThreads_add,Nat.add_comm 1 k]

theorem startThreads_some {i k : Nat} :
    s.startThreads i k = some u ↔ (∀ j, i ≤ j → j < i+k → j ∈ s.threads) ∧ u = s.withWorkers i k := by
  induction k generalizing s i with
  | zero =>
      have same : s.withWorkers i 0 = s := by
        unfold withWorkers
        rw [List.range'_zero,List.map_nil,List.append_nil,Nat.add_zero]
        exact congrArg (fun idle => {s with idleThreadSize := idle}) (UInt32.add_zero _)
      rw [same]
      refine ⟨fun held => ⟨fun j low high => by omega,(Option.some.inj held).symm⟩,fun both => congrArg some both.2.symm⟩
  | succ k ih =>
      have joined (started : State Task) (shape : started = {s with workers := s.workers ++ [⟨i,.loop⟩]}) :
          started.countIdle.withWorkers (i+1) k = s.withWorkers i (k+1) := by
        subst shape
        unfold withWorkers countIdle
        rw [List.range'_succ,List.map_cons,Nat.add_comm k 1,UInt32.ofNat_add,←UInt32.add_assoc,←Nat.add_assoc]
        simp only [List.append_assoc,List.singleton_append]
        rfl
      rw [startThreads,Option.bind_eq_some_iff]
      constructor
      · rintro ⟨_,first,rest⟩
        unfold startThread at first
        obtain ⟨here,same⟩ := Option.ite_none_right_eq_some.mp first
        obtain ⟨others,rfl⟩ := ih.mp rest
        have same := (Option.some.inj same).symm
        refine ⟨fun j low high => ?_,joined _ same⟩
        by_cases now : j = i
        · rwa [now]
        · subst same
          exact others j (by omega) (by omega)
      · rintro ⟨held,rfl⟩
        refine ⟨_,if_pos (held i (Nat.le_refl _) (by omega)),ih.mpr ⟨?_,(joined _ rfl).symm⟩⟩
        intro j low high
        exact held j (by omega) (by omega)

-- What `start` leaves when it dereferences no null pointer.
def started (s : State Task) (n : UInt32) : State Task :=
  ({s with isPoolRunning := true, initThreadSize := n, curThreadSize := n}.withThreads n.toNat).withWorkers 0 n.toNat

theorem start_some {n : UInt32} : s.start n = some u ↔
    (n.toNat = 0 ∨ s.generatedId+n.toNat ≤ INT_MAX) ∧
      (∀ j < n.toNat, j ∈ s.threads ∨ s.generatedId ≤ j) ∧ u = s.started n := by
  unfold start
  rw [Option.bind_eq_some_iff]
  have member (j : Nat) (below : j < n.toNat) :
      j ∈ s.threads ∪ Finset.Ico s.generatedId (s.generatedId+n.toNat) ↔ j ∈ s.threads ∨ s.generatedId ≤ j := by
    rw [Finset.mem_union,Finset.mem_Ico]
    exact or_congr_right ⟨And.left,fun low => ⟨low,by omega⟩⟩
  constructor
  · rintro ⟨_,made,begun⟩
    obtain ⟨room,rfl⟩ := createThreads_some.mp made
    obtain ⟨held,rfl⟩ := startThreads_some.mp begun
    exact ⟨room,fun j below => (member j below).mp (held j (Nat.zero_le _) (by omega)),rfl⟩
  · rintro ⟨room,held,rfl⟩
    refine ⟨_,createThreads_some.mpr ⟨room,rfl⟩,startThreads_some.mpr ⟨?_,rfl⟩⟩
    intro j _ below
    exact (member j (by omega)).mpr (held j (by omega))

end State

-- All pools of the process draw their ids from one counter.
structure Process (Task : Type) where
  generatedId : Nat
  pools : List (State Task)

namespace Process
variable {Task : Type}

inductive Event (Task : Type) where
  | construct (poolMode : PoolMode) (taskQueMaxSizeThreshold : Int32) (threadSizeThreshold : UInt32)
  | act (k : Nat) (action : Action Task)
  | start (k : Nat) (initThreadSize : UInt32)

def initial : Process Task := ⟨0,[]⟩

def view (s : Process Task) (pool : State Task) : State Task := {pool with generatedId := s.generatedId}

def store (s : Process Task) (k : Nat) (pool : State Task) : Process Task := ⟨pool.generatedId,s.pools.set k pool⟩

def next (s : Process Task) : Event Task → Option (Process Task)
  | .construct poolMode queue threads =>
    some {s with pools := s.pools ++ [State.constructed poolMode queue threads s.generatedId]}
  | .act k action => s.pools[k]?.bind fun pool => (ThreadPool.next (s.view pool) action).map (s.store k)
  | .start k n => s.pools[k]?.bind fun pool => ((s.view pool).start n).map (s.store k)

-- A call of `start` starts the objects it created, no others, and they are what `threads_` holds.
def Proper (s : Process Task) : Event Task → Prop
  | .start k n => ∀ pool, s.pools[k]? = some pool → ∃ u, (s.view pool).start n = some u ∧
      u.workers = pool.workers ++ (List.range' s.generatedId n.toNat).map (fun id => ⟨id,.loop⟩) ∧
      u.threads = Finset.Ico s.generatedId (s.generatedId+n.toNat)
  | _ => True

-- No thread was created in the process before, or there is nothing to start and nothing held.
def First (s : Process Task) : Event Task → Prop
  | .start k n => ∀ pool, s.pools[k]? = some pool →
      s.generatedId = 0 ∧ n.toNat ≤ INT_MAX ∨ n.toNat = 0 ∧ pool.threads = ∅
  | _ => True

def Below (s : Process Task) : Prop := ∀ pool ∈ s.pools, ∀ id ∈ pool.threads, id < s.generatedId

section Steps
variable {s t : Process Task}

theorem grown_below {s : State Task} (below : ∀ id ∈ s.threads, id < s.generatedId) :
    ∀ id ∈ s.grown.threads, id < s.grown.generatedId := by
  intro id member
  rcases Finset.mem_insert.mp member with rfl | old
  · exact Nat.lt_succ_self _
  · exact Nat.lt_succ_of_lt (below id old)

theorem next_below {s u : State Task} {a : Action Task} (below : ∀ id ∈ s.threads, id < s.generatedId)
    (moved : ThreadPool.next s a = some u) : s.generatedId ≤ u.generatedId ∧ ∀ id ∈ u.threads, id < u.generatedId := by
  cases a with
  | submitTask task =>
      cases State.submitTask_cases moved with
      | refused => exact ⟨Nat.le_refl _,below⟩
      | queued => exact ⟨Nat.le_refl _,below⟩
      | grown => exact ⟨Nat.le_succ _,grown_below (s := s.push task) below⟩
  | work i step =>
      obtain ⟨w,_,moved⟩ := Option.bind_eq_some_iff.mp moved
      cases State.work_cases moved with
      | reclaim => exact ⟨Nat.le_refl _,fun id member => below id (Finset.mem_of_mem_erase member)⟩
      | erase => exact ⟨Nat.le_refl _,fun id member => below id (Finset.mem_of_mem_erase member)⟩
      | _ => exact ⟨Nat.le_refl _,below⟩

theorem start_below {s u : State Task} (below : ∀ id ∈ s.threads, id < s.generatedId) {n : UInt32}
    (moved : s.start n = some u) : s.generatedId ≤ u.generatedId ∧ ∀ id ∈ u.threads, id < u.generatedId := by
  obtain ⟨_,_,rfl⟩ := State.start_some.mp moved
  refine ⟨Nat.le_add_right _ _,fun id member => ?_⟩
  rcases Finset.mem_union.mp member with old | new
  · exact Nat.lt_of_lt_of_le (below id old) (Nat.le_add_right _ _)
  · exact (Finset.mem_Ico.mp new).2

-- One pool moves and the counter does not go back.
theorem Below.store (below : Below s) (k : Nat) {u : State Task} (further : s.generatedId ≤ u.generatedId)
    (own : ∀ id ∈ u.threads, id < u.generatedId) : Below (s.store k u) := by
  intro pool member id held
  rcases Roster.mem_set member with rfl | other
  · exact own id held
  · exact Nat.lt_of_lt_of_le (below pool other id held) further

theorem Below.next (below : Below s) {a : Event Task} (moved : next s a = some t) : Below t := by
  cases a with
  | construct poolMode queue threads =>
      cases moved
      intro pool member
      rcases List.mem_append.mp member with old | new
      · exact below pool old
      · rw [List.mem_singleton.mp new]
        exact fun id held => absurd held (Finset.notMem_empty id)
  | act k action =>
      obtain ⟨pool,found,moved⟩ := Option.bind_eq_some_iff.mp moved
      obtain ⟨u,acted,rfl⟩ := Option.map_eq_some_iff.mp moved
      obtain ⟨further,own⟩ := next_below (s := s.view pool) (below pool (List.mem_of_getElem? found)) acted
      exact below.store k further own
  | start k n =>
      obtain ⟨pool,found,moved⟩ := Option.bind_eq_some_iff.mp moved
      obtain ⟨u,acted,rfl⟩ := Option.map_eq_some_iff.mp moved
      obtain ⟨further,own⟩ := start_below (s := s.view pool) (below pool (List.mem_of_getElem? found)) acted
      exact below.store k further own

-- `start` goes through the keys 0, 1, .. of `threads_`, whatever its objects are called.
theorem start_proper {pool : State Task} (below : ∀ id ∈ pool.threads, id < s.generatedId) (n : UInt32) :
    (∃ u, (s.view pool).start n = some u ∧
      u.workers = pool.workers ++ (List.range' s.generatedId n.toNat).map (fun id => ⟨id,.loop⟩) ∧
      u.threads = Finset.Ico s.generatedId (s.generatedId+n.toNat)) ↔
    s.generatedId = 0 ∧ n.toNat ≤ INT_MAX ∨ n.toNat = 0 ∧ pool.threads = ∅ := by
  constructor
  · rintro ⟨u,moved,workers,threads⟩
    obtain ⟨room,_,rfl⟩ := State.start_some.mp moved
    cases size : n.toNat with
    | zero =>
        refine .inr ⟨rfl,?_⟩
        change pool.threads ∪ Finset.Ico s.generatedId (s.generatedId+n.toNat) = _ at threads
        rwa [size,Nat.add_zero,Finset.Ico_self,Finset.union_empty] at threads
    | succ k =>
        change pool.workers ++ (List.range' 0 n.toNat).map (fun id => (⟨id,.loop⟩ : Worker Task)) = _ at workers
        rw [size,List.range'_succ,List.range'_succ] at workers
        obtain ⟨first,_⟩ := List.cons.inj (List.append_cancel_left workers)
        have zero : 0 = s.generatedId := congrArg Worker.threadid first
        change n.toNat = 0 ∨ s.generatedId+n.toNat ≤ INT_MAX at room
        omega
  · rintro (⟨zero,room⟩ | ⟨none,empty⟩)
    · have nothing : pool.threads = ∅ := by
        refine Finset.eq_empty_of_forall_notMem fun id member => ?_
        have := below id member
        omega
      refine ⟨_,State.start_some.mpr ⟨.inr ?_,?_,rfl⟩,?_,?_⟩
      · change s.generatedId+n.toNat ≤ INT_MAX
        omega
      · exact fun j _ => .inr (zero.trans_le (Nat.zero_le j))
      · change pool.workers ++ (List.range' 0 n.toNat).map _ = _
        rw [zero]
      · change pool.threads ∪ _ = _
        rw [nothing,Finset.empty_union]
        rfl
    · refine ⟨_,State.start_some.mpr ⟨.inl none,?_,rfl⟩,?_,?_⟩
      · intro j less
        omega
      · change pool.workers ++ (List.range' 0 n.toNat).map _ = _
        rw [none]
        rfl
      · change pool.threads ∪ _ = _
        rw [empty,Finset.empty_union]
        rfl

theorem proper_first (below : Below s) (a : Event Task) : Proper s a ↔ First s a := by
  cases a with
  | start k n =>
      exact forall_congr' fun pool => forall_congr' fun found => start_proper (below pool (List.mem_of_getElem? found)) n
  | _ => exact Iff.rfl

end Steps
theorem start_exactly (events : List (Event Task)) :
    Along next Proper (initial : Process Task) events ↔ Along next First (initial : Process Task) events :=
  along_congr (fun _ nothing => absurd nothing List.not_mem_nil) (fun _ _ _ below _ _ => below.next)
    (fun _ a below _ => proper_first below a) along_any

-- The second pool looks for thread 0, which is not one of its threads.
def onePool : List (Event Unit) := [.construct .MODE_FIXED 8 10,.start 0 1,.construct .MODE_FIXED 8 10]

theorem second_pool_null : ¬∀ events : List (Event Unit), Along next Proper (initial : Process Unit) events := by
  intro always
  have second := Along.at onePool (.start 1 1) [] rfl (always (onePool ++ [.start 1 1]))
  obtain ⟨u,moved,_⟩ := second _ rfl
  cases moved

end Process
end Fishjoy.ThreadPool
