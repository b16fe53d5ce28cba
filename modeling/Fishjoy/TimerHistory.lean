import Fishjoy.TimerOrder

namespace Fishjoy.TimerManager
open OrderedSet Transition
variable {Ptr Callback : Type} [LinearOrder Ptr] {m n : TimerManager Ptr Callback} {p : Ptr}
  {op : TimerOp Ptr Callback} {ops : List (TimerOp Ptr Callback)}

-- How often a run puts the callback of `p` into a result of `listExpiredCb`.
def collections (p : Ptr) : TimerManager Ptr Callback → List (TimerOp Ptr Callback) → Nat
  | _,[] => 0
  | m,op :: rest => (m.expiredBy op).count p+((next m op).map (collections p · rest)).getD 0

theorem collections_cons (moved : next m op = some n) :
    collections p m (op :: ops) = (m.expiredBy op).count p+collections p n ops := by
  simp [collections,moved]

theorem collected_armed (valid : Valid m) (collected : p ∈ m.expiredBy op) : p ∈ m.timers := by
  cases op with
  | listExpiredCb now nowTimer => exact (listExpiredCb_expires valid now nowTimer).taken p collected
  | _ => cases collected

theorem collected_once (valid : Valid m) : (m.expiredBy op).count p ≤ 1 := by
  cases op with
  | listExpiredCb now nowTimer =>
      exact List.nodup_iff_count_le_one.mp (listExpiredCb_expires valid now nowTimer).once p
  | _ => exact Nat.zero_le 1

-- A timer that is out of the set and has no callback comes back by no section.
structure Retired (m : TimerManager Ptr Callback) (p : Ptr) : Prop where
  made : m.made p = true
  empty : (m.object p).cb.isSome = false
  absent : p ∉ m.timers

theorem moves_retired (valid : Valid m) (retired : Retired m p) (moves : Moves m op n) : Retired n p := by
  by_cases named : op.self = some p
  · cases moves with
    | addTimer fresh =>
        cases Option.some.inj named
        have made := retired.made
        rw [fresh] at made; cases made
    | cancel made present =>
        cases Option.some.inj named
        have empty := retired.empty
        rw [present] at empty; cases empty
    | refresh made present =>
        cases Option.some.inj named
        have empty := retired.empty
        rw [present] at empty; cases empty
    | reset made present =>
        cases Option.some.inj named
        have empty := retired.empty
        rw [present] at empty; cases empty
    | cancelled | unrefreshed | unreset | resetUnchanged => exact retired
    | listExpiredCb | getNextTimer => cases named
  · have uncollected : p ∉ m.expiredBy op := fun collected => retired.absent (collected_armed valid collected)
    obtain ⟨object,made,timers⟩ := moves_frame valid moves named uncollected
    exact ⟨made.trans retired.made,by rw [object]; exact retired.empty,fun member => retired.absent (timers.mp member)⟩

theorem retired_collections (valid : Valid m) (retired : Retired m p) : collections p m ops = 0 := by
  induction ops generalizing m with
  | nil => rfl
  | cons op rest ih =>
      have uncollected : p ∉ m.expiredBy op := fun collected => retired.absent (collected_armed valid collected)
      cases moved : next m op with
      | none => simp [collections,moved,List.count_eq_zero_of_not_mem uncollected]
      | some n =>
          have moves := next_moves valid moved
          rw [collections_cons moved,List.count_eq_zero_of_not_mem uncollected,Nat.zero_add]
          exact ih (moves_valid valid moves) (moves_retired valid retired moves)

-- `m_recurring` is written by the constructor only.
theorem moves_recurring (valid : Valid m) (made : m.made p = true) (moves : Moves m op n) :
    n.made p = true ∧ (n.object p).recurring = (m.object p).recurring := by
  by_cases named : op.self = some p
  · cases moves with
    | addTimer fresh =>
        cases Option.some.inj named
        rw [fresh] at made; cases made
    | cancel _ present =>
        cases Option.some.inj named
        exact ⟨made,by rw [without_object,store_self]⟩
    | refresh _ present =>
        cases Option.some.inj named
        exact ⟨made,by rw [place_object,store_self]⟩
    | reset _ present object kept timers =>
        cases Option.some.inj named
        exact ⟨by rw [kept]; exact made,by rw [object,place_object,store_self]; rfl⟩
    | cancelled | unrefreshed | unreset | resetUnchanged => exact ⟨made,rfl⟩
    | listExpiredCb | getNextTimer => cases named
  · by_cases collected : p ∈ m.expiredBy op
    · cases moves with
      | @listExpiredCb now nowTimer =>
          have expires := listExpiredCb_expires valid now nowTimer
          rw [expires.made,expires.inside p collected]
          refine ⟨made,?_⟩
          unfold settled
          split <;> rfl
      | _ => cases collected
    · obtain ⟨object,kept,_⟩ := moves_frame valid moves named collected
      exact ⟨kept.trans made,by rw [object]⟩

theorem run_recurring (valid : Valid m) (made : m.made p = true) (ran : run next m ops = some n) :
    (n.object p).recurring = (m.object p).recurring := by
  induction ops generalizing m with
  | nil => cases ran; rfl
  | cons op rest ih =>
      obtain ⟨middle,moved,later⟩ := Option.bind_eq_some_iff.mp ran
      have moves := next_moves valid moved
      obtain ⟨madeNext,same⟩ := moves_recurring valid made moves
      exact (ih (moves_valid valid moves) madeNext later).trans same

theorem once_collected (valid : Valid m) (collected : p ∈ m.expiredBy op) (moves : Moves m op n)
    (once : (m.object p).recurring = false) : Retired n p := by
  have made := valid.made p (collected_armed valid collected)
  cases moves with
  | @listExpiredCb now nowTimer =>
      have expires := listExpiredCb_expires valid now nowTimer
      refine ⟨by rw [expires.made]; exact made,?_,?_⟩
      · rw [expires.inside p collected,settled_once once]; rfl
      · intro member
        rcases (expires.timers p).mp member with ⟨_,kept⟩ | ⟨_,recurring⟩
        · exact kept collected
        · rw [once] at recurring; cases recurring
  | _ => cases collected

theorem once_collections (valid : Valid m) (ran : run next m ops = some n)
    (once : (n.object p).recurring = false) : collections p m ops ≤ 1 := by
  induction ops generalizing m with
  | nil => exact Nat.zero_le 1
  | cons op rest ih =>
      obtain ⟨middle,moved,later⟩ := Option.bind_eq_some_iff.mp ran
      have moves := next_moves valid moved
      have validNext := moves_valid valid moves
      rw [collections_cons moved]
      by_cases collected : p ∈ m.expiredBy op
      · have made := valid.made p (collected_armed valid collected)
        obtain ⟨madeNext,same⟩ := moves_recurring valid made moves
        have kind : (m.object p).recurring = false :=
          same.symm.trans ((run_recurring validNext madeNext later).symm.trans once)
        rw [retired_collections validNext (once_collected valid collected moves kind)]
        exact collected_once valid
      · rw [List.count_eq_zero_of_not_mem collected,Nat.zero_add]
        exact ih validNext later

theorem cancel_retires (valid : Valid m) (made : m.made p = true) (present : (m.object p).cb.isSome = true) :
    Retired ((m.store p {m.object p with cb := none}).without p) p :=
  ⟨made,by simp,fun member => ((clear_mem valid.sorted (valid.armed p made present)).mp member).2 rfl⟩

theorem cancel_collections (valid : Valid m) (made : m.made p = true) {done : Timer.Done Ptr Callback}
    (cancelled : Timer.cancel m p = .ok done) (returned : done.result = true) :
    collections p done.manager ops = 0 := by
  cases present : (m.object p).cb.isSome with
  | false =>
      rw [cancel_disarmed present] at cancelled
      cases cancelled; cases returned
  | true =>
      rw [cancel_armed valid made present] at cancelled
      cases cancelled
      exact retired_collections (cancel_valid valid (valid.armed p made present)) (cancel_retires valid made present)

-- While no section names or collects it, a timer stays as it is.
theorem run_undisturbed (valid : Valid m) (ran : run next m ops = some n)
    (unnamed : ∀ op ∈ ops, op.self ≠ some p) (uncollected : collections p m ops = 0) :
    n.object p = m.object p ∧ (p ∈ n.timers ↔ p ∈ m.timers) := by
  induction ops generalizing m with
  | nil => cases ran; exact ⟨rfl,Iff.rfl⟩
  | cons op rest ih =>
      obtain ⟨middle,moved,later⟩ := Option.bind_eq_some_iff.mp ran
      have moves := next_moves valid moved
      rw [collections_cons moved,Nat.add_eq_zero_iff,List.count_eq_zero] at uncollected
      obtain ⟨object,_,timers⟩ := moves_frame valid moves (unnamed op (by simp)) uncollected.1
      obtain ⟨objectLater,timersLater⟩ := ih (moves_valid valid moves) later
        (fun op member => unnamed op (List.mem_cons_of_mem _ member)) uncollected.2
      exact ⟨objectLater.trans object,timersLater.trans timers⟩

theorem callbacks_collected (path : Reached next anyStep Start m) :
    (∀ now nowTimer, (m.listExpiredCb now nowTimer).cbs =
      (m.listExpiredCb now nowTimer).expired.map fun p => (m.object p).cb) ∧
    (∀ p ops n, run next m ops = some n → (n.object p).recurring = false → collections p m ops ≤ 1) ∧
    (∀ p done ops, m.made p = true → Timer.cancel m p = .ok done → done.result = true →
      collections p done.manager ops = 0) ∧
    ∀ p now nowTimer, p ∈ (m.listExpiredCb now nowTimer).expired → (m.object p).recurring = true →
      ∀ ops n, run next (m.listExpiredCb now nowTimer).manager ops = some n →
        (∀ op ∈ ops, op.self ≠ some p) → collections p (m.listExpiredCb now nowTimer).manager ops = 0 →
        p ∈ n.timers ∧ (n.object p).cb = (m.object p).cb ∧ (n.object p).next = now+(m.object p).ms := by
  have valid := reached_valid path
  refine ⟨?_,?_,?_,?_⟩
  · exact fun now nowTimer => (listExpiredCb_expires valid now nowTimer).cbs
  · exact fun p ops n ran once => once_collections valid ran once
  · exact fun p done ops made cancelled returned => cancel_collections valid made cancelled returned
  · intro p now nowTimer collected recurring ops n ran unnamed uncollected
    have expires := listExpiredCb_expires valid now nowTimer
    obtain ⟨object,timers⟩ := run_undisturbed (listExpiredCb_valid valid now nowTimer) ran unnamed uncollected
    rw [object,expires.inside p collected,settled_recurring recurring]
    exact ⟨timers.mpr ((expires.timers p).mpr (.inr ⟨collected,recurring⟩)),rfl,rfl⟩

-- At time 6 both timers of the sample are collected; only the recurring one,
-- of 6 ms, is armed again.
theorem callbacks_collected_pair : (pairSample.listExpiredCb 6 9).expired = [3,7] ∧
    3 ∈ (pairSample.listExpiredCb 6 9).manager.timers ∧
    ((pairSample.listExpiredCb 6 9).manager.object 3).next = 12 := by
  have expired : (pairSample.listExpiredCb 6 9).expired = [3,7] := by decide
  obtain ⟨_,_,_,rearmed⟩ := callbacks_collected (pairSample_reached.weaken fun _ _ _ => trivial)
  have three : 3 ∈ (pairSample.listExpiredCb 6 9).expired := by simp [expired]
  obtain ⟨armed,_,due⟩ := rearmed 3 6 9 three rfl [] _ rfl (by simp) rfl
  exact ⟨expired,armed,due⟩

end Fishjoy.TimerManager
