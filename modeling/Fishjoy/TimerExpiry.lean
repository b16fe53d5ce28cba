import Fishjoy.TimerOrder

namespace Fishjoy.TimerManager
open OrderedSet Transition
variable {Ptr Callback : Type} [LinearOrder Ptr] {m : TimerManager Ptr Callback} {p : Ptr}

-- The loop behind the lower bound stops at the first later time, and a sorted
-- list has no earlier one after it.
omit [LinearOrder Ptr] in
theorem dropWhile_later {object : Ptr → Timer Callback} {l : List Ptr}
    (sorted : l.Pairwise fun p q => (object p).next ≤ (object q).next)
    (late : ∀ p ∈ l, now ≤ (object p).next) (member : p ∈ l.dropWhile fun p => (object p).next == now) :
    now < (object p).next := by
  induction l with
  | nil => cases member
  | cons head rest ih =>
      obtain ⟨least,tail⟩ := List.pairwise_cons.mp sorted
      by_cases same : (object head).next = now
      · rw [List.dropWhile_cons_of_pos (by simpa using same)] at member
        exact ih tail (fun q present => late q (List.mem_cons_of_mem _ present)) member
      · rw [List.dropWhile_cons_of_neg (by simpa using same)] at member
        have after : now < (object head).next :=
          UInt64.lt_of_le_of_ne (late head (by simp)) fun equal => same equal.symm
        rcases List.mem_cons.mp member with rfl | later
        · exact after
        · exact UInt64.lt_of_lt_of_le after (least p later)

-- Whatever the address of the probe, the lower bound leaves no time before
-- `now` behind it.
theorem expiredEnd_rest (sorted : Sorted m.less m.timers) (now : UInt64) (nowTimer : Ptr)
    (kept : p ∈ m.timers.drop (m.expiredEnd now nowTimer false)) : now < (m.object p).next := by
  let before : Ptr → Bool := fun p => Timer.Comparator (some (m.key p)) (some ⟨now,nowTimer⟩)
  let rest := m.timers.drop (lowerBound before m.timers)
  have ascending : m.timers.Pairwise fun p q => (m.object p).next ≤ (m.object q).next :=
    sorted.imp fun less => comparator_next less
  have late : ∀ q ∈ rest, now ≤ (m.object q).next := by
    intro q member
    have reached : before q = false :=
      drop_lowerBound sorted (fun _ _ less earlier => comparator_trans less earlier) member
    apply UInt64.not_lt.mp
    intro less
    rw [show before q = true from comparator_iff.mpr (.inl less)] at reached
    cases reached
  have passed : rest.drop (rest.takeWhile fun p => (m.object p).next == now).length =
      rest.dropWhile fun p => (m.object p).next == now :=
    (congrArg (List.drop _) List.takeWhile_append_dropWhile).symm.trans List.drop_left
  have remains : p ∈ rest.dropWhile fun p => (m.object p).next == now := by
    rw [←passed,List.drop_drop]
    exact kept
  exact dropWhile_later (ascending.sublist (List.drop_sublist _ _)) late remains

theorem expiredEnd_filter (sorted : Sorted m.less m.timers) (now : UInt64) (nowTimer : Ptr) :
    m.timers.take (m.expiredEnd now nowTimer false) = m.timers.filter fun p => decide ((m.object p).next ≤ now) := by
  apply take_filter
  · intro p taken
    exact decide_eq_true (expiredEnd_due now nowTimer taken)
  · intro p kept
    exact decide_eq_false (UInt64.not_le.mpr (expiredEnd_rest sorted now nowTimer kept))

-- The early return is the case in which no timer is due.
theorem listExpiredCb_filter (sorted : Sorted m.less m.timers) (steady : (m.detectClockRollover now).1 = false)
    (nowTimer : Ptr) : (m.listExpiredCb now nowTimer).expired =
      m.timers.filter fun p => decide ((m.object p).next ≤ now) := by
  by_cases empty : m.timers = []
  · simp [listExpiredCb,empty]
  · obtain ⟨first,rest,timers⟩ := List.exists_cons_of_ne_nil empty
    rw [listExpiredCb_cons timers now nowTimer,steady]
    by_cases early : (m.object first).next > now
    · simp only [Bool.not_false,Bool.true_and,decide_eq_true early,if_true]
      symm
      apply List.filter_eq_nil_iff.mpr
      intro p member
      rw [timers] at member sorted
      have least : (m.object first).next ≤ (m.object p).next := by
        rcases List.mem_cons.mp member with rfl | later
        · exact UInt64.le_refl _
        · exact comparator_next ((List.pairwise_cons.mp sorted).1 p later)
      simpa using UInt64.lt_of_lt_of_le early least
    · simp only [Bool.not_false,Bool.true_and,decide_eq_false early,Bool.false_eq_true,if_false]
      exact expiredEnd_filter sorted now nowTimer

theorem collect_sorted (now : UInt64) {l : List Ptr} (sorted : Sorted m.less m.timers) (nodup : l.Nodup)
    (apart : ∀ p ∈ l, p ∉ m.timers) : Sorted (collect now l m).2.less (collect now l m).2.timers := by
  induction l generalizing m with
  | nil => exact sorted
  | cons p rest ih =>
      obtain ⟨fresh,tail⟩ := List.nodup_cons.mp nodup
      rw [collect_cons]
      refine ih (settle_sorted sorted (apart p (by simp)) now) tail ?_
      intro q member present
      rcases (settle_mem now).mp present with old | ⟨rfl,_⟩
      · exact apart q (List.mem_cons_of_mem _ member) old
      · exact fresh member

theorem listExpiredCb_sorted (sorted : Sorted m.less m.timers) (now : UInt64) (nowTimer : Ptr) :
    Sorted (m.listExpiredCb now nowTimer).manager.less (m.listExpiredCb now nowTimer).manager.timers := by
  rcases listExpiredCb_parts m now nowTimer with ⟨_,_,object,_,timers,_⟩ | ⟨it,_,_,after,_⟩
  · have less : (m.listExpiredCb now nowTimer).manager.less = m.less := by
      funext p q
      simp only [less,key,object]
    rw [less,timers]
    exact sorted
  · rw [after]
    have nodup := sorted.nodup m.less_strict
    refine collect_sorted now ?_ (nodup.sublist (List.take_sublist it m.timers)) ?_
    · exact List.Pairwise.sublist (List.drop_sublist it m.timers) sorted
    · intro p taken kept
      rw [←List.take_append_drop it m.timers] at nodup
      exact (List.nodup_append.mp nodup).2.2 p taken p kept rfl

-- Which callbacks are appended and in which order, what the set is afterwards,
-- and what became of each timer.
theorem expired_exact (sorted : Sorted m.less m.timers) (steady : (m.detectClockRollover now).1 = false)
    (nowTimer : Ptr) :
    (m.listExpiredCb now nowTimer).expired = m.timers.filter (fun p => decide ((m.object p).next ≤ now)) ∧
    (m.listExpiredCb now nowTimer).expired.Nodup ∧
    (m.listExpiredCb now nowTimer).expired.Pairwise (fun p q => (m.object p).next < (m.object q).next ∨
      ((m.object p).next = (m.object q).next ∧ p < q)) ∧
    (m.listExpiredCb now nowTimer).cbs =
      (m.listExpiredCb now nowTimer).expired.map (fun p => (m.object p).cb) ∧
    Sorted (m.listExpiredCb now nowTimer).manager.less (m.listExpiredCb now nowTimer).manager.timers ∧
    (∀ p, p ∈ (m.listExpiredCb now nowTimer).manager.timers ↔ p ∈ m.timers ∧
      (now < (m.object p).next ∨ ((m.object p).next ≤ now ∧ (m.object p).recurring = true))) ∧
    (∀ p ∈ m.timers, (m.object p).next ≤ now → (m.object p).recurring = true →
      (m.listExpiredCb now nowTimer).manager.object p =
        {m.object p with next := now+(m.object p).ms}) ∧
    (∀ p ∈ m.timers, (m.object p).next ≤ now → (m.object p).recurring = false →
      (m.listExpiredCb now nowTimer).manager.object p = {m.object p with cb := none}) ∧
    ∀ p, ¬(p ∈ m.timers ∧ (m.object p).next ≤ now) →
      (m.listExpiredCb now nowTimer).manager.object p = m.object p := by
  have expires := sorted_expires sorted now nowTimer
  have due := listExpiredCb_filter sorted steady nowTimer
  have collected : ∀ p, p ∈ (m.listExpiredCb now nowTimer).expired ↔ p ∈ m.timers ∧ (m.object p).next ≤ now := by
    intro p
    rw [due,List.mem_filter,decide_eq_true_iff]
  refine ⟨due,expires.once,?_,expires.cbs,listExpiredCb_sorted sorted now nowTimer,?_,?_,?_,?_⟩
  · rw [due]
    exact (List.Pairwise.sublist List.filter_sublist sorted).imp fun less => (less_iff m _ _).mp less
  · intro p
    rw [expires.timers,collected,not_and,UInt64.not_le,and_assoc,←and_or_left]
    exact and_congr_right fun member => or_congr_left ⟨fun kept => kept member,fun later _ => later⟩
  · intro p member late recurring
    rw [expires.inside p ((collected p).mpr ⟨member,late⟩),settled_recurring recurring]
  · intro p member late once
    rw [expires.inside p ((collected p).mpr ⟨member,late⟩),settled_once once]
  · intro p outside
    exact expires.outside p fun member => outside ((collected p).mp member)

-- Both timers of the pair are due at one time, and the probe lies between them.
theorem expired_exact_pair : (pairSample.listExpiredCb 6 5).expired = [3,7] ∧
    (pairSample.listExpiredCb 6 5).expired.Nodup :=
  ⟨by decide,(expired_exact (reached_valid pairSample_reached).sorted (by decide) 5).2.1⟩

end Fishjoy.TimerManager
