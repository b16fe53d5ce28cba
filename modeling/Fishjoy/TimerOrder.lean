import Fishjoy.Foundation.Transition
import Fishjoy.Timer

namespace Fishjoy.TimerManager
open OrderedSet Transition
variable {Ptr Callback : Type} [LinearOrder Ptr] {m : TimerManager Ptr Callback} {p q : Ptr}

theorem comparator_iff {lhs rhs : Timer.Key Ptr} : Timer.Comparator (some lhs) (some rhs) = true ↔
    lhs.next < rhs.next ∨ (lhs.next = rhs.next ∧ lhs.address < rhs.address) := by
  change (if lhs.next < rhs.next then true
    else if rhs.next < lhs.next then false else decide (lhs.address < rhs.address)) = true ↔ _
  by_cases before : lhs.next < rhs.next
  · simp [before]
  · by_cases after : rhs.next < lhs.next
    · have apart : lhs.next ≠ rhs.next := fun equal => by
        rw [equal] at after; exact UInt64.lt_irrefl _ after
      simp [before,after,apart]
    · have equal : lhs.next = rhs.next :=
        UInt64.le_antisymm (UInt64.not_lt.mp after) (UInt64.not_lt.mp before)
      simp [equal]

theorem comparator_next {lhs rhs : Timer.Key Ptr} (before : Timer.Comparator (some lhs) (some rhs) = true) :
    lhs.next ≤ rhs.next := by
  rcases comparator_iff.mp before with less | ⟨equal,_⟩
  · exact UInt64.le_of_lt less
  · exact UInt64.le_of_eq equal

theorem comparator_trans {a b c : Timer.Key Ptr} (first : Timer.Comparator (some a) (some b) = true)
    (second : Timer.Comparator (some b) (some c) = true) : Timer.Comparator (some a) (some c) = true := by
  rw [comparator_iff] at first second ⊢
  rcases first with one | ⟨one,less⟩ <;> rcases second with two | ⟨two,more⟩
  · exact .inl (UInt64.lt_trans one two)
  · exact .inl (two ▸ one)
  · exact .inl (one ▸ two)
  · exact .inr ⟨one.trans two,lt_trans less more⟩

theorem less_iff (m : TimerManager Ptr Callback) (p q : Ptr) : m.less p q = true ↔
    (m.object p).next < (m.object q).next ∨ ((m.object p).next = (m.object q).next ∧ p < q) :=
  comparator_iff

theorem less_strict (m : TimerManager Ptr Callback) : StrictOrder m.less where
  irrefl p := by
    rw [Bool.eq_false_iff,ne_eq,less_iff]
    simp [UInt64.lt_irrefl]
  trans first second := comparator_trans first second
  total {p q} notBefore notAfter := by
    rw [Bool.eq_false_iff,ne_eq,less_iff,not_or,not_and] at notBefore notAfter
    have equal := UInt64.le_antisymm (UInt64.not_lt.mp notAfter.1) (UInt64.not_lt.mp notBefore.1)
    exact le_antisymm (not_lt.mp (notAfter.2 equal.symm)) (not_lt.mp (notBefore.2 equal))

@[simp] theorem store_timers (t : Timer Callback) : (m.store p t).timers = m.timers := rfl
@[simp] theorem store_self (t : Timer Callback) : (m.store p t).object p = t := by simp [store]
theorem store_other (t : Timer Callback) (other : q ≠ p) : (m.store p t).object q = m.object q := by
  simp [store,other]

-- A key that changes outside the set leaves the order of the set alone.
theorem store_sorted {l : List Ptr} (t : Timer Callback) (sorted : Sorted m.less l) (absent : p ∉ l) :
    Sorted (m.store p t).less l := by
  apply sorted.congr
  intro x hx y hy
  have xOther : x ≠ p := fun equal => absent (equal ▸ hx)
  have yOther : y ≠ p := fun equal => absent (equal ▸ hy)
  simp only [less,key,store_other t xOther,store_other t yOther]

theorem store_less (t : Timer Callback) (same : t.next = (m.object p).next) : (m.store p t).less = m.less := by
  have next : ∀ q, ((m.store p t).object q).next = (m.object q).next := by
    intro q
    by_cases equal : q = p
    · subst q; simp [same]
    · rw [store_other t equal]
  funext x y
  simp only [less,key,next]

def without (m : TimerManager Ptr Callback) (p : Ptr) : TimerManager Ptr Callback :=
  {m with timers := m.timers.eraseIdx (m.find p)}

def place (m : TimerManager Ptr Callback) (p : Ptr) (t : Timer Callback) : TimerManager Ptr Callback :=
  ((m.store p t).insert p).2

@[simp] theorem without_object : (m.without p).object = m.object := rfl
@[simp] theorem place_object (t : Timer Callback) : (m.place p t).object = (m.store p t).object := rfl

theorem erase_found (sorted : Sorted m.less m.timers) (member : p ∈ m.timers) :
    m.erase (m.find p) = .ok (m.without p) := by
  have bound : m.find p < m.timers.length := find_lt m.less_strict sorted member
  simp [erase,bound,without]

theorem without_mem (sorted : Sorted m.less m.timers) (member : p ∈ m.timers) :
    q ∈ (m.without p).timers ↔ q ∈ m.timers ∧ q ≠ p :=
  erase_mem m.less_strict sorted member

theorem without_sorted (sorted : Sorted m.less m.timers) : Sorted (m.without p).less (m.without p).timers :=
  erase_sorted sorted _

theorem place_mem (t : Timer Callback) : q ∈ (m.place p t).timers ↔ q = p ∨ q ∈ m.timers :=
  insert_mem (m.store p t).less_strict

theorem place_sorted (t : Timer Callback) (sorted : Sorted m.less m.timers) (absent : p ∉ m.timers) :
    Sorted (m.place p t).less (m.place p t).timers :=
  insert_sorted (m.store p t).less_strict (store_sorted t sorted absent)

-- A timer that left the set has no callback left: it was cancelled, or it was
-- a one-shot timer that expired.
structure Valid (m : TimerManager Ptr Callback) : Prop where
  sorted : Sorted m.less m.timers
  made : ∀ p ∈ m.timers, m.made p = true
  armed : ∀ p, m.made p = true → (m.object p).cb.isSome = true → p ∈ m.timers

theorem initial_valid (memory : Ptr → Timer Callback) (now : UInt64) : Valid (initial memory now) where
  sorted := List.Pairwise.nil
  made p member := by simp [initial] at member
  armed p made := by simp [initial] at made

theorem place_valid (t : Timer Callback) (sorted : Sorted m.less m.timers) (absent : p ∉ m.timers)
    (madeSelf : m.made p = true) (made : ∀ q ∈ m.timers, m.made q = true)
    (armed : ∀ q, q ≠ p → m.made q = true → (m.object q).cb.isSome = true → q ∈ m.timers) :
    Valid (m.place p t) where
  sorted := place_sorted t sorted absent
  made q member := by
    rcases (place_mem t).mp member with equal | old
    · subst q; exact madeSelf
    · exact made q old
  armed q madeQ present := by
    by_cases equal : q = p
    · exact (place_mem t).mpr (.inl equal)
    · rw [place_object,store_other t equal] at present
      exact (place_mem t).mpr (.inr (armed q equal madeQ present))

-- The set, the objects and the pointers handed out are all that `Valid` reads.
theorem Valid.frame {n : TimerManager Ptr Callback} (valid : Valid m) (object : n.object = m.object)
    (made : n.made = m.made) (timers : n.timers = m.timers) : Valid n where
  sorted := by
    have less : n.less = m.less := by funext x y; simp only [less,key,object]
    rw [less,timers]; exact valid.sorted
  made := by rw [made,timers]; exact valid.made
  armed := by rw [made,object,timers]; exact valid.armed

theorem addTimerLocked_frame (m : TimerManager Ptr Callback) (p : Ptr) :
    (m.addTimerLocked p).2.object = (m.insert p).2.object ∧ (m.addTimerLocked p).2.made = (m.insert p).2.made ∧
      (m.addTimerLocked p).2.timers = (m.insert p).2.timers := by
  unfold addTimerLocked
  dsimp only
  split <;> exact ⟨rfl,rfl,rfl⟩

theorem addTimer_valid (valid : Valid m) (fresh : m.made p = false) (ms : UInt64)
    (cb : Option Callback) (recurring : Bool) (now : UInt64) : Valid (m.addTimer p ms cb recurring now).2 := by
  have absent : p ∉ m.timers := fun member => by
    rw [valid.made p member] at fresh; cases fresh
  let n : TimerManager Ptr Callback := {m with made := Function.update m.made p true}
  have old : ∀ q, q ≠ p → n.made q = m.made q := fun q other => by simp [n,other]
  have placed : Valid (n.place p ⟨recurring,ms,now+ms,cb⟩) := by
    refine place_valid _ valid.sorted absent (by simp [n]) ?_ ?_
    · intro q member
      rw [old q fun equal => absent (equal ▸ member)]
      exact valid.made q member
    · intro q other made present
      exact valid.armed q ((old q other).symm.trans made) present
  obtain ⟨object,made,timers⟩ := addTimerLocked_frame
    {m.store p ⟨recurring,ms,now+ms,cb⟩ with made := Function.update m.made p true} p
  exact placed.frame object made timers

theorem clear_less : (m.store p {m.object p with cb := none}).less = m.less := store_less _ rfl

theorem clear_mem (sorted : Sorted m.less m.timers) (member : p ∈ m.timers) :
    q ∈ ((m.store p {m.object p with cb := none}).without p).timers ↔ q ∈ m.timers ∧ q ≠ p :=
  without_mem (by rw [clear_less]; exact sorted) member

theorem cancel_disarmed (absent : (m.object p).cb.isSome = false) :
    Timer.cancel m p = .ok ⟨false,false,m⟩ := by
  simp [Timer.cancel,absent]

-- `m_cb` is cleared before the search; the comparator does not read it.
theorem cancel_armed (valid : Valid m) (made : m.made p = true) (present : (m.object p).cb.isSome = true) :
    Timer.cancel m p = .ok ⟨true,false,(m.store p {m.object p with cb := none}).without p⟩ := by
  have found := erase_found (m := m.store p {m.object p with cb := none}) (p := p)
    (by rw [clear_less]; exact valid.sorted) (valid.armed p made present)
  simp [Timer.cancel,present,found,Except.map]

theorem refresh_disarmed (absent : (m.object p).cb.isSome = false) (now : UInt64) :
    Timer.refresh m p now = .ok ⟨false,false,m⟩ := by
  simp only [Option.isSome_eq_false_iff] at absent
  simp [Timer.refresh,absent]

theorem refresh_armed (valid : Valid m) (made : m.made p = true) (present : (m.object p).cb.isSome = true)
    (now : UInt64) : Timer.refresh m p now =
      .ok ⟨true,false,(m.without p).place p {m.object p with next := now+(m.object p).ms}⟩ := by
  have member := valid.armed p made present
  have bound : m.find p < m.timers.length := find_lt m.less_strict valid.sorted member
  have filled : (m.object p).cb.isNone = false := by simpa using present
  simp [Timer.refresh,filled,Nat.ne_of_lt bound,erase_found valid.sorted member,Except.map,place]

-- The timer that `reset` writes back.
def restarted (timer : Timer Callback) (ms : UInt64) (fromNow : Bool) (now : UInt64) : Timer Callback :=
  {timer with ms := ms,next := (if fromNow then now else timer.next-timer.ms)+ms}

theorem reset_disarmed (absent : (m.object p).cb.isSome = false) (ms : UInt64) (fromNow : Bool) (now : UInt64) :
    Timer.reset m p ms fromNow now = .ok ⟨false,false,m⟩ := by
  simp only [Option.isSome_eq_false_iff] at absent
  simp [Timer.reset,absent]

theorem reset_armed (valid : Valid m) (made : m.made p = true) (present : (m.object p).cb.isSome = true)
    (ms : UInt64) (fromNow : Bool) (now : UInt64) :
    ∃ atFront n, Timer.reset m p ms fromNow now = .ok ⟨true,atFront,n⟩ ∧
      n.object = ((m.without p).place p (restarted (m.object p) ms fromNow now)).object ∧
      n.made = m.made ∧
      n.timers = ((m.without p).place p (restarted (m.object p) ms fromNow now)).timers := by
  have member := valid.armed p made present
  have bound : m.find p < m.timers.length := find_lt m.less_strict valid.sorted member
  have filled : (m.object p).cb.isNone = false := by simpa using present
  let stored := (m.without p).store p (restarted (m.object p) ms fromNow now)
  obtain ⟨object,kept,timers⟩ := addTimerLocked_frame stored p
  refine ⟨(stored.addTimerLocked p).1,(stored.addTimerLocked p).2,?_,object,kept,timers⟩
  simp [Timer.reset,filled,Nat.ne_of_lt bound,erase_found valid.sorted member,Except.map,restarted,stored]

theorem without_place_valid (valid : Valid m) (member : p ∈ m.timers) (t : Timer Callback) :
    Valid ((m.without p).place p t) := by
  refine place_valid t (without_sorted valid.sorted) ?_ (valid.made p member) ?_ ?_
  · exact fun present => ((without_mem valid.sorted member).mp present).2 rfl
  · exact fun q present => valid.made q ((without_mem valid.sorted member).mp present).1
  · exact fun q other made present =>
      (without_mem valid.sorted member).mpr ⟨valid.armed q made present,other⟩

theorem cancel_valid (valid : Valid m) (member : p ∈ m.timers) :
    Valid ((m.store p {m.object p with cb := none}).without p) := by
  refine ⟨without_sorted ?_,?_,?_⟩
  · rw [clear_less]; exact valid.sorted
  · intro q present
    exact valid.made q ((clear_mem valid.sorted member).mp present).1
  · intro q made present
    by_cases equal : q = p
    · subst q; simp at present
    · rw [without_object,store_other _ equal] at present
      exact (clear_mem valid.sorted member).mpr ⟨valid.armed q made present,equal⟩

-- While `listExpiredCb` works through `l`, the timers of `l` are in no set.
structure Draining (m : TimerManager Ptr Callback) (l : List Ptr) : Prop where
  sorted : Sorted m.less m.timers
  made : ∀ p ∈ m.timers, m.made p = true
  pending : ∀ p ∈ l, m.made p = true
  nodup : l.Nodup
  apart : ∀ p ∈ l, p ∉ m.timers
  armed : ∀ p, m.made p = true → (m.object p).cb.isSome = true → p ∈ m.timers ∨ p ∈ l

-- What the loop does to one expired timer.
def settle (m : TimerManager Ptr Callback) (now : UInt64) (p : Ptr) : TimerManager Ptr Callback :=
  if (m.object p).recurring then m.place p {m.object p with next := now+(m.object p).ms}
  else m.store p {m.object p with cb := none}

theorem collect_cons (now : UInt64) (p : Ptr) (rest : List Ptr) (m : TimerManager Ptr Callback) :
    collect now (p :: rest) m =
      ((m.object p).cb :: (collect now rest (m.settle now p)).1,(collect now rest (m.settle now p)).2) := rfl

theorem settle_made (now : UInt64) : (m.settle now p).made = m.made := by
  unfold settle; split <;> rfl

theorem settle_other (now : UInt64) (other : q ≠ p) : (m.settle now p).object q = m.object q := by
  unfold settle
  split
  · rw [place_object,store_other _ other]
  · rw [store_other _ other]

theorem settle_mem (now : UInt64) :
    q ∈ (m.settle now p).timers ↔ q ∈ m.timers ∨ (q = p ∧ (m.object p).recurring = true) := by
  unfold settle
  split
  · rename_i recurring
    rw [place_mem]; simp [recurring,or_comm]
  · rename_i once
    simp [once]

def settled (timer : Timer Callback) (now : UInt64) : Timer Callback :=
  if timer.recurring then {timer with next := now+timer.ms} else {timer with cb := none}

theorem settle_self (now : UInt64) : (m.settle now p).object p = settled (m.object p) now := by
  unfold settle settled
  split
  · rw [place_object,store_self]
  · rw [store_self]

theorem collect_made (now : UInt64) (l : List Ptr) : (collect now l m).2.made = m.made := by
  induction l generalizing m with
  | nil => rfl
  | cons p rest ih => rw [collect_cons,ih,settle_made]

theorem collect_other (now : UInt64) (l : List Ptr) (outside : q ∉ l) :
    (collect now l m).2.object q = m.object q := by
  induction l generalizing m with
  | nil => rfl
  | cons p rest ih =>
      rw [List.mem_cons,not_or] at outside
      rw [collect_cons,ih outside.2,settle_other now outside.1]

theorem collect_object (now : UInt64) (nodup : l.Nodup) (member : q ∈ l) :
    (collect now l m).2.object q = settled (m.object q) now := by
  induction l generalizing m with
  | nil => cases member
  | cons p rest ih =>
      obtain ⟨fresh,tail⟩ := List.nodup_cons.mp nodup
      rw [collect_cons]
      by_cases equal : q = p
      · subst q
        rw [collect_other now rest fresh,settle_self]
      · have later : q ∈ rest := (List.mem_cons.mp member).resolve_left equal
        rw [ih tail later,settle_other now equal]

theorem collect_mem (now : UInt64) (nodup : l.Nodup) :
    q ∈ (collect now l m).2.timers ↔ q ∈ m.timers ∨ (q ∈ l ∧ (m.object q).recurring = true) := by
  induction l generalizing m with
  | nil => simp [collect]
  | cons p rest ih =>
      obtain ⟨fresh,tail⟩ := List.nodup_cons.mp nodup
      rw [collect_cons,ih tail,settle_mem,List.mem_cons]
      by_cases equal : q = p
      · subst q; simp [fresh]
      · simp [equal,settle_other now equal]

theorem collect_cbs (now : UInt64) (nodup : l.Nodup) :
    (collect now l m).1 = l.map fun p => (m.object p).cb := by
  induction l generalizing m with
  | nil => rfl
  | cons p rest ih =>
      obtain ⟨fresh,tail⟩ := List.nodup_cons.mp nodup
      change _ :: (collect now rest (m.settle now p)).1 = _
      rw [ih tail,List.map_cons]
      refine congrArg _ (List.map_congr_left ?_)
      intro q member
      rw [settle_other now fun equal : q = p => fresh (equal ▸ member)]

theorem settle_sorted (sorted : Sorted m.less m.timers) (absent : p ∉ m.timers) (now : UInt64) :
    Sorted (m.settle now p).less (m.settle now p).timers := by
  unfold settle
  split
  · exact place_sorted _ sorted absent
  · exact store_sorted _ sorted absent

theorem settle_draining (draining : Draining m (p :: rest)) (now : UInt64) :
    Draining (m.settle now p) rest := by
  obtain ⟨fresh,nodup⟩ := List.nodup_cons.mp draining.nodup
  have absent := draining.apart p (by simp)
  refine ⟨settle_sorted draining.sorted absent now,?_,?_,nodup,?_,?_⟩
  · intro q member
    rw [settle_made]
    rcases (settle_mem now).mp member with old | ⟨rfl,_⟩
    · exact draining.made q old
    · exact draining.pending q (by simp)
  · intro q member
    rw [settle_made]
    exact draining.pending q (List.mem_cons_of_mem _ member)
  · intro q member present
    rcases (settle_mem now).mp present with old | ⟨rfl,_⟩
    · exact draining.apart q (List.mem_cons_of_mem _ member) old
    · exact fresh member
  · intro q made present
    rw [settle_made] at made
    by_cases equal : q = p
    · subst q
      unfold settle at present
      split at present
      · rename_i recurring
        exact .inl ((settle_mem now).mpr (.inr ⟨rfl,recurring⟩))
      · simp at present
    · rw [settle_other now equal] at present
      rcases draining.armed q made present with old | waiting
      · exact .inl ((settle_mem now).mpr (.inl old))
      · rcases List.mem_cons.mp waiting with same | later
        · exact absurd same equal
        · exact .inr later

theorem collect_valid (now : UInt64) (draining : Draining m l) : Valid (collect now l m).2 := by
  induction l generalizing m with
  | nil =>
      refine ⟨draining.sorted,draining.made,?_⟩
      intro p made present
      rcases draining.armed p made present with old | waiting
      · exact old
      · cases waiting
  | cons p rest ih =>
      rw [collect_cons]
      exact ih (settle_draining draining now)

theorem expiredEnd_rollover (now : UInt64) (nowTimer : Ptr) :
    m.timers.take (m.expiredEnd now nowTimer true) = m.timers :=
  List.take_of_length_le (Nat.le_add_right _ _)

-- Up to the lower bound the keys are before the probe; the loop passes those
-- with the same time.
theorem expiredEnd_due (now : UInt64) (nowTimer : Ptr)
    (member : p ∈ m.timers.take (m.expiredEnd now nowTimer false)) : (m.object p).next ≤ now := by
  unfold expiredEnd at member
  rw [List.take_add,List.mem_append] at member
  rcases member with before | equal
  · have less := take_lowerBound before
    exact comparator_next less
  · rw [←List.prefix_iff_eq_take.mp (List.takeWhile_prefix _)] at equal
    have same := List.all_eq_true.mp List.all_takeWhile p equal
    exact UInt64.le_of_eq (by simpa using same)

theorem listExpiredCb_cons (timers : m.timers = first :: rest) (now : UInt64) (nowTimer : Ptr) :
    m.listExpiredCb now nowTimer =
      let rollover := (m.detectClockRollover now).1
      if !rollover && decide ((m.object first).next > now) then ⟨[],[],{m with previousTime := now}⟩
      else
        let it := m.expiredEnd now nowTimer rollover
        let drained := collect now (m.timers.take it) {m with previousTime := now,timers := m.timers.drop it}
        ⟨m.timers.take it,drained.1,drained.2⟩ := by
  unfold listExpiredCb
  split
  · rename_i none
    rw [timers] at none; cases none
  · rename_i head tail some
    cases timers.symm.trans some
    rfl

-- `listExpiredCb` either returns early, or takes a prefix of the set: all of
-- it after a rollover, and otherwise only timers that are due.
theorem listExpiredCb_parts (m : TimerManager Ptr Callback) (now : UInt64) (nowTimer : Ptr) :
    ((m.listExpiredCb now nowTimer).expired = [] ∧ (m.listExpiredCb now nowTimer).cbs = [] ∧
      (m.listExpiredCb now nowTimer).manager.object = m.object ∧
      (m.listExpiredCb now nowTimer).manager.made = m.made ∧
      (m.listExpiredCb now nowTimer).manager.timers = m.timers ∧
      (m.timers = [] ∨ (m.detectClockRollover now).1 = false)) ∨
    ∃ it, (m.listExpiredCb now nowTimer).expired = m.timers.take it ∧
      (m.listExpiredCb now nowTimer).cbs =
        (collect now (m.timers.take it) {m with previousTime := now,timers := m.timers.drop it}).1 ∧
      (m.listExpiredCb now nowTimer).manager =
        (collect now (m.timers.take it) {m with previousTime := now,timers := m.timers.drop it}).2 ∧
      if (m.detectClockRollover now).1 then m.timers.take it = m.timers
      else ∀ p ∈ m.timers.take it, (m.object p).next ≤ now := by
  by_cases empty : m.timers = []
  · have returns : m.listExpiredCb now nowTimer = ⟨[],[],m⟩ := by simp [listExpiredCb,empty]
    rw [returns]
    exact .inl ⟨rfl,rfl,rfl,rfl,rfl,.inl empty⟩
  · obtain ⟨first,rest,timers⟩ := List.exists_cons_of_ne_nil empty
    by_cases early : (!(m.detectClockRollover now).1 && decide ((m.object first).next > now)) = true
    · have returns := (listExpiredCb_cons timers now nowTimer).trans (if_pos early)
      rw [returns]
      refine .inl ⟨rfl,rfl,rfl,rfl,rfl,.inr ?_⟩
      simp only [Bool.and_eq_true,Bool.not_eq_true'] at early
      exact early.1
    · have collects := (listExpiredCb_cons timers now nowTimer).trans (if_neg early)
      rw [collects]
      refine .inr ⟨m.expiredEnd now nowTimer (m.detectClockRollover now).1,rfl,rfl,rfl,?_⟩
      split
      · rename_i rollover
        rw [rollover]
        exact expiredEnd_rollover now nowTimer
      · rename_i steady
        rw [Bool.eq_false_iff.mpr steady]
        exact fun p member => expiredEnd_due now nowTimer member

theorem listExpiredCb_draining (valid : Valid m) (now : UInt64) (it : Nat) :
    Draining {m with previousTime := now,timers := m.timers.drop it} (m.timers.take it) := by
  have nodup := valid.sorted.nodup m.less_strict
  have split : m.timers.take it ++ m.timers.drop it = m.timers := List.take_append_drop it m.timers
  refine ⟨?_,?_,?_,?_,?_,?_⟩
  · exact List.Pairwise.sublist (List.drop_sublist it m.timers) valid.sorted
  · exact fun p member => valid.made p (List.mem_of_mem_drop member)
  · exact fun p member => valid.made p (List.mem_of_mem_take member)
  · exact nodup.sublist (List.take_sublist it m.timers)
  · intro p taken kept
    rw [←split] at nodup
    exact (List.nodup_append.mp nodup).2.2 p taken p kept rfl
  · intro p made present
    have member := valid.armed p made present
    rw [←split,List.mem_append] at member
    exact member.symm

theorem listExpiredCb_valid (valid : Valid m) (now : UInt64) (nowTimer : Ptr) :
    Valid (m.listExpiredCb now nowTimer).manager := by
  rcases listExpiredCb_parts m now nowTimer with ⟨_,_,object,made,timers,_⟩ | ⟨it,_,_,after,_⟩
  · exact valid.frame object made timers
  · rw [after]
    exact collect_valid now (listExpiredCb_draining valid now it)

-- Everything a caller sees of `listExpiredCb`: which timers it took, what it
-- made of them, and that it left the others alone.
structure Expires (m : TimerManager Ptr Callback) (now : UInt64) (e : Expiry Ptr Callback) : Prop where
  taken : ∀ p ∈ e.expired, p ∈ m.timers
  once : e.expired.Nodup
  cbs : e.cbs = e.expired.map fun p => (m.object p).cb
  made : e.manager.made = m.made
  inside : ∀ p ∈ e.expired, e.manager.object p = settled (m.object p) now
  outside : ∀ p, p ∉ e.expired → e.manager.object p = m.object p
  timers : ∀ p, p ∈ e.manager.timers ↔
    (p ∈ m.timers ∧ p ∉ e.expired) ∨ (p ∈ e.expired ∧ (m.object p).recurring = true)

theorem sorted_expires (sorted : Sorted m.less m.timers) (now : UInt64) (nowTimer : Ptr) :
    Expires m now (m.listExpiredCb now nowTimer) := by
  have nodup := sorted.nodup m.less_strict
  rcases listExpiredCb_parts m now nowTimer with ⟨taken,cbs,object,made,timers,_⟩ | ⟨it,taken,cbs,after,_⟩
  · refine ⟨?_,?_,?_,made,?_,?_,?_⟩
    · simp [taken]
    · simp [taken]
    · simp [taken,cbs]
    · simp [taken]
    · exact fun p _ => congrFun object p
    · simp [taken,timers]
  · have front : (m.timers.take it).Nodup := nodup.sublist (List.take_sublist it m.timers)
    refine ⟨?_,?_,?_,?_,?_,?_,?_⟩
    · rw [taken]; exact fun p member => List.mem_of_mem_take member
    · rw [taken]; exact front
    · rw [taken,cbs]; exact collect_cbs now front
    · rw [after]; exact collect_made now _
    · rw [taken,after]; exact fun p member => collect_object now front member
    · rw [taken,after]; exact fun p outside => collect_other now _ outside
    · intro p
      rw [taken,after,collect_mem now front]
      have split : m.timers.take it ++ m.timers.drop it = m.timers := List.take_append_drop it m.timers
      have whole : p ∈ m.timers ↔ p ∈ m.timers.take it ∨ p ∈ m.timers.drop it := by
        rw [←List.mem_append,split]
      rw [←split] at nodup
      have apart : p ∈ m.timers.drop it → p ∉ m.timers.take it := fun kept gone =>
        (List.nodup_append.mp nodup).2.2 p gone p kept rfl
      rw [whole]
      exact or_congr_left ⟨fun kept => ⟨.inr kept,apart kept⟩,fun both => both.1.resolve_left both.2⟩

theorem listExpiredCb_expires (valid : Valid m) (now : UInt64) (nowTimer : Ptr) :
    Expires m now (m.listExpiredCb now nowTimer) := sorted_expires valid.sorted now nowTimer

-- What one section does to a valid manager, case by case.
inductive Moves (m : TimerManager Ptr Callback) : TimerOp Ptr Callback → TimerManager Ptr Callback → Prop where
  | addTimer (fresh : m.made self = false) :
      Moves m (.addTimer self ms cb recurring now) (m.addTimer self ms cb recurring now).2
  | cancelled (absent : (m.object self).cb.isSome = false) : Moves m (.cancel self) m
  | unrefreshed (absent : (m.object self).cb.isSome = false) : Moves m (.refresh self now) m
  | unreset (absent : (m.object self).cb.isSome = false) : Moves m (.reset self ms fromNow now) m
  | cancel (made : m.made self = true) (present : (m.object self).cb.isSome = true) :
      Moves m (.cancel self) ((m.store self {m.object self with cb := none}).without self)
  | refresh (made : m.made self = true) (present : (m.object self).cb.isSome = true) :
      Moves m (.refresh self now)
        ((m.without self).place self {m.object self with next := now+(m.object self).ms})
  | reset (made : m.made self = true) (present : (m.object self).cb.isSome = true)
      (object : n.object = ((m.without self).place self (restarted (m.object self) ms fromNow now)).object)
      (kept : n.made = m.made)
      (timers : n.timers = ((m.without self).place self (restarted (m.object self) ms fromNow now)).timers) :
      Moves m (.reset self ms fromNow now) n
  | resetUnchanged : Moves m (.resetUnchanged self ms fromNow) m
  | listExpiredCb : Moves m (.listExpiredCb now nowTimer) (m.listExpiredCb now nowTimer).manager
  | getNextTimer : Moves m (.getNextTimer now) (m.getNextTimer now).2

theorem perform_moves (valid : Valid m) {op : TimerOp Ptr Callback} (enabled : m.enabled op = true) :
    ∃ n, m.perform op = .ok n ∧ Moves m op n := by
  cases op with
  | addTimer self ms cb recurring now => exact ⟨_,rfl,.addTimer (by simpa [TimerManager.enabled] using enabled)⟩
  | cancel self =>
      cases present : (m.object self).cb.isSome with
      | false => exact ⟨m,by simp [perform,cancel_disarmed present,Except.map],.cancelled present⟩
      | true => exact ⟨_,by rw [perform,cancel_armed valid enabled present]; rfl,.cancel enabled present⟩
  | refresh self now =>
      cases present : (m.object self).cb.isSome with
      | false => exact ⟨m,by simp [perform,refresh_disarmed present,Except.map],.unrefreshed present⟩
      | true => exact ⟨_,by rw [perform,refresh_armed valid enabled present]; rfl,.refresh enabled present⟩
  | resetUnchanged self ms fromNow => exact ⟨m,rfl,.resetUnchanged⟩
  | reset self ms fromNow now =>
      cases present : (m.object self).cb.isSome with
      | false => exact ⟨m,by simp [perform,reset_disarmed present,Except.map],.unreset present⟩
      | true =>
          obtain ⟨atFront,n,done,object,kept,timers⟩ := reset_armed valid enabled present ms fromNow now
          exact ⟨n,by rw [perform,done]; rfl,.reset enabled present object kept timers⟩
  | listExpiredCb now nowTimer => exact ⟨_,rfl,.listExpiredCb⟩
  | getNextTimer now => exact ⟨_,rfl,.getNextTimer⟩

theorem next_moves (valid : Valid m) {op : TimerOp Ptr Callback} (moved : next m op = some n) : Moves m op n := by
  unfold next at moved
  split at moved
  · rename_i enabled
    obtain ⟨after,performed,moves⟩ := perform_moves valid enabled
    rw [performed] at moved
    cases moved
    exact moves
  · cases moved

theorem moves_valid {op : TimerOp Ptr Callback} (valid : Valid m) (moves : Moves m op n) : Valid n := by
  cases moves with
  | addTimer fresh => exact addTimer_valid valid fresh _ _ _ _
  | cancelled absent => exact valid
  | unrefreshed absent => exact valid
  | unreset absent => exact valid
  | cancel made present => exact cancel_valid valid (valid.armed _ made present)
  | refresh made present => exact without_place_valid valid (valid.armed _ made present) _
  | reset made present object kept timers =>
      exact (without_place_valid valid (valid.armed _ made present) _).frame object kept timers
  | resetUnchanged => exact valid
  | listExpiredCb => exact listExpiredCb_valid valid _ _
  | getNextTimer => rw [getNextTimer_frame]; exact valid.frame rfl rfl rfl

theorem reached_valid {allowed : TimerManager Ptr Callback → TimerOp Ptr Callback → Prop}
    (path : Reached next allowed Start m) : Valid m :=
  path.invariant (fun _ ⟨memory,now,equal⟩ => equal ▸ initial_valid memory now)
    fun _ _ _ valid _ moved => moves_valid valid (next_moves valid moved)

theorem without_place_mem (sorted : Sorted m.less m.timers) (member : p ∈ m.timers) (t : Timer Callback)
    (other : q ≠ p) : q ∈ ((m.without p).place p t).timers ↔ q ∈ m.timers := by
  rw [place_mem,without_mem sorted member]
  simp [other]

theorem addTimer_frame (ms : UInt64) (cb : Option Callback) (recurring : Bool) (now : UInt64) :
    (m.addTimer p ms cb recurring now).2.object = Function.update m.object p ⟨recurring,ms,now+ms,cb⟩ ∧
    (m.addTimer p ms cb recurring now).2.made = Function.update m.made p true ∧
    ∀ q, q ∈ (m.addTimer p ms cb recurring now).2.timers ↔ q = p ∨ q ∈ m.timers := by
  obtain ⟨object,made,timers⟩ := addTimerLocked_frame
    {m.store p ⟨recurring,ms,now+ms,cb⟩ with made := Function.update m.made p true} p
  refine ⟨object,made,?_⟩
  intro q
  rw [addTimer,timers]
  exact insert_mem (less_strict _)

-- A section leaves every timer alone that it neither names nor collects.
theorem moves_frame {op : TimerOp Ptr Callback} (valid : Valid m) (moves : Moves m op n)
    (unnamed : op.self ≠ some q) (uncollected : q ∉ m.expiredBy op) :
    n.object q = m.object q ∧ n.made q = m.made q ∧ (q ∈ n.timers ↔ q ∈ m.timers) := by
  cases moves with
  | @addTimer self ms cb recurring now fresh =>
      have other : q ≠ self := fun equal => unnamed (congrArg some equal.symm)
      obtain ⟨object,made,timers⟩ := addTimer_frame (m := m) (p := self) ms cb recurring now
      rw [object,made,timers]
      simp [other]
  | cancelled absent => exact ⟨rfl,rfl,Iff.rfl⟩
  | unrefreshed absent => exact ⟨rfl,rfl,Iff.rfl⟩
  | unreset absent => exact ⟨rfl,rfl,Iff.rfl⟩
  | @cancel self made present =>
      have other : q ≠ self := fun equal => unnamed (congrArg some equal.symm)
      refine ⟨store_other _ other,rfl,?_⟩
      rw [clear_mem valid.sorted (valid.armed _ made present)]
      simp [other]
  | @refresh self now made present =>
      have other : q ≠ self := fun equal => unnamed (congrArg some equal.symm)
      exact ⟨store_other _ other,rfl,without_place_mem valid.sorted (valid.armed _ made present) _ other⟩
  | @reset self n ms fromNow now made present object kept timers =>
      have other : q ≠ self := fun equal => unnamed (congrArg some equal.symm)
      rw [object,kept,timers]
      exact ⟨store_other _ other,rfl,without_place_mem valid.sorted (valid.armed _ made present) _ other⟩
  | resetUnchanged => exact ⟨rfl,rfl,Iff.rfl⟩
  | @listExpiredCb now nowTimer =>
      have expires := listExpiredCb_expires valid now nowTimer
      refine ⟨expires.outside q uncollected,congrFun expires.made q,?_⟩
      rw [expires.timers]
      simp only [expiredBy] at uncollected
      simp [uncollected]
  | getNextTimer => rw [getNextTimer_frame]; exact ⟨rfl,rfl,Iff.rfl⟩

theorem settled_recurring {timer : Timer Callback} (recurring : timer.recurring = true) (now : UInt64) :
    settled timer now = {timer with next := now+timer.ms} := if_pos recurring

theorem settled_once {timer : Timer Callback} (once : timer.recurring = false) (now : UInt64) :
    settled timer now = {timer with cb := none} := if_neg (by simp [once])

-- With callable callbacks the converse of `Valid.armed` holds as well.
def Filled (m : TimerManager Ptr Callback) : Prop := ∀ p ∈ m.timers, (m.object p).cb.isSome = true

theorem moves_filled {op : TimerOp Ptr Callback} (valid : Valid m) (filled : Filled m)
    (callable : op.callable = true) (moves : Moves m op n) : Filled n := by
  intro q member
  by_cases named : op.self = some q
  · cases moves with
    | @addTimer self ms cb recurring now fresh =>
        cases Option.some.inj named
        rw [(addTimer_frame ms cb recurring now).1,Function.update_self]
        exact callable
    | cancelled absent => exact filled q member
    | unrefreshed absent => exact filled q member
    | unreset absent => exact filled q member
    | @cancel self made present =>
        cases Option.some.inj named
        exact absurd rfl ((clear_mem valid.sorted (valid.armed _ made present)).mp member).2
    | @refresh self now made present =>
        cases Option.some.inj named
        rw [place_object,store_self]
        exact present
    | @reset self n ms fromNow now made present object kept timers =>
        cases Option.some.inj named
        rw [object,place_object,store_self]
        exact present
    | resetUnchanged => exact filled q member
    | listExpiredCb => cases named
    | getNextTimer => cases named
  · by_cases collected : q ∈ m.expiredBy op
    · cases moves with
      | @listExpiredCb now nowTimer =>
          have expires := listExpiredCb_expires valid now nowTimer
          rcases (expires.timers q).mp member with ⟨_,kept⟩ | ⟨_,recurring⟩
          · exact absurd collected kept
          · rw [expires.inside q collected,settled_recurring recurring]
            exact filled q (expires.taken q collected)
      | _ => cases collected
    · obtain ⟨object,_,timers⟩ := moves_frame valid moves named collected
      rw [object]
      exact filled q (timers.mp member)

theorem reached_filled (path : Reached next (fun _ op => op.callable = true) Start m) : Filled m := by
  have both : Valid m ∧ Filled m := by
    apply path.invariant (P := fun m => Valid m ∧ Filled m)
    · intro m ⟨memory,now,equal⟩
      subst m
      exact ⟨initial_valid memory now,fun p member => by simp [initial] at member⟩
    · intro m op n ⟨valid,filled⟩ callable moved
      have moves := next_moves valid moved
      exact ⟨moves_valid valid moves,moves_filled valid filled callable moves⟩
  exact both.2

theorem timer_set_exact (path : Reached next (fun _ op => op.callable = true) Start m) :
    m.timers.Pairwise (fun p q => (m.object p).next < (m.object q).next ∨
      ((m.object p).next = (m.object q).next ∧ p < q)) ∧
    m.timers.Nodup ∧
    (∀ p, m.made p = true → (p ∈ m.timers ↔ (m.object p).cb.isSome = true)) ∧
    (∀ p, m.made p = true → (m.object p).cb.isSome = true → m.timers[m.find p]? = some p ∧
      (m.store p {m.object p with cb := none}).timers[(m.store p {m.object p with cb := none}).find p]? = some p) ∧
    ∀ op, m.enabled op = true → ∃ n, m.perform op = .ok n := by
  have valid := reached_valid path
  have filled := reached_filled path
  refine ⟨?_,valid.sorted.nodup m.less_strict,?_,?_,?_⟩
  · exact valid.sorted.imp fun less => (less_iff m _ _).mp less
  · exact fun p made => ⟨filled p,valid.armed p made⟩
  · intro p made present
    have member := valid.armed p made present
    refine ⟨find_getElem m.less_strict valid.sorted member,?_⟩
    exact find_getElem (less_strict _) (by rw [clear_less]; exact valid.sorted) member
  · intro op enabled
    obtain ⟨n,performed,_⟩ := perform_moves valid enabled
    exact ⟨n,performed⟩

-- Two timers that are due at the same time, the later one at the lower address.
def pairSample : TimerManager Nat Unit :=
  (((initial (fun _ => ⟨false,0,0,none⟩) 0).addTimer 7 5 (some ()) false 1).2.addTimer 3 6 (some ()) true 0).2

theorem pairSample_reached : Reached next (fun _ op => op.callable = true) Start pairSample := by
  have empty : Reached next (fun _ op => op.callable = true) Start
      (initial (fun _ : Nat => (⟨false,0,0,none⟩ : Timer Unit)) 0) := .start ⟨_,_,rfl⟩
  have one := Reached.step (a := .addTimer 7 5 (some ()) false 1) empty rfl rfl
  exact .step (a := .addTimer 3 6 (some ()) true 0) one rfl rfl

theorem timer_set_exact_pair : pairSample.timers = [3,7] ∧ pairSample.timers.Nodup :=
  ⟨by decide,(timer_set_exact pairSample_reached).2.1⟩

end Fishjoy.TimerManager
