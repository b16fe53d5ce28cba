import Fishjoy.TimerOrder

namespace Fishjoy.TimerClock
open OrderedSet Transition TimerManager
variable {Ptr Callback Thread : Type} [LinearOrder Ptr] [DecidableEq Thread]

-- How far one thread is in `listExpiredCb`: it reads the clock, tests under
-- the read lock whether there is a timer, and then takes the write lock.
inductive Call where
  | idle
  | read (now : UInt64)
  | checked (now : UInt64)

structure State (Ptr Callback Thread : Type) where
  manager : TimerManager Ptr Callback
  clock : UInt64
  call : Thread → Call

inductive Action (Ptr Callback Thread : Type) where
  | tick (later : UInt64)
  | read (t : Thread)
  | check (t : Thread)
  | enter (t : Thread) (nowTimer : Ptr)
  | other (op : TimerOp Ptr Callback)

def initial (memory : Ptr → Timer Callback) (now : UInt64) : State Ptr Callback Thread :=
  ⟨TimerManager.initial memory now,now,fun _ => .idle⟩

def next (s : State Ptr Callback Thread) : Action Ptr Callback Thread → Option (State Ptr Callback Thread)
  | .tick later => if s.clock ≤ later then some {s with clock := later} else none
  | .read t =>
    match s.call t with
    | .idle => some {s with call := Function.update s.call t (.read s.clock)}
    | _ => none
  | .check t =>
    match s.call t with
    | .read now =>
      some {s with call := Function.update s.call t (if s.manager.timers.isEmpty then .idle else .checked now)}
    | _ => none
  | .enter t nowTimer =>
    match s.call t with
    | .checked now =>
      some {s with
        manager := (s.manager.listExpiredCb now nowTimer).manager
        call := Function.update s.call t .idle}
    | _ => none
  | .other (.listExpiredCb ..) => none
  | .other op => (TimerManager.next s.manager op).map fun manager => {s with manager}

-- No timer is collected by a call that read the clock before its time.
def NotEarly (s : State Ptr Callback Thread) : Action Ptr Callback Thread → Prop
  | .enter t nowTimer => ∀ now, s.call t = .checked now →
      ∀ p ∈ (s.manager.listExpiredCb now nowTimer).expired, ¬now < (s.manager.object p).next
  | _ => True

-- The reading is no older than the last one, or older by at most the hour that
-- `detectClockRollover` allows, or there is nothing to collect too early.
def Trusted (m : TimerManager Ptr Callback) (now : UInt64) : Prop :=
  m.previousTime ≤ now ∨ (3600000 ≤ m.previousTime ∧ m.previousTime-now ≤ 3600000) ∨
    ∀ p ∈ m.timers, (m.object p).next ≤ now

def Ordered (s : State Ptr Callback Thread) : Action Ptr Callback Thread → Prop
  | .enter t _ => ∀ now, s.call t = .checked now → Trusted s.manager now
  | _ => True

omit [LinearOrder Ptr] in
theorem rollover_iff (m : TimerManager Ptr Callback) (now : UInt64) :
    (m.detectClockRollover now).1 = false ↔
      m.previousTime ≤ now ∨ (3600000 ≤ m.previousTime ∧ m.previousTime-now ≤ 3600000) := by
  have hour : (60*60*1000 : UInt64) = 3600000 := rfl
  simp only [detectClockRollover,hour,Bool.and_eq_false_iff,decide_eq_false_iff_not,UInt64.not_lt,
    UInt64.le_iff_toNat_le,UInt64.toNat_sub,UInt64.toNat_ofNat]
  have bound := m.previousTime.toNat_lt
  have small := now.toNat_lt
  omega

theorem trusted_iff (m : TimerManager Ptr Callback) (now : UInt64) (nowTimer : Ptr) :
    (∀ p ∈ (m.listExpiredCb now nowTimer).expired, ¬now < (m.object p).next) ↔ Trusted m now := by
  have parts := listExpiredCb_parts m now nowTimer
  constructor
  · intro late
    cases rollover : (m.detectClockRollover now).1 with
    | false => exact ((rollover_iff m now).mp rollover).imp_right .inl
    | true =>
        refine .inr (.inr ?_)
        intro p member
        rcases parts with ⟨_,_,_,_,_,empty | steady⟩ | ⟨it,taken,_,_,all⟩
        · rw [empty] at member; cases member
        · rw [rollover] at steady; cases steady
        · rw [rollover,if_pos rfl] at all
          rw [taken,all] at late
          exact UInt64.not_lt.mp (late p member)
  · intro trusted p collected
    rw [UInt64.not_lt]
    rcases parts with ⟨taken,_⟩ | ⟨it,taken,_,_,due⟩
    · rw [taken] at collected; cases collected
    · rw [taken] at collected
      cases rollover : (m.detectClockRollover now).1 with
      | false =>
          rw [rollover] at due
          exact due p collected
      | true =>
          have back : ¬(m.detectClockRollover now).1 = false := by simp [rollover]
          rw [rollover_iff] at back
          rcases trusted with one | two | all
          · exact absurd (.inl one) back
          · exact absurd (.inr two) back
          · exact all p (List.mem_of_mem_take collected)

theorem not_early_exactly (memory : Ptr → Timer Callback) (start : UInt64)
    (actions : List (Action Ptr Callback Thread)) :
    Along next NotEarly (initial memory start) actions ↔ Along next Ordered (initial memory start) actions := by
  refine along_congr (P := fun _ => True) trivial (fun _ _ _ _ _ _ _ => trivial) ?_ along_any
  intro s a _ _
  cases a with
  | enter t nowTimer => exact forall_congr' fun now => forall_congr' fun _ => trusted_iff s.manager now nowTimer
  | _ => exact Iff.rfl

-- One second after boot a timer is set for five seconds later. The thread
-- `false` reads the clock one millisecond before `true` and takes the lock
-- after it.
def inversion : List (Action Nat Unit Bool) :=
  [.other (.addTimer 0 5000 (some ()) false 1000),.read false,.tick 1001,.read true,
    .check false,.check true,.enter true 9,.enter false 9]

theorem not_early_fails :
    (run next (initial (fun _ => ⟨false,0,0,none⟩) 1000) inversion).isSome = true ∧
    ¬Along next NotEarly (initial (fun _ => ⟨false,0,0,none⟩) 1000) inversion := by
  refine ⟨by decide,?_⟩
  intro holds
  have collects := Along.at (inversion.take 7) (.enter false 9) [] rfl holds 1000 rfl 0 (by decide)
  exact collects (by decide)

end Fishjoy.TimerClock
