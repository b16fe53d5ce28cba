import Fishjoy.Foundation.Conversion
import Fishjoy.Timer

namespace Fishjoy.IOManagerIdle
open Conversion TimerManager
variable {Ptr Callback : Type} [LinearOrder Ptr]

def MAX_TIMEOUT : Int32 := 5000

def clamp (nextTimeout : UInt64) : UInt64 :=
  if nextTimeout ≠ ~~~0 then widen (min (narrow nextTimeout) MAX_TIMEOUT) else widen MAX_TIMEOUT

-- The timeouts of the calls of `epoll_wait` in one round of `idle`. Of each call
-- that has returned it is known whether it was interrupted.
def waits (nextTimeout : UInt64) : List Bool → List Int32
  | [] => [narrow (clamp nextTimeout)]
  | interrupted :: answers =>
    narrow (clamp nextTimeout) :: if interrupted then waits (clamp nextTimeout) answers else []

def stopping (timeout : UInt64) (pendingEventCount : Nat) (schedulerStopping : Bool) : Bool :=
  timeout == ~~~0 && pendingEventCount == 0 && schedulerStopping

def round (m : TimerManager Ptr Callback) (now : UInt64) (pendingEventCount : Nat) (schedulerStopping : Bool)
    (answers : List Bool) : List Int32 :=
  let nextTimeout := (m.getNextTimer now).1
  if stopping nextTimeout pendingEventCount schedulerStopping then [] else waits nextTimeout answers

def Bounded (nextTimeout : UInt64) (timeout : Int32) : Prop :=
  0 ≤ timeout.toInt ∧ timeout.toInt ≤ 5000 ∧ timeout.toInt ≤ nextTimeout.toNat

-- The cast to `int` does not come out negative.
def Fits (nextTimeout : UInt64) : Prop := nextTimeout = ~~~0 ∨ nextTimeout.toNat % 2^32 < 2^31

theorem min_toInt (a b : Int32) : (min a b).toInt = min a.toInt b.toInt := by
  change (if a ≤ b then a else b).toInt = _
  rw [apply_ite Int32.toInt]
  simp only [Int32.le_iff_toInt_le,min_def]

-- The same as an `int`, before it is stored in the `uint64_t` again.
def limit (nextTimeout : UInt64) : Int32 :=
  if nextTimeout ≠ ~~~0 then min (narrow nextTimeout) MAX_TIMEOUT else MAX_TIMEOUT

theorem clamp_widens (x : UInt64) : clamp x = widen (limit x) :=
  (apply_ite widen _ _ _).symm

theorem passed_limit (x : UInt64) : narrow (clamp x) = limit x := by
  rw [clamp_widens,narrow_widen]

theorem limit_toInt {x : UInt64} (timer : x ≠ ~~~0) : (limit x).toInt = min (narrow x).toInt 5000 := by
  rw [limit,if_pos timer,min_toInt]
  rfl

theorem limit_bounded (x : UInt64) : Bounded x (limit x) ↔ Fits x := by
  by_cases timer : x = ~~~0
  · subst x
    exact iff_of_true ⟨by decide,by decide,by decide⟩ (.inl rfl)
  · have value := narrow_toInt x
    unfold Bounded
    rw [limit_toInt timer,Fits,or_iff_right timer]
    split at value <;> omega

-- A retry clamps the value once more and passes the same timeout.
theorem clamp_again {x : UInt64} (positive : 0 ≤ (limit x).toInt) (short : (limit x).toInt ≤ 5000) :
    clamp (clamp x) = clamp x := by
  have value := widen_toNat (limit x)
  rw [if_pos positive] at value
  have timer : clamp x ≠ ~~~0 := by
    intro same
    rw [←clamp_widens,same] at value
    have large : (~~~0 : UInt64).toNat = 2^64-1 := rfl
    omega
  have same : limit (clamp x) = limit x := by
    apply Int32.toInt.inj
    rw [limit_toInt timer,passed_limit]
    exact min_eq_left short
  rw [clamp_widens (clamp x),same,clamp_widens]

theorem waits_bounded {x : UInt64} (fits : Fits x) (answers : List Bool) (t : Int32)
    (member : t ∈ waits x answers) : t = limit x := by
  obtain ⟨positive,short,_⟩ := (limit_bounded x).mpr fits
  have again := clamp_again positive short
  have passed := passed_limit x
  have retry (rest : List Bool) : waits (clamp x) rest = waits x rest := by
    cases rest <;> simp only [waits,again]
  induction answers with
  | nil =>
      rw [waits,List.mem_singleton,passed] at member
      exact member
  | cons interrupted rest ih =>
      rw [waits,List.mem_cons,passed] at member
      rcases member with first | later
      · exact first
      · cases interrupted with
        | false => cases later
        | true =>
            rw [if_pos rfl,retry] at later
            exact ih later

theorem waits_exactly (x : UInt64) : (∀ answers, ∀ t ∈ waits x answers, Bounded x t) ↔ Fits x := by
  constructor
  · intro bounded
    have first := bounded [] (narrow (clamp x)) (List.mem_singleton.mpr rfl)
    rw [passed_limit] at first
    exact (limit_bounded x).mp first
  · intro fits answers t member
    rw [waits_bounded fits answers t member]
    exact (limit_bounded x).mpr fits

-- The earliest timer is due, or its delay fits.
def DelayFits (m : TimerManager Ptr Callback) (now : UInt64) : Prop :=
  ∀ p ∈ m.timers.head?, (m.object p).next ≤ now ∨ Fits ((m.object p).next-now)

omit [LinearOrder Ptr] in
theorem getNextTimer_fits (m : TimerManager Ptr Callback) (now : UInt64) :
    Fits (m.getNextTimer now).1 ↔ DelayFits m now := by
  unfold getNextTimer DelayFits
  cases m.timers with
  | nil => exact iff_of_true (.inl rfl) (by simp)
  | cons p rest =>
      by_cases due : (m.object p).next ≤ now
      · simp [due,Fits]
      · simp [due]

omit [LinearOrder Ptr] in
theorem epoll_timeouts_exactly (m : TimerManager Ptr Callback) (now : UInt64) (pendingEventCount : Nat)
    (schedulerStopping : Bool) :
    (∀ answers, ∀ t ∈ round m now pendingEventCount schedulerStopping answers, Bounded (m.getNextTimer now).1 t) ↔
      DelayFits m now := by
  rw [←getNextTimer_fits]
  unfold round
  dsimp only
  split
  · rename_i stops
    have none : (m.getNextTimer now).1 = ~~~0 := by
      simp only [stopping,Bool.and_eq_true,beq_iff_eq] at stops
      exact stops.1.1
    exact iff_of_true (by simp) (.inl none)
  · exact waits_exactly _

-- One timer, 2^31 milliseconds ahead.
theorem distant_timer_negative : ¬∀ (m : TimerManager Nat Unit) (now : UInt64) (answers : List Bool),
    ∀ t ∈ round m now 0 false answers, Bounded (m.getNextTimer now).1 t := by
  intro always
  have bounded := always ((initial (fun _ => ⟨false,0,0,none⟩) 0).addTimer 7 2147483648 (some ()) false 0).2 0 []
    (-2147483648) (by decide)
  exact absurd bounded.1 (by decide)

end Fishjoy.IOManagerIdle
