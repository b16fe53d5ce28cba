import Fishjoy.Foundation.Conversion

namespace Fishjoy.HookSleep
open Conversion

inductive SleepCall where
  | sleep (seconds : UInt32)
  | usleep (usec : UInt32)
  | nanosleep (sec nsec : Int64)

-- A `long` that does not hold the result of its operation is undefined behaviour.
def long (value : Int) : Option Int64 :=
  if -2^63 ≤ value ∧ value < 2^63 then some (Int64.ofInt value) else none

-- The first argument of `addTimer`, converted to its `uint64_t`. The sum of
-- `nanosleep` is stored in the `int timeout_ms` before.
def SleepCall.interval : SleepCall → Option UInt64
  | .sleep seconds => some (seconds*1000).toUInt64
  | .usleep usec => some (usec/1000).toUInt64
  | .nanosleep sec nsec => do
    let milliseconds ← long (sec.toInt*1000)
    let timeout ← long (milliseconds.toInt+(nsec/1000/1000).toInt)
    some (widen timeout.toInt32)

-- In nanoseconds.
def SleepCall.requested : SleepCall → Int
  | .sleep seconds => seconds.toNat*10^9
  | .usleep usec => usec.toNat*10^3
  | .nanosleep sec nsec => sec.toInt*10^9+nsec.toInt

def SleepCall.accepted : SleepCall → Prop
  | .sleep _ | .usleep _ => True
  | .nanosleep sec nsec => 0 ≤ sec.toInt ∧ 0 ≤ nsec.toInt ∧ nsec.toInt ≤ 999999999

def Covers (requested : Int) (interval : UInt64) : Prop :=
  requested ≤ interval.toNat*10^6 ∧ interval.toNat*10^6 < requested+10^6

-- The duration is a whole number of milliseconds that the arithmetic holds.
def SleepCall.Whole : SleepCall → Prop
  | .sleep seconds => seconds.toNat*1000 < 2^32
  | .usleep usec => usec.toNat % 1000 = 0
  | .nanosleep sec nsec => nsec.toInt % 10^6 = 0 ∧ sec.toInt*1000+nsec.toInt/10^6 < 2^31

theorem sleep_covers (seconds : UInt32) :
    Covers (SleepCall.sleep seconds).requested (seconds*1000).toUInt64 ↔ (SleepCall.sleep seconds).Whole := by
  have value : ((seconds*1000).toUInt64).toNat = seconds.toNat*1000 % 2^32 := by simp
  simp only [Covers,SleepCall.requested,SleepCall.Whole,value]
  omega

theorem usleep_covers (usec : UInt32) :
    Covers (SleepCall.usleep usec).requested (usec/1000).toUInt64 ↔ (SleepCall.usleep usec).Whole := by
  have value : ((usec/1000).toUInt64).toNat = usec.toNat/1000 := by simp
  simp only [Covers,SleepCall.requested,SleepCall.Whole,value]
  omega

theorem long_toInt {value : Int} {l : Int64} (held : long value = some l) : l.toInt = value := by
  unfold long at held
  split at held
  · rename_i range
    cases held
    exact Int64.toInt_ofInt_of_le range.1 range.2
  · cases held

theorem long_isSome {value : Int} (low : -2^63 ≤ value) (high : value < 2^63) : ∃ l, long value = some l :=
  ⟨_,if_pos ⟨low,high⟩⟩

theorem milliseconds_toInt {nsec : Int64} (positive : 0 ≤ nsec.toInt) :
    (nsec/1000/1000).toInt = nsec.toInt/10^6 := by
  have step (x : Int64) : (x/1000).toInt = x.toInt.tdiv 1000 := Int64.toInt_div_of_ne_right x 1000 (by decide)
  rw [step,step,Int.tdiv_eq_ediv_of_nonneg positive,Int.tdiv_eq_ediv_of_nonneg (by omega)]
  omega

-- What `addTimer` gets for a sum of so many milliseconds; from 2^31 on the
-- `int` holds too few of them or is below zero.
theorem timeout_covers {timeout : Int64} {rest : Int} (positive : 0 ≤ timeout.toInt) (least : 0 ≤ rest)
    (part : rest < 10^6) :
    Covers (timeout.toInt*10^6+rest) (widen timeout.toInt32) ↔ rest = 0 ∧ timeout.toInt < 2^31 := by
  have narrowed := Int64.toInt_toInt32 timeout
  have value := widen_toNat timeout.toInt32
  have bound := timeout.toInt_lt
  rw [Int.bmod_def] at narrowed
  unfold Covers
  rw [value]
  split at narrowed <;> split <;> omega

theorem nanosleep_covers (sec nsec : Int64) (accepted : (SleepCall.nanosleep sec nsec).accepted) :
    (∃ interval, (SleepCall.nanosleep sec nsec).interval = some interval ∧
      Covers (SleepCall.nanosleep sec nsec).requested interval) ↔ (SleepCall.nanosleep sec nsec).Whole := by
  obtain ⟨positive,least,most⟩ := accepted
  have share := milliseconds_toInt least
  simp only [SleepCall.interval,SleepCall.requested,SleepCall.Whole,Option.bind_eq_bind,Option.bind_eq_some_iff]
  constructor
  · intro ⟨interval,⟨milliseconds,product,timeout,sum,same⟩,covers⟩
    cases same
    have whole := long_toInt sum
    rw [long_toInt product,share] at whole
    have split : sec.toInt*10^9+nsec.toInt = timeout.toInt*10^6+nsec.toInt % 10^6 := by omega
    rw [split,timeout_covers (by omega) (by omega) (by omega)] at covers
    exact ⟨covers.1,by omega⟩
  · intro ⟨exact,fits⟩
    obtain ⟨milliseconds,product⟩ : ∃ l, long (sec.toInt*1000) = some l := long_isSome (by omega) (by omega)
    have first := long_toInt product
    obtain ⟨timeout,sum⟩ : ∃ l, long (milliseconds.toInt+(nsec/1000/1000).toInt) = some l :=
      long_isSome (by omega) (by omega)
    have whole := long_toInt sum
    rw [first,share] at whole
    have split : sec.toInt*10^9+nsec.toInt = timeout.toInt*10^6+nsec.toInt % 10^6 := by omega
    refine ⟨_,⟨milliseconds,product,timeout,sum,rfl⟩,?_⟩
    rw [split,timeout_covers (by omega) (by omega) (by omega)]
    exact ⟨exact,by omega⟩

theorem interval_known {requested : Int} {interval : UInt64} :
    (∃ known, some interval = some known ∧ Covers requested known) ↔ Covers requested interval := by
  simp

theorem sleeps_exactly (call : SleepCall) (accepted : call.accepted) :
    (∃ interval, call.interval = some interval ∧ Covers call.requested interval) ↔ call.Whole := by
  cases call with
  | sleep seconds => exact interval_known.trans (sleep_covers seconds)
  | usleep usec => exact interval_known.trans (usleep_covers usec)
  | nanosleep sec nsec => exact nanosleep_covers sec nsec accepted

theorem sleeps_exactly_second : ∃ interval, (SleepCall.nanosleep 1 500000000).interval = some interval ∧
    Covers (SleepCall.nanosleep 1 500000000).requested interval :=
  (sleeps_exactly (.nanosleep 1 500000000) ⟨by decide,by decide,by decide⟩).mpr ⟨by decide,by decide⟩

theorem usleep_early : ¬∀ call : SleepCall, call.accepted →
    ∃ interval, call.interval = some interval ∧ Covers call.requested interval := by
  intro always
  obtain ⟨interval,same,covers⟩ := always (.usleep 999) trivial
  cases same
  exact absurd covers.1 (by decide)

end Fishjoy.HookSleep
