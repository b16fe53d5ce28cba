import Fishjoy.TimerOrder

namespace Fishjoy

inductive TimerCall where
  | cancel
  | refresh
  | reset (ms : UInt64) (fromNow : Bool)

-- A whole call; `reset` may return before it takes the lock.
def Timer.call [LinearOrder Ptr] (m : TimerManager Ptr Callback) (self : Ptr) (now : UInt64) :
    TimerCall → Except Fault (Timer.Done Ptr Callback)
  | .cancel => Timer.cancel m self
  | .refresh => Timer.refresh m self now
  | .reset ms fromNow =>
    if Timer.resetUnchanged m self ms fromNow then .ok ⟨true,false,m⟩ else Timer.reset m self ms fromNow now

-- The new `m_next`, where the call arms the timer again.
def TimerCall.due (timer : Timer Callback) (now : UInt64) : TimerCall → Option UInt64
  | .cancel => none
  | .refresh => some (now+timer.ms)
  | .reset ms fromNow => some ((if fromNow then now else timer.next-timer.ms)+ms)

namespace TimerManager
open OrderedSet Transition
variable {Ptr Callback : Type} [LinearOrder Ptr] {m n : TimerManager Ptr Callback} {p q : Ptr}

-- The result of a call says whether the timer was armed, and the state after
-- it is what that result announces.
structure Truthful (m : TimerManager Ptr Callback) (p : Ptr) (now : UInt64) (call : TimerCall)
    (done : Timer.Done Ptr Callback) : Prop where
  result : done.result = true ↔ p ∈ m.timers
  refused : done.result = false → done.manager = m
  armed : done.result = true → ∀ next, call.due (m.object p) now = some next →
    p ∈ done.manager.timers ∧ (done.manager.object p).next = next ∧
      ∀ q, q ≠ p → done.manager.object q = m.object q ∧ (q ∈ done.manager.timers ↔ q ∈ m.timers)

-- Every call takes a timer without callback for one that is not armed, and
-- `reset` with the interval it has takes every timer for one that is.
def Told (m : TimerManager Ptr Callback) (p : Ptr) : TimerCall → Prop
  | .cancel | .refresh => p ∈ m.timers → (m.object p).cb.isSome = true
  | .reset ms fromNow =>
    if ms = (m.object p).ms ∧ fromNow = false then p ∈ m.timers
    else p ∈ m.timers → (m.object p).cb.isSome = true

omit [LinearOrder Ptr] in
theorem resetUnchanged_iff {ms : UInt64} {fromNow : Bool} :
    Timer.resetUnchanged m p ms fromNow = true ↔ ms = (m.object p).ms ∧ fromNow = false := by
  simp [Timer.resetUnchanged]

omit [LinearOrder Ptr] in
theorem truthful_disarmed (now : UInt64) (call : TimerCall) :
    Truthful m p now call ⟨false,false,m⟩ ↔ p ∉ m.timers := by
  constructor
  · intro truthful member
    cases truthful.result.mpr member
  · intro absent
    exact ⟨by simp [absent],fun _ => rfl,fun announced => by cases announced⟩

-- The timer is taken out and placed again with a new time.
theorem truthful_placed (valid : Valid m) (member : p ∈ m.timers) (now : UInt64) (call : TimerCall) (t : Timer Callback)
    (due : call.due (m.object p) now = some t.next) (object : n.object = ((m.without p).place p t).object)
    (timers : n.timers = ((m.without p).place p t).timers) (atFront : Bool) : Truthful m p now call ⟨true,atFront,n⟩ where
  result := ⟨fun _ => member,fun _ => rfl⟩
  refused denied := by cases denied
  armed _ next same := by
    cases due.symm.trans same
    dsimp only
    rw [object,timers]
    refine ⟨(place_mem t).mpr (.inl rfl),by simp,?_⟩
    intro q other
    exact ⟨store_other t other,without_place_mem valid.sorted member t other⟩

omit [LinearOrder Ptr] in
theorem truthful_unchanged (now ms : UInt64) (fromNow : Bool) (same : ms = (m.object p).ms ∧ fromNow = false) :
    Truthful m p now (.reset ms fromNow) ⟨true,false,m⟩ ↔ p ∈ m.timers := by
  obtain ⟨interval,kept⟩ := same
  constructor
  · exact fun truthful => truthful.result.mp rfl
  · intro member
    refine ⟨by simp [member],by simp,?_⟩
    intro _ next announced
    have start : (m.object p).next = next := by
      simpa [TimerCall.due,interval,kept] using announced
    exact ⟨member,start,fun q _ => ⟨rfl,Iff.rfl⟩⟩

-- Behind the lock the callback decides.
omit [LinearOrder Ptr] in
theorem locked_exactly {run : Except Fault (Timer.Done Ptr Callback)}
    {now : UInt64} {call : TimerCall}
    (empty : (m.object p).cb.isSome = false → run = .ok ⟨false,false,m⟩)
    (full : (m.object p).cb.isSome = true → ∃ done, run = .ok done ∧ Truthful m p now call done) :
    (∃ done, run = .ok done ∧ Truthful m p now call done) ↔ (p ∈ m.timers → (m.object p).cb.isSome = true) := by
  cases present : (m.object p).cb.isSome with
  | true => exact ⟨fun _ _ => rfl,fun _ => full present⟩
  | false =>
      rw [empty present]
      constructor
      · intro ⟨done,same,truthful⟩ member
        cases same
        exact absurd member ((truthful_disarmed now call).mp truthful)
      · intro told
        have absent : p ∉ m.timers := fun member => by cases told member
        exact ⟨_,rfl,(truthful_disarmed now call).mpr absent⟩

theorem call_truthful (valid : Valid m) (made : m.made p = true) (call : TimerCall) (now : UInt64) :
    (∃ done, Timer.call m p now call = .ok done ∧ Truthful m p now call done) ↔ Told m p call := by
  cases call with
  | cancel =>
      refine locked_exactly cancel_disarmed fun present => ?_
      refine ⟨_,cancel_armed valid made present,?_,by simp,?_⟩
      · exact ⟨fun _ => valid.armed p made present,fun _ => rfl⟩
      · intro _ next announced
        cases announced
  | refresh =>
      refine locked_exactly (fun absent => refresh_disarmed absent now) fun present => ?_
      exact ⟨_,refresh_armed valid made present now,
        truthful_placed valid (valid.armed p made present) now _ _ rfl rfl rfl _⟩
  | reset ms fromNow =>
      by_cases same : ms = (m.object p).ms ∧ fromNow = false
      · have unlocked : Timer.call m p now (.reset ms fromNow) = .ok ⟨true,false,m⟩ :=
          if_pos (resetUnchanged_iff.mpr same)
        rw [unlocked,Told,if_pos same,←truthful_unchanged now ms fromNow same]
        constructor
        · intro ⟨done,equal,truthful⟩
          cases equal
          exact truthful
        · exact fun truthful => ⟨_,rfl,truthful⟩
      · have locked : Timer.call m p now (.reset ms fromNow) = Timer.reset m p ms fromNow now :=
          if_neg fun unchanged => same (resetUnchanged_iff.mp unchanged)
        rw [locked,Told,if_neg same]
        refine locked_exactly (fun absent => reset_disarmed absent ms fromNow now) fun present => ?_
        obtain ⟨atFront,n,done,object,_,timers⟩ := reset_armed valid made present ms fromNow now
        exact ⟨_,done,truthful_placed valid (valid.armed p made present) now _ _ rfl object timers atFront⟩

theorem calls_truthful_exactly (path : Reached next anyStep Start m) (made : m.made p = true) (call : TimerCall)
    (now : UInt64) : (∃ done, Timer.call m p now call = .ok done ∧ Truthful m p now call done) ↔ Told m p call :=
  call_truthful (reached_valid path) made call now

theorem pairSample_any : Reached next anyStep Start pairSample :=
  pairSample_reached.weaken fun _ _ _ => trivial

theorem calls_truthful_pair : ∃ done, Timer.call pairSample 3 4 .refresh = .ok done ∧
    Truthful pairSample 3 4 .refresh done :=
  (calls_truthful_exactly pairSample_any (by decide) .refresh 4).mpr (by unfold Told; decide)

-- The same pair after the timer at address 7 was cancelled.
def cancelledSample : TimerManager Nat Unit :=
  (pairSample.store 7 ⟨false,5,6,none⟩).without 7

theorem cancelledSample_reached : Reached next anyStep Start cancelledSample :=
  .step (a := .cancel 7) pairSample_any trivial rfl

theorem cancelled_reset_accepted : ¬∀ (m : TimerManager Nat Unit) (p : Nat) (call : TimerCall) (now : UInt64),
    Reached next anyStep Start m → m.made p = true →
    ∃ done, Timer.call m p now call = .ok done ∧ Truthful m p now call done := by
  intro always
  obtain ⟨done,same,truthful⟩ := always cancelledSample 7 (.reset 5 false) 9 cancelledSample_reached (by decide)
  cases same
  have member := truthful.result.mp rfl
  revert member
  decide

end TimerManager
end Fishjoy
