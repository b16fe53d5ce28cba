import Fishjoy.HttpConnectionPoolInvariant

namespace Fishjoy.HttpConnectionPool
open Transition Crew

variable {Thread : Type} [Fintype Thread] [DecidableEq Thread] {maxAliveTime maxRequest : Nat} {s s' : Pool Thread} {t : Thread}

-- A live connection is in the list, with one caller or in the hands of one call.
structure Accounted (maxRequest : Nat) (s : Pool Thread) : Prop where
  conns : s.conns.Nodup
  lent : s.lent.Nodup
  apart : ∀ c ∈ s.conns, c ∉ s.lent
  live : ∀ c, c ∈ s.conns ∨ c ∈ s.lent → s.alive c = true
  placed : ∀ c, s.alive c = true → c ∈ s.conns ∨ c ∈ s.lent ∨ ∃ t, c ∈ (s.phase t).held
  hands : ∀ t, ∀ c ∈ (s.phase t).held,
    s.alive c = true ∧ c ∉ s.conns ∧ c ∉ s.lent ∧ ∀ u ≠ t, c ∉ (s.phase u).held
  lendings : ∀ c, s.lendings c ≤ max 1 maxRequest
  settled : (∀ t, s.phase t = .idle) →
    (∀ c, s.alive c = true → c ∈ s.conns ∨ c ∈ s.lent) ∧ s.total = (s.conns.length+s.lent.length : Nat)

omit [DecidableEq Thread] in
theorem Valid.live (valid : Valid maxRequest s) (member : c ∈ s.conns ∨ c ∈ s.lent) : s.alive c = true := by
  apply valid.live_of_owned
  rcases member with member | member
  · have some := List.count_pos_iff.mpr member
    omega
  · have some := List.count_pos_iff.mpr member
    omega

omit [DecidableEq Thread] in
theorem Valid.placed (valid : Valid maxRequest s) (lives : s.alive c = true) :
    c ∈ s.conns ∨ c ∈ s.lent ∨ ∃ t, c ∈ (s.phase t).held := by
  have one := valid.owned c
  rw [lives,Bool.toNat_true] at one
  by_cases pooled : c ∈ s.conns
  · exact .inl pooled
  by_cases lent : c ∈ s.lent
  · exact .inr (.inl lent)
  · apply Or.inr
    apply Or.inr
    apply Classical.byContradiction
    intro nobody
    have none : weigh (fun p => Phase.held p |>.count c) s.phase = 0 := by
      apply (weigh_eq_zero _ _).mpr
      intro t
      apply List.count_eq_zero.mpr
      intro member
      exact nobody ⟨t,member⟩
    rw [List.count_eq_zero.mpr pooled,List.count_eq_zero.mpr lent] at one
    omega

theorem Valid.accounted (valid : Valid maxRequest s) : Accounted maxRequest s := by
  have once : ∀ c, s.conns.count c+s.lent.count c ≤ 1 := by
    intro c
    have one := valid.owned c
    have live : (s.alive c).toNat ≤ 1 := Bool.toNat_le _
    omega
  refine ⟨?_,?_,?_,fun _ => valid.live,fun _ => valid.placed,?_,valid.bounded,?_⟩
  · apply List.nodup_iff_count_le_one.mpr
    intro c
    exact (Nat.le_add_right _ _).trans (once c)
  · apply List.nodup_iff_count_le_one.mpr
    intro c
    exact (Nat.le_add_left _ _).trans (once c)
  · intro c pooled lent
    have both := once c
    have one := List.count_pos_iff.mpr pooled
    have two := List.count_pos_iff.mpr lent
    omega
  · intro t c member
    obtain ⟨live,pooled,lent,others,_⟩ := valid.holder member
    exact ⟨live,pooled,lent,others⟩
  · intro idle
    refine ⟨?_,?_⟩
    · intro c lives
      rcases valid.placed lives with pooled | lent | ⟨t,member⟩
      · exact .inl pooled
      · exact .inr lent
      · rw [idle t] at member
        cases member
    · have none : weigh Phase.counted s.phase = 0 := by
        apply (weigh_eq_zero _ _).mpr
        intro t
        rw [idle t]
        rfl
      rw [valid.total,none]
      rfl

theorem connections_in_one_place (path : Reached (next maxAliveTime maxRequest) anyStep Start s) :
    Accounted maxRequest s :=
  (reached_valid path).accounted

def unusedPool : Pool Bool :=
  ⟨[],0,fun _ => ⟨0,0⟩,0,fun _ => false,[],0,fun _ => 0,fun _ => 0,fun _ => .idle⟩

theorem unusedPool_start : Start unusedPool := ⟨rfl,rfl,rfl,fun _ => rfl,rfl,fun _ => rfl,fun _ => rfl⟩

-- A whole getConnection that finds the list empty, and a whole release.
def connects (t : Bool) : List (Action Bool) := .getConnection t :: List.replicate 6 (.advance t true)

def releases (t : Bool) (ptr : Nat) : List (Action Bool) := .release t ptr :: List.replicate 3 (.advance t true)

-- Two connections at two seconds, the first one released.
def lendingRun : List (Action Bool) := .clock 2000 :: (connects true ++ connects false ++ releases true 0)

def lendingSample : Pool Bool := (run (next 1000 10) unusedPool lendingRun).getD unusedPool

theorem lendingSample_reached : Reached (next 1000 10) anyStep Start lendingSample :=
  Reached.run (.start unusedPool_start) along_any
    (show run (next 1000 10) unusedPool lendingRun = some lendingSample from rfl)

theorem connections_in_one_place_lending :
    lendingSample.conns = [0] ∧ lendingSample.lent = [1] ∧ lendingSample.total = 2 ∧ Accounted 10 lendingSample :=
  ⟨rfl,rfl,rfl,connections_in_one_place lendingSample_reached⟩

-- The peer closes the pooled connection; a call has taken it off the list and
-- not deleted it yet.
def closedRun : List (Action Bool) := lendingRun ++ [.getConnection true,.advance true true,.advance true false]

def closedSample : Pool Bool := (run (next 1000 10) unusedPool closedRun).getD unusedPool

theorem discarded_not_placed : ¬∀ s : Pool Bool, Reached (next 1000 10) anyStep Start s →
    ∀ c, s.alive c = true → c ∈ s.conns ∨ c ∈ s.lent := by
  intro placed
  have reached : Reached (next 1000 10) anyStep Start closedSample :=
    Reached.run (.start unusedPool_start) along_any
      (show run (next 1000 10) unusedPool closedRun = some closedSample from rfl)
  have here : 0 ∈ ([] : List Nat) ∨ 0 ∈ [1] := placed closedSample reached 0 rfl
  revert here
  decide

end Fishjoy.HttpConnectionPool
