import Fishjoy.HttpConnectionPoolPlaces

namespace Fishjoy.HttpConnectionPool
open Transition

variable {Thread : Type} [Fintype Thread] [DecidableEq Thread] {maxAliveTime maxRequest : Nat} {s s' : Pool Thread} {t : Thread}

-- What is worth keeping at the time the call goes by.
def Good (maxAliveTime maxRequest : Nat) (s : Pool Thread) (now conn : Nat) : Prop :=
  now < s.born conn+maxAliveTime ∧ (s.heap conn).request < maxRequest

-- `isConnected` has just said yes where the answer is true.
def Sound (maxAliveTime maxRequest : Nat) (s : Pool Thread) : Action Thread → Prop
  | .advance t answer => ∀ s', advance maxAliveTime maxRequest s t answer = some s' →
    match s.phase t,s'.phase t with
    | .scanning now _,.discarding _ _ (some conn) => now ≤ s.born conn+maxAliveTime
    | .scanning now invalid,.scanning _ invalid' =>
      answer = true → ∀ conn, invalid' = invalid ++ [conn] → ¬Good maxAliveTime maxRequest s now conn
    | .used ptr,.deleting _ => answer = true → ¬Good maxAliveTime maxRequest s s.clock ptr
    | _,_ => True
  | _ => True

-- Where the tests on a creation time of 0 happen to say the right thing.
def InTime (maxAliveTime maxRequest : Nat) (s : Pool Thread) : Action Thread → Prop
  | .advance t true =>
    match s.phase t with
    | .scanning now _ => ∀ conn ∈ s.conns.head?, maxAliveTime ≤ now ∧ now ≤ s.born conn+maxAliveTime
    | .used ptr =>
      (s.heap ptr).request < maxRequest → maxAliveTime < s.clock ∨ s.born ptr+maxAliveTime ≤ s.clock
    | _ => True
  | _ => True

-- Nothing ever writes the creation time.
def Unrecorded (s : Pool Thread) : Prop := ∀ c < s.made, (s.heap c).createTime = 0

omit [Fintype Thread] in
theorem connect_unrecorded (none : Unrecorded s) (p : Phase) : Unrecorded (s.connect.goto t p) := by
  intro c known
  by_cases new : c = s.made
  · simp [Pool.goto,Pool.connect,new]
  · have before : c < s.made := Nat.lt_of_le_of_ne (Nat.le_of_lt_succ known) new
    simpa [Pool.goto,Pool.connect,new] using none c before

theorem advance_unrecorded (none : Unrecorded s) (moved : advance maxAliveTime maxRequest s t answer = some s') :
    Unrecorded s' := by
  cases phaseEq : s.phase t with
  | idle =>
      simp only [advance,phaseEq] at moved
      cases moved
  | asking _ | pooling _ =>
      simp only [advance,phaseEq] at moved
      split at moved
      · cases moved
        exact none
      · cases moved
  | scanning now invalid =>
      simp only [advance,phaseEq] at moved
      split at moved
      · cases moved
        exact none
      · split at moved
        · cases moved
          exact none
        · split at moved
          · cases moved
            exact none
          · cases moved
            exact none
  | discarding left size ptr =>
      cases left with
      | nil | cons i left =>
          simp only [advance,phaseEq] at moved
          cases moved
          exact none
  | connecting =>
      simp only [advance,phaseEq] at moved
      split at moved
      · cases moved
        exact connect_unrecorded none _
      · cases moved
        exact none
  | releasing ptr =>
      simp only [advance,phaseEq] at moved
      cases moved
      intro c known
      by_cases mine : c = ptr
      · subst c
        simpa [Pool.goto] using none ptr known
      · simpa [Pool.goto,mine] using none c known
  | used ptr =>
      simp only [advance,phaseEq] at moved
      split at moved
      · cases moved
        exact none
      · cases moved
        exact none
  | created _ | returning _ | deleting _ | deleted =>
      simp only [advance,phaseEq] at moved
      cases moved
      exact none

theorem next_unrecorded (none : Unrecorded s) (a : Action Thread)
    (moved : next maxAliveTime maxRequest s a = some s') :
    Unrecorded s' := by
  cases a with
  | clock now => cases moved; exact none
  | getConnection t =>
      simp only [next] at moved
      split at moved
      · cases moved
        exact none
      · cases moved
  | release t ptr =>
      simp only [next] at moved
      split at moved
      · split at moved
        · cases moved
          exact none
        · cases moved
      · cases moved
  | advance t answer => exact advance_unrecorded none moved

theorem scanning_sound_iff (valid : Valid maxRequest s) (none : Unrecorded s)
    (phaseEq : s.phase t = .scanning now invalid) :
    Sound maxAliveTime maxRequest s (.advance t true) ↔ InTime maxAliveTime maxRequest s (.advance t true) := by
  simp only [Sound,InTime,advance,phaseEq]
  cases connsEq : s.conns with
  | nil => simp [Pool.goto]
  | cons conn rest =>
      have pooled : conn ∈ s.conns := by rw [connsEq]; exact .head _
      have never := none conn (valid.fresh conn (valid.live (.inl pooled)))
      obtain ⟨_,few⟩ := valid.pooled conn pooled
      simp only [List.head?_cons,Option.mem_some_iff,never,Nat.zero_add,Bool.not_true,Bool.false_eq_true,if_false]
      by_cases early : now < maxAliveTime
      · simp only [if_pos early,Pool.goto,Option.some.injEq,forall_eq',Function.update_self]
        constructor
        · intro sound
          exfalso
          refine sound True.intro conn rfl ⟨?_,few⟩
          omega
        · intro bounds
          have late := bounds.1
          omega
      · simp only [if_neg early,Pool.goto,Option.some.injEq,forall_eq',Function.update_self]
        constructor
        · intro old
          exact ⟨Nat.le_of_not_lt early,old⟩
        · exact And.right

theorem used_sound_iff (valid : Valid maxRequest s) (none : Unrecorded s) (phaseEq : s.phase t = .used ptr) :
    Sound maxAliveTime maxRequest s (.advance t true) ↔ InTime maxAliveTime maxRequest s (.advance t true) := by
  have holds : ptr ∈ (s.phase t).held := by rw [phaseEq]; exact .head _
  have never := none ptr (valid.fresh ptr (valid.holder holds).1)
  simp only [Sound,InTime,advance,phaseEq,never,Nat.zero_add,Bool.not_true,Bool.false_or,Bool.or_eq_true,
    decide_eq_true_eq]
  by_cases gone : s.clock ≤ maxAliveTime ∨ maxRequest ≤ (s.heap ptr).request
  · simp only [if_pos gone,Pool.goto,Option.some.injEq,forall_eq',Function.update_self,Good]
    constructor
    · intro sound few
      have kept := sound True.intro
      omega
    · intro late _ good
      have either := late good.2
      omega
  · simp only [if_neg gone,Pool.goto,Option.some.injEq,forall_eq',Function.update_self,true_iff]
    intro few
    omega

-- A connection that is no longer connected may go at any age.
theorem disconnected_sound : Sound maxAliveTime maxRequest s (.advance t false) := by
  intro s' moved
  cases phaseEq : s.phase t with
  | scanning now invalid =>
      simp only [advance,phaseEq] at moved
      cases connsEq : s.conns with
      | nil =>
          rw [connsEq] at moved
          cases moved
          simp [Pool.goto]
      | cons conn rest =>
          rw [connsEq] at moved
          cases moved
          simp [Pool.goto]
  | used ptr =>
      simp only [advance,phaseEq,Bool.not_false,Bool.true_or,if_true] at moved
      cases moved
      simp [Pool.goto]
  | _ => trivial

theorem sound_iff (valid : Valid maxRequest s) (none : Unrecorded s) (a : Action Thread) :
    Sound maxAliveTime maxRequest s a ↔ InTime maxAliveTime maxRequest s a := by
  cases a with
  | advance t answer =>
      cases answer with
      | false => exact iff_of_true disconnected_sound trivial
      | true =>
          cases phaseEq : s.phase t with
          | scanning => exact scanning_sound_iff valid none phaseEq
          | used => exact used_sound_iff valid none phaseEq
          | _ => simp only [Sound,InTime,phaseEq,implies_true]
  | _ => exact Iff.rfl

theorem reuse_exactly (begins : Start s) :
    Along (next maxAliveTime maxRequest) (Sound maxAliveTime maxRequest) s actions ↔
      Along (next maxAliveTime maxRequest) (InTime maxAliveTime maxRequest) s actions := by
  have initial : Valid maxRequest s ∧ Unrecorded s := by
    refine ⟨start_valid begins,?_⟩
    intro c known
    have none := begins.2.2.1
    omega
  refine along_congr (P := fun s => Valid maxRequest s ∧ Unrecorded s) initial ?_ ?_ along_any
  · intro s a s' kept _ _ moved
    exact ⟨next_valid kept.1 a moved,next_unrecorded kept.2 a moved⟩
  · intro s a kept _
    exact sound_iff kept.1 kept.2 a

theorem reuse_exactly_lending :
    Along (next 1000 10) (Sound 1000 10) unusedPool lendingRun ↔
      Along (next 1000 10) (InTime 1000 10) unusedPool lendingRun :=
  reuse_exactly unusedPool_start

-- The clock never goes back.
def Forward (s : Pool Thread) : Action Thread → Prop
  | .clock now => s.clock ≤ now
  | _ => True

instance (s : Pool Thread) : (a : Action Thread) → Decidable (Forward s a)
  | .clock now => inferInstanceAs (Decidable (s.clock ≤ now))
  | .getConnection _ | .release _ _ | .advance _ _ => isTrue trivial

-- Released as soon as it is made, and taken off the list an hour later.
def staleRun : List (Action Bool) :=
  .clock 1700000000000 :: (connects true ++ releases true 0 ++
    [.clock 1700003600000,.getConnection true,.advance true true])

def staleSample : Pool Bool := (run (next 1000 10) unusedPool staleRun).getD unusedPool

theorem stale_handed_out : ¬∀ (s : Pool Bool) (actions : List (Action Bool)), Start s →
    Along (next 1000 10) Forward s actions → Along (next 1000 10) (Sound 1000 10) s actions := by
  intro sound
  have forward : Along (next 1000 10) Forward unusedPool (staleRun ++ [.advance true true]) := by
    decide +kernel
  have ran : run (next 1000 10) unusedPool staleRun = some staleSample := rfl
  have here := Along.at staleRun (.advance true true) [] ran (sound _ _ unusedPool_start forward)
  have phase : staleSample.phase true = .scanning 1700003600000 [] := rfl
  have conns : staleSample.conns = [0] := rfl
  have created : (staleSample.heap 0).createTime = 0 := rfl
  have born : staleSample.born 0 = 1700000000000 := rfl
  simp only [Sound,advance,phase,conns,created,Pool.goto,Bool.not_true,Bool.false_eq_true,if_false,Nat.zero_add,
    Nat.reduceLT,Option.some.injEq,forall_eq',Function.update_self,born] at here
  omega

end Fishjoy.HttpConnectionPool
