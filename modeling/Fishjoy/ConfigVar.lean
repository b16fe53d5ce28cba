import Fishjoy.Foundation.Transition
import Fishjoy.Foundation.Crew
import Mathlib.Data.Fintype.Basic

namespace Fishjoy.ConfigVar
open Transition Crew

-- One call of `setValue`: in its section under the read lock before and after
-- the listeners are called, and between this section and the write lock.
inductive Phase (T : Type) where
  | idle
  | compared (v : T)
  | notified (v : T)
  | pending (v : T)
  deriving DecidableEq

-- `cache` is what the listener has copied, and `log` what it was called with,
-- the last call first.
structure State (Thread T : Type) where
  m_val : T
  cache : T
  log : List (T × T)
  phase : Thread → Phase T

inductive Action (Thread T : Type) where
  | compare (t : Thread) (v : T)
  | notify (t : Thread)
  | unlock (t : Thread)
  | store (t : Thread)

variable {Thread T : Type}

def Phase.reading : Phase T → Bool
  | .compared _ | .notified _ => true
  | _ => false

-- The value a call has given to the listeners and not stored yet.
def Phase.announced : Phase T → Option T
  | .notified v | .pending v => some v
  | _ => none

def initial (v : T) : State Thread T := ⟨v,v,[],fun _ => .idle⟩

def State.goto [DecidableEq Thread] (s : State Thread T) (t : Thread) (phase : Phase T) : State Thread T :=
  {s with phase := Function.update s.phase t phase}

def next [Fintype Thread] [DecidableEq Thread] [DecidableEq T] (s : State Thread T) :
    Action Thread T → Option (State Thread T)
  | .compare t v =>
    match s.phase t with
    | .idle => some (if v = s.m_val then s else s.goto t (.compared v))
    | _ => none
  | .notify t =>
    match s.phase t with
    | .compared v => some ({s with cache := v,log := (s.m_val,v) :: s.log}.goto t (.notified v))
    | _ => none
  | .unlock t =>
    match s.phase t with
    | .notified v => some (s.goto t (.pending v))
    | _ => none
  | .store t =>
    match s.phase t with
    | .pending v => if ∀ u, (s.phase u).reading = false then some ({s with m_val := v}.goto t .idle) else none
    | _ => none

-- The cache is right whenever no call is in progress, and each call of the
-- listener starts from where the one before it ended.
def Consistent (s : State Thread T) : Prop :=
  ((∀ t, s.phase t = .idle) → s.cache = s.m_val) ∧ s.log.IsChain fun later earlier => later.1 = earlier.2

-- No listener is called while another call is between its notification and its
-- store.
def Alone (s : State Thread T) : Action Thread T → Prop
  | .notify t => ∀ v, s.phase t = .compared v → ∀ u, (s.phase u).announced = none
  | _ => True

structure Valid (s : State Thread T) : Prop where
  different : ∀ t v, s.phase t = .compared v → v ≠ s.m_val
  one : ∀ t u v w, (s.phase t).announced = some v → (s.phase u).announced = some w → t = u
  announced : ∀ t v, (s.phase t).announced = some v → v ≠ s.m_val ∧ s.cache = v ∧ s.log.head?.map Prod.snd = some v
  settled : (∀ t, (s.phase t).announced = none) → s.cache = s.m_val ∧ ∀ entry ∈ s.log.head?, entry.2 = s.m_val
  chain : s.log.IsChain fun later earlier => later.1 = earlier.2

theorem initial_valid (v : T) : Valid (initial v : State Thread T) :=
  ⟨nofun,nofun,nofun,fun _ => ⟨rfl,nofun⟩,.nil⟩

theorem consistent_of_valid {s : State Thread T} (valid : Valid s) : Consistent s := by
  refine ⟨?_,valid.chain⟩
  intro idle
  exact (valid.settled fun t => by rw [idle t]; rfl).1

variable [Fintype Thread] [DecidableEq Thread] [DecidableEq T] {s s' : State Thread T}

omit [Fintype Thread] [DecidableEq T] in
theorem goto_announced {p : Phase T} (told : ((s.goto t p).phase u).announced = some v) :
    (u = t ∧ p.announced = some v) ∨ (u ≠ t ∧ (s.phase u).announced = some v) := by
  by_cases same : u = t
  · subst u
    exact .inl ⟨rfl,by simpa [State.goto] using told⟩
  · exact .inr ⟨same,by simpa [State.goto,same] using told⟩

omit [Fintype Thread] [DecidableEq T] in
-- A call that moves without telling the listeners or storing anything.
theorem goto_valid (valid : Valid s) (t : Thread) (p : Phase T) (told : p.announced = (s.phase t).announced)
    (differs : ∀ v, p = .compared v → v ≠ s.m_val) : Valid (s.goto t p) := by
  have back : ∀ u v, ((s.goto t p).phase u).announced = some v → (s.phase u).announced = some v := by
    intro u v at_u
    rcases goto_announced at_u with ⟨rfl,here⟩ | ⟨_,there⟩
    · rw [←told]; exact here
    · exact there
  refine ⟨?_,?_,?_,?_,valid.chain⟩
  · intro u v phaseEq
    rcases update_cases phaseEq with ⟨_,here⟩ | ⟨_,there⟩
    · exact differs v here
    · exact valid.different u v there
  · intro u w v v' first second
    exact valid.one u w v v' (back u v first) (back w v' second)
  · intro u v at_u
    exact valid.announced u v (back u v at_u)
  · intro quiet
    refine valid.settled fun u => ?_
    have known := quiet u
    by_cases same : u = t
    · subst u
      simpa [State.goto,told] using known
    · simpa [State.goto,same] using known

theorem compare_valid (valid : Valid s) (moved : next s (.compare t v) = some s') : Valid s' := by
  cases phaseEq : s.phase t with
  | idle =>
      simp only [next,phaseEq] at moved
      by_cases same : v = s.m_val
      · rw [if_pos same] at moved
        cases moved
        exact valid
      · rw [if_neg same] at moved
        cases moved
        apply goto_valid valid t (.compared v) (by rw [phaseEq]; rfl)
        intro w equal
        cases equal
        exact same
  | _ => simp only [next,phaseEq] at moved; cases moved

theorem notify_valid (valid : Valid s) (alone : Alone s (.notify t)) (moved : next s (.notify t) = some s') : Valid s' := by
  cases phaseEq : s.phase t with
  | compared v =>
      simp only [next,phaseEq] at moved
      cases moved
      have nobody := alone v phaseEq
      obtain ⟨_,last⟩ := valid.settled nobody
      have only : ∀ u w, (((s.goto t (.notified v)).phase u).announced) = some w → u = t ∧ w = v := by
        intro u w told
        rcases goto_announced told with ⟨rfl,here⟩ | ⟨_,there⟩
        · exact ⟨rfl,(Option.some.inj here).symm⟩
        · rw [nobody u] at there; cases there
      refine ⟨?_,?_,?_,?_,?_⟩
      · intro u w at_u
        rcases update_cases at_u with ⟨_,here⟩ | ⟨_,there⟩
        · cases here
        · exact valid.different u w there
      · intro u w x y first second
        exact (only u x first).1.trans (only w y second).1.symm
      · intro u w told
        obtain ⟨_,rfl⟩ := only u w told
        exact ⟨valid.different t w phaseEq,rfl,rfl⟩
      · intro quiet
        have told := quiet t
        simp [State.goto,Phase.announced] at told
      · cases logEq : s.log with
        | nil => exact List.isChain_singleton _
        | cons entry rest =>
            have chain := valid.chain
            rw [logEq] at chain last
            exact List.isChain_cons_cons.mpr ⟨(last entry rfl).symm,chain⟩
  | _ => simp only [next,phaseEq] at moved; cases moved

theorem unlock_valid (valid : Valid s) (moved : next s (.unlock t) = some s') : Valid s' := by
  cases phaseEq : s.phase t with
  | notified v =>
      simp only [next,phaseEq] at moved
      cases moved
      exact goto_valid valid t (.pending v) (by rw [phaseEq]; rfl) nofun
  | _ => simp only [next,phaseEq] at moved; cases moved

-- The write lock is taken while nobody is in a section under the read lock.
theorem store_valid (valid : Valid s) (moved : next s (.store t) = some s') : Valid s' := by
  cases phaseEq : s.phase t with
  | pending v =>
      simp only [next,phaseEq] at moved
      by_cases locked : ∀ u, (s.phase u).reading = false
      · rw [if_pos locked] at moved
        cases moved
        have mine : (s.phase t).announced = some v := by rw [phaseEq]; rfl
        obtain ⟨_,cache,last⟩ := valid.announced t v mine
        have nobody : ∀ u w, ((s.goto t .idle).phase u).announced ≠ some w := by
          intro u w told
          rcases goto_announced told with ⟨_,here⟩ | ⟨other,there⟩
          · cases here
          · exact other (valid.one u t w v there mine)
        refine ⟨?_,?_,?_,?_,valid.chain⟩
        · intro u w at_u
          rcases update_cases at_u with ⟨_,here⟩ | ⟨_,there⟩
          · cases here
          · have free := locked u
            rw [there] at free
            cases free
        · intro u w x y first
          exact absurd first (nobody u x)
        · intro u w told
          exact absurd told (nobody u w)
        · intro _
          refine ⟨cache,?_⟩
          intro entry first
          have head : s.log.head? = some entry := first
          rw [head] at last
          exact Option.some.inj last
      · rw [if_neg locked] at moved
        cases moved
  | _ => simp only [next,phaseEq] at moved; cases moved

theorem valid_step (valid : Valid s) (alone : Alone s a) (moved : next s a = some s') : Valid s' := by
  cases a with
  | compare t v => exact compare_valid valid moved
  | notify t => exact notify_valid valid alone moved
  | unlock t => exact unlock_valid valid moved
  | store t => exact store_valid valid moved

theorem alone_of_consistent (valid : Valid s) (after : ∀ s', next s a = some s' → Consistent s') : Alone s a := by
  cases a with
  | notify t =>
      intro v phaseEq u
      have log := (after _ (by simp only [next,phaseEq]; rfl)).2
      cases told : (s.phase u).announced with
      | none => rfl
      | some w =>
          obtain ⟨differs,_,last⟩ := valid.announced u w told
          cases logEq : s.log with
          | nil => rw [logEq] at last; cases last
          | cons entry rest =>
              rw [logEq] at last log
              exact absurd ((List.isChain_cons_cons.mp log).1.trans (Option.some.inj last)) differs.symm
  | _ => trivial

theorem consistent_exactly (v : T) (actions : List (Action Thread T)) :
    Throughout next Consistent (initial v) actions ↔ Along next Alone (initial v) actions :=
  throughout_exactly (initial_valid v) (fun _ => consistent_of_valid) (fun _ _ _ => valid_step)
    fun _ _ => alone_of_consistent

-- Both writers see 0 and tell the listener 1 and 2; then 2 is stored before 1.
def crossed : List (Action Bool Nat) :=
  [.compare false 1,.compare true 2,.notify false,.notify true,.unlock false,.unlock true,.store true,.store false]

theorem consistent_fails : ¬Throughout next Consistent (initial 0) crossed := by
  intro holds
  obtain ⟨s,ran,idle,cache,val⟩ : ∃ s, run next (initial 0) crossed = some s ∧
      (∀ t, s.phase t = .idle) ∧ s.cache = 2 ∧ s.m_val = 1 := ⟨_,rfl,by decide,rfl,rfl⟩
  have last := (holds.reached crossed [] ran).1 idle
  rw [cache,val] at last
  cases last

end Fishjoy.ConfigVar
