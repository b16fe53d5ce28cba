import Fishjoy.Foundation.Transition
import Fishjoy.Foundation.Crew

namespace Fishjoy.IOManagerResize
open Transition Crew

-- One call of `addEvent` up to its `fd_ctx`: behind the test under the read
-- lock, and with the context it has got, if the index was in range.
inductive Phase where
  | idle
  | outside (fd : Nat)
  | holding (fd : Nat) (fd_ctx : Option Nat)
  deriving DecidableEq

-- A context is the number of its allocation, and `made` counts them.
structure State (Thread : Type) where
  m_fdContexts : List Nat
  made : Nat
  phase : Thread → Phase

inductive Action (Thread : Type) where
  | test (t : Thread) (fd : Nat)
  | resize (t : Thread)
  | finish (t : Thread)

variable {Thread : Type}

-- The conversion of a size to `int`.
def toInt (size : Nat) : Int := (BitVec.ofNat 32 size).toInt

namespace State

def contextResize (s : State Thread) (size : Nat) : State Thread :=
  {s with
    m_fdContexts := s.m_fdContexts.take size ++ (List.range (size-s.m_fdContexts.length)).map (s.made+·)
    made := s.made+(size-s.m_fdContexts.length)}

def goto [DecidableEq Thread] (s : State Thread) (t : Thread) (phase : Phase) : State Thread :=
  {s with phase := Function.update s.phase t phase}

def initial : State Thread := (⟨[],0,fun _ => .idle⟩ : State Thread).contextResize 32

end State

-- Descriptors are not negative, and `fd * 1.5` is truncated to an integer.
def next [DecidableEq Thread] (s : State Thread) : Action Thread → Option (State Thread)
  | .test t fd =>
    match s.phase t with
    | .idle =>
      if fd < 2^31 then
        some (s.goto t (if toInt s.m_fdContexts.length > fd then .holding fd s.m_fdContexts[fd]? else .outside fd))
      else none
    | _ => none
  | .resize t =>
    match s.phase t with
    | .outside fd =>
      let s := s.contextResize (fd*3/2)
      some (s.goto t (.holding fd s.m_fdContexts[fd]?))
    | _ => none
  | .finish t =>
    match s.phase t with
    | .holding _ _ => some (s.goto t .idle)
    | _ => none

-- Every context stays where it is.
def Extends (s s' : State Thread) : Prop := s.m_fdContexts <+: s'.m_fdContexts

def InRange (s : State Thread) : Prop := ∀ t fd, s.phase t ≠ .holding fd none

-- The table is not larger yet than what is asked for.
def Grows (s : State Thread) : Action Thread → Prop
  | .resize t => ∀ fd, s.phase t = .outside fd → s.m_fdContexts.length ≤ fd*3/2
  | _ => True

structure Valid (s : State Thread) : Prop where
  wide : 32 ≤ s.m_fdContexts.length
  inRange : InRange s

theorem toInt_le (size : Nat) : toInt size ≤ size := by
  unfold toInt
  rw [BitVec.toInt_eq_toNat_cond,BitVec.toNat_ofNat]
  have small := Nat.mod_le size (2^32)
  split <;> omega

theorem contextResize_length (s : State Thread) (size : Nat) : (s.contextResize size).m_fdContexts.length = size := by
  simp only [State.contextResize,List.length_append,List.length_take,List.length_map,List.length_range]
  omega

theorem extends_resize (s : State Thread) (size : Nat) :
    Extends s (s.contextResize size) ↔ s.m_fdContexts.length ≤ size := by
  constructor
  · intro extends_
    have bound := extends_.length_le
    rwa [contextResize_length] at bound
  · intro grows
    unfold Extends State.contextResize
    rw [List.take_of_length_le grows]
    exact List.prefix_append _ _

theorem extends_refl (s : State Thread) : Extends s s := List.prefix_refl _

theorem extends_trans (s s' s'' : State Thread) : Extends s s' → Extends s' s'' → Extends s s'' := List.IsPrefix.trans

theorem initial_valid : Valid (State.initial : State Thread) :=
  ⟨by rw [State.initial,contextResize_length],nofun⟩

variable [DecidableEq Thread] {s s' : State Thread}

theorem goto_inRange (inRange : InRange s) (t : Thread) (held : ∀ fd, phase ≠ .holding fd none) :
    InRange (s.goto t phase) := by
  intro u fd phaseEq
  rcases update_cases phaseEq with ⟨_,here⟩ | ⟨_,there⟩
  · exact held fd here
  · exact inRange u fd there

theorem test_spec (valid : Valid s) (moved : next s (.test t fd) = some s') : Valid s' ∧ Extends s s' := by
  cases phaseEq : s.phase t with
  | idle =>
      simp only [next,phaseEq] at moved
      by_cases small : fd < 2^31
      · rw [if_pos small] at moved
        cases moved
        refine ⟨⟨valid.wide,goto_inRange valid.inRange t ?_⟩,extends_refl _⟩
        intro other held
        by_cases inside : toInt s.m_fdContexts.length > fd
        · have bound := toInt_le s.m_fdContexts.length
          rw [if_pos inside] at held
          have missing := (Phase.holding.inj held).2
          rw [List.getElem?_eq_none_iff] at missing
          omega
        · rw [if_neg inside] at held
          cases held
      · rw [if_neg small] at moved
        cases moved
  | _ => simp only [next,phaseEq] at moved; cases moved

theorem resize_spec (valid : Valid s) (grows : Grows s (.resize t)) (moved : next s (.resize t) = some s') :
    Valid s' := by
  cases phaseEq : s.phase t with
  | outside fd =>
      simp only [next,phaseEq] at moved
      cases moved
      have enough := grows fd phaseEq
      have wide := valid.wide
      have length := contextResize_length s (fd*3/2)
      refine ⟨?_,goto_inRange (s := s.contextResize (fd*3/2)) valid.inRange t ?_⟩
      · simp only [State.goto,length]
        omega
      · intro other held
        have missing := (Phase.holding.inj held).2
        rw [List.getElem?_eq_none_iff,length] at missing
        omega
  | _ => simp only [next,phaseEq] at moved; cases moved

theorem finish_spec (valid : Valid s) (moved : next s (.finish t) = some s') : Valid s' ∧ Extends s s' := by
  cases phaseEq : s.phase t with
  | holding fd ctx =>
      simp only [next,phaseEq] at moved
      cases moved
      exact ⟨⟨valid.wide,goto_inRange valid.inRange t nofun⟩,extends_refl _⟩
  | _ => simp only [next,phaseEq] at moved; cases moved

theorem valid_step (valid : Valid s) (grows : Grows s a) (moved : next s a = some s') : Valid s' := by
  cases a with
  | test t fd => exact (test_spec valid moved).1
  | resize t => exact resize_spec valid grows moved
  | finish t => exact (finish_spec valid moved).1

theorem grows_iff (valid : Valid s) : (∀ s', next s a = some s' → Extends s s') ↔ Grows s a := by
  cases a with
  | test t fd => exact ⟨fun _ => trivial,fun _ s' moved => (test_spec valid moved).2⟩
  | finish t => exact ⟨fun _ => trivial,fun _ s' moved => (finish_spec valid moved).2⟩
  | resize t =>
      constructor
      · intro extends_ fd phaseEq
        let grown := s.contextResize (fd*3/2)
        have moved : next s (.resize t) = some (grown.goto t (.holding fd grown.m_fdContexts[fd]?)) := by
          simp only [next,phaseEq]
          rfl
        have after : Extends s (grown.goto t (.holding fd grown.m_fdContexts[fd]?)) := extends_ _ moved
        exact (extends_resize s _).mp after
      · intro grows s' moved
        cases phaseEq : s.phase t with
        | outside fd =>
            simp only [next,phaseEq] at moved
            cases moved
            exact (extends_resize s _).mpr (grows fd phaseEq)
        | _ => simp only [next,phaseEq] at moved; cases moved

theorem extends_exactly (actions : List (Action Thread)) :
    Evolves next Extends State.initial actions ∧ Throughout next InRange State.initial actions ↔
      Along next Grows State.initial actions := by
  have steps : Evolves next Extends State.initial actions ↔ Along next Grows State.initial actions := by
    apply (evolves_iff extends_refl extends_trans).trans
    refine along_congr initial_valid ?_ (fun _ _ valid _ => grows_iff valid) along_any
    intro s a s' valid _ extends_ moved
    exact valid_step valid ((grows_iff valid).mp extends_) moved
  constructor
  · rintro ⟨evolves,_⟩
    exact steps.mp evolves
  · intro grows
    exact ⟨steps.mpr grows,throughout_of_along initial_valid (fun _ valid => valid.inRange)
      (fun _ _ _ => valid_step) grows⟩

-- While one thread has found 40 outside, another one makes room for 100.
def overtaken : List (Action Bool) := [.test false 40,.test true 100,.resize true,.resize false]

theorem extends_fails :
    ¬(Evolves next Extends State.initial overtaken ∧ Throughout next InRange State.initial overtaken) := by
  rintro ⟨evolves,_⟩
  obtain ⟨m,s,first,second,wide,narrow⟩ : ∃ m s, run next State.initial (overtaken.take 3) = some m ∧
      run next m (overtaken.drop 3) = some s ∧ m.m_fdContexts.length = 150 ∧ s.m_fdContexts.length = 60 :=
    ⟨_,_,rfl,rfl,contextResize_length _ _,contextResize_length _ _⟩
  have bound := (evolves (overtaken.take 3) (overtaken.drop 3) [] m s rfl first second).length_le
  rw [wide,narrow] at bound
  exact absurd bound (by decide)

end Fishjoy.IOManagerResize
