import Fishjoy.FiberHandoff

namespace Fishjoy.FiberCurrent
open Transition FiberHandoff

-- The fibers of one thread: the one of the thread itself, `m_rootFiber`, and
-- those that `Scheduler::run` resumes, the idle fiber among them.
inductive Fiber where
  | main
  | root
  | task (i : Nat)
  deriving DecidableEq

-- Where a saved context goes on: at the start of `MainFunc`, or behind the
-- `swapcontext` that saved it, on the stack of the fiber that called it.
inductive Context where
  | entry (f : Fiber)
  | saved (f : Fiber)
  deriving DecidableEq

def Context.owner : Context → Fiber
  | .entry f | .saved f => f

-- Whether the thread is the one that `use_caller` adds to its scheduler. The
-- constructor of the thread's own fiber does not set `m_runInScheduler`.
structure Setting where
  useCaller : Bool
  mainInScheduler : Bool
  taskInScheduler : Nat → Bool

namespace Setting
variable (c : Setting)

def m_runInScheduler : Fiber → Bool
  | .main => c.mainInScheduler
  | .root => false
  | .task i => c.taskInScheduler i

def t_scheduler_fiber : Fiber := if c.useCaller then .root else .main

-- The fiber that resumes this one: `run` resumes tasks, `stop` resumes `m_rootFiber`.
def resumer : Fiber → Option Fiber
  | .main => none
  | .root => if c.useCaller then some .main else none
  | .task _ => some c.t_scheduler_fiber

end Setting

-- `t_thread_fiber` is `main`. `cur` is the local of `MainFunc`, whose `GetThis`
-- is called when the fiber is entered.
structure State where
  t_fiber : Fiber
  executing : Fiber
  m_state : Fiber → FiberState
  m_ctx : Fiber → Context
  cur : Fiber → Fiber

inductive Action where
  | resume (f : Fiber)
  | yield (f : Fiber)
  | finish
  | reset (f : Fiber)

namespace State

def initial : State where
  t_fiber := .main
  executing := .main
  m_state f := if f = .main then .running else .ready
  m_ctx f := if f = .main then .saved .main else .entry f
  cur f := f

def become (s : State) (f : Fiber) (state : FiberState) : State := {s with m_state := Function.update s.m_state f state}

def swapcontext (s : State) (oucp ucp : Fiber) : State :=
  let m_ctx := Function.update s.m_ctx oucp (.saved s.executing)
  match m_ctx ucp with
  | .entry f => {s with m_ctx, executing := f, cur := Function.update s.cur f s.t_fiber}
  | .saved f => {s with m_ctx, executing := f}

def resume (s : State) (c : Setting) (f : Fiber) : State :=
  let s := {s with t_fiber := f}.become f .running
  if c.m_runInScheduler f then s.swapcontext c.t_scheduler_fiber f
  else s.swapcontext .main f

def yield (s : State) (c : Setting) (f : Fiber) : State :=
  let s := {s with t_fiber := .main}
  let s := if s.m_state f ≠ .term then s.become f .ready else s
  if c.m_runInScheduler f then s.swapcontext f c.t_scheduler_fiber
  else s.swapcontext f .main

-- `GetThis()->yield()`, or `yield` of the fiber that is executing.
def mayYield (s : State) (f : Fiber) : Bool := (f = s.t_fiber ∨ f = s.executing) ∧ s.m_state f ≠ .ready

end State

-- An assertion that fails is no step.
def next (c : Setting) (s : State) : Action → Option State
  | .resume f => if c.resumer f = some s.executing ∧ s.m_state f = .ready then some (s.resume c f) else none
  | .yield f => if s.mayYield f then some (s.yield c f) else none
  | .finish =>
    match s.executing with
    | .main => none
    | executing => some ((s.become (s.cur executing) .term).yield c (s.cur executing))
  | .reset f =>
    match f with
    | .task i =>
      if s.m_state f = .term then
        some {s.become f .ready with m_ctx := Function.update s.m_ctx f (.entry (.task i))}
      else none
    | _ => none

def Current (s : State) : Prop := s.t_fiber = s.executing

-- Where the fiber that yields was resumed from the thread's own fiber.
def Setting.Returns (c : Setting) (f : Fiber) : Prop :=
  c.useCaller = false ∨ f = .root ∨ f = .main ∧ c.mainInScheduler = false

def Lawful (c : Setting) (s : State) : Action → Prop
  | .yield f => s.mayYield f = true → c.Returns f
  | .finish => s.executing ≠ .main → c.Returns s.executing
  | _ => True

theorem scheduler_main {c : Setting} (thread : c.useCaller = false) : c.t_scheduler_fiber = .main := by
  unfold Setting.t_scheduler_fiber
  rw [thread]
  rfl

theorem scheduler_root {c : Setting} (caller : c.useCaller = true) : c.t_scheduler_fiber = .root := by
  unfold Setting.t_scheduler_fiber
  rw [caller]
  rfl

section Swapping
variable {c : Setting} {s : State} {f g oucp ucp : Fiber}

theorem swap_t_fiber : (s.swapcontext oucp ucp).t_fiber = s.t_fiber := by
  unfold State.swapcontext
  dsimp only
  split <;> rfl

theorem swap_ctx : (s.swapcontext oucp ucp).m_ctx = Function.update s.m_ctx oucp (.saved s.executing) := by
  unfold State.swapcontext
  dsimp only
  split <;> rfl

theorem swap_executing : (s.swapcontext oucp ucp).executing =
    (Function.update s.m_ctx oucp (.saved s.executing) ucp).owner := by
  unfold State.swapcontext
  dsimp only
  split
  · rename_i f same
    rw [same]
    rfl
  · rename_i f same
    rw [same]
    rfl

theorem swap_cur (g : Fiber) : (s.swapcontext oucp ucp).cur g =
    if Function.update s.m_ctx oucp (.saved s.executing) ucp = .entry g then s.t_fiber else s.cur g := by
  unfold State.swapcontext
  dsimp only
  split
  · rename_i f same
    rw [same]
    by_cases here : g = f
    · rw [here,if_pos rfl]
      exact Function.update_self _ _ _
    · rw [if_neg fun equal => here (Context.entry.inj equal).symm]
      exact Function.update_of_ne here _ _
  · rename_i f same
    rw [same,if_neg fun equal => by cases equal]

end Swapping

-- Every fiber but the thread's own has a context that goes on as this fiber, and
-- what goes back to the thread's own fiber finds it where it was left. A task
-- outside the scheduler puts the context of `m_rootFiber` in its place.
structure Tracks (c : Setting) (s : State) : Prop where
  current : Current s
  own : ∀ f, f ≠ .main → (s.m_ctx f).owner = f
  entered : ∀ f, f ≠ .main → s.m_ctx f = .entry f ∨ s.cur f = f
  running : s.executing ≠ .main → s.cur s.executing = s.executing
  back : s.executing = .root ∨ c.useCaller = false ∧ s.executing ≠ .main → (s.m_ctx .main).owner = .main
  lost : ∀ i, c.useCaller = true → s.executing = .task i → c.taskInScheduler i = false →
    (s.m_ctx .main).owner = .root

section Steps
variable {c : Setting} {s : State} {f g oucp ucp : Fiber}

theorem initial_tracks (c : Setting) : Tracks c .initial := by
  refine ⟨rfl,?_,fun _ _ => .inr rfl,fun away => absurd rfl away,fun _ => rfl,fun _ _ task => by cases task⟩
  intro f other
  change (if f = .main then Context.saved .main else .entry f).owner = f
  rw [if_neg other]
  rfl

theorem become_tracks (tracks : Tracks c s) (f : Fiber) (state : FiberState) : Tracks c (s.become f state) :=
  ⟨tracks.current,tracks.own,tracks.entered,tracks.running,tracks.back,tracks.lost⟩

-- A fiber that executes has its own context from when it is saved on.
theorem saved_own (tracks : Tracks c s) (f : Fiber) (other : f ≠ .main) (holder : oucp = s.executing ∨ oucp = .main) :
    (Function.update s.m_ctx oucp (.saved s.executing) f).owner = f := by
  by_cases same : f = oucp
  · rw [same,Function.update_self]
    rcases holder with here | thread
    · exact here.symm
    · exact absurd (same.trans thread) other
  · rw [Function.update_of_ne same]
    exact tracks.own f other

theorem saved_entered (tracks : Tracks c s) (f : Fiber) (other : f ≠ .main) (holder : oucp = s.executing ∨ oucp = .main) :
    Function.update s.m_ctx oucp (.saved s.executing) f = .entry f ∨ s.cur f = f := by
  by_cases same : f = oucp
  · rcases holder with here | thread
    · refine .inr ?_
      rw [same.trans here]
      exact tracks.running fun executing => other (same.trans (here.trans executing))
    · exact absurd (same.trans thread) other
  · rw [Function.update_of_ne same]
    exact tracks.entered f other

-- The state behind the switch to a fiber that is resumed.
structure Entered (s : State) (oucp f : Fiber) (u : State) : Prop where
  t_fiber : u.t_fiber = f
  executing : u.executing = f
  ctx : u.m_ctx = Function.update s.m_ctx oucp (.saved s.executing)
  own : ∀ g, g ≠ .main → (u.m_ctx g).owner = g
  entered : ∀ g, g ≠ .main → u.m_ctx g = .entry g ∨ u.cur g = g
  running : u.cur f = f

-- `MainFunc` finds its fiber in `t_fiber`.
theorem entering (tracks : Tracks c s) (other : f ≠ .main) (holder : oucp = s.executing ∨ oucp = .main) :
    Entered s oucp f (({s with t_fiber := f}.become f .running).swapcontext oucp f) := by
  have own : ∀ g, g ≠ .main → (Function.update s.m_ctx oucp (.saved s.executing) g).owner = g :=
    fun g apart => saved_own tracks g apart holder
  have entered : ∀ g, g ≠ .main → Function.update s.m_ctx oucp (.saved s.executing) g = .entry g ∨ s.cur g = g :=
    fun g apart => saved_entered tracks g apart holder
  have ctx : (({s with t_fiber := f}.become f .running).swapcontext oucp f).m_ctx =
      Function.update s.m_ctx oucp (.saved s.executing) := swap_ctx
  have cur : ∀ g, (({s with t_fiber := f}.become f .running).swapcontext oucp f).cur g =
      if Function.update s.m_ctx oucp (.saved s.executing) f = .entry g then f else s.cur g := fun g => swap_cur g
  have fresh : (({s with t_fiber := f}.become f .running).swapcontext oucp f).cur f = f := by
    rw [cur]
    split
    · rfl
    · rename_i resumed
      exact (entered f other).resolve_left resumed
  refine ⟨swap_t_fiber,swap_executing.trans (own f other),ctx,?_,?_,fresh⟩
  · intro g apart
    rw [ctx]
    exact own g apart
  · intro g apart
    by_cases same : g = f
    · rw [same]
      exact .inr fresh
    · rw [ctx,cur]
      refine (entered g apart).imp_right fun known => ?_
      rw [if_neg fun entry => same ?_]
      · exact known
      · have owner := own f other
        rw [entry] at owner
        exact owner

theorem Entered.tracks {u : State} (parts : Entered s oucp f u)
    (back : f = .root ∨ c.useCaller = false → (u.m_ctx .main).owner = .main)
    (lost : ∀ i, c.useCaller = true → f = .task i → c.taskInScheduler i = false → (u.m_ctx .main).owner = .root) :
    Tracks c u := by
  refine ⟨parts.t_fiber.trans parts.executing.symm,parts.own,parts.entered,fun _ => ?_,fun away => back ?_,?_⟩
  · rw [parts.executing]
    exact parts.running
  · rw [parts.executing] at away
    exact away.imp_right And.left
  · rw [parts.executing]
    exact lost

theorem resumer_root (called : c.resumer .root = some f) : f = .main := by
  unfold Setting.resumer at called
  dsimp only at called
  split at called
  · exact (Option.some.inj called).symm
  · cases called

theorem resume_tracks (tracks : Tracks c s) (called : c.resumer f = some s.executing) : Tracks c (s.resume c f) := by
  cases f with
  | main => cases called
  | root =>
      have caller := resumer_root called
      have parts : Entered s .main .root (s.resume c .root) := entering tracks (by decide) (.inr rfl)
      refine parts.tracks (fun _ => ?_) fun i _ task => by cases task
      rw [parts.ctx,Function.update_self]
      exact caller
  | task i =>
      have caller : c.t_scheduler_fiber = s.executing := Option.some.inj called
      by_cases scheduled : c.taskInScheduler i = true
      · have parts : Entered s c.t_scheduler_fiber (.task i) (s.resume c (.task i)) := by
          unfold State.resume Setting.m_runInScheduler
          dsimp only
          rw [if_pos scheduled]
          exact entering tracks (by simp) (.inl caller)
        refine parts.tracks (fun away => ?_) fun j _ same outside => ?_
        · rcases away with root | thread
          · cases root
          · have main := scheduler_main thread
            rw [parts.ctx,main,Function.update_self]
            exact caller.symm.trans main
        · cases same
          rw [scheduled] at outside
          cases outside
      · have parts : Entered s .main (.task i) (s.resume c (.task i)) := by
          unfold State.resume Setting.m_runInScheduler
          dsimp only
          rw [if_neg scheduled]
          exact entering tracks (by simp) (.inr rfl)
        have left : (s.resume c (.task i)).m_ctx .main = .saved c.t_scheduler_fiber := by
          rw [parts.ctx,Function.update_self,caller]
        refine parts.tracks (fun away => ?_) fun _ caller _ _ => ?_
        · rcases away with root | thread
          · cases root
          · rw [left,scheduler_main thread]
            rfl
        · rw [left,scheduler_root caller]
          rfl

-- The fiber whose context `yield` switches to.
def Setting.target (c : Setting) (f : Fiber) : Fiber := if c.m_runInScheduler f then c.t_scheduler_fiber else .main

theorem yield_parts (s : State) (c : Setting) (f : Fiber) : (s.yield c f).t_fiber = .main ∧
    (s.yield c f).m_ctx = Function.update s.m_ctx f (.saved s.executing) ∧
    (s.yield c f).executing = (Function.update s.m_ctx f (.saved s.executing) (c.target f)).owner ∧
    ∀ g, (s.yield c f).cur g =
      if Function.update s.m_ctx f (.saved s.executing) (c.target f) = .entry g then .main else s.cur g := by
  have shape : ∃ r : State, s.yield c f = r.swapcontext f (c.target f) ∧ r.t_fiber = .main ∧ r.m_ctx = s.m_ctx ∧
      r.executing = s.executing ∧ r.cur = s.cur := by
    refine ⟨if s.m_state f ≠ .term then {s with t_fiber := .main}.become f .ready
      else {s with t_fiber := .main},?_,?_⟩
    · unfold State.yield Setting.target
      dsimp only
      split <;> rfl
    · split <;> exact ⟨rfl,rfl,rfl,rfl⟩
  obtain ⟨r,same,thread,ctx,executing,cur⟩ := shape
  rw [same,swap_t_fiber,swap_ctx,swap_executing,ctx,executing]
  refine ⟨thread,rfl,rfl,fun g => ?_⟩
  rw [swap_cur,ctx,executing,thread,cur]

theorem target_main (returns : c.Returns f) : c.target f = .main := by
  unfold Setting.target
  rcases returns with thread | rfl | ⟨rfl,outside⟩
  · rw [scheduler_main thread]
    split <;> rfl
  · rfl
  · rw [if_neg]
    exact fun scheduled => absurd (outside.symm.trans scheduled) Bool.false_ne_true

theorem yield_tracks (tracks : Tracks c s) (here : f = s.executing) (returns : c.Returns f) : Tracks c (s.yield c f) := by
  obtain ⟨thread,ctx,executing,cur⟩ := yield_parts s c f
  rw [target_main returns] at executing cur
  have owner : (Function.update s.m_ctx f (.saved s.executing) .main).owner = .main := by
    by_cases main : f = .main
    · rw [main,Function.update_self]
      exact here.symm.trans main
    · rw [Function.update_of_ne (Ne.symm main)]
      refine tracks.back ?_
      rcases returns with caller | root | ⟨same,_⟩
      · exact .inr ⟨caller,here ▸ main⟩
      · exact .inl (here.symm.trans root)
      · exact absurd same main
  have stopped := executing.trans owner
  refine ⟨thread.trans stopped.symm,?_,?_,fun away => absurd stopped away,?_,?_⟩
  · intro g other
    rw [ctx]
    exact saved_own tracks g other (.inl here)
  · intro g other
    rw [ctx,cur,if_neg]
    · exact saved_entered tracks g other (.inl here)
    · intro entry
      rw [entry] at owner
      exact other owner
  · rintro (root | ⟨_,away⟩)
    · rw [stopped] at root
      cases root
    · exact absurd stopped away
  · intro i _ task
    rw [stopped] at task
    cases task

-- With `use_caller` a task goes back to the context of `m_rootFiber`, either
-- through `t_scheduler_fiber` or because that context stands in for the thread's.
theorem yield_astray (tracks : Tracks c s) (here : f = s.executing) (astray : ¬c.Returns f) :
    (s.yield c f).executing = .root := by
  obtain ⟨_,_,executing,_⟩ := yield_parts s c f
  rw [executing]
  have caller : c.useCaller = true := Bool.not_eq_false _ ▸ fun thread => astray (.inl thread)
  have apart : f ≠ .root := fun root => astray (.inr (.inl root))
  by_cases scheduled : c.m_runInScheduler f = true
  · unfold Setting.target
    rw [if_pos scheduled,scheduler_root caller,Function.update_of_ne (Ne.symm apart)]
    exact tracks.own .root (by decide)
  · unfold Setting.target
    rw [if_neg scheduled]
    cases f with
    | root => exact absurd rfl apart
    | main => exact absurd (.inr (.inr ⟨rfl,Bool.eq_false_iff.mpr scheduled⟩)) astray
    | task i =>
        rw [Function.update_of_ne (by simp)]
        exact tracks.lost i caller here.symm (Bool.eq_false_iff.mpr scheduled)

theorem mayYield_here (tracks : Tracks c s) (may : s.mayYield f = true) : f = s.executing := by
  have choice := (of_decide_eq_true may).1
  rcases choice with current | here
  · exact current.trans tracks.current
  · exact here

theorem finish_step (tracks : Tracks c s) (away : s.executing ≠ .main) :
    next c s .finish = some ((s.become s.executing .term).yield c s.executing) := by
  have own := tracks.running away
  unfold next
  dsimp only
  split
  · rename_i main
    exact absurd main away
  · rw [own]

theorem reset_tracks (tracks : Tracks c s) (i : Nat) :
    Tracks c {s.become (.task i) .ready with m_ctx := Function.update s.m_ctx (.task i) (.entry (.task i))} := by
  have thread : Function.update s.m_ctx (.task i) (.entry (.task i)) .main = s.m_ctx .main :=
    Function.update_of_ne (by simp) _ _
  refine ⟨tracks.current,?_,?_,tracks.running,?_,?_⟩
  · intro g other
    by_cases same : g = .task i
    · rw [same]
      exact congrArg Context.owner (Function.update_self (.task i) _ s.m_ctx)
    · exact (congrArg Context.owner (Function.update_of_ne same _ s.m_ctx)).trans (tracks.own g other)
  · intro g other
    by_cases same : g = .task i
    · rw [same]
      exact .inl (Function.update_self (.task i) _ s.m_ctx)
    · exact (tracks.entered g other).imp_left (Function.update_of_ne same _ s.m_ctx).trans
  · intro away
    exact (congrArg Context.owner thread).trans (tracks.back away)
  · intro j caller task outside
    exact (congrArg Context.owner thread).trans (tracks.lost j caller task outside)

theorem next_tracks {t : State} {a : Action} (tracks : Tracks c s) (lawful : Lawful c s a) (moved : next c s a = some t) :
    Tracks c t := by
  cases a with
  | resume f =>
      obtain ⟨enabled,same⟩ := Option.ite_none_right_eq_some.mp moved
      cases same
      exact resume_tracks tracks enabled.1
  | yield f =>
      obtain ⟨may,same⟩ := Option.ite_none_right_eq_some.mp moved
      cases same
      exact yield_tracks tracks (mayYield_here tracks may) (lawful may)
  | finish =>
      have away : s.executing ≠ .main := by
        intro main
        unfold next at moved
        dsimp only at moved
        rw [main] at moved
        cases moved
      rw [finish_step tracks away] at moved
      cases moved
      exact yield_tracks (become_tracks tracks _ _) rfl (lawful away)
  | reset f =>
      cases f with
      | main => cases moved
      | root => cases moved
      | task i =>
          obtain ⟨_,same⟩ := Option.ite_none_right_eq_some.mp moved
          cases same
          exact reset_tracks tracks i

theorem astray_not_current (tracks : Tracks c s) (here : f = s.executing) (astray : ¬c.Returns f) :
    ¬Current (s.yield c f) := by
  intro current
  have same := (yield_parts s c f).1.symm.trans (current.trans (yield_astray tracks here astray))
  cases same

theorem lawful_sharp (tracks : Tracks c s) (a : Action) (after : ∀ t, next c s a = some t → Current t) :
    Lawful c s a := by
  cases a with
  | resume f => trivial
  | reset f => trivial
  | yield f =>
      intro may
      by_contra astray
      exact astray_not_current tracks (mayYield_here tracks may) astray (after _ (if_pos may))
  | finish =>
      intro away
      by_contra astray
      exact astray_not_current (become_tracks tracks _ _) rfl astray (after _ (finish_step tracks away))

end Steps

theorem current_exactly (c : Setting) (actions : List Action) :
    Throughout (next c) Current .initial actions ↔ Along (next c) (Lawful c) .initial actions :=
  throughout_exactly (initial_tracks c) (fun _ tracks => tracks.current)
    (fun _ _ _ tracks lawful moved => next_tracks tracks lawful moved) fun _ a tracks => lawful_sharp tracks a

-- The caller's thread: `m_rootFiber` runs the scheduler, and the idle fiber yields to it.
theorem root_forgotten : ¬∀ (c : Setting) (actions : List Action), Throughout (next c) Current .initial actions := by
  intro always
  have last := Throughout.reached [.resume .root,.resume (.task 0),.yield (.task 0)] [] rfl
    (always ⟨true,false,fun _ => true⟩ _)
  exact absurd (show Fiber.main = .root from last) (by decide)

end Fishjoy.FiberCurrent
