import Fishjoy.Foundation.Transition
import Mathlib.Algebra.BigOperators.Group.Finset.Basic
import Mathlib.Data.Fintype.Basic
import Mathlib.Logic.Hydra
import Mathlib.Tactic.Abel

namespace LockPrograms
open Transition

-- A lock that is held, alone or with others that hold it so.
structure Guard (Lock : Type) where
  lock : Lock
  sharing : Bool
  deriving DecidableEq

-- What threads do under locks. A piece of work may put further operations in its
-- place.
inductive Op (Lock Work : Type) where
  | acquire (g : Guard Lock)
  | release (m : Lock)
  | work (w : Work)

-- `guards` are those of a thread, the last one first.
structure State (Thread Lock Work S : Type) where
  shared : S
  guards : Thread → List (Guard Lock)
  todo : Thread → List (Op Lock Work)

inductive Action (Thread Call : Type) where
  | call (t : Thread) (c : Call)
  | step (t : Thread)

def Guard.Beside {Lock : Type} (g h : Guard Lock) : Prop := g.lock = h.lock → g.sharing = true ∧ h.sharing = true

instance {Lock : Type} [DecidableEq Lock] (g h : Guard Lock) : Decidable (g.Beside h) :=
  inferInstanceAs (Decidable (_ → _))

section System
variable {Thread Lock Work S Call : Type} [DecidableEq Thread] [DecidableEq Lock] [Fintype Thread]

def State.goto (s : State Thread Lock Work S) (t : Thread) (ops : List (Op Lock Work)) : State Thread Lock Work S :=
  {s with todo := Function.update s.todo t ops}

def step (perform : S → Work → S × List (Op Lock Work)) (s : State Thread Lock Work S) (t : Thread) :
    Option (State Thread Lock Work S) :=
  match s.todo t with
  | [] => none
  | .acquire g :: rest =>
    if ∀ u, ∀ h ∈ s.guards u, g.Beside h then
      some ({s with guards := Function.update s.guards t (g :: s.guards t)}.goto t rest)
    else none
  | .release m :: rest =>
    some ({s with guards := Function.update s.guards t ((s.guards t).eraseP fun g => g.lock = m)}.goto t rest)
  | .work w :: rest => some ({s with shared := (perform s.shared w).1}.goto t ((perform s.shared w).2 ++ rest))

def next (perform : S → Work → S × List (Op Lock Work)) (script : Call → List (Op Lock Work))
    (s : State Thread Lock Work S) : Action Thread Call → Option (State Thread Lock Work S)
  | .call t c =>
    match s.todo t with
    | [] => some (s.goto t (script c))
    | _ => none
  | .step t => step perform s t

def Start (s : State Thread Lock Work S) : Prop := ∀ t, s.guards t = [] ∧ s.todo t = []

end System

section Discipline
variable {Lock Work S Call : Type} {rank : Lock → Nat}
  {may : List (Guard Lock) → Work → List (Guard Lock) → Prop}

-- Operations that take locks in the order of their ranks, give them back in turn, and
-- work only where they may, from the locks held before to those held behind. A piece of
-- work may itself give back what it was given.
def Leads (rank : Lock → Nat) (may : List (Guard Lock) → Work → List (Guard Lock) → Prop) :
    List (Guard Lock) → List (Op Lock Work) → List (Guard Lock) → Prop
  | held,[],after => held = after
  | held,.acquire g :: rest,after => (∀ h ∈ held, rank h.lock < rank g.lock) ∧ Leads rank may (g :: held) rest after
  | held,.release m :: rest,after => ∃ sharing others, held = ⟨m,sharing⟩ :: others ∧ Leads rank may others rest after
  | held,.work w :: rest,after => ∃ middle, may held w middle ∧ Leads rank may middle rest after

theorem Leads.append {held middle after : List (Guard Lock)} {first second : List (Op Lock Work)}
    (one : Leads rank may held first middle) (two : Leads rank may middle second after) :
    Leads rank may held (first ++ second) after := by
  induction first generalizing held with
  | nil =>
      cases one
      exact two
  | cons op rest ih =>
      cases op with
      | acquire g => exact ⟨one.1,ih one.2⟩
      | release m =>
          obtain ⟨sharing,others,same,one⟩ := one
          exact ⟨sharing,others,same,ih one⟩
      | work w =>
          obtain ⟨middle,allowed,one⟩ := one
          exact ⟨middle,allowed,ih one⟩

-- A loop whose rounds give back what they take.
theorem Leads.flatMap {α : Type} {held : List (Guard Lock)} (items : List α) (round : α → List (Op Lock Work))
    (each : ∀ i ∈ items, Leads rank may held (round i) held) : Leads rank may held (items.flatMap round) held := by
  induction items with
  | nil => rfl
  | cons i rest ih =>
      rw [List.flatMap_cons]
      exact (each i (.head _)).append (ih fun i member => each i (.tail _ member))

theorem Leads.works {α : Type} {held : List (Guard Lock)} (items : List α) (w : α → Work)
    (each : ∀ i ∈ items, may held (w i) held) : Leads rank may held (items.map fun i => .work (w i)) held := by
  induction items with
  | nil => rfl
  | cons i rest ih => exact ⟨held,each i (.head _),ih fun i member => each i (.tail _ member)⟩

theorem Leads.mono {may' : List (Guard Lock) → Work → List (Guard Lock) → Prop}
    (weaker : ∀ held w after, may held w after → may' held w after) {held after : List (Guard Lock)}
    {ops : List (Op Lock Work)} (leads : Leads rank may held ops after) : Leads rank may' held ops after := by
  induction ops generalizing held with
  | nil => exact leads
  | cons op rest ih =>
      cases op with
      | acquire g => exact ⟨leads.1,ih leads.2⟩
      | release m =>
          obtain ⟨sharing,others,same,later⟩ := leads
          exact ⟨sharing,others,same,ih later⟩
      | work w =>
          obtain ⟨middle,allowed,later⟩ := leads
          exact ⟨middle,weaker _ _ _ allowed,ih later⟩

theorem Leads.work {held after : List (Guard Lock)} {ops : List (Op Lock Work)} {w : Work}
    (leads : Leads rank may held ops after) (member : .work w ∈ ops) : ∃ before behind, may before w behind := by
  induction ops generalizing held with
  | nil => cases member
  | cons op rest ih =>
      cases op with
      | acquire g => exact ih leads.2 ((List.mem_cons.mp member).resolve_left nofun)
      | release m =>
          obtain ⟨_,_,_,later⟩ := leads
          exact ih later ((List.mem_cons.mp member).resolve_left nofun)
      | work v =>
          obtain ⟨middle,allowed,later⟩ := leads
          rcases List.mem_cons.mp member with same | member
          · cases same
            exact ⟨held,middle,allowed⟩
          · exact ih later member

-- Work that may be done and is nearer to its end than `n`.
def Within (may : List (Guard Lock) → Work → List (Guard Lock) → Prop) (level : Work → Nat) (n : Nat)
    (held : List (Guard Lock)) (w : Work) (after : List (Guard Lock)) : Prop :=
  level w < n ∧ may held w after

-- What makes programs free of deadlocks, whatever they share.
structure Discipline (perform : S → Work → S × List (Op Lock Work)) (script : Call → List (Op Lock Work)) where
  rank : Lock → Nat
  bound : Nat
  bounded : ∀ m, rank m ≤ bound
  may : List (Guard Lock) → Work → List (Guard Lock) → Prop
  level : Work → Nat
  expands : ∀ shared held w after, may held w after →
    Leads rank (Within may level (level w)) held (perform shared w).2 after
  calls : ∀ c, Leads rank may [] (script c) []

end Discipline

section Runs
variable {Thread Lock Work S Call : Type} [DecidableEq Thread] [DecidableEq Lock] [Fintype Thread]
  {perform : S → Work → S × List (Op Lock Work)} {script : Call → List (Op Lock Work)}
  (d : Discipline perform script) {s s' : State Thread Lock Work S} {t : Thread}

structure Safe (s : State Thread Lock Work S) : Prop where
  leads : ∀ t, Leads d.rank d.may (s.guards t) (s.todo t) []
  exclusive : ∀ t u g h, g ∈ s.guards t → h ∈ s.guards u → t ≠ u → g.Beside h

variable {d}

omit [DecidableEq Lock] [Fintype Thread] in
theorem goto_leads (safe : Safe d s) (guards : List (Guard Lock)) {ops : List (Op Lock Work)}
    (leads : Leads d.rank d.may guards ops []) (u : Thread) :
    Leads d.rank d.may (Function.update s.guards t guards u) (Function.update s.todo t ops u) [] := by
  by_cases same : u = t
  · subst same
    rwa [Function.update_self,Function.update_self]
  · rw [Function.update_of_ne same,Function.update_of_ne same]
    exact safe.leads u

theorem step_safe (safe : Safe d s) (moved : step perform s t = some s') : Safe d s' := by
  have mine := safe.leads t
  unfold step at moved
  cases ahead : s.todo t with
  | nil =>
      rw [ahead] at moved
      cases moved
  | cons op rest =>
      rw [ahead] at moved mine
      cases op with
      | acquire g =>
          dsimp only at moved
          split at moved
          · rename_i free
            cases moved
            refine ⟨goto_leads safe _ mine.2,fun u v a b first second apart => ?_⟩
            have held : ∀ w l, l ∈ Function.update s.guards t (g :: s.guards t) w → w = t ∧ l = g ∨ l ∈ s.guards w := by
              intro w l member
              by_cases same : w = t
              · subst same
                rw [Function.update_self] at member
                exact (List.mem_cons.mp member).imp (fun new => ⟨rfl,new⟩) id
              · rw [Function.update_of_ne same] at member
                exact .inr member
            rcases held u a first with ⟨rfl,rfl⟩ | old
            · rcases held v b second with ⟨rfl,_⟩ | other
              · exact absurd rfl apart
              · exact free v b other
            · rcases held v b second with ⟨rfl,rfl⟩ | other
              · exact fun same => (free u a old same.symm).symm
              · exact safe.exclusive u v a b old other apart
          · cases moved
      | release m =>
          cases moved
          obtain ⟨sharing,others,held,later⟩ := mine
          have left : ((s.guards t).eraseP fun g => g.lock = m) = others := by
            rw [held]
            exact List.eraseP_cons_of_pos (decide_eq_true rfl)
          refine ⟨goto_leads safe _ (by rw [left]; exact later),fun u v a b first second => ?_⟩
          have before : ∀ w l, l ∈ Function.update s.guards t ((s.guards t).eraseP fun g => g.lock = m) w →
              l ∈ s.guards w := by
            intro w l member
            by_cases same : w = t
            · subst same
              rw [Function.update_self] at member
              exact List.mem_of_mem_eraseP member
            · rwa [Function.update_of_ne same] at member
          exact safe.exclusive u v a b (before u a first) (before v b second)
      | work w =>
          cases moved
          refine ⟨fun u => ?_,safe.exclusive⟩
          obtain ⟨middle,allowed,later⟩ := mine
          have expanded := (d.expands s.shared _ w middle allowed).mono fun _ _ _ => And.right
          have all := goto_leads (t := t) safe _ (expanded.append later) u
          rwa [Function.update_eq_self] at all

theorem next_safe (safe : Safe d s) {a : Action Thread Call} (moved : next perform script s a = some s') : Safe d s' := by
  cases a with
  | step t => exact step_safe safe moved
  | call t c =>
      unfold next at moved
      dsimp only at moved
      split at moved
      · rename_i idle
        cases moved
        refine ⟨fun u => ?_,safe.exclusive⟩
        have none : s.guards t = [] := by
          have mine := safe.leads t
          rw [idle] at mine
          exact mine
        have all := goto_leads (t := t) safe (s.guards t) (by rw [none]; exact d.calls c) u
        rwa [Function.update_eq_self] at all
      · cases moved

theorem reached_safe (d : Discipline perform script) (path : Reached (next perform script) anyStep Start s) :
    Safe d s := by
  refine path.invariant (fun s start => ⟨fun t => ?_,fun t u g h member => ?_⟩)
    fun _ _ _ safe _ moved => next_safe safe moved
  · rw [(start t).1,(start t).2]
    rfl
  · rw [(start t).1] at member
    cases member

omit [DecidableEq Thread] [DecidableEq Lock] [Fintype Thread] in
-- A thread gives its locks back before it is done.
theorem Safe.busy (safe : Safe d s) {g : Guard Lock} (held : g ∈ s.guards t) : s.todo t ≠ [] := by
  intro idle
  have mine := safe.leads t
  rw [idle] at mine
  rw [show s.guards t = [] from mine] at held
  cases held

-- A thread that cannot move waits for a lock that ranks above all it holds.
theorem step_or_waits (safe : Safe d s) (busy : s.todo t ≠ []) : (∃ s', step perform s t = some s') ∨
    ∃ v, ∃ g ∈ s.guards v, ∀ h ∈ s.guards t, d.rank h.lock < d.rank g.lock := by
  have mine := safe.leads t
  unfold step
  cases ahead : s.todo t with
  | nil => exact absurd ahead busy
  | cons op rest =>
      rw [ahead] at mine
      cases op with
      | acquire g =>
          by_cases free : ∀ u, ∀ h ∈ s.guards u, g.Beside h
          · exact .inl ⟨_,if_pos free⟩
          · obtain ⟨v,taken⟩ := not_forall.mp free
            obtain ⟨h,taken⟩ := not_forall.mp taken
            obtain ⟨held,clash⟩ := Classical.not_imp.mp taken
            have same := (Classical.not_imp.mp clash).1
            exact .inr ⟨v,h,held,fun l member => same ▸ mine.1 l member⟩
      | release m | work w => exact .inl ⟨_,rfl⟩

-- Who is waited for waits for a higher lock, and there is a highest one.
theorem holder_moves (safe : Safe d s) (n : Nat) {g : Guard Lock} (held : g ∈ s.guards t)
    (room : d.bound ≤ d.rank g.lock+n) : ∃ u s', step perform s u = some s' := by
  induction n generalizing t g with
  | zero =>
      rcases step_or_waits safe (safe.busy held) with ⟨s',moved⟩ | ⟨_,l,_,above⟩
      · exact ⟨t,s',moved⟩
      · exact absurd (d.bounded l.lock) (Nat.not_le_of_lt (Nat.lt_of_le_of_lt room (above g held)))
  | succ n ih =>
      rcases step_or_waits safe (safe.busy held) with ⟨s',moved⟩ | ⟨v,l,other,above⟩
      · exact ⟨t,s',moved⟩
      · have higher := above g held
        exact ih other (by omega)

theorem progress (safe : Safe d s) (busy : s.todo t ≠ []) : ∃ u s', step perform s u = some s' := by
  rcases step_or_waits safe busy with ⟨s',moved⟩ | ⟨v,g,held,_⟩
  · exact ⟨t,s',moved⟩
  · exact holder_moves safe d.bound held (Nat.le_add_left _ _)

variable (d) in
def weight : Op Lock Work → Nat
  | .work w => d.level w+1
  | _ => 0

variable (d) in
-- What is left to do.
def left (s : State Thread Lock Work S) : Multiset Nat :=
  Finset.univ.sum fun t => ((s.todo t).map (weight d) : Multiset Nat)

omit [DecidableEq Lock] in
theorem left_goto (more : List (Op Lock Work)) {op : Op Lock Work} {rest : List (Op Lock Work)}
    (ahead : s.todo t = op :: rest) (todo : s'.todo = Function.update s.todo t (more ++ rest))
    (lower : ∀ o ∈ more, weight d o < weight d op) :
    Relation.CutExpand (· < ·) (left d s') (left d s) := by
  refine ⟨(more.map (weight d) : Multiset Nat),weight d op,?_,?_⟩
  · intro n member
    obtain ⟨o,inside,rfl⟩ := List.mem_map.mp (Multiset.mem_coe.mp member)
    exact lower o inside
  · have others : (Finset.univ.erase t).sum (fun u => ((s'.todo u).map (weight d) : Multiset Nat)) =
        (Finset.univ.erase t).sum fun u => ((s.todo u).map (weight d) : Multiset Nat) := by
      refine Finset.sum_congr rfl fun u member => ?_
      rw [todo,Function.update_of_ne (Finset.ne_of_mem_erase member)]
    unfold left
    rw [←Finset.add_sum_erase _ _ (Finset.mem_univ t),←Finset.add_sum_erase _ _ (Finset.mem_univ t),others,todo,
      Function.update_self,ahead,List.map_append,List.map_cons,←Multiset.coe_add,←Multiset.cons_coe,
      ←Multiset.singleton_add]
    abel

theorem step_left (safe : Safe d s) (moved : step perform s t = some s') :
    Relation.CutExpand (· < ·) (left d s') (left d s) := by
  have mine := safe.leads t
  unfold step at moved
  cases ahead : s.todo t with
  | nil =>
      rw [ahead] at moved
      cases moved
  | cons op rest =>
      rw [ahead] at moved mine
      cases op with
      | acquire m =>
          dsimp only at moved
          split at moved
          · cases moved
            exact left_goto [] ahead rfl nofun
          · cases moved
      | release m =>
          cases moved
          exact left_goto [] ahead rfl nofun
      | work w =>
          cases moved
          obtain ⟨middle,allowed,_⟩ := mine
          refine left_goto _ ahead rfl fun o member => ?_
          cases o with
          | acquire m | release m => exact Nat.succ_pos _
          | work v =>
              obtain ⟨_,_,lower,_⟩ := (d.expands s.shared _ w middle allowed).work member
              exact Nat.succ_lt_succ lower

-- Without new calls every run comes to its end, whatever the order of the steps.
theorem steps_end (safe : Safe d s) : Acc (fun s' s => ∃ t, step perform s t = some s') s := by
  induction (InvImage.wf (left d) Nat.lt_wfRel.wf.cutExpand).apply s with
  | intro s _ ih => exact ⟨s,fun s' ⟨_,moved⟩ => ih s' (step_left safe moved) (step_safe safe moved)⟩

end Runs
end LockPrograms
