import Mathlib.Data.List.Basic
import Mathlib.Data.List.Induction

namespace Deferred

-- A cell that is filled from `source` when it is first loaded, unless it holds
-- a value by then.
structure Cell (ν : Type) where
  loaded : Bool
  content : Option ν

inductive Action (ν : Type) where
  | load
  | put (v : ν)
  | drop
  | other

variable {ν : Type} {source : Option ν} {actions : List (Action ν)} {cell : Cell ν}

def Action.keeps : Action ν → Bool
  | .load | .other => true
  | .put _ | .drop => false

def step (source : Option ν) (cell : Cell ν) : Action ν → Cell ν
  | .load => ⟨true,if cell.loaded then cell.content else cell.content.or source⟩
  | .put v => ⟨cell.loaded,some v⟩
  | .drop => ⟨cell.loaded,none⟩
  | .other => cell

def run (source : Option ν) (cell : Cell ν) (actions : List (Action ν)) : Cell ν := actions.foldl (step source) cell

-- The content that a load shows.
def Cell.shown (source : Option ν) (cell : Cell ν) : Option ν := (step source cell .load).content

-- The cell is emptied before it is loaded, and not written or emptied again.
def Dropped (actions : List (Action ν)) : Prop :=
  ∃ before between, actions = before ++ .drop :: between ∧ Action.load ∉ before ∧ ∀ a ∈ between, a.keeps

theorem run_snoc (a : Action ν) : run source cell (actions ++ [a]) = step source (run source cell actions) a := by
  simp [run]

theorem run_append (before after : List (Action ν)) :
    run source cell (before ++ after) = run source (run source cell before) after :=
  List.foldl_append

theorem run_unloaded (never : Action.load ∉ actions) : (run source cell actions).loaded = cell.loaded := by
  induction actions using List.reverseRecOn with
  | nil => rfl
  | append_singleton rest a ih =>
      have before := ih fun among => never (List.mem_append_left _ among)
      rw [run_snoc]
      cases a with
      | load => exact absurd (List.mem_append_right rest (.head _)) never
      | put v => exact before
      | drop => exact before
      | other => exact before

theorem run_loaded (reason : cell.loaded = true ∨ Action.load ∈ actions) : (run source cell actions).loaded = true := by
  induction actions using List.reverseRecOn with
  | nil => exact reason.resolve_right List.not_mem_nil
  | append_singleton rest a ih =>
      rw [run_snoc]
      cases a with
      | load => rfl
      | put v => exact ih (by simpa using reason)
      | drop => exact ih (by simpa using reason)
      | other => exact ih (by simpa using reason)

theorem shown_load (cell : Cell ν) : (step source cell .load).shown source = cell.shown source := rfl

theorem shown_put (cell : Cell ν) (v : ν) : (step source cell (.put v)).shown source = some v := by
  cases loaded : cell.loaded <;> simp [Cell.shown,step,loaded]

theorem shown_drop (loaded : cell.loaded = true) : (step source cell .drop).shown source = none := by
  simp [Cell.shown,step,loaded]

-- A loaded cell that is not touched stays as it is.
theorem run_still (kept : ∀ a ∈ actions, a.keeps) (content : Option ν) :
    run source ⟨true,content⟩ actions = ⟨true,content⟩ := by
  induction actions with
  | nil => rfl
  | cons a rest ih =>
      have later := ih fun b member => kept b (.tail _ member)
      have here := kept a (.head _)
      cases a with
      | load => exact later
      | put v => cases here
      | drop => cases here
      | other => exact later

-- An emptied cell that is not touched shows its source, which is loaded now or
-- on the way.
theorem run_empty (kept : ∀ a ∈ actions, a.keeps) : (run source ⟨false,none⟩ actions).shown source = source := by
  induction actions with
  | nil => rfl
  | cons a rest ih =>
      have later := ih fun b member => kept b (.tail _ member)
      have here := kept a (.head _)
      cases a with
      | load =>
          have loaded : run source ⟨false,none⟩ (.load :: rest) = run source ⟨true,source⟩ rest := rfl
          rw [loaded,run_still fun b member => kept b (.tail _ member)]
          rfl
      | put v => cases here
      | drop => cases here
      | other => exact later

theorem Dropped.snoc (dropped : Dropped actions) (kept : a.keeps = true) : Dropped (actions ++ [a]) := by
  obtain ⟨before,between,rfl,never,quiet⟩ := dropped
  refine ⟨before,between ++ [a],by simp,never,?_⟩
  intro b member
  rcases List.mem_append.mp member with old | new
  · exact quiet b old
  · rw [List.mem_singleton.mp new]
    exact kept

-- A cell that is loaded late shows what one that was loaded at the start shows,
-- but for a drop before the first load.
theorem shown_agrees (content : Option ν) (actions : List (Action ν)) : Dropped actions ∨
    (run source ⟨false,content⟩ actions).shown source = (run source ⟨true,content.or source⟩ actions).shown source := by
  induction actions using List.reverseRecOn with
  | nil => exact .inr rfl
  | append_singleton rest a ih =>
      have early : (run source ⟨true,content.or source⟩ rest).loaded = true := run_loaded (.inl rfl)
      rw [run_snoc,run_snoc]
      cases a with
      | load =>
          rw [shown_load,shown_load]
          exact ih.imp_left fun dropped => dropped.snoc rfl
      | put v =>
          right
          rw [shown_put,shown_put]
      | drop =>
          by_cases among : Action.load ∈ rest
          · right
            rw [shown_drop (run_loaded (.inr among)),shown_drop early]
          · exact .inl ⟨rest,[],rfl,among,by simp⟩
      | other => exact ih.imp_left fun dropped => dropped.snoc rfl

-- After such a drop the first shows what there is to load, and the second
-- nothing.
theorem shown_dropped (content : Option ν) (dropped : Dropped actions) :
    (run source ⟨false,content⟩ actions).shown source = source ∧
      (run source ⟨true,content.or source⟩ actions).shown source = none := by
  obtain ⟨before,between,rfl,never,quiet⟩ := dropped
  have late : (run source ⟨false,content⟩ before).loaded = false := run_unloaded never
  have early : (run source ⟨true,content.or source⟩ before).loaded = true := run_loaded (.inl rfl)
  have emptied : ∀ cell : Cell ν, run source cell (.drop :: between) = run source ⟨cell.loaded,none⟩ between :=
    fun _ => rfl
  rw [run_append,run_append,emptied,emptied,late,early,run_still quiet]
  exact ⟨run_empty quiet,rfl⟩

end Deferred
