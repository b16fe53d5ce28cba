import Mathlib.Logic.Basic

namespace Transition

-- A system is given by its enabled successor: `next s a = none` says that
-- action `a` is not enabled in `s`. All nondeterminism is in the action.
variable {S A : Type} {next : S → A → Option S} {allowed law law' : S → A → Prop} {start : S → Prop}

def run (next : S → A → Option S) : S → List A → Option S
  | s,[] => some s
  | s,a :: rest => (next s a).bind (run next · rest)

-- `law` holds of every action of the list at the state where it is taken.
def Along (next : S → A → Option S) (law : S → A → Prop) : S → List A → Prop
  | _,[] => True
  | s,a :: rest => law s a ∧ ∀ t, next s a = some t → Along next law t rest

instance Along.decide [∀ s a, Decidable (law s a)] : (s : S) → (actions : List A) → Decidable (Along next law s actions)
  | _,[] => isTrue trivial
  | s,a :: rest =>
    match moved : next s a with
    | none => decidable_of_iff (law s a)
        ⟨fun holds => ⟨holds,fun t same => by rw [moved] at same; cases same⟩,fun holds => holds.1⟩
    | some t =>
      have := Along.decide t rest
      decidable_of_iff (law s a ∧ Along next law t rest)
        ⟨fun holds => ⟨holds.1,fun u same => by rw [moved] at same; cases same; exact holds.2⟩,
          fun holds => ⟨holds.1,holds.2 t moved⟩⟩

-- `good` holds of every state of the run.
def Throughout (next : S → A → Option S) (good : S → Prop) : S → List A → Prop
  | s,[] => good s
  | s,a :: rest => good s ∧ ∀ t, next s a = some t → Throughout next good t rest

-- Any state of the run and any later one are related.
def Evolves (next : S → A → Option S) (R : S → S → Prop) (s : S) (actions : List A) : Prop :=
  ∀ earlier later rest m t, actions = earlier ++ later ++ rest →
    run next s earlier = some m → run next m later = some t → R m t

inductive Reached (next : S → A → Option S) (allowed : S → A → Prop) (start : S → Prop) : S → Prop where
  | start : start s → Reached next allowed start s
  | step : Reached next allowed start s → allowed s a → next s a = some t → Reached next allowed start t

def anyStep : S → A → Prop := fun _ _ => True

theorem Reached.invariant {P : S → Prop} (path : Reached next allowed start s)
    (initial : ∀ s, start s → P s)
    (keep : ∀ s a t, P s → allowed s a → next s a = some t → P t) : P s := by
  induction path with
  | start begins => exact initial _ begins
  | step _ permitted moved ih => exact keep _ _ _ ih permitted moved

theorem Reached.weaken (path : Reached next allowed start s)
    (wider : ∀ s a, allowed s a → law s a) : Reached next law start s := by
  induction path with
  | start begins => exact .start begins
  | step _ permitted moved ih => exact .step ih (wider _ _ permitted) moved

-- Projection to a system of larger grain: every step is one of its steps or
-- leaves its state unchanged. Its invariants then hold of the finer system.
theorem Reached.project {T B : Type} {next' : T → B → Option T} {start' : T → Prop} (view : S → T)
    (begins : ∀ s, start s → start' (view s))
    (moves : ∀ s a t, allowed s a → next s a = some t →
      view t = view s ∨ ∃ b, next' (view s) b = some (view t))
    (path : Reached next allowed start s) : Reached next' anyStep start' (view s) := by
  induction path with
  | start initial => exact .start (begins _ initial)
  | step _ permitted moved ih =>
      rcases moves _ _ _ permitted moved with same | ⟨b,coarse⟩
      · rw [same]; exact ih
      · exact .step ih trivial coarse

theorem Reached.run (path : Reached next allowed start s) (permitted : Along next allowed s actions)
    (ran : run next s actions = some t) : Reached next allowed start t := by
  induction actions generalizing s with
  | nil => cases ran; exact path
  | cons a rest ih =>
      obtain ⟨middle,first,later⟩ := Option.bind_eq_some_iff.mp ran
      exact ih (.step path permitted.1 first) (permitted.2 middle first) later

theorem run_bind (earlier later : List A) : run next s (earlier ++ later) = (run next s earlier).bind (run next · later) := by
  induction earlier generalizing s with
  | nil => rfl
  | cons a rest ih =>
      rw [List.cons_append,Transition.run,Transition.run,Option.bind_assoc]
      exact Option.bind_congr fun _ _ => ih

theorem run_append (first : run next s earlier = some m) (second : run next m later = some t) :
    run next s (earlier ++ later) = some t := by
  rw [run_bind,first]
  exact second

theorem along_always (always : ∀ s a, law s a) : Along next law s actions := by
  induction actions generalizing s with
  | nil => trivial
  | cons a rest ih => exact ⟨always s a,fun _ _ => ih⟩

theorem along_any : Along next anyStep s actions := along_always fun _ _ => trivial

theorem Along.at (earlier : List A) (a : A) (later : List A) (ran : run next s earlier = some m)
    (holds : Along next law s (earlier ++ a :: later)) : law m a := by
  induction earlier generalizing s with
  | nil => cases ran; exact holds.1
  | cons b rest ih =>
      obtain ⟨middle,moved,tail⟩ := Option.bind_eq_some_iff.mp ran
      exact ih tail (holds.2 middle moved)

-- Two laws that agree wherever the invariant holds agree along every run, if
-- the steps that satisfy the first law keep the invariant.
theorem along_congr {P : S → Prop} (initial : P s)
    (keep : ∀ s a t, P s → allowed s a → law s a → next s a = some t → P t)
    (same : ∀ s a, P s → allowed s a → (law s a ↔ law' s a))
    (permitted : Along next allowed s actions) :
    Along next law s actions ↔ Along next law' s actions := by
  induction actions generalizing s with
  | nil => exact Iff.rfl
  | cons a rest ih =>
      obtain ⟨now,later⟩ := permitted
      constructor
      · rintro ⟨holds,tail⟩
        refine ⟨(same s a initial now).mp holds,?_⟩
        intro t moved
        exact (ih (keep s a t initial now holds moved) (later t moved)).mp (tail t moved)
      · rintro ⟨holds,tail⟩
        have holds := (same s a initial now).mpr holds
        refine ⟨holds,?_⟩
        intro t moved
        exact (ih (keep s a t initial now holds moved) (later t moved)).mpr (tail t moved)

theorem Throughout.first {good : S → Prop} (holds : Throughout next good s actions) : good s := by
  cases actions with
  | nil => exact holds
  | cons a rest => exact holds.1

theorem Throughout.reached {good : S → Prop} (earlier later : List A) (ran : run next s earlier = some m)
    (holds : Throughout next good s (earlier ++ later)) : good m := by
  induction earlier generalizing s with
  | nil => cases ran; exact holds.first
  | cons a rest ih =>
      obtain ⟨middle,moved,tail⟩ := Option.bind_eq_some_iff.mp ran
      exact ih tail (holds.2 middle moved)

-- A property of states that an invariant implies, and that fails as soon as a
-- step leaves the law under which the invariant is kept, in the runs that are
-- allowed.
theorem throughout_exactly_along {P good : S → Prop} (initial : P s) (sound : ∀ s, P s → good s)
    (keep : ∀ s a t, P s → allowed s a → law s a → next s a = some t → P t)
    (sharp : ∀ s a, P s → allowed s a → (∀ t, next s a = some t → good t) → law s a)
    (permitted : Along next allowed s actions) :
    Throughout next good s actions ↔ Along next law s actions := by
  induction actions generalizing s with
  | nil => exact ⟨fun _ => trivial,fun _ => sound s initial⟩
  | cons a rest ih =>
      obtain ⟨now,permitted⟩ := permitted
      constructor
      · rintro ⟨_,later⟩
        have lawful := sharp s a initial now fun t moved => (later t moved).first
        refine ⟨lawful,?_⟩
        intro t moved
        exact (ih (keep s a t initial now lawful moved) (permitted t moved)).mp (later t moved)
      · rintro ⟨lawful,later⟩
        refine ⟨sound s initial,?_⟩
        intro t moved
        exact (ih (keep s a t initial now lawful moved) (permitted t moved)).mpr (later t moved)

theorem throughout_exactly {P good : S → Prop} (initial : P s) (sound : ∀ s, P s → good s)
    (keep : ∀ s a t, P s → law s a → next s a = some t → P t)
    (sharp : ∀ s a, P s → (∀ t, next s a = some t → good t) → law s a) :
    Throughout next good s actions ↔ Along next law s actions :=
  throughout_exactly_along initial sound (fun s a t holds _ => keep s a t holds) (fun s a holds _ => sharp s a holds)
    along_any

theorem Throughout.along {good : S → Prop} (holds : Throughout next good s actions) :
    Along next (fun s _ => good s) s actions := by
  induction actions generalizing s with
  | nil => trivial
  | cons a rest ih => exact ⟨holds.1,fun t moved => ih (holds.2 t moved)⟩

theorem run_evolves {R : S → S → Prop} (refl : ∀ s, R s s) (trans : ∀ s t u, R s t → R t u → R s u)
    (steps : Along next (fun s a => ∀ t, next s a = some t → R s t) s actions)
    (ran : run next s actions = some t) : R s t := by
  induction actions generalizing s with
  | nil => cases ran; exact refl _
  | cons a rest ih =>
      obtain ⟨middle,moved,tail⟩ := Option.bind_eq_some_iff.mp ran
      exact trans _ _ _ (steps.1 middle moved) (ih (steps.2 middle moved) tail)

theorem Along.after {law : S → A → Prop} (earlier later : List A) (ran : run next s earlier = some m)
    (holds : Along next law s (earlier ++ later)) : Along next law m later := by
  induction earlier generalizing s with
  | nil => cases ran; exact holds
  | cons a rest ih =>
      obtain ⟨middle,moved,tail⟩ := Option.bind_eq_some_iff.mp ran
      exact ih tail (holds.2 middle moved)

theorem Along.before {law : S → A → Prop} (earlier later : List A)
    (holds : Along next law s (earlier ++ later)) : Along next law s earlier := by
  induction earlier generalizing s with
  | nil => trivial
  | cons a rest ih => exact ⟨holds.1,fun t moved => ih (holds.2 t moved)⟩

-- For a reflexive and transitive relation the single steps are enough.
theorem evolves_iff {R : S → S → Prop} (refl : ∀ s, R s s) (trans : ∀ s t u, R s t → R t u → R s u) :
    Evolves next R s actions ↔ Along next (fun s a => ∀ t, next s a = some t → R s t) s actions := by
  constructor
  · intro evolves
    induction actions generalizing s with
    | nil => trivial
    | cons a rest ih =>
        constructor
        · intro t moved
          exact evolves [] [a] rest _ t rfl rfl (by simp [run,moved])
        · intro t moved
          apply ih
          intro earlier later more m u whole first second
          exact evolves (a :: earlier) later more m u (by rw [whole]; rfl) (by simpa [run,moved] using first) second
  · rintro steps earlier later rest m t rfl first second
    rw [List.append_assoc] at steps
    exact run_evolves refl trans ((steps.after _ _ first).before _ _) second

theorem throughout_of_along {P good : S → Prop} (initial : P s) (sound : ∀ s, P s → good s)
    (keep : ∀ s a t, P s → law s a → next s a = some t → P t) (lawful : Along next law s actions) :
    Throughout next good s actions := by
  induction actions generalizing s with
  | nil => exact sound s initial
  | cons a rest ih =>
      exact ⟨sound s initial,fun t moved => ih (keep s a t initial lawful.1 moved) (lawful.2 t moved)⟩

end Transition
