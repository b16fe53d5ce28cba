import Mathlib.Algebra.BigOperators.Fin
import Mathlib.Algebra.Order.BigOperators.Group.Finset

namespace Crew

-- How many of `n` parties are in a state that satisfies `p`.
variable {n : Nat} {α : Type} {p : α → Bool} {f : Fin n → α}

def tally (p : α → Bool) (f : Fin n → α) : Nat := Finset.univ.sum fun i => (p (f i)).toNat

theorem tally_eq_zero : tally p f = 0 ↔ ∀ i, p (f i) = false := by
  simp [tally]

theorem update_cases {β : Type} [DecidableEq β] {f : β → α} {i j : β} {v x : α} (at_j : Function.update f i v j = x) :
    (j = i ∧ v = x) ∨ (j ≠ i ∧ f j = x) := by
  by_cases same : j = i
  · subst j
    exact .inl ⟨rfl,by simpa using at_j⟩
  · exact .inr ⟨same,by simpa [same] using at_j⟩

theorem update_all {P : α → Prop} {i : Fin n} {v : α} (rest : ∀ j ≠ i, P (f j)) (here : P v) (j : Fin n) :
    P (Function.update f i v j) := by
  by_cases same : j = i
  · subst j
    rwa [Function.update_self]
  · rw [Function.update_of_ne same]
    exact rest j same

section weights
variable {β : Type} [Fintype β] [DecidableEq β]

def weigh (w : α → Nat) (f : β → α) : Nat := Finset.univ.sum fun i => w (f i)

-- One party moves; the sum changes by what this party contributes.
theorem weigh_update (w : α → Nat) (f : β → α) (i : β) (v : α) :
    weigh w (Function.update f i v)+w (f i) = weigh w f+w v := by
  have moved : (fun j => w (Function.update f i v j)) = Function.update (fun j => w (f j)) i (w v) := by
    funext j
    by_cases same : j = i
    · subst j; simp
    · simp [same]
  have rest := Finset.sum_update_of_mem (Finset.mem_univ i) (fun j => w (f j)) (w v)
  have whole := Finset.sum_eq_add_sum_sdiff_singleton_of_mem (Finset.mem_univ i) fun j => w (f j)
  unfold weigh
  rw [moved,rest,whole]
  omega

omit [DecidableEq β] in
theorem weigh_eq_zero (w : α → Nat) (f : β → α) : weigh w f = 0 ↔ ∀ i, w (f i) = 0 := by
  simp [weigh]

omit [DecidableEq β] in
theorem weigh_le (w : α → Nat) (f : β → α) (i : β) : w (f i) ≤ weigh w f :=
  Finset.single_le_sum (f := fun i => w (f i)) (fun _ _ => Nat.zero_le _) (Finset.mem_univ i)

-- Two parties are part of the sum apart from each other.
theorem weigh_pair (w : α → Nat) (f : β → α) {i j : β} (apart : i ≠ j) : w (f i)+w (f j) ≤ weigh w f := by
  have two := Finset.sum_le_univ_sum_of_nonneg (f := fun i => w (f i)) (s := {i,j}) fun _ => Nat.zero_le _
  rwa [Finset.sum_pair apart] at two

end weights

theorem tally_update (p : α → Bool) (f : Fin n → α) (i : Fin n) (v : α) :
    tally p (Function.update f i v)+(p (f i)).toNat = tally p f+(p v).toNat :=
  weigh_update (fun a => (p a).toNat) f i v

end Crew
