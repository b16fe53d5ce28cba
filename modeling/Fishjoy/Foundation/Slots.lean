import Mathlib.Logic.Function.Basic

-- A vector of optional values that grows when a position beyond its end is
-- written. Its content is read as a function of the position.
namespace Slots
variable {α : Type} {l : List (Option α)} {i n : Nat}

def slot (l : List (Option α)) (i : Nat) : Option α := l[i]?.join

def grown (l : List (Option α)) (i n : Nat) : List (Option α) :=
  if l.length ≤ i then l ++ List.replicate (n-l.length) none else l

theorem slot_empty : slot (List.replicate n (none : Option α)) i = none := by
  unfold slot
  rw [List.getElem?_replicate]
  split <;> rfl

theorem slot_some {v : α} (found : slot l i = some v) : i < l.length := by
  by_contra beyond
  unfold slot at found
  rw [List.getElem?_eq_none (Nat.not_lt.mp beyond)] at found
  cases found

theorem slot_set (inside : i < l.length) (v : Option α) : slot (l.set i v) = Function.update (slot l) i v := by
  funext other
  unfold slot
  by_cases same : other = i
  · subst other
    rw [Function.update_self,List.getElem?_set_self inside]
    rfl
  · rw [Function.update_of_ne same,List.getElem?_set_ne (Ne.symm same)]

-- A position beyond the end holds nothing already.
theorem slot_clear : slot (l.set i none) = Function.update (slot l) i none := by
  by_cases inside : i < l.length
  · exact slot_set inside none
  · rw [List.set_eq_of_length_le (Nat.not_lt.mp inside),eq_comm,Function.update_eq_self_iff]
    by_contra found
    obtain ⟨_,found⟩ := Option.ne_none_iff_exists'.mp (Ne.symm found)
    exact inside (slot_some found)

theorem slot_grown : slot (grown l i n) = slot l := by
  funext other
  unfold grown
  split
  · unfold slot
    by_cases inside : other < l.length
    · rw [List.getElem?_append_left inside]
    · rw [List.getElem?_append_right (Nat.not_lt.mp inside),List.getElem?_eq_none (l := l) (Nat.not_lt.mp inside),
        List.getElem?_replicate]
      split <;> rfl
  · rfl

theorem slot_put (inside : i < (grown l i n).length) (v : Option α) :
    slot ((grown l i n).set i v) = Function.update (slot l) i v := by
  rw [slot_set inside,slot_grown]

theorem grown_length (wide : l.length ≤ i → i < n) : i < (grown l i n).length ∧ l.length ≤ (grown l i n).length := by
  unfold grown
  split
  · rename_i beyond
    have := wide beyond
    rw [List.length_append,List.length_replicate]
    omega
  · omega

end Slots
