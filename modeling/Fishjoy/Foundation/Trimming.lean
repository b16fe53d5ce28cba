import Mathlib.Data.List.DropRight

namespace Trimming
variable {α : Type} {p : α → Bool} {s t : List α}

structure Longest (part : List α → Prop) (r : List α) : Prop where
  candidate : part r
  longest : ∀ t, part t → t.length ≤ r.length

def LeadsWithout (p : α → Bool) (t : List α) : Prop := ∀ c, t.head? = some c → p c = false

def EndsWithout (p : α → Bool) (t : List α) : Prop := ∀ c, t.getLast? = some c → p c = false

theorem dropWhile_leads (p : α → Bool) (s : List α) : LeadsWithout p (s.dropWhile p) := by
  intro c first
  have stops := List.head?_dropWhile_not p s
  rw [first] at stops
  exact stops

-- A suffix that begins further to the left begins with an element to drop.
theorem suffix_bound (suffix : t <:+ s) (leads : LeadsWithout p t) : t.length ≤ (s.dropWhile p).length := by
  induction s with
  | nil => exact suffix.length_le
  | cons c rest ih =>
      rw [List.dropWhile_cons]
      split
      · rename_i drops
        rcases List.suffix_cons_iff.mp suffix with rfl | shorter
        · rw [leads c rfl] at drops
          cases drops
        · exact ih shorter
      · exact suffix.length_le

theorem dropWhile_longest (p : α → Bool) (s : List α) :
    Longest (fun t => t <:+ s ∧ LeadsWithout p t) (s.dropWhile p) :=
  ⟨⟨List.dropWhile_suffix p,dropWhile_leads p s⟩,fun _ both => suffix_bound both.1 both.2⟩

theorem endsWithout_reverse : EndsWithout p t ↔ LeadsWithout p t.reverse := by
  unfold EndsWithout LeadsWithout
  rw [List.head?_reverse]

theorem rdropWhile_longest (p : α → Bool) (s : List α) :
    Longest (fun t => t <+: s ∧ EndsWithout p t) (s.rdropWhile p) := by
  refine ⟨⟨List.rdropWhile_prefix p s,?_⟩,?_⟩
  · rw [endsWithout_reverse,List.rdropWhile,List.reverse_reverse]
    exact dropWhile_leads p _
  · rintro t ⟨before,ends⟩
    have bound := suffix_bound (List.reverse_suffix.mpr before) (endsWithout_reverse.mp ends)
    rw [List.length_reverse] at bound
    rwa [List.rdropWhile,List.length_reverse]

theorem rdropWhile_cons (p : α → Bool) (c : α) (rest : List α) : (c :: rest).rdropWhile p =
    if (rest.rdropWhile p).isEmpty then (if p c then [] else [c]) else c :: rest.rdropWhile p := by
  unfold List.rdropWhile
  rw [List.reverse_cons,List.dropWhile_append,List.isEmpty_reverse]
  split
  · cases drops : p c <;> simp [drops]
  · simp

-- The two ends can be trimmed in either order.
theorem trim_comm (p : α → Bool) (s : List α) : (s.dropWhile p).rdropWhile p = (s.rdropWhile p).dropWhile p := by
  induction s with
  | nil => rfl
  | cons c rest ih =>
      rw [rdropWhile_cons]
      cases drops : p c with
      | true =>
          rw [List.dropWhile_cons_of_pos drops,ih]
          split
          · rename_i none
            rw [List.isEmpty_iff.mp none]
            rfl
          · rw [List.dropWhile_cons_of_pos drops]
      | false =>
          have kept : ¬p c = true := by rw [drops]; exact Bool.false_ne_true
          rw [List.dropWhile_cons_of_neg kept,rdropWhile_cons,drops,if_neg Bool.false_ne_true]
          split
          · rw [List.dropWhile_cons_of_neg kept]
          · rw [List.dropWhile_cons_of_neg kept]

theorem trim_idempotent (p : α → Bool) (s : List α) :
    (((s.dropWhile p).rdropWhile p).dropWhile p).rdropWhile p = (s.dropWhile p).rdropWhile p := by
  rw [←trim_comm,List.rdropWhile_idempotent,List.dropWhile_idempotent]

end Trimming
