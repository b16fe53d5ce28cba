import Mathlib.Data.List.Perm.Basic

-- A list of parties of which one at a time changes.
namespace Roster
variable {α β : Type} {l : List α} {i : Nat} {a b : α}

theorem set_perm (found : l[i]? = some a) (b : α) :
    ∃ rest, l.Perm (a :: rest) ∧ (l.set i b).Perm (b :: rest) := by
  obtain ⟨inside,same⟩ := List.getElem?_eq_some_iff.mp found
  refine ⟨l.eraseIdx i,?_,List.set_perm_cons_eraseIdx inside b⟩
  rw [←same]
  exact (List.getElem_cons_eraseIdx_perm inside).symm

theorem mem_set (member : c ∈ l.set i b) : c = b ∨ c ∈ l := (List.mem_or_eq_of_mem_set member).symm

-- A party that changes from `a` to `b` gives up what it had and brings what it gets.
theorem filterMap_set (found : l[i]? = some a) (b : α) (has : α → Option β) :
    ((l.set i b).filterMap has ++ (has a).toList).Perm (l.filterMap has ++ (has b).toList) := by
  obtain ⟨rest,before,after⟩ := set_perm found b
  have split : ∀ c, (c :: rest).filterMap has = (has c).toList ++ rest.filterMap has := by
    intro c
    rw [List.filterMap_cons]
    cases has c <;> rfl
  have before := before.filterMap has
  have after := after.filterMap has
  rw [split] at before after
  calc (l.set i b).filterMap has ++ (has a).toList
    List.Perm _ ((has b).toList ++ rest.filterMap has ++ (has a).toList) := after.append_right _
    List.Perm _ ((has a).toList ++ ((has b).toList ++ rest.filterMap has)) := List.perm_append_comm
    List.Perm _ ((has a).toList ++ (rest.filterMap has ++ (has b).toList)) := List.perm_append_comm.append_left _
    _ = (has a).toList ++ rest.filterMap has ++ (has b).toList := (List.append_assoc ..).symm
    List.Perm _ (l.filterMap has ++ (has b).toList) := before.symm.append_right _

theorem countP_set (found : l[i]? = some a) (b : α) (p : α → Bool) :
    (l.set i b).countP p+(p a).toNat = l.countP p+(p b).toNat := by
  obtain ⟨rest,before,after⟩ := set_perm found b
  have split : ∀ c, (c :: rest).countP p = rest.countP p+(p c).toNat := by
    intro c
    rw [List.countP_cons]
    cases p c <;> rfl
  rw [before.countP_eq,after.countP_eq,split,split]
  omega

end Roster
