import Mathlib.Data.List.Basic
import Mathlib.Data.List.Nodup

-- Registrations in slots. The ticket of a registration is its number; it is
-- open in one slot, handed over once or dropped, and never two of these.
structure Registry (Slot Payload : Type) where
  slot : Slot → Option (Nat × Payload)
  made : Nat
  handed : List (Nat × Payload)
  dropped : List Nat

namespace Registry
variable {Slot Payload : Type} {r : Registry Slot Payload} {k : Slot} {p : Payload}

def empty : Registry Slot Payload := ⟨fun _ => none,0,[],[]⟩

def resolved (r : Registry Slot Payload) : List Nat := r.handed.map Prod.fst ++ r.dropped

structure Accounted (r : Registry Slot Payload) : Prop where
  once : r.resolved.Nodup
  closed : ∀ k i p, r.slot k = some (i,p) → i ∉ r.resolved
  alone : ∀ k l i p q, r.slot k = some (i,p) → r.slot l = some (i,q) → k = l
  all : ∀ i, i < r.made ↔ i ∈ r.resolved ∨ ∃ k p, r.slot k = some (i,p)

theorem empty_accounted : (empty : Registry Slot Payload).Accounted := by
  refine ⟨List.nodup_nil,?_,?_,?_⟩
  · intro k i p found
    cases found
  · intro k l i p q found
    cases found
  · intro i
    constructor
    · intro below
      exact absurd below (Nat.not_lt_zero i)
    · rintro (gone | ⟨k,p,found⟩)
      · cases gone
      · cases found

variable [DecidableEq Slot]

def register (r : Registry Slot Payload) (k : Slot) (p : Payload) : Registry Slot Payload :=
  {r with slot := Function.update r.slot k (some (r.made,p)), made := r.made+1}

def hand (r : Registry Slot Payload) (k : Slot) : Registry Slot Payload :=
  match r.slot k with
  | none => r
  | some entry => {r with slot := Function.update r.slot k none, handed := r.handed ++ [entry]}

def drop (r : Registry Slot Payload) (k : Slot) : Registry Slot Payload :=
  match r.slot k with
  | none => r
  | some entry => {r with slot := Function.update r.slot k none, dropped := r.dropped ++ [entry.1]}

theorem hand_free (free : r.slot k = none) : r.hand k = r := by
  simp [hand,free]

theorem drop_free (free : r.slot k = none) : r.drop k = r := by
  simp [drop,free]

theorem register_slot (k l : Slot) : (r.register k p).slot l = if l = k then some (r.made,p) else r.slot l := by
  simp [register,Function.update_apply]

theorem register_accounted (accounted : r.Accounted) (free : r.slot k = none) (p : Payload) :
    (r.register k p).Accounted := by
  have old {l : Slot} {i : Nat} {q : Payload} (found : r.slot l = some (i,q)) : i < r.made :=
    (accounted.all i).mpr (.inr ⟨l,q,found⟩)
  refine ⟨accounted.once,?_,?_,?_⟩
  · intro l i q found gone
    rw [register_slot] at found
    split at found
    · cases found
      exact absurd ((accounted.all _).mpr (.inl gone)) (Nat.lt_irrefl _)
    · exact accounted.closed l i q found gone
  · intro l x i q s one two
    rw [register_slot] at one two
    split at one
    · rename_i here
      split at two
      · rename_i there
        exact here.trans there.symm
      · cases one
        exact absurd (old two) (Nat.lt_irrefl _)
    · split at two
      · cases two
        exact absurd (old one) (Nat.lt_irrefl _)
      · exact accounted.alone l x i q s one two
  · intro i
    constructor
    · intro below
      rcases Nat.lt_succ_iff_lt_or_eq.mp below with before | rfl
      · rcases (accounted.all i).mp before with gone | ⟨l,q,found⟩
        · exact .inl gone
        · refine .inr ⟨l,q,?_⟩
          have apart : l ≠ k := by
            rintro rfl
            rw [free] at found; cases found
          rw [register_slot,if_neg apart,found]
      · exact .inr ⟨k,p,by rw [register_slot,if_pos rfl]⟩
    · rintro (gone | ⟨l,q,found⟩)
      · exact Nat.lt_succ_of_lt ((accounted.all i).mpr (.inl gone))
      · rw [register_slot] at found
        split at found
        · cases found
          exact Nat.lt_succ_self _
        · exact Nat.lt_succ_of_lt (old found)

-- A slot that is emptied moves its ticket to the resolved ones.
theorem emptied_accounted (accounted : r.Accounted) {entry : Nat × Payload} (found : r.slot k = some entry)
    {after : Registry Slot Payload} (slot : after.slot = Function.update r.slot k none) (made : after.made = r.made)
    (resolved : after.resolved.Perm (entry.1 :: r.resolved)) : after.Accounted := by
  have kept {l : Slot} {e : Nat × Payload} (still : after.slot l = some e) : l ≠ k ∧ r.slot l = some e := by
    rw [slot,Function.update_apply] at still
    split at still
    · cases still
    · rename_i apart
      exact ⟨apart,still⟩
  refine ⟨?_,?_,?_,?_⟩
  · rw [resolved.nodup_iff,List.nodup_cons]
    exact ⟨accounted.closed k entry.1 entry.2 found,accounted.once⟩
  · intro l i q still gone
    obtain ⟨apart,before⟩ := kept still
    rcases List.mem_cons.mp (resolved.mem_iff.mp gone) with rfl | gone
    · exact apart (accounted.alone l k _ q entry.2 before found)
    · exact accounted.closed l i q before gone
  · intro l x i q s one two
    exact accounted.alone l x i q s (kept one).2 (kept two).2
  · intro i
    rw [made,accounted.all,resolved.mem_iff,List.mem_cons]
    constructor
    · rintro (gone | ⟨l,q,before⟩)
      · exact .inl (.inr gone)
      · by_cases same : l = k
        · subst l
          rw [found] at before
          cases before
          exact .inl (.inl rfl)
        · exact .inr ⟨l,q,by rw [slot,Function.update_of_ne same,before]⟩
    · rintro ((rfl | gone) | ⟨l,q,still⟩)
      · exact .inr ⟨k,entry.2,found⟩
      · exact .inl gone
      · exact .inr ⟨l,q,(kept still).2⟩

theorem drop_accounted (accounted : r.Accounted) (k : Slot) : (r.drop k).Accounted := by
  cases found : r.slot k with
  | none => rw [drop_free found]; exact accounted
  | some entry =>
      apply emptied_accounted accounted found
      · simp [drop,found]
      · simp [drop,found]
      · simp only [drop,found,resolved,←List.append_assoc]
        exact List.perm_append_singleton _ _

end Registry
