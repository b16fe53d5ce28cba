import Mathlib.Data.List.Basic
import Mathlib.Data.List.Nodup
import Mathlib.Order.Lattice

-- A set whose comparator looks at one part of its elements, its entries in
-- iteration order.
structure RankedSet {α ι : Type} [LinearOrder ι] (rank : α → ι) where
  entries : List α
  sorted : entries.Pairwise fun a b => rank a < rank b

namespace RankedSet
variable {α ι : Type} [LinearOrder ι] {rank : α → ι} {s t : RankedSet rank} {a b : α} {l : List α} {key : ι}

def empty : RankedSet rank := ⟨[],.nil⟩

def find (s : RankedSet rank) (key : ι) : Option α := s.entries.find? fun a => rank a = key

-- An element that ranks like one already present is not inserted.
def place (rank : α → ι) (a : α) : List α → List α
  | [] => [a]
  | b :: rest =>
    if rank a < rank b then a :: b :: rest
    else if rank b < rank a then b :: place rank a rest
    else b :: rest

theorem ext (same : s.entries = t.entries) : s = t := by
  cases s
  cases t
  cases same
  rfl

theorem place_mem (member : b ∈ place rank a l) : b = a ∨ b ∈ l := by
  induction l with
  | nil => exact .inl (List.mem_singleton.mp member)
  | cons head rest ih =>
      rw [place] at member
      split at member
      · exact List.mem_cons.mp member
      · split at member
        · rcases List.mem_cons.mp member with first | later
          · exact .inr (first ▸ .head _)
          · exact (ih later).imp_right (.tail _)
        · exact .inr member

theorem place_sorted (sorted : l.Pairwise fun a b => rank a < rank b) :
    (place rank a l).Pairwise fun a b => rank a < rank b := by
  induction l with
  | nil => exact List.pairwise_singleton _ _
  | cons head rest ih =>
      obtain ⟨first,tail⟩ := List.pairwise_cons.mp sorted
      rw [place]
      split
      · next before =>
          apply List.pairwise_cons.mpr ⟨_,sorted⟩
          intro b member
          rcases List.mem_cons.mp member with same | later
          · exact same ▸ before
          · exact before.trans (first b later)
      · split
        · next after =>
            apply List.pairwise_cons.mpr ⟨_,ih tail⟩
            intro b member
            rcases place_mem member with same | later
            · exact same ▸ after
            · exact first b later
        · exact sorted

def insert (s : RankedSet rank) (a : α) : RankedSet rank := ⟨place rank a s.entries,place_sorted s.sorted⟩

def collect (l : List α) : RankedSet rank := l.foldl insert empty

theorem place_last (behind : ∀ b ∈ l, rank b < rank a) : place rank a l = l ++ [a] := by
  induction l with
  | nil => rfl
  | cons head rest ih =>
      have before := behind head (.head _)
      rw [place,if_neg (lt_asymm before),if_pos before,ih fun b member => behind b (.tail _ member)]
      rfl

theorem foldl_insert (later : l.Pairwise fun a b => rank a < rank b)
    (behind : ∀ a ∈ s.entries, ∀ b ∈ l, rank a < rank b) : (l.foldl insert s).entries = s.entries ++ l := by
  induction l generalizing s with
  | nil => exact (List.append_nil _).symm
  | cons a rest ih =>
      obtain ⟨first,tail⟩ := List.pairwise_cons.mp later
      have last : (s.insert a).entries = s.entries ++ [a] := place_last fun b member => behind b member a (.head _)
      rw [List.foldl_cons,ih tail,last,List.append_assoc]
      · rfl
      · rw [last]
        intro b member c inside
        rcases List.mem_append.mp member with old | new
        · exact behind b old c (.tail _ inside)
        · rw [List.mem_singleton.mp new]
          exact first c inside

-- Elements that come in order stay as they came.
theorem collect_sorted (sorted : l.Pairwise fun a b => rank a < rank b) : (collect l : RankedSet rank).entries = l :=
  foldl_insert sorted fun _ member => absurd member List.not_mem_nil

theorem ranks_nodup (s : RankedSet rank) : (s.entries.map rank).Nodup := by
  apply List.pairwise_map.mpr
  exact s.sorted.imp fun before => ne_of_lt before

theorem same_rank (s : RankedSet rank) (left : a ∈ s.entries) (right : b ∈ s.entries) (same : rank a = rank b) :
    a = b :=
  List.inj_on_of_nodup_map s.ranks_nodup left right same

theorem find_some : s.find key = some a ↔ a ∈ s.entries ∧ rank a = key := by
  constructor
  · intro found
    have ranked := List.find?_some (p := fun a => decide (rank a = key)) found
    exact ⟨List.mem_of_find?_eq_some found,of_decide_eq_true ranked⟩
  · rintro ⟨member,ranked⟩
    cases found : s.find key with
    | none =>
        have nowhere := List.find?_eq_none.mp found a member
        exact absurd (decide_eq_true ranked) nowhere
    | some b =>
        have there := List.mem_of_find?_eq_some found
        have equal := List.find?_some (p := fun a => decide (rank a = key)) found
        rw [s.same_rank there member ((of_decide_eq_true equal).trans ranked.symm)]

theorem find_none : s.find key = none ↔ ∀ a ∈ s.entries, rank a ≠ key := by
  apply List.find?_eq_none.trans
  simp only [decide_eq_true_eq,Ne]

end RankedSet
