import Mathlib.Data.List.Basic

namespace OrderedSet

-- An ordered set is the list of its elements in iteration order, an iterator
-- is a position, and the length is `end()`. The comparator is an argument of
-- every operation, since it may read state that changes between two of them.
variable {α : Type} {lt lt' : α → α → Bool} {x y : α} {l : List α}

structure StrictOrder (lt : α → α → Bool) : Prop where
  irrefl : ∀ x, lt x x = false
  trans : ∀ {x y z}, lt x y = true → lt y z = true → lt x z = true
  total : ∀ {x y}, lt x y = false → lt y x = false → x = y

def Sorted (lt : α → α → Bool) (l : List α) : Prop := l.Pairwise fun x y => lt x y = true

-- First position whose element is not before the probe.
def lowerBound (before : α → Bool) (l : List α) : Nat := l.findIdx fun y => !before y

def find (lt : α → α → Bool) (x : α) (l : List α) : Nat :=
  let it := lowerBound (lt · x) l
  match l[it]? with
  | some y => if lt x y then l.length else it
  | none => l.length

-- Position of the element and the set after the insertion. An equivalent
-- element that is already present keeps its place and nothing is inserted.
def insert (lt : α → α → Bool) (x : α) : List α → Nat × List α
  | [] => (0,[x])
  | y :: rest =>
    if lt x y then (0,x :: y :: rest)
    else if lt y x then ((insert lt x rest).1+1,y :: (insert lt x rest).2)
    else (0,y :: rest)

theorem Sorted.nodup (sorted : Sorted lt l) (order : StrictOrder lt) : l.Nodup := by
  apply List.Pairwise.imp _ sorted
  intro x y less equal
  rw [equal,order.irrefl] at less
  cases less

theorem Sorted.congr (sorted : Sorted lt l)
    (same : ∀ x ∈ l, ∀ y ∈ l, lt x y = lt' x y) : Sorted lt' l :=
  List.Pairwise.imp_of_mem (fun hx hy less => (same _ hx _ hy).symm.trans less) sorted

theorem insert_mem (order : StrictOrder lt) : y ∈ (insert lt x l).2 ↔ y = x ∨ y ∈ l := by
  induction l with
  | nil => simp [insert]
  | cons head rest ih =>
      unfold insert
      split
      · simp
      · rename_i notBefore
        split
        · simp only [List.mem_cons,ih]; exact or_left_comm
        · rename_i notAfter
          have equal : x = head := order.total (by simpa using notBefore) (by simpa using notAfter)
          simp [equal]

theorem insert_sorted (order : StrictOrder lt) (sorted : Sorted lt l) : Sorted lt (insert lt x l).2 := by
  induction l with
  | nil => simp [insert,Sorted]
  | cons head rest ih =>
      obtain ⟨first,tail⟩ := List.pairwise_cons.mp sorted
      unfold insert
      split
      · rename_i before
        refine List.pairwise_cons.mpr ⟨?_,sorted⟩
        intro y member
        rcases List.mem_cons.mp member with rfl | later
        · exact before
        · exact order.trans before (first y later)
      · split
        · rename_i after
          refine List.pairwise_cons.mpr ⟨?_,ih tail⟩
          intro y member
          rcases (insert_mem order).mp member with rfl | later
          · exact after
          · exact first y later
        · exact sorted

-- The element sought splits the set at its iterator, and erasing there
-- removes exactly this element.
theorem find_split (order : StrictOrder lt) (sorted : Sorted lt l) (member : x ∈ l) :
    ∃ front back, l = front ++ x :: back ∧ find lt x l = front.length := by
  obtain ⟨front,back,rfl⟩ := List.append_of_mem member
  refine ⟨front,back,rfl,?_⟩
  have before : ∀ y ∈ front, lt y x = true := by
    intro y present
    exact (List.pairwise_append.mp sorted).2.2 y present x (by simp)
  have bound : lowerBound (lt · x) (front ++ x :: back) = front.length := by
    clear sorted member
    induction front with
    | nil => simp [lowerBound,List.findIdx_cons,order.irrefl]
    | cons head rest ih =>
        have first := before head (by simp)
        have tail := ih (fun y present => before y (List.mem_cons_of_mem _ present))
        simp only [lowerBound,List.cons_append,List.findIdx_cons,first,Bool.not_true,cond_false] at tail ⊢
        simp [tail]
  simp [find,bound,order.irrefl]

theorem find_lt (order : StrictOrder lt) (sorted : Sorted lt l) (member : x ∈ l) :
    find lt x l < l.length := by
  obtain ⟨front,back,equal,position⟩ := find_split order sorted member
  rw [position,equal]; simp

theorem find_getElem (order : StrictOrder lt) (sorted : Sorted lt l) (member : x ∈ l) :
    l[find lt x l]? = some x := by
  obtain ⟨front,back,equal,position⟩ := find_split order sorted member
  rw [position,equal]; simp

theorem erase_mem (order : StrictOrder lt) (sorted : Sorted lt l) (member : x ∈ l) :
    y ∈ l.eraseIdx (find lt x l) ↔ y ∈ l ∧ y ≠ x := by
  have distinct := sorted.nodup order
  obtain ⟨front,back,rfl,position⟩ := find_split order sorted member
  have apart : x ∉ front ∧ x ∉ back := by
    simp only [List.nodup_append,List.nodup_cons] at distinct
    exact ⟨fun present => distinct.2.2 x present x (by simp) rfl,distinct.2.1.1⟩
  rw [position,List.eraseIdx_append_of_length_le (Nat.le_refl _),Nat.sub_self,List.eraseIdx_cons_zero]
  simp only [List.mem_append,List.mem_cons]
  constructor
  · rintro (inFront | inBack)
    · exact ⟨.inl inFront,fun equal => apart.1 (equal ▸ inFront)⟩
    · exact ⟨.inr (.inr inBack),fun equal => apart.2 (equal ▸ inBack)⟩
  · rintro ⟨inFront | equal | inBack,other⟩
    · exact .inl inFront
    · exact absurd equal other
    · exact .inr inBack

theorem take_lowerBound {before : α → Bool} (member : y ∈ l.take (lowerBound before l)) : before y = true := by
  induction l with
  | nil => cases member
  | cons head rest ih =>
      cases first : before head with
      | false => simp [lowerBound,List.findIdx_cons,first] at member
      | true =>
          simp only [lowerBound,List.findIdx_cons,first,Bool.not_true,cond_false,List.take_succ_cons] at member
          rcases List.mem_cons.mp member with rfl | later
          · exact first
          · exact ih later

-- Where nothing before the probe follows an element that is not, the lower
-- bound leaves only such elements behind it.
theorem drop_lowerBound {before : α → Bool} (sorted : Sorted lt l)
    (closed : ∀ x y, lt x y = true → before y = true → before x = true)
    (member : y ∈ l.drop (lowerBound before l)) : before y = false := by
  induction l with
  | nil => cases member
  | cons head rest ih =>
      obtain ⟨least,tail⟩ := List.pairwise_cons.mp sorted
      cases first : before head with
      | true =>
          simp only [lowerBound,List.findIdx_cons,first,Bool.not_true,cond_false,List.drop_succ_cons] at member
          exact ih tail member
      | false =>
          simp only [lowerBound,List.findIdx_cons,first,Bool.not_false,cond_true,List.drop_zero] at member
          rcases List.mem_cons.mp member with rfl | later
          · exact first
          · by_contra passed
            have reached := closed head y (least y later) (by simpa using passed)
            rw [first] at reached; cases reached

-- A cut that has exactly the elements with a property before it.
theorem take_filter {holds : α → Bool} {it : Nat} (taken : ∀ x ∈ l.take it, holds x = true)
    (kept : ∀ x ∈ l.drop it, holds x = false) : l.take it = l.filter holds := by
  have front : (l.take it).filter holds = l.take it := List.filter_eq_self.mpr taken
  have back : (l.drop it).filter holds = [] := List.filter_eq_nil_iff.mpr fun x member => by simp [kept x member]
  calc l.take it = (l.take it).filter holds ++ (l.drop it).filter holds := by rw [front,back,List.append_nil]
    _ = l.filter holds := by rw [←List.filter_append,List.take_append_drop]

theorem erase_sorted (sorted : Sorted lt l) (it : Nat) : Sorted lt (l.eraseIdx it) :=
  List.Pairwise.sublist (List.eraseIdx_sublist l it) sorted

end OrderedSet
