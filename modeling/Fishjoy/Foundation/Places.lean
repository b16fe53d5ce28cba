import Mathlib.Data.List.Nodup

namespace Places

-- A finite tree by its places. A place is the names that lead from it up to the
-- root, and above every entry stands one that can have others below it.
structure Tree (N K : Type) (branch : K → Prop) where
  entries : List (List N × K)
  unique : (entries.map Prod.fst).Nodup
  closed : ∀ name parent kind, (name :: parent,kind) ∈ entries → ∃ above, branch above ∧ (parent,above) ∈ entries

namespace Tree
variable {N K : Type} {branch : K → Prop}

def depth (t : Tree N K branch) : Nat := t.entries.foldr (fun entry bound => max entry.1.length bound) 0

variable [DecidableEq N]

def find (t : Tree N K branch) (place : List N) : Option K :=
  (t.entries.find? fun entry => entry.1 = place).map Prod.snd

def childOf (place : List N) : List N → Option N
  | [] => none
  | name :: parent => if parent = place then some name else none

def children (t : Tree N K branch) (place : List N) : List N := t.entries.filterMap fun entry => childOf place entry.1

variable {t : Tree N K branch} {place above : List N} {name : N} {kind : K}

theorem childOf_iff {q : List N} : childOf place q = some name ↔ q = name :: place := by
  cases q with
  | nil => exact iff_of_false (fun same => by cases same) fun same => by cases same
  | cons first parent =>
      rw [childOf]
      by_cases same : parent = place
      · rw [if_pos same,same]
        simp
      · rw [if_neg same]
        refine iff_of_false (fun held => by cases held) fun held => ?_
        exact same (List.cons.inj held).2

theorem find_some : t.find place = some kind ↔ (place,kind) ∈ t.entries := by
  unfold find
  rw [Option.map_eq_some_iff]
  constructor
  · rintro ⟨entry,found,rfl⟩
    have here := List.find?_some found
    rw [decide_eq_true_iff] at here
    rw [←here]
    exact List.mem_of_find?_eq_some found
  · intro member
    cases found : t.entries.find? fun entry => entry.1 = place with
    | none =>
        have missed := List.find?_eq_none.mp found _ member
        exact absurd (decide_eq_true rfl) missed
    | some entry =>
        have here := List.find?_some found
        rw [decide_eq_true_iff] at here
        have same := List.inj_on_of_nodup_map t.unique (List.mem_of_find?_eq_some found) member here
        exact ⟨entry,rfl,by rw [same]⟩

theorem find_present : t.find place ≠ none ↔ ∃ kind, (place,kind) ∈ t.entries := by
  rw [Option.ne_none_iff_exists']
  exact exists_congr fun _ => find_some

theorem mem_children : name ∈ t.children place ↔ t.find (name :: place) ≠ none := by
  rw [find_present,children,List.mem_filterMap]
  constructor
  · rintro ⟨⟨q,kind⟩,member,child⟩
    have here : q = name :: place := childOf_iff.mp child
    rw [here] at member
    exact ⟨kind,member⟩
  · rintro ⟨kind,member⟩
    exact ⟨(name :: place,kind),member,childOf_iff.mpr rfl⟩

theorem children_nodup (t : Tree N K branch) (place : List N) : (t.children place).Nodup := by
  have listed : t.children place = (t.entries.map Prod.fst).filterMap (childOf place) := by
    rw [List.filterMap_map]
    rfl
  rw [listed]
  refine t.unique.filterMap ?_
  intro q r name first second
  rw [childOf_iff.mp first,childOf_iff.mp second]

theorem branch_above (present : t.find (name :: place) ≠ none) : ∃ kind, branch kind ∧ t.find place = some kind := by
  obtain ⟨kind,member⟩ := find_present.mp present
  obtain ⟨upper,can,member⟩ := t.closed name place kind member
  exact ⟨upper,can,find_some.mpr member⟩

theorem childless (found : t.find place = some kind) (leaf : ¬branch kind) : t.children place = [] := by
  apply List.eq_nil_iff_forall_not_mem.mpr
  intro name member
  obtain ⟨upper,can,same⟩ := branch_above (mem_children.mp member)
  rw [found] at same
  cases same
  exact leaf can

-- An entry has all the entries above it.
theorem present_above (suffix : above <:+ place) (present : t.find place ≠ none) : t.find above ≠ none := by
  induction place with
  | nil => rwa [List.suffix_nil.mp suffix]
  | cons name parent ih =>
      rcases List.suffix_cons_iff.mp suffix with rfl | shorter
      · exact present
      · obtain ⟨kind,_,found⟩ := branch_above present
        exact ih shorter (by rw [found]; exact Option.some_ne_none kind)

theorem length_le_depth (present : t.find place ≠ none) : place.length ≤ t.depth := by
  obtain ⟨kind,member⟩ := find_present.mp present
  unfold depth
  generalize t.entries = entries at member
  induction entries with
  | nil => cases member
  | cons entry rest ih =>
      rw [List.foldr_cons]
      rcases List.mem_cons.mp member with rfl | later
      · exact Nat.le_max_left _ _
      · exact Nat.le_trans (ih later) (Nat.le_max_right _ _)

def remove (t : Tree N K branch) (place : List N) (leaf : t.children place = []) : Tree N K branch where
  entries := t.entries.filter fun entry => entry.1 ≠ place
  unique := t.unique.sublist (List.filter_sublist.map Prod.fst)
  closed := by
    intro name parent kind member
    obtain ⟨upper,can,found⟩ := t.closed name parent kind (List.mem_filter.mp member).1
    refine ⟨upper,can,List.mem_filter.mpr ⟨found,decide_eq_true fun same => ?_⟩⟩
    have child : name ∈ t.children parent := mem_children.mpr (find_present.mpr ⟨kind,(List.mem_filter.mp member).1⟩)
    rw [show parent = place from same,leaf] at child
    cases child

theorem find_remove (leaf : t.children place = []) (q : List N) :
    (t.remove place leaf).find q = if q = place then none else t.find q := by
  apply Option.ext
  intro kind
  rw [find_some,remove,List.mem_filter]
  split
  · rename_i same
    refine iff_of_false (fun both => ?_) fun held => by cases held
    exact of_decide_eq_true both.2 same
  · rename_i apart
    rw [find_some]
    exact and_iff_left (decide_eq_true apart)

-- An entry more, below one that can have it.
def insert (t : Tree N K branch) (name : N) (parent : List N) (kind : K) (free : t.find (name :: parent) = none)
    (above : ∃ upper, branch upper ∧ t.find parent = some upper) : Tree N K branch where
  entries := (name :: parent,kind) :: t.entries
  unique := by
    refine List.nodup_cons.mpr ⟨fun member => ?_,t.unique⟩
    obtain ⟨⟨q,other⟩,member,same⟩ := List.mem_map.mp member
    cases same
    exact absurd free (find_present.mpr ⟨other,member⟩)
  closed := by
    intro name' parent' kind' member
    rcases List.mem_cons.mp member with same | old
    · cases same
      obtain ⟨upper,can,found⟩ := above
      exact ⟨upper,can,.tail _ (find_some.mp found)⟩
    · obtain ⟨upper,can,found⟩ := t.closed name' parent' kind' old
      exact ⟨upper,can,.tail _ found⟩

theorem find_insert {parent : List N} (free : t.find (name :: parent) = none)
    (above : ∃ upper, branch upper ∧ t.find parent = some upper) (q : List N) :
    (t.insert name parent kind free above).find q = if q = name :: parent then some kind else t.find q := by
  unfold find insert
  rw [List.find?_cons]
  by_cases same : q = name :: parent
  · rw [if_pos same,decide_eq_true same.symm]
    rfl
  · rw [if_neg same,decide_eq_false (Ne.symm same)]

-- The place of what is moved, which is at or below `source`.
def replace (source target q : List N) : List N :=
  if source <:+ q then q.take (q.length-source.length) ++ target else q

theorem replace_below (source target rest : List N) : replace source target (rest ++ source) = rest ++ target := by
  rw [replace,if_pos (List.suffix_append rest source),List.length_append,Nat.add_sub_cancel,List.take_left]

theorem replace_outside {source q : List N} (target : List N) (outside : ¬source <:+ q) : replace source target q = q :=
  if_neg outside

-- A place that nothing is at has nothing below it.
theorem absent_below (free : t.find above = none) (suffix : above <:+ place) : t.find place = none := by
  by_contra present
  exact present_above suffix present free

-- What is at `source` goes with all below it to a place that is free.
def move (t : Tree N K branch) (source : List N) (name : N) (parent : List N) (free : t.find (name :: parent) = none)
    (apart : ¬source <:+ name :: parent) (above : ∃ upper, branch upper ∧ t.find parent = some upper) :
    Tree N K branch where
  entries := t.entries.map fun entry => (replace source (name :: parent) entry.1,entry.2)
  unique := by
    rw [List.map_map]
    have listed : t.entries.map (Prod.fst ∘ fun entry => (replace source (name :: parent) entry.1,entry.2)) =
        (t.entries.map Prod.fst).map (replace source (name :: parent)) := by
      rw [List.map_map]
      rfl
    rw [listed]
    have fresh : ∀ q ∈ t.entries.map Prod.fst, ∀ rest, rest ++ name :: parent ≠ q := by
      rintro _ member rest rfl
      obtain ⟨⟨q,kind⟩,member,same⟩ := List.mem_map.mp member
      cases same
      exact find_present.mpr ⟨kind,member⟩ (absent_below free (List.suffix_append rest (name :: parent)))
    refine List.Nodup.map_on ?_ t.unique
    intro q first r second same
    by_cases left : source <:+ q
    · obtain ⟨restq,rfl⟩ := left
      rw [replace_below] at same
      by_cases right : source <:+ r
      · obtain ⟨restr,rfl⟩ := right
        rw [replace_below] at same
        rw [List.append_cancel_right same]
      · rw [replace_outside _ right] at same
        exact absurd same (fresh r second restq)
    · rw [replace_outside _ left] at same
      by_cases right : source <:+ r
      · obtain ⟨restr,rfl⟩ := right
        rw [replace_below] at same
        exact absurd same.symm (fresh q first restr)
      · rwa [replace_outside _ right] at same
  closed := by
    intro name' parent' kind member
    obtain ⟨⟨q,other⟩,there,same⟩ := List.mem_map.mp member
    have placed : replace source (name :: parent) q = name' :: parent' := (Prod.mk.inj same).1
    suffices stands : ∃ upper q', branch upper ∧ (q',upper) ∈ t.entries ∧ replace source (name :: parent) q' = parent' by
      obtain ⟨upper,q',can,found,rfl⟩ := stands
      exact ⟨upper,can,List.mem_map.mpr ⟨(q',upper),found,rfl⟩⟩
    by_cases below : source <:+ q
    · obtain ⟨rest,rfl⟩ := below
      rw [replace_below] at placed
      cases rest with
      | nil =>
          cases placed
          obtain ⟨upper,can,found⟩ := above
          exact ⟨upper,parent,can,find_some.mp found,
            replace_outside _ fun suffix => apart (suffix.trans (List.suffix_cons name parent))⟩
      | cons n rest =>
          cases placed
          obtain ⟨upper,can,found⟩ := t.closed _ _ _ there
          exact ⟨upper,rest ++ source,can,found,replace_below source (name :: parent) rest⟩
    · rw [replace_outside _ below] at placed
      subst placed
      obtain ⟨upper,can,found⟩ := t.closed _ _ _ there
      exact ⟨upper,parent',can,found,replace_outside _ fun suffix => below (suffix.trans (List.suffix_cons name' parent'))⟩

section Move
variable {source parent : List N} (free : t.find (name :: parent) = none) (apart : ¬source <:+ name :: parent)
  (above : ∃ upper, branch upper ∧ t.find parent = some upper)

theorem find_move_below (rest : List N) :
    (t.move source name parent free apart above).find (rest ++ name :: parent) = t.find (rest ++ source) := by
  apply Option.ext
  intro kind
  rw [find_some,find_some,move,List.mem_map]
  constructor
  · rintro ⟨⟨q,other⟩,member,same⟩
    obtain ⟨placed,rfl⟩ := Prod.mk.inj same
    by_cases below : source <:+ q
    · obtain ⟨front,rfl⟩ := below
      rw [replace_below] at placed
      rw [←List.append_cancel_right placed]
      exact member
    · rw [replace_outside _ below] at placed
      subst placed
      exact absurd (absent_below free (List.suffix_append rest (name :: parent))) (find_present.mpr ⟨_,member⟩)
  · intro member
    exact ⟨_,member,by rw [replace_below]⟩

theorem find_move_outside (q : List N) (outside : ¬name :: parent <:+ q) :
    (t.move source name parent free apart above).find q = if source <:+ q then none else t.find q := by
  apply Option.ext
  intro kind
  rw [find_some,move,List.mem_map]
  constructor
  · rintro ⟨⟨r,other⟩,member,same⟩
    obtain ⟨placed,rfl⟩ := Prod.mk.inj same
    by_cases below : source <:+ r
    · obtain ⟨front,rfl⟩ := below
      rw [replace_below] at placed
      exact absurd ⟨front,placed⟩ outside
    · rw [replace_outside _ below] at placed
      subst placed
      rw [if_neg below]
      exact find_some.mpr member
  · intro found
    split at found
    · cases found
    · rename_i below
      exact ⟨_,find_some.mp found,by rw [replace_outside _ below]⟩

end Move

end Tree

end Places
