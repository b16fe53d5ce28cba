import Mathlib.Data.List.Basic
import Mathlib.Order.Lattice

-- A map ordered by a comparator that may identify keys.
class WeakOrder {κ : Type} (less : κ → κ → Bool) : Prop where
  irrefl : ∀ x, less x x = false
  trans : ∀ {x y z}, less x y = true → less y z = true → less x z = true
  apart : ∀ {x y z}, less x z = true → less x y = true ∨ less y z = true

-- Keys compared by their rank in a linear order.
theorem WeakOrder.of_rank {κ ι : Type} [LinearOrder ι] {less : κ → κ → Bool} (rank : κ → ι)
    (same : ∀ x y, less x y = true ↔ rank x < rank y) : WeakOrder less := by
  refine ⟨?_,?_,?_⟩
  · intro x
    rw [Bool.eq_false_iff,Ne,same]
    exact lt_irrefl _
  · intro x y z first second
    rw [same] at first second ⊢
    exact lt_trans first second
  · intro x y z before
    rw [same] at before ⊢
    rw [same]
    exact (lt_or_ge (rank x) (rank y)).imp_right fun notBefore => lt_of_le_of_lt notBefore before

structure KeyedMap {κ : Type} (less : κ → κ → Bool) (ν : Type) where
  entries : List (κ × ν)
  sorted : entries.Pairwise fun a b => less a.1 b.1 = true

namespace KeyedMap
variable {κ ν : Type} {less : κ → κ → Bool} {l : List (κ × ν)} {k key : κ} {v : ν} {merge : ν → ν}

def equivalent (less : κ → κ → Bool) (x y : κ) : Bool := !less x y && !less y x

def lookup (less : κ → κ → Bool) (key : κ) : List (κ × ν) → Option ν
  | [] => none
  | (k,v) :: rest => if less k key then lookup less key rest else if less key k then none else some v

-- The entry goes to its place, or changes the value of the equivalent key
-- that is there already.
def place (less : κ → κ → Bool) (key : κ) (value : ν) (merge : ν → ν) : List (κ × ν) → List (κ × ν)
  | [] => [(key,value)]
  | (k,v) :: rest =>
    if less key k then (key,value) :: (k,v) :: rest
    else if less k key then (k,v) :: place less key value merge rest
    else (k,merge v) :: rest

theorem equivalent_iff {x y : κ} : equivalent less x y = true ↔ less x y = false ∧ less y x = false := by
  simp [equivalent]

theorem equivalent_rank {ι : Type} [LinearOrder ι] (rank : κ → ι) (same : ∀ x y, less x y = true ↔ rank x < rank y)
    (x y : κ) : equivalent less x y = true ↔ rank x = rank y := by
  rw [equivalent_iff,Bool.eq_false_iff,Bool.eq_false_iff,Ne,Ne,same,same,not_lt,not_lt]
  exact ⟨fun both => le_antisymm both.2 both.1,fun equal => ⟨ge_of_eq equal,le_of_eq equal⟩⟩

section order
variable [order : WeakOrder less]

theorem less_congr {x y : κ} (same : equivalent less x y = true) (z : κ) : less z x = less z y ∧ less x z = less y z := by
  obtain ⟨notBefore,notAfter⟩ := equivalent_iff.mp same
  constructor
  · rw [Bool.eq_iff_iff]
    constructor
    · intro before
      exact (order.apart before).resolve_right (by rw [notAfter]; exact Bool.false_ne_true)
    · intro before
      exact (order.apart before).resolve_right (by rw [notBefore]; exact Bool.false_ne_true)
  · rw [Bool.eq_iff_iff]
    constructor
    · intro before
      exact (order.apart before).resolve_left (by rw [notBefore]; exact Bool.false_ne_true)
    · intro before
      exact (order.apart before).resolve_left (by rw [notAfter]; exact Bool.false_ne_true)

theorem equivalent_refl (x : κ) : equivalent less x x = true :=
  equivalent_iff.mpr ⟨order.irrefl x,order.irrefl x⟩

omit order in
theorem equivalent_comm (x y : κ) : equivalent less x y = equivalent less y x := Bool.and_comm _ _

theorem equivalent_trans {x y z : κ} (first : equivalent less x y = true) (second : equivalent less y z = true) :
    equivalent less x z = true := by
  have same := less_congr first z
  rw [equivalent,same.1,same.2]
  exact second

theorem lookup_congr (same : equivalent less k key = true) (l : List (κ × ν)) : lookup less k l = lookup less key l := by
  induction l with
  | nil => rfl
  | cons entry rest ih =>
      have both := less_congr same entry.1
      rw [lookup,lookup,both.1,both.2,ih]

omit order in
theorem place_keys (entry : κ × ν) (member : entry ∈ place less key v merge l) :
    entry.1 = key ∨ ∃ old ∈ l, old.1 = entry.1 := by
  induction l with
  | nil => rw [place,List.mem_singleton] at member; exact .inl (by rw [member])
  | cons head rest ih =>
      rw [place] at member
      split at member
      · rcases List.mem_cons.mp member with rfl | old
        · exact .inl rfl
        · exact .inr ⟨entry,old,rfl⟩
      · split at member
        · rcases List.mem_cons.mp member with rfl | later
          · exact .inr ⟨head,.head _,rfl⟩
          · exact (ih later).imp_right fun ⟨old,present,same⟩ => ⟨old,.tail _ present,same⟩
        · rcases List.mem_cons.mp member with rfl | old
          · exact .inr ⟨head,.head _,rfl⟩
          · exact .inr ⟨entry,.tail _ old,rfl⟩

theorem place_sorted (sorted : l.Pairwise fun a b => less a.1 b.1 = true) :
    (place less key v merge l).Pairwise fun a b => less a.1 b.1 = true := by
  induction l with
  | nil => exact List.pairwise_singleton _ _
  | cons head rest ih =>
      obtain ⟨first,tail⟩ := List.pairwise_cons.mp sorted
      rw [place]
      split
      · rename_i before
        refine List.pairwise_cons.mpr ⟨?_,sorted⟩
        intro entry member
        rcases List.mem_cons.mp member with rfl | later
        · exact before
        · exact order.trans before (first entry later)
      · split
        · rename_i after
          refine List.pairwise_cons.mpr ⟨?_,ih tail⟩
          intro entry member
          rcases place_keys entry member with same | ⟨old,present,same⟩
          · rw [same]; exact after
          · rw [←same]; exact first old present
        · exact List.pairwise_cons.mpr ⟨first,tail⟩

theorem place_place (key : κ) (value again : ν) (sorted : l.Pairwise fun a b => less a.1 b.1 = true) :
    place less key again (fun _ => again) (place less key value (fun _ => value) l) =
      place less key again (fun _ => again) l := by
  induction l with
  | nil => simp [place,order.irrefl]
  | cons head rest ih =>
      by_cases before : less key head.1 = true
      · simp [place,before,order.irrefl]
      · by_cases after : less head.1 key = true
        · simp [place,before,after,ih (List.pairwise_cons.mp sorted).2]
        · simp [place,before,after]

theorem lookup_none (later : ∀ entry ∈ l, less k entry.1 = true) : lookup less k l = none := by
  cases l with
  | nil => rfl
  | cons head rest =>
      have before := later head (.head _)
      have notAfter : less head.1 k = false := by
        by_contra after
        have loop := order.trans before (Bool.not_eq_false _ ▸ after)
        rw [order.irrefl] at loop
        cases loop
      rw [lookup,if_neg (by rw [notAfter]; exact Bool.false_ne_true),if_pos before]

-- What the map says of each key after the entry has been placed.
theorem lookup_place (k key : κ) (v : ν) (merge : ν → ν) (sorted : l.Pairwise fun a b => less a.1 b.1 = true) :
    lookup less k (place less key v merge l) =
      if equivalent less k key then some (((lookup less key l).map merge).getD v) else lookup less k l := by
  by_cases same : equivalent less k key = true
  · rw [if_pos same,lookup_congr same]
    induction l with
    | nil => simp [place,lookup,order.irrefl]
    | cons head rest ih =>
        obtain ⟨first,tail⟩ := List.pairwise_cons.mp sorted
        rw [place]
        by_cases before : less key head.1 = true
        · have later : ∀ entry ∈ head :: rest, less key entry.1 = true := by
            intro entry member
            rcases List.mem_cons.mp member with rfl | old
            · exact before
            · exact order.trans before (first entry old)
          rw [if_pos before,lookup_none later]
          simp [lookup,order.irrefl]
        · rw [if_neg before]
          by_cases after : less head.1 key = true
          · simp only [if_pos after,lookup,ih tail]
          · simp [lookup,before,after]
  · rw [if_neg same]
    have strict : less key k = true ∨ less k key = true := by
      by_contra neither
      rw [not_or] at neither
      exact same (by simp [equivalent,neither.1,neither.2])
    induction l with
    | nil => rcases strict with less | less <;> simp [place,lookup,less]
    | cons head rest ih =>
        obtain ⟨first,tail⟩ := List.pairwise_cons.mp sorted
        rw [place]
        by_cases before : less key head.1 = true
        · rw [if_pos before]
          by_cases after : less key k = true
          · rw [lookup,if_pos after]
          · have under := strict.resolve_left after
            have later : ∀ entry ∈ head :: rest, less k entry.1 = true := by
              intro entry member
              rcases List.mem_cons.mp member with rfl | old
              · exact order.trans under before
              · exact order.trans under (order.trans before (first entry old))
            rw [lookup,if_neg after,if_pos under,lookup_none later]
        · rw [if_neg before]
          by_cases after : less head.1 key = true
          · simp only [if_pos after,lookup,ih tail]
          · rw [if_neg after,lookup,lookup]
            by_cases past : less head.1 k = true
            · rw [if_pos past,if_pos past]
            · by_cases under : less k head.1 = true
              · rw [if_neg past,if_pos under,if_neg past,if_pos under]
              · have here : equivalent less k head.1 = true := by simp [equivalent,past,under]
                have there : equivalent less head.1 key = true := by simp [equivalent,before,after]
                exact absurd (equivalent_trans here there) same

end order

def empty : KeyedMap less ν := ⟨[],.nil⟩

def find (m : KeyedMap less ν) (key : κ) : Option ν := lookup less key m.entries

section operations
variable [WeakOrder less]

-- `insert` of a pair, and assignment through `operator[]`.
def insert (m : KeyedMap less ν) (key : κ) (value : ν) : KeyedMap less ν :=
  ⟨place less key value id m.entries,place_sorted m.sorted⟩

def assign (m : KeyedMap less ν) (key : κ) (value : ν) : KeyedMap less ν :=
  ⟨place less key value (fun _ => value) m.entries,place_sorted m.sorted⟩

theorem find_insert (m : KeyedMap less ν) (key : κ) (value : ν) (k : κ) :
    (m.insert key value).find k = if equivalent less k key then some ((m.find key).getD value) else m.find k := by
  have result := lookup_place k key value id m.sorted
  rw [Option.map_id] at result
  exact result

theorem assign_assign (m : KeyedMap less ν) (key : κ) (value again : ν) :
    (m.assign key value).assign key again = m.assign key again := by
  simp only [assign,place_place key value again m.sorted]

def insertAll (m : KeyedMap less ν) (pairs : List (κ × ν)) : KeyedMap less ν :=
  pairs.foldl (fun m pair => m.insert pair.1 pair.2) m

-- The value of the first pair with an equivalent key.
def firstValue (less : κ → κ → Bool) (pairs : List (κ × ν)) (k : κ) : Option ν :=
  (pairs.find? fun pair => equivalent less k pair.1).map Prod.snd

theorem find_insertAll (pairs : List (κ × ν)) (m : KeyedMap less ν) (k : κ) :
    (m.insertAll pairs).find k = (m.find k).or (firstValue less pairs k) := by
  induction pairs generalizing m with
  | nil => simp [insertAll,firstValue]
  | cons pair rest ih =>
      have step := ih (m.insert pair.1 pair.2)
      rw [find_insert] at step
      rw [insertAll,List.foldl_cons,←insertAll,step,firstValue,firstValue]
      by_cases same : equivalent less k pair.1 = true
      · have known : m.find k = m.find pair.1 := lookup_congr same m.entries
        rw [if_pos same,←known]
        simp only [List.find?_cons,same]
        cases m.find k <;> rfl
      · rw [if_neg same]
        simp only [List.find?_cons,Bool.eq_false_iff.mpr same]

theorem find_assign (m : KeyedMap less ν) (key : κ) (value : ν) (k : κ) :
    (m.assign key value).find k = if equivalent less k key then some value else m.find k := by
  have result := lookup_place k key value (fun _ => value) m.sorted
  have last : ((lookup less key m.entries).map fun _ => value).getD value = value := by
    cases lookup less key m.entries <;> rfl
  rw [last] at result
  exact result

def assignAll (m : KeyedMap less ν) (pairs : List (κ × ν)) : KeyedMap less ν :=
  pairs.foldl (fun m pair => m.assign pair.1 pair.2) m

-- The last assignment to an equivalent key stands.
theorem find_assignAll (pairs : List (κ × ν)) (m : KeyedMap less ν) (k : κ) :
    (m.assignAll pairs).find k = (firstValue less pairs.reverse k).or (m.find k) := by
  induction pairs generalizing m with
  | nil => rfl
  | cons pair rest ih =>
      rw [assignAll,List.foldl_cons,←assignAll,ih,find_assign,List.reverse_cons,firstValue,firstValue,List.find?_append]
      cases later : rest.reverse.find? fun pair => equivalent less k pair.1 with
      | some found => rfl
      | none =>
          by_cases same : equivalent less k pair.1 = true
          · rw [if_pos same,List.find?_singleton,if_pos same]
            rfl
          · rw [if_neg same,List.find?_singleton,if_neg same]
            rfl

-- In a sorted list the first equivalent key is the one that is looked up.
theorem lookup_firstValue (k : κ) (sorted : l.Pairwise fun a b => less a.1 b.1 = true) :
    lookup less k l = firstValue less l k := by
  induction l with
  | nil => rfl
  | cons head rest ih =>
      obtain ⟨first,tail⟩ := List.pairwise_cons.mp sorted
      rw [lookup]
      by_cases after : less head.1 k = true
      · rw [if_pos after,ih tail]
        simp [firstValue,equivalent,after]
      · rw [if_neg after]
        by_cases before : less k head.1 = true
        · rw [if_pos before,firstValue,List.find?_eq_none.mpr]
          · rfl
          · intro entry member
            have under : less k entry.1 = true := by
              rcases List.mem_cons.mp member with rfl | later
              · exact before
              · exact WeakOrder.trans before (first entry later)
            simp [equivalent,under]
        · simp [firstValue,equivalent,after,before]

omit [WeakOrder less] in
-- No two entries have equivalent keys.
theorem entry_unique {a b : κ × ν} (sorted : l.Pairwise fun a b => less a.1 b.1 = true) (first : a ∈ l) (second : b ∈ l)
    (same : equivalent less a.1 b.1 = true) : a = b := by
  obtain ⟨notBefore,notAfter⟩ := equivalent_iff.mp same
  induction l with
  | nil => cases first
  | cons head rest ih =>
      obtain ⟨before,tail⟩ := List.pairwise_cons.mp sorted
      rcases List.mem_cons.mp first with rfl | first
      · rcases List.mem_cons.mp second with rfl | second
        · rfl
        · exact absurd (notBefore.symm.trans (before b second)) Bool.false_ne_true
      · rcases List.mem_cons.mp second with here | second
        · rw [here] at notAfter
          exact absurd (notAfter.symm.trans (before a first)) Bool.false_ne_true
        · exact ih tail first second

theorem find_some (m : KeyedMap less ν) (k : κ) (v : ν) :
    m.find k = some v ↔ ∃ key, (key,v) ∈ m.entries ∧ equivalent less k key = true := by
  rw [find,lookup_firstValue k m.sorted,firstValue,Option.map_eq_some_iff]
  constructor
  · rintro ⟨entry,found,rfl⟩
    have same := List.find?_some found
    exact ⟨entry.1,List.mem_of_find?_eq_some found,same⟩
  · rintro ⟨key,member,same⟩
    cases found : m.entries.find? fun entry => equivalent less k entry.1 with
    | none => exact absurd same (List.find?_eq_none.mp found (key,v) member)
    | some entry =>
        have here := List.find?_some found
        have known : equivalent less entry.1 key = true := equivalent_trans (equivalent_comm k entry.1 ▸ here) same
        exact ⟨entry,rfl,congrArg Prod.snd
          (entry_unique m.sorted (List.mem_of_find?_eq_some found) member known)⟩

-- A key that has an equivalent one gets no entry of its own.
theorem place_length (key : κ) (value : ν) (merge : ν → ν) (sorted : l.Pairwise fun a b => less a.1 b.1 = true) :
    (place less key value merge l).length = l.length ↔ ∃ entry ∈ l, equivalent less key entry.1 = true := by
  induction l with
  | nil => simp [place]
  | cons head rest ih =>
      obtain ⟨first,tail⟩ := List.pairwise_cons.mp sorted
      rw [place]
      by_cases before : less key head.1 = true
      · rw [if_pos before]
        refine iff_of_false (by simp) ?_
        rintro ⟨entry,member,same⟩
        have under : less key entry.1 = true := by
          rcases List.mem_cons.mp member with rfl | later
          · exact before
          · exact WeakOrder.trans before (first entry later)
        exact absurd ((equivalent_iff.mp same).1.symm.trans under) Bool.false_ne_true
      · rw [if_neg before]
        by_cases after : less head.1 key = true
        · have apart : ¬equivalent less key head.1 = true := fun same =>
            absurd ((equivalent_iff.mp same).2.symm.trans after) Bool.false_ne_true
          rw [if_pos after,List.length_cons,List.length_cons,Nat.add_right_cancel_iff,ih tail]
          simp [apart]
        · rw [if_neg after]
          refine iff_of_true rfl ⟨head,.head _,?_⟩
          exact equivalent_iff.mpr ⟨Bool.eq_false_iff.mpr before,Bool.eq_false_iff.mpr after⟩

omit [WeakOrder less] in
def erase (m : KeyedMap less ν) (key : κ) : KeyedMap less ν :=
  ⟨m.entries.filter fun entry => !equivalent less key entry.1,m.sorted.filter _⟩

theorem find_erase (m : KeyedMap less ν) (key k : κ) :
    (m.erase key).find k = if equivalent less k key then none else m.find k := by
  rw [find,find,lookup_firstValue k (m.erase key).sorted,lookup_firstValue k m.sorted,erase,firstValue,
    List.find?_filter]
  split
  · rename_i same
    rw [List.find?_eq_none.mpr]
    · rfl
    · intro entry member both
      simp only [Bool.not_eq_true',decide_eq_true_eq] at both
      have known := equivalent_trans (equivalent_comm k key ▸ same) both.2
      rw [known] at both
      cases both.1
  · rename_i apart
    rw [firstValue]
    congr 2
    funext entry
    cases here : equivalent less k entry.1 with
    | false => simp
    | true =>
        have other : equivalent less key entry.1 = false := by
          by_contra known
          rw [Bool.not_eq_false] at known
          rw [equivalent_comm key] at known
          exact apart (equivalent_trans here known)
        simp [other]

omit [WeakOrder less] in
theorem ext {m n : KeyedMap less ν} (same : m.entries = n.entries) : m = n := by
  cases m
  cases n
  cases same
  rfl

omit [WeakOrder less] in
theorem place_perm (apart : ∀ entry ∈ l, equivalent less key entry.1 = false) :
    (place less key v merge l).Perm ((key,v) :: l) := by
  induction l with
  | nil => exact .refl _
  | cons head rest ih =>
      rw [place]
      split
      · exact .refl _
      · rename_i before
        split
        · exact ((ih fun entry member => apart entry (.tail _ member)).cons head).trans (.swap _ _ _)
        · rename_i after
          have same : equivalent less key head.1 = true :=
            equivalent_iff.mpr ⟨Bool.eq_false_iff.mpr before,Bool.eq_false_iff.mpr after⟩
          rw [apart head (.head _)] at same
          cases same

-- Pairs with different keys all get entries.
theorem insertAll_perm (pairs : List (κ × ν)) (m : KeyedMap less ν)
    (apart : pairs.Pairwise fun a b => equivalent less b.1 a.1 = false)
    (fresh : ∀ a ∈ m.entries, ∀ b ∈ pairs, equivalent less b.1 a.1 = false) :
    (m.insertAll pairs).entries.Perm (m.entries ++ pairs) := by
  induction pairs generalizing m with
  | nil =>
      rw [List.append_nil]
      exact .refl _
  | cons pair rest ih =>
      obtain ⟨first,later⟩ := List.pairwise_cons.mp apart
      have placed : (m.insert pair.1 pair.2).entries.Perm (pair :: m.entries) :=
        place_perm fun entry member => fresh entry member pair (.head _)
      have step := ih (m.insert pair.1 pair.2) later (by
        intro a present b member
        rcases List.mem_cons.mp (placed.subset present) with rfl | old
        · exact first b member
        · exact fresh a old b (.tail _ member))
      rw [insertAll,List.foldl_cons]
      exact step.trans ((placed.append_right rest).trans List.perm_middle.symm)

omit [WeakOrder less] in
theorem entries_apart (m : KeyedMap less ν) : m.entries.Pairwise fun a b => equivalent less b.1 a.1 = false := by
  refine m.sorted.imp fun {a b} before => ?_
  rw [equivalent,before,Bool.not_true,Bool.and_false]

-- A map is what its own entries build.
theorem insertAll_entries (m : KeyedMap less ν) (l : List (κ × ν)) (same : l.Perm m.entries) :
    (empty : KeyedMap less ν).insertAll l = m := by
  have symmetric : ∀ {a b : κ × ν}, equivalent less b.1 a.1 = false → equivalent less a.1 b.1 = false := by
    intro a b apart
    rwa [equivalent_comm]
  have apart := same.symm.pairwise m.entries_apart symmetric
  have built := (insertAll_perm l empty apart nofun).trans same
  refine ext (built.eq_of_pairwise ?_ (insertAll empty l).sorted m.sorted)
  intro a b _ _ before after
  have loop : less a.1 a.1 = true := WeakOrder.trans before after
  cases (WeakOrder.irrefl a.1).symm.trans loop

end operations

end KeyedMap
