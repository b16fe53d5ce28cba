import Mathlib.Data.List.Basic
import Mathlib.Data.List.TakeWhile

namespace Fields

-- Texts of fields with one symbol between any two, where a field is a key and
-- a value with another symbol between them.
variable {α : Type} [DecidableEq α] {x mark stop : α} {front back key value pending segment str : List α}

theorem takeWhile_absent (absent : x ∉ front) : front.takeWhile (· ≠ x) = front ∧ front.dropWhile (· ≠ x) = [] := by
  have all : ∀ y ∈ front, (decide (y ≠ x)) = true := fun y member =>
    decide_eq_true fun same => absent (same ▸ member)
  exact ⟨List.takeWhile_eq_self_iff.mpr all,List.dropWhile_eq_nil_iff.mpr all⟩

theorem takeWhile_found (back : List α) (absent : x ∉ front) :
    (front ++ x :: back).takeWhile (· ≠ x) = front ∧ (front ++ x :: back).dropWhile (· ≠ x) = x :: back := by
  have all : ∀ y ∈ front, (decide (y ≠ x)) = true := fun y member =>
    decide_eq_true fun same => absent (same ▸ member)
  constructor
  · rw [List.takeWhile_append_of_pos all]; simp
  · rw [List.dropWhile_append_of_pos all]; simp

theorem first_occurrence (member : x ∈ front) : ∃ a b, front = a ++ x :: b ∧ x ∉ a ∧ front.takeWhile (· ≠ x) = a := by
  obtain ⟨a,b,rfl,absent⟩ := List.eq_append_cons_of_mem member
  exact ⟨a,b,rfl,absent,(takeWhile_found b absent).1⟩

-- A text has no separator or is cut at its first one.
omit [DecidableEq α] in
theorem separated {P : List α → Prop} (stop : α) (last : ∀ s, stop ∉ s → P s)
    (more : ∀ a b, stop ∉ a → P b → P (a ++ stop :: b)) (str : List α) : P str := by
  induction size : str.length using Nat.strongRecOn generalizing str with
  | ind n ih =>
      by_cases member : stop ∈ str
      · obtain ⟨a,b,rfl,absent⟩ := List.eq_append_cons_of_mem member
        refine more a b absent (ih b.length ?_ b rfl)
        rw [←size,List.length_append,List.length_cons]
        omega
      · exact last str member

-- One pass over the text: a key ends at the next `mark`, its value at the
-- next `stop`.
def scan (mark stop : α) (str : List α) : List (List α × List α) :=
  match _found : str.dropWhile (· ≠ mark) with
  | [] => []
  | _ :: tail =>
    (str.takeWhile (· ≠ mark),tail.takeWhile (· ≠ stop)) ::
      match _more : tail.dropWhile (· ≠ stop) with
      | [] => []
      | _ :: next => scan mark stop next
termination_by str.length
decreasing_by
  have first := (List.dropWhile_sublist (l := str) (· ≠ mark)).length_le
  have second := (List.dropWhile_sublist (l := tail) (· ≠ stop)).length_le
  rw [_found,List.length_cons] at first
  rw [_more,List.length_cons] at second
  omega

theorem scan_bare (absent : mark ∉ str) : scan mark stop str = [] := by
  rw [scan]
  split
  · rfl
  · rename_i found
    rw [(takeWhile_absent absent).2] at found
    cases found

theorem scan_last (noMark : mark ∉ key) (noStop : stop ∉ value) :
    scan mark stop (key ++ mark :: value) = [(key,value)] := by
  obtain ⟨front,back⟩ := takeWhile_found value noMark
  obtain ⟨body,ended⟩ := takeWhile_absent noStop
  rw [scan]
  split
  · rename_i bare
    rw [back] at bare
    cases bare
  · rename_i tail found
    rw [back] at found
    cases found
    rw [front,body]
    split
    · rfl
    · rename_i more
      rw [ended] at more
      cases more

theorem scan_next (noMark : mark ∉ key) (noStop : stop ∉ value) (next : List α) :
    scan mark stop (key ++ mark :: (value ++ stop :: next)) = (key,value) :: scan mark stop next := by
  obtain ⟨front,back⟩ := takeWhile_found (value ++ stop :: next) noMark
  obtain ⟨body,rest⟩ := takeWhile_found next noStop
  rw [scan]
  split
  · rename_i bare
    rw [back] at bare
    cases bare
  · rename_i tail found
    rw [back] at found
    cases found
    rw [front,body]
    split
    · rename_i ended
      rw [rest] at ended
      cases ended
    · rename_i more
      rw [rest] at more
      cases more
      rfl

-- A text that is passed over as `scan` does.
omit [DecidableEq α] in
theorem scanned {P : List α → Prop} (mark stop : α) (bare : ∀ s, mark ∉ s → P s)
    (last : ∀ key value, mark ∉ key → stop ∉ value → P (key ++ mark :: value))
    (next : ∀ key value rest, mark ∉ key → stop ∉ value → P rest → P (key ++ mark :: (value ++ stop :: rest)))
    (str : List α) : P str := by
  induction size : str.length using Nat.strongRecOn generalizing str with
  | ind n ih =>
      by_cases marked : mark ∈ str
      · obtain ⟨key,tail,rfl,noMark⟩ := List.eq_append_cons_of_mem marked
        by_cases stopped : stop ∈ tail
        · obtain ⟨value,rest,rfl,noStop⟩ := List.eq_append_cons_of_mem stopped
          refine next key value rest noMark noStop (ih rest.length ?_ rest rfl)
          simp only [List.length_append,List.length_cons] at size
          omega
        · exact last key tail noMark stopped
      · exact bare str marked

-- A field by itself: its text up to the first `mark` and behind it.
def field (mark : α) (segment : List α) : Option (List α × List α) :=
  if mark ∈ segment then some (segment.takeWhile (· ≠ mark),(segment.dropWhile (· ≠ mark)).tail) else none

def fields (mark stop : α) (str : List α) : List (List α × List α) := (str.splitOn stop).filterMap (field mark)

-- No field that has a key stands behind one that has none.
def Keyed (mark stop : α) (str : List α) : Prop :=
  (str.splitOn stop).Pairwise fun before segment => mark ∈ segment → mark ∈ before

instance : Decidable (Keyed mark stop str) := inferInstanceAs (Decidable (List.Pairwise _ _))

-- The fields one by one, with the text before the next key.
def joined (mark stop : α) : List α → List (List α) → List (List α × List α)
  | _,[] => []
  | pending,segment :: rest =>
    match field mark segment with
    | some pair => (pending ++ pair.1,pair.2) :: joined mark stop [] rest
    | none => joined mark stop (pending ++ segment ++ [stop]) rest

theorem field_found (value : List α) (absent : mark ∉ key) : field mark (key ++ mark :: value) = some (key,value) := by
  obtain ⟨front,back⟩ := takeWhile_found value absent
  rw [field,if_pos (by simp),front,back]
  rfl

theorem field_none : field mark str = none ↔ mark ∉ str := by
  rw [field]
  split
  · rename_i member; simp [member]
  · rename_i absent; simp [absent]

theorem field_parts (found : field mark str = some pair) : str = pair.1 ++ mark :: pair.2 ∧ mark ∉ pair.1 := by
  by_cases member : mark ∈ str
  · obtain ⟨a,b,rfl,absent⟩ := List.eq_append_cons_of_mem member
    rw [field_found b absent] at found
    cases found
    exact ⟨rfl,absent⟩
  · rw [field_none.mpr member] at found
    cases found

theorem joined_some (rest : List (List α)) (here : field mark segment = some pair) :
    joined mark stop pending (segment :: rest) = (pending ++ pair.1,pair.2) :: joined mark stop [] rest := by
  rw [joined,here]

theorem joined_none (rest : List (List α)) (bare : mark ∉ segment) :
    joined mark stop pending (segment :: rest) = joined mark stop (pending ++ segment ++ [stop]) rest := by
  rw [joined,field_none.mpr bare]

theorem splitOn_absent (stop : α) (str segment : List α) (member : segment ∈ str.splitOn stop) : stop ∉ segment := by
  induction str using separated stop with
  | last s absent =>
      rw [List.splitOn_eq_singleton absent,List.mem_singleton] at member
      rw [member]
      exact absent
  | more a b absent ih =>
      rw [List.splitOn_append_cons_self_of_not_mem absent] at member
      rcases List.mem_cons.mp member with rfl | later
      · exact absent
      · exact ih later

theorem scan_joined (apart : mark ≠ stop) (str pending : List α) (noMark : mark ∉ pending) :
    scan mark stop (pending ++ str) = joined mark stop pending (str.splitOn stop) := by
  induction str using separated stop generalizing pending with
  | last s absent =>
      rw [List.splitOn_eq_singleton absent]
      cases here : field mark s with
      | some pair =>
          obtain ⟨rfl,own⟩ := field_parts here
          have value : stop ∉ pair.2 := fun among => absent (by simp [among])
          have key : mark ∉ pending ++ pair.1 := by simp [noMark,own]
          rw [joined_some [] here,←List.append_assoc,scan_last key value]
          rfl
      | none =>
          have bare := field_none.mp here
          rw [joined_none [] bare,scan_bare (by simp [noMark,bare])]
          rfl
  | more a b absent ih =>
      rw [List.splitOn_append_cons_self_of_not_mem absent]
      cases here : field mark a with
      | some pair =>
          obtain ⟨rfl,own⟩ := field_parts here
          have value : stop ∉ pair.2 := fun among => absent (by simp [among])
          have key : mark ∉ pending ++ pair.1 := by simp [noMark,own]
          have text : pending ++ ((pair.1 ++ mark :: pair.2) ++ stop :: b) =
              (pending ++ pair.1) ++ mark :: (pair.2 ++ stop :: b) := by simp
          have later := ih [] List.not_mem_nil
          rw [List.nil_append] at later
          rw [joined_some _ here,text,scan_next key value,later]
      | none =>
          have bare := field_none.mp here
          have text : pending ++ (a ++ stop :: b) = (pending ++ a ++ [stop]) ++ b := by simp
          rw [joined_none _ bare,text]
          exact ih _ (by simp [noMark,bare,apart])

theorem joined_bare (segments : List (List α)) (pending : List α) (bare : ∀ segment ∈ segments, mark ∉ segment) :
    joined mark stop pending segments = [] := by
  induction segments generalizing pending with
  | nil => rfl
  | cons segment rest ih =>
      rw [joined_none rest (bare segment (.head _))]
      exact ih _ fun later member => bare later (.tail _ member)

-- What a segment without a key leaves pending ends up in the next key.
theorem joined_run (segments : List (List α)) (pending : List α) (run : stop ∈ pending)
    (apart : ∀ pair ∈ joined mark stop pending segments, stop ∉ pair.1) : ∀ segment ∈ segments, mark ∉ segment := by
  induction segments generalizing pending with
  | nil => intro segment member; cases member
  | cons segment rest ih =>
      cases here : field mark segment with
      | some pair =>
          rw [joined_some rest here] at apart
          exact absurd (List.mem_append_left _ run) (apart _ (.head _))
      | none =>
          have bare := field_none.mp here
          rw [joined_none rest bare] at apart
          intro later member
          rcases List.mem_cons.mp member with rfl | old
          · exact bare
          · exact ih _ (by simp) apart later old

theorem joined_exactly (segments : List (List α)) (closed : ∀ segment ∈ segments, stop ∉ segment) :
    (∀ pair ∈ joined mark stop [] segments, stop ∉ pair.1) ↔
      segments.Pairwise fun before segment => mark ∈ segment → mark ∈ before := by
  induction segments with
  | nil => simp [joined]
  | cons segment rest ih =>
      have ih := ih fun later member => closed later (.tail _ member)
      rw [List.pairwise_cons]
      cases here : field mark segment with
      | some pair =>
          obtain ⟨rfl,_⟩ := field_parts here
          have own : stop ∉ pair.1 := fun among => closed _ (.head _) (by simp [among])
          have marked : mark ∈ pair.1 ++ mark :: pair.2 := by simp
          rw [joined_some rest here,List.forall_mem_cons,ih]
          exact ⟨fun both => ⟨fun _ _ _ => marked,both.2⟩,fun both => ⟨own,both.2⟩⟩
      | none =>
          have bare := field_none.mp here
          rw [joined_none rest bare]
          constructor
          · intro apart
            have later := joined_run rest _ (by simp) apart
            refine ⟨fun segment member marked => absurd marked (later segment member),?_⟩
            refine List.pairwise_of_forall_mem_list ?_
            intro _ _ segment member marked
            exact absurd marked (later segment member)
          · rintro ⟨first,_⟩
            rw [joined_bare rest _ fun later member marked => bare (first later member marked)]
            intro pair member
            cases member

theorem joined_fields (segments : List (List α))
    (keyed : segments.Pairwise fun before segment => mark ∈ segment → mark ∈ before) :
    joined mark stop [] segments = segments.filterMap (field mark) := by
  induction segments with
  | nil => rfl
  | cons segment rest ih =>
      obtain ⟨first,tail⟩ := List.pairwise_cons.mp keyed
      cases here : field mark segment with
      | some pair =>
          rw [joined_some rest here,List.filterMap_cons_some here,←ih tail]
          rfl
      | none =>
          have bare := field_none.mp here
          have later : ∀ segment ∈ rest, mark ∉ segment := fun segment member marked => bare (first segment member marked)
          rw [List.filterMap_cons_none here,←ih tail,joined_none rest bare,joined_bare rest _ later,
            joined_bare rest _ later]

theorem scan_segments (apart : mark ≠ stop) (str : List α) :
    scan mark stop str = joined mark stop [] (str.splitOn stop) := by
  have whole := scan_joined apart str [] List.not_mem_nil
  rwa [List.nil_append] at whole

-- The keys of the pass stay within their fields exactly when the fields come
-- in that order, and then the pass finds the fields.
theorem scan_exactly (apart : mark ≠ stop) (str : List α) :
    (∀ pair ∈ scan mark stop str, stop ∉ pair.1) ↔ Keyed mark stop str := by
  rw [scan_segments apart,joined_exactly _ (splitOn_absent stop str)]
  rfl

theorem scan_fields (apart : mark ≠ stop) (keyed : Keyed mark stop str) : scan mark stop str = fields mark stop str := by
  rw [scan_segments apart,joined_fields _ keyed,fields]

end Fields
