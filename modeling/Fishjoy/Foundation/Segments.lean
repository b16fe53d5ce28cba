import Fishjoy.Foundation.Blocks

namespace Blocks

-- A place inside one block of a list of blocks.
structure Segment where
  block : Nat
  offset : Nat
  length : Nat
  deriving DecidableEq

variable {α : Type} {size : Nat} {blocks : List (List α)} {segments : List Segment} {values : List α}

def total (segments : List Segment) : Nat := (segments.map Segment.length).sum

def gather (blocks : List (List α)) (segments : List Segment) : List α :=
  segments.flatMap fun s => ((blocks[s.block]?.getD []).drop s.offset).take s.length

-- The values fill the segments in order and may end inside one.
def scatter : List (List α) → List Segment → List α → List (List α)
  | blocks,[],_ => blocks
  | blocks,s :: rest,values =>
    scatter (blocks.modify s.block fun block => overwrite block s.offset (values.take s.length)) rest
      (values.drop s.length)

def Within (size count : Nat) (segments : List Segment) : Prop :=
  ∀ s ∈ segments, s.block < count ∧ s.offset+s.length ≤ size

instance : Decidable (Within size count segments) :=
  inferInstanceAs (Decidable (∀ s ∈ segments, s.block < count ∧ s.offset+s.length ≤ size))

-- Every segment begins where the one before it ends, in the flat order.
def Contiguous (size : Nat) : Nat → List Segment → Prop
  | _,[] => True
  | start,s :: rest => size*s.block+s.offset = start ∧ Contiguous size (start+s.length) rest

-- Every segment lies between the start and the end of all of them.
theorem Contiguous.between (order : Contiguous size start segments) (s : Segment) (member : s ∈ segments) :
    start ≤ size*s.block+s.offset ∧ size*s.block+s.offset+s.length ≤ start+total segments := by
  induction segments generalizing start with
  | nil => cases member
  | cons first rest ih =>
      obtain ⟨here,later⟩ := order
      have sum : total (first :: rest) = first.length+total rest := by simp [total]
      rcases List.mem_cons.mp member with rfl | tail
      · omega
      · have bounds := ih later tail
        omega

theorem Uniform.block (uniform : Uniform size blocks) (inside : i < blocks.length) (offset count : Nat)
    (fits : offset+count ≤ size) :
    ((blocks[i]?.getD []).drop offset).take count = (blocks.flatten.drop (size*i+offset)).take count := by
  have width : blocks[i].length = size := uniform _ (List.getElem_mem inside)
  have parts : (blocks.drop i).flatten = blocks[i] ++ (blocks.drop (i+1)).flatten := by
    rw [List.drop_eq_getElem_cons inside,List.flatten_cons]
  rw [←List.drop_drop,←uniform.drop,parts,List.getElem?_eq_getElem inside,Option.getD_some,
    List.drop_append_of_le_length (by omega),List.take_append_of_le_length (by rw [List.length_drop]; omega)]

theorem gather_spec (uniform : Uniform size blocks) (within : Within size blocks.length segments)
    (order : Contiguous size start segments) :
    gather blocks segments = (blocks.flatten.drop start).take (total segments) := by
  induction segments generalizing start with
  | nil => simp [gather,total]
  | cons s rest ih =>
      obtain ⟨inside,fits⟩ := within s (.head _)
      obtain ⟨here,later⟩ := order
      have tail := ih (fun s member => within s (.tail _ member)) later
      have whole : gather blocks (s :: rest) =
          ((blocks[s.block]?.getD []).drop s.offset).take s.length ++ gather blocks rest := rfl
      have sum : total (s :: rest) = s.length+total rest := by simp [total]
      rw [whole,tail,uniform.block inside _ _ fits,here,sum,List.take_add,List.drop_drop]

theorem Uniform.modify (uniform : Uniform size blocks) (i : Nat) (fits : offset+values.length ≤ size) :
    Uniform size (blocks.modify i fun block => overwrite block offset values) := by
  intro block member
  obtain ⟨j,bound,rfl⟩ := List.getElem_of_mem member
  rw [List.getElem_modify]
  rw [List.length_modify] at bound
  have width : blocks[j].length = size := uniform _ (List.getElem_mem bound)
  by_cases same : i = j
  · rw [if_pos same,overwrite_length (by omega)]; omega
  · rw [if_neg same]; exact width

theorem Uniform.modify_flatten (uniform : Uniform size blocks) (inside : i < blocks.length)
    (fits : offset+values.length ≤ size) :
    (blocks.modify i fun block => overwrite block offset values).flatten =
      overwrite blocks.flatten (size*i+offset) values := by
  have width : blocks[i].length = size := uniform _ (List.getElem_mem inside)
  have front : (blocks.take i).flatten.length = size*i := by
    rw [uniform.take,List.length_take,uniform.length]
    exact Nat.min_eq_left (Nat.mul_le_mul_left _ (Nat.le_of_lt inside))
  have parts : blocks.flatten = (blocks.take i).flatten ++ (blocks[i] ++ (blocks.drop (i+1)).flatten) := by
    rw [←List.flatten_cons,←List.drop_eq_getElem_cons inside,←List.flatten_append,List.take_append_drop]
  rw [List.modify_eq_take_cons_drop inside,List.flatten_append,List.flatten_cons,parts,←front,overwrite_back,
    overwrite_front _ (by omega)]

theorem overwrite_nothing (l : List α) (position : Nat) : overwrite l position [] = l := by
  simp [overwrite]

theorem overwrite_twice (l : List α) (position : Nat) (first second : List α) (bound : position ≤ l.length) :
    overwrite (overwrite l position first) (position+first.length) second = overwrite l position (first ++ second) := by
  rw [overwrite,overwrite_take bound,overwrite_drop bound (Nat.le_add_right _ _),overwrite,List.length_append]
  simp only [List.append_assoc,Nat.add_assoc]

theorem scatter_spec (uniform : Uniform size blocks) (within : Within size blocks.length segments)
    (order : Contiguous size start segments) (room : values.length ≤ total segments) :
    (scatter blocks segments values).flatten = overwrite blocks.flatten start values := by
  induction segments generalizing start blocks values with
  | nil =>
      rw [total,List.map_nil,List.sum_nil] at room
      rw [List.length_eq_zero_iff.mp (Nat.le_zero.mp room),overwrite_nothing]
      rfl
  | cons s rest ih =>
      obtain ⟨inside,fits⟩ := within s (.head _)
      obtain ⟨rfl,later⟩ := order
      have short : (values.take s.length).length ≤ s.length := by rw [List.length_take]; omega
      have left : (values.drop s.length).length ≤ total rest := by
        have sum : total (s :: rest) = s.length+total rest := by simp [total]
        rw [List.length_drop]; omega
      have front := uniform.modify_flatten inside (Nat.le_trans (Nat.add_le_add_left short s.offset) fits)
      have bound : size*s.block+s.offset ≤ blocks.flatten.length := by
        have next := Nat.mul_le_mul_left size (Nat.succ_le_of_lt inside)
        rw [uniform.length,Nat.mul_succ] at *
        omega
      rw [scatter,ih (uniform.modify s.block (Nat.le_trans (Nat.add_le_add_left short s.offset) fits))
        (by rw [List.length_modify]; exact fun s member => within s (.tail _ member)) later left,front]
      by_cases fills : s.length ≤ values.length
      · have whole : (values.take s.length).length = s.length := by rw [List.length_take]; omega
        have both := overwrite_twice blocks.flatten (size*s.block+s.offset) (values.take s.length)
          (values.drop s.length) bound
        rw [whole,List.take_append_drop] at both
        exact both
      · rw [List.drop_eq_nil_of_le (by omega),overwrite_nothing,List.take_of_length_le (by omega)]

theorem scatter_uniform (uniform : Uniform size blocks) (within : Within size blocks.length segments) (values : List α) :
    Uniform size (scatter blocks segments values) ∧ (scatter blocks segments values).length = blocks.length := by
  induction segments generalizing blocks values with
  | nil => exact ⟨uniform,rfl⟩
  | cons s rest ih =>
      obtain ⟨_,fits⟩ := within s (.head _)
      have short : (values.take s.length).length ≤ s.length := by rw [List.length_take]; omega
      have kept := uniform.modify s.block (Nat.le_trans (Nat.add_le_add_left short s.offset) fits)
      obtain ⟨shape,count⟩ := ih kept (by
        rw [List.length_modify]
        exact fun s member => within s (.tail _ member)) (values.drop s.length)
      exact ⟨shape,count.trans (List.length_modify _ _ _)⟩

end Blocks
