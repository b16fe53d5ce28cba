import Mathlib.Data.List.Basic
import Mathlib.Tactic.Ring

namespace Blocks
variable {α : Type} {size : Nat} {blocks : List (List α)} {l front back values : List α}

-- The values replace what stands from the position on and may reach beyond
-- the end.
def overwrite (l : List α) (position : Nat) (values : List α) : List α :=
  l.take position ++ values ++ l.drop (position+values.length)

theorem overwrite_length (bound : position ≤ l.length) :
    (overwrite l position values).length = max l.length (position+values.length) := by
  simp only [overwrite,List.length_append,List.length_take,List.length_drop]
  omega

theorem overwrite_front (back : List α) (bound : position+values.length ≤ front.length) :
    overwrite (front++back) position values = overwrite front position values ++ back := by
  simp only [overwrite,List.append_assoc]
  rw [List.take_append_of_le_length (by omega),List.drop_append_of_le_length bound]

theorem overwrite_back (front back values : List α) (position : Nat) :
    overwrite (front++back) (front.length+position) values = front ++ overwrite back position values := by
  simp only [overwrite,List.append_assoc]
  rw [List.take_length_add_append,Nat.add_assoc,List.drop_length_add_append,List.append_assoc]

theorem overwrite_across (back : List α) {first : List α} (second : List α) (fills : position+first.length = front.length) :
    overwrite (front++back) position (first++second) =
      overwrite front position first ++ overwrite back 0 second := by
  have reach : front.length ≤ position+(first++second).length := by simp only [List.length_append]; omega
  have rest : position+(first++second).length-front.length = second.length := by
    simp only [List.length_append]; omega
  simp only [overwrite,List.take_zero,List.nil_append,Nat.zero_add]
  rw [List.take_append_of_le_length (by omega),List.drop_append,rest,List.drop_eq_nil_of_le reach,
    fills,List.drop_length,List.nil_append,List.append_nil,List.append_assoc,List.append_assoc,List.append_assoc]

theorem overwrite_take (bound : position ≤ l.length) :
    (overwrite l position values).take (position+values.length) = l.take position ++ values := by
  have width : (l.take position ++ values).length = position+values.length := by
    simp only [List.length_append,List.length_take]; omega
  rw [overwrite,List.take_append_of_le_length (Nat.le_of_eq width.symm),List.take_of_length_le (Nat.le_of_eq width)]

theorem overwrite_drop (bound : position ≤ l.length) (beyond : position+values.length ≤ n) :
    (overwrite l position values).drop n = l.drop n := by
  have width : (l.take position ++ values).length = position+values.length := by
    simp only [List.length_append,List.length_take]; omega
  rw [overwrite,List.drop_append,List.drop_eq_nil_of_le (by omega),width,List.nil_append,List.drop_drop]
  congr 1
  omega

-- Writing to a list whose tail is not part of the content yet.
theorem overwrite_content (start : position ≤ size) (fits : size ≤ l.length)
    (reach : position+values.length ≤ l.length) :
    (overwrite l position values).take (max size (position+values.length)) =
      overwrite (l.take size) position values := by
  by_cases longer : size ≤ position+values.length
  · have past : (l.take size).length ≤ position+values.length := by rw [List.length_take]; omega
    rw [Nat.max_eq_right longer,overwrite_take (by omega),overwrite,List.drop_eq_nil_of_le past,
      List.append_nil,List.take_take,Nat.min_eq_left start]
  · have inside : position+values.length ≤ (l.take size).length := by rw [List.length_take]; omega
    have whole := overwrite_front (l.drop size) inside
    have width : (overwrite (l.take size) position values).length = size := by
      rw [overwrite_length (by omega),List.length_take]; omega
    rw [List.take_append_drop] at whole
    rw [Nat.max_eq_left (by omega),whole,List.take_append_of_le_length (by omega),
      List.take_of_length_le (by omega)]

theorem overwrite_behind (start : position ≤ size) (fits : size ≤ l.length) :
    (overwrite l position values).drop (max size (position+values.length)) =
      (l.drop size).drop (position+values.length-size) := by
  rw [overwrite_drop (by omega) (Nat.le_max_right _ _),List.drop_drop]
  congr 1
  omega

-- Content kept in blocks of one size: the flat position is a block and an
-- offset in it.
def Uniform (size : Nat) (blocks : List (List α)) : Prop := ∀ block ∈ blocks, block.length = size

theorem Uniform.length (uniform : Uniform size blocks) : blocks.flatten.length = size*blocks.length := by
  induction blocks with
  | nil => simp
  | cons block rest ih =>
      rw [List.flatten_cons,List.length_append,ih fun b member => uniform b (.tail _ member),
        uniform block (.head _),List.length_cons]
      ring

theorem Uniform.drop (uniform : Uniform size blocks) (count : Nat) :
    (blocks.drop count).flatten = blocks.flatten.drop (size*count) := by
  induction count generalizing blocks with
  | zero => simp
  | succ count ih =>
      cases blocks with
      | nil => simp
      | cons block rest =>
          have width := uniform block (.head _)
          have beyond : size*(count+1) = block.length+size*count := by rw [width]; ring
          rw [List.drop_succ_cons,ih fun b member => uniform b (.tail _ member),List.flatten_cons,beyond,
            List.drop_append,List.drop_eq_nil_of_le (Nat.le_add_right _ _),List.nil_append,Nat.add_sub_cancel_left]

theorem Uniform.take (uniform : Uniform size blocks) (count : Nat) :
    (blocks.take count).flatten = blocks.flatten.take (size*count) := by
  have whole : (blocks.take count).flatten ++ (blocks.drop count).flatten = blocks.flatten := by
    rw [←List.flatten_append,List.take_append_drop]
  have parts := List.take_append_drop (size*count) blocks.flatten
  rw [←uniform.drop,←whole] at parts
  rw [←whole]
  exact (List.append_cancel_right parts).symm

end Blocks
