import Fishjoy.Foundation.Lines

-- Pieces joined with a mark, where a doubled mark stands for a run of pieces that
-- is left out.
namespace Compressed
open Lines
variable {α : Type} {mark : α} {pieces : List (List α)} {piece x y f b : List α}

def join (mark : α) : List (List α) → List α
  | [] => []
  | [piece] => piece
  | piece :: rest => piece ++ mark :: join mark rest

def Tidy (mark : α) (pieces : List (List α)) : Prop := ∀ piece ∈ pieces, piece ≠ [] ∧ mark ∉ piece

theorem join_cons (piece next : List α) (rest : List (List α)) :
    join mark (piece :: next :: rest) = piece ++ mark :: join mark (next :: rest) := rfl

theorem mem_join {a : α} (member : a ∈ join mark pieces) : a = mark ∨ ∃ piece ∈ pieces, a ∈ piece := by
  induction pieces with
  | nil => cases member
  | cons piece rest ih =>
      cases rest with
      | nil => exact .inr ⟨piece,.head _,member⟩
      | cons next rest =>
          rw [join_cons,List.mem_append,List.mem_cons] at member
          rcases member with here | same | later
          · exact .inr ⟨piece,.head _,here⟩
          · exact .inl same
          · exact (ih later).imp_right fun ⟨other,inside,found⟩ => ⟨other,.tail _ inside,found⟩

theorem Tidy.tail (tidy : Tidy mark (piece :: pieces)) : Tidy mark pieces :=
  fun next member => tidy next (.tail _ member)

theorem whole_mark : Whole mark mark [mark] :=
  fun inside => by simpa using inside.length_le

theorem whole_behind (absent : mark ∉ piece) (whole : Whole mark mark (mark :: x)) :
    Whole mark mark (piece ++ mark :: x) := by
  induction piece with
  | nil => exact whole
  | cons a piece ih =>
      rw [List.mem_cons,not_or] at absent
      exact whole_cons.mpr ⟨ih absent.2,fun both => absent.1 both.1.symm⟩

-- Whatever is joined, marks may stand in front of it and behind it.
theorem join_between (some : pieces ≠ []) (tidy : Tidy mark pieces) :
    Whole mark mark (mark :: (join mark pieces ++ [mark])) := by
  induction pieces with
  | nil => exact absurd rfl some
  | cons piece rest ih =>
      obtain ⟨filled,absent⟩ := tidy piece (.head _)
      obtain ⟨a,others,rfl⟩ := List.exists_cons_of_ne_nil filled
      have other : a ≠ mark := fun same => absent (same ▸ List.mem_cons_self)
      cases rest with
      | nil =>
          refine whole_cons.mpr ⟨whole_behind absent whole_mark,?_⟩
          simp [join,other]
      | cons next rest =>
          rw [join_cons,List.append_assoc]
          refine whole_cons.mpr ⟨whole_behind absent (ih (List.cons_ne_nil _ _) tidy.tail),?_⟩
          simp [other]

theorem join_behind (tidy : Tidy mark pieces) : Whole mark mark (join mark pieces ++ [mark]) := by
  cases pieces with
  | nil => exact whole_mark
  | cons piece rest => exact (join_between (List.cons_ne_nil _ _) tidy).tail

theorem join_before (tidy : Tidy mark pieces) : Whole mark mark (mark :: join mark pieces) := by
  cases pieces with
  | nil => exact whole_mark
  | cons piece rest =>
      exact fun inside => join_between (List.cons_ne_nil _ _) tidy
        (inside.trans (List.prefix_append (mark :: join mark (piece :: rest)) [mark]).isInfix)

-- The doubled mark stands at one place only.
theorem doubled_once (left : Whole mark mark (x ++ [mark])) (right : Whole mark mark (mark :: y))
    (same : x ++ mark :: mark :: y = f ++ mark :: mark :: b) : x = f := by
  rcases List.append_eq_append_iff.mp same with ⟨t,later,rest⟩ | ⟨t,earlier,rest⟩
  · match t,rest with
    | [],_ => rw [later,List.append_nil]
    | [_],rest =>
        obtain ⟨rfl,behind⟩ := List.cons.inj rest
        exact absurd ⟨[],b,behind.symm⟩ right
    | _ :: _ :: t,rest =>
        obtain ⟨rfl,behind⟩ := List.cons.inj rest
        exact absurd ⟨mark :: t,b,by simp [(List.cons.inj behind).2]⟩ right
  · match t,rest with
    | [],_ => rw [earlier,List.append_nil]
    | [_],rest =>
        obtain ⟨rfl,_⟩ := List.cons.inj rest
        exact absurd ⟨f,[],by simp [earlier]⟩ left
    | _ :: _ :: t,rest =>
        obtain ⟨rfl,behind⟩ := List.cons.inj rest
        obtain ⟨rfl,_⟩ := List.cons.inj behind
        exact absurd ⟨f,t ++ [mark],by simp [earlier]⟩ left

theorem cut_doubled [DecidableEq α] (left : Whole mark mark (x ++ [mark])) (y : List α) :
    cut [mark,mark] (x ++ mark :: mark :: y) = some (x,y) := by
  induction x with
  | nil => simp [cut]
  | cons a x ih =>
      obtain ⟨whole,apart⟩ := whole_cons.mp left
      have goes : ¬[mark,mark] <+: a :: (x ++ mark :: mark :: y) := by
        intro front
        obtain ⟨here,next⟩ := prefix_pair front
        refine apart ⟨here,?_⟩
        cases x <;> exact next
      rw [List.cons_append,cut_goes goes,ih whole]
      rfl

theorem cut_none [DecidableEq α] (whole : Whole mark mark x) : cut [mark,mark] x = none := by
  induction x with
  | nil => rfl
  | cons a x ih =>
      obtain ⟨whole,apart⟩ := whole_cons.mp whole
      rw [cut_goes fun front => apart (prefix_pair front),ih whole]
      rfl

theorem splitOn_join [DecidableEq α] (tidy : Tidy mark pieces) (some : pieces ≠ []) :
    (join mark pieces).splitOn mark = pieces := by
  induction pieces with
  | nil => exact absurd rfl some
  | cons piece rest ih =>
      have absent := (tidy piece (.head _)).2
      cases rest with
      | nil => exact List.splitOn_eq_singleton absent
      | cons next rest =>
          rw [join_cons,List.splitOn_append_cons_self,List.splitOn_eq_singleton absent,
            ih tidy.tail (List.cons_ne_nil _ _)]
          rfl

end Compressed
