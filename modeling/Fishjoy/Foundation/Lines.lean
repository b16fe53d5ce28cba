import Mathlib.Data.List.Basic
import Mathlib.Data.List.Infix

namespace Lines

-- Text in lines, with two different symbols to end a line.
variable {α : Type} [DecidableEq α] {cr lf : α}

-- Before and behind the first occurrence.
def cut (mark : List α) : List α → Option (List α × List α)
  | [] => if mark = [] then some ([],[]) else none
  | a :: rest =>
    if mark <+: a :: rest then some ([],(a :: rest).drop mark.length)
    else (cut mark rest).map fun (front,back) => (a :: front,back)

def split (cr lf : α) : List α → List (List α)
  | [] => [[]]
  | [a] => [[a]]
  | a :: b :: rest =>
    if a = cr ∧ b = lf then [] :: split cr lf rest
    else (split cr lf (b :: rest)).modifyHead (a :: ·)

def join (cr lf : α) : List (List α) → List α
  | [] => []
  | [line] => line
  | line :: rest => line ++ cr :: lf :: join cr lf rest

def Whole (cr lf : α) (line : List α) : Prop := ¬[cr,lf] <:+: line

instance (line : List α) : Decidable (Whole cr lf line) := inferInstanceAs (Decidable (¬_))

omit [DecidableEq α] in
theorem join_cons (line next : List α) (rest : List (List α)) :
    join cr lf (line :: next :: rest) = line ++ cr :: lf :: join cr lf (next :: rest) := rfl

omit [DecidableEq α] in
theorem Whole.tail (whole : Whole cr lf (a :: line)) : Whole cr lf line :=
  fun inside => whole (inside.trans (List.suffix_cons a line).isInfix)

omit [DecidableEq α] in
theorem whole_cons : Whole cr lf (a :: line) ↔ Whole cr lf line ∧ ¬(a = cr ∧ line.head? = some lf) := by
  constructor
  · intro whole
    refine ⟨whole.tail,?_⟩
    rintro ⟨rfl,next⟩
    obtain ⟨rest,rfl⟩ := List.head?_eq_some_iff.mp next
    exact whole (List.prefix_append [a,lf] rest).isInfix
  · rintro ⟨later,here⟩ inside
    rcases List.infix_cons_iff.mp inside with front | back
    · obtain ⟨rest,whole⟩ := front
      obtain ⟨rfl,tail⟩ := List.cons.inj whole
      exact here ⟨rfl,by rw [←tail]; rfl⟩
    · exact later back

-- What a split yields begins as the text does, unless a line ends there.
theorem split_head (cr lf : α) (l : List α) : ∃ first others, split cr lf l = first :: others ∧
    (first = [] ∨ first.head? = l.head?) := by
  fun_induction split cr lf l with
  | case1 => exact ⟨[],[],rfl,.inl rfl⟩
  | case2 a => exact ⟨[a],[],rfl,.inr rfl⟩
  | case3 a b rest ends ih => exact ⟨[],_,rfl,.inl rfl⟩
  | case4 a b rest goes ih =>
      obtain ⟨first,others,same,_⟩ := ih
      rw [same]
      exact ⟨a :: first,others,rfl,.inr rfl⟩

omit [DecidableEq α] in
theorem whole_of_not_mem (apart : cr ∉ line) : Whole cr lf line :=
  fun inside => apart (inside.subset (.head _))

omit [DecidableEq α] in
-- A symbol that ends no line keeps the two sides apart.
theorem whole_middle (front back : List α) (start : m ≠ cr) (finish : m ≠ lf) :
    Whole cr lf (front ++ m :: back) ↔ Whole cr lf front ∧ Whole cr lf back := by
  have empty : Whole cr lf ([] : List α) := whole_of_not_mem List.not_mem_nil
  induction front with
  | nil =>
      rw [List.nil_append,whole_cons]
      exact ⟨fun whole => ⟨empty,whole.1⟩,fun whole => ⟨whole.2,fun here => start here.1⟩⟩
  | cons a front ih =>
      have same : ¬(a = cr ∧ (front ++ m :: back).head? = some lf) ↔ ¬(a = cr ∧ front.head? = some lf) := by
        cases front with
        | nil =>
            have other : ¬(a = cr ∧ some m = some lf) := fun here => finish (Option.some.inj here.2)
            exact ⟨fun _ here => absurd here.2 (by simp),fun _ => other⟩
        | cons b front => exact Iff.rfl
      rw [List.cons_append,whole_cons,whole_cons,same]
      constructor
      · rintro ⟨later,here⟩
        exact ⟨⟨(ih.mp later).1,here⟩,(ih.mp later).2⟩
      · rintro ⟨⟨later,here⟩,other⟩
        exact ⟨ih.mpr ⟨later,other⟩,here⟩

theorem split_whole (l : List α) : ∀ line ∈ split cr lf l, Whole cr lf line := by
  have none : Whole cr lf ([] : List α) := whole_of_not_mem List.not_mem_nil
  fun_induction split cr lf l with
  | case1 =>
      intro line member
      rw [List.mem_singleton.mp member]
      exact none
  | case2 a =>
      intro line member
      rw [List.mem_singleton.mp member]
      exact whole_cons.mpr ⟨none,fun next => by cases next.2⟩
  | case3 a b rest ends ih =>
      intro line member
      rcases List.mem_cons.mp member with rfl | later
      · exact none
      · exact ih line later
  | case4 a b rest goes ih =>
      obtain ⟨first,others,same,start⟩ := split_head cr lf (b :: rest)
      rw [same] at ih ⊢
      intro line member
      rcases List.mem_cons.mp member with rfl | later
      · refine whole_cons.mpr ⟨ih first (.head _),?_⟩
        rintro ⟨here,next⟩
        rcases start with rfl | start
        · cases next
        · rw [next] at start
          exact goes ⟨here,(Option.some.inj start).symm⟩
      · exact ih line (.tail _ later)

omit [DecidableEq α] in
-- A whole line does not end inside itself, whatever follows.
theorem Whole.goes (whole : Whole cr lf (a :: line)) (apart : cr ≠ lf) (rest : List α) :
    ¬(a = cr ∧ (line ++ cr :: rest).head? = some lf) := by
  rintro ⟨here,next⟩
  cases line with
  | nil => exact apart (Option.some.inj next)
  | cons b line => exact (whole_cons.mp whole).2 ⟨here,next⟩

theorem split_goes (goes : ¬(a = cr ∧ l.head? = some lf)) (some : l ≠ []) :
    split cr lf (a :: l) = (split cr lf l).modifyHead (a :: ·) := by
  obtain ⟨b,rest,rfl⟩ := List.exists_cons_of_ne_nil some
  rw [split,if_neg]
  rintro ⟨here,next⟩
  exact goes ⟨here,congrArg Option.some next⟩

theorem split_append (apart : cr ≠ lf) (whole : Whole cr lf line) (rest : List α) :
    split cr lf (line ++ cr :: lf :: rest) = line :: split cr lf rest := by
  induction line with
  | nil => rw [List.nil_append,split,if_pos ⟨rfl,rfl⟩]
  | cons a line ih =>
      have some : line ++ cr :: lf :: rest ≠ [] := List.append_ne_nil_of_right_ne_nil _ (List.cons_ne_nil _ _)
      rw [List.cons_append,split_goes (whole.goes apart _) some,ih whole.tail]
      rfl

theorem split_single (whole : Whole cr lf line) : split cr lf line = [line] := by
  induction line with
  | nil => rfl
  | cons a line ih =>
      cases line with
      | nil => rfl
      | cons b line =>
          rw [split_goes (whole_cons.mp whole).2 (List.cons_ne_nil _ _),ih whole.tail]
          rfl

theorem split_join (apart : cr ≠ lf) (lines : List (List α)) (some : lines ≠ [])
    (whole : ∀ line ∈ lines, Whole cr lf line) : split cr lf (join cr lf lines) = lines := by
  induction lines with
  | nil => exact absurd rfl some
  | cons line rest ih =>
      cases rest with
      | nil => exact split_single (whole line (.head _))
      | cons next rest =>
          rw [join_cons,split_append apart (whole line (.head _)),
            ih (List.cons_ne_nil _ _) fun line member => whole line (.tail _ member)]

theorem cut_goes {mark l : List α} (goes : ¬mark <+: a :: l) :
    cut mark (a :: l) = (cut mark l).map fun (front,back) => (a :: front,back) := by
  rw [cut,if_neg goes]

omit [DecidableEq α] in
theorem prefix_pair {l : List α} : cr :: lf :: mark <+: a :: l → a = cr ∧ l.head? = some lf := by
  rintro ⟨rest,whole⟩
  obtain ⟨rfl,tail⟩ := List.cons.inj whole
  exact ⟨rfl,by rw [←tail]; rfl⟩

-- The first empty line behind a line.
theorem cut_line (apart : cr ≠ lf) (whole : Whole cr lf line) (rest : List α) :
    cut [cr,lf,cr,lf] (line ++ cr :: lf :: rest) =
      if [cr,lf] <+: rest then some (line,rest.drop 2)
      else (cut [cr,lf,cr,lf] rest).map fun (front,back) => (line ++ cr :: lf :: front,back) := by
  induction line with
  | nil =>
      have same : [cr,lf,cr,lf] <+: cr :: lf :: rest ↔ [cr,lf] <+: rest := by
        rw [List.cons_prefix_cons,List.cons_prefix_cons]
        simp
      rw [List.nil_append,cut]
      by_cases blank : [cr,lf] <+: rest
      · rw [if_pos (same.mpr blank),if_pos blank]
        rfl
      · rw [if_neg (mt same.mp blank),if_neg blank,cut_goes fun front => apart (prefix_pair front).1.symm,
          Option.map_map]
        rfl
  | cons a line ih =>
      rw [List.cons_append,cut_goes fun front => whole.goes apart _ (prefix_pair front),ih whole.tail]
      by_cases blank : [cr,lf] <+: rest
      · rw [if_pos blank,if_pos blank]
        rfl
      · rw [if_neg blank,if_neg blank,Option.map_map]
        rfl

theorem cut_join (apart : cr ≠ lf) (lines : List (List α)) (some : lines ≠ [])
    (whole : ∀ line ∈ lines, Whole cr lf line ∧ line ≠ []) (body : List α) :
    cut [cr,lf,cr,lf] (join cr lf lines ++ cr :: lf :: cr :: lf :: body) = Option.some (join cr lf lines,body) := by
  induction lines with
  | nil => exact absurd rfl some
  | cons line rest ih =>
      have first := (whole line (.head _)).1
      cases rest with
      | nil =>
          have blank : [cr,lf] <+: cr :: lf :: body := List.prefix_append [cr,lf] body
          rw [join,cut_line apart first,if_pos blank]
          rfl
      | cons next rest =>
          have later := ih (List.cons_ne_nil _ _) fun line member => whole line (.tail _ member)
          have goes : ¬[cr,lf] <+: join cr lf (next :: rest) ++ cr :: lf :: cr :: lf :: body := by
            obtain ⟨whole,filled⟩ := whole next (.tail _ (.head _))
            obtain ⟨a,others,rfl⟩ := List.exists_cons_of_ne_nil filled
            have shape : ∃ behind, join cr lf ((a :: others) :: rest) ++ cr :: lf :: cr :: lf :: body =
                a :: (others ++ cr :: behind) := by
              cases rest with
              | nil => exact ⟨_,rfl⟩
              | cons third rest => exact ⟨_,by rw [join_cons,List.append_assoc]; rfl⟩
            obtain ⟨behind,shape⟩ := shape
            rw [shape]
            exact fun front => whole.goes apart _ (prefix_pair front)
          rw [join_cons,List.append_assoc,List.cons_append,List.cons_append,cut_line apart first,if_neg goes,later]
          rfl

end Lines
