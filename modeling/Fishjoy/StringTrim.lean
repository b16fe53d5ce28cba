import Fishjoy.Foundation.Trimming
import Fishjoy.HttpParams

namespace Fishjoy.StringTrim
open Trimming

section Functions
variable (str delimit : List UInt8)

-- The results of the two searches; `none` is `npos`.
def find_first_not_of : Option Nat := str.findIdx? fun c => !delimit.contains c

def find_last_not_of : Option Nat :=
  (str.reverse.findIdx? fun c => !delimit.contains c).map fun back => str.length-1-back

def substr (pos count : Nat) : List UInt8 := (str.drop pos).take count

def Trim : List UInt8 :=
  match find_first_not_of str delimit with
  | none => []
  | some first =>
    match find_last_not_of str delimit with
    -- Not reached: what is found from the front is found from behind.
    | none => []
    | some last => substr str first (last-first+1)

def TrimLeft : List UInt8 :=
  match find_first_not_of str delimit with
  | none => []
  | some first => str.drop first

def TrimRight : List UInt8 :=
  match find_last_not_of str delimit with
  | none => []
  | some last => substr str 0 last

end Functions

structure Trims (s d : List UInt8) : Prop where
  left : Longest (fun t => t <:+ s ∧ LeadsWithout d.contains t) (TrimLeft s d)
  right : Longest (fun t => t <+: s ∧ EndsWithout d.contains t) (TrimRight s d)
  rightFirst : Trim s d = TrimLeft (TrimRight s d) d
  leftFirst : Trim s d = TrimRight (TrimLeft s d) d
  again : Trim (Trim s d) d = Trim s d
  leftAgain : TrimLeft (TrimLeft s d) d = TrimLeft s d
  rightAgain : TrimRight (TrimRight s d) d = TrimRight s d

section Searches
variable {s d : List UInt8}

theorem first_none : find_first_not_of s d = none ↔ ∀ c ∈ s, d.contains c = true := by
  unfold find_first_not_of
  rw [List.findIdx?_eq_none_iff]
  simp only [Bool.not_eq_false']

theorem last_none : find_last_not_of s d = none ↔ ∀ c ∈ s, d.contains c = true := by
  unfold find_last_not_of
  rw [Option.map_eq_none_iff,List.findIdx?_eq_none_iff]
  simp only [List.mem_reverse,Bool.not_eq_false']

theorem first_some (found : find_first_not_of s d = some first) :
    first < s.length ∧ s.findIdx (fun c => !d.contains c) = first := by
  obtain ⟨bound,same⟩ := List.findIdx?_eq_some_iff_findIdx_eq.mp found
  exact ⟨bound,same⟩

theorem last_some (found : find_last_not_of s d = some last) :
    last < s.length ∧ s.take (last+1) = s.rdropWhile d.contains := by
  obtain ⟨back,search,rfl⟩ := Option.map_eq_some_iff.mp found
  obtain ⟨bound,same⟩ := List.findIdx?_eq_some_iff_findIdx_eq.mp search
  rw [List.length_reverse] at bound
  refine ⟨by omega,?_⟩
  rw [List.rdropWhile,List.dropWhile_eq_drop_findIdx_not,same,List.reverse_drop,List.reverse_reverse,
    List.length_reverse]
  congr 1
  omega

-- A prefix that ends with a character to keep is not longer than the longest.
theorem first_le_last (front : find_first_not_of s d = some first) (back : find_last_not_of s d = some last) :
    first ≤ last := by
  obtain ⟨bound,solid,_⟩ := List.findIdx?_eq_some_iff_getElem.mp front
  obtain ⟨_,kept⟩ := last_some back
  have ends : EndsWithout d.contains (s.take (first+1)) := by
    intro c final
    rw [List.take_succ_eq_append_getElem bound,List.getLast?_concat] at final
    cases final
    exact (Bool.not_eq_true' _).mp solid
  have fits := (rdropWhile_longest d.contains s).longest _ ⟨List.take_prefix _ s,ends⟩
  rw [←kept,List.length_take,List.length_take] at fits
  omega

theorem all_dropped : s.dropWhile d.contains = [] ↔ ∀ c ∈ s, d.contains c = true := List.dropWhile_eq_nil_iff

theorem TrimLeft_eq (s d : List UInt8) : TrimLeft s d = s.dropWhile d.contains := by
  unfold TrimLeft
  cases found : find_first_not_of s d with
  | none => exact (all_dropped.mpr (first_none.mp found)).symm
  | some first => rw [List.dropWhile_eq_drop_findIdx_not,(first_some found).2]

-- One character less than is to be kept.
theorem TrimRight_eq (s d : List UInt8) : TrimRight s d = (s.rdropWhile d.contains).dropLast := by
  unfold TrimRight
  cases found : find_last_not_of s d with
  | none =>
      rw [List.rdropWhile_eq_nil_iff.mpr (last_none.mp found)]
      rfl
  | some last =>
      obtain ⟨bound,kept⟩ := last_some found
      rw [←kept]
      change s.take last = _
      rw [List.dropLast_eq_take,List.take_take,List.length_take]
      congr 1
      omega

theorem Trim_eq (s d : List UInt8) : Trim s d = (s.dropWhile d.contains).rdropWhile d.contains := by
  unfold Trim
  cases front : find_first_not_of s d with
  | none => rw [all_dropped.mpr (first_none.mp front)]; rfl
  | some first =>
      cases back : find_last_not_of s d with
      | none =>
          have all := first_none.mpr (last_none.mp back)
          rw [front] at all
          cases all
      | some last =>
          obtain ⟨bound,same⟩ := first_some front
          obtain ⟨_,kept⟩ := last_some back
          have order := first_le_last front back
          rw [trim_comm,←kept,List.dropWhile_eq_drop_findIdx_not,List.findIdx_take,same,
            Nat.min_eq_right (by omega),List.drop_take]
          change (s.drop first).take (last-first+1) = _
          congr 1
          omega

end Searches

-- The one for cookies is this at the default characters.
theorem Trim_default (str : List UInt8) : Trim str Fishjoy.delimit = StringUtil.Trim str := Trim_eq str _

theorem TrimLeft_longest (s d : List UInt8) : Longest (fun t => t <:+ s ∧ LeadsWithout d.contains t) (TrimLeft s d) := by
  rw [TrimLeft_eq]
  exact dropWhile_longest _ s

theorem TrimLeft_idempotent (s d : List UInt8) : TrimLeft (TrimLeft s d) d = TrimLeft s d := by
  rw [TrimLeft_eq,TrimLeft_eq,List.dropWhile_idempotent]

theorem Trim_idempotent (s d : List UInt8) : Trim (Trim s d) d = Trim s d := by
  rw [Trim_eq,Trim_eq,trim_idempotent]

-- It is one shorter than the longest, unless that is empty.
theorem TrimRight_longest (s d : List UInt8) :
    Longest (fun t => t <+: s ∧ EndsWithout d.contains t) (TrimRight s d) ↔ ∀ c ∈ s, d.contains c = true := by
  have right := rdropWhile_longest d.contains s
  rw [TrimRight_eq,←List.rdropWhile_eq_nil_iff]
  constructor
  · intro longest
    have bound := longest.longest _ right.candidate
    rw [List.length_dropLast] at bound
    exact List.length_eq_zero_iff.mp (by omega)
  · intro empty
    rw [empty] at right ⊢
    exact right

theorem trims_empty {s d : List UInt8} (all : ∀ c ∈ s, d.contains c = true) :
    TrimLeft s d = [] ∧ TrimRight s d = [] ∧ Trim s d = [] := by
  rw [TrimLeft_eq,TrimRight_eq,Trim_eq,List.rdropWhile_eq_nil_iff.mpr all,all_dropped.mpr all]
  exact ⟨rfl,rfl,rfl⟩

theorem trims_exactly (s d : List UInt8) : Trims s d ↔ ∀ c ∈ s, c ∈ d := by
  have same : (∀ c ∈ s, c ∈ d) ↔ ∀ c ∈ s, d.contains c = true := by
    simp only [List.contains_iff_mem]
  rw [same]
  constructor
  · intro trims
    exact (TrimRight_longest s d).mp trims.right
  · intro all
    obtain ⟨left,right,both⟩ := trims_empty all
    refine ⟨TrimLeft_longest s d,(TrimRight_longest s d).mpr all,?_,?_,Trim_idempotent s d,TrimLeft_idempotent s d,?_⟩
    · rw [both,right]; rfl
    · rw [both,left]; rfl
    · rw [right]; rfl

theorem last_letter_lost : ¬∀ s d : List UInt8, Trims s d := by
  intro always
  have dropped := (TrimRight_longest _ _).mp (always (text "a") delimit).right 97 (by decide)
  exact absurd dropped (by decide)
end Fishjoy.StringTrim
