import Fishjoy.Http

namespace Fishjoy.HttpKeys
open KeyedMap StringUtil

-- The same length, and the same bytes up to the case of ASCII letters.
def Alike (x y : List UInt8) : Prop := x.length = y.length ∧ ∀ i : Nat, x[i]?.map tolower = y[i]?.map tolower

-- What `c_str` does not show: a string from its first NUL on.
def hidden (s : List UInt8) : List UInt8 := s.dropWhile (· ≠ 0)

def Shown (x y : List UInt8) : Prop := Alike (c_str x) (c_str y) → Alike (hidden x) (hidden y)

-- A key against a map: the entry that `find` and `erase` meet is the one with
-- this key up to case, and no other stands in the way of an insertion.
structure Told (m : MapType) (k : List UInt8) : Prop where
  found : ∀ v, m.find k = some v ↔ ∃ key, (key,v) ∈ m.entries ∧ Alike k key
  inserted : ∀ v, (m.insert k v).entries.length = m.entries.length ↔ ∃ entry ∈ m.entries, Alike k entry.1
  assigned : ∀ v, (m.assign k v).entries.length = m.entries.length ↔ ∃ entry ∈ m.entries, Alike k entry.1
  erased : ∀ entry, entry ∈ (m.erase k).entries ↔ entry ∈ m.entries ∧ ¬Alike k entry.1

section Folding
variable {x y k : List UInt8} {m : MapType}

theorem alike_iff : Alike x y ↔ x.map tolower = y.map tolower := by
  constructor
  · rintro ⟨_,same⟩
    apply List.ext_getElem?
    intro i
    rw [List.getElem?_map,List.getElem?_map]
    exact same i
  · intro same
    refine ⟨?_,fun i => ?_⟩
    · simpa only [List.length_map] using congrArg List.length same
    · rw [←List.getElem?_map,←List.getElem?_map,same]

-- Only the NUL itself is folded to the NUL.
theorem tolower_ends : (fun c : UInt8 => decide (c ≠ 0)) ∘ tolower = fun c => decide (c ≠ 0) := by
  funext c
  revert c
  exact every_byte (by decide +kernel)

theorem c_str_fold (s : List UInt8) : (c_str s).map tolower = c_str (s.map tolower) := by
  unfold c_str
  rw [List.takeWhile_map,tolower_ends]

theorem hidden_fold (s : List UInt8) : (hidden s).map tolower = hidden (s.map tolower) := by
  unfold hidden
  rw [List.dropWhile_map,tolower_ends]

theorem alike_parts : Alike x y ↔ Alike (c_str x) (c_str y) ∧ Alike (hidden x) (hidden y) := by
  rw [alike_iff,alike_iff,alike_iff,c_str_fold,c_str_fold,hidden_fold,hidden_fold]
  constructor
  · intro same
    rw [same]
    exact ⟨rfl,rfl⟩
  · rintro ⟨front,back⟩
    have whole : c_str (x.map tolower) ++ hidden (x.map tolower) = c_str (y.map tolower) ++ hidden (y.map tolower) := by
      rw [front,back]
    rwa [c_str,hidden,List.takeWhile_append_dropWhile,c_str,hidden,List.takeWhile_append_dropWhile] at whole

-- The comparator sees no more of a string than `c_str` shows.
theorem equivalent_iff_c_str : equivalent CaseInsensitiveLess x y = true ↔ Alike (c_str x) (c_str y) := by
  rw [equivalent_caseFold,alike_iff]
  have ranks : ∀ s, caseFold s = ((c_str s).map tolower).map UInt8.toNat := by
    intro s
    rw [List.map_map]
    rfl
  rw [ranks,ranks]
  exact ⟨fun same => List.map_injective_iff.mpr (fun _ _ => UInt8.toNat_inj.mp) same,fun same => by rw [same]⟩

theorem equivalent_of_alike (same : Alike x y) : equivalent CaseInsensitiveLess x y = true :=
  equivalent_iff_c_str.mpr (alike_parts.mp same).1

theorem equivalent_shown (shown : Shown x y) : equivalent CaseInsensitiveLess x y = true ↔ Alike x y := by
  rw [equivalent_iff_c_str]
  exact (and_iff_left_of_imp shown).symm.trans alike_parts.symm

theorem shown_iff : (equivalent CaseInsensitiveLess x y = true ↔ Alike x y) ↔ Shown x y := by
  constructor
  · intro exactly front
    exact (alike_parts.mp (exactly.mp (equivalent_iff_c_str.mpr front))).2
  · exact equivalent_shown

-- Strings without a NUL hide nothing.
theorem shown_plain (left : 0 ∉ x) (right : 0 ∉ y) : Shown x y := by
  have none : ∀ s : List UInt8, 0 ∉ s → hidden s = [] := by
    intro s absent
    refine List.dropWhile_eq_nil_iff.mpr fun c member => ?_
    exact decide_eq_true fun zero => absent (zero ▸ member)
  intro _
  rw [none x left,none y right]
  exact alike_iff.mpr rfl

end Folding

section Maps
variable {m : MapType} {k : List UInt8}

theorem merged_iff (shown : ∀ entry ∈ m.entries, Shown k entry.1) (v : List UInt8)
    (merge : List UInt8 → List UInt8) :
    (place CaseInsensitiveLess k v merge m.entries).length = m.entries.length ↔
      ∃ entry ∈ m.entries, Alike k entry.1 := by
  rw [place_length k v merge m.sorted]
  constructor
  · rintro ⟨entry,member,same⟩
    exact ⟨entry,member,(equivalent_shown (shown entry member)).mp same⟩
  · rintro ⟨entry,member,same⟩
    exact ⟨entry,member,equivalent_of_alike same⟩

theorem told_of_shown (shown : ∀ entry ∈ m.entries, Shown k entry.1) : Told m k := by
  refine ⟨fun v => ?_,fun v => merged_iff shown v id,fun v => merged_iff shown v _,fun entry => ?_⟩
  · rw [find_some]
    constructor
    · rintro ⟨key,member,same⟩
      exact ⟨key,member,(equivalent_shown (shown _ member)).mp same⟩
    · rintro ⟨key,member,same⟩
      exact ⟨key,member,equivalent_of_alike same⟩
  · rw [erase,List.mem_filter]
    refine and_congr_right fun member => ?_
    rw [Bool.not_eq_true',Bool.eq_false_iff,Ne,equivalent_shown (shown entry member)]

-- An entry whose key differs in what is hidden is erased with the others.
theorem shown_of_told (told : Told m k) : ∀ entry ∈ m.entries, Shown k entry.1 := by
  intro entry member front
  have same := equivalent_iff_c_str.mpr front
  by_contra apart
  have differ : ¬Alike k entry.1 := fun alike => apart (alike_parts.mp alike).2
  have kept := (told.erased entry).mpr ⟨member,differ⟩
  rw [erase,List.mem_filter,same] at kept
  exact Bool.false_ne_true kept.2

end Maps

theorem keys_exactly (x y : List UInt8) (m : MapType) (k : List UInt8) : WeakOrder CaseInsensitiveLess ∧
    ((equivalent CaseInsensitiveLess x y = true ↔ Alike x y) ↔ Shown x y) ∧
    (Told m k ↔ ∀ entry ∈ m.entries, Shown k entry.1) :=
  ⟨CaseInsensitiveLess.order,shown_iff,shown_of_told,told_of_shown⟩

theorem nul_merges : ¬(WeakOrder CaseInsensitiveLess ∧
    (∀ x y, equivalent CaseInsensitiveLess x y = true ↔ Alike x y) ∧ ∀ m k, Told m k) := by
  rintro ⟨_,pairs,_⟩
  have alike := (pairs (UrlDecode true (text "a%00b")) (UrlDecode true (text "a%00c"))).mp (by decide +kernel)
  have same := alike_iff.mp alike
  revert same
  decide +kernel

end Fishjoy.HttpKeys
