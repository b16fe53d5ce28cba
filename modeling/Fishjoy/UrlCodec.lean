import Mathlib.Data.List.Basic

namespace Fishjoy

-- A `std::string` is the list of its bytes.
def text (s : String) : List UInt8 := s.toList.map fun c => UInt8.ofNat c.toNat

namespace StringUtil

def uri_chars : List UInt8 :=
  [0,0,0,0,0,0,0,0,0,0,0,0,0,0,0,0,0,0,0,0,0,0,0,0,0,0,0,0,0,0,0,0,
    0,0,0,0,0,0,0,0,0,0,0,0,0,1,1,0,1,1,1,1,1,1,1,1,1,1,0,0,0,1,0,0,
    0,1,1,1,1,1,1,1,1,1,1,1,1,1,1,1,1,1,1,1,1,1,1,1,1,1,1,0,0,0,0,1,
    0,1,1,1,1,1,1,1,1,1,1,1,1,1,1,1,1,1,1,1,1,1,1,1,1,1,1,0,0,0,1,0,
    0,0,0,0,0,0,0,0,0,0,0,0,0,0,0,0,0,0,0,0,0,0,0,0,0,0,0,0,0,0,0,0,
    0,0,0,0,0,0,0,0,0,0,0,0,0,0,0,0,0,0,0,0,0,0,0,0,0,0,0,0,0,0,0,0,
    0,0,0,0,0,0,0,0,0,0,0,0,0,0,0,0,0,0,0,0,0,0,0,0,0,0,0,0,0,0,0,0,
    0,0,0,0,0,0,0,0,0,0,0,0,0,0,0,0,0,0,0,0,0,0,0,0,0,0,0,0,0,0,0,0]

def xdigit_chars : List UInt8 :=
  [0,0,0,0,0,0,0,0,0,0,0,0,0,0,0,0,0,0,0,0,0,0,0,0,0,0,0,0,0,0,0,0,
    0,0,0,0,0,0,0,0,0,0,0,0,0,0,0,0,0,1,2,3,4,5,6,7,8,9,0,0,0,0,0,0,
    0,10,11,12,13,14,15,0,0,0,0,0,0,0,0,0,0,0,0,0,0,0,0,0,0,0,0,0,0,0,0,0,
    0,10,11,12,13,14,15,0,0,0,0,0,0,0,0,0,0,0,0,0,0,0,0,0,0,0,0,0,0,0,0,0,
    0,0,0,0,0,0,0,0,0,0,0,0,0,0,0,0,0,0,0,0,0,0,0,0,0,0,0,0,0,0,0,0,
    0,0,0,0,0,0,0,0,0,0,0,0,0,0,0,0,0,0,0,0,0,0,0,0,0,0,0,0,0,0,0,0,
    0,0,0,0,0,0,0,0,0,0,0,0,0,0,0,0,0,0,0,0,0,0,0,0,0,0,0,0,0,0,0,0,
    0,0,0,0,0,0,0,0,0,0,0,0,0,0,0,0,0,0,0,0,0,0,0,0,0,0,0,0,0,0,0,0]

def isUnreserved (c : UInt8) : Bool := uri_chars.getD c.toNat 0 ≠ 0

def isxdigit (c : UInt8) : Bool := (48 ≤ c && c ≤ 57) || (65 ≤ c && c ≤ 70) || (97 ≤ c && c ≤ 102)

def hexdigit (i : UInt8) : UInt8 := (text "0123456789ABCDEF").getD i.toNat 0

def xdigit (c : UInt8) : UInt8 := xdigit_chars.getD c.toNat 0

def encodeChar (spaceAsPlus : Bool) (c : UInt8) : List UInt8 :=
  if isUnreserved c then [c]
  else if c = 32 && spaceAsPlus then [43]
  else [37,hexdigit (c >>> 4),hexdigit (c &&& 0xF)]

-- The copy in `ss` is made at the first byte that changes, which does not show
-- in the result.
def UrlEncode (str : List UInt8) (spaceAsPlus : Bool) : List UInt8 := str.flatMap (encodeChar spaceAsPlus)

def UrlDecode (spaceAsPlus : Bool) : List UInt8 → List UInt8
  | c :: first :: second :: tail =>
    if c = 43 && spaceAsPlus then 32 :: UrlDecode spaceAsPlus (first :: second :: tail)
    else if c = 37 && isxdigit first && isxdigit second then
      (xdigit first <<< 4 ||| xdigit second) :: UrlDecode spaceAsPlus tail
    else c :: UrlDecode spaceAsPlus (first :: second :: tail)
  | c :: rest => (if c = 43 && spaceAsPlus then 32 else c) :: UrlDecode spaceAsPlus rest
  | [] => []

theorem every_byte {P : UInt8 → Prop} (each : ∀ n < 256, P (UInt8.ofNat n)) (c : UInt8) : P c := by
  have known := each c.toNat c.toNat_lt
  rwa [UInt8.ofNat_toNat] at known

-- The bytes that stand for themselves are told apart from the escapes and from
-- the separator of pairs.
theorem unreserved_plain (c : UInt8) : isUnreserved c = true → c ≠ 43 ∧ c ≠ 37 ∧ c ≠ 38 := by
  intro plain
  refine ⟨?_,?_,?_⟩
  · rintro rfl
    cases plain
  · rintro rfl
    cases plain
  · rintro rfl
    cases plain

theorem escape_digits (c : UInt8) : isxdigit (hexdigit (c >>> 4)) = true ∧ isxdigit (hexdigit (c &&& 0xF)) = true ∧
    xdigit (hexdigit (c >>> 4)) <<< 4 ||| xdigit (hexdigit (c &&& 0xF)) = c := by
  revert c
  exact every_byte (by decide +kernel)

theorem digit_plain (c : UInt8) : isxdigit c = true → c ≠ 38 ∧ c ≠ 61 := by
  revert c
  exact every_byte (by decide +kernel)

variable {spaceAsPlus : Bool} {c : UInt8} {str rest : List UInt8}

theorem UrlDecode_plus (rest : List UInt8) : UrlDecode true (43 :: rest) = 32 :: UrlDecode true rest := by
  cases rest with
  | nil => rfl
  | cons first rest => cases rest <;> rfl

theorem UrlDecode_plain (notPlus : c ≠ 43) (notEscape : c ≠ 37) (rest : List UInt8) :
    UrlDecode spaceAsPlus (c :: rest) = c :: UrlDecode spaceAsPlus rest := by
  cases rest with
  | nil => simp [UrlDecode,notPlus]
  | cons first rest => cases rest <;> simp [UrlDecode,notPlus,notEscape]

theorem UrlDecode_length (str : List UInt8) : (UrlDecode spaceAsPlus str).length ≤ str.length := by
  fun_induction UrlDecode spaceAsPlus str with
  | case1 c first second tail plus ih =>
      simp only [List.length_cons] at ih ⊢
      omega
  | case2 c first second tail notPlus escape ih =>
      simp only [List.length_cons]
      omega
  | case3 c first second tail notPlus notEscape ih =>
      simp only [List.length_cons] at ih ⊢
      omega
  | case4 c rest short ih =>
      simp only [List.length_cons]
      omega
  | case5 => exact Nat.le_refl _

theorem UrlDecode_encodeChar (c : UInt8) (rest : List UInt8) :
    UrlDecode spaceAsPlus (encodeChar spaceAsPlus c ++ rest) = c :: UrlDecode spaceAsPlus rest := by
  unfold encodeChar
  by_cases plain : isUnreserved c = true
  · obtain ⟨notPlus,notEscape,_⟩ := unreserved_plain c plain
    rw [if_pos plain]
    exact UrlDecode_plain notPlus notEscape rest
  · rw [if_neg plain]
    by_cases space : (c = 32 && spaceAsPlus) = true
    · obtain ⟨same,plus⟩ := Bool.and_eq_true_iff.mp space
      rw [if_pos space,plus,of_decide_eq_true same]
      exact UrlDecode_plus rest
    · obtain ⟨high,low,same⟩ := escape_digits c
      rw [if_neg space]
      simp [UrlDecode,high,low,same]

theorem UrlDecode_append (spaceAsPlus : Bool) (str rest : List UInt8) :
    UrlDecode spaceAsPlus (UrlEncode str spaceAsPlus ++ rest) = str ++ UrlDecode spaceAsPlus rest := by
  induction str with
  | nil => rfl
  | cons c tail ih =>
      rw [UrlEncode,List.flatMap_cons,List.append_assoc,UrlDecode_encodeChar]
      exact congrArg (c :: ·) ih

-- No escape holds a separator, and only `=` stands for `=`.
theorem encodeChar_separators (c : UInt8) : 38 ∉ encodeChar spaceAsPlus c ∧ (c ≠ 61 → 61 ∉ encodeChar spaceAsPlus c) := by
  unfold encodeChar
  by_cases plain : isUnreserved c = true
  · obtain ⟨_,_,notSeparator⟩ := unreserved_plain c plain
    rw [if_pos plain]
    simp [notSeparator.symm,ne_comm]
  · rw [if_neg plain]
    by_cases space : (c = 32 && spaceAsPlus) = true
    · rw [if_pos space]
      simp
    · obtain ⟨high,low,_⟩ := escape_digits c
      have first := digit_plain _ high
      have second := digit_plain _ low
      rw [if_neg space]
      simp [first.1.symm,first.2.symm,second.1.symm,second.2.symm]

theorem UrlEncode_ampersand (str : List UInt8) : 38 ∉ UrlEncode str spaceAsPlus := by
  intro member
  obtain ⟨c,_,present⟩ := List.mem_flatMap.mp member
  exact (encodeChar_separators c).1 present

theorem UrlEncode_equals (absent : 61 ∉ str) : 61 ∉ UrlEncode str spaceAsPlus := by
  intro member
  obtain ⟨c,among,present⟩ := List.mem_flatMap.mp member
  exact (encodeChar_separators c).2 (fun same => absent (same ▸ among)) present

theorem UrlDecode_UrlEncode (str : List UInt8) : UrlDecode spaceAsPlus (UrlEncode str spaceAsPlus) = str := by
  have whole := UrlDecode_append spaceAsPlus str []
  rw [List.append_nil] at whole
  rw [whole,UrlDecode,List.append_nil]

end StringUtil
end Fishjoy
