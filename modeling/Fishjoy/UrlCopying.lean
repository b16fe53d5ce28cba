import Fishjoy.UrlCodec

-- `UrlEncode` and `UrlDecode` with the copy `ss` they build. It is null until
-- the first byte that changes, and `i` is how far the loop has read.
namespace Fishjoy.StringUtil.Copying

def encodeLoop (str : List UInt8) (spaceAsPlus : Bool) : Nat → List UInt8 → Option (List UInt8) → Option (List UInt8)
  | _,[],ss => ss
  | i,c :: rest,ss =>
    if !isUnreserved c then
      let copy := ss.getD (str.take i)
      if c = 32 && spaceAsPlus then encodeLoop str spaceAsPlus (i+1) rest (some (copy ++ [(43 : UInt8)]))
      else encodeLoop str spaceAsPlus (i+1) rest
        (some (copy ++ [(37 : UInt8)] ++ [hexdigit (c >>> 4)] ++ [hexdigit (c &&& 0xF)]))
    else encodeLoop str spaceAsPlus (i+1) rest (ss.map (· ++ [c]))

def UrlEncode (str : List UInt8) (spaceAsPlus : Bool) : List UInt8 :=
  match encodeLoop str spaceAsPlus 0 str none with
  | none => str
  | some ss => ss

-- `(c + 2) < end` is that two bytes follow; after an escape `c += 2` skips them.
def decodeLoop (str : List UInt8) (spaceAsPlus : Bool) : Nat → List UInt8 → Option (List UInt8) → Option (List UInt8)
  | i,c :: first :: second :: tail,ss =>
    if c = 43 && spaceAsPlus then
      decodeLoop str spaceAsPlus (i+1) (first :: second :: tail) (some (ss.getD (str.take i) ++ [32]))
    else if c = 37 && isxdigit first && isxdigit second then
      decodeLoop str spaceAsPlus (i+3) tail (some (ss.getD (str.take i) ++ [xdigit first <<< 4 ||| xdigit second]))
    else decodeLoop str spaceAsPlus (i+1) (first :: second :: tail) (ss.map (· ++ [c]))
  | i,c :: rest,ss =>
    if c = 43 && spaceAsPlus then decodeLoop str spaceAsPlus (i+1) rest (some (ss.getD (str.take i) ++ [32]))
    else decodeLoop str spaceAsPlus (i+1) rest (ss.map (· ++ [c]))
  | _,[],ss => ss

def UrlDecode (str : List UInt8) (spaceAsPlus : Bool) : List UInt8 :=
  match decodeLoop str spaceAsPlus 0 str none with
  | none => str
  | some ss => ss

-- What the function would return at this point: the copy, or what it has read.
def built (before : List UInt8) (ss : Option (List UInt8)) : List UInt8 := ss.getD before

variable {before rest out : List UInt8} {ss : Option (List UInt8)} {c : UInt8} {spaceAsPlus : Bool}

theorem built_kept : built (before ++ [c]) (ss.map (· ++ [c])) = built before ss ++ [c] := by
  cases ss <;> rfl

theorem built_copied : built (before ++ rest) (some (ss.getD before ++ out)) = built before ss ++ out := rfl

theorem built_result {str : List UInt8} : (match ss with | none => str | some ss => ss) = built str ss := by
  cases ss <;> rfl

theorem encodeLoop_built (rest before : List UInt8) (ss : Option (List UInt8)) :
    built (before ++ rest) (encodeLoop (before ++ rest) spaceAsPlus before.length rest ss) =
      built before ss ++ StringUtil.UrlEncode rest spaceAsPlus := by
  induction rest generalizing before ss with
  | nil => simp [encodeLoop,StringUtil.UrlEncode]
  | cons c rest ih =>
      -- The byte is now read, and the loop goes on with the copy `next`.
      have go (next : Option (List UInt8)) (kept : built (before ++ [c]) next = built before ss ++ encodeChar spaceAsPlus c) :
          built (before ++ c :: rest) (encodeLoop (before ++ c :: rest) spaceAsPlus (before.length+1) rest next) =
            built before ss ++ StringUtil.UrlEncode (c :: rest) spaceAsPlus := by
        have following := ih (before ++ [c]) next
        simpa [kept,StringUtil.UrlEncode] using following
      unfold encodeLoop
      by_cases plain : isUnreserved c = true
      · simp only [plain,Bool.not_true,Bool.false_eq_true,if_false]
        apply go
        rw [built_kept,encodeChar,if_pos plain]
      · simp only [plain,Bool.not_false,if_true,List.take_left]
        by_cases space : (c = 32 && spaceAsPlus) = true
        · rw [if_pos space]
          apply go
          rw [built_copied,encodeChar,if_neg plain,if_pos space]
        · rw [if_neg space]
          apply go
          simp only [List.append_assoc,List.cons_append,List.nil_append]
          rw [built_copied,encodeChar,if_neg plain,if_neg space]

theorem UrlEncode_copying (str : List UInt8) : UrlEncode str spaceAsPlus = StringUtil.UrlEncode str spaceAsPlus :=
  built_result.trans (encodeLoop_built str [] none)

theorem decodeLoop_built (rest before : List UInt8) (ss : Option (List UInt8)) :
    built (before ++ rest) (decodeLoop (before ++ rest) spaceAsPlus before.length rest ss) =
      built before ss ++ StringUtil.UrlDecode spaceAsPlus rest := by
  fun_induction StringUtil.UrlDecode spaceAsPlus rest generalizing before ss with
  | case1 c first second tail plus ih =>
      have following := ih (before ++ [c]) (some (ss.getD before ++ [32]))
      rw [built_copied] at following
      simpa [decodeLoop,plus] using following
  | case2 c first second tail notPlus escape ih =>
      have following := ih (before ++ [c,first,second])
        (some (ss.getD before ++ [xdigit first <<< 4 ||| xdigit second]))
      rw [built_copied] at following
      simpa [decodeLoop,notPlus,escape] using following
  | case3 c first second tail notPlus notEscape ih =>
      have following := ih (before ++ [c]) (ss.map (· ++ [c]))
      rw [built_kept] at following
      simpa [decodeLoop,notPlus,notEscape] using following
  | case4 c rest short ih =>
      -- With fewer than two bytes behind it a `%` stands for itself.
      have single : decodeLoop (before ++ c :: rest) spaceAsPlus before.length (c :: rest) ss =
          if c = 43 && spaceAsPlus then
            decodeLoop (before ++ c :: rest) spaceAsPlus (before.length+1) rest (some (ss.getD before ++ [32]))
          else decodeLoop (before ++ c :: rest) spaceAsPlus (before.length+1) rest (ss.map (· ++ [c])) := by
        cases rest with
        | nil => simp [decodeLoop]
        | cons first rest =>
            cases rest with
            | nil => simp [decodeLoop]
            | cons second tail => exact absurd rfl (short first second tail)
      rw [single]
      by_cases plus : (c = 43 && spaceAsPlus) = true
      · have following := ih (before ++ [c]) (some (ss.getD before ++ [32]))
        rw [built_copied] at following
        simpa [plus] using following
      · have following := ih (before ++ [c]) (ss.map (· ++ [c]))
        rw [built_kept] at following
        simpa [plus] using following
  | case5 => simp [decodeLoop]

theorem UrlDecode_copying (str : List UInt8) : UrlDecode str spaceAsPlus = StringUtil.UrlDecode spaceAsPlus str :=
  built_result.trans (decodeLoop_built str [] none)

theorem UrlDecode_inverts (s : List UInt8) (f : Bool) : UrlDecode (UrlEncode s f) f = s := by
  rw [UrlDecode_copying,UrlEncode_copying,UrlDecode_UrlEncode]

-- Either copy is made for some texts and not for others.
example : encodeLoop (text "a~b") false 0 (text "a~b") none = none ∧
    encodeLoop (text "a b") true 0 (text "a b") none = some (text "a+b") ∧
    decodeLoop (text "a%2") true 0 (text "a%2") none = none ∧
    decodeLoop (text "a+%41") true 0 (text "a+%41") none = some (text "a A") := by decide +kernel

end Fishjoy.StringUtil.Copying
