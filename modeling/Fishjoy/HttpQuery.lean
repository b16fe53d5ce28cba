import Fishjoy.Http
import Fishjoy.Foundation.Fields

namespace Fishjoy
open KeyedMap StringUtil Fields

-- `PARSE_PARAM`, with the string from `pos` on in place of the position.
def parseParam (flag : UInt8) (trim : List UInt8 → List UInt8) (str : List UInt8) (m : MapType) : MapType :=
  match _found : str.dropWhile (· ≠ 61) with
  | [] => m
  | _ :: tail =>
    let key := UrlDecode true (trim (str.takeWhile (· ≠ 61)))
    let value := UrlDecode true (tail.takeWhile (· ≠ flag))
    match _more : tail.dropWhile (· ≠ flag) with
    | [] => m.insert key value
    | _ :: next => parseParam flag trim next (m.insert key value)
termination_by str.length
decreasing_by
  have first := (List.dropWhile_sublist (l := str) (· ≠ 61)).length_le
  have second := (List.dropWhile_sublist (l := tail) (· ≠ flag)).length_le
  rw [_found,List.length_cons] at first
  rw [_more,List.length_cons] at second
  omega

namespace HttpRequest

def initQueryParam (r : HttpRequest) : HttpRequest :=
  if r.parserParamFlag &&& 1 ≠ 0 then r
  else {r with params := parseParam 38 id r.query r.params,parserParamFlag := r.parserParamFlag ||| 1}

end HttpRequest

abbrev Pair := List UInt8 × List UInt8

def written (pair : Pair) : List UInt8 := UrlEncode pair.1 true ++ 61 :: UrlEncode pair.2 true

def queryOf (pairs : List Pair) : List UInt8 := List.intercalate [38] (pairs.map written)

-- `=` is written as it stands, so the text of a pair is cut at the first one
-- in its key.
def cut (pair : Pair) : Pair :=
  let whole := pair.1 ++ 61 :: pair.2
  (whole.takeWhile (· ≠ 61),(whole.dropWhile (· ≠ 61)).tail)

-- No key holds `=`, except behind a NUL and after an earlier pair whose key is
-- equivalent.
def Distinguished (pairs : List Pair) : Prop :=
  ∀ earlier pair later, pairs = earlier ++ pair :: later → 61 ∈ pair.1 →
    0 ∈ pair.1.takeWhile (· ≠ 61) ∧ ∃ other ∈ earlier, equivalent CaseInsensitiveLess other.1 pair.1 = true

variable {pair : Pair} {pairs : List Pair}

theorem cut_plain (absent : 61 ∉ pair.1) : cut pair = pair := by
  obtain ⟨key,value⟩ := takeWhile_found pair.2 absent
  rw [cut,key,value]
  rfl

theorem cut_found (shape : pair.1 = a ++ 61 :: b) (absent : 61 ∉ a) : cut pair = (a,b ++ 61 :: pair.2) := by
  obtain ⟨key,value⟩ := takeWhile_found (b ++ 61 :: pair.2) absent
  rw [cut,shape,List.append_assoc,List.cons_append,key,value]
  rfl

section parsing
variable {flag : UInt8} {trim : List UInt8 → List UInt8} {key value : List UInt8} (m : MapType)

theorem parseParam_last (noEquals : 61 ∉ key) (noFlag : flag ∉ value) :
    parseParam flag trim (key ++ 61 :: value) m = m.insert (UrlDecode true (trim key)) (UrlDecode true value) := by
  obtain ⟨front,back⟩ := takeWhile_found value noEquals
  obtain ⟨body,ended⟩ := takeWhile_absent noFlag
  rw [parseParam]
  split
  · rename_i none
    rw [back] at none
    cases none
  · rename_i tail found
    rw [back] at found
    cases found
    split
    · rw [front,body]
    · rename_i more
      rw [ended] at more
      cases more

theorem parseParam_next (noEquals : 61 ∉ key) (noFlag : flag ∉ value) (next : List UInt8) :
    parseParam flag trim (key ++ 61 :: (value ++ flag :: next)) m =
      parseParam flag trim next (m.insert (UrlDecode true (trim key)) (UrlDecode true value)) := by
  obtain ⟨front,back⟩ := takeWhile_found (value ++ flag :: next) noEquals
  obtain ⟨body,rest⟩ := takeWhile_found next noFlag
  rw [parseParam]
  split
  · rename_i none
    rw [back] at none
    cases none
  · rename_i tail found
    rw [back] at found
    cases found
    split
    · rename_i ended
      rw [rest] at ended
      cases ended
    · rename_i more
      rw [rest] at more
      cases more
      rw [front,body]

end parsing

theorem cut_parts (pair : Pair) :
    61 ∉ (cut pair).1 ∧ written pair = UrlEncode (cut pair).1 true ++ 61 :: UrlEncode (cut pair).2 true := by
  by_cases member : 61 ∈ pair.1
  · obtain ⟨a,b,shape,absent,_⟩ := first_occurrence member
    have equals : encodeChar true 61 = [61] := by decide
    rw [cut_found shape absent]
    refine ⟨absent,?_⟩
    simp [written,shape,UrlEncode,equals]
  · rw [cut_plain member]
    exact ⟨member,rfl⟩

theorem parseParam_queryOf (pairs : List Pair) (m : MapType) :
    parseParam 38 id (queryOf pairs) m = m.insertAll (pairs.map cut) := by
  induction pairs generalizing m with
  | nil => rw [parseParam]; rfl
  | cons pair rest ih =>
      obtain ⟨absent,text⟩ := cut_parts pair
      have key : 61 ∉ UrlEncode (cut pair).1 true := UrlEncode_equals absent
      have value : 38 ∉ UrlEncode (cut pair).2 true := UrlEncode_ampersand _
      cases rest with
      | nil =>
          have whole : queryOf [pair] = written pair := by simp [queryOf]
          rw [whole,text,parseParam_last m key value,id,UrlDecode_UrlEncode,UrlDecode_UrlEncode]
          rfl
      | cons second rest =>
          have whole : queryOf (pair :: second :: rest) = written pair ++ 38 :: queryOf (second :: rest) := by
            simp [queryOf,List.intercalate_cons_cons]
          rw [whole,text,List.append_assoc,List.cons_append,parseParam_next m key value,id,UrlDecode_UrlEncode,
            UrlDecode_UrlEncode,ih]
          rfl

theorem tolower_equals (c : UInt8) : (tolower c).toNat = 61 ↔ c = 61 := by
  revert c
  exact every_byte (by decide +kernel)

theorem caseFold_equals (s : List UInt8) : 61 ∈ caseFold s ↔ 61 ∈ c_str s := by
  simp [caseFold,tolower_equals]

theorem caseFold_ended (ended : 0 ∈ a) (rest : List UInt8) : caseFold (a ++ rest) = caseFold a := by
  have same : c_str (a ++ rest) = c_str a := by
    obtain ⟨front,back,rfl,absent,_⟩ := first_occurrence ended
    rw [c_str,c_str,List.append_assoc,List.cons_append,(takeWhile_found _ absent).1,(takeWhile_found _ absent).1]
  rw [caseFold,same,caseFold]

-- The key that is read is equivalent to the one written unless its first `=`
-- shows to the comparator.
theorem cut_equivalent (hidden : 61 ∈ pair.1 → 0 ∈ pair.1.takeWhile (· ≠ 61)) :
    caseFold (cut pair).1 = caseFold pair.1 := by
  by_cases member : 61 ∈ pair.1
  · obtain ⟨a,b,shape,absent,front⟩ := first_occurrence member
    have ended := hidden member
    rw [front] at ended
    rw [cut_found shape absent,shape,caseFold_ended ended]
  · rw [cut_plain member]

theorem visible_equals (member : 61 ∈ pair.1) (shown : 0 ∉ pair.1.takeWhile (· ≠ 61)) : 61 ∈ caseFold pair.1 := by
  obtain ⟨a,b,shape,_,front⟩ := first_occurrence member
  rw [front] at shown
  have kept : ∀ y ∈ a, decide (y ≠ 0) = true := fun y among =>
    decide_eq_true fun zero => shown (zero ▸ among)
  rw [caseFold_equals,shape,c_str,List.takeWhile_append_of_pos kept]
  simp

theorem cut_key_equals (pair : Pair) : 61 ∉ caseFold (cut pair).1 := by
  rw [caseFold_equals]
  intro member
  exact (cut_parts pair).1 ((List.takeWhile_sublist _).mem member)

theorem equivalent_cut (hidden : 61 ∈ pair.1 → 0 ∈ pair.1.takeWhile (· ≠ 61)) (k : List UInt8) :
    equivalent CaseInsensitiveLess k (cut pair).1 = equivalent CaseInsensitiveLess k pair.1 := by
  rw [Bool.eq_iff_iff,equivalent_caseFold,equivalent_caseFold,cut_equivalent hidden]

theorem firstValue_cut (seen : List Pair) (whole : pairs = seen ++ rest) (distinguished : Distinguished pairs)
    (k : List UInt8) (fresh : ∀ other ∈ seen, equivalent CaseInsensitiveLess k other.1 = false) :
    firstValue CaseInsensitiveLess (rest.map cut) k = firstValue CaseInsensitiveLess rest k := by
  induction rest generalizing seen with
  | nil => rfl
  | cons pair rest ih =>
      have hidden : 61 ∈ pair.1 → 0 ∈ pair.1.takeWhile (· ≠ 61) := fun member =>
        (distinguished seen pair rest whole member).1
      have same := equivalent_cut hidden k
      rw [firstValue,firstValue,List.map_cons]
      simp only [List.find?_cons,same]
      cases here : equivalent CaseInsensitiveLess k pair.1 with
      | true =>
          have plain : 61 ∉ pair.1 := by
            intro member
            obtain ⟨other,among,before⟩ := (distinguished seen pair rest whole member).2
            have known := fresh other among
            rw [equivalent_comm] at before
            rw [equivalent_trans here before] at known
            cases known
          simp [cut_plain plain]
      | false =>
          have later := ih (seen ++ [pair]) (by rw [whole,List.append_assoc]; rfl) (by
            intro other among
            rcases List.mem_append.mp among with old | new
            · exact fresh other old
            · rw [List.mem_singleton.mp new]; exact here)
          exact later

theorem firstValue_some (member : pair ∈ pairs) (k : List UInt8)
    (same : equivalent CaseInsensitiveLess k pair.1 = true) : ∃ v, firstValue CaseInsensitiveLess pairs k = some v := by
  have found : (pairs.find? fun pair => equivalent CaseInsensitiveLess k pair.1).isSome = true :=
    List.find?_isSome.mpr ⟨pair,member,same⟩
  obtain ⟨first,eq⟩ := Option.isSome_iff_exists.mp found
  exact ⟨first.2,by rw [firstValue,eq]; rfl⟩

theorem firstValue_at (later : List Pair) (fresh : ∀ other ∈ earlier, equivalent CaseInsensitiveLess k other.1 = false)
    (same : equivalent CaseInsensitiveLess k pair.1 = true) :
    firstValue CaseInsensitiveLess (earlier ++ pair :: later) k = some pair.2 := by
  have none : (earlier.find? fun pair => equivalent CaseInsensitiveLess k pair.1) = none := by
    refine List.find?_eq_none.mpr fun other among => ?_
    rw [fresh other among]
    exact Bool.false_ne_true
  simp only [firstValue,List.find?_append,none,List.find?_cons,same]
  rfl

theorem distinguished_of_firstValue
    (same : ∀ k, firstValue CaseInsensitiveLess (pairs.map cut) k = firstValue CaseInsensitiveLess pairs k) :
    Distinguished pairs := by
  have hidden : ∀ pair ∈ pairs, 61 ∈ pair.1 → 0 ∈ pair.1.takeWhile (· ≠ 61) := by
    intro pair member equals
    by_contra shown
    have visible := visible_equals equals shown
    obtain ⟨v,found⟩ := firstValue_some member pair.1 (equivalent_refl pair.1)
    rw [←same,firstValue,Option.map_eq_some_iff] at found
    obtain ⟨read,first,_⟩ := found
    obtain ⟨source,_,rfl⟩ := List.mem_map.mp (List.mem_of_find?_eq_some first)
    have chosen : equivalent CaseInsensitiveLess pair.1 (cut source).1 = true := by
      simpa using List.find?_some first
    have key := (equivalent_caseFold _ _).mp chosen
    rw [key] at visible
    exact cut_key_equals source visible
  intro earlier pair later whole equals
  have among : pair ∈ pairs := by rw [whole]; simp
  refine ⟨hidden pair among equals,?_⟩
  by_contra none
  have fresh : ∀ other ∈ earlier, equivalent CaseInsensitiveLess pair.1 other.1 = false := by
    intro other member
    rw [equivalent_comm]
    by_contra known
    exact none ⟨other,member,Bool.not_eq_false _ ▸ known⟩
  have freshCut : ∀ other ∈ earlier.map cut, equivalent CaseInsensitiveLess pair.1 other.1 = false := by
    intro other member
    obtain ⟨source,origin,rfl⟩ := List.mem_map.mp member
    rw [equivalent_cut (hidden source (by rw [whole]; simp [origin]))]
    exact fresh source origin
  have written := firstValue_at later fresh (equivalent_refl pair.1)
  have read := firstValue_at (later.map cut) freshCut
    ((equivalent_cut (hidden pair among) pair.1).trans (equivalent_refl pair.1))
  have agree := same pair.1
  rw [whole,List.map_append,List.map_cons,read,written] at agree
  obtain ⟨a,b,shape,absent,_⟩ := first_occurrence equals
  rw [cut_found shape absent] at agree
  have lengths := congrArg List.length (Option.some.inj agree)
  simp only [List.length_append,List.length_cons] at lengths
  omega

theorem initQueryParam_params (version : UInt8) (close : Bool) (pairs : List Pair) :
    ((HttpRequest.initial version close).setQuery (queryOf pairs)).initQueryParam.params =
      KeyedMap.empty.insertAll (pairs.map cut) := by
  have unparsed : ¬(HttpRequest.initial version close).parserParamFlag &&& 1 ≠ 0 := by
    simp [HttpRequest.initial]
  rw [HttpRequest.initQueryParam,HttpRequest.setQuery,if_neg unparsed]
  exact parseParam_queryOf pairs KeyedMap.empty

-- Each key is bound to the value of its first occurrence, and nothing else is.
theorem initQueryParam_exactly (version : UInt8) (close : Bool) (pairs : List Pair) :
    (∀ k, ((HttpRequest.initial version close).setQuery (queryOf pairs)).initQueryParam.params.find k =
      firstValue CaseInsensitiveLess pairs k) ↔ Distinguished pairs := by
  simp only [initQueryParam_params,find_insertAll]
  constructor
  · intro same
    exact distinguished_of_firstValue same
  · intro distinguished k
    exact firstValue_cut [] rfl distinguished k nofun

-- The pair ("a=b","v") comes back as ("a","b=v").
theorem initQueryParam_fails :
    ¬∀ k, ((HttpRequest.initial 0x11 true).setQuery (queryOf [(text "a=b",text "v")])).initQueryParam.params.find k =
      firstValue CaseInsensitiveLess [(text "a=b",text "v")] k := by
  intro holds
  have known := holds (text "a")
  rw [initQueryParam_params] at known
  exact absurd known (by decide)

end Fishjoy
