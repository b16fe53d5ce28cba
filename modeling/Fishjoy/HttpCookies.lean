import Fishjoy.HttpDump
import Fishjoy.HttpParams
import Mathlib.Data.List.Pairwise

namespace Fishjoy
open KeyedMap StringUtil

def cookieOctet (c : UInt8) : Bool :=
  c = 0x21 || (0x23 ≤ c && c ≤ 0x2B) || (0x2D ≤ c && c ≤ 0x3A) || (0x3C ≤ c && c ≤ 0x5B) || (0x5D ≤ c && c ≤ 0x7E)

-- No control, space or separator; the last four are the double quote, the
-- backslash and the braces.
def tokenChar (c : UInt8) : Bool :=
  0x21 ≤ c && c ≤ 0x7E && !(text "()<>@,;:/[]?=" ++ [34,92,123,125]).contains c

-- The arguments of one `setCookie`.
structure Cookie where
  name : List UInt8
  value : List UInt8
  expired : Int
  path : List UInt8
  domain : List UInt8
  secure : Bool
  nonempty : name ≠ []
  token : name.all tokenChar = true
  octets : value.all cookieOctet = true

namespace HttpResponseOut

def setCookies (Time2Str : Int → List UInt8) (r : HttpResponseOut) (sent : List Cookie) : HttpResponseOut :=
  sent.foldl (fun r c => r.setCookie Time2Str c.name c.value c.expired c.path c.domain c.secure) r

-- What a client sends back: of each cookie the part before its attributes.
def echo (r : HttpResponseOut) : List UInt8 :=
  List.intercalate (text "; ") (r.cookies.map fun i => i.takeWhile (· ≠ 59))

end HttpResponseOut

def DistinctNames (sent : List Cookie) : Prop :=
  sent.Pairwise fun a b => equivalent CaseInsensitiveLess a.name b.name = false

-- A cookie with a value has a name and a value that `UrlDecode` leaves as they
-- are, and no name in front of it is decoded to its name.
def ReadsBack (sent : List Cookie) : Prop :=
  ∀ earlier cookie later, sent = earlier ++ cookie :: later → cookie.value ≠ [] →
    UrlDecode true cookie.name = cookie.name ∧ UrlDecode true cookie.value = cookie.value ∧
    ∀ other ∈ earlier, equivalent CaseInsensitiveLess cookie.name (UrlDecode true other.name) = false

theorem tokenChar_plain (c : UInt8) :
    tokenChar c = true → c ≠ 0 ∧ c ≠ 59 ∧ c ≠ 61 ∧ tolower c ≠ 32 ∧ delimit.contains c = false := by
  revert c
  exact every_byte (by decide +kernel)

theorem cookieOctet_plain (c : UInt8) : cookieOctet c = true → c ≠ 59 := by
  revert c
  exact every_byte (by decide +kernel)

section decoding
variable {s : List UInt8}

-- Text that keeps its length and gets no blank is not changed.
theorem UrlDecode_kept (length : (UrlDecode true s).length = s.length) (noBlank : 32 ∉ UrlDecode true s) :
    UrlDecode true s = s := by
  fun_induction UrlDecode true s with
  | case1 c first second tail plus ih => exact absurd (.head _) noBlank
  | case2 c first second tail notPlus escape ih =>
      have bound : (UrlDecode true tail).length ≤ tail.length := UrlDecode_length tail
      simp only [List.length_cons] at length
      omega
  | case3 c first second tail notPlus notEscape ih =>
      rw [ih (Nat.succ.inj length) fun among => noBlank (.tail _ among)]
  | case4 c rest short ih =>
      have kept := ih (Nat.succ.inj length) fun among => noBlank (.tail _ among)
      by_cases plus : (c = 43 && true) = true
      · rw [if_pos plus] at noBlank
        exact absurd (.head _) noBlank
      · rw [if_neg plus,kept]
  | case5 => rfl

end decoding

theorem Trim_padded {lead name : List UInt8} (blank : lead.all delimit.contains = true)
    (solid : ∀ c ∈ name, delimit.contains c = false) : Trim (lead ++ name) = name := by
  have front : (lead ++ name).dropWhile (fun c => delimit.contains c) = name := by
    rw [List.dropWhile_append_of_pos (List.all_eq_true.mp blank),List.dropWhile_eq_self_iff]
    intro some head
    rw [solid _ (List.getElem_mem some)] at head
    cases head
  rw [Trim,front,List.rdropWhile_eq_self_iff]
  intro some last
  rw [solid _ (List.getLast_mem some)] at last
  cases last

def Cookie.pair (c : Cookie) : List UInt8 := c.name ++ 61 :: c.value

theorem Cookie.name_char (c : Cookie) (x : UInt8) (member : x ∈ c.name) :
    x ≠ 0 ∧ x ≠ 59 ∧ x ≠ 61 ∧ tolower x ≠ 32 ∧ delimit.contains x = false :=
  tokenChar_plain x (List.all_eq_true.mp c.token x member)

theorem Cookie.name_absent (c : Cookie) : 61 ∉ c.name ∧ 59 ∉ c.name := by
  constructor
  · intro among
    exact (c.name_char 61 among).2.2.1 rfl
  · intro among
    exact (c.name_char 59 among).2.1 rfl

theorem Cookie.value_absent (c : Cookie) : 59 ∉ c.value :=
  fun among => cookieOctet_plain 59 (List.all_eq_true.mp c.octets 59 among) rfl

section attributes
variable {front back : List UInt8}

theorem takeWhile_none (first : front.takeWhile (· ≠ 59) = []) (second : back.takeWhile (· ≠ (59 : UInt8)) = []) :
    (front ++ back).takeWhile (· ≠ 59) = [] := by
  cases front with
  | nil => exact second
  | cons c rest =>
      by_cases ended : c = 59
      · simp [ended]
      · simp [ended] at first

theorem takeWhile_front (absent : 59 ∉ front) (attributes : back.takeWhile (· ≠ (59 : UInt8)) = []) :
    (front ++ back).takeWhile (· ≠ 59) = front := by
  have kept : ∀ c ∈ front, decide (c ≠ 59) = true := fun c member =>
    decide_eq_true fun same => absent (same ▸ member)
  rw [List.takeWhile_append_of_pos kept,attributes,List.append_nil]

end attributes

-- The attributes come behind a `;`, if there are any.
theorem setCookie_pair (Time2Str : Int → List UInt8) (r : HttpResponseOut) (c : Cookie) :
    ∃ i : List UInt8,
      (r.setCookie Time2Str c.name c.value c.expired c.path c.domain c.secure).cookies = r.cookies ++ [i] ∧
        i.takeWhile (· ≠ 59) = c.pair := by
  refine ⟨_,rfl,?_⟩
  have absent : 59 ∉ c.pair := by
    intro among
    rcases List.mem_append.mp among with name | rest
    · exact c.name_absent.2 name
    · rcases List.mem_cons.mp rest with equals | value
      · cases equals
      · exact c.value_absent value
  have whole : c.name ++ text "=" ++ c.value = c.pair := by simp [Cookie.pair,text]
  rw [whole,List.append_assoc,List.append_assoc,List.append_assoc]
  apply takeWhile_front absent
  refine takeWhile_none ?_ (takeWhile_none ?_ (takeWhile_none ?_ ?_))
  · split <;> rfl
  · split <;> rfl
  · split <;> rfl
  · split <;> rfl

theorem setCookies_pairs (Time2Str : Int → List UInt8) (r : HttpResponseOut) (sent : List Cookie) :
    ((r.setCookies Time2Str sent).cookies.map fun i => i.takeWhile (· ≠ 59)) =
      (r.cookies.map fun i => i.takeWhile (· ≠ 59)) ++ sent.map Cookie.pair := by
  induction sent generalizing r with
  | nil => simp [HttpResponseOut.setCookies]
  | cons c rest ih =>
      obtain ⟨i,added,first⟩ := setCookie_pair Time2Str r c
      have later := ih (r.setCookie Time2Str c.name c.value c.expired c.path c.domain c.secure)
      rw [added] at later
      rw [HttpResponseOut.setCookies,List.foldl_cons,←HttpResponseOut.setCookies,later]
      simp only [List.map_append,List.map_cons,List.map_nil,first,List.append_assoc]
      rfl

theorem echo_setCookies (Time2Str : Int → List UInt8) (version : UInt8) (close : Bool) (sent : List Cookie) :
    ((HttpResponseOut.initial version close).setCookies Time2Str sent).echo =
      List.intercalate (text "; ") (sent.map Cookie.pair) := by
  rw [HttpResponseOut.echo,setCookies_pairs]
  rfl

def Cookie.decoded (c : Cookie) : Pair := (UrlDecode true c.name,UrlDecode true c.value)

theorem inserted_echo (sent : List Cookie) (lead : List UInt8) (blank : lead.all delimit.contains = true) :
    inserted 59 Trim (lead ++ List.intercalate (text "; ") (sent.map Cookie.pair)) = sent.map Cookie.decoded := by
  have bare : 61 ∉ lead := by
    intro among
    have known := List.all_eq_true.mp blank 61 among
    revert known
    decide
  induction sent generalizing lead with
  | nil =>
      rw [inserted,Fields.scan_bare (by simpa using bare)]
      rfl
  | cons c rest ih =>
      have key : 61 ∉ lead ++ c.name := by simp [bare,c.name_absent.1]
      have trimmed : Trim (lead ++ c.name) = c.name :=
        Trim_padded blank fun b member => (c.name_char b member).2.2.2.2
      cases rest with
      | nil =>
          have whole : lead ++ List.intercalate (text "; ") ([c].map Cookie.pair) = (lead ++ c.name) ++ 61 :: c.value := by
            simp [Cookie.pair]
          rw [inserted,whole,Fields.scan_last key c.value_absent,List.map_singleton,trimmed]
          rfl
      | cons second rest =>
          have next := ih (text " ") (by decide) (by decide)
          have whole : lead ++ List.intercalate (text "; ") ((c :: second :: rest).map Cookie.pair) =
              (lead ++ c.name) ++ 61 :: (c.value ++ 59 ::
                (text " " ++ List.intercalate (text "; ") ((second :: rest).map Cookie.pair))) := by
            simp [Cookie.pair,List.intercalate_cons_cons,text]
          rw [inserted] at next ⊢
          rw [whole,Fields.scan_next key c.value_absent,List.map_cons,trimmed,next]
          rfl

-- The cookie that the server finds is the first one whose decoded name is
-- equivalent to the name.
theorem getCookie_echo (Time2Str : Int → List UInt8) (version : UInt8) (close : Bool) (r : HttpRequestIn)
    (sent : List Cookie) (unparsed : r.parserParamFlag &&& 4 = 0) (fresh : r.cookies = .empty) (name : List UInt8) :
    ((r.setHeader (text "Cookie") ((HttpResponseOut.initial version close).setCookies Time2Str sent).echo).getCookie
      name []).1 = (firstValue CaseInsensitiveLess (sent.map Cookie.decoded) name).getD [] := by
  rw [echo_setCookies]
  generalize whole : List.intercalate (text "; ") (sent.map Cookie.pair) = cookie
  have sameName : equivalent CaseInsensitiveLess (text "cookie") (text "Cookie") = true := by decide
  have header : (r.setHeader (text "Cookie") cookie).getHeader (text "cookie") [] = cookie := by
    rw [HttpRequest.getHeader,HttpRequestIn.setHeader,HttpRequest.setHeader,find_assign,if_pos sameName]
    rfl
  have pairs : (r.setHeader (text "Cookie") cookie).cookiePairs = sent.map Cookie.decoded := by
    have left : ¬(r.setHeader (text "Cookie") cookie).parserParamFlag &&& 4 ≠ 0 := fun set => set unparsed
    have read := inserted_echo sent [] rfl
    rw [List.nil_append,whole] at read
    rw [HttpRequestIn.cookiePairs,if_neg left,header,read]
  have none : (r.setHeader (text "Cookie") cookie).cookies = .empty := fresh
  rw [HttpRequestIn.getCookie,HttpRequestIn.initCookies_eq,pairs,none]
  dsimp only
  rw [find_insertAll]
  rfl

section reading
variable {sent : List Cookie} {c o : Cookie}

theorem DistinctNames.same (distinct : DistinctNames sent) (first : c ∈ sent) (second : o ∈ sent)
    (named : equivalent CaseInsensitiveLess c.name o.name = true) : c = o := by
  have symmetric : Std.Symm fun a b : Cookie => equivalent CaseInsensitiveLess a.name b.name = false :=
    ⟨fun a b apart => by rw [equivalent_comm,apart]⟩
  by_contra differ
  have apart : equivalent CaseInsensitiveLess c.name o.name = false := distinct.forall first second differ
  rw [apart] at named
  cases named

theorem Cookie.caseFold_name (c : Cookie) : caseFold c.name = c.name.map fun x => (tolower x).toNat := by
  have ended : 0 ∉ c.name := fun among => (c.name_char 0 among).1 rfl
  rw [caseFold,c_str,(Fields.takeWhile_absent ended).1]

theorem Cookie.caseFold_blank (c : Cookie) : 32 ∉ caseFold c.name := by
  rw [c.caseFold_name]
  intro among
  obtain ⟨x,member,blank⟩ := List.mem_map.mp among
  exact (c.name_char x member).2.2.2.1 (UInt8.toNat_inj.mp blank)

-- A name that is decoded to a token is as long as the token, or longer where
-- something was decoded.
theorem decoded_name (named : equivalent CaseInsensitiveLess c.name (UrlDecode true o.name) = true) :
    c.name.length ≤ o.name.length ∧ (o.name.length ≤ c.name.length → UrlDecode true o.name = o.name) := by
  have fold := (equivalent_caseFold _ _).mp named
  have blank : 32 ∉ caseFold (UrlDecode true o.name) := fold ▸ c.caseFold_blank
  have length := congrArg List.length fold
  rw [c.caseFold_name,caseFold,List.length_map,List.length_map] at length
  have visible : (c_str (UrlDecode true o.name)).length ≤ (UrlDecode true o.name).length :=
    (List.takeWhile_sublist _).length_le
  have decoding : (UrlDecode true o.name).length ≤ o.name.length := UrlDecode_length o.name
  refine ⟨by omega,?_⟩
  intro long
  have shown : c_str (UrlDecode true o.name) = UrlDecode true o.name :=
    (List.takeWhile_prefix _).eq_of_length (by change (c_str (UrlDecode true o.name)).length = _; omega)
  refine UrlDecode_kept (by omega) ?_
  intro among
  refine blank (List.mem_map.mpr ⟨32,?_,rfl⟩)
  rw [shown]
  exact among

theorem firstValue_decoded (sent : List Cookie) (name : List UInt8) :
    firstValue CaseInsensitiveLess (sent.map Cookie.decoded) name =
      (sent.find? fun o => equivalent CaseInsensitiveLess name (UrlDecode true o.name)).map fun o => UrlDecode true o.value := by
  rw [firstValue,List.find?_map,Option.map_map]
  rfl

-- If all values come back, a value that is not empty comes from its own
-- cookie. The induction goes down from the longest names.
theorem own_value (distinct : DistinctNames sent)
    (each : ∀ c ∈ sent, (firstValue CaseInsensitiveLess (sent.map Cookie.decoded) c.name).getD [] = c.value)
    (bound : ∀ c ∈ sent, c.name.length ≤ most) (member : c ∈ sent) (filled : c.value ≠ []) :
    UrlDecode true c.name = c.name ∧ UrlDecode true c.value = c.value ∧
      (sent.find? fun o => equivalent CaseInsensitiveLess c.name (UrlDecode true o.name)) = some c := by
  induction gap : most - c.name.length using Nat.strongRecOn generalizing c with
  | ind n ih =>
      have value := each c member
      rw [firstValue_decoded] at value
      cases found : sent.find? fun o => equivalent CaseInsensitiveLess c.name (UrlDecode true o.name) with
      | none =>
          rw [found] at value
          exact absurd value.symm filled
      | some o =>
          rw [found] at value
          have among := List.mem_of_find?_eq_some found
          have named : equivalent CaseInsensitiveLess c.name (UrlDecode true o.name) = true := by
            simpa using List.find?_some found
          obtain ⟨shorter,kept⟩ := decoded_name named
          have plain : UrlDecode true o.name = o.name := by
            by_cases long : o.name.length ≤ c.name.length
            · exact kept long
            · have source : o.value ≠ [] := by
                intro empty
                rw [Option.map_some,Option.getD_some,empty] at value
                exact filled value.symm
              have limit := bound o among
              exact (ih (most - o.name.length) (by omega) among source rfl).1
          have own : c = o := distinct.same member among (plain ▸ named)
          rw [←own] at plain value
          exact ⟨plain,value,by rw [own]⟩

theorem longest_name (sent : List Cookie) : ∃ most, ∀ c ∈ sent, c.name.length ≤ most := by
  induction sent with
  | nil => exact ⟨0,fun c member => absurd member List.not_mem_nil⟩
  | cons head rest ih =>
      obtain ⟨most,bound⟩ := ih
      refine ⟨max head.name.length most,?_⟩
      intro c member
      rcases List.mem_cons.mp member with rfl | old
      · exact Nat.le_max_left _ _
      · exact (bound c old).trans (Nat.le_max_right _ _)

theorem readsBack_of_values (distinct : DistinctNames sent)
    (each : ∀ c ∈ sent, (firstValue CaseInsensitiveLess (sent.map Cookie.decoded) c.name).getD [] = c.value) :
    ReadsBack sent := by
  obtain ⟨most,bound⟩ := longest_name sent
  intro earlier c later whole filled
  have member : c ∈ sent := by simp [whole]
  obtain ⟨name,value,first⟩ := own_value distinct each bound member filled
  refine ⟨name,value,?_⟩
  intro other among
  by_contra named
  rw [Bool.not_eq_false] at named
  -- The cookie would be found among the earlier ones, and named twice.
  have some : (earlier.find? fun o => equivalent CaseInsensitiveLess c.name (UrlDecode true o.name)).isSome = true :=
    List.find?_isSome.mpr ⟨other,among,named⟩
  obtain ⟨o,found⟩ := Option.isSome_iff_exists.mp some
  rw [whole,List.find?_append,found,Option.some_or,Option.some.injEq] at first
  have twice : c ∈ earlier := first ▸ List.mem_of_find?_eq_some found
  rw [DistinctNames,whole] at distinct
  have apart := (List.pairwise_append.mp distinct).2.2 c twice c (.head _)
  rw [equivalent_refl] at apart
  cases apart

theorem values_of_readsBack (distinct : DistinctNames sent) (readable : ReadsBack sent) (member : c ∈ sent) :
    (firstValue CaseInsensitiveLess (sent.map Cookie.decoded) c.name).getD [] = c.value := by
  by_cases filled : c.value = []
  · rw [firstValue_decoded,filled]
    cases found : sent.find? fun o => equivalent CaseInsensitiveLess c.name (UrlDecode true o.name) with
    | none => rfl
    | some o =>
        have among := List.mem_of_find?_eq_some found
        have named : equivalent CaseInsensitiveLess c.name (UrlDecode true o.name) = true := by
          simpa using List.find?_some found
        by_cases empty : o.value = []
        · rw [Option.map_some,empty]
          rfl
        · obtain ⟨earlier,later,whole⟩ := List.append_of_mem among
          have kept := (readable earlier o later whole empty).1
          have own := distinct.same member among (kept ▸ named)
          exact absurd (own ▸ filled) empty
  · obtain ⟨earlier,later,whole⟩ := List.append_of_mem member
    obtain ⟨name,value,first⟩ := readable earlier c later whole filled
    have fresh : ∀ pair ∈ earlier.map Cookie.decoded, equivalent CaseInsensitiveLess c.name pair.1 = false := by
      intro pair among
      obtain ⟨other,origin,rfl⟩ := List.mem_map.mp among
      exact first other origin
    have same : equivalent CaseInsensitiveLess c.name c.decoded.1 = true := by
      rw [Cookie.decoded,name]
      exact equivalent_refl _
    rw [whole,List.map_append,List.map_cons,firstValue_at _ fresh same]
    exact value

end reading

theorem getCookie_exactly (Time2Str : Int → List UInt8) (version : UInt8) (close : Bool) (r : HttpRequestIn)
    (sent : List Cookie) (distinct : DistinctNames sent) (unparsed : r.parserParamFlag &&& 4 = 0) (fresh : r.cookies = .empty) :
    (∀ c ∈ sent, ((r.setHeader (text "Cookie")
      ((HttpResponseOut.initial version close).setCookies Time2Str sent).echo).getCookie c.name []).1 = c.value) ↔
      ReadsBack sent := by
  simp only [getCookie_echo Time2Str version close r sent unparsed fresh]
  exact ⟨readsBack_of_values distinct,fun readable c member => values_of_readsBack distinct readable member⟩

def sidCookie (value : List UInt8) (octets : value.all cookieOctet = true) : Cookie :=
  ⟨text "sid",value,0,[],[],false,by decide,by decide,octets⟩

-- The second one has a value that is decoded.
def sessionCookies : List Cookie :=
  [sidCookie (text "QUJD") (by decide),⟨text "lang",text "de+at",0,text "/",[],true,by decide,by decide,by decide⟩]

theorem sessionCookies_distinct : DistinctNames sessionCookies := by
  refine List.pairwise_cons.mpr ⟨fun c member => ?_,List.pairwise_singleton _ _⟩
  rw [List.mem_singleton.mp member]
  decide

theorem getCookie_exactly_session : (∀ c ∈ sessionCookies,
    (((HttpRequestIn.initial 0x11 true).setHeader (text "Cookie") ((HttpResponseOut.initial 0x11 true).setCookies
      (fun _ => []) sessionCookies).echo).getCookie c.name []).1 = c.value) ↔
    ReadsBack sessionCookies :=
  getCookie_exactly _ _ _ _ _ sessionCookies_distinct (by decide) rfl

-- The value "+w==" comes back as " w==".
theorem getCookie_decodes : ¬∀ c ∈ [sidCookie (text "+w==") (by decide)],
    (((HttpRequestIn.initial 0x11 true).setHeader (text "Cookie") ((HttpResponseOut.initial 0x11 true).setCookies
      (fun _ => []) [sidCookie (text "+w==") (by decide)]).echo).getCookie c.name []).1 = c.value := by
  intro holds
  have known := holds _ (.head _)
  rw [getCookie_echo _ _ _ _ _ (by decide) rfl] at known
  exact absurd known (by decide)

end Fishjoy
