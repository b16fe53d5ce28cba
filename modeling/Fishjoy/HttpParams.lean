import Fishjoy.Foundation.Deferred
import Fishjoy.HttpForm
import Mathlib.Data.List.DropRight

namespace Fishjoy
open KeyedMap StringUtil

def delimit : List UInt8 := text " \t\r\n"

def StringUtil.Trim (str : List UInt8) : List UInt8 :=
  (str.dropWhile fun c => delimit.contains c).rdropWhile fun c => delimit.contains c

-- Whether the needle occurs in the haystack, both without regard to case.
def strcasestr (haystack needle : List UInt8) : Bool :=
  haystack.tails.any fun rest => (rest.take needle.length).map tolower = needle.map tolower

def HttpRequest.initBodyParam (r : HttpRequest) : HttpRequest :=
  if r.parserParamFlag &&& 2 ≠ 0 then r
  else
    let content_type := r.getHeader (text "content-type") []
    if strcasestr (c_str content_type) (text "application/x-www-form-urlencoded") then
      {r with params := parseParam 38 id r.body r.params,parserParamFlag := r.parserParamFlag ||| 2}
    else {r with parserParamFlag := r.parserParamFlag ||| 2}

-- A request with its cookies.
structure HttpRequestIn extends HttpRequest where
  cookies : MapType

namespace HttpRequestIn

def initial (version : UInt8) (close : Bool) : HttpRequestIn := ⟨.initial version close,.empty⟩

def setHeader (r : HttpRequestIn) (key val : List UInt8) : HttpRequestIn :=
  {r with toHttpRequest := r.toHttpRequest.setHeader key val}

def setQuery (r : HttpRequestIn) (v : List UInt8) : HttpRequestIn :=
  {r with toHttpRequest := r.toHttpRequest.setQuery v}

def initQueryParam (r : HttpRequestIn) : HttpRequestIn := {r with toHttpRequest := r.toHttpRequest.initQueryParam}

def initBodyParam (r : HttpRequestIn) : HttpRequestIn := {r with toHttpRequest := r.toHttpRequest.initBodyParam}

def initCookies (r : HttpRequestIn) : HttpRequestIn :=
  if r.parserParamFlag &&& 4 ≠ 0 then r
  else
    let cookie := r.getHeader (text "cookie") []
    if cookie = [] then {r with parserParamFlag := r.parserParamFlag ||| 4}
    else {r with cookies := parseParam 59 Trim cookie r.cookies,parserParamFlag := r.parserParamFlag ||| 4}

-- What `has...` returns and leaves in `*val`, which is absent for a null pointer.
def present (m : MapType) (key : List UInt8) (val : Option (List UInt8)) : Bool × Option (List UInt8) :=
  match m.find key with
  | none => (false,val)
  | some second => (true,val.map fun _ => second)

def getParam (r : HttpRequestIn) (key def_ : List UInt8) : List UInt8 × HttpRequestIn :=
  let r := r.initQueryParam.initBodyParam
  ((r.params.find key).getD def_,r)

def getCookie (r : HttpRequestIn) (key def_ : List UInt8) : List UInt8 × HttpRequestIn :=
  let r := r.initCookies
  ((r.cookies.find key).getD def_,r)

def hasParam (r : HttpRequestIn) (key : List UInt8) (val : Option (List UInt8)) :
    (Bool × Option (List UInt8)) × HttpRequestIn :=
  let r := r.initQueryParam.initBodyParam
  (present r.params key val,r)

def hasCookie (r : HttpRequestIn) (key : List UInt8) (val : Option (List UInt8)) :
    (Bool × Option (List UInt8)) × HttpRequestIn :=
  let r := r.initCookies
  (present r.cookies key val,r)

def setParam (r : HttpRequestIn) (key val : List UInt8) : HttpRequestIn := {r with params := r.params.assign key val}

def setCookie (r : HttpRequestIn) (key val : List UInt8) : HttpRequestIn := {r with cookies := r.cookies.assign key val}

def delParam (r : HttpRequestIn) (key : List UInt8) : HttpRequestIn := {r with params := r.params.erase key}

def delCookie (r : HttpRequestIn) (key : List UInt8) : HttpRequestIn := {r with cookies := r.cookies.erase key}

inductive Part where
  | params
  | cookies
deriving DecidableEq

-- The eight calls, four for each of the two maps.
inductive Call where
  | get (part : Part) (key def_ : List UInt8)
  | has (part : Part) (key : List UInt8) (val : Option (List UInt8))
  | set (part : Part) (key val : List UInt8)
  | del (part : Part) (key : List UInt8)

inductive Answer where
  | value (v : List UInt8)
  | presence (found : Bool × Option (List UInt8))
  | done

def perform (r : HttpRequestIn) : Call → Answer × HttpRequestIn
  | .get .params key def_ => let (v,r) := r.getParam key def_; (.value v,r)
  | .get .cookies key def_ => let (v,r) := r.getCookie key def_; (.value v,r)
  | .has .params key val => let (found,r) := r.hasParam key val; (.presence found,r)
  | .has .cookies key val => let (found,r) := r.hasCookie key val; (.presence found,r)
  | .set .params key val => (.done,r.setParam key val)
  | .set .cookies key val => (.done,r.setCookie key val)
  | .del .params key => (.done,r.delParam key)
  | .del .cookies key => (.done,r.delCookie key)

def run (r : HttpRequestIn) (calls : List Call) : HttpRequestIn := calls.foldl (fun r call => (r.perform call).2) r

def answers (r : HttpRequestIn) : List Call → List Answer
  | [] => []
  | call :: rest => (r.perform call).1 :: answers (r.perform call).2 rest

-- What the flags leave to be parsed for each map.
def queryPairs (r : HttpRequestIn) : List Pair :=
  if r.parserParamFlag &&& 1 ≠ 0 then [] else inserted 38 id r.query

def bodyPairs (r : HttpRequestIn) : List Pair :=
  if r.parserParamFlag &&& 2 ≠ 0 then []
  else if strcasestr (c_str (r.getHeader (text "content-type") [])) (text "application/x-www-form-urlencoded") then
    inserted 38 id r.body
  else []

def cookiePairs (r : HttpRequestIn) : List Pair :=
  if r.parserParamFlag &&& 4 ≠ 0 then [] else inserted 59 Trim (r.getHeader (text "cookie") [])

def unparsed (r : HttpRequestIn) : Part → List Pair
  | .params => r.queryPairs ++ r.bodyPairs
  | .cookies => r.cookiePairs

def contents (r : HttpRequestIn) : Part → MapType
  | .params => r.params
  | .cookies => r.cookies

def parse (r : HttpRequestIn) : Part → HttpRequestIn
  | .params => r.initQueryParam.initBodyParam
  | .cookies => r.initCookies

def store (r : HttpRequestIn) (m : MapType) : Part → HttpRequestIn
  | .params => {r with params := m}
  | .cookies => {r with cookies := m}

def parsed (r : HttpRequestIn) : HttpRequestIn := r.initQueryParam.initBodyParam.initCookies

namespace Call

-- Whether a call parses what is left for the map, and whether it changes what
-- the map has for the key.
def parses (part : Part) : Call → Prop
  | .get other _ _ | .has other _ _ => other = part
  | .set _ _ _ | .del _ _ => False

def changes (part : Part) (key : List UInt8) : Call → Prop
  | .set other k _ | .del other k => other = part ∧ equivalent CaseInsensitiveLess key k = true
  | .get _ _ _ | .has _ _ _ => False

-- Whether the answer depends on the key being bound to `w` or to nothing.
def reveals (part : Part) (key w : List UInt8) : Call → Prop
  | .get other k def_ => other = part ∧ k = key ∧ def_ ≠ w
  | .has other k _ => other = part ∧ k = key
  | .set _ _ _ | .del _ _ => False

-- What a call does to the binding of the key.
def action (part : Part) (key : List UInt8) : Call → Deferred.Action (List UInt8)
  | .get other _ _ | .has other _ _ => if other = part then .load else .other
  | .set other k val => if other = part ∧ equivalent CaseInsensitiveLess key k then .put val else .other
  | .del other k => if other = part ∧ equivalent CaseInsensitiveLess key k then .drop else .other

end Call

-- A key is deleted before its map is parsed and not set or deleted again, and
-- a later call shows what was left to be parsed for it.
def Restored (r : HttpRequestIn) (calls : List Call) : Prop :=
  ∃ before part gone between call later key w, calls = before ++ .del part gone :: between ++ call :: later ∧
    equivalent CaseInsensitiveLess key gone = true ∧ (∀ c ∈ before, ¬c.parses part) ∧
    (∀ c ∈ between, ¬c.changes part key) ∧ firstValue CaseInsensitiveLess (r.unparsed part) key = some w ∧
    call.reveals part key w

theorem flag_kept (f : UInt8) :
    (f &&& 1 ≠ 0 → f ||| 1 = f) ∧ (f &&& 2 ≠ 0 → f ||| 2 = f) ∧ (f &&& 4 ≠ 0 → f ||| 4 = f) := by
  revert f
  exact every_byte (by decide +kernel)

theorem flag_set (f : UInt8) : (f ||| 1) &&& 1 ≠ 0 ∧ (f ||| 2) &&& 2 ≠ 0 ∧ (f ||| 4) &&& 4 ≠ 0 := by
  revert f
  exact every_byte (by decide +kernel)

theorem flag_other (f : UInt8) : ((f ||| 1) &&& 2 = f &&& 2 ∧ (f ||| 1) &&& 4 = f &&& 4) ∧
    ((f ||| 2) &&& 1 = f &&& 1 ∧ (f ||| 2) &&& 4 = f &&& 4) ∧ (f ||| 4) &&& 1 = f &&& 1 ∧ (f ||| 4) &&& 2 = f &&& 2 := by
  revert f
  exact every_byte (by decide +kernel)

theorem initQueryParam_eq (r : HttpRequestIn) : r.initQueryParam =
    {r with params := r.params.insertAll r.queryPairs,parserParamFlag := r.parserParamFlag ||| 1} := by
  rw [initQueryParam,HttpRequest.initQueryParam,queryPairs]
  split
  · rename_i done
    rw [(flag_kept r.parserParamFlag).1 done]
    rfl
  · rw [parseParam_inserted]

theorem initBodyParam_eq (r : HttpRequestIn) : r.initBodyParam =
    {r with params := r.params.insertAll r.bodyPairs,parserParamFlag := r.parserParamFlag ||| 2} := by
  rw [initBodyParam,HttpRequest.initBodyParam,bodyPairs]
  split
  · rename_i done
    rw [(flag_kept r.parserParamFlag).2.1 done]
    rfl
  · dsimp only
    split
    · rw [parseParam_inserted]
    · rfl

theorem initCookies_eq (r : HttpRequestIn) : r.initCookies =
    {r with cookies := r.cookies.insertAll r.cookiePairs,parserParamFlag := r.parserParamFlag ||| 4} := by
  rw [initCookies,cookiePairs]
  split
  · rename_i done
    rw [(flag_kept r.parserParamFlag).2.2 done]
    rfl
  · dsimp only
    split
    · rename_i empty
      rw [empty,inserted,Fields.scan_bare List.not_mem_nil]
      rfl
    · rw [parseParam_inserted]

theorem initQueryParam_pairs (r : HttpRequestIn) : r.initQueryParam.queryPairs = [] ∧
    r.initQueryParam.bodyPairs = r.bodyPairs ∧ r.initQueryParam.cookiePairs = r.cookiePairs := by
  obtain ⟨⟨body,cookie⟩,_⟩ := flag_other r.parserParamFlag
  rw [initQueryParam_eq]
  refine ⟨if_pos (flag_set r.parserParamFlag).1,?_,?_⟩
  · simp only [bodyPairs,body]
    rfl
  · simp only [cookiePairs,cookie]
    rfl

theorem initBodyParam_pairs (r : HttpRequestIn) : r.initBodyParam.bodyPairs = [] ∧
    r.initBodyParam.queryPairs = r.queryPairs ∧ r.initBodyParam.cookiePairs = r.cookiePairs := by
  obtain ⟨_,⟨query,cookie⟩,_⟩ := flag_other r.parserParamFlag
  rw [initBodyParam_eq]
  refine ⟨if_pos (flag_set r.parserParamFlag).2.1,?_,?_⟩
  · simp only [queryPairs,query]
  · simp only [cookiePairs,cookie]
    rfl

theorem initCookies_pairs (r : HttpRequestIn) : r.initCookies.cookiePairs = [] ∧
    r.initCookies.queryPairs = r.queryPairs ∧ r.initCookies.bodyPairs = r.bodyPairs := by
  obtain ⟨_,_,query,body⟩ := flag_other r.parserParamFlag
  rw [initCookies_eq]
  refine ⟨if_pos (flag_set r.parserParamFlag).2.2,?_,?_⟩
  · simp only [queryPairs,query]
  · simp only [bodyPairs,body]
    rfl

theorem insertAll_append (m : MapType) (first second : List Pair) :
    m.insertAll (first ++ second) = (m.insertAll first).insertAll second :=
  List.foldl_append

theorem parse_contents (r : HttpRequestIn) (part : Part) :
    (r.parse part).contents part = (r.contents part).insertAll (r.unparsed part) ∧ (r.parse part).unparsed part = [] := by
  cases part with
  | params =>
      obtain ⟨query,body,_⟩ := initQueryParam_pairs r
      obtain ⟨bodyDone,queryKept,_⟩ := initBodyParam_pairs r.initQueryParam
      constructor
      · simp only [contents,parse,unparsed,insertAll_append]
        rw [initBodyParam_eq,body,initQueryParam_eq]
      · simp only [parse,unparsed]
        rw [bodyDone,queryKept,query]
        rfl
  | cookies =>
      refine ⟨?_,(initCookies_pairs r).1⟩
      simp only [contents,parse,unparsed]
      rw [initCookies_eq]

theorem parse_other (r : HttpRequestIn) (apart : other ≠ part) :
    (r.parse part).contents other = r.contents other ∧ (r.parse part).unparsed other = r.unparsed other := by
  cases part with
  | params =>
      cases other with
      | params => exact absurd rfl apart
      | cookies =>
          refine ⟨?_,?_⟩
          · simp only [contents,parse,initBodyParam,initQueryParam]
          · exact (initBodyParam_pairs r.initQueryParam).2.2.trans (initQueryParam_pairs r).2.2
  | cookies =>
      cases other with
      | cookies => exact absurd rfl apart
      | params =>
          obtain ⟨_,query,body⟩ := initCookies_pairs r
          refine ⟨?_,?_⟩
          · simp only [contents,parse]
            rw [initCookies_eq]
          · simp only [unparsed,parse,query,body]

theorem perform_get (r : HttpRequestIn) (part : Part) (key def_ : List UInt8) : r.perform (.get part key def_) =
    (.value ((((r.parse part).contents part).find key).getD def_),r.parse part) := by
  cases part <;> rfl

theorem perform_has (r : HttpRequestIn) (part : Part) (key : List UInt8) (val : Option (List UInt8)) :
    r.perform (.has part key val) = (.presence (present ((r.parse part).contents part) key val),r.parse part) := by
  cases part <;> rfl

theorem perform_set (r : HttpRequestIn) (part : Part) (key val : List UInt8) :
    r.perform (.set part key val) = (.done,r.store ((r.contents part).assign key val) part) := by
  cases part <;> rfl

theorem perform_del (r : HttpRequestIn) (part : Part) (key : List UInt8) :
    r.perform (.del part key) = (.done,r.store ((r.contents part).erase key) part) := by
  cases part <;> rfl

theorem store_contents (r : HttpRequestIn) (m : MapType) (part other : Part) :
    (r.store m part).contents other = if other = part then m else r.contents other := by
  cases part <;> cases other <;> rfl

theorem store_unparsed (r : HttpRequestIn) (m : MapType) (part other : Part) :
    (r.store m part).unparsed other = r.unparsed other := by
  cases part <;> cases other <;> rfl

-- The binding of a key, and what is left to be parsed for its map, are those
-- of a cell to be loaded from the pairs.
structure Tracks (pairs : List Pair) (part : Part) (key : List UInt8) (r : HttpRequestIn)
    (cell : Deferred.Cell (List UInt8)) : Prop where
  content : (r.contents part).find key = cell.content
  left : r.unparsed part = if cell.loaded then [] else pairs

section tracking
variable {pairs : List Pair} {part : Part} {key : List UInt8} {r : HttpRequestIn} {cell : Deferred.Cell (List UInt8)}

theorem Tracks.parse (tracks : Tracks pairs part key r cell) :
    Tracks pairs part key (r.parse part) (Deferred.step (firstValue CaseInsensitiveLess pairs key) cell .load) := by
  obtain ⟨inserted,done⟩ := parse_contents r part
  refine ⟨?_,done⟩
  rw [inserted,find_insertAll,tracks.content,tracks.left,Deferred.step]
  cases loaded : cell.loaded with
  | true => exact Option.or_none
  | false => rfl

theorem Tracks.parse_other (tracks : Tracks pairs part key r cell) (apart : other ≠ part) :
    Tracks pairs part key (r.parse other) cell := by
  obtain ⟨same,left⟩ := HttpRequestIn.parse_other r apart.symm
  exact ⟨same ▸ tracks.content,left ▸ tracks.left⟩

theorem Tracks.store {content : Option (List UInt8)} (tracks : Tracks pairs part key r cell)
    (found : m.find key = content) : Tracks pairs part key (r.store m part) ⟨cell.loaded,content⟩ := by
  refine ⟨?_,?_⟩
  · rw [store_contents,if_pos rfl]
    exact found
  · rw [store_unparsed]
    exact tracks.left

theorem Tracks.store_other (tracks : Tracks pairs part key r cell) (apart : other ≠ part) (m : MapType) :
    Tracks pairs part key (r.store m other) cell := by
  refine ⟨?_,?_⟩
  · rw [store_contents,if_neg apart.symm]
    exact tracks.content
  · rw [store_unparsed]
    exact tracks.left

theorem Tracks.read (tracks : Tracks pairs part key r cell) (other : Part) : Tracks pairs part key (r.parse other)
    (Deferred.step (firstValue CaseInsensitiveLess pairs key) cell (if other = part then .load else .other)) := by
  by_cases same : other = part
  · rw [if_pos same,same]
    exact tracks.parse
  · rw [if_neg same]
    exact tracks.parse_other same

-- A map that differs for the keys equivalent to `k` takes the place of its
-- predecessor.
theorem Tracks.write {act : Deferred.Action (List UInt8)} {content : Option (List UInt8)}
    (tracks : Tracks pairs part key r cell) (other : Part) (k : List UInt8)
    (found : m.find key = if equivalent CaseInsensitiveLess key k then content else (r.contents other).find key)
    (acts : Deferred.step (firstValue CaseInsensitiveLess pairs key) cell act = ⟨cell.loaded,content⟩) :
    Tracks pairs part key (r.store m other) (Deferred.step (firstValue CaseInsensitiveLess pairs key) cell
      (if other = part ∧ equivalent CaseInsensitiveLess key k then act else .other)) := by
  by_cases same : other = part
  · subst same
    by_cases named : equivalent CaseInsensitiveLess key k = true
    · rw [if_pos named] at found
      rw [if_pos ⟨rfl,named⟩,acts]
      exact tracks.store found
    · rw [if_neg named,tracks.content] at found
      rw [if_neg fun both => named both.2]
      exact tracks.store found
  · rw [if_neg fun both => same both.1]
    exact tracks.store_other same m

-- One call keeps the cell of each key.
theorem Tracks.perform (tracks : Tracks pairs part key r cell) (call : Call) :
    Tracks pairs part key (r.perform call).2
      (Deferred.step (firstValue CaseInsensitiveLess pairs key) cell (call.action part key)) := by
  cases call with
  | get other k def_ =>
      rw [perform_get]
      exact tracks.read other
  | has other k val =>
      rw [perform_has]
      exact tracks.read other
  | set other k val =>
      rw [perform_set]
      exact tracks.write other k (find_assign (r.contents other) k val key) rfl
  | del other k =>
      rw [perform_del]
      exact tracks.write other k (find_erase (r.contents other) k key) rfl

theorem Tracks.run (tracks : Tracks pairs part key r cell) (calls : List Call) :
    Tracks pairs part key (r.run calls)
      (Deferred.run (firstValue CaseInsensitiveLess pairs key) cell (calls.map (·.action part key))) := by
  induction calls generalizing r cell with
  | nil => exact tracks
  | cons call rest ih => exact ih (tracks.perform call)

theorem Tracks.shown (tracks : Tracks pairs part key r cell) :
    ((r.parse part).contents part).find key = cell.shown (firstValue CaseInsensitiveLess pairs key) :=
  tracks.parse.content

-- The two runs, of cells that are loaded later and at the start.
theorem tracks_lazy (r : HttpRequestIn) (part : Part) (key : List UInt8) :
    Tracks (r.unparsed part) part key r ⟨false,(r.contents part).find key⟩ :=
  ⟨rfl,rfl⟩

theorem tracks_parsed (r : HttpRequestIn) (part : Part) (key : List UInt8) : Tracks (r.unparsed part) part key r.parsed
    ⟨true,((r.contents part).find key).or (firstValue CaseInsensitiveLess (r.unparsed part) key)⟩ := by
  cases part with
  | params =>
      have apart : Part.cookies ≠ .params := by decide
      exact (tracks_lazy r .params key).parse.parse_other apart
  | cookies =>
      have apart : Part.params ≠ .cookies := by decide
      exact ((tracks_lazy r .cookies key).parse_other apart).parse

end tracking

theorem answers_same {r s : HttpRequestIn} {calls : List Call} : r.answers calls = s.answers calls ↔
    ∀ before call later, calls = before ++ call :: later →
      ((r.run before).perform call).1 = ((s.run before).perform call).1 := by
  induction calls generalizing r s with
  | nil =>
      constructor
      · intro _ before call later whole
        simp at whole
      · intro _
        rfl
  | cons first rest ih =>
      rw [answers,answers,List.cons.injEq,ih]
      constructor
      · rintro ⟨here,tail⟩ before call later whole
        cases before with
        | nil =>
            cases whole
            exact here
        | cons a before =>
            cases whole
            exact tail before call later rfl
      · intro each
        refine ⟨each [] first rest rfl,?_⟩
        rintro before call later rfl
        exact each (first :: before) call later rfl

-- Each call by its constructor, and whether it is about this map and key.
theorem action_load (part : Part) (key : List UInt8) (call : Call) :
    call.action part key = .load ↔ call.parses part := by
  cases call <;> rw [Call.action] <;> split <;> simp_all [Call.parses]

theorem action_keeps (part : Part) (key : List UInt8) (call : Call) :
    (call.action part key).keeps = true ↔ ¬call.changes part key := by
  cases call <;> rw [Call.action] <;> split <;> simp_all [Call.changes,Deferred.Action.keeps]

theorem action_drop (part : Part) (key : List UInt8) (call : Call) : call.action part key = .drop ↔
    ∃ gone, call = .del part gone ∧ equivalent CaseInsensitiveLess key gone = true := by
  cases call <;> rw [Call.action] <;> split <;> simp_all

theorem dropped_calls (part : Part) (key : List UInt8) (calls : List Call) :
    Deferred.Dropped (calls.map (·.action part key)) ↔ ∃ (before : List Call) (gone : List UInt8) (between : List Call),
      calls = before ++ .del part gone :: between ∧ equivalent CaseInsensitiveLess key gone = true ∧
        (∀ c ∈ before, ¬c.parses part) ∧ ∀ c ∈ between, ¬c.changes part key := by
  constructor
  · rintro ⟨front,back,whole,never,quiet⟩
    obtain ⟨before,later,rfl,rfl,rest⟩ := List.map_eq_append_iff.mp whole
    obtain ⟨call,between,rfl,drop,rfl⟩ := List.map_eq_cons_iff.mp rest
    obtain ⟨gone,rfl,named⟩ := (action_drop part key call).mp drop
    refine ⟨before,gone,between,rfl,named,?_,?_⟩
    · intro c member parses
      exact never (List.mem_map.mpr ⟨c,member,(action_load part key c).mpr parses⟩)
    · intro c member
      exact (action_keeps part key c).mp (quiet _ (List.mem_map_of_mem member))
  · rintro ⟨before,gone,between,rfl,named,never,quiet⟩
    have drop := (action_drop part key (.del part gone)).mpr ⟨gone,rfl,named⟩
    refine ⟨before.map (·.action part key),between.map (·.action part key),by simp [drop],?_,?_⟩
    · intro member
      obtain ⟨c,among,load⟩ := List.mem_map.mp member
      exact never c among ((action_load part key c).mp load)
    · intro a member
      obtain ⟨c,among,rfl⟩ := List.mem_map.mp member
      exact (action_keeps part key c).mpr (quiet c among)

-- What a call on the key finds, if its map is parsed as late as it can be and
-- if it is parsed first.
theorem found_agrees (r : HttpRequestIn) (before : List Call) (part : Part) (key : List UInt8) :
    Deferred.Dropped (before.map (·.action part key)) ∨
    ((((r.run before).parse part).contents part).find key = (((r.parsed.run before).parse part).contents part).find key) := by
  rw [((tracks_lazy r part key).run before).shown,((tracks_parsed r part key).run before).shown]
  exact Deferred.shown_agrees _ _

theorem found_dropped (r : HttpRequestIn) {before : List Call} {part : Part} {key : List UInt8}
    (dropped : Deferred.Dropped (before.map (·.action part key))) :
    (((r.run before).parse part).contents part).find key = firstValue CaseInsensitiveLess (r.unparsed part) key ∧
    (((r.parsed.run before).parse part).contents part).find key = none := by
  rw [((tracks_lazy r part key).run before).shown,((tracks_parsed r part key).run before).shown]
  exact Deferred.shown_dropped _ dropped

theorem present_congr {m n : MapType} (same : m.find key = n.find key) (val : Option (List UInt8)) :
    present m key val = present n key val := by
  rw [present,present,same]

-- Where the two differ, a call that shows it completes what was deleted and
-- comes back.
theorem found_cases (r : HttpRequestIn) (before : List Call) (part : Part) (key : List UInt8) :
    ((((r.run before).parse part).contents part).find key = (((r.parsed.run before).parse part).contents part).find key) ∨
    ∃ w, (((r.run before).parse part).contents part).find key = some w ∧
      (((r.parsed.run before).parse part).contents part).find key = none ∧
      ∀ call later, call.reveals part key w → r.Restored (before ++ call :: later) := by
  rcases found_agrees r before part key with dropped | same
  · obtain ⟨late,early⟩ := found_dropped r dropped
    cases binds : firstValue CaseInsensitiveLess (r.unparsed part) key with
    | none => exact .inl (late.trans (binds.trans early.symm))
    | some w =>
        obtain ⟨front,gone,between,rfl,named,never,quiet⟩ := (dropped_calls part key before).mp dropped
        refine .inr ⟨w,late.trans binds,early,?_⟩
        intro call later reveals
        exact ⟨front,part,gone,between,call,later,key,w,by simp,named,never,quiet,binds,reveals⟩
  · exact .inl same

theorem answers_restored {r : HttpRequestIn} {calls : List Call} (restored : r.Restored calls) :
    r.answers calls ≠ r.parsed.answers calls := by
  obtain ⟨front,part,gone,between,call,later,key,w,rfl,named,never,quiet,binds,reveals⟩ := restored
  have dropped := (dropped_calls part key (front ++ .del part gone :: between)).mpr
    ⟨front,gone,between,rfl,named,never,quiet⟩
  obtain ⟨late,early⟩ := found_dropped r dropped
  intro same
  have here := answers_same.mp same (front ++ .del part gone :: between) call later (by simp)
  cases call with
  | get other k def_ =>
      obtain ⟨rfl,rfl,differs⟩ := reveals
      rw [perform_get,perform_get,late,early,binds] at here
      cases here
      exact differs rfl
  | has other k val =>
      obtain ⟨rfl,rfl⟩ := reveals
      rw [perform_has,perform_has,present,present,late,early,binds] at here
      cases here
  | set other k val => exact reveals
  | del other k => exact reveals

theorem answers_unrestored {r : HttpRequestIn} {calls : List Call} (unrestored : ¬r.Restored calls) :
    r.answers calls = r.parsed.answers calls := by
  refine answers_same.mpr ?_
  intro before call later whole
  cases call with
  | get part key def_ =>
      rw [perform_get,perform_get]
      rcases found_cases r before part key with same | ⟨w,late,early,restored⟩
      · rw [same]
      · by_cases default : def_ = w
        · rw [late,early,default]
          rfl
        · exact absurd (whole ▸ restored _ later ⟨rfl,rfl,default⟩) unrestored
  | has part key val =>
      rw [perform_has,perform_has]
      rcases found_cases r before part key with same | ⟨w,_,_,restored⟩
      · rw [present_congr same]
      · exact absurd (whole ▸ restored _ later ⟨rfl,rfl⟩) unrestored
  | set part key val => rw [perform_set,perform_set]
  | del part key => rw [perform_del,perform_del]

-- Every call answers as it does after the three parses, exactly when no
-- deleted binding comes back.
theorem lazy_exactly (r : HttpRequestIn) (calls : List Call) :
    r.answers calls = r.initQueryParam.initBodyParam.initCookies.answers calls ↔ ¬r.Restored calls :=
  ⟨fun same restored => answers_restored restored same,answers_unrestored⟩

-- With the query "a=1", delParam("a") and then getParam("a") gives "1".
theorem lazy_restores :
    ((initial 0x11 true).setQuery (text "a=1")).answers [.del .params (text "a"),.get .params (text "a") []] ≠
      ((initial 0x11 true).setQuery (text "a=1")).initQueryParam.initBodyParam.initCookies.answers
        [.del .params (text "a"),.get .params (text "a") []] := by
  have binds : firstValue CaseInsensitiveLess (((initial 0x11 true).setQuery (text "a=1")).unparsed .params) (text "a") =
      some (text "1") := by
    have whole : text "a=1" = text "a" ++ 61 :: text "1" := rfl
    have query : ((initial 0x11 true).setQuery (text "a=1")).queryPairs = [(text "a",text "1")] := by
      rw [queryPairs,if_neg (by decide),inserted]
      change List.map _ (Fields.scan 61 38 (text "a=1")) = _
      rw [whole,Fields.scan_last (by decide) (by decide)]
      rfl
    rw [unparsed,query]
    have fresh : ∀ other ∈ ([] : List Pair), equivalent CaseInsensitiveLess (text "a") other.1 = false := by simp
    exact firstValue_at _ fresh (equivalent_refl _)
  apply answers_restored
  exact ⟨[],.params,text "a",[],.get .params (text "a") [],[],text "a",text "1",rfl,equivalent_refl _,by simp,by simp,
    binds,rfl,rfl,by decide⟩

end HttpRequestIn
end Fishjoy
