import Fishjoy.Lexical
import Fishjoy.Uri

namespace Fishjoy.HttpRequesting
open KeyedMap

-- The headers a caller gives are in a `std::map` of strings.
abbrev Headers := KeyedMap Lexical.stringLess (List UInt8)

-- One round of the loop over them.
def readHeader (s : HttpRequestOut × Bool) (i : List UInt8 × List UInt8) : HttpRequestOut × Bool :=
  if isNamed i.1 "connection" then
    if isNamed i.2 "keep-alive" then ({s.1 with close := false},s.2) else s
  else
    ({s.1 with headers := s.1.headers.assign i.1 i.2},if !s.2 && isNamed i.1 "host" then decide (i.2 ≠ []) else s.2)

def setHeaders (req : HttpRequestOut) (headers : Headers) (host : List UInt8) : HttpRequestOut :=
  let s := headers.entries.foldl readHeader (req,false)
  if s.2 then s.1 else {s.1 with headers := s.1.headers.assign (text "Host") host}

-- The request that `HttpConnection::DoRequest` sends to the address of the uri.
def DoRequest (method : Nat) (uri : Uri) (headers : Headers) (body : List UInt8) : HttpRequestOut :=
  let req : HttpRequestOut := ⟨{HttpRequest.initial 0x11 true with
    path := uri.getPath, query := uri.query, fragment := uri.fragment, method},false⟩
  {setHeaders req headers uri.host with body}

-- The request that `HttpConnectionPool::doRequest` sends.
def doRequest (m_host m_vhost : List UInt8) (method : Nat) (url : List UInt8) (headers : Headers) (body : List UInt8) :
    HttpRequestOut :=
  let req : HttpRequestOut := ⟨{HttpRequest.initial 0x11 true with path := url, method},false⟩
  {setHeaders req headers (if m_vhost = [] then m_host else m_vhost) with body}

-- The text that the pool puts together of a uri.
def target (uri : Uri) : List UInt8 :=
  uri.getPath ++ (if uri.query = [] then [] else text "?") ++ uri.query ++
    (if uri.fragment = [] then [] else text "#") ++ uri.fragment

-- What the headers of the caller say.
def keepsAlive (headers : Headers) : Bool :=
  headers.entries.any fun i => isNamed i.1 "connection" && isNamed i.2 "keep-alive"

def namesHost (headers : Headers) : Bool := headers.entries.any fun i => isNamed i.1 "host" && decide (i.2 ≠ [])

-- Spellings of one name run into one entry, and the last of them stands.
def given (headers : Headers) (k : List UInt8) : Option (List UInt8) :=
  firstValue CaseInsensitiveLess (headers.entries.filter fun i => !isNamed i.1 "connection").reverse k

structure Carries (headers : Headers) (host : List UInt8) (r : HttpRequestOut) : Prop where
  connection : named "connection" r.fields = [(text "connection",connectionValue (!keepsAlive headers))]
  host : r.headers.find (text "Host") = if namesHost headers then given headers (text "Host") else some host
  others : ∀ k, isNamed k "host" = false → r.headers.find k = given headers k
  hidden : ∀ k, isNamed k "connection" = true → r.headers.find k = none

section Steps
variable {headers : Headers} {entries : List (List UInt8 × List UInt8)} {key k : List UInt8} {name : String}

theorem isNamed_equivalent (ended : 0 ∉ text name) : isNamed key name = equivalent CaseInsensitiveLess key (text name) := by
  rw [Bool.eq_iff_iff,equivalent_caseFold,isNamed,decide_eq_true_iff,strcasecmp_zero (c_str_ended key) ended,caseFold,
    caseFold]
  have whole : c_str (text name) = text name := List.takeWhile_eq_self_iff.mpr fun c member => by
    rw [decide_eq_true_iff]
    rintro rfl
    exact ended member
  rw [whole]
  have inj : Function.Injective UInt8.toNat := fun _ _ same => UInt8.toNat_inj.mp same
  have fold : ∀ s : List UInt8, (s.map fun c => (tolower c).toNat) = (s.map tolower).map UInt8.toNat := fun s => by
    rw [List.map_map]
    rfl
  rw [fold,fold,(List.map_injective_iff.mpr inj).eq_iff]

theorem host_apart (conn : isNamed key "connection" = true) : isNamed key "host" = false := by
  rw [isNamed_equivalent (by decide)] at conn ⊢
  rw [Bool.eq_false_iff]
  intro host
  rw [equivalent_comm] at conn
  exact absurd (equivalent_trans conn host) (by decide)

-- What the whole loop makes of a request.
theorem readAll (entries : List (List UInt8 × List UInt8)) (req : HttpRequestOut) (has_host : Bool) :
    entries.foldl readHeader (req,has_host) =
      ({req with
          close := req.close && !entries.any fun i => isNamed i.1 "connection" && isNamed i.2 "keep-alive"
          headers := req.headers.assignAll (entries.filter fun i => !isNamed i.1 "connection")},
        has_host || entries.any fun i => isNamed i.1 "host" && decide (i.2 ≠ [])) := by
  induction entries generalizing req has_host with
  | nil =>
      rw [List.foldl_nil,List.any_nil,List.any_nil,Bool.not_false,Bool.and_true,Bool.or_false]
      rfl
  | cons i rest ih =>
      rw [List.foldl_cons,readHeader,List.any_cons,List.any_cons]
      cases conn : isNamed i.1 "connection" with
      | true =>
          have apart : isNamed i.1 "host" = false := host_apart conn
          have out : ¬(!isNamed i.1 "connection") = true := by
            rw [conn]
            exact Bool.false_ne_true
          rw [if_pos rfl,apart,List.filter_cons,if_neg out]
          cases keeps : isNamed i.2 "keep-alive" with
          | true =>
              rw [if_pos rfl,ih]
              simp only [Bool.true_and,Bool.true_or,Bool.not_true,Bool.and_false,Bool.false_and,Bool.false_or]
          | false =>
              rw [if_neg Bool.false_ne_true,ih]
              simp only [Bool.true_and,Bool.false_or,Bool.false_and]
      | false =>
          have kept : (!isNamed i.1 "connection") = true := by
            rw [conn]
            rfl
          rw [if_neg Bool.false_ne_true,ih,List.filter_cons,if_pos kept]
          simp only [Bool.false_and,Bool.false_or,assignAll,List.foldl_cons]
          cases has_host <;> cases isNamed i.1 "host" <;> simp

theorem setHeaders_eq (req : HttpRequestOut) (headers : Headers) (host : List UInt8) : setHeaders req headers host =
    {req with
      close := req.close && !keepsAlive headers
      headers :=
        let sent := req.headers.assignAll (headers.entries.filter fun i => !isNamed i.1 "connection")
        if namesHost headers then sent else sent.assign (text "Host") host} := by
  unfold setHeaders
  rw [readAll]
  change (if (false || namesHost headers) = true then _ else _) = _
  rw [Bool.false_or]
  cases namesHost headers <;> rfl

theorem host_equivalent (k : List UInt8) : equivalent CaseInsensitiveLess k (text "Host") = isNamed k "host" := by
  rw [isNamed_equivalent (by decide),Bool.eq_iff_iff]
  have spelled : equivalent CaseInsensitiveLess (text "Host") (text "host") = true := by decide
  exact ⟨fun same => equivalent_trans same spelled,
    fun same => equivalent_trans same (by rw [equivalent_comm]; exact spelled)⟩

-- Nothing is kept under the name that `dump` writes itself.
theorem given_connection (conn : isNamed k "connection" = true) : given headers k = none := by
  rw [isNamed_equivalent (by decide)] at conn
  rw [given,firstValue,List.find?_eq_none.mpr,Option.map_none]
  intro i member same
  have kept := (List.mem_filter.mp (List.mem_reverse.mp member)).2
  rw [equivalent_comm] at same
  rw [isNamed_equivalent (by decide),equivalent_trans same conn] at kept
  cases kept

theorem setHeaders_carries {req : HttpRequestOut} (plain : req.websocket = false) (fresh : req.headers = .empty)
    (closes : req.close = true) (headers : Headers) (host body : List UInt8) :
    Carries headers host {setHeaders req headers host with body} := by
  have found : ∀ k, (req.headers.assignAll (headers.entries.filter fun i => !isNamed i.1 "connection")).find k =
      given headers k := by
    intro k
    rw [find_assignAll,fresh]
    exact Option.or_none
  have apart : ∀ k, isNamed k "host" = false → ({setHeaders req headers host with body} : HttpRequestOut).headers.find k =
      given headers k := by
    intro k other
    rw [setHeaders_eq]
    dsimp only
    split
    · exact found k
    · rw [find_assign,host_equivalent,other,if_neg Bool.false_ne_true]
      exact found k
  refine ⟨?_,?_,apart,fun k conn => ?_⟩
  · rw [HttpRequestOut.named_connection _ (by rw [setHeaders_eq]; exact plain),setHeaders_eq]
    dsimp only
    rw [closes,Bool.true_and]
  · rw [setHeaders_eq]
    dsimp only
    split
    · exact found _
    · rw [find_assign,if_pos (equivalent_refl _)]
  · rw [apart k (host_apart conn),given_connection conn]

end Steps

-- Both functions send what the caller has asked for, and the same bytes where the
-- pool is for the host of the uri.
theorem requests_carried (m_host m_vhost : List UInt8) (method : Nat) (url : List UInt8) (uri : Uri) (headers : Headers)
    (body : List UInt8) :
    Carries headers uri.host (DoRequest method uri headers body) ∧
    Carries headers (if m_vhost = [] then m_host else m_vhost) (doRequest m_host m_vhost method url headers body) ∧
    (doRequest m_host m_vhost method (target uri) headers body).dump =
      (DoRequest method {uri with host := if m_vhost = [] then m_host else m_vhost} headers body).dump := by
  refine ⟨setHeaders_carries rfl rfl rfl headers uri.host body,setHeaders_carries rfl rfl rfl headers _ body,?_⟩
  unfold doRequest DoRequest
  dsimp only
  rw [setHeaders_eq,setHeaders_eq]
  unfold HttpRequestOut.dump target
  dsimp only
  simp only [List.append_assoc]
  rfl

end Fishjoy.HttpRequesting
