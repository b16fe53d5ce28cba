import Fishjoy.HttpSession
import Fishjoy.HttpDump
import Fishjoy.Servlet
import Fishjoy.StreamFixSize

namespace Fishjoy.HttpServer
open ServletDispatch

variable {K Creator : Type}

-- What a servlet has in its hands: the request, the response, and the session with
-- what is still to be read and the socket it can write to.
structure Exchange where
  request : HttpRequest
  response : HttpResponseOut
  reads : List (List UInt8)
  socket : Socket

-- A servlet may change all of it, but what is read from the session is gone.
structure Servlet where
  handle : Exchange → Exchange
  shorter : ∀ e, (handle e).reads.length ≤ e.reads.length

def notFoundContent (name : List UInt8) : List UInt8 :=
  text "<html><head><title>404 Not Found</title></head><body><center><h1>404 Not Found</h1></center><hr><center>" ++ name ++
    text "</center></body></html>"

def NotFoundServlet (name : List UInt8) : Servlet where
  handle e :=
    let response : HttpResponseOut := {e.response with status := 404}
    let response := response.setHeader (text "Server") (text "fishjoy/1.0.0")
    let response := response.setHeader (text "Content-Type") (text "text/html")
    {e with response := response.setBody (notFoundContent name)}
  shorter _ := Nat.le_refl _

-- `ServletDispatch::handle`; a servlet that is found may be a null pointer.
def handle (fnmatch : Uri → Uri → Int) (make : Creator → Option Servlet) (s : Dispatch (Option Servlet) Creator)
    (e : Exchange) : Exchange :=
  match s.getMatchedServlet fnmatch make e.request.path with
  | some slt => slt.handle e
  | none => e

-- What stands before the servlet.
def received (m_isKeepalive : Bool) (getName : List UInt8) (req : HttpRequest) (reads : List (List UInt8))
    (socket : Socket) : Exchange :=
  ⟨req,(HttpResponseOut.initial req.version (req.close || !m_isKeepalive)).setHeader (text "Server") getName,reads,socket⟩

-- Where a string has its bytes.
def c_str (data : List UInt8) (i : Nat) : UInt8 := data[i]?.getD 0

-- `HttpSession::sendResponse`. `writeFixSize` has no fault on a raw buffer.
def sendResponse (net : Network) (rsp : HttpResponseOut) (socket : Socket) : Int × Socket :=
  match Stream.writeFixSize net rsp.dump.length (c_str rsp.dump) socket with
  | .ok (rt,_,socket) => (rt,socket)
  | .error _ => (-1,socket)

-- A round of the loop: what the servlet leaves, and what comes of its response.
structure Round where
  exchange : Exchange
  rt : Int
  socket : Socket

theorem handle_shorter (fnmatch : Uri → Uri → Int) (make : Creator → Option Servlet)
    (s : Dispatch (Option Servlet) Creator) (e : Exchange) : (handle fnmatch make s e).reads.length ≤ e.reads.length := by
  unfold handle
  split
  · rename_i slt found
    exact slt.shorter e
  · exact Nat.le_refl _

theorem recvRequest_shorter {http_parser_execute : K → List UInt8 → Fired K} {parse_url : List UInt8 → Option UrlFields}
    {start : K} {buff_size : Nat} {reads rest : List (List UInt8)} {req : HttpRequest}
    (got : recvRequest http_parser_execute parse_url start buff_size reads = (some req,rest)) :
    rest.length < reads.length := by
  have shorter := recvLoop_shorter http_parser_execute parse_url buff_size
    ⟨start,HttpRequestParser.initial,false⟩ [] reads req (congrArg Prod.fst got)
  rwa [show (recvLoop http_parser_execute parse_url buff_size _ [] reads).2 = rest from congrArg Prod.snd got] at shorter

section server
variable (net : Network) (http_parser_execute : K → List UInt8 → Fired K) (parse_url : List UInt8 → Option UrlFields)
  (start : K) (buff_size : Nat) (m_isKeepalive : Bool) (getName : List UInt8) (fnmatch : Uri → Uri → Int)
  (make : Creator → Option Servlet)

-- The loop of `handleClient`, which does not look at the result of
-- `sendResponse`. Servlets may be added and removed at any time: `m_dispatch k`
-- are those that request `k` meets.
def handleClient (m_dispatch : Nat → Dispatch (Option Servlet) Creator) (k : Nat) (reads : List (List UInt8))
    (socket : Socket) : List Round :=
  match _received : recvRequest http_parser_execute parse_url start buff_size reads with
  | (none,_) => []
  | (some req,rest) =>
    let e := handle fnmatch make (m_dispatch k) (received m_isKeepalive getName req rest socket)
    let sent := sendResponse net e.response e.socket
    if !m_isKeepalive || e.request.close then [⟨e,sent.1,sent.2⟩]
    else ⟨e,sent.1,sent.2⟩ :: handleClient m_dispatch (k+1) e.reads sent.2
termination_by reads.length
decreasing_by
  exact Nat.lt_of_le_of_lt (handle_shorter fnmatch make (m_dispatch k) (received m_isKeepalive getName req rest socket))
    (recvRequest_shorter _received)

end server

-- A servlet that leaves the connection to the server.
structure Modest (slt : Servlet) : Prop where
  request : ∀ e, (slt.handle e).request.close = e.request.close
  response : ∀ e, (slt.handle e).response.close = e.response.close
  websocket : ∀ e, (slt.handle e).response.websocket = e.response.websocket
  reads : ∀ e, (slt.handle e).reads = e.reads
  socket : ∀ e, (slt.handle e).socket = e.socket

theorem NotFoundServlet_modest (name : List UInt8) : Modest (NotFoundServlet name) :=
  ⟨fun _ => rfl,fun _ => rfl,fun _ => rfl,fun _ => rfl,fun _ => rfl⟩

section connection
variable (net : Network) (http_parser_execute : K → List UInt8 → Fired K) (parse_url : List UInt8 → Option UrlFields)
  (start : K) (buff_size : Nat) (m_isKeepalive : Bool) (getName : List UInt8) (fnmatch : Uri → Uri → Int)
  (make : Creator → Option Servlet) (m_dispatch : Nat → Dispatch (Option Servlet) Creator)

-- What becomes of one request: the servlet that is found for its path makes the
-- response, which announces whether the connection stays open. Of its bytes
-- those go out, in order, that the calls of `send` take until one fails.
structure Answered (k : Nat) (socket : Socket) (req : HttpRequest) (r : Round) : Prop where
  handled : ∃ rest, r.exchange = handle fnmatch make (m_dispatch k) (received m_isKeepalive getName req rest socket)
  told : ConnectionAgrees r.exchange.response.fields (req.close || !m_isKeepalive)
  sent : ∃ count calls, r.socket = ⟨calls,socket.received,socket.sent ++
      (message r.exchange.response.statusLine r.exchange.response.fields r.exchange.response.body).take count⟩ ∧
    Stream.Ended net socket.calls
      (message r.exchange.response.statusLine r.exchange.response.fields r.exchange.response.body).length count calls r.rt

-- One response for each request, in their order, and the connection is closed behind
-- the response that says so. A response that is cut does not stop the loop.
inductive Serves : Nat → Socket → List HttpRequest → List Round → Prop where
  | idle (k : Nat) (socket : Socket) : Serves k socket [] []
  | close (k : Nat) (socket : Socket) (req : HttpRequest) (r : Round)
      (answered : Answered net m_isKeepalive getName fnmatch make m_dispatch k socket req r)
      (closes : (req.close || !m_isKeepalive) = true) : Serves k socket [req] [r]
  | stay (k : Nat) (socket : Socket) (req : HttpRequest) (r : Round) (reqs : List HttpRequest) (rs : List Round)
      (answered : Answered net m_isKeepalive getName fnmatch make m_dispatch k socket req r)
      (stays : (req.close || !m_isKeepalive) = false) (later : Serves (k+1) r.socket reqs rs) :
      Serves k socket (req :: reqs) (r :: rs)

-- The socket behind the last round.
def lastSocket : Socket → List Round → Socket
  | socket,[] => socket
  | _,r :: rs => lastSocket r.socket rs

-- All that goes to the peer where every `send` moves something.
def responses (rs : List Round) : List UInt8 :=
  (rs.map fun r => message r.exchange.response.statusLine r.exchange.response.fields r.exchange.response.body).flatten

variable {net http_parser_execute parse_url start buff_size m_isKeepalive getName fnmatch make m_dispatch}
variable {reads rest : List (List UInt8)} {req : HttpRequest} {k : Nat} {socket : Socket}

theorem window_c_str (data : List UInt8) (fits : count ≤ data.length) : window (c_str data) 0 count = data.take count := by
  apply List.ext_getElem
  · simp [window,fits]
  · intro i inside _
    have less : i < data.length := by simp [window] at inside; omega
    simp [window,c_str,less]

theorem sendResponse_spec (net : Network) (rsp : HttpResponseOut) (socket : Socket) : ∃ count calls,
    (sendResponse net rsp socket).2 = ⟨calls,socket.received,socket.sent ++ rsp.dump.take count⟩ ∧
      Stream.Ended net socket.calls rsp.dump.length count calls (sendResponse net rsp socket).1 := by
  obtain ⟨rt,count,calls,wrote,ended⟩ := Stream.writeFixSize_spec net (c_str rsp.dump) socket rsp.dump.length
  rw [window_c_str _ ended.1] at wrote
  rw [sendResponse,wrote]
  exact ⟨count,calls,rfl,ended⟩

theorem handleClient_none (net : Network) (m_isKeepalive : Bool) (getName : List UInt8) (fnmatch : Uri → Uri → Int)
    (make : Creator → Option Servlet) (m_dispatch : Nat → Dispatch (Option Servlet) Creator) (k : Nat) (socket : Socket)
    (none : (recvRequest http_parser_execute parse_url start buff_size reads).1 = none) :
    handleClient net http_parser_execute parse_url start buff_size m_isKeepalive getName fnmatch make m_dispatch k reads
      socket = [] ∧
    Fishjoy.handleClient http_parser_execute parse_url start buff_size m_isKeepalive reads = [] := by
  rw [handleClient,Fishjoy.handleClient]
  constructor
  · split
    · rfl
    · rename_i got
      rw [got] at none
      cases none
  · split
    · rfl
    · rename_i got
      rw [got] at none
      cases none

theorem requests_some (got : recvRequest http_parser_execute parse_url start buff_size reads = (some req,rest)) :
    Fishjoy.handleClient http_parser_execute parse_url start buff_size m_isKeepalive reads =
      if (!m_isKeepalive || req.close) = true then [req]
      else req :: Fishjoy.handleClient http_parser_execute parse_url start buff_size m_isKeepalive rest := by
  rw [Fishjoy.handleClient]
  split
  · rename_i none
    rw [got] at none
    cases none
  · rename_i again
    rw [got] at again
    cases again
    rfl

theorem rounds_some (got : recvRequest http_parser_execute parse_url start buff_size reads = (some req,rest)) :
    handleClient net http_parser_execute parse_url start buff_size m_isKeepalive getName fnmatch make m_dispatch k reads
        socket =
      let e := handle fnmatch make (m_dispatch k) (received m_isKeepalive getName req rest socket)
      let sent := sendResponse net e.response e.socket
      if (!m_isKeepalive || e.request.close) = true then [⟨e,sent.1,sent.2⟩]
      else ⟨e,sent.1,sent.2⟩ :: handleClient net http_parser_execute parse_url start buff_size m_isKeepalive getName
        fnmatch make m_dispatch (k+1) e.reads sent.2 := by
  rw [handleClient]
  split
  · rename_i none
    rw [got] at none
    cases none
  · rename_i again
    rw [got] at again
    cases again
    rfl

-- A null pointer and a modest servlet leave the connection as it is.
theorem handle_modest {s : Dispatch (Option Servlet) Creator}
    (modest : ∀ path slt, s.getMatchedServlet fnmatch make path = some slt → Modest slt) (e : Exchange) :
    (handle fnmatch make s e).request.close = e.request.close ∧ (handle fnmatch make s e).response.close = e.response.close ∧
    (handle fnmatch make s e).response.websocket = e.response.websocket ∧ (handle fnmatch make s e).reads = e.reads ∧
    (handle fnmatch make s e).socket = e.socket := by
  unfold handle
  split
  · rename_i slt found
    obtain ⟨request,response,websocket,reads,socket⟩ := modest _ slt found
    exact ⟨request e,response e,websocket e,reads e,socket e⟩
  · exact ⟨rfl,rfl,rfl,rfl,rfl⟩

theorem handle_answers (net : Network) (m_isKeepalive : Bool) (getName : List UInt8)
    (modest : ∀ path slt, (m_dispatch k).getMatchedServlet fnmatch make path = some slt → Modest slt)
    (req : HttpRequest) (rest : List (List UInt8)) (socket : Socket) {e : Exchange}
    (handled : e = handle fnmatch make (m_dispatch k) (received m_isKeepalive getName req rest socket)) :
    Answered net m_isKeepalive getName fnmatch make m_dispatch k socket req
      ⟨e,(sendResponse net e.response e.socket).1,(sendResponse net e.response e.socket).2⟩ := by
  obtain ⟨_,response,websocket,_,same⟩ := handle_modest modest (received m_isKeepalive getName req rest socket)
  rw [←handled] at response websocket same
  refine ⟨⟨rest,handled⟩,⟨_,HttpResponseOut.named_connection _ websocket,?_⟩,?_⟩
  · rw [response]
    rfl
  · have sent := sendResponse_spec net e.response e.socket
    rw [HttpResponseOut.dump_fields,same] at sent
    rw [same]
    exact sent

-- Where every call moves something, nothing is left out.
theorem Serves.whole (lossless : ∀ call offered, 0 < offered → 0 < net.result call offered) {reqs : List HttpRequest}
    {rs : List Round} (serves : Serves net m_isKeepalive getName fnmatch make m_dispatch k socket reqs rs) :
    (lastSocket socket rs).sent = socket.sent ++ responses rs := by
  have all {k : Nat} {socket : Socket} {req : HttpRequest} {r : Round}
      (answered : Answered net m_isKeepalive getName fnmatch make m_dispatch k socket req r) :
      r.socket.sent = socket.sent ++
        message r.exchange.response.statusLine r.exchange.response.fields r.exchange.response.body := by
    obtain ⟨count,calls,same,_,_,lens,_,_,ended⟩ := answered.sent
    rw [same]
    rcases ended with ⟨whole,_⟩ | ⟨fewer,_,failed,last⟩
    · rw [whole,List.take_length]
    · have positive := lossless (socket.calls+lens.length) _ (Nat.sub_pos_of_lt fewer)
      omega
  induction serves with
  | idle => simp [lastSocket,responses]
  | close k socket req r answered _ => simp [lastSocket,responses,all answered]
  | stay k socket req r reqs rs answered _ _ ih =>
      rw [lastSocket,ih,all answered,responses,responses,List.map_cons,List.flatten_cons,List.append_assoc]

end connection

-- Whatever the peer sends, whichever servlets are there at the time, and however
-- the responses are taken.
theorem responses_in_order (net : Network) (http_parser_execute : K → List UInt8 → Fired K)
    (parse_url : List UInt8 → Option UrlFields) (start : K) (buff_size : Nat) (m_isKeepalive : Bool)
    (getName : List UInt8) (fnmatch : Uri → Uri → Int) (make : Creator → Option Servlet)
    (m_dispatch : Nat → Dispatch (Option Servlet) Creator)
    (modest : ∀ k path slt, (m_dispatch k).getMatchedServlet fnmatch make path = some slt → Modest slt)
    (reads : List (List UInt8)) (k : Nat) (socket : Socket) :
    Serves net m_isKeepalive getName fnmatch make m_dispatch k socket
        (Fishjoy.handleClient http_parser_execute parse_url start buff_size m_isKeepalive reads)
        (handleClient net http_parser_execute parse_url start buff_size m_isKeepalive getName fnmatch make m_dispatch k
          reads socket) ∧
      ((∀ call offered, 0 < offered → 0 < net.result call offered) →
        (lastSocket socket (handleClient net http_parser_execute parse_url start buff_size m_isKeepalive getName fnmatch make
          m_dispatch k reads socket)).sent = socket.sent ++ responses (handleClient net http_parser_execute parse_url start
            buff_size m_isKeepalive getName fnmatch make m_dispatch k reads socket)) := by
  have serves : Serves net m_isKeepalive getName fnmatch make m_dispatch k socket
      (Fishjoy.handleClient http_parser_execute parse_url start buff_size m_isKeepalive reads)
      (handleClient net http_parser_execute parse_url start buff_size m_isKeepalive getName fnmatch make m_dispatch k
        reads socket) := by
    generalize bound : reads.length = n
    induction n using Nat.strongRecOn generalizing reads k socket with
    | ind n ih =>
        rcases got : recvRequest http_parser_execute parse_url start buff_size reads with ⟨_ | req,rest⟩
        · obtain ⟨rounds,requests⟩ := handleClient_none net m_isKeepalive getName fnmatch make m_dispatch k socket
            (congrArg Prod.fst got)
          rw [rounds,requests]
          exact .idle k socket
        · obtain ⟨request,_,_,left,_⟩ := handle_modest (modest k) (received m_isKeepalive getName req rest socket)
          have answered := handle_answers net m_isKeepalive getName (modest k) req rest socket rfl
          rw [requests_some got,rounds_some got]
          dsimp only
          rw [request,left]
          rw [show (received m_isKeepalive getName req rest socket).request = req from rfl,
            show (received m_isKeepalive getName req rest socket).reads = rest from rfl]
          cases closes : !m_isKeepalive || req.close with
          | true =>
              rw [if_pos rfl,if_pos rfl]
              exact .close k socket req _ answered (by rw [Bool.or_comm]; exact closes)
          | false =>
              rw [if_neg Bool.false_ne_true,if_neg Bool.false_ne_true]
              have shorter := recvRequest_shorter got
              exact .stay k socket req _ _ _ answered (by rw [Bool.or_comm]; exact closes)
                (ih rest.length (by omega) rest (k+1) _ rfl)
  exact ⟨serves,serves.whole⟩

-- A connection that takes ten bytes and fails once.
def choked : Network where
  incoming _ := 0
  connected _ := true
  rt call offered := if call = 0 then min 10 offered else if call = 1 then -1 else offered
  bounded call offered := by
    split
    · omega
    · split <;> omega

-- Two requests meet the default servlet, and the first response is cut.
theorem responses_in_order_two : Serves choked true (text "fishjoy") (fun _ _ => 1) Empty.elim
    (fun _ => .new (some (NotFoundServlet (text "fishjoy/1.0")))) 0 ⟨0,0,[]⟩
    (Fishjoy.handleClient (buffered twoGets) pathOnly [] 4096 true [getBytes "/a",getBytes "/b"])
    (handleClient choked (buffered twoGets) pathOnly [] 4096 true (text "fishjoy") (fun _ _ => 1) Empty.elim
      (fun _ => .new (some (NotFoundServlet (text "fishjoy/1.0")))) 0 [getBytes "/a",getBytes "/b"] ⟨0,0,[]⟩) := by
  refine (responses_in_order _ _ _ _ _ _ _ _ _ _ (fun k path slt found => ?_) _ _ _).1
  cases found
  exact NotFoundServlet_modest _

end Fishjoy.HttpServer
