import Fishjoy.HttpCutting

namespace Fishjoy

-- What one call of `http_parser_execute` leaves behind: the callbacks it
-- fired, the bytes it parsed, and the fields of the parser that are read. The
-- function and its state `K` are not part of the repository.
structure Fired (K : Type) where
  state : K
  callbacks : List Callback
  nparsed : Nat
  upgrade : Bool
  http_errno : Nat

section session
variable {K : Type} (http_parser_execute : K → List UInt8 → Fired K) (parse_url : List UInt8 → Option UrlFields)

structure HttpRequestParser (K : Type) where
  engine : K
  parser : Parser HttpRequest
  error : Bool

namespace HttpRequestParser

-- A callback that returns an error halts the parser with an error of its own.
def execute (self : HttpRequestParser K) (data : List UInt8) : Nat × HttpRequestParser K :=
  let fired := http_parser_execute self.engine data
  match self.parser.feed (s_request_settings parse_url) fired.callbacks with
  | none => (fired.nparsed,{self with engine := fired.state,error := true})
  | some parser => (fired.nparsed,⟨fired.state,parser,self.error || fired.upgrade || fired.http_errno ≠ 0⟩)

end HttpRequestParser

-- The loop of `recvRequest`: `held` is what stands in the buffer before the
-- offset, and the reads are what the peer sends until it closes.
def recvLoop (buff_size : Nat) : HttpRequestParser K → List UInt8 → List (List UInt8) →
    Option HttpRequest × List (List UInt8)
  | _,_,[] => (none,[])
  | parser,held,read :: reads =>
    if read = [] then (none,reads)
    else
      let data := held ++ read
      let (nparse,parser) := parser.execute http_parser_execute parse_url data
      if parser.error then (none,reads)
      else
        let offset := data.length-nparse
        if offset = buff_size then (none,reads)
        else if parser.parser.finished then (some parser.parser.data.init,reads)
        else recvLoop buff_size parser (data.drop nparse) reads

-- Parser and buffer are new in every call.
def recvRequest (start : K) (buff_size : Nat) (reads : List (List UInt8)) : Option HttpRequest × List (List UInt8) :=
  recvLoop http_parser_execute parse_url buff_size ⟨start,HttpRequestParser.initial,false⟩ [] reads

theorem recvLoop_shorter (buff_size : Nat) (parser : HttpRequestParser K) (held : List UInt8)
    (reads : List (List UInt8)) (r : HttpRequest)
    (received : (recvLoop http_parser_execute parse_url buff_size parser held reads).1 = some r) :
    (recvLoop http_parser_execute parse_url buff_size parser held reads).2.length < reads.length := by
  induction reads generalizing parser held with
  | nil => cases received
  | cons read reads ih =>
      rw [recvLoop] at received ⊢
      by_cases closed : read = []
      · rw [if_pos closed]; exact Nat.lt_succ_self _
      · rw [if_neg closed] at received ⊢
        dsimp only at received ⊢
        split at received
        · cases received
        · rename_i noError
          rw [if_neg noError]
          split at received
          · cases received
          · rename_i room
            rw [if_neg room]
            split at received
            · rename_i finished
              rw [if_pos finished]; exact Nat.lt_succ_self _
            · rename_i unfinished
              rw [if_neg unfinished]
              exact Nat.lt_succ_of_lt (ih _ _ received)

-- The requests `handleClient` hands to its servlets, in order.
def handleClient (start : K) (buff_size : Nat) (m_isKeepalive : Bool) (reads : List (List UInt8)) : List HttpRequest :=
  match _received : recvRequest http_parser_execute parse_url start buff_size reads with
  | (none,_) => []
  | (some req,rest) =>
    if !m_isKeepalive || req.close then [req]
    else req :: handleClient start buff_size m_isKeepalive rest
termination_by reads.length
decreasing_by
  have shorter := recvLoop_shorter http_parser_execute parse_url buff_size
    ⟨start,HttpRequestParser.initial,false⟩ [] reads req (congrArg Prod.fst _received)
  rwa [show (recvLoop http_parser_execute parse_url buff_size _ [] reads).2 = rest from
    congrArg Prod.snd _received] at shorter

-- A client sends the bytes of a request in some reads.
structure Sent where
  callbacks : List Callback
  reads : List (List UInt8)

def firedAll : K → List (List UInt8) → List Callback
  | _,[] => []
  | k,read :: rest =>
    let fired := http_parser_execute k read
    fired.callbacks ++ firedAll fired.state rest

def Callback.completes : Callback → Bool
  | .messageComplete => true
  | _ => false

-- Each read is parsed to its end without an error, and the message is complete
-- with the last one.
def Clean : K → List (List UInt8) → Prop
  | _,[] => True
  | k,read :: rest =>
    let fired := http_parser_execute k read
    fired.nparsed = read.length ∧ fired.upgrade = false ∧ fired.http_errno = 0 ∧
      (rest ≠ [] → fired.callbacks.any Callback.completes = false) ∧ Clean fired.state rest

-- The vendored parser keeps parsing the whole buffer and fires the callbacks
-- of the message in order, data callbacks in any number of pieces.
def Documented (start : K) (s : Sent) : Prop :=
  Clean http_parser_execute start s.reads ∧
    Cutting (fun _ _ => True) s.callbacks (firedAll http_parser_execute start s.reads)

def requestSent (callbacks : List Callback) : Option HttpRequest :=
  (HttpRequestParser.initial.feed (s_request_settings parse_url) callbacks).map fun p => p.data.init

def WellFormed (s : Sent) : Prop := Describes true s.callbacks ∧ requestSent parse_url s.callbacks ≠ none

-- The request says that the connection stays open.
def KeepsAlive (s : Sent) : Prop :=
  ∀ r, requestSent parse_url s.callbacks = some r →
    strcasecmp (c_str (r.getHeader (text "connection") [])) (text "keep-alive") = 0

end session

section connection
variable {K : Type} {http_parser_execute : K → List UInt8 → Fired K} {parse_url : List UInt8 → Option UrlFields}

theorem init_fields (r : HttpRequest) : r.init.seen = r.seen ∧ r.init.headers = r.headers := by
  unfold HttpRequest.init
  dsimp only
  split
  · exact ⟨rfl,rfl⟩
  · split <;> exact ⟨rfl,rfl⟩

-- A request closes the connection unless its header says otherwise.
theorem init_close {r : HttpRequest} (closes : r.close = true) :
    r.init.close = false ↔ strcasecmp (c_str (r.getHeader (text "connection") [])) (text "keep-alive") = 0 := by
  unfold HttpRequest.init
  dsimp only
  by_cases none : r.getHeader (text "connection") [] = []
  · rw [if_pos none,closes,none]
    decide
  · rw [if_neg none]
    by_cases keeps : strcasecmp (c_str (r.getHeader (text "connection") [])) (text "keep-alive") = 0
    · rw [if_pos keeps]
      exact ⟨fun _ => keeps,fun _ => rfl⟩
    · rw [if_neg keeps]
      exact ⟨nofun,fun same => absurd same keeps⟩

theorem feed_close {p q : Parser HttpRequest} (callbacks : List Callback)
    (fed : p.feed (s_request_settings parse_url) callbacks = some q) : q.data.close = p.data.close := by
  induction callbacks generalizing p with
  | nil => cases fed; rfl
  | cons c rest ih =>
      rw [feed_cons,Option.bind_eq_some_iff] at fed
      obtain ⟨middle,moved,later⟩ := fed
      rw [ih later]
      cases c with
      | data kind buf =>
        cases kind with
        | url =>
            obtain ⟨data,stored,rfl⟩ := Option.map_eq_some_iff.mp moved
            obtain ⟨url,_,fields⟩ := Option.bind_eq_some_iff.mp stored
            cases fields
            rcases url with ⟨_ | path,_ | query,_ | fragment⟩ <;> rfl
        | _ => cases moved; rfl
      | _ => cases moved; rfl

theorem feed_finished {M : Type} {settings : Settings M} {p q : Parser M} (callbacks : List Callback)
    (fed : p.feed settings callbacks = some q) : q.finished = (p.finished || callbacks.any Callback.completes) := by
  induction callbacks generalizing p with
  | nil => cases fed; simp
  | cons c rest ih =>
      rw [feed_cons,Option.bind_eq_some_iff] at fed
      obtain ⟨middle,moved,later⟩ := fed
      have first : middle.finished = (p.finished || c.completes) := by
        cases c with
        | data kind buf =>
          cases kind with
          | url =>
              obtain ⟨data,_,rfl⟩ := Option.map_eq_some_iff.mp moved
              simp [Callback.completes]
          | _ => cases moved; simp [Callback.completes]
        | _ => cases moved; simp [Callback.completes]
      rw [ih later,first,List.any_cons,Bool.or_assoc]

theorem completes_of_done (phase : Phase) (unfinished : phase ≠ .done) (callbacks : List Callback)
    (message : callbacks.foldlM (Phase.next true) phase = some .done) : callbacks.any Callback.completes = true := by
  induction callbacks generalizing phase with
  | nil => cases message; exact absurd rfl unfinished
  | cons c rest ih =>
      rw [List.foldlM_cons,Option.bind_eq_bind,Option.bind_eq_some_iff] at message
      obtain ⟨after,moved,later⟩ := message
      rw [List.any_cons]
      by_cases done : after = .done
      · have last : c.completes = true := by
          subst done
          unfold Phase.next at moved
          split at moved <;> first | rfl | (split at moved <;> cases moved) | cases moved
        rw [last,Bool.true_or]
      · rw [ih after done later,Bool.or_true]

theorem cutting_completes {harmless : DataKind → List (List UInt8) → Prop} (cutting : Cutting harmless whole pieces) :
    pieces.any Callback.completes = whole.any Callback.completes := by
  induction cutting with
  | nil => rfl
  | keep _ ih => rw [List.any_cons,List.any_cons,ih]
  | cut _ _ _ ih =>
      rw [List.any_append,List.any_cons,ih]
      congr 1
      rw [List.any_map]
      exact List.any_eq_false.mpr fun _ _ => Bool.false_ne_true

-- The loop reads the message to its end and leaves the reads behind it.
theorem recvLoop_spec {k : K} {p q : Parser HttpRequest} (reads more : List (List UInt8)) (left : reads ≠ [])
    (sizes : ∀ read ∈ reads, read ≠ [] ∧ read.length ≤ buff_size) (clean : Clean http_parser_execute k reads)
    (fed : p.feed (s_request_settings parse_url) (firedAll http_parser_execute k reads) = some q)
    (unfinished : p.finished = false) (finished : q.finished = true) :
    recvLoop http_parser_execute parse_url buff_size ⟨k,p,false⟩ [] (reads ++ more) = (some q.data.init,more) := by
  induction reads generalizing k p with
  | nil => exact absurd rfl left
  | cons read rest ih =>
      obtain ⟨bytes,room⟩ := sizes read (.head _)
      obtain ⟨all,noUpgrade,noErrno,last,later⟩ := clean
      rw [firedAll,feed_append,Option.bind_eq_some_iff] at fed
      obtain ⟨middle,first,rest_fed⟩ := fed
      have width := List.length_pos_iff.mpr bytes
      have executed : (⟨k,p,false⟩ : HttpRequestParser K).execute http_parser_execute parse_url read =
          (read.length,⟨(http_parser_execute k read).state,middle,false⟩) := by
        simp only [HttpRequestParser.execute,first,all,noUpgrade,noErrno]
        rfl
      have noOffset : read.length-read.length ≠ buff_size := by omega
      rw [List.cons_append,recvLoop,if_neg bytes]
      dsimp only
      rw [List.nil_append,executed]
      dsimp only
      rw [if_neg Bool.false_ne_true,if_neg noOffset,List.drop_length]
      by_cases final : rest = []
      · subst final
        cases rest_fed
        rw [if_pos finished]
        rfl
      · have open_ : middle.finished = false := by
          rw [feed_finished _ first,unfinished,last final]
          rfl
        rw [open_,if_neg Bool.false_ne_true]
        exact ih final (fun read member => sizes read (.tail _ member)) later rest_fed open_

theorem recvRequest_spec {s : Sent} (more : List (List UInt8)) (wellFormed : WellFormed parse_url s)
    (documented : Documented http_parser_execute start s) (left : s.reads ≠ [])
    (sizes : ∀ read ∈ s.reads, read ≠ [] ∧ read.length ≤ buff_size)
    (harmless : Cutting (Harmless (UrlHarmless parse_url)) s.callbacks (firedAll http_parser_execute start s.reads)) :
    ∃ received sent, recvRequest http_parser_execute parse_url start buff_size (s.reads ++ more) = (some received,more) ∧
      requestSent parse_url s.callbacks = some sent ∧ received.seen = sent.seen ∧
      (received.close = false ↔ KeepsAlive parse_url s) := by
  obtain ⟨message,accepted⟩ := wellFormed
  obtain ⟨sent,request⟩ := Option.ne_none_iff_exists'.mp accepted
  obtain ⟨p,fed,rfl⟩ := Option.map_eq_some_iff.mp request
  have same := requestOf_cutting message harmless
  rw [requestOf,requestOf,fed] at same
  obtain ⟨q,received,fields⟩ := Option.map_eq_some_iff.mp same
  have finished : q.finished = true := by
    rw [feed_finished _ received,cutting_completes documented.2,completes_of_done .start (by rintro ⟨⟩) _ message,Bool.or_true]
  have headers : q.data.headers = p.data.headers := congrArg (fun v => v.2.2.2.1) fields
  have keeps : KeepsAlive parse_url s ↔
      strcasecmp (c_str (q.data.getHeader (text "connection") [])) (text "keep-alive") = 0 := by
    have only : (∀ r, requestSent parse_url s.callbacks = some r →
        strcasecmp (c_str (r.getHeader (text "connection") [])) (text "keep-alive") = 0) ↔
        strcasecmp (c_str (p.data.init.getHeader (text "connection") [])) (text "keep-alive") = 0 := by
      rw [request]
      exact ⟨fun all => all _ rfl,fun one r same => Option.some.inj same ▸ one⟩
    rw [KeepsAlive,only,HttpRequest.getHeader,HttpRequest.getHeader,(init_fields p.data).2,headers]
  refine ⟨q.data.init,p.data.init,?_,request,?_,?_⟩
  · exact recvLoop_spec s.reads more left sizes documented.1 received rfl finished
  · rw [(init_fields _).1,(init_fields _).1]
    exact fields
  · rw [keeps]
    exact init_close (feed_close _ received)

theorem handleClient_got {reads more : List (List UInt8)} {received : HttpRequest}
    (got : recvRequest http_parser_execute parse_url start buff_size reads = (some received,more)) :
    handleClient http_parser_execute parse_url start buff_size true reads = if received.close then [received]
      else received :: handleClient http_parser_execute parse_url start buff_size true more := by
  rw [handleClient]
  split
  · rename_i none
    rw [got] at none
    cases none
  · rename_i req others again
    rw [got] at again
    cases again
    rw [Bool.not_true,Bool.false_or]

-- Where no read reaches into the next request and no cut does harm, all
-- requests arrive exactly when each but the last keeps the connection open.
theorem handleClient_receives (http_parser_execute : K → List UInt8 → Fired K)
    (parse_url : List UInt8 → Option UrlFields) (start : K) (buff_size : Nat) (sent : List Sent)
    (wellFormed : ∀ s ∈ sent, WellFormed parse_url s)
    (documented : ∀ s ∈ sent, Documented http_parser_execute start s)
    (sizes : ∀ s ∈ sent, s.reads ≠ [] ∧ ∀ read ∈ s.reads, read ≠ [] ∧ read.length ≤ buff_size)
    (harmless : ∀ s ∈ sent,
      Cutting (Harmless (UrlHarmless parse_url)) s.callbacks (firedAll http_parser_execute start s.reads)) :
    (handleClient http_parser_execute parse_url start buff_size true (sent.flatMap Sent.reads)).map
        (fun r => some r.seen) =
      sent.map (fun s => (requestSent parse_url s.callbacks).map HttpRequest.seen) ↔
    ∀ s ∈ sent.dropLast, KeepsAlive parse_url s := by
  induction sent with
  | nil =>
      rw [List.flatMap_nil,handleClient]
      exact ⟨fun _ => nofun,fun _ => rfl⟩
  | cons s rest ih =>
      have here := List.mem_cons_self (a := s) (l := rest)
      obtain ⟨left,chunks⟩ := sizes s here
      obtain ⟨received,request,got,asked,fields,stays⟩ := recvRequest_spec (rest.flatMap Sent.reads)
        (wellFormed s here) (documented s here) left chunks (harmless s here)
      have later := ih (fun s member => wellFormed s (.tail _ member)) (fun s member => documented s (.tail _ member))
        (fun s member => sizes s (.tail _ member)) (fun s member => harmless s (.tail _ member))
      have first : some received.seen = (requestSent parse_url s.callbacks).map HttpRequest.seen := by
        rw [asked,fields]
        rfl
      rw [List.flatMap_cons,handleClient_got got]
      by_cases last : rest = []
      · subst last
        have none : handleClient http_parser_execute parse_url start buff_size true
            ((([] : List Sent)).flatMap Sent.reads) = [] := by rw [List.flatMap_nil,handleClient]; rfl
        rw [none,ite_self]
        exact ⟨fun _ => nofun,fun _ => by rw [List.map_cons,List.map_cons,first]; rfl⟩
      · have inner : (s :: rest).dropLast = s :: rest.dropLast := List.dropLast_cons_of_ne_nil last
        rw [inner,List.forall_mem_cons,←stays]
        cases closes : received.close with
        | true =>
            rw [if_pos rfl]
            constructor
            · intro same
              have lengths := congrArg List.length same
              have more := List.length_pos_iff.mpr last
              simp only [List.length_map,List.length_cons,List.length_nil] at lengths
              omega
            · rintro ⟨stay,_⟩
              cases stay
        | false =>
            rw [if_neg Bool.false_ne_true,List.map_cons,List.map_cons,first]
            constructor
            · intro same
              exact ⟨rfl,later.mp (List.cons.inj same).2⟩
            · rintro ⟨_,keep⟩
              rw [later.mpr keep]

end connection
section runs

-- A parser that knows some whole streams and fires their callbacks with the
-- last byte.
def buffered (known : List (List UInt8 × List Callback)) (held data : List UInt8) : Fired (List UInt8) :=
  let all := held ++ data
  ⟨all,((known.find? fun entry => entry.1 = all).map Prod.snd).getD [],data.length,false,0⟩

def getBytes (path : String) : List UInt8 :=
  text "GET " ++ text path ++ text " HTTP/1.1\r\nConnection: keep-alive\r\n\r\n"

def getCallbacks (path : String) : List Callback :=
  [.messageBegin,.data .url (text path),.data .headerField (text "Connection"),
    .data .headerValue (text "keep-alive"),.headersComplete 1 1 1 0,.messageComplete]

def twoGets : List (List UInt8 × List Callback) :=
  [(getBytes "/a",getCallbacks "/a"),(getBytes "/b",getCallbacks "/b"),
    (getBytes "/a" ++ getBytes "/b",getCallbacks "/a" ++ getCallbacks "/b")]

theorem handleClient_receives_two :
    (handleClient (buffered twoGets) pathOnly [] 4096 true [getBytes "/a",getBytes "/b"]).map
        (fun r => some r.seen) =
      [getCallbacks "/a",getCallbacks "/b"].map fun callbacks =>
        (requestSent pathOnly callbacks).map HttpRequest.seen := by
  refine (handleClient_receives (buffered twoGets) pathOnly [] 4096
    [⟨getCallbacks "/a",[getBytes "/a"]⟩,⟨getCallbacks "/b",[getBytes "/b"]⟩] ?_ ?_ ?_ ?_).mpr ?_
  · simp only [List.forall_mem_cons]
    exact ⟨⟨rfl,Option.some_ne_none _⟩,⟨rfl,Option.some_ne_none _⟩,nofun⟩
  · simp only [List.forall_mem_cons]
    exact ⟨⟨⟨rfl,rfl,rfl,nofun,trivial⟩,.refl _ _⟩,⟨⟨rfl,rfl,rfl,nofun,trivial⟩,.refl _ _⟩,nofun⟩
  · simp only [List.forall_mem_cons]
    exact ⟨⟨nofun,⟨nofun,by decide⟩,nofun⟩,⟨nofun,⟨nofun,by decide⟩,nofun⟩,nofun⟩
  · simp only [List.forall_mem_cons]
    exact ⟨.refl _ _,.refl _ _,nofun⟩
  · intro s member
    rw [List.mem_singleton.mp member]
    intro r request
    have same := Option.some.inj request
    rw [←same]
    decide

-- Both requests come in one read: the second one is laid over the first.
theorem handleClient_merges :
    (handleClient (buffered twoGets) pathOnly [] 4096 true [getBytes "/a" ++ getBytes "/b"]).map HttpRequest.path =
      [text "/b"] ∧
    ¬(handleClient (buffered twoGets) pathOnly [] 4096 true [getBytes "/a" ++ getBytes "/b"]).map
        (fun r => some r.seen) =
      [getCallbacks "/a",getCallbacks "/b"].map fun callbacks =>
        (requestSent pathOnly callbacks).map HttpRequest.seen := by
  obtain ⟨merged,got,path⟩ : ∃ merged, recvRequest (buffered twoGets) pathOnly [] 4096
      [getBytes "/a" ++ getBytes "/b"] = (some merged,[]) ∧ merged.path = text "/b" := ⟨_,rfl,rfl⟩
  have served : handleClient (buffered twoGets) pathOnly [] 4096 true [getBytes "/a" ++ getBytes "/b"] = [merged] := by
    rw [handleClient]
    split
    · rename_i none
      rw [got] at none
      cases none
    · rename_i req rest again
      rw [got] at again
      cases again
      rw [handleClient]
      exact ite_self _
  rw [served]
  refine ⟨by rw [List.map_singleton,path],?_⟩
  intro same
  have lengths := congrArg List.length same
  exact absurd lengths (by simp)

end runs

end Fishjoy
