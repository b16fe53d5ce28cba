import Fishjoy.HttpParser

namespace Fishjoy
open KeyedMap

-- How far a message is. Headers behind the body are those of a chunked one.
inductive Phase where
  | start
  | line
  | fields
  | value
  | body
  | trailer
  | done
  deriving DecidableEq

def Phase.next (request : Bool) : Phase → Callback → Option Phase
  | .start,.messageBegin => some .line
  | .line,.data .url _ => if request then some .fields else none
  | .line,.status _ _ => if request then none else some .fields
  | .fields,.data .headerField _ => some .value
  | .value,.data .headerValue _ => some .fields
  | .fields,.headersComplete .. => some .body
  | .body,.data .body _ | .body,.chunkHeader | .body,.chunkComplete => some .body
  | .body,.data .headerField _ => some .trailer
  | .trailer,.data .headerValue _ => some .body
  | .body,.messageComplete => some .done
  | _,_ => none

def Describes (request : Bool) (callbacks : List Callback) : Prop :=
  callbacks.foldlM (Phase.next request) .start = some .done

-- One sequence of callbacks is another one in which some data callbacks come
-- in pieces.
inductive Cutting (harmless : DataKind → List (List UInt8) → Prop) : List Callback → List Callback → Prop where
  | nil : Cutting harmless [] []
  | keep : Cutting harmless whole pieces → Cutting harmless (c :: whole) (c :: pieces)
  | cut : Cutting harmless whole pieces → bufs ≠ [] → harmless kind bufs →
      Cutting harmless (.data kind bufs.flatten :: whole) (bufs.map (.data kind) ++ pieces)

-- What a part of the url is after the pieces have been parsed one by one.
def lastPart (part : List UInt8 → Option (List UInt8)) : List (List UInt8) → Option (List UInt8)
  | [] => none
  | buf :: rest => (lastPart part rest).or (part buf)

section conditions
variable (parse_url : List UInt8 → Option UrlFields)

def urlPath (buf : List UInt8) : Option (List UInt8) := (parse_url buf).bind fun url => url.path.map (slice buf)

def urlQuery (buf : List UInt8) : Option (List UInt8) := (parse_url buf).bind fun url => url.query.map (slice buf)

-- The pieces of a url are urls, and the last ones with a path and with a query
-- have those of the whole; or neither the whole nor every piece is a url.
def UrlHarmless (bufs : List (List UInt8)) : Prop :=
  if parse_url bufs.flatten = none then ∃ buf ∈ bufs, parse_url buf = none
  else (∀ buf ∈ bufs, parse_url buf ≠ none) ∧
    (lastPart (urlPath parse_url) bufs).getD (text "/") = (urlPath parse_url bufs.flatten).getD (text "/") ∧
    (lastPart (urlQuery parse_url) bufs).getD [] = (urlQuery parse_url bufs.flatten).getD []

-- A header field or value comes whole, up to empty pieces before it.
def Harmless (urlHarmless : List (List UInt8) → Prop) : DataKind → List (List UInt8) → Prop
  | .url,bufs => urlHarmless bufs
  | .headerField,bufs | .headerValue,bufs => ∀ buf ∈ bufs.dropLast, buf = []
  | .body,_ => True

end conditions

abbrev RequestFields := Nat × List UInt8 × List UInt8 × MapType × List UInt8

def HttpRequest.seen (r : HttpRequest) : RequestFields := (r.method,r.path,r.query,r.headers,r.body)

def HttpResponse.seen (r : HttpResponse) : MapType × List UInt8 := (r.headers,r.body)

def requestOf (parse_url : List UInt8 → Option UrlFields) (callbacks : List Callback) :
    Option RequestFields :=
  (HttpRequestParser.initial.feed (s_request_settings parse_url) callbacks).map fun p => p.data.seen

def responseOf (callbacks : List Callback) : Option (MapType × List UInt8) :=
  (HttpResponseParser.initial.feed s_response_settings callbacks).map fun p => p.data.seen

-- What the callbacks of a message have in common. A message is blank as long
-- as no part of a url has been stored.
structure Lawful {M V : Type} (settings : Settings M) (seen : M → V) (blank : M → Prop)
    (urlHarmless : List (List UInt8) → Prop) : Prop where
  on_url : ∀ m n buf, seen m = seen n → (settings.on_url m buf).map seen = (settings.on_url n buf).map seen
  on_status : ∀ m n code, seen m = seen n → seen (settings.on_status m code) = seen (settings.on_status n code)
  setHeader : ∀ m n field buf, seen m = seen n → seen (settings.setHeader m field buf) = seen (settings.setHeader n field buf)
  on_headers_complete : ∀ m n x y z w, seen m = seen n →
    seen (settings.on_headers_complete m x y z w) = seen (settings.on_headers_complete n x y z w)
  appendBody : ∀ m n buf, seen m = seen n → seen (settings.appendBody m buf) = seen (settings.appendBody n buf)
  overwrite : ∀ m field buf again,
    settings.setHeader (settings.setHeader m field buf) field again = settings.setHeader m field again
  append : ∀ m buf more, settings.appendBody (settings.appendBody m buf) more = settings.appendBody m (buf ++ more)
  empty : ∀ m, settings.appendBody m [] = m
  url : ∀ m bufs, blank m → urlHarmless bufs →
    (bufs.foldlM settings.on_url m).map seen = (settings.on_url m bufs.flatten).map seen

section generic
variable {M V : Type} {settings : Settings M} {seen : M → V} {blank : M → Prop}
  {urlHarmless : List (List UInt8) → Prop} {bufs : List (List UInt8)} {p q : Parser M} {request : Bool}

theorem last_flatten (some : bufs ≠ []) : (∀ buf ∈ bufs.dropLast, buf = []) ↔ bufs.getLast some = bufs.flatten := by
  have whole : bufs.flatten = bufs.dropLast.flatten ++ bufs.getLast some := by
    conv_lhs => rw [←List.dropLast_append_getLast some]
    simp
  rw [whole]
  constructor
  · intro empty
    rw [List.flatten_eq_nil_iff.mpr empty,List.nil_append]
  · intro same
    exact List.flatten_eq_nil_iff.mp (List.self_eq_append_left.mp same)

theorem feed_cons (c : Callback) (rest : List Callback) :
    p.feed settings (c :: rest) = (p.on settings c).bind fun p => p.feed settings rest := rfl

theorem feed_append (front back : List Callback) :
    p.feed settings (front ++ back) = (p.feed settings front).bind fun p => p.feed settings back :=
  List.foldlM_append

theorem feed_field (some : bufs ≠ []) :
    p.feed settings (bufs.map (.data .headerField)) = .some {p with field := bufs.getLast some} := by
  induction bufs generalizing p with
  | nil => exact absurd rfl some
  | cons buf rest ih =>
      rw [List.map_cons,feed_cons]
      by_cases last : rest = []
      · subst last; rfl
      · rw [List.getLast_cons last]
        exact ih last

theorem feed_value (lawful : Lawful settings seen blank urlHarmless) (some : bufs ≠ []) :
    p.feed settings (bufs.map (.data .headerValue)) =
      .some {p with data := settings.setHeader p.data p.field (bufs.getLast some)} := by
  induction bufs generalizing p with
  | nil => exact absurd rfl some
  | cons buf rest ih =>
      rw [List.map_cons,feed_cons]
      by_cases last : rest = []
      · subst last; rfl
      · rw [List.getLast_cons last]
        apply (ih last).trans
        simp only [lawful.overwrite]

theorem feed_body (lawful : Lawful settings seen blank urlHarmless) (bufs : List (List UInt8)) :
    p.feed settings (bufs.map (.data .body)) = some {p with data := settings.appendBody p.data bufs.flatten} := by
  induction bufs generalizing p with
  | nil => rw [List.flatten_nil,lawful.empty]; rfl
  | cons buf rest ih =>
      rw [List.map_cons,feed_cons]
      apply ih.trans
      simp only [lawful.append,List.flatten_cons]

theorem feed_url (bufs : List (List UInt8)) :
    p.feed settings (bufs.map (.data .url)) = (bufs.foldlM settings.on_url p.data).map fun data => {p with data} := by
  induction bufs generalizing p with
  | nil => rfl
  | cons buf rest ih =>
      rw [List.map_cons,feed_cons,List.foldlM_cons,Parser.on]
      cases settings.on_url p.data buf with
      | none => rfl
      | some data => exact ih

def view (seen : M → V) (p : Parser M) : List UInt8 × V := (p.field,seen p.data)

theorem view_data (data : Option M) :
    (data.map fun data => ({p with data} : Parser M)).map (view seen) = (data.map seen).map fun v => (p.field,v) := by
  cases data <;> rfl

theorem on_view (lawful : Lawful settings seen blank urlHarmless) (same : view seen p = view seen q) (c : Callback) :
    (p.on settings c).map (view seen) = (q.on settings c).map (view seen) := by
  obtain ⟨field,data⟩ := Prod.mk.inj same
  cases c with
  | messageBegin => exact congrArg some same
  | chunkHeader => exact congrArg some same
  | chunkComplete => exact congrArg some same
  | messageComplete => exact congrArg some same
  | status buf code => exact congrArg some (Prod.ext field (lawful.on_status _ _ _ data))
  | headersComplete x y z w => exact congrArg some (Prod.ext field (lawful.on_headers_complete _ _ x y z w data))
  | data kind buf =>
    cases kind with
    | url =>
        simp only [Parser.on]
        rw [view_data,view_data,lawful.on_url _ _ buf data,field]
    | headerField => exact congrArg some (Prod.ext rfl data)
    | headerValue =>
        refine congrArg some (Prod.ext field ?_)
        simp only [view]
        rw [field]
        exact lawful.setHeader _ _ _ _ data
    | body => exact congrArg some (Prod.ext field (lawful.appendBody _ _ _ data))

theorem feed_cut (lawful : Lawful settings seen blank urlHarmless) (some : bufs ≠ [])
    (harmless : Harmless urlHarmless kind bufs) (early : kind = .url → blank p.data) :
    (p.feed settings (bufs.map (.data kind))).map (view seen) =
      (p.on settings (.data kind bufs.flatten)).map (view seen) := by
  cases kind with
  | url =>
      simp only [feed_url,Parser.on]
      rw [view_data,view_data,lawful.url p.data bufs (early rfl) harmless]
  | headerField => rw [feed_field some,(last_flatten some).mp harmless]; rfl
  | headerValue => rw [feed_value lawful some,(last_flatten some).mp harmless]; rfl
  | body => rw [feed_body lawful]; rfl

-- The start of a message is its first callback and the state before it.
theorem next_early (moved : Phase.next request phase c = some after) (early : after = .start ∨ after = .line) :
    phase = .start ∧ c = .messageBegin := by
  unfold Phase.next at moved
  split at moved
  all_goals first
    | exact ⟨rfl,rfl⟩
    | (split at moved <;> cases moved <;> simp at early)
    | (cases moved <;> simp at early)

theorem next_url (moved : Phase.next request phase (.data .url buf) = some after) : phase = .line := by
  cases phase <;> simp [Phase.next] at moved ⊢

theorem feed_view (lawful : Lawful settings seen blank urlHarmless) (cutting : Cutting (Harmless urlHarmless) whole pieces)
    (message : whole.foldlM (Phase.next request) phase = some .done)
    (early : phase = .start ∨ phase = .line → blank p.data ∧ blank q.data) (same : view seen p = view seen q) :
    (q.feed settings pieces).map (view seen) = (p.feed settings whole).map (view seen) := by
  induction cutting generalizing p q phase with
  | nil => exact congrArg some same.symm
  | @keep whole pieces c cutting ih =>
      rw [List.foldlM_cons,Option.bind_eq_bind,Option.bind_eq_some_iff] at message
      obtain ⟨after,moved,rest⟩ := message
      have step := on_view lawful same c
      rw [feed_cons,feed_cons]
      cases left : p.on settings c with
      | none =>
          rw [left] at step
          rw [Option.map_eq_none_iff.mp step.symm]
          rfl
      | some p' =>
          rw [left] at step
          obtain ⟨q',right,same'⟩ := Option.map_eq_some_iff.mp step.symm
          rw [right]
          refine ih rest ?_ same'.symm
          intro start
          obtain ⟨began,rfl⟩ := next_early moved start
          cases left
          cases right
          exact early (.inl began)
  | @cut whole pieces bufs kind cutting left harmless ih =>
      rw [List.foldlM_cons,Option.bind_eq_bind,Option.bind_eq_some_iff] at message
      obtain ⟨after,moved,rest⟩ := message
      have blank := fun url : kind = .url => (early (.inr (next_url (url ▸ moved)))).2
      have step := (feed_cut lawful left harmless blank).trans (on_view lawful same.symm _)
      rw [feed_cons,feed_append]
      cases first : p.on settings (.data kind bufs.flatten) with
      | none =>
          rw [first] at step
          rw [Option.map_eq_none_iff.mp step]
          rfl
      | some p' =>
          rw [first] at step
          obtain ⟨q',second,same'⟩ := Option.map_eq_some_iff.mp step
          rw [second]
          refine ih rest ?_ same'.symm
          intro start
          cases (next_early moved start).2

theorem Cutting.refl (harmless : DataKind → List (List UInt8) → Prop) (callbacks : List Callback) :
    Cutting harmless callbacks callbacks := by
  induction callbacks with
  | nil => exact .nil
  | cons c rest ih => exact .keep ih

theorem Cutting.single {harmless : DataKind → List (List UInt8) → Prop} (before after : List Callback)
    (bufs : List (List UInt8)) (left : bufs ≠ []) (known : harmless kind bufs) :
    Cutting harmless (before ++ .data kind bufs.flatten :: after) (before ++ bufs.map (.data kind) ++ after) := by
  induction before with
  | nil => exact .cut (.refl harmless after) left known
  | cons c rest ih => exact .keep ih

end generic

section url
variable {parse_url : List UInt8 → Option UrlFields} {r : HttpRequest}

theorem on_request_url_seen (parse_url : List UInt8 → Option UrlFields) (r : HttpRequest) (buf : List UInt8) :
    (on_request_url_cb parse_url r buf).map HttpRequest.seen = (parse_url buf).map fun _ =>
      (r.method,(urlPath parse_url buf).getD r.path,(urlQuery parse_url buf).getD r.query,r.headers,r.body) := by
  unfold on_request_url_cb urlPath urlQuery
  cases parse_url buf with
  | none => rfl
  | some url => rcases url with ⟨_ | path,_ | query,_ | fragment⟩ <;> rfl

theorem fold_url_seen (parse_url : List UInt8 → Option UrlFields) (r : HttpRequest) (bufs : List (List UInt8)) :
    (bufs.foldlM (on_request_url_cb parse_url) r).map HttpRequest.seen =
      if ∃ buf ∈ bufs, parse_url buf = none then none
      else some (r.method,(lastPart (urlPath parse_url) bufs).getD r.path,
        (lastPart (urlQuery parse_url) bufs).getD r.query,r.headers,r.body) := by
  induction bufs generalizing r with
  | nil => simp [HttpRequest.seen,lastPart]
  | cons buf rest ih =>
      have step := on_request_url_seen parse_url r buf
      rw [List.foldlM_cons]
      cases parsed : parse_url buf with
      | none =>
          rw [parsed] at step
          rw [Option.map_eq_none_iff.mp step,if_pos ⟨buf,.head _,parsed⟩]
          rfl
      | some url =>
          rw [parsed] at step
          obtain ⟨next,moved,fields⟩ := Option.map_eq_some_iff.mp step
          obtain ⟨method,path,query,headers,body⟩ : next.method = _ ∧ next.path = _ ∧ next.query = _ ∧
              next.headers = _ ∧ next.body = _ := by
            simpa [HttpRequest.seen] using fields
          rw [moved]
          apply (ih next).trans
          have more : (∃ b ∈ buf :: rest, parse_url b = none) ↔ ∃ b ∈ rest, parse_url b = none := by
            simp [parsed]
          simp only [more,method,path,query,headers,body,lastPart]
          have chain (last part : Option (List UInt8)) (old : List UInt8) :
              last.getD (part.getD old) = (last.or part).getD old := by cases last <;> rfl
          rw [chain,chain]

def HttpRequest.Blank (r : HttpRequest) : Prop := r.path = text "/" ∧ r.query = []

theorem urlHarmless_iff (blank : r.Blank) (bufs : List (List UInt8)) :
    UrlHarmless parse_url bufs ↔ (bufs.foldlM (on_request_url_cb parse_url) r).map HttpRequest.seen =
      (on_request_url_cb parse_url r bufs.flatten).map HttpRequest.seen := by
  rw [fold_url_seen,on_request_url_seen,UrlHarmless,blank.1,blank.2]
  cases parsed : parse_url bufs.flatten with
  | none => simp
  | some url =>
      rw [if_neg (by simp)]
      by_cases broken : ∃ buf ∈ bufs, parse_url buf = none
      · rw [if_pos broken]
        obtain ⟨buf,member,fails⟩ := broken
        constructor
        · intro whole
          exact absurd fails (whole.1 buf member)
        · intro same
          cases same
      · rw [if_neg broken]
        simp only [not_exists,not_and] at broken
        simp only [Option.map_some,Option.some.injEq,Prod.mk.injEq,and_true,true_and]
        exact ⟨fun whole => whole.2,fun same => ⟨broken,same⟩⟩

theorem request_lawful (parse_url : List UInt8 → Option UrlFields) :
    Lawful (s_request_settings parse_url) HttpRequest.seen HttpRequest.Blank (UrlHarmless parse_url) where
  on_url m n buf same := by
    obtain ⟨method,path,query,headers,body⟩ : m.method = _ ∧ m.path = _ ∧ m.query = _ ∧ m.headers = _ ∧ m.body = _ := by
      simpa [HttpRequest.seen] using same
    simp only [s_request_settings,on_request_url_seen,method,path,query,headers,body]
  on_status _ _ _ same := same
  setHeader m n field buf same := by
    simp only [HttpRequest.seen,Prod.mk.injEq] at same
    simp [HttpRequest.seen,s_request_settings,HttpRequest.setHeader,same]
  on_headers_complete m n x y z w same := by
    simp only [HttpRequest.seen,Prod.mk.injEq] at same
    simp [HttpRequest.seen,s_request_settings,HttpRequest.setVersion,HttpRequest.setMethod,same]
  appendBody m n buf same := by
    simp only [HttpRequest.seen,Prod.mk.injEq] at same
    simp [HttpRequest.seen,s_request_settings,HttpRequest.appendBody,same]
  overwrite m field buf again := by
    simp only [s_request_settings,HttpRequest.setHeader,assign_assign]
  append m buf more := by simp only [s_request_settings,HttpRequest.appendBody,List.append_assoc]
  empty m := by simp only [s_request_settings,HttpRequest.appendBody,List.append_nil]
  url m bufs blank harmless := (urlHarmless_iff blank bufs).mp harmless

end url

theorem response_lawful : Lawful s_response_settings HttpResponse.seen (fun _ => True) (fun _ => True) where
  on_url _ _ _ same := congrArg some same
  on_status _ _ _ same := same
  setHeader m n field buf same := by
    simp only [HttpResponse.seen,Prod.mk.injEq] at same
    simp [HttpResponse.seen,s_response_settings,HttpResponse.setHeader,same]
  on_headers_complete _ _ _ _ _ _ same := same
  appendBody m n buf same := by
    simp only [HttpResponse.seen,Prod.mk.injEq] at same
    simp [HttpResponse.seen,s_response_settings,HttpResponse.appendBody,same]
  overwrite m field buf again := by
    simp only [s_response_settings,HttpResponse.setHeader,assign_assign]
  append m buf more := by simp only [s_response_settings,HttpResponse.appendBody,List.append_assoc]
  empty m := by simp only [s_response_settings,HttpResponse.appendBody,List.append_nil]
  url m bufs _ _ := by
    have still : bufs.foldlM s_response_settings.on_url m = some m := by
      induction bufs with
      | nil => rfl
      | cons buf rest ih => exact ih
    rw [still]
    rfl

theorem requestOf_cutting {parse_url : List UInt8 → Option UrlFields} (message : Describes true whole)
    (cutting : Cutting (Harmless (UrlHarmless parse_url)) whole pieces) :
    requestOf parse_url pieces = requestOf parse_url whole := by
  have result := feed_view (p := HttpRequestParser.initial) (q := HttpRequestParser.initial)
    (request_lawful parse_url) cutting message (fun _ => ⟨⟨rfl,rfl⟩,rfl,rfl⟩) rfl
  have fields := congrArg (Option.map Prod.snd) result
  rw [Option.map_map,Option.map_map] at fields
  exact fields

theorem responseOf_cutting (message : Describes false whole) (cutting : Cutting (Harmless fun _ => True) whole pieces) :
    responseOf pieces = responseOf whole := by
  have result := feed_view (p := HttpResponseParser.initial) (q := HttpResponseParser.initial)
    response_lawful cutting message (fun _ => ⟨trivial,trivial⟩) rfl
  have fields := congrArg (Option.map Prod.snd) result
  rw [Option.map_map,Option.map_map] at fields
  exact fields

theorem assign_empty {key key' value value' : List UInt8}
    (same : (KeyedMap.empty : MapType).assign key value = KeyedMap.empty.assign key' value') :
    key = key' ∧ value = value' := by
  have entries := congrArg KeyedMap.entries same
  simpa [KeyedMap.assign,KeyedMap.empty,place] using entries

section necessary
variable {bufs : List (List UInt8)} {parse_url : List UInt8 → Option UrlFields}

-- A message of one header, whose field or value is cut.
theorem field_necessary {M V : Type} {settings : Settings M} {seen : M → V} {p : Parser M}
    (headers : V → MapType) (blank : headers (seen p.data) = KeyedMap.empty)
    (stores : ∀ m field buf x y z w, headers (seen (settings.on_headers_complete (settings.setHeader m field buf) x y z w)) =
      (headers (seen m)).assign field buf)
    (left : bufs ≠ [])
    (same : (p.feed settings (bufs.map (Callback.data .headerField) ++
          [Callback.data .headerValue [],.headersComplete 1 1 1 0,.messageComplete])).map (fun p => seen p.data) =
        (p.feed settings (.data .headerField bufs.flatten ::
          [Callback.data .headerValue [],.headersComplete 1 1 1 0,.messageComplete])).map fun p => seen p.data) :
    ∀ buf ∈ bufs.dropLast, buf = [] := by
  rw [feed_append,feed_field left] at same
  have maps := congrArg headers (Option.some.inj same)
  simp only [stores,blank] at maps
  exact (last_flatten left).mpr (assign_empty maps).1

theorem value_necessary {M V : Type} {settings : Settings M} {seen : M → V} {p : Parser M} {blank' : M → Prop}
    {urlHarmless : List (List UInt8) → Prop} (lawful : Lawful settings seen blank' urlHarmless)
    (headers : V → MapType) (blank : headers (seen p.data) = KeyedMap.empty)
    (stores : ∀ m field buf x y z w, headers (seen (settings.on_headers_complete (settings.setHeader m field buf) x y z w)) =
      (headers (seen m)).assign field buf)
    (left : bufs ≠ [])
    (same : (p.feed settings (bufs.map (Callback.data .headerValue) ++
          [Callback.headersComplete 1 1 1 0,.messageComplete])).map (fun p => seen p.data) =
        (p.feed settings (.data .headerValue bufs.flatten ::
          [Callback.headersComplete 1 1 1 0,.messageComplete])).map fun p => seen p.data) :
    ∀ buf ∈ bufs.dropLast, buf = [] := by
  rw [feed_append,feed_value lawful left] at same
  have maps := congrArg headers (Option.some.inj same)
  simp only [stores,blank] at maps
  exact (last_flatten left).mpr (assign_empty maps).2

-- The callbacks behind the url only add the method.
theorem map_finish (parse_url : List UInt8 → Option UrlFields) (data : Option HttpRequest) :
    ((data.map fun data => (⟨data,[],false⟩ : Parser HttpRequest)).bind fun p =>
      p.feed (s_request_settings parse_url) [.headersComplete 1 1 1 0,.messageComplete]).map (fun p => p.data.seen) =
    data.map fun r => (1,r.seen.2) := by
  cases data <;> rfl

theorem seen_method {left right : Option HttpRequest} (method : ∀ r ∈ left, r.method = 1)
    (method' : ∀ r ∈ right, r.method = 1)
    (same : left.map (fun r => (1,r.seen.2)) = right.map fun r => (1,r.seen.2)) :
    left.map HttpRequest.seen = right.map HttpRequest.seen := by
  have whole {data : Option HttpRequest} (known : ∀ r ∈ data, r.method = 1) :
      data.map HttpRequest.seen = data.map fun r => (1,r.seen.2) := by
    cases data with
    | none => rfl
    | some r => exact congrArg some (Prod.ext (known r rfl) rfl)
  rw [whole method,whole method',same]

theorem fold_url_method (bufs : List (List UInt8)) (member : after ∈ bufs.foldlM (on_request_url_cb parse_url) r) :
    after.method = r.method := by
  have result := fold_url_seen parse_url r bufs
  rw [Option.mem_def.mp member] at result
  split at result
  · cases result
  · exact (Prod.mk.inj (Option.some.inj result)).1

-- Behind a url that is accepted a request goes on with any callbacks.
theorem requestOf_begun (moved : on_request_url_cb parse_url (HttpRequest.initial 0x11 true) buf = some r)
    (callbacks : List Callback) : requestOf parse_url (.messageBegin :: .data .url buf :: callbacks) =
      (Parser.feed (s_request_settings parse_url) ⟨r,[],false⟩ callbacks).map fun p => p.data.seen := by
  have first : Parser.on (s_request_settings parse_url) HttpRequestParser.initial (.data .url buf) =
      some ⟨r,[],false⟩ := by
    simp only [Parser.on,s_request_settings]
    rw [show HttpRequestParser.initial.data = HttpRequest.initial 0x11 true from rfl,moved]
    rfl
  rw [requestOf,feed_cons,Parser.on,Option.bind_some,feed_cons,first]
  rfl

theorem url_accepted (accepts : ∃ buf, parse_url buf ≠ none) : ∃ buf r,
    on_request_url_cb parse_url (HttpRequest.initial 0x11 true) buf = some r ∧ r.headers = KeyedMap.empty := by
  obtain ⟨buf,found⟩ := accepts
  obtain ⟨url,parsed⟩ := Option.ne_none_iff_exists'.mp found
  have result := on_request_url_seen parse_url (HttpRequest.initial 0x11 true) buf
  rw [parsed] at result
  obtain ⟨r,moved,fields⟩ := Option.map_eq_some_iff.mp result
  exact ⟨buf,r,moved,congrArg (fun v => v.2.2.2.1) fields⟩

-- A message around the cut shows what it does.
theorem request_necessary (accepts : ∃ buf, parse_url buf ≠ none) (left : bufs ≠ [])
    (same : ∀ before after : List Callback, Describes true (before ++ .data kind bufs.flatten :: after) →
      requestOf parse_url (before ++ bufs.map (.data kind) ++ after) =
        requestOf parse_url (before ++ .data kind bufs.flatten :: after)) :
    Harmless (UrlHarmless parse_url) kind bufs := by
  obtain ⟨buf,r,moved,fields⟩ := url_accepted accepts
  cases kind with
  | url =>
      have agree := same [.messageBegin] [.headersComplete 1 1 1 0,.messageComplete] rfl
      apply (urlHarmless_iff (r := HttpRequest.initial 0x11 true) ⟨rfl,rfl⟩ bufs).mpr
      simp only [requestOf,List.cons_append,List.nil_append,feed_cons,feed_append,feed_url,Parser.on,
        Option.bind_some] at agree
      have rest := (map_finish parse_url _).symm.trans (agree.trans (map_finish parse_url _))
      refine seen_method ?_ ?_ rest
      · exact fun _ => fold_url_method bufs
      · intro after moved
        have single : after ∈ [bufs.flatten].foldlM (on_request_url_cb parse_url) (HttpRequest.initial 0x11 true) := by
          simpa using moved
        exact fold_url_method _ single
  | headerField =>
      have agree := same [.messageBegin,.data .url buf]
        [.data .headerValue [],.headersComplete 1 1 1 0,.messageComplete] rfl
      simp only [List.cons_append,List.nil_append,requestOf_begun moved] at agree
      exact field_necessary (fun v => v.2.2.2.1) fields (fun _ _ _ _ _ _ _ => rfl) left agree
  | headerValue =>
      have agree := same [.messageBegin,.data .url buf,.data .headerField []]
        [.headersComplete 1 1 1 0,.messageComplete] rfl
      simp only [List.cons_append,List.nil_append,requestOf_begun moved] at agree
      exact value_necessary (p := ⟨r,[],false⟩) (request_lawful parse_url) (fun v => v.2.2.2.1) fields
        (fun _ _ _ _ _ _ _ => rfl) left agree
  | body => trivial

theorem response_necessary (left : bufs ≠ [])
    (same : ∀ before after : List Callback, Describes false (before ++ .data kind bufs.flatten :: after) →
      responseOf (before ++ bufs.map (.data kind) ++ after) = responseOf (before ++ .data kind bufs.flatten :: after)) :
    Harmless (fun _ => True) kind bufs := by
  cases kind with
  | url => trivial
  | headerField =>
      have agree := same [.messageBegin,.status [] 200]
        [.data .headerValue [],.headersComplete 1 1 1 0,.messageComplete] rfl
      exact field_necessary (fun v => v.1) rfl (fun _ _ _ _ _ _ _ => rfl) left agree
  | headerValue =>
      have agree := same [.messageBegin,.status [] 200,.data .headerField []]
        [.headersComplete 1 1 1 0,.messageComplete] rfl
      exact value_necessary response_lawful (fun v => v.1) rfl (fun _ _ _ _ _ _ _ => rfl) left agree
  | body => trivial

end necessary

-- A cut of one data callback does no harm in any message exactly when it is
-- harmless, and no number of harmless cuts does.
theorem cuts_exactly (parse_url : List UInt8 → Option UrlFields) (accepts : ∃ buf, parse_url buf ≠ none) :
    (∀ kind bufs, bufs ≠ [] →
      ((∀ before after, Describes true (before ++ .data kind bufs.flatten :: after) →
          requestOf parse_url (before ++ bufs.map (.data kind) ++ after) =
            requestOf parse_url (before ++ .data kind bufs.flatten :: after)) ↔
        Harmless (UrlHarmless parse_url) kind bufs)) ∧
    (∀ kind bufs, bufs ≠ [] →
      ((∀ before after, Describes false (before ++ .data kind bufs.flatten :: after) →
          responseOf (before ++ bufs.map (.data kind) ++ after) =
            responseOf (before ++ .data kind bufs.flatten :: after)) ↔
        Harmless (fun _ => True) kind bufs)) ∧
    (∀ whole pieces, Describes true whole → Cutting (Harmless (UrlHarmless parse_url)) whole pieces →
      requestOf parse_url pieces = requestOf parse_url whole) ∧
    (∀ whole pieces, Describes false whole → Cutting (Harmless fun _ => True) whole pieces →
      responseOf pieces = responseOf whole) := by
  refine ⟨?_,?_,fun _ _ message cutting => requestOf_cutting message cutting,
    fun _ _ message cutting => responseOf_cutting message cutting⟩
  · intro kind bufs left
    refine ⟨request_necessary accepts left,fun harmless before after message => ?_⟩
    exact requestOf_cutting message (.single before after bufs left harmless)
  · intro kind bufs left
    refine ⟨response_necessary left,fun harmless before after message => ?_⟩
    exact responseOf_cutting message (.single before after bufs left harmless)

-- A url that starts with a slash is a path as a whole.
def pathOnly (buf : List UInt8) : Option UrlFields :=
  if buf.head? = some 47 then some ⟨some (0,buf.length),none,none⟩ else none

def posted (value body : List Callback) : List Callback :=
  [.messageBegin,.data .url (text "/x"),.data .headerField (text "k")] ++ value ++
    .headersComplete 1 1 3 0 :: body ++ [.messageComplete]

theorem cuts_exactly_path :
    requestOf pathOnly (posted [.data .headerValue (text "v")] [.data .body (text "one"),.data .body (text "two")]) =
      requestOf pathOnly (posted [.data .headerValue (text "v")] [.data .body (text "onetwo")]) := by
  refine (cuts_exactly pathOnly ⟨text "/",by decide⟩).2.2.1 _ _ rfl ?_
  exact .single
    [.messageBegin,.data .url (text "/x"),.data .headerField (text "k"),.data .headerValue (text "v"),
      .headersComplete 1 1 3 0] [.messageComplete] [text "one",text "two"] (List.cons_ne_nil _ _) trivial

-- Of a header value that comes in two pieces the second one is left.
theorem cuts_fail :
    ¬requestOf pathOnly (posted [.data .headerValue (text "a"),.data .headerValue (text "b")] []) =
      requestOf pathOnly (posted [.data .headerValue (text "ab")] []) := by
  intro same
  have found := congrArg (Option.map fun v => v.2.2.2.1.find (text "k")) same
  exact absurd found (by decide)

end Fishjoy
