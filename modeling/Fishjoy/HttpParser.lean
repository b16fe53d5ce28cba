import Fishjoy.Http

namespace Fishjoy

inductive DataKind where
  | url
  | headerField
  | headerValue
  | body
  deriving DecidableEq

-- The callbacks of `http_parser` with what they are given: the bytes, and the
-- fields of the parser they read.
inductive Callback where
  | messageBegin
  | data (kind : DataKind) (buf : List UInt8)
  | status (buf : List UInt8) (status_code : Nat)
  | headersComplete (http_major http_minor method status_code : Nat)
  | messageComplete
  | chunkHeader
  | chunkComplete

-- What `http_parser_parse_url` finds: offset and length of each field that is
-- set. The function itself is not part of the repository.
structure UrlFields where
  path : Option (Nat × Nat)
  query : Option (Nat × Nat)
  fragment : Option (Nat × Nat)

def slice (buf : List UInt8) (field : Nat × Nat) : List UInt8 := (buf.drop field.1).take field.2

-- `HttpRequestParser` and `HttpResponseParser`: `m_data`, `m_field` and
-- `m_finished`.
structure Parser (M : Type) where
  data : M
  field : List UInt8
  finished : Bool

-- `http_parser_settings`, as far as the callbacks change the message. A
-- callback that returns an error halts the parser.
structure Settings (M : Type) where
  on_url : M → List UInt8 → Option M
  on_status : M → Nat → M
  setHeader : M → List UInt8 → List UInt8 → M
  on_headers_complete : M → Nat → Nat → Nat → Nat → M
  appendBody : M → List UInt8 → M

def on_request_url_cb (parse_url : List UInt8 → Option UrlFields) (r : HttpRequest) (buf : List UInt8) :
    Option HttpRequest := do
  let url ← parse_url buf
  let r := match url.path with
    | some field => r.setPath (slice buf field)
    | none => r
  let r := match url.query with
    | some field => r.setQuery (slice buf field)
    | none => r
  return match url.fragment with
    | some field => r.setFragment (slice buf field)
    | none => r

def httpVersion (http_major http_minor : Nat) : UInt8 := UInt8.ofNat (http_major <<< 4 ||| http_minor)

def s_request_settings (parse_url : List UInt8 → Option UrlFields) : Settings HttpRequest where
  on_url := on_request_url_cb parse_url
  on_status r _ := r
  setHeader := HttpRequest.setHeader
  on_headers_complete r http_major http_minor method _ :=
    (r.setVersion (httpVersion http_major http_minor)).setMethod method
  appendBody := HttpRequest.appendBody

def s_response_settings : Settings HttpResponse where
  on_url r _ := some r
  on_status r status_code := r.setStatus status_code
  setHeader := HttpResponse.setHeader
  on_headers_complete r http_major http_minor _ status_code :=
    (r.setVersion (httpVersion http_major http_minor)).setStatus status_code
  appendBody := HttpResponse.appendBody

def HttpRequestParser.initial : Parser HttpRequest := ⟨HttpRequest.initial 0x11 true,[],false⟩

def HttpResponseParser.initial : Parser HttpResponse := ⟨HttpResponse.initial 0x11 true,[],false⟩

namespace Parser
variable {M : Type}

def on (settings : Settings M) (p : Parser M) : Callback → Option (Parser M)
  | .messageBegin | .chunkHeader | .chunkComplete => some p
  | .data .url buf => (settings.on_url p.data buf).map fun data => {p with data}
  | .status _ status_code => some {p with data := settings.on_status p.data status_code}
  | .data .headerField buf => some {p with field := buf}
  | .data .headerValue buf => some {p with data := settings.setHeader p.data p.field buf}
  | .headersComplete http_major http_minor method status_code =>
    some {p with data := settings.on_headers_complete p.data http_major http_minor method status_code}
  | .data .body buf => some {p with data := settings.appendBody p.data buf}
  | .messageComplete => some {p with finished := true}

def feed (settings : Settings M) (p : Parser M) (callbacks : List Callback) : Option (Parser M) :=
  callbacks.foldlM (on settings) p

end Parser

end Fishjoy
