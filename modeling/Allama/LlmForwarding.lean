import Allama.HttpMessages
import Allama.RecordFields

/-! The two ends of the way of an LLM request out of the sandbox: `LLMBridge` inside it and `LLMSocketProxy` on the host. -/
namespace Allama
namespace LlmForwarding
open Http RecordFields

def maxBodySize : ℕ := 10 * 1024 * 1024

section Bridge

/-- How `_read_http_request` ends without a request: with `None`, with an error of `readline`, or in `readexactly`. -/
inductive BridgeStop
  | closed
  | raised
  | incomplete
  deriving DecidableEq

/-- The loop of the bridge over the lines: `headers_data`, and what follows it. -/
def readHead : List Octets → Except BridgeStop (Octets × Octets)
  | [] => .error .closed
  | line :: lines =>
    if overruns line then .error .raised
    else if line = crlf then .ok (line,lines.flatten)
    else (readHead lines).map fun (headers_data,rest) => (line ++ headers_data,rest)

def stripBytes (t : Octets) : Octets := (t.dropWhile isAsciiSpace).rdropWhile isAsciiSpace

def afterColon (t : Text) : Text := (t.dropWhile (· ≠ ':')).drop 1

def contentLengthOf (headers_data : Octets) : ℤ :=
  match (splitCrlf headers_data).find? fun line => (contentLengthKey ++ [':']).isPrefixOf (lower line) with
  | none => 0
  | some line => (intOfBytes (stripBytes (afterColon line))).getD 0

def readHttpRequest (stream : Octets) : Except BridgeStop Octets :=
  match readHead (linesOf stream) with
  | .error stop => .error stop
  | .ok (headers_data,rest) =>
    let content_length := contentLengthOf headers_data
    if (maxBodySize : ℤ) < content_length then .error .closed
    else if 0 < content_length then
      if rest.length < content_length.toNat then .error .incomplete
      else .ok (headers_data ++ rest.take content_length.toNat)
    else .ok headers_data

/-- `_stream_response`, over the chunks that its reads return. -/
def streamResponse : List Octets → Octets
  | [] => []
  | chunk :: chunks => if chunk = [] then [] else chunk ++ streamResponse chunks

def errorResponse (status_code : String) (status_text message : String) : Octets :=
  let body := "\x7b\"error\":\"".toList ++ (message.toList ++ "\"\x7d".toList)
  headOctets ["HTTP/1.1 ".toList ++ (status_code.toList ++ ' ' :: status_text.toList),
    "Content-Type: application/json".toList, "Content-Length: ".toList ++ (toString body.length).toList,
    "Connection: close".toList] ++ body

/-- What the client of the bridge receives. `socket` is what the proxy sends for a request, none if it cannot be reached. -/
def handleConnection (socket : Octets → Option (List Octets)) (stream : Octets) : Octets :=
  match readHttpRequest stream with
  | .error .closed => []
  | .error .incomplete => []
  | .error .raised => errorResponse "500" "Internal Server Error" "Internal bridge error"
  | .ok request_data =>
    match socket request_data with
    | none => errorResponse "502" "Bad Gateway" "LLM proxy unavailable"
    | some chunks => streamResponse chunks

end Bridge

section Proxy

/-- A call of `_emit_error`: with a message, or with that of an exception. -/
inductive Told
  | message (text : String)
  | proxyError
  deriving DecidableEq

/-- How `_parse_http_request` ends without a request. -/
inductive ProxyStop
  | closed
  | told (told : Told)
  | incomplete
  deriving DecidableEq

structure ProxyRequest where
  method : Text
  path : Text
  headers : List (Text × Text)
  body : Octets
  deriving DecidableEq

def requestLine (line : Octets) : Except ProxyStop (Text × Text) :=
  match decodeUtf8 line with
  | none => .error (.told (.message "Invalid request encoding"))
  | some text =>
    let request_line_str := strip text
    match request_line_str.dropWhile (· ≠ ' ') with
    | [] => .error (.told (.message "Malformed request line"))
    | _ :: rest => .ok (request_line_str.takeWhile (· ≠ ' '),rest.takeWhile (· ≠ ' '))

/-- The key and the value of a line, unless it cannot be decoded or has no colon. -/
def headerOf (line : Octets) : Option (Text × Text) :=
  (decodeUtf8 line).bind fun text =>
    let header_str := strip text
    if header_str.contains ':' then some (strip (header_str.takeWhile (· ≠ ':')),strip (afterColon header_str)) else none

/-- The loop of the proxy over the lines: `headers` and `content_length`, and what follows. A value that is no number leaves
the length as it was. -/
def readHeaders (headers : List (Text × Text)) (content_length : ℤ) :
    List Octets → Except ProxyStop (List (Text × Text) × ℤ × Octets)
  | [] => .ok (headers,content_length,[])
  | line :: lines =>
    if overruns line then .error (.told .proxyError)
    else if line = crlf then .ok (headers,content_length,lines.flatten)
    else match headerOf line with
      | none => readHeaders headers content_length lines
      | some (key,value) =>
        readHeaders (put key value headers)
          (if lower key = contentLengthKey then (intOfText value).getD content_length else content_length) lines

/-- The request that the proxy reads, and what it leaves on the stream. -/
def parseHttpRequest (stream : Octets) : Except ProxyStop (ProxyRequest × Octets) :=
  match linesOf stream with
  | [] => .error .closed
  | line :: lines =>
    if overruns line then .error (.told .proxyError)
    else do
      let (method,path) ← requestLine line
      let (headers,content_length,rest) ← readHeaders [] 0 lines
      if (maxBodySize : ℤ) < content_length then .error (.told (.message "Request body too large"))
      else if 0 < content_length then
        if rest.length < content_length.toNat then .error .incomplete
        else .ok (⟨method,path,headers,rest.take content_length.toNat⟩,rest.drop content_length.toNat)
      else .ok (⟨method,path,headers,[]⟩,rest)

/-- What the proxy uses of `httpx`: the method and the target that it puts on the wire, the target none for a URL that it
rejects; and the octets that `aiter_bytes` yields for a body, with whether it yields them without an error. -/
structure HttpClient where
  method : Text → Text
  target : Text → Option Text
  decoded : Option Text → Octets → Octets × Bool

/-- The request issued to LiteLLM. `httpx` adds headers of its own where these have none. -/
structure Issued where
  method : Text
  target : Text
  headers : List (Text × Text)
  body : Octets
  deriving DecidableEq

def droppedFromRequest : List Text := ["host","connection","transfer-encoding"].map String.toList

def forwardHeaders (headers : List (Text × Text)) : List (Text × Text) :=
  headers.filter fun header => !droppedFromRequest.contains (lower header.1)

/-- `client.stream`. Headers outside ASCII cannot be encoded. -/
def HttpClient.issue (client : HttpClient) (litellm_url : Text) (request : ProxyRequest) : Option Issued :=
  if ∀ header ∈ forwardHeaders request.headers, Ascii header.1 ∧ Ascii header.2 then
    (client.target (litellm_url ++ request.path)).map fun target =>
      ⟨client.method request.method,target,forwardHeaders request.headers,request.body⟩
  else none

/-- A response of LiteLLM: `items` are its headers as `httpx` lists them, `raw` the octets of its body. -/
structure Response where
  status : ℕ
  reason : Text
  items : List (Text × Text)
  raw : Octets

/-- What the proxy writes to its socket. -/
structure Reply where
  status : ℕ
  reason : Text
  headers : List (Text × Text)
  body : Octets
  deriving DecidableEq

def Reply.octets (reply : Reply) : Octets :=
  headOctets ((encodeUtf8 ("HTTP/1.1 ".toList ++ ((toString reply.status).toList ++ ' ' :: reply.reason))) ::
    reply.headers.map fun header => encodeUtf8 (header.1 ++ (": ".toList ++ header.2))) ++ reply.body

def droppedFromResponse : List Text := ["connection","keep-alive","transfer-encoding"].map String.toList

def nonCriticalPaths : List Text :=
  ["/api/event_logging/batch","/health","/health/liveliness","/health/readiness"].map String.toList

def errorMessage (status : ℕ) : String :=
  match status with
  | 400 => "Invalid request to LLM provider"
  | 401 => "Authentication failed - check your API credentials"
  | 403 => "Access denied - check your API permissions"
  | 404 => "Model not found - check your model configuration"
  | 429 => "Rate limit exceeded - please try again later"
  | 500 => "LLM provider internal error"
  | 502 => "LLM provider unavailable"
  | 503 => "LLM provider temporarily unavailable"
  | 504 => "LLM provider request timed out"
  | status => "LLM request failed (" ++ toString status ++ ")"

def contentEncoding (headers : List (Text × Text)) : Option Text := headers.lookup "content-encoding".toList

structure Forwarded where
  issued : Option Issued
  reply : Option Reply
  told : Option Told

def forwardRequest (client : HttpClient) (litellm_url : Text) (request : ProxyRequest) (response : Response) : Forwarded :=
  match client.issue litellm_url request with
  | none => ⟨none,none,some .proxyError⟩
  | some issued =>
    if 400 ≤ response.status then
      ⟨issued,none,if nonCriticalPaths.contains request.path then none else some (.message (errorMessage response.status))⟩
    else
      -- the body is written decoded, under the headers that it came with
      let body := client.decoded (contentEncoding response.items) response.raw
      ⟨issued,some ⟨response.status,response.reason,
        response.items.filter fun item => !droppedFromResponse.contains (lower item.1),body.1⟩,
        if body.2 then none else some .proxyError⟩

end Proxy
end LlmForwarding
end Allama
