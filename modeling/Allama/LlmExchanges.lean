import Allama.LlmReading

/-! The exchange of a request and its response: what LiteLLM is asked, and what the client in the sandbox receives. -/
namespace Allama
namespace LlmForwarding
open Http RecordFields
section Headers

theorem mem_put {k v : Text} {headers : List (Text × Text)} {x : Text × Text} (h : x ∈ put k v headers) :
    x = (k,v) ∨ x ∈ headers := by
  unfold put at h
  split_ifs at h with hfound
  · obtain ⟨header,hheader,rfl⟩ := List.mem_map.mp h
    split_ifs
    · exact .inl rfl
    · exact .inr hheader
  · exact (List.mem_append.mp h).elim .inr fun hnew => .inl (List.mem_singleton.mp hnew)

theorem filter_replaced {e : Text → Bool} {k : Text} (hk : e k = false) (v : Text) (headers : List (Text × Text)) :
    (headers.map fun header => if header.1 == k then (k,v) else header).filter (fun header => e header.1) =
      headers.filter fun header => e header.1 := by
  induction headers with
  | nil => rfl
  | cons header headers ih =>
    rw [List.map_cons, List.filter_cons, List.filter_cons, ih]
    by_cases hkey : header.1 = k
    · rw [if_pos (beq_iff_eq.mpr hkey), hkey, hk]
      rfl
    · have hsame : (if header.1 == k then (k,v) else header) = header := if_neg (by simpa using hkey)
      rw [hsame]

theorem filter_put_of_neg {e : Text → Bool} {k : Text} (hk : e k = false) (v : Text) (headers : List (Text × Text)) :
    (put k v headers).filter (fun header => e header.1) = headers.filter fun header => e header.1 := by
  unfold put
  split_ifs
  · exact filter_replaced hk v headers
  · rw [List.filter_append, List.filter_cons_of_neg (by simp [hk]), List.filter_nil, List.append_nil]

theorem put_of_notMem {k : Text} {headers : List (Text × Text)} (h : k ∉ headers.map Prod.fst) (v : Text) :
    put k v headers = headers ++ [(k,v)] := by
  unfold put
  rw [lookup_eq_none_of_notMem h]
  rfl

theorem headersOf_cons (headers : List (Text × Text)) {f : Field} (hf : Ascii f.value) (fields : List Field) :
    headersOf headers (f :: fields) = headersOf (put f.name f.value headers) fields := by
  unfold headersOf
  rw [List.foldl_cons, headerOf_ascii hf]

theorem keys_headersOf (fields : List Field) {headers : List (Text × Text)} (h : (headers.map Prod.fst).Nodup) :
    ((headersOf headers fields).map Prod.fst).Nodup := by
  induction fields generalizing headers with
  | nil => exact h
  | cons f fields ih =>
    unfold headersOf
    rw [List.foldl_cons]
    cases headerOf (f.line ++ crlf) with
    | none => exact ih h
    | some header => exact ih (keys_put header.1 header.2 h)

theorem mem_headersOf {fields : List Field} (hascii : ∀ f ∈ fields, Ascii f.value) {headers : List (Text × Text)}
    {x : Text × Text} (h : x ∈ headersOf headers fields) : x ∈ headers ∨ ∃ f ∈ fields, x = (f.name,f.value) := by
  induction fields generalizing headers with
  | nil => exact .inl h
  | cons f fields ih =>
    rw [headersOf_cons headers (hascii f List.mem_cons_self)] at h
    obtain hput | ⟨g,hg,rfl⟩ := ih (fun g hg => hascii g (List.mem_cons_of_mem f hg)) h
    · obtain rfl | hold := mem_put hput
      · exact .inr ⟨f,List.mem_cons_self,rfl⟩
      · exact .inl hold
    · exact .inr ⟨g,List.mem_cons_of_mem f hg,rfl⟩

/-- Among the names that `e` admits, and that do not come twice, the dict keeps the fields in their order. -/
theorem filter_headersOf {e : Text → Bool} {fields : List Field} (hascii : ∀ f ∈ fields, Ascii f.value)
    {headers : List (Text × Text)}
    (hnodup : ((headers.filter fun header => e header.1).map Prod.fst ++
      (fields.filter fun f => e f.name).map Field.name).Nodup) :
    (headersOf headers fields).filter (fun header => e header.1) =
      (headers.filter fun header => e header.1) ++ (fields.filter fun f => e f.name).map fun f => (f.name,f.value) := by
  induction fields generalizing headers with
  | nil => exact (List.append_nil _).symm
  | cons f fields ih =>
    have hrest : ∀ g ∈ fields, Ascii g.value := fun g hg => hascii g (List.mem_cons_of_mem f hg)
    rw [headersOf_cons headers (hascii f List.mem_cons_self)]
    cases hf : e f.name with
    | false =>
      rw [List.filter_cons_of_neg (by simp [hf])] at hnodup ⊢
      have hput := filter_put_of_neg hf f.value headers
      rw [ih hrest (by rwa [hput]), hput]
    | true =>
      rw [List.filter_cons_of_pos (p := fun g : Field => e g.name) hf, List.map_cons] at hnodup
      -- the name is new to the dict, so the field is put at its end
      have hnew : f.name ∉ headers.map Prod.fst := by
        intro hmem
        obtain ⟨header,hheader,hname⟩ := List.mem_map.mp hmem
        have hkept : f.name ∈ (headers.filter fun header => e header.1).map Prod.fst := by
          refine List.mem_map.mpr ⟨header,List.mem_filter.mpr ⟨hheader,?_⟩,hname⟩
          rw [hname]
          exact hf
        exact (List.disjoint_of_nodup_append hnodup) hkept List.mem_cons_self
      have hput : (put f.name f.value headers).filter (fun header => e header.1) =
          (headers.filter fun header => e header.1) ++ [(f.name,f.value)] := by
        rw [put_of_notMem hnew, List.filter_append, List.filter_cons_of_pos (p := fun header : Text × Text => e header.1) hf]
        rfl
      rw [ih hrest (by rw [hput, List.map_append, List.append_assoc]; exact hnodup), hput, List.append_assoc,
        List.filter_cons_of_pos (p := fun g : Field => e g.name) hf]
      rfl

end Headers

section Requests
variable (client : HttpClient) (litellm_url : Text)

/-- The request issued is that of the client, but for the fields of the connection. -/
structure Same (r : Request) (issued : Issued) : Prop where
  method : issued.method = r.method
  target : issued.target = r.target
  body : issued.body = r.framing.content
  headers : issued.headers.filter (fun header => endToEnd header.1) =
    (r.fields.filter fun f => endToEnd f.name).map fun f => (f.name,f.value)

/-- What the two parsers and `httpx` pass on unchanged: a method and a target that `httpx` leaves as they are, a body whose
length is told, end-to-end fields that do not come twice under one spelling, with values in ASCII. -/
structure Plain (r : Request) : Prop where
  method : client.method r.method = r.method
  target : client.target (litellm_url ++ r.target) = some r.target
  body : carried r.framing = r.framing.content
  names : ((r.fields.filter fun f => endToEnd f.name).map Field.name).Nodup
  values : ∀ f ∈ r.fields, endToEnd f.name = true → Ascii f.value

/-- The request that the proxy reads. -/
def readRequest (r : Request) : ProxyRequest := ⟨r.method,r.target,headersOf [] r.fields,carried r.framing⟩

variable {client litellm_url} {r : Request}

theorem forwarded_of_endToEnd {name : Text} (h : endToEnd name = true) : droppedFromRequest.contains (lower name) = false := by
  have hdropped : ∀ key ∈ droppedFromRequest, hopByHop.contains key = true := by decide
  cases hcontains : droppedFromRequest.contains (lower name) with
  | false => rfl
  | true =>
    have hhop := hdropped _ (List.contains_iff_mem.mp hcontains)
    unfold endToEnd at h
    rw [hhop] at h
    cases h

theorem filter_forwardHeaders (headers : List (Text × Text)) :
    (forwardHeaders headers).filter (fun header => endToEnd header.1) = headers.filter fun header => endToEnd header.1 := by
  unfold forwardHeaders
  rw [List.filter_filter]
  apply List.filter_congr
  intro header _
  cases hheader : endToEnd header.1 with
  | false => rfl
  | true => rw [forwarded_of_endToEnd hheader]; rfl

theorem issue_eq_some {request : ProxyRequest} {issued : Issued} :
    client.issue litellm_url request = some issued ↔
      (∀ header ∈ forwardHeaders request.headers, Ascii header.1 ∧ Ascii header.2) ∧
        ∃ target, client.target (litellm_url ++ request.path) = some target ∧
          issued = ⟨client.method request.method,target,forwardHeaders request.headers,request.body⟩ := by
  unfold HttpClient.issue
  split_ifs with hascii
  · rw [Option.map_eq_some_iff]
    constructor
    · rintro ⟨target,htarget,hissued⟩
      exact ⟨hascii,target,htarget,hissued.symm⟩
    · rintro ⟨_,target,htarget,hissued⟩
      exact ⟨target,htarget,hissued.symm⟩
  · constructor
    · intro h
      cases h
    · intro h
      exact absurd h.1 hascii

theorem Plain.ascii (h : Plain client litellm_url r) : ∀ f ∈ r.fields, Ascii f.value := by
  intro f hf
  cases hend : endToEnd f.name with
  | true => exact h.values f hf hend
  | false => exact r.hops_ascii f hf hend

theorem Plain.issued (h : Plain client litellm_url r) :
    ∃ issued, client.issue litellm_url (readRequest r) = some issued ∧ Same r issued := by
  refine ⟨⟨client.method r.method,r.target,forwardHeaders (headersOf [] r.fields),carried r.framing⟩,?_,?_⟩
  · refine issue_eq_some.mpr ⟨?_,r.target,h.target,rfl⟩
    intro header hheader
    obtain hnil | ⟨f,hf,rfl⟩ := mem_headersOf h.ascii (List.mem_filter.mp hheader).1
    · cases hnil
    · exact ⟨ascii_of_visible fun c hc => isVisible_of_token (f.name_token.2 c hc),h.ascii f hf⟩
  · exact ⟨h.method,rfl,h.body,(filter_forwardHeaders _).trans (@filter_headersOf endToEnd r.fields h.ascii [] h.names)⟩

theorem issued_same_iff :
    (∃ issued, client.issue litellm_url (readRequest r) = some issued ∧ Same r issued) ↔ Plain client litellm_url r := by
  refine ⟨?_,Plain.issued⟩
  rintro ⟨issued,hissued,hsame⟩
  obtain ⟨hascii,target,htarget,rfl⟩ := issue_eq_some.mp hissued
  have hheaders := hsame.headers
  have hnodup : ((forwardHeaders (headersOf [] r.fields)).map Prod.fst).Nodup :=
    (@keys_headersOf r.fields [] List.nodup_nil).sublist (List.filter_sublist.map Prod.fst)
  have hsent : target = r.target := hsame.target
  subst hsent
  refine ⟨hsame.method,htarget,hsame.body,?_,?_⟩
  · have hkeys := congrArg (List.map Prod.fst) hheaders
    rw [List.map_map] at hkeys
    exact hkeys ▸ hnodup.sublist (List.filter_sublist.map Prod.fst)
  · intro f hf hend
    have hmem : (f.name,f.value) ∈ (r.fields.filter fun f => endToEnd f.name).map fun f => (f.name,f.value) :=
      List.mem_map.mpr ⟨f,List.mem_filter.mpr ⟨hf,hend⟩,rfl⟩
    rw [← hheaders] at hmem
    exact (hascii _ (List.mem_filter.mp hmem).1).2

end Requests

section Responses
variable (client : HttpClient) (method : Octets)

structure HeadWellFormed (status : ℕ) (reason : Text) (headers : List (Text × Text)) : Prop where
  status_final : 200 ≤ status ∧ status < 600
  reason_line : '\r' ∉ reason ∧ '\n' ∉ reason
  names : ∀ header ∈ headers, IsToken header.1
  values : ∀ header ∈ headers, '\r' ∉ header.2 ∧ '\n' ∉ header.2
  keys : (headers.map Prod.fst).Nodup

def bodyless (status : ℕ) : Bool := method = "HEAD".toList || status = 204 || status = 304

def IsLength (value : Text) (n : ℕ) : Prop := value ≠ [] ∧ (∀ c ∈ value, IsDigit c) ∧ number value = n

/-- The headers of a response tell the length of its body, if they tell one, and the coding under which it is the content. -/
structure Describes (status : ℕ) (headers : List (Text × Text)) (body content : Octets) : Prop where
  empty : bodyless method status = true → body = []
  length : bodyless method status = false → ∀ value, headers.lookup contentLengthKey = some value →
    IsLength value body.length
  coding : bodyless method status = false → client.decoded (contentEncoding headers) body = (content,true)

/-- A well-formed response of LiteLLM with its content. Of no octets nothing is decoded. -/
structure Answers (response : Response) (content : Octets) : Prop where
  head : HeadWellFormed response.status response.reason response.items
  describes : Describes client method response.status response.items response.raw content
  nothing : bodyless method response.status = true → content = [] ∧
    client.decoded (contentEncoding response.items) [] = ([],true)

/-- The content of the response is its body, as far as its headers tell. -/
def Unencoded (response : Response) (content : Octets) : Prop :=
  bodyless method response.status = true ∨
    (∀ value, response.items.lookup contentLengthKey = some value → response.raw.length = content.length) ∧
      client.decoded (contentEncoding response.items) content = (content,true)

def replyOf (response : Response) : Reply :=
  ⟨response.status,response.reason,response.items.filter fun item => !droppedFromResponse.contains (lower item.1),
    (client.decoded (contentEncoding response.items) response.raw).1⟩

variable {client method} {response : Response} {content : Octets}

theorem Answers.decoded (h : Answers client method response content) :
    client.decoded (contentEncoding response.items) response.raw = (content,true) := by
  cases hbodyless : bodyless method response.status with
  | true =>
    obtain ⟨rfl,hnothing⟩ := h.nothing hbodyless
    rw [h.describes.empty hbodyless]
    exact hnothing
  | false => exact h.describes.coding hbodyless

theorem lookup_replyOf {key : Text} (h : droppedFromResponse.contains (lower key) = false) :
    (replyOf client response).headers.lookup key = response.items.lookup key := by
  refine (lookup_filter_key (fun name => !droppedFromResponse.contains (lower name)) response.items key).trans ?_
  rw [h]
  rfl

theorem replyOf_wellFormed (h : Answers client method response content) :
    HeadWellFormed (replyOf client response).status (replyOf client response).reason (replyOf client response).headers where
  status_final := h.head.status_final
  reason_line := h.head.reason_line
  names := fun header hheader => h.head.names header (List.mem_filter.mp hheader).1
  values := fun header hheader => h.head.values header (List.mem_filter.mp hheader).1
  keys := h.head.keys.sublist (List.filter_sublist.map Prod.fst)

theorem replyOf_describes_iff (h : Answers client method response content) :
    Describes client method response.status (replyOf client response).headers (replyOf client response).body content ↔
      Unencoded client method response content := by
  have hbody : (replyOf client response).body = content := congrArg Prod.fst h.decoded
  have hlength : (replyOf client response).headers.lookup contentLengthKey = response.items.lookup contentLengthKey :=
    lookup_replyOf (by decide)
  have hcoding : contentEncoding (replyOf client response).headers = contentEncoding response.items :=
    lookup_replyOf (by decide)
  rw [hbody]
  constructor
  · intro hdescribes
    cases hbodyless : bodyless method response.status with
    | true => exact .inl hbodyless
    | false =>
      refine .inr ⟨?_,hcoding ▸ hdescribes.coding hbodyless⟩
      intro value hvalue
      have hraw := h.describes.length hbodyless value hvalue
      have hcontent := hdescribes.length hbodyless value (hlength.trans hvalue)
      exact hraw.2.2.symm.trans hcontent.2.2
  · intro hunencoded
    refine ⟨fun hbodyless => (h.nothing hbodyless).1,?_,?_⟩
    · intro hbodyless value hvalue
      obtain hempty | ⟨hsame,_⟩ := hunencoded
      · rw [hbodyless] at hempty
        cases hempty
      · rw [hlength] at hvalue
        have hraw := h.describes.length hbodyless value hvalue
        exact ⟨hraw.1,hraw.2.1,hraw.2.2.trans (hsame value hvalue)⟩
    · intro hbodyless
      obtain hempty | ⟨_,hdecoded⟩ := hunencoded
      · rw [hbodyless] at hempty
        cases hempty
      · rw [hcoding]
        exact hdecoded

end Responses

section Exchanges
variable (client : HttpClient) (litellm_url : Text)

/-- The client on the connection `stream` receives these octets, in whatever chunks the proxy's answer to `data` comes. -/
def Receives (stream data octets : Octets) : Prop :=
  ∀ chunks : List Octets, (∀ chunk ∈ chunks, chunk ≠ []) → chunks.flatten = octets →
    handleConnection (fun request_data => if request_data = data then some chunks else none) stream = octets

/-- The exchange is as without a bridge and a proxy: both see the same end of the body, LiteLLM is asked what the client asks,
and the client receives a response with the status of LiteLLM's whose headers describe its body. -/
def Faithful (r : Request) (response : Response) (content later : Octets) : Prop :=
  ∃ data request, readHttpRequest (r.wire ++ later) = .ok data ∧ parseHttpRequest data = .ok (request,[]) ∧
    (∃ issued, (forwardRequest client litellm_url request response).issued = some issued ∧ Same r issued) ∧
    ∃ reply, (forwardRequest client litellm_url request response).reply = some reply ∧
      Receives (r.wire ++ later) data reply.octets ∧ reply.status = response.status ∧
      HeadWellFormed reply.status reply.reason reply.headers ∧
      Describes client r.method response.status reply.headers reply.body content

variable {client litellm_url} {r : Request} {response : Response} {content : Octets}

theorem streamResponse_chunks {chunks : List Octets} (h : ∀ chunk ∈ chunks, chunk ≠ []) :
    streamResponse chunks = chunks.flatten := by
  induction chunks with
  | nil => rfl
  | cons chunk chunks ih =>
    rw [streamResponse, if_neg (h chunk List.mem_cons_self), ih fun c hc => h c (List.mem_cons_of_mem chunk hc)]
    rfl

theorem receives {stream data : Octets} (h : readHttpRequest stream = .ok data) (octets : Octets) :
    Receives stream data octets := by
  intro chunks hchunks hflatten
  unfold handleConnection
  rw [h]
  dsimp only
  rw [if_pos rfl]
  exact (streamResponse_chunks hchunks).trans hflatten

theorem forwardRequest_error {request : ProxyRequest} {issued : Issued} (h : client.issue litellm_url request = some issued)
    (hstatus : 400 ≤ response.status) : forwardRequest client litellm_url request response =
      ⟨issued,none,if nonCriticalPaths.contains request.path then none else some (.message (errorMessage response.status))⟩ := by
  unfold forwardRequest
  rw [h]
  exact if_pos hstatus

theorem forwardRequest_ok {request : ProxyRequest} {issued : Issued} (h : client.issue litellm_url request = some issued)
    (hstatus : response.status < 400) :
    (forwardRequest client litellm_url request response).issued = some issued ∧
      (forwardRequest client litellm_url request response).reply = some (replyOf client response) := by
  unfold forwardRequest
  rw [h]
  dsimp only
  rw [if_neg (by omega)]
  exact ⟨rfl,rfl⟩

theorem issued_forwardRequest (request : ProxyRequest) :
    (forwardRequest client litellm_url request response).issued = client.issue litellm_url request := by
  unfold forwardRequest
  cases client.issue litellm_url request with
  | none => rfl
  | some issued =>
    dsimp only
    split_ifs <;> rfl

theorem faithful_iff (hlimits : WithinLimits r) (hanswers : Answers client r.method response content) (later : Octets) :
    Faithful client litellm_url r response content later ↔
      Plain client litellm_url r ∧ response.status < 400 ∧ Unencoded client r.method response content := by
  have hread := readHttpRequest_wire hlimits later
  have hparse := parseHttpRequest_head hlimits
  constructor
  · rintro ⟨data,request,hdata,hrequest,⟨issued,hissued,hsame⟩,reply,hreply,_,_,_,hdescribes⟩
    obtain rfl := Except.ok.inj (hdata.symm.trans hread)
    obtain rfl := congrArg Prod.fst (Except.ok.inj (hrequest.symm.trans hparse))
    rw [issued_forwardRequest] at hissued
    refine ⟨issued_same_iff.mp ⟨issued,hissued,hsame⟩,?_⟩
    have hstatus : response.status < 400 := by
      by_contra hnot
      rw [forwardRequest_error hissued (by omega)] at hreply
      cases hreply
    obtain rfl := Option.some.inj (hreply.symm.trans (forwardRequest_ok hissued hstatus).2)
    exact ⟨hstatus,(replyOf_describes_iff hanswers).mp hdescribes⟩
  · rintro ⟨hplain,hstatus,hunencoded⟩
    obtain ⟨issued,hissued,hsame⟩ := hplain.issued
    obtain ⟨hforwarded,hreply⟩ := forwardRequest_ok hissued hstatus
    exact ⟨_,_,hread,hparse,⟨issued,hforwarded,hsame⟩,_,hreply,receives hread _,rfl,replyOf_wellFormed hanswers,
      (replyOf_describes_iff hanswers).mpr hunencoded⟩

/-- The bridge and the proxy take the same body of every request. A plain one is issued unchanged; the response to it reaches the
client if it is no error and not encoded. An error is told to the host alone, unless the path is one of those not critical. -/
theorem exchange_correct (hlimits : WithinLimits r) (hanswers : Answers client r.method response content) (later : Octets) :
    ∃ data, readHttpRequest (r.wire ++ later) = .ok data ∧ parseHttpRequest data = .ok (readRequest r,[]) ∧
      (Plain client litellm_url r →
        (∃ issued, (forwardRequest client litellm_url (readRequest r) response).issued = some issued ∧ Same r issued) ∧
        (response.status < 400 → Unencoded client r.method response content →
          ∃ reply, (forwardRequest client litellm_url (readRequest r) response).reply = some reply ∧
            Receives (r.wire ++ later) data reply.octets ∧ reply.status = response.status ∧
            HeadWellFormed reply.status reply.reason reply.headers ∧
            Describes client r.method response.status reply.headers reply.body content) ∧
        (400 ≤ response.status →
          (forwardRequest client litellm_url (readRequest r) response).reply = none ∧ Receives (r.wire ++ later) data [] ∧
            (forwardRequest client litellm_url (readRequest r) response).told =
              if nonCriticalPaths.contains r.target then none else some (.message (errorMessage response.status)))) := by
  have hread := readHttpRequest_wire hlimits later
  refine ⟨_,hread,parseHttpRequest_head hlimits,?_⟩
  intro hplain
  obtain ⟨issued,hissued,hsame⟩ := hplain.issued
  refine ⟨⟨issued,(issued_forwardRequest _).trans hissued,hsame⟩,?_,?_⟩
  · intro hstatus hunencoded
    exact ⟨_,(forwardRequest_ok hissued hstatus).2,receives hread _,rfl,replyOf_wellFormed hanswers,
      (replyOf_describes_iff hanswers).mpr hunencoded⟩
  · intro hstatus
    rw [forwardRequest_error hissued hstatus]
    exact ⟨rfl,receives hread [],rfl⟩

end Exchanges

section Sample

def sampleField (name value : Octets) (hname : IsToken name) (hvalue : value.all isFieldChar = true)
    (hends : (value.head?.all fun c => !isBlank c) = true ∧ (value.getLast?.all fun c => !isBlank c) = true) : Field where
  name := name
  before := [' ']
  value := value
  after := []
  name_token := hname
  before_blank := List.all_eq_true.mp (by decide)
  after_blank := List.all_eq_true.mp (by decide)
  value_chars := List.all_eq_true.mp hvalue
  value_first := by
    intro c hc
    have hblank := hends.1
    rw [hc, Option.all_some, Bool.not_eq_true'] at hblank
    exact hblank
  value_last := by
    intro c hc
    have hblank := hends.2
    rw [hc, Option.all_some, Bool.not_eq_true'] at hblank
    exact hblank

def hostField : Field :=
  sampleField "Host".toList "127.0.0.1:4000".toList (isToken_of (by decide) (by decide)) (by decide) (by decide)

def lengthField : Field :=
  sampleField "Content-Length".toList "2".toList (isToken_of (by decide) (by decide)) (by decide) (by decide)

def chunkedField : Field :=
  sampleField "Transfer-Encoding".toList "chunked".toList (isToken_of (by decide) (by decide)) (by decide) (by decide)

def samplePost (fields : List Field) (framing : Framing) (hframing : framing.WellFormed)
    (hlengths : (fields.filter (Field.named contentLengthKey)).map Field.value = framing.lengths)
    (hcoded : (∃ f ∈ fields, f.named transferEncodingKey = true) ↔ ∃ chunks, framing = .chunked chunks)
    (hhops : ∀ f ∈ fields, endToEnd f.name = false → Ascii f.value) : Request where
  method := "POST".toList
  target := "/v1/messages".toList
  fields := fields
  framing := framing
  method_token := isToken_of (by decide) (by decide)
  target_visible := ⟨by decide,List.all_eq_true.mp (by decide)⟩
  framing_wellFormed := hframing
  lengths_eq := hlengths
  coded_iff := hcoded
  hops_ascii := hhops

def sizedPost : Request :=
  samplePost [hostField,lengthField] (.sized ['2'] "\x7b\x7d".toList) ⟨by decide,isDigits_of (by decide),by decide⟩ (by decide)
    ⟨fun h => absurd h (by decide),fun h => by obtain ⟨_,h⟩ := h; cases h⟩ (by decide)

def chunkedPost : Request :=
  samplePost [hostField,chunkedField] (.chunked ["\x7b\x7d".toList]) (by unfold Framing.WellFormed; decide) (by decide)
    ⟨fun _ => ⟨_,rfl⟩,fun _ => by decide⟩ (by decide)

def litellmUrl : Text := "http://127.0.0.1:4000".toList

/-- The octets of an object of `gzip` whose content is a pair of braces. -/
def gzipped : Octets := [31,139,8,0,0,0,0,0,2,3,171,174,5,0,67,191,166,163,2,0,0,0].map Char.ofNat

def sampleClient : HttpClient where
  method := id
  target := fun url => if litellmUrl.isPrefixOf url then some (url.drop litellmUrl.length) else none
  decoded := fun coding raw =>
    if coding = none then (raw,true) else if raw = gzipped then ("\x7b\x7d".toList,true) else ([],false)

def sampleResponse (status : ℕ) (items : List (Text × Text)) (raw : Octets) : Response :=
  ⟨status,"".toList,items,raw⟩

def lengthItem (value : String) : Text × Text := (contentLengthKey,value.toList)

def encodedItem : Text × Text := ("content-encoding".toList,"gzip".toList)

theorem answers_plain {status : ℕ} (hstatus : 200 ≤ status ∧ status < 600)
    (hbody : bodyless "POST".toList status = false) :
    Answers sampleClient "POST".toList (sampleResponse status [lengthItem "2"] "\x7b\x7d".toList) "\x7b\x7d".toList := by
  have hnames : ∀ header ∈ [lengthItem "2"], IsToken header.1 := by
    intro header hheader
    obtain rfl := List.mem_singleton.mp hheader
    exact isToken_of (by decide) (by decide)
  have hhead : HeadWellFormed status "".toList [lengthItem "2"] :=
    ⟨hstatus,by decide,hnames,by decide,by decide⟩
  have hlength : ∀ value, [lengthItem "2"].lookup contentLengthKey = some value →
      IsLength value "\x7b\x7d".toList.length := by
    intro value hvalue
    cases hvalue
    exact ⟨by decide,isDigits_of (by decide),by decide⟩
  refine ⟨hhead,⟨?_,fun _ => hlength,fun _ => rfl⟩,?_⟩
  · intro hbodyless
    exact absurd (hbody.symm.trans hbodyless) (by decide)
  · intro hbodyless
    exact absurd (hbody.symm.trans hbodyless) (by decide)

theorem answers_gzipped :
    Answers sampleClient "POST".toList (sampleResponse 200 [lengthItem "22",encodedItem] gzipped) "\x7b\x7d".toList := by
  refine ⟨⟨by decide,by decide,?_,by decide,by decide⟩,⟨?_,?_,fun _ => by decide⟩,?_⟩
  · intro header hheader
    obtain rfl | hlast := List.mem_cons.mp hheader
    · exact isToken_of (by decide) (by decide)
    · obtain rfl := List.mem_singleton.mp hlast
      exact isToken_of (by decide) (by decide)
  · intro hbodyless
    exact absurd hbodyless (by decide)
  · intro _ value hvalue
    cases hvalue
    exact ⟨by decide,isDigits_of (by decide),by decide⟩
  · intro hbodyless
    exact absurd hbodyless (by decide)

theorem withinLimits_sized : WithinLimits sizedPost := ⟨by decide,by decide⟩

theorem withinLimits_chunked : WithinLimits chunkedPost := ⟨by decide,by decide⟩

theorem plain_sized : Plain sampleClient litellmUrl sizedPost :=
  ⟨rfl,by decide,by decide,by decide,by decide⟩

theorem exchange_correct_post :
    (∃ issued, (forwardRequest sampleClient litellmUrl (readRequest sizedPost)
      (sampleResponse 200 [lengthItem "2"] "\x7b\x7d".toList)).issued = some issued ∧ Same sizedPost issued) ∧
    ∃ reply, (forwardRequest sampleClient litellmUrl (readRequest sizedPost)
      (sampleResponse 200 [lengthItem "2"] "\x7b\x7d".toList)).reply = some reply ∧ reply.status = 200 ∧
      Describes sampleClient "POST".toList 200 reply.headers reply.body "\x7b\x7d".toList := by
  obtain ⟨data,_,_,hplain⟩ := @exchange_correct sampleClient litellmUrl _ _ _ withinLimits_sized
    (answers_plain (by decide : 200 ≤ 200 ∧ 200 < 600) (by decide)) []
  obtain ⟨hissued,hreply,_⟩ := hplain plain_sized
  have hunencoded : Unencoded sampleClient "POST".toList (sampleResponse 200 [lengthItem "2"] "\x7b\x7d".toList)
      "\x7b\x7d".toList := .inr ⟨fun _ _ => rfl,rfl⟩
  obtain ⟨reply,hwritten,_,hstatus,_,hdescribes⟩ := hreply (by decide) hunencoded
  exact ⟨hissued,reply,hwritten,hstatus,hdescribes⟩

/-- An error does not reach the client, a chunked body does not reach LiteLLM, and an encoded response is described wrongly. -/
theorem exchanges_unfaithful :
    ¬ Faithful sampleClient litellmUrl sizedPost (sampleResponse 429 [lengthItem "2"] "\x7b\x7d".toList) "\x7b\x7d".toList [] ∧
    ¬ Faithful sampleClient litellmUrl chunkedPost (sampleResponse 200 [lengthItem "2"] "\x7b\x7d".toList) "\x7b\x7d".toList [] ∧
    ¬ Faithful sampleClient litellmUrl sizedPost (sampleResponse 200 [lengthItem "22",encodedItem] gzipped)
      "\x7b\x7d".toList [] := by
  refine ⟨?_,?_,?_⟩
  · rw [faithful_iff withinLimits_sized (answers_plain (by decide) (by decide))]
    rintro ⟨_,hstatus,_⟩
    exact absurd hstatus (by decide)
  · rw [faithful_iff withinLimits_chunked (answers_plain (by decide) (by decide))]
    rintro ⟨hplain,_,_⟩
    exact absurd hplain.body (by decide)
  · rw [faithful_iff withinLimits_sized answers_gzipped]
    rintro ⟨_,_,hunencoded⟩
    obtain hbodyless | ⟨_,hdecoded⟩ := hunencoded
    · exact absurd hbodyless (by decide)
    · exact absurd hdecoded (by decide)

end Sample
end LlmForwarding
end Allama
