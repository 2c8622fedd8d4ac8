-- SUMMARY: The class of the HTTP server's responses (http_response.cpp, http_response.h), over any sequence of calls.
import LinuxNet.Base.MapOrder
import LinuxNet.Base.Printf
import LinuxNet.HttpServer.Containment
import LinuxNet.HttpServer.RoundTrip

/-! # HTTPResponse

A response is an object with a status, headers and a body, which the calls to it
change. The router's responses are some of these objects. -/

namespace LinuxNet.HttpServer

/-- The members of an `HTTPResponse`. -/
structure Response where
  status : BitVec 32
  headers : Headers
  body : Bytes

namespace Response

/-- The constructor does nothing with its arguments. `m_status` is what has been in
memory. -/
def construct (memory _code : BitVec 32) (_body : Bytes) : Response := ⟨memory, fun _ => none, []⟩

def setStatus (status : BitVec 32) (r : Response) : Response := { r with status := status }

def setHeader (key val : Bytes) (r : Response) : Response :=
  { r with headers := Function.update r.headers key (some val) }

def setBody (body : Bytes) (r : Response) : Response :=
  { r with body := body }.setHeader contentLength (decimal body.length)

/-- The first line of `to_string`. -/
def statusLine (status : BitVec 32) : Bytes :=
  bytesOf "HTTP/1.1 " ++ printInt status ++ bytesOf " " ++
    HTTPResponse.codeToMessage status.toNat ++ bytesOf "\r\n"

/-- `to_string`, where the loop goes through the headers in some order. -/
def toBytes (order : List (Bytes × Bytes)) (r : Response) : Bytes :=
  statusLine r.status ++
    (order.flatMap fun header => header.1 ++ bytesOf ":" ++ header.2 ++ bytesOf "\r\n") ++
    bytesOf "Content-Length: " ++ decimal r.body.length ++ bytesOf "\r\n" ++ bytesOf "\r\n" ++
    r.body

/-- A call to a response. -/
inductive Call
  | setStatus (status : BitVec 32)
  | setBody (body : Bytes)
  | setHeader (key val : Bytes)

def Call.run : Call → Response → Response
  | .setStatus status => Response.setStatus status
  | .setBody body => Response.setBody body
  | .setHeader key val => Response.setHeader key val

/-- The object that has been constructed and then called. -/
def built (memory code : BitVec 32) (body : Bytes) (calls : List Call) : Response :=
  calls.foldl (fun r call => call.run r) (construct memory code body)

/-! ## What has been set -/

def Call.status : Call → Option (BitVec 32)
  | .setStatus status => some status
  | .setBody _ | .setHeader _ _ => none

def Call.body : Call → Option Bytes
  | .setBody body => some body
  | .setStatus _ | .setHeader _ _ => none

def Call.header : Call → Option (Bytes × Bytes)
  | .setHeader key val => some (key, val)
  | .setStatus _ | .setBody _ => none

/-- The last status set. -/
def lastStatus (calls : List Call) : Option (BitVec 32) := (calls.filterMap Call.status).getLast?

/-- The last body set. -/
def lastBody (calls : List Call) : Option Bytes := (calls.filterMap Call.body).getLast?

/-- The last value set for a key. -/
def lastHeader (calls : List Call) : Headers :=
  fun key => lastValue key (calls.filterMap Call.header)

variable {memory code : BitVec 32} {body : Bytes} {calls : List Call} {call : Call} {r : Response}

theorem built_concat : built memory code body (calls ++ [call]) =
    call.run (built memory code body calls) := List.foldl_concat ..

theorem lastStatus_concat :
    lastStatus (calls ++ [call]) = call.status.or (lastStatus calls) := by
  cases call <;> simp [lastStatus, Call.status]

theorem lastBody_concat : lastBody (calls ++ [call]) = call.body.or (lastBody calls) := by
  cases call <;> simp [lastBody, Call.body]

theorem lastValue_concat {key : Bytes} {fields : List (Bytes × Bytes)} {f : Bytes × Bytes} :
    lastValue key (fields ++ [f]) = if key = f.1 then some f.2 else lastValue key fields := by
  unfold lastValue
  rw [List.reverse_append, List.reverse_singleton, List.singleton_append, List.lookup_cons]
  by_cases hkey : key = f.1
  · simp [hkey]
  · have hne : (key == f.1) = false := beq_false_of_ne hkey
    simp [hkey, hne]

theorem lastHeader_concat : lastHeader (calls ++ [call]) =
    call.header.elim (lastHeader calls) fun f =>
      Function.update (lastHeader calls) f.1 (some f.2) := by
  funext key
  rw [lastHeader, List.filterMap_append]
  cases call with
  | setStatus status => exact congrArg (lastValue key) (List.append_nil _)
  | setBody body => exact congrArg (lastValue key) (List.append_nil _)
  | setHeader k val =>
    exact lastValue_concat.trans (Function.update_apply (lastHeader calls) k (some val) key).symm

/-- The members after any calls. The constructor's arguments are in none of them. -/
theorem built_spec (memory code : BitVec 32) (body : Bytes) (calls : List Call) :
    (built memory code body calls).status = (lastStatus calls).getD memory ∧
    (built memory code body calls).body = (lastBody calls).getD [] ∧
    ∀ key ≠ contentLength,
      (built memory code body calls).headers key = lastHeader calls key := by
  induction calls using List.reverseRecOn with
  | nil => exact ⟨rfl, rfl, fun _ _ => rfl⟩
  | append_singleton calls call ih =>
    obtain ⟨hstatus, hbody, hheaders⟩ := ih
    rw [built_concat, lastStatus_concat, lastBody_concat, lastHeader_concat]
    cases call with
    | setStatus status => exact ⟨rfl, hbody, hheaders⟩
    | setBody body' =>
      exact ⟨hstatus, rfl, fun key hkey =>
        (Function.update_of_ne hkey _ _).trans (hheaders key hkey)⟩
    | setHeader k val =>
      refine ⟨hstatus, hbody, fun key hkey => ?_⟩
      have hupdate : Function.update (built memory code body calls).headers k (some val) key =
          Function.update (lastHeader calls) k (some val) key := by
        rw [Function.update_apply, Function.update_apply, hheaders key hkey]
      exact hupdate

/-- What holds for the headers set, and for every Content-Length, holds for all
headers. -/
theorem built_headers {P : Bytes → Bytes → Prop}
    (hset : ∀ key val, .setHeader key val ∈ calls → P key val)
    (hlength : ∀ n, P contentLength (decimal n)) {key val : Bytes}
    (hval : (built memory code body calls).headers key = some val) : P key val := by
  induction calls using List.reverseRecOn with
  | nil => cases hval
  | append_singleton calls call ih =>
    replace ih := ih fun k v hmem => hset k v (List.mem_append_left _ hmem)
    have hupdate : ∀ {k v : Bytes}, P k v →
        Function.update (built memory code body calls).headers k (some v) key = some val →
          P key val := fun {k v} hP hval => by
      by_cases hkey : key = k
      · rw [hkey, Function.update_self] at hval
        obtain rfl := Option.some.inj hval
        rwa [hkey]
      · rw [Function.update_of_ne hkey] at hval
        exact ih hval
    rw [built_concat] at hval
    cases call with
    | setStatus status => exact ih hval
    | setBody body' => exact hupdate (hlength _) hval
    | setHeader k v => exact hupdate (hset k v (by simp)) hval

/-! ## The bytes of a response -/

/-- The line that the loop writes for a header, without a space. -/
def headerLine (f : Bytes × Bytes) : Bytes := f.1 ++ colon :: (f.2 ++ [carriageReturn])

/-- The first line up to its newline. -/
def firstLine (status : BitVec 32) : Bytes :=
  bytesOf "HTTP/1.1" ++ space :: (printInt status ++ space ::
    (HTTPResponse.codeToMessage status.toNat ++ [carriageReturn]))

/-- The lines of the headers, and the length that is written behind them. -/
def lines (order : List (Bytes × Bytes)) (r : Response) : List Bytes :=
  order.map headerLine ++ [fieldLine (contentLength, decimal r.body.length)]

theorem toBytes_eq_message (order : List (Bytes × Bytes)) (r : Response) :
    r.toBytes order = message (firstLine r.status) (r.lines order) r.body := by
  have hline : ∀ f : Bytes × Bytes, f.1 ++ bytesOf ":" ++ f.2 ++ bytesOf "\r\n" =
      headerLine f ++ [newline] := fun f => by
    simp [headerLine, bytesOf, colon, carriageReturn, newline]
  have hlength : bytesOf "Content-Length: " = contentLength ++ [colon, space] := by decide
  have hversion : bytesOf "HTTP/1.1 " = bytesOf "HTTP/1.1" ++ [space] := by decide
  simp only [toBytes, statusLine, hline, hlength, hversion, lines, firstLine, message, fieldLine]
  simp [List.flatMap_map, bytesOf, space, carriageReturn, newline]

theorem codeToMessage_line (n : Nat) : newline ∉ HTTPResponse.codeToMessage n := by
  unfold HTTPResponse.codeToMessage
  split <;> decide

theorem firstLine_spec (status : BitVec 32) :
    newline ∉ firstLine status ∧ firstLine status ≠ [carriageReturn] := by
  have hversion : newline ∉ bytesOf "HTTP/1.1" := by decide
  have hspace : newline ≠ space := by decide
  have hreturn : newline ≠ carriageReturn := by decide
  constructor
  · simp [firstLine, hversion, hspace, hreturn, newline_not_mem_word printInt_word,
      codeToMessage_line]
  · intro h
    have hlength := congrArg List.length h
    simp only [firstLine, List.length_append, List.length_cons, List.length_nil] at hlength
    omega

theorem headerLine_spec {f : Bytes × Bytes} (hkey : newline ∉ f.1) (hval : newline ∉ f.2) :
    newline ∉ headerLine f ∧ headerLine f ≠ [carriageReturn] := by
  have hcolon : newline ≠ colon := by decide
  have hreturn : newline ≠ carriageReturn := by decide
  constructor
  · simp [headerLine, hkey, hval, hcolon, hreturn]
  · intro h
    have hlength := congrArg List.length h
    simp only [headerLine, List.length_append, List.length_cons, List.length_nil] at hlength
    omega

theorem newline_not_mem_decimal (n : Nat) : newline ∉ decimal n := fun hmem =>
  absurd (decimal_isDigit hmem) (by decide)

/-- The lines are lines, if the headers have no newline. -/
theorem lines_spec {order : List (Bytes × Bytes)}
    (horder : ∀ f ∈ order, newline ∉ f.1 ∧ newline ∉ f.2) :
    ∀ line ∈ r.lines order, newline ∉ line ∧ line ≠ [carriageReturn] := by
  intro line hline
  rcases List.mem_append.1 hline with hmem | hmem
  · obtain ⟨f, hf, rfl⟩ := List.mem_map.1 hmem
    exact headerLine_spec (horder f hf).1 (horder f hf).2
  · rw [List.mem_singleton.1 hmem]
    have hkey : newline ∉ contentLength := by decide
    exact fieldLine_spec hkey (newline_not_mem_decimal _)

end Response

/-! ## The responses of the router -/

/-- The object that the router makes of a response. -/
structure HTTPResponse.Represents (response : HTTPResponse) (r : Response) : Prop where
  status_lt : response.status < 2 ^ 31
  status : r.status = BitVec.ofNat 32 response.status
  headers : Enumerates response.headers r.headers
  body : r.body = response.body

namespace HTTPResponse.Represents

variable {response : HTTPResponse} {r : Response}

theorem setHeader (h : response.Represents r) (key val : Bytes) :
    (response.setHeader key val).Represents (r.setHeader key val) :=
  ⟨h.status_lt, h.status, h.headers.set key val, h.body⟩

theorem setBody (h : response.Represents r) (body : Bytes) :
    (response.setBody body).Represents (r.setBody body) := by
  have hbody : Represents { response with body := body } { r with body := body } :=
    ⟨h.status_lt, h.status, h.headers, rfl⟩
  exact hbody.setHeader contentLength (decimal body.length)

theorem toBytes_eq (h : response.Represents r) : response.toBytes = r.toBytes response.headers := by
  have htoNat : (BitVec.ofNat 32 response.status).toNat = response.status := by
    have hlt := h.status_lt
    rw [BitVec.toNat_ofNat, Nat.mod_eq_of_lt (by omega)]
  rw [Response.toBytes, Response.statusLine, h.status, printInt_ofNat h.status_lt, htoNat, h.body]
  rfl

end HTTPResponse.Represents

/-- A response of the router is an object that has been constructed without arguments
and given a status, and a body where there is a page, and its bytes are what is sent. -/
theorem route_built {fs : FileSystem} {cwd : UnixPath.Dir} {request : HTTPRequest}
    {response : HTTPResponse} (h : route fs cwd request = .ok response) (memory : BitVec 32) :
    ∃ status page r, r = Response.built memory 404 (bytesOf "404 Not Found")
        (.setStatus status :: (Option.map Response.Call.setBody page).toList) ∧
      response.Represents r ∧ response.toBytes = r.toBytes response.headers := by
  suffices hbuilt : ∃ status page, response.Represents
      (.built memory 404 (bytesOf "404 Not Found")
        (.setStatus status :: (Option.map Response.Call.setBody page).toList)) by
    obtain ⟨status, page, hrepresents⟩ := hbuilt
    exact ⟨status, page, _, rfl, hrepresents, hrepresents.toBytes_eq⟩
  obtain ⟨⟨status, path⟩, hchoose, h⟩ := Except.bind_eq_ok.1 h
  have hstatus : status < 2 ^ 31 := by
    rw [choose_eq] at hchoose
    cases htype : fs.status (UnixPath.names (rootPath cwd (cString request.path))) with
    | error e =>
      rw [htype] at hchoose
      cases hchoose
    | ok type =>
      rw [htype] at hchoose
      have hpage := Except.ok.inj hchoose
      dsimp only at hpage
      split at hpage
      · obtain rfl := (Prod.mk.inj hpage).1
        decide
      · obtain rfl := (Prod.mk.inj hpage).1
        decide
  have hempty : HTTPResponse.Represents ⟨status, [], []⟩
      ⟨BitVec.ofNat 32 status, fun _ => none, []⟩ := ⟨hstatus, rfl, Enumerates.empty, rfl⟩
  dsimp only at h
  split at h
  · rename_i htmlContent _
    obtain rfl := Except.ok.inj h
    exact ⟨_, some htmlContent, hempty.setBody htmlContent⟩
  · obtain rfl := Except.ok.inj h
    exact ⟨_, none, hempty⟩

end LinuxNet.HttpServer
