-- SUMMARY: The parser reads back what the HTTP/1.1 request format writes.
import LinuxNet.HttpServer.Message

/-! # The request format -/

namespace LinuxNet.HttpServer

variable {method path : Bytes} {fields : List (Bytes × Bytes)} {f : Bytes × Bytes}
  {limits : StringLimits}

/-- A request as a client writes it. The last Content-Length is the length of
the body, which is empty without one. -/
structure WireRequest where
  method : Bytes
  path : Bytes
  fields : List (Bytes × Bytes)
  body : Bytes
  method_ne_nil : method ≠ []
  method_word : ∀ b ∈ method, isSpace b = false
  path_ne_nil : path ≠ []
  path_word : ∀ b ∈ path, isSpace b = false
  key_spec : ∀ f ∈ fields, colon ∉ f.1 ∧ newline ∉ f.1
  val_spec : ∀ f ∈ fields, newline ∉ f.2
  body_lt : body.length < 2 ^ 31
  length_spec : ∀ val ∈ lastValue contentLength fields, val = decimal body.length
  body_eq_nil : lastValue contentLength fields = none → body = []

def firstLine (method path : Bytes) : Bytes :=
  method ++ space :: (path ++ space :: (bytesOf "HTTP/1.1" ++ [carriageReturn]))

def fieldLine (f : Bytes × Bytes) : Bytes :=
  f.1 ++ colon :: space :: (f.2 ++ [carriageReturn])

/-- The bytes of a request. -/
def WireRequest.render (r : WireRequest) : Bytes :=
  firstLine r.method r.path ++ newline ::
    (r.fields.flatMap (fun f => fieldLine f ++ [newline]) ++
      (carriageReturn :: newline :: r.body))

/-! ## The lines of a request -/

theorem isSpace_newline : isSpace newline = true := rfl

theorem isSpace_space : isSpace space = true := rfl

theorem newline_not_mem_word {word : Bytes} (h : ∀ b ∈ word, isSpace b = false) :
    newline ∉ word := fun hmem => by
  have hword := h newline hmem
  rw [isSpace_newline] at hword
  cases hword

theorem firstLine_spec (hmethod : ∀ b ∈ method, isSpace b = false)
    (hpath : ∀ b ∈ path, isSpace b = false) :
    newline ∉ firstLine method path ∧ firstLine method path ≠ [carriageReturn] := by
  have hversion : newline ∉ space :: (bytesOf "HTTP/1.1" ++ [carriageReturn]) := by decide
  have hspace : newline ≠ space := by decide
  constructor
  · simp only [firstLine, List.mem_append, List.mem_cons, not_or] at hversion ⊢
    exact ⟨newline_not_mem_word hmethod, hspace, newline_not_mem_word hpath, hversion⟩
  · intro h
    have hlength := congrArg List.length h
    simp only [firstLine, List.length_append, List.length_cons, List.length_nil] at hlength
    omega

/-- The method and the path are the first two words of a line. -/
theorem readFirstLine_words (hmethod : method ≠ []) (hmethodWord : ∀ b ∈ method, isSpace b = false)
    (hpath : path ≠ []) (hpathWord : ∀ b ∈ path, isSpace b = false) (rest : Bytes) :
    readFirstLine (method ++ space :: (path ++ space :: rest)) = (method, path) := by
  have hfirst := IStream.extract_word hmethod hmethodWord isSpace_space (path ++ space :: rest) []
  have hsecond := IStream.extract_word hpath hpathWord isSpace_space rest []
  simp only [readFirstLine, hfirst, IStream.extract_space isSpace_space, hsecond]

theorem readFirstLine_firstLine (r : WireRequest) :
    readFirstLine (firstLine r.method r.path) = (r.method, r.path) :=
  readFirstLine_words r.method_ne_nil r.method_word r.path_ne_nil r.path_word _

theorem fieldLine_spec (hkey : newline ∉ f.1) (hval : newline ∉ f.2) :
    newline ∉ fieldLine f ∧ fieldLine f ≠ [carriageReturn] := by
  have hcolon : newline ≠ colon := by decide
  have hspace : newline ≠ space := by decide
  have hreturn : newline ≠ carriageReturn := by decide
  constructor
  · simp [fieldLine, hkey, hval, hcolon, hspace, hreturn]
  · intro h
    have hlength := congrArg List.length h
    simp only [fieldLine, List.length_append, List.length_cons, List.length_nil] at hlength
    omega

/-- A line or a value without a carriage return at its end. -/
def stripReturn (line : Bytes) : Bytes :=
  if line.getLast? = some carriageReturn then line.dropLast else line

theorem stripReturn_concat (line : Bytes) : stripReturn (line ++ [carriageReturn]) = line := by
  rw [stripReturn, List.getLast?_concat, if_pos rfl, List.dropLast_concat]

/-- The first colon ends the key. -/
theorem field_eq {line key val : Bytes} (hline : stripReturn line = key ++ colon :: val)
    (hkey : colon ∉ key) :
    field line = some (key, if val.head? = some space then val.tail else val) := by
  have hall : ∀ b ∈ key, decide (b ≠ colon) = true := fun b hb =>
    decide_eq_true fun he => hkey (he ▸ hb)
  have hdrop : (key ++ colon :: val).dropWhile (· ≠ colon) = colon :: val := by
    rw [List.dropWhile_append_of_pos hall]
    simp
  have htake : (key ++ colon :: val).takeWhile (· ≠ colon) = key := by
    rw [List.takeWhile_append_of_pos hall]
    simp
  unfold stripReturn at hline
  simp only [field, hline, hdrop, htake]

/-- The parser finds the key and the value in the line of a field, whatever
spaces, colons and carriage returns the value has. -/
theorem field_fieldLine (hkey : colon ∉ f.1) : field (fieldLine f) = some f := by
  have hline : stripReturn (fieldLine f) = f.1 ++ colon :: space :: f.2 := by
    rw [← stripReturn_concat (f.1 ++ colon :: space :: f.2)]
    simp [fieldLine]
  rw [field_eq hline hkey]
  rfl

/-! ## A request as a message -/

theorem filterMap_fieldLine (hfields : ∀ f ∈ fields, colon ∉ f.1) :
    (fields.map fieldLine).filterMap field = fields := by
  have hsome : ∀ f ∈ fields, (field ∘ fieldLine) f = some f := fun f hf =>
    field_fieldLine (hfields f hf)
  rw [List.filterMap_map, List.filterMap_congr hsome, List.filterMap_some]

namespace WireRequest

variable (r : WireRequest)

theorem render_eq_message :
    r.render = message (firstLine r.method r.path) (r.fields.map fieldLine) r.body := by
  rw [render, message, List.flatMap_map]

theorem body_length_le : r.body.length ≤ r.render.length := by
  simp only [render, List.length_append, List.length_cons]
  omega

theorem fieldLines_spec : ∀ line ∈ r.fields.map fieldLine,
    newline ∉ line ∧ line ≠ [carriageReturn] := by
  rintro _ hline
  obtain ⟨f, hf, rfl⟩ := List.mem_map.1 hline
  exact fieldLine_spec (r.key_spec f hf).2 (r.val_spec f hf)

theorem requestHeaders_render : requestHeaders r.render = fun key => lastValue key r.fields := by
  rw [r.render_eq_message,
    requestHeaders_message (firstLine_spec r.method_word r.path_word).1 r.fieldLines_spec,
    filterMap_fieldLine fun f hf => (r.key_spec f hf).1]

theorem parse_eq (hmem : r.render.length ≤ limits.memory) : parse limits r.render =
    .ok ⟨r.method, r.path, fun key => lastValue key r.fields, r.body⟩ := by
  obtain ⟨hfirst, hne⟩ := firstLine_spec r.method_word r.path_word
  have hline : requestLine r.render = (r.method, r.path) := by
    rw [r.render_eq_message, requestLine_message hfirst hne, readFirstLine_firstLine]
  have hafter : afterHead r.render = r.body := by
    rw [r.render_eq_message, afterHead_message hfirst r.fieldLines_spec]
  have hheaders := congrFun r.requestHeaders_render contentLength
  cases hval : lastValue contentLength r.fields with
  | none =>
    rw [parse_of_none (hheaders.trans hval), hline, r.requestHeaders_render, r.body_eq_nil hval]
  | some val =>
    obtain rfl := r.length_spec val hval
    rw [parse_of_decimal (hheaders.trans hval) r.body_lt (r.body_length_le.trans hmem), hline,
      r.requestHeaders_render, hafter, padded_length]

end WireRequest

/-- `parse` undoes `render`, for a request that is itself a string. -/
theorem parse_render (r : WireRequest) (hmem : r.render.length ≤ limits.memory) :
    parse limits r.render =
      .ok ⟨r.method, r.path, fun key => lastValue key r.fields, r.body⟩ := r.parse_eq hmem

/-- A key that is repeated, values with a colon and with spaces, and a body with
a blank line and a zero byte. -/
def postRequest : WireRequest where
  method := bytesOf "POST"
  path := bytesOf "/echo"
  fields := [(bytesOf "Content-Length", bytesOf "abc"), (bytesOf "Host", bytesOf " a:80"),
    (bytesOf "Content-Length", bytesOf "6")]
  body := bytesOf "\r\n\r\n:" ++ [0]
  method_ne_nil := by decide
  method_word := by decide +kernel
  path_ne_nil := by decide
  path_word := by decide +kernel
  key_spec := by decide
  val_spec := by decide
  body_lt := by decide
  length_spec := by decide
  body_eq_nil := by decide

theorem parse_render_post :
    postRequest.render.length ≤ stringLimits.memory ∧
      parse stringLimits postRequest.render = .ok ⟨bytesOf "POST", bytesOf "/echo",
        fun key => lastValue key postRequest.fields, bytesOf "\r\n\r\n:" ++ [0]⟩ :=
  ⟨by decide, parse_render postRequest (by decide)⟩

end LinuxNet.HttpServer
