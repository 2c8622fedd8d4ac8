-- SUMMARY: When a request whose lines end with a bare LF is parsed like the one with CRLF.
import LinuxNet.HttpServer.Body
import LinuxNet.HttpServer.RoundTrip

/-! # Line endings

The parser drops a carriage return at the end of a header line, and it takes a
line for the blank one only if it has one. Without it the header loop goes on
through the body. -/

namespace LinuxNet.HttpServer

variable {body : Bytes} {fields : List (Bytes × Bytes)} {f : Bytes × Bytes} {key : Bytes}
  {limits : StringLimits}

/-- The line of a field, without its end. -/
def bareLine (f : Bytes × Bytes) : Bytes := f.1 ++ colon :: space :: f.2

/-- The first line, without its end. -/
def bareFirstLine (method path : Bytes) : Bytes :=
  method ++ space :: (path ++ space :: bytesOf "HTTP/1.1")

/-- The bytes of a request whose lines all end the same way. -/
def WireRequest.renderWith (ending : Bytes) (r : WireRequest) : Bytes :=
  bareFirstLine r.method r.path ++ ending ++
    r.fields.flatMap (fun f => bareLine f ++ ending) ++ ending ++ r.body

theorem WireRequest.renderWith_crlf (r : WireRequest) : r.renderWith crlf = r.render := by
  have hline : ∀ f, bareLine f ++ crlf = fieldLine f ++ [newline] := fun f => by
    simp [bareLine, fieldLine, crlf]
  simp only [renderWith, render, hline]
  simp [bareFirstLine, firstLine, crlf]

/-- The fields in the lines of the body, up to a blank one. -/
def bodyFields (body : Bytes) : List (Bytes × Bytes) :=
  ((body.splitOn newline).takeWhile (· ≠ [carriageReturn])).filterMap field

/-! ## The fields -/

theorem stripReturn_eq_self_iff {val : Bytes} :
    stripReturn val = val ↔ val.getLast? ≠ some carriageReturn := by
  unfold stripReturn
  split
  · rename_i hlast
    have hpos : 0 < val.length := List.length_pos_of_ne_nil fun hnil => by
      rw [hnil] at hlast
      cases hlast
    refine iff_of_false (fun he => ?_) (not_not.2 hlast)
    have hlength := congrArg List.length he
    rw [List.length_dropLast] at hlength
    omega
  · exact iff_of_true rfl ‹_›

theorem bareLine_spec (hkey : newline ∉ f.1) (hval : newline ∉ f.2) :
    newline ∉ bareLine f ∧ bareLine f ≠ [carriageReturn] := by
  have hcolon : newline ≠ colon := by decide
  have hspace : newline ≠ space := by decide
  constructor
  · simp [bareLine, hkey, hval, hcolon, hspace]
  · intro h
    have hlength := congrArg List.length h
    simp only [bareLine, List.length_append, List.length_cons, List.length_nil] at hlength
    omega

theorem stripReturn_bareLine :
    stripReturn (bareLine f) = f.1 ++ colon :: space :: stripReturn f.2 := by
  rcases List.eq_nil_or_concat f.2 with hnil | ⟨init, b, hconcat⟩
  · have hspace : (bareLine f).getLast? = some space := by simp [bareLine, hnil]
    rw [stripReturn, hspace, if_neg (by decide), bareLine, hnil]
    rfl
  · have hassoc : bareLine f = (f.1 ++ colon :: space :: init) ++ [b] := by
      simp [bareLine, hconcat]
    rw [stripReturn, stripReturn, hassoc, List.getLast?_concat, List.dropLast_concat, hconcat,
      List.concat_eq_append, List.getLast?_concat, List.dropLast_concat]
    split <;> simp

/-- A carriage return at the end of a value is taken for the end of the line. -/
theorem field_bareLine (hkey : colon ∉ f.1) :
    field (bareLine f) = some (f.1, stripReturn f.2) := by
  rw [field_eq stripReturn_bareLine hkey]
  rfl

theorem lastValue_map (g : Bytes → Bytes) :
    lastValue key (fields.map fun f => (f.1, g f.2)) = (lastValue key fields).map g := by
  induction fields with
  | nil => rfl
  | cons f fields ih =>
    rw [List.map_cons, lastValue_cons, lastValue_cons, ih]
    by_cases hkey : key = f.1 <;> cases lastValue key fields <;> simp [hkey]

/-! ## The parts of a request with bare line ends -/

theorem bareFirstLine_spec (r : WireRequest) :
    newline ∉ bareFirstLine r.method r.path ∧
      bareFirstLine r.method r.path ≠ [carriageReturn] := by
  have hversion : newline ∉ space :: bytesOf "HTTP/1.1" := by decide
  have hspace : newline ≠ space := by decide
  constructor
  · simp only [bareFirstLine, List.mem_append, List.mem_cons, not_or] at hversion ⊢
    exact ⟨newline_not_mem_word r.method_word, hspace, newline_not_mem_word r.path_word, hversion⟩
  · intro h
    have hlength := congrArg List.length h
    simp only [bareFirstLine, List.length_append, List.length_cons, List.length_nil] at hlength
    omega

namespace WireRequest

variable (r : WireRequest)

/-- The blank line is one among others. -/
theorem splitOn_bare : (r.renderWith [newline]).splitOn newline =
    bareFirstLine r.method r.path ::
      (r.fields.map bareLine ++ [] :: r.body.splitOn newline) := by
  have hlines : ∀ line ∈ r.fields.map bareLine, newline ∉ line := by
    rintro _ hmem
    obtain ⟨f, hf, rfl⟩ := List.mem_map.1 hmem
    exact (bareLine_spec (r.key_spec f hf).2 (r.val_spec f hf)).1
  have hrender : r.renderWith [newline] = bareFirstLine r.method r.path ++ newline ::
      ((r.fields.map bareLine).flatMap (· ++ [newline]) ++ newline :: r.body) := by
    simp [renderWith, List.flatMap_map]
  have hblank : (newline :: r.body).splitOn newline = [] :: r.body.splitOn newline :=
    List.splitOn_append_cons_self_of_not_mem List.not_mem_nil r.body
  rw [hrender, List.splitOn_append_cons_self_of_not_mem (bareFirstLine_spec r).1,
    splitOn_flatMap hlines, hblank]

/-- No header line and no empty line stops the header loop. -/
theorem not_blank_bare : ∀ line ∈ r.fields.map bareLine ++ [[]],
    decide (line ≠ [carriageReturn]) = true := by
  intro line hline
  rcases List.mem_append.1 hline with hmem | hmem
  · obtain ⟨f, hf, rfl⟩ := List.mem_map.1 hmem
    exact decide_eq_true (bareLine_spec (r.key_spec f hf).2 (r.val_spec f hf)).2
  · rw [List.mem_singleton.1 hmem]
    rfl

theorem requestLine_bare : requestLine (r.renderWith [newline]) = (r.method, r.path) := by
  have hline : (r.renderWith [newline]).takeWhile (· ≠ newline) =
      bareFirstLine r.method r.path := by
    have hrender : r.renderWith [newline] = bareFirstLine r.method r.path ++ newline ::
        (r.fields.flatMap (fun f => bareLine f ++ [newline]) ++ [newline] ++ r.body) := by
      simp [renderWith]
    have hall : ∀ b ∈ bareFirstLine r.method r.path, decide (b ≠ newline) = true := fun b hb =>
      decide_eq_true fun he => (bareFirstLine_spec r).1 (he ▸ hb)
    rw [hrender, List.takeWhile_append_of_pos hall]
    simp
  unfold requestLine
  rw [hline]
  dsimp only
  rw [if_neg (bareFirstLine_spec r).2, bareFirstLine,
    readFirstLine_words r.method_ne_nil r.method_word r.path_ne_nil r.path_word]

/-- The header loop takes the lines of the body for header lines too. -/
theorem requestHeaders_bare : requestHeaders (r.renderWith [newline]) = fun key =>
    lastValue key (r.fields.map (fun f => (f.1, stripReturn f.2)) ++ bodyFields r.body) := by
  have hlines : headerLines (r.renderWith [newline]) = r.fields.map bareLine ++
      ([] :: (r.body.splitOn newline).takeWhile (· ≠ [carriageReturn])) := by
    rw [headerLines, splitOn_bare, List.tail_cons, List.append_cons,
      List.takeWhile_append_of_pos r.not_blank_bare]
    simp
  have hfields : (r.fields.map bareLine).filterMap field =
      r.fields.map fun f => (f.1, stripReturn f.2) := by
    have hsome : ∀ f ∈ r.fields, (field ∘ bareLine) f = some (f.1, stripReturn f.2) := fun f hf =>
      field_bareLine (r.key_spec f hf).1
    rw [List.filterMap_map, List.filterMap_congr hsome, List.filterMap_eq_map']
  have hempty : field [] = none := rfl
  funext key
  rw [requestHeaders, hlines, List.filterMap_append, hfields, List.filterMap_cons_none hempty]
  rfl

/-- What is left for the body is behind a blank line in the body. -/
theorem afterHead_bare :
    afterHead (r.renderWith [newline]) = behindBlank (r.body.splitOn newline) := by
  rw [afterHead, splitOn_bare, List.tail_cons, behindBlank, List.append_cons,
    List.dropWhile_append_of_pos r.not_blank_bare]
  rfl

end WireRequest

/-! ## Bodies that come through -/

/-- What is behind a blank line of some lines, and the blank line itself. -/
theorem behindBlank_cases (body : Bytes) : behindBlank (body.splitOn newline) = [] ∨
    ∃ front, body = front ++ behindBlank (body.splitOn newline) ∧ carriageReturn ∈ front := by
  have hsuffix := List.dropWhile_suffix (l := body.splitOn newline)
    fun line => decide (line ≠ [carriageReturn])
  unfold behindBlank
  cases hdrop : (body.splitOn newline).dropWhile (· ≠ [carriageReturn]) with
  | nil => exact .inl rfl
  | cons line rest =>
    have hblank : line = [carriageReturn] := by
      have hhead := List.head?_dropWhile_not (· ≠ [carriageReturn]) (body.splitOn newline)
      rw [hdrop] at hhead
      simpa using hhead
    rw [hdrop, hblank] at hsuffix
    have hbytes := intercalate_suffix [newline] hsuffix
    rw [List.intercalate_splitOn] at hbytes
    obtain ⟨front, hfront⟩ := hbytes
    cases rest with
    | nil => exact .inl rfl
    | cons next rest =>
      refine .inr ⟨front ++ [carriageReturn, newline], ?_, by simp⟩
      rw [← hfront, List.intercalate_cons_cons]
      simp

/-- Only zeros are the same when they are read from behind a blank line in them. -/
theorem zeros_of_padded (h : body = padded body.length (behindBlank (body.splitOn newline))) :
    ∀ b ∈ body, b = 0 := by
  rcases behindBlank_cases body with hnil | ⟨front, hbody, hreturn⟩
  · rw [hnil] at h
    intro b hb
    rw [h] at hb
    have hzero : body ≠ [] ∧ b = 0 := by simpa [padded] using hb
    exact hzero.2
  · -- the front would be as many zeros
    generalize behindBlank (body.splitOn newline) = left at h hbody
    have hlength := congrArg List.length hbody
    rw [List.length_append] at hlength
    have hpadded : padded body.length left = left ++ List.replicate front.length 0 := by
      rw [padded, List.take_of_length_le (by omega), hlength, Nat.add_sub_cancel_right]
    have hperm : (left ++ front).Perm (left ++ List.replicate front.length 0) := by
      rw [← hpadded, ← h, hbody]
      exact List.perm_append_comm
    have hzero := (List.perm_append_left_iff _).1 hperm
    have hmem := List.mem_replicate.1 (hzero.subset hreturn)
    exact absurd hmem.2 (by decide)

theorem behindBlank_zeros (h : ∀ b ∈ body, b = 0) :
    behindBlank (body.splitOn newline) = [] ∧ bodyFields body = [] := by
  have hnewline : newline ∉ body := fun hmem => absurd (h _ hmem) (by decide)
  have hcolon : body.dropWhile (· ≠ colon) = [] :=
    List.dropWhile_eq_nil_iff.2 fun b hb => decide_eq_true (by rw [h b hb]; decide)
  have hreturn : body.getLast? ≠ some carriageReturn := fun hlast =>
    absurd (h _ (List.mem_of_getLast? hlast)) (by decide)
  have hblank : body ≠ [carriageReturn] := fun he => hreturn (he ▸ rfl)
  have hfield : field body = none := by
    simp only [field, if_neg hreturn, hcolon]
  rw [bodyFields, List.splitOn_eq_singleton hnewline]
  simp [behindBlank, hblank, hfield]

/-! ## Both line ends -/

/-- No value that counts ends with a carriage return. -/
def WireRequest.NoReturn (r : WireRequest) : Prop :=
  ∀ key val, lastValue key r.fields = some val → val.getLast? ≠ some carriageReturn

theorem lastValue_strip_iff {r : WireRequest} :
    (fun key => lastValue key (r.fields.map fun f => (f.1, stripReturn f.2))) =
      (fun key => lastValue key r.fields) ↔ r.NoReturn := by
  simp only [lastValue_map, funext_iff, WireRequest.NoReturn, ← stripReturn_eq_self_iff]
  refine forall_congr' fun key => ?_
  cases lastValue key r.fields <;> simp

/-- A request is parsed the same with bare line ends exactly if its body consists of
zeros, and no value that counts ends with a carriage return. -/
theorem parse_bare_iff (r : WireRequest) (hmem : r.render.length ≤ limits.memory) :
    parse limits (r.renderWith [newline]) = parse limits (r.renderWith crlf) ↔
      (∀ b ∈ r.body, b = 0) ∧ r.NoReturn := by
  rw [r.renderWith_crlf, r.parse_eq hmem]
  have hlength : r.body.length ≤ limits.memory := r.body_length_le.trans hmem
  constructor
  · intro hparse
    obtain ⟨-, hheaders⟩ := parse_parts hparse
    have hbody := parse_body hparse
    dsimp only at hheaders hbody
    have hzeros : ∀ b ∈ r.body, b = 0 := by
      cases hval : lastValue contentLength r.fields with
      | none => simp [r.body_eq_nil hval]
      | some val =>
        obtain rfl := r.length_spec val hval
        have hvalue := (congrFun hheaders.symm contentLength).trans hval
        have hdeclared : declaredLength (r.renderWith [newline]) = r.body.length := by
          rw [declaredLength, hvalue, Option.bind_some, stoi_decimal r.body_lt]
          rfl
        rw [hdeclared, r.afterHead_bare] at hbody
        exact zeros_of_padded hbody
    refine ⟨hzeros, lastValue_strip_iff.1 ?_⟩
    rw [hheaders, r.requestHeaders_bare, (behindBlank_zeros hzeros).2, List.append_nil]
  · rintro ⟨hzeros, hreturn⟩
    obtain ⟨hafter, hfields⟩ := behindBlank_zeros hzeros
    have hheaders : requestHeaders (r.renderWith [newline]) = fun key =>
        lastValue key r.fields := by
      rw [r.requestHeaders_bare, hfields, List.append_nil, lastValue_strip_iff.2 hreturn]
    cases hval : lastValue contentLength r.fields with
    | none =>
      have hvalue := (congrFun hheaders contentLength).trans hval
      rw [parse_of_none hvalue, r.requestLine_bare, hheaders, r.body_eq_nil hval]
    | some val =>
      obtain rfl := r.length_spec val hval
      have hpadded : padded r.body.length [] = r.body := by
        rw [List.eq_replicate_of_mem hzeros]
        simp [padded]
      have hvalue := (congrFun hheaders contentLength).trans hval
      rw [parse_of_decimal hvalue r.body_lt hlength, r.requestLine_bare, hheaders,
        r.afterHead_bare, hafter, hpadded]

/-- A body of two bytes. -/
def bodyRequest (body : Bytes) (h : body.length = 2) : WireRequest where
  method := bytesOf "POST"
  path := bytesOf "/"
  fields := [(bytesOf "Content-Length", bytesOf "2")]
  body := body
  method_ne_nil := postRequest.method_ne_nil
  method_word := postRequest.method_word
  path_ne_nil := by decide
  path_word := by decide +kernel
  key_spec := by decide
  val_spec := by decide
  body_lt := by omega
  length_spec := by rw [h]; decide
  body_eq_nil := fun hnone => absurd hnone (by decide)

/-- A body of zeros. -/
theorem parse_bare_iff_zeros :
    parse stringLimits ((bodyRequest [0, 0] rfl).renderWith [newline]) =
      parse stringLimits ((bodyRequest [0, 0] rfl).renderWith crlf) := by
  refine (parse_bare_iff (bodyRequest [0, 0] rfl) (by decide)).2 ⟨by simp [bodyRequest], ?_⟩
  intro key val hval
  have hmem : val = bytesOf "2" := by
    have hlookup : lastValue key [(bytesOf "Content-Length", bytesOf "2")] = some val := hval
    rw [lastValue_cons] at hlookup
    split at hlookup
    · exact (Option.some.inj hlookup).symm
    · cases hlookup
  rw [hmem]
  decide

/-- The body is read as header lines, and the parser returns zeros for it. -/
theorem parse_bare_differs : ¬ ∀ r : WireRequest,
    parse stringLimits (r.renderWith [newline]) = parse stringLimits (r.renderWith crlf) := by
  intro hall
  have hsame := hall (bodyRequest (bytesOf "ab") rfl)
  have hbare : (parse stringLimits ((bodyRequest (bytesOf "ab") rfl).renderWith [newline])).map
      HTTPRequest.body = .ok [0, 0] := rfl
  have hcrlf : (parse stringLimits ((bodyRequest (bytesOf "ab") rfl).renderWith crlf)).map
      HTTPRequest.body = .ok (bytesOf "ab") := rfl
  rw [hsame, hcrlf] at hbare
  exact absurd (Except.ok.inj hbare) (by decide)

end LinuxNet.HttpServer
