-- SUMMARY: The HTTP server's parser reads back what its responses are written as.
import LinuxNet.HttpServer.Body
import LinuxNet.HttpServer.Response

/-! # Responses and the parser

The two halves of the server agree on where a message, its lines, keys and values
end. -/

namespace LinuxNet.HttpServer.Response

variable {memory code status : BitVec 32} {body : Bytes} {calls : List Call} {r : Response}
  {order : List (Bytes × Bytes)} {f : Bytes × Bytes} {limits : StringLimits}

/-- The parser can tell where the key and the value are in a header line. -/
structure Framed (key val : Bytes) : Prop where
  colon_not_mem : colon ∉ key
  key_line : newline ∉ key
  val_line : newline ∉ val
  head_ne : val.head? ≠ some space

theorem framed_contentLength (n : Nat) : Framed contentLength (decimal n) where
  colon_not_mem := by decide
  key_line := by decide
  val_line := newline_not_mem_decimal n
  head_ne := fun hhead => absurd (decimal_isDigit (List.mem_of_head? hhead)) (by decide)

/-! ## The parts of a response -/

theorem field_headerLine (hkey : colon ∉ f.1) (hval : f.2.head? ≠ some space) :
    field (headerLine f) = some f := by
  have hline : stripReturn (headerLine f) = f.1 ++ colon :: f.2 := by
    rw [← stripReturn_concat (f.1 ++ colon :: f.2)]
    simp [headerLine]
  rw [field_eq hline hkey, if_neg hval]

theorem requestLine_toBytes (order : List (Bytes × Bytes)) (r : Response) :
    requestLine (r.toBytes order) = (bytesOf "HTTP/1.1", printInt r.status) := by
  obtain ⟨hfirst, hne⟩ := firstLine_spec r.status
  rw [toBytes_eq_message, requestLine_message hfirst hne]
  exact readFirstLine_words (by decide) (by decide +kernel) (printInt_isText _).2.1 printInt_word _

/-- The length that is written last wins. -/
theorem requestHeaders_toBytes (horder : Enumerates order r.headers)
    (hframed : ∀ f ∈ order, Framed f.1 f.2) : requestHeaders (r.toBytes order) =
      Function.update r.headers contentLength (some (decimal r.body.length)) := by
  have hlines := r.lines_spec fun f hf => ⟨(hframed f hf).key_line, (hframed f hf).val_line⟩
  have hfields : (r.lines order).filterMap field =
      order ++ [(contentLength, decimal r.body.length)] := by
    have hsome : ∀ f ∈ order, (field ∘ headerLine) f = some f := fun f hf =>
      field_headerLine (hframed f hf).colon_not_mem (hframed f hf).head_ne
    have hlast : field (fieldLine (contentLength, decimal r.body.length)) =
        some (contentLength, decimal r.body.length) :=
      field_fieldLine (framed_contentLength 0).colon_not_mem
    rw [lines, List.filterMap_append, List.filterMap_map, List.filterMap_congr hsome,
      List.filterMap_some, List.filterMap_cons_some hlast]
    rfl
  rw [toBytes_eq_message, requestHeaders_message (firstLine_spec r.status).1 hlines, hfields]
  funext key
  have hlookup : lastValue key order = r.headers key :=
    (horder.perm (List.reverse_perm order).symm).lookup key
  rw [lastValue_concat, hlookup, Function.update_apply]

theorem afterHead_toBytes (hframed : ∀ f ∈ order, Framed f.1 f.2) :
    afterHead (r.toBytes order) = r.body := by
  have hlines := r.lines_spec fun f hf => ⟨(hframed f hf).key_line, (hframed f hf).val_line⟩
  rw [toBytes_eq_message, afterHead_message (firstLine_spec r.status).1 hlines]

/-- The parser reads back a response on which a status has been set, whatever else has
been called, and in whatever order the headers are written. -/
theorem parse_toBytes (hstatus : lastStatus calls = some status)
    (hset : ∀ key val, .setHeader key val ∈ calls → Framed key val)
    (horder : Enumerates order (built memory code body calls).headers)
    (hlt : (built memory code body calls).body.length < 2 ^ 31)
    (hmem : ((built memory code body calls).toBytes order).length ≤ limits.memory) :
    parse limits ((built memory code body calls).toBytes order) = .ok
      ⟨bytesOf "HTTP/1.1", printInt status,
        Function.update (built memory code body calls).headers contentLength
          (some (decimal (built memory code body calls).body.length)),
        (built memory code body calls).body⟩ := by
  have hframed : ∀ f ∈ order, Framed f.1 f.2 := fun f hf =>
    built_headers hset framed_contentLength ((horder.mem_iff f.1 f.2).1 hf)
  have hlast : (built memory code body calls).status = status := by
    rw [(built_spec ..).1, hstatus]
    rfl
  generalize built memory code body calls = r at *
  have hheaders := requestHeaders_toBytes horder hframed
  have hvalue : requestHeaders (r.toBytes order) contentLength =
      some (decimal r.body.length) := by
    rw [hheaders, Function.update_self]
  have hbody : r.body.length ≤ (r.toBytes order).length := by
    rw [← afterHead_toBytes hframed]
    exact (afterHead_suffix _).length_le
  rw [parse_of_decimal hvalue hlt (hbody.trans hmem), requestLine_toBytes, hheaders,
    afterHead_toBytes hframed, padded_length, hlast]

/-- A body of a blank line and a zero byte, and a length that is set three times. -/
theorem parse_toBytes_twice : ∃ request, parse stringLimits
    ((built 0 404 [] [.setStatus 200, .setHeader contentLength (bytesOf "abc"),
      .setBody (bytesOf "\r\n\r\n" ++ [0]), .setHeader (bytesOf "Host") (bytesOf "a:80"),
        .setHeader contentLength (bytesOf "7")]).toBytes
          [(bytesOf "Host", bytesOf "a:80"), (contentLength, bytesOf "7")]) = .ok request ∧
    request.path = bytesOf "200" ∧ request.headers contentLength = some (bytesOf "5") ∧
      request.body = bytesOf "\r\n\r\n" ++ [0] := by
  refine ⟨_, parse_toBytes rfl ?_ ?_ (by decide) (by decide), ?_, ?_, rfl⟩
  · intro key val hmem
    simp only [List.mem_cons, reduceCtorEq, Call.setHeader.injEq, List.not_mem_nil, or_false,
      false_or] at hmem
    rcases hmem with ⟨rfl, rfl⟩ | ⟨rfl, rfl⟩ | ⟨rfl, rfl⟩
    · exact ⟨by decide, by decide, by decide, by decide⟩
    · exact ⟨by decide, by decide, by decide, by decide⟩
    · exact ⟨by decide, by decide, by decide, by decide⟩
  · exact (((Enumerates.empty.set contentLength (bytesOf "abc")).set contentLength
      (decimal 5)).set (bytesOf "Host") (bytesOf "a:80")).set contentLength (bytesOf "7")
  · decide
  · decide

end LinuxNet.HttpServer.Response
