-- SUMMARY: What a change of letter case in the header names of a request does to the parser's result.
import LinuxNet.HttpServer.Body
import LinuxNet.HttpServer.RoundTrip

/-! # The case of header names

The headers are a map over strings, and the parser looks for one spelling of
Content-Length. -/

namespace LinuxNet.HttpServer

variable {body key key' : Bytes} {fields fields' : List (Bytes × Bytes)} {limits : StringLimits}

/-- The same fields, with other upper and lower case letters in their keys. -/
def Recased (fields fields' : List (Bytes × Bytes)) : Prop :=
  List.Forall₂ (fun f f' => f.1.map UInt8.toAsciiLower = f'.1.map UInt8.toAsciiLower ∧ f.2 = f'.2)
    fields fields'

/-- The bytes of a request with other fields. -/
def WireRequest.renderFields (r : WireRequest) (fields' : List (Bytes × Bytes)) : Bytes :=
  message (firstLine r.method r.path) (fields'.map fieldLine) r.body

/-- The last field spelt `Content-Length` gives the length of the body, which is
empty without one. -/
def Announces (fields : List (Bytes × Bytes)) (body : Bytes) : Prop :=
  match lastValue contentLength fields with
  | none => body = []
  | some val => IntNumeral val body.length

/-! ## Letters -/

/-- The bytes that end a key and a line are no letters. -/
theorem eq_of_toAsciiLower {b : UInt8} :
    (b.toAsciiLower = colon → b = colon) ∧ (b.toAsciiLower = newline → b = newline) := by
  have hall : ∀ i : Fin 256, ((UInt8.ofFin i).toAsciiLower = colon → UInt8.ofFin i = colon) ∧
      ((UInt8.ofFin i).toAsciiLower = newline → UInt8.ofFin i = newline) := by
    decide +kernel
  exact hall b.toFin

theorem mem_of_recased (h : key.map UInt8.toAsciiLower = key'.map UInt8.toAsciiLower) :
    (colon ∈ key' → colon ∈ key) ∧ (newline ∈ key' → newline ∈ key) := by
  have hcolon : colon.toAsciiLower = colon := by decide
  have hnewline : newline.toAsciiLower = newline := by decide
  constructor
  · intro hmem
    have hlower : colon ∈ key.map UInt8.toAsciiLower := by
      rw [h, ← hcolon]
      exact List.mem_map_of_mem hmem
    obtain ⟨b, hb, he⟩ := List.mem_map.1 hlower
    rwa [← eq_of_toAsciiLower.1 he]
  · intro hmem
    have hlower : newline ∈ key.map UInt8.toAsciiLower := by
      rw [h, ← hnewline]
      exact List.mem_map_of_mem hmem
    obtain ⟨b, hb, he⟩ := List.mem_map.1 hlower
    rwa [← eq_of_toAsciiLower.2 he]

/-- The fields stay fields: their keys end where they did. -/
theorem Recased.field_spec (h : Recased fields fields')
    (hkeys : ∀ f ∈ fields, colon ∉ f.1 ∧ newline ∉ f.1) (hvals : ∀ f ∈ fields, newline ∉ f.2) :
    ∀ f' ∈ fields', colon ∉ f'.1 ∧ newline ∉ f'.1 ∧ newline ∉ f'.2 := by
  induction h with
  | nil => exact fun _ hmem => absurd hmem List.not_mem_nil
  | @cons f f' fields fields' hf _ ih =>
    obtain ⟨hcase, hval⟩ := hf
    obtain ⟨hcolon, hnewline⟩ := hkeys f List.mem_cons_self
    intro g hg
    rcases List.mem_cons.1 hg with rfl | hmem
    · exact ⟨hcolon ∘ (mem_of_recased hcase).1, hnewline ∘ (mem_of_recased hcase).2,
        hval ▸ hvals f List.mem_cons_self⟩
    · exact ih (fun f hf => hkeys f (List.mem_cons_of_mem _ hf))
        (fun f hf => hvals f (List.mem_cons_of_mem _ hf)) g hmem

/-! ## The parts of the request -/

namespace WireRequest

variable (r : WireRequest)

theorem requestLine_renderFields (fields' : List (Bytes × Bytes)) :
    requestLine (r.renderFields fields') = (r.method, r.path) := by
  obtain ⟨hfirst, hne⟩ := firstLine_spec r.method_word r.path_word
  rw [renderFields, requestLine_message hfirst hne, readFirstLine_firstLine]

theorem parts_recased (h : Recased r.fields fields') :
    requestHeaders (r.renderFields fields') = (fun key => lastValue key fields') ∧
      afterHead (r.renderFields fields') = r.body := by
  have hspec := h.field_spec r.key_spec r.val_spec
  have hfirst := (firstLine_spec r.method_word r.path_word).1
  have hlines : ∀ line ∈ fields'.map fieldLine, newline ∉ line ∧ line ≠ [carriageReturn] := by
    rintro _ hline
    obtain ⟨f, hf, rfl⟩ := List.mem_map.1 hline
    exact fieldLine_spec (hspec f hf).2.1 (hspec f hf).2.2
  constructor
  · rw [renderFields, requestHeaders_message hfirst hlines,
      filterMap_fieldLine fun f hf => (hspec f hf).1]
  · rw [renderFields, afterHead_message hfirst hlines]

end WireRequest

/-- The keys are compared byte for byte: with other letters in them, the parser finds the
same method and path, and the body if the fields that are spelt `Content-Length` still
announce it. -/
theorem parse_recased (r : WireRequest) (hcase : Recased r.fields fields')
    (hmem : (r.renderFields fields').length ≤ limits.memory) :
    (∀ request, parse limits (r.renderFields fields') = .ok request →
      request.method = r.method ∧ request.path = r.path) ∧
    ((∃ request, parse limits (r.renderFields fields') = .ok request ∧ request.body = r.body) ↔
      Announces fields' r.body) := by
  obtain ⟨hheaders, hafter⟩ := r.parts_recased hcase
  have hvalue := congrFun hheaders contentLength
  refine ⟨fun request hparse => ?_, ?_⟩
  · have hparts := (parse_parts hparse).1
    rw [r.requestLine_renderFields fields'] at hparts
    exact ⟨congrArg Prod.fst hparts.symm, congrArg Prod.snd hparts.symm⟩
  · unfold Announces
    rw [← hafter]
    cases hval : lastValue contentLength fields' with
    | none => exact parse_whole_none (hvalue.trans hval)
    | some val => exact parse_whole_some (hvalue.trans hval) (hafter ▸ r.body_lt) hmem

/-- Other letters in `Host` make no difference. -/
theorem parse_recased_host : ∃ request,
    parse stringLimits (postRequest.renderFields [(bytesOf "Content-Length", bytesOf "abc"),
      (bytesOf "hOST", bytesOf " a:80"), (bytesOf "Content-Length", bytesOf "6")]) =
        .ok request ∧ request.body = postRequest.body := by
  refine ((parse_recased postRequest ?_ (by decide)).2).2 ?_
  · exact .cons ⟨rfl, rfl⟩ (.cons ⟨by decide, rfl⟩ (.cons ⟨rfl, rfl⟩ .nil))
  · have hstoi : stoi (bytesOf "6") = .ok 6 := rfl
    exact (stoi_ok_iff.1 hstoi).1

/-- With `content-length` for both of its lengths, the request has no body. -/
theorem parse_recased_differs : ¬ ∀ (r : WireRequest) (fields' : List (Bytes × Bytes)),
    Recased r.fields fields' → ∃ request, parse stringLimits (r.renderFields fields') =
      .ok request ∧ request.method = r.method ∧ request.path = r.path ∧
        request.body = r.body := by
  intro hall
  have hcase : Recased postRequest.fields [(bytesOf "content-length", bytesOf "abc"),
      (bytesOf "Host", bytesOf " a:80"), (bytesOf "content-length", bytesOf "6")] :=
    .cons ⟨by decide, rfl⟩ (.cons ⟨rfl, rfl⟩ (.cons ⟨by decide, rfl⟩ .nil))
  obtain ⟨request, hparse, -, -, hbody⟩ := hall postRequest _ hcase
  obtain ⟨request', hparse', hbody'⟩ : ∃ request', parse stringLimits
      (postRequest.renderFields [(bytesOf "content-length", bytesOf "abc"),
        (bytesOf "Host", bytesOf " a:80"), (bytesOf "content-length", bytesOf "6")]) =
          .ok request' ∧ request'.body = [] := ⟨_, rfl, rfl⟩
  obtain rfl := Except.ok.inj (hparse.symm.trans hparse')
  rw [hbody'] at hbody
  exact absurd hbody (by decide)

end LinuxNet.HttpServer
