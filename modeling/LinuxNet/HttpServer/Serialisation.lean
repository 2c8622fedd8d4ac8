-- SUMMARY: For which sequences of calls a response is written as it has been constructed and set.
import LinuxNet.HttpServer.Response

/-! # What a response is written as

A response should be written with the status, the headers and the body last set,
those of the constructor where none has been set, and with one Content-Length. -/

namespace LinuxNet.HttpServer.Response

variable {memory code status : BitVec 32} {body : Bytes} {calls : List Call}
  {r : Response} {order fields : List (Bytes × Bytes)} {f : Bytes × Bytes} {line : Bytes}
  {lines : List Bytes} {headers : Headers}

/-- A header that is set by hand: its key and its value are parts of a line. -/
structure Plain (key val : Bytes) : Prop where
  key_line : newline ∉ key ∧ carriageReturn ∉ key
  val_line : newline ∉ val ∧ carriageReturn ∉ val
  ne_contentLength : key ≠ contentLength

/-- The line of a field, with or without a space behind the colon. -/
def IsField (f : Bytes × Bytes) (line : Bytes) : Prop := line = headerLine f ∨ line = fieldLine f

/-- A status line, a line for each of the headers and for the length of the body,
a blank line and the body. -/
def Writes (output : Bytes) (status : BitVec 32) (headers : Headers) (body : Bytes) : Prop :=
  ∃ (fields : List (Bytes × Bytes)) (lines : List Bytes),
    Enumerates fields
      (Function.update headers contentLength (some (decimal body.length))) ∧
    List.Forall₂ IsField fields lines ∧ output = message (firstLine status) lines body

/-! ## The object -/

theorem exists_order (memory code : BitVec 32) (body : Bytes) (calls : List Call) :
    ∃ order, Enumerates order (built memory code body calls).headers := by
  induction calls using List.reverseRecOn with
  | nil => exact ⟨[], Enumerates.empty⟩
  | append_singleton calls call ih =>
    obtain ⟨order, horder⟩ := ih
    rw [built_concat]
    cases call with
    | setStatus status => exact ⟨order, horder⟩
    | setBody body' => exact ⟨_, horder.set contentLength (decimal body'.length)⟩
    | setHeader key val => exact ⟨_, horder.set key val⟩

theorem mem_of_lastHeader {key val : Bytes} (h : lastHeader calls key = some val) :
    .setHeader key val ∈ calls := by
  obtain ⟨before, after, hsplit, -⟩ := List.lookup_eq_some_iff.1 h
  have hmem : (key, val) ∈ (calls.filterMap Call.header).reverse := by
    rw [hsplit]
    exact List.mem_append_right _ List.mem_cons_self
  obtain ⟨call, hcall, hheader⟩ := List.mem_filterMap.1 (List.mem_reverse.1 hmem)
  cases call with
  | setHeader k v =>
    obtain ⟨rfl, rfl⟩ := Prod.mk.inj (Option.some.inj hheader)
    exact hcall
  | setStatus status => cases hheader
  | setBody body => cases hheader

/-- The map has a Content-Length once a body has been set. -/
theorem built_contentLength (hplain : ∀ key val, .setHeader key val ∈ calls → Plain key val) :
    (built memory code body calls).headers contentLength =
      (lastBody calls).map fun body => decimal body.length := by
  induction calls using List.reverseRecOn with
  | nil => rfl
  | append_singleton calls call ih =>
    replace ih := ih fun key val hmem => hplain key val (List.mem_append_left _ hmem)
    rw [built_concat, lastBody_concat]
    cases call with
    | setStatus status => exact ih
    | setBody body' =>
      have hupdate : Function.update (built memory code body calls).headers contentLength
          (some (decimal body'.length)) contentLength = some (decimal body'.length) :=
        Function.update_self ..
      exact hupdate
    | setHeader key val =>
      have hne := (hplain key val (by simp)).ne_contentLength
      exact (Function.update_of_ne hne.symm _ _).trans ih

theorem built_headers_plain {key val : Bytes}
    (hplain : ∀ key val, .setHeader key val ∈ calls → Plain key val)
    (h : (built memory code body calls).headers key = some val) :
    newline ∉ key ∧ newline ∉ val := by
  have hset : ∀ k v, .setHeader k v ∈ calls → newline ∉ k ∧ newline ∉ v := fun k v hmem =>
    ⟨(hplain k v hmem).key_line.1, (hplain k v hmem).val_line.1⟩
  have hlength : ∀ n, newline ∉ contentLength ∧ newline ∉ decimal n := fun n =>
    ⟨by decide, newline_not_mem_decimal n⟩
  exact built_headers hset hlength h

theorem lastStatus_eq_none_iff : lastStatus calls = none ↔ ∀ status, .setStatus status ∉ calls := by
  rw [lastStatus, List.getLast?_eq_none_iff, List.filterMap_eq_nil_iff]
  constructor
  · exact fun h status hmem => by cases h _ hmem
  · intro h call hmem
    cases call with
    | setStatus status => exact absurd hmem (h status)
    | setBody body => rfl
    | setHeader key val => rfl

theorem lastBody_eq_none_iff : lastBody calls = none ↔ ∀ body, .setBody body ∉ calls := by
  rw [lastBody, List.getLast?_eq_none_iff, List.filterMap_eq_nil_iff]
  constructor
  · exact fun h body hmem => by cases h _ hmem
  · intro h call hmem
    cases call with
    | setBody body => exact absurd hmem (h body)
    | setStatus status => rfl
    | setHeader key val => rfl

/-! ## The parts of what is written -/

theorem isField_spec (h : IsField f line) (hkey : newline ∉ f.1) (hval : newline ∉ f.2) :
    newline ∉ line ∧ line ≠ [carriageReturn] := by
  rcases h with rfl | rfl
  · exact headerLine_spec hkey hval
  · exact fieldLine_spec hkey hval

theorem exists_mem_of_forall₂ (h : List.Forall₂ IsField fields lines) (hline : line ∈ lines) :
    ∃ f ∈ fields, IsField f line := by
  induction h with
  | nil => cases hline
  | cons hf _ ih =>
    rcases List.mem_cons.1 hline with rfl | hmem
    · exact ⟨_, List.mem_cons_self, hf⟩
    · obtain ⟨g, hg, hfield⟩ := ih hmem
      exact ⟨g, List.mem_cons_of_mem _ hg, hfield⟩

/-- The version, the status and the reason determine the status. -/
theorem firstLine_injective : Function.Injective firstLine := by
  intro status status' h
  have hwords : ∀ s : BitVec 32, readFirstLine (firstLine s) = (bytesOf "HTTP/1.1", printInt s) :=
    fun s => readFirstLine_words (by decide) (by decide +kernel) (printInt_isText s).2.1
      printInt_word _
  have hread := congrArg readFirstLine h
  rw [hwords, hwords] at hread
  exact printInt_injective (congrArg Prod.snd hread)

/-- What is written has one status, one list of lines and one body. -/
theorem Writes.parts (h : Writes (r.toBytes order) status headers body)
    (hheaders : ∀ key val, headers key = some val → newline ∉ key ∧ newline ∉ val)
    (horder : ∀ f ∈ order, newline ∉ f.1 ∧ newline ∉ f.2) :
    r.status = status ∧ r.body = body ∧ ∃ fields, (fields.map Prod.fst).Nodup ∧
      List.Forall₂ IsField fields (r.lines order) := by
  obtain ⟨fields, lines, hfields, hlines, houtput⟩ := h
  have hline : ∀ line ∈ lines, newline ∉ line ∧ line ≠ [carriageReturn] := fun line hmem => by
    obtain ⟨f, hf, hfield⟩ := exists_mem_of_forall₂ hlines hmem
    have hval := (hfields.mem_iff f.1 f.2).1 hf
    have hspec : newline ∉ f.1 ∧ newline ∉ f.2 := by
      by_cases hkey : f.1 = contentLength
      · rw [hkey, Function.update_self] at hval
        rw [hkey, ← Option.some.inj hval]
        exact ⟨by decide, newline_not_mem_decimal _⟩
      · rw [Function.update_of_ne hkey] at hval
        exact hheaders f.1 f.2 hval
    exact isField_spec hfield hspec.1 hspec.2
  rw [toBytes_eq_message] at houtput
  obtain ⟨hfirst, rfl, hbody⟩ := message_injective (firstLine_spec _).1 (firstLine_spec _).1
    (r.lines_spec horder) hline houtput
  exact ⟨firstLine_injective hfirst, hbody, fields, hfields.nodup, hlines⟩

theorem Writes.built_parts {body' : Bytes}
    (h : Writes ((built memory code body calls).toBytes order) status (lastHeader calls) body')
    (hplain : ∀ key val, .setHeader key val ∈ calls → Plain key val)
    (horder : Enumerates order (built memory code body calls).headers) :
    (built memory code body calls).status = status ∧
      (built memory code body calls).body = body' ∧
      ∃ fields, (fields.map Prod.fst).Nodup ∧
        List.Forall₂ IsField fields ((built memory code body calls).lines order) := by
  apply h.parts
  · intro key val hval
    have hset := hplain key val (mem_of_lastHeader hval)
    exact ⟨hset.key_line.1, hset.val_line.1⟩
  · exact fun f hf => built_headers_plain hplain ((horder.mem_iff f.1 f.2).1 hf)

/-! ## Two lengths -/

/-- A line with one colon has one key. -/
theorem key_unique {key val key' val' : Bytes} (hkey : colon ∉ key') (hval : colon ∉ val')
    (h : key ++ colon :: val = key' ++ colon :: val') : key = key' := by
  have hcount := congrArg (List.count colon) h
  rw [List.count_append, List.count_append, List.count_cons_self, List.count_cons_self,
    List.count_eq_zero_of_not_mem hkey, List.count_eq_zero_of_not_mem hval] at hcount
  have hnot : colon ∉ key := List.count_eq_zero.1 (by omega)
  have hall : ∀ word : Bytes, colon ∉ word → ∀ b ∈ word, decide (b ≠ colon) = true :=
    fun word hword b hb => decide_eq_true fun he => hword (he ▸ hb)
  have htake := congrArg (List.takeWhile (· ≠ colon)) h
  rw [List.takeWhile_append_of_pos (hall key hnot),
    List.takeWhile_append_of_pos (hall key' hkey)] at htake
  simpa using htake

theorem isField_key {key val : Bytes} (hkey : colon ∉ key) (hval : colon ∉ val)
    (hline : line = headerLine (key, val) ∨ line = fieldLine (key, val)) (h : IsField f line) :
    f.1 = key := by
  have hreturn : colon ≠ carriageReturn := by decide
  have hspace : colon ≠ space := by decide
  rcases hline with rfl | rfl <;> rcases h with h | h
  all_goals
    simp only [headerLine, fieldLine] at h
    exact key_unique hkey (by simp [hval, hreturn, hspace]) h.symm

/-- A response with a Content-Length in its map is written with a second one. -/
theorem not_nodup_of_contentLength (horder : Enumerates order r.headers)
    (hlength : r.headers contentLength = some (decimal r.body.length))
    (h : List.Forall₂ IsField fields (r.lines order)) : ¬ (fields.map Prod.fst).Nodup := by
  have hcolon : colon ∉ contentLength := by decide
  have hdecimal : colon ∉ decimal r.body.length := fun hmem =>
    absurd (decimal_isDigit hmem) (by decide)
  have hmap := (horder.mem_iff _ _).2 hlength
  rw [lines] at h
  have hfront := List.forall₂_take_append _ _ _ h
  have hback := List.forall₂_drop_append _ _ _ h
  generalize (order.map headerLine).length = n at hfront hback
  obtain ⟨g, hg, hgfield⟩ := exists_mem_of_forall₂ hfront (List.mem_map_of_mem hmap)
  obtain ⟨g', hg', hgfield'⟩ := exists_mem_of_forall₂ hback List.mem_cons_self
  have hkey := isField_key hcolon hdecimal (.inl rfl) hgfield
  have hkey' := isField_key hcolon hdecimal (.inr rfl) hgfield'
  intro hnodup
  rw [← List.take_append_drop n fields, List.map_append] at hnodup
  have hdisjoint := List.disjoint_of_nodup_append hnodup
  apply hdisjoint (List.mem_map_of_mem hg)
  rw [hkey, ← hkey']
  exact List.mem_map_of_mem hg'

/-- The response is not written as it should be if a body has been set. -/
theorem not_writes_of_setBody (hplain : ∀ key val, .setHeader key val ∈ calls → Plain key val)
    (horder : Enumerates order (built memory code body calls).headers)
    (hbody : lastBody calls ≠ none) (body' : Bytes) :
    ¬ Writes ((built memory code body calls).toBytes order) status (lastHeader calls) body' := by
  intro hwrites
  obtain ⟨last, hlast⟩ := Option.ne_none_iff_exists'.1 hbody
  obtain ⟨-, -, fields, hnodup, hfields⟩ := hwrites.built_parts hplain horder
  refine not_nodup_of_contentLength horder ?_ hfields hnodup
  rw [built_contentLength hplain, (built_spec ..).2.1, hlast]
  rfl

/-! ## When a response is written as it should be -/

/-- Without a body, the map is what has been set, and the length is written once. -/
theorem writes_of_empty (hplain : ∀ key val, .setHeader key val ∈ calls → Plain key val)
    (hstatus : lastStatus calls = some status) (hbody : lastBody calls = none)
    (horder : Enumerates order (built memory code body calls).headers) :
    Writes ((built memory code body calls).toBytes order) status (lastHeader calls) [] := by
  obtain ⟨hlast, hempty, hset⟩ := built_spec memory code body calls
  rw [hstatus] at hlast
  rw [hbody] at hempty
  have hnone : (built memory code body calls).headers contentLength = none := by
    rw [built_contentLength hplain, hbody]
    rfl
  have hheaders : (built memory code body calls).headers = lastHeader calls := by
    funext key
    by_cases hkey : key = contentLength
    · have hlength : lastHeader calls contentLength = none :=
        Option.eq_none_iff_forall_ne_some.2 fun val hval =>
          (hplain _ val (mem_of_lastHeader hval)).ne_contentLength rfl
      rw [hkey, hnone, hlength]
    · exact hset key hkey
  have hlines : List.Forall₂ IsField order (order.map headerLine) :=
    List.forall₂_map_right_iff.2 (List.forall₂_same.2 fun f _ => .inl rfl)
  refine ⟨order ++ [(contentLength, decimal 0)], (built memory code body calls).lines order,
    ?_, ?_, ?_⟩
  · rw [← hheaders]
    exact horder.concat hnone (decimal 0)
  · rw [lines, hempty]
    exact List.rel_append hlines (.cons (.inr rfl) .nil)
  · rw [toBytes_eq_message, hlast, hempty]
    rfl

/-- A response is written as it should be, in whatever order and whatever has been in
memory, exactly if a status and no body has been set, and it was constructed with no
body. -/
theorem writes_iff (hplain : ∀ key val, .setHeader key val ∈ calls → Plain key val) :
    (∀ memory order, Enumerates order (built memory code body calls).headers →
      Writes ((built memory code body calls).toBytes order) ((lastStatus calls).getD code)
        (lastHeader calls) ((lastBody calls).getD body)) ↔
    (∃ status, .setStatus status ∈ calls) ∧ (∀ body', .setBody body' ∉ calls) ∧ body = [] := by
  constructor
  · intro hwrites
    have hbody : lastBody calls = none := by
      obtain ⟨order, horder⟩ := exists_order code code body calls
      by_contra hset
      exact not_writes_of_setBody hplain horder hset _ (hwrites code order horder)
    refine ⟨?_, lastBody_eq_none_iff.1 hbody, ?_⟩
    · -- other values in memory would be written for the status of the constructor
      by_contra hset
      have hstatus := lastStatus_eq_none_iff.2 fun status hmem => hset ⟨status, hmem⟩
      obtain ⟨order, horder⟩ := exists_order (code + 1) code body calls
      have hwritten := ((hwrites (code + 1) order horder).built_parts hplain horder).1
      rw [(built_spec ..).1, hstatus] at hwritten
      simp at hwritten
    · obtain ⟨order, horder⟩ := exists_order code code body calls
      have hwritten := ((hwrites code order horder).built_parts hplain horder).2.1
      rw [(built_spec ..).2.1, hbody] at hwritten
      exact hwritten.symm
  · rintro ⟨⟨status, hmem⟩, hset, rfl⟩ memory order horder
    have hbody := lastBody_eq_none_iff.2 hset
    obtain ⟨last, hlast⟩ := Option.ne_none_iff_exists'.1 fun hnone =>
      lastStatus_eq_none_iff.1 hnone status hmem
    rw [hlast, hbody]
    exact writes_of_empty hplain hlast hbody horder

/-- A header is set twice, and there is no body. -/
theorem writes_iff_empty : Writes
    ((built 7 404 [] [.setStatus 200, .setHeader (bytesOf "Host") (bytesOf "a"),
      .setHeader (bytesOf "Host") (bytesOf "b")]).toBytes [(bytesOf "Host", bytesOf "b")]) 200
    (lastHeader [.setStatus 200, .setHeader (bytesOf "Host") (bytesOf "a"),
      .setHeader (bytesOf "Host") (bytesOf "b")]) [] := by
  refine (writes_iff ?_).2 ⟨⟨200, List.mem_cons_self⟩, ?_, rfl⟩ 7 _ ?_
  · intro key val hmem
    simp only [List.mem_cons, reduceCtorEq, Call.setHeader.injEq, List.not_mem_nil, or_false,
      false_or] at hmem
    rcases hmem with ⟨rfl, rfl⟩ | ⟨rfl, rfl⟩
    · exact ⟨by decide, by decide, by decide⟩
    · exact ⟨by decide, by decide, by decide⟩
  · simp
  · exact (Enumerates.empty.set (bytesOf "Host") (bytesOf "a")).set (bytesOf "Host") (bytesOf "b")

/-- The length of a body is written twice. -/
theorem not_writes : ¬ ∀ code body calls,
    (∀ key val, .setHeader key val ∈ calls → Plain key val) → ∀ memory order,
      Enumerates order (built memory code body calls).headers →
        Writes ((built memory code body calls).toBytes order) ((lastStatus calls).getD code)
          (lastHeader calls) ((lastBody calls).getD body) := by
  intro hall
  have hplain : ∀ key val, Call.setHeader key val ∈ [.setStatus 200, .setBody (bytesOf "hi")] →
      Plain key val := fun key val hmem => by simp at hmem
  obtain ⟨order, horder⟩ := exists_order 0 404 [] [.setStatus 200, .setBody (bytesOf "hi")]
  have hset : lastBody [.setStatus 200, .setBody (bytesOf "hi")] ≠ none := Option.some_ne_none _
  exact not_writes_of_setBody hplain horder hset _ (hall 404 [] _ hplain 0 order horder)

end LinuxNet.HttpServer.Response
