-- SUMMARY: The HTTPS client receives its response within the array, and terminates it.
import LinuxNet.HttpsClient.Client

/-! # The response of the HTTPS client

One byte of the array is not cleared, and no read reaches it. -/

namespace LinuxNet.HttpsClient

variable {sslRead : ReadSchedule} {stale : Vector UInt8 (responseSize + 1)} {fuel : Nat}
  {s : Reading}

/-- The array after its first bytes have been cleared. -/
theorem cleared_length (stale : Vector UInt8 (responseSize + 1)) :
    (storeAt stale.toList 0 (List.replicate responseSize 0)).length = responseSize + 1 := by
  have hlength : (storeAt stale.toList 0 (List.replicate responseSize 0)).length =
      stale.toList.length := by
    apply storeAt_length
    rw [Vector.length_toList, List.length_replicate]
    omega
  rw [hlength, Vector.length_toList]

/-- The response ends, whatever the reads return. -/
theorem readResponse_ends (sslRead : ReadSchedule) (stale : Vector UInt8 (responseSize + 1))
    (hfuel : responseSize < fuel) : ∃ s, readResponse sslRead stale fuel = some s := by
  obtain ⟨s, hloop⟩ := readLoop_ends sslRead (cleared_length stale) (Nat.le_succ _) hfuel
  exact ⟨_, Option.bind_eq_some_iff.2 ⟨s, hloop, rfl⟩⟩

theorem readResponse_mono {fuel' : Nat} (h : readResponse sslRead stale fuel = some s)
    (hle : fuel ≤ fuel') : readResponse sslRead stale fuel' = some s := by
  obtain ⟨t, hloop, h⟩ := Option.bind_eq_some_iff.1 h
  exact Option.bind_eq_some_iff.2 ⟨t, loop_mono hloop hle, h⟩

/-- A response that has been received: the reads have stored below `RESPONSE_SIZE`, and
the array is what they have returned, with a terminator behind it. -/
structure Terminated (s : Reading) : Prop where
  total_eq : s.total = s.received.length
  total_le : s.total ≤ responseSize
  inside : ∀ r ∈ s.reads, 0 ≤ r.offset ∧ r.offset + (r.stored.length : Int) ≤ responseSize
  length_eq : s.array.length = responseSize + 1
  array_eq : ∃ rest, s.array = s.received ++ 0 :: rest

theorem readResponse_terminated (h : readResponse sslRead stale fuel = some s) :
    Terminated s := by
  obtain ⟨t, hloop, h⟩ := Option.bind_eq_some_iff.1 h
  have ht := readLoop_spec (cleared_length stale) (Nat.le_succ _) hloop
  cases h
  refine ⟨ht.total_eq, ?_, ht.inside, ?_, ht.set_eq (Nat.lt_succ_self _)⟩
  · have hle := ht.le_limit
    have htotal := ht.total_eq
    dsimp only
    omega
  · rw [List.length_set, ht.length_eq]

theorem readResponse_answered (h : readResponse sslRead stale fuel = some s) :
    s.Answered responseSize sslRead ∧ s.Stopped := by
  obtain ⟨t, hloop, h⟩ := Option.bind_eq_some_iff.1 h
  have ht := readLoop_answered hloop
  cases h
  exact ht

/-- The receive loop ends, with the first read that returns nothing. The reads store below
`RESPONSE_SIZE` and sum up to no more, and then the array holds what they have returned
with a terminator behind it. -/
theorem response_terminated (sslRead : ReadSchedule) (stale : Vector UInt8 (responseSize + 1)) :
    ∃ s bound, (∀ fuel, bound ≤ fuel → readResponse sslRead stale fuel = some s) ∧
      Terminated s ∧ s.Answered responseSize sslRead ∧ s.Stopped := by
  obtain ⟨s, h⟩ := readResponse_ends sslRead stale (Nat.lt_succ_self responseSize)
  exact ⟨s, responseSize + 1, fun _ hle => readResponse_mono h hle, readResponse_terminated h,
    readResponse_answered h⟩

/-! ## The calls -/

/-- The uses of `http_response` behind the loop stay inside the array. -/
theorem responseCalls_inArray {size : Nat} {a : Access} (h : Terminated s)
    (ha : .text size a ∈ responseCalls s) : a.InArray size := by
  have hreads : .text size a ∉ s.reads.flatMap readCalls := by
    intro hmem
    obtain ⟨r, -, hmem⟩ := List.mem_flatMap.1 hmem
    unfold readCalls at hmem
    split at hmem <;> simp at hmem
  have hmem := (List.mem_append.1 ha).resolve_left hreads
  simp only [List.mem_cons, Call.text.injEq, reduceCtorEq, List.not_mem_nil, or_false] at hmem
  rcases hmem with ⟨rfl, rfl⟩ | ⟨rfl, rfl⟩
  · have hle := h.total_le
    have htotal := h.total_eq
    show s.total.toNat < responseSize + 1
    omega
  · obtain ⟨rest, harray⟩ := h.array_eq
    show 0 ∈ s.array
    rw [harray]
    simp

/-- What is printed is the response, up to a zero in it. -/
theorem Terminated.cString_array (h : Terminated s) : cString s.array = cString s.received := by
  obtain ⟨rest, harray⟩ := h.array_eq
  rw [harray, cString_terminated]

theorem sslRead_notMem_connectEach (connect : Nat → Int) (addresses : List (List UInt8))
    (r : ReadCall) : ∀ k rc, .sslRead r ∉ (connectEach connect k rc addresses).1 := by
  induction addresses with
  | nil => exact fun k rc => List.not_mem_nil
  | cons addr rest ih =>
    intro k rc
    rw [connectEach]
    dsimp only
    split
    · simp
    · simpa using ih (k + 1) (connect k)

theorem sslRead_notMem_sendRequest (peer : Peer) (hostname port : List UInt8) (r : ReadCall) :
    .sslRead r ∉ (sendRequest peer hostname port).1 := by
  have hconnects (addresses : List (List UInt8)) :=
    sslRead_notMem_connectEach peer.connect addresses r 0 0
  unfold sendRequest
  dsimp only
  split
  · simp
  · split
    · simp
    · split
      · simp
      · split
        · simp [hconnects]
        · split
          · simp [hconnects]
          · split
            · simp [hconnects]
            · split
              · simp [hconnects, release]
              · split
                · simp [hconnects, release]
                · simp [hconnects]

theorem sslRead_mem_responseCalls {r : ReadCall} (h : .sslRead r ∈ responseCalls s) :
    r ∈ s.reads := by
  have hmem := (List.mem_append.1 h).resolve_right (by simp)
  obtain ⟨r', hr', hmem⟩ := List.mem_flatMap.1 hmem
  have heq : r = r' := by
    unfold readCalls at hmem
    split at hmem <;> simpa using hmem
  exact heq ▸ hr'

/-- A run ends, and its reads store below `RESPONSE_SIZE`. -/
theorem performHttpsRequest_inside (peer : Peer) (stale : Vector UInt8 (responseSize + 1))
    (hostname port : List UInt8) (hfuel : responseSize < fuel) :
    ∃ calls, performHttpsRequest peer stale fuel hostname port = some calls ∧
      ∀ r, .sslRead r ∈ calls →
        0 ≤ r.offset ∧ r.offset + (r.stored.length : Int) ≤ responseSize := by
  obtain ⟨s, hs⟩ := readResponse_ends peer.sslRead stale hfuel
  have hfront := sslRead_notMem_sendRequest peer hostname port
  unfold performHttpsRequest
  generalize sendRequest peer hostname port = front at hfront ⊢
  dsimp only
  split
  · exact ⟨_, rfl, fun r hr => absurd hr (hfront r)⟩
  · refine ⟨_, Option.bind_eq_some_iff.2 ⟨s, hs, rfl⟩, fun r hr => ?_⟩
    have hmem := (List.mem_append.1 hr).resolve_right (by simp [release])
    have hreads := (List.mem_append.1 hmem).resolve_left (hfront r)
    exact (readResponse_terminated hs).inside r (sslRead_mem_responseCalls hreads)

end LinuxNet.HttpsClient
