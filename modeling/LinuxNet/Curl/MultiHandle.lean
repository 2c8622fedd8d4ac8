-- SUMMARY: All transfers driven by one loop, and then written to their files (curl_multi_handle.cpp).
import LinuxNet.Curl.Threads
import Mathlib.Data.List.Range

/-! # Downloads in one loop

Nothing tells `main` how a transfer has ended. What has arrived by the end of the
loop is written. -/

namespace LinuxNet.Curl

structure EasyHandle where
  url : Bytes
  data : Bytes
  deriving DecidableEq, Repr

/-- `perform_callback` for one of the handles. -/
structure Callback where
  handle : Nat
  chunk : Bytes
  deriving DecidableEq, Repr

def EasyHandle.append (h : EasyHandle) (chunk : Bytes) : EasyHandle :=
  { h with data := h.data ++ chunk }

def performCallback (handles : List EasyHandle) (c : Callback) : List EasyHandle :=
  handles.modify c.handle (·.append c.chunk)

/-- A round of the loop: what happens in `curl_multi_perform`, what it returns, and
what `curl_multi_wait` does. -/
structure Round where
  callbacks : List Callback
  runningStatus : Int
  performed : Nat
  waited : Nat
  deriving DecidableEq, Repr

/-- `CURLM_OK` -/
def curlmOk : Nat := 0

/-- `rc` after the wait, which is left out when `curl_multi_perform` fails. -/
def Round.rc (r : Round) : Nat := if r.performed = curlmOk then r.waited else r.performed

def Round.breaks (r : Round) : Bool := r.rc ≠ curlmOk

/-- The `do` loop, with the rounds it takes. There is no result while it goes on. -/
def drive (handles : List EasyHandle) : List Round → Option (List EasyHandle × List Round)
  | [] => none
  | r :: rounds =>
    let handles := r.callbacks.foldl performCallback handles
    if r.breaks then some (handles, [r])
    else if r.runningStatus ≠ 0 then (drive handles rounds).map fun (hs, rs) => (hs, r :: rs)
    else some (handles, [r])

/-- The `for` loop that writes the files. `opens` tells which files can be opened.
An exception ends the program. -/
def save (opens : Nat → Bool) (files : Files) : Nat → List EasyHandle → Files × Bool
  | _, [] => (files, true)
  | i, handle :: handles =>
    match filename handle.url with
    | none => (files, false)
    | some name =>
      if opens i then save opens (Function.update files name (some handle.data)) (i + 1) handles
      else save opens files (i + 1) handles

/-- The handles after `curl_multi_perform` has been called before the loop. Its result
is ignored. -/
def added (urls : List Bytes) (first : List Callback) : List EasyHandle :=
  first.foldl performCallback (urls.map fun url => ⟨url, []⟩)

/-- `main`, the rounds the loop has taken, and whether it returns. -/
def main (urls : List Bytes) (first : List Callback) (rounds : List Round) (opens : Nat → Bool)
    (files : Files) : Option (Files × Bool × List Round) :=
  (drive (added urls first) rounds).map fun (handles, taken) =>
    let (files, returned) := save opens files 0 handles
    (files, returned, taken)

/-- What the callback has been given for one handle. -/
def delivered (i : Nat) (calls : List Callback) : Bytes :=
  calls.flatMap fun c => if c.handle = i then c.chunk else []

/-- A handle whose data is written to a file. -/
def Writes (urls : List Bytes) (opens : Nat → Bool) (name : Bytes) (i : Nat) : Prop :=
  opens i ∧ ∃ url, urls[i]? = some url ∧ filename url = some name

variable {handles : List EasyHandle} {calls : List Callback} {urls : List Bytes} {i k : Nat}
  {opens : Nat → Bool} {files files' : Files} {rounds taken : List Round} {name : Bytes}

/-! ## Callbacks -/

theorem foldl_performCallback : calls.foldl performCallback handles =
    handles.mapIdx fun i h => h.append (delivered i calls) := by
  induction calls generalizing handles with
  | nil =>
    refine List.ext_getElem? fun i => ?_
    simp [List.getElem?_mapIdx, delivered, EasyHandle.append]
  | cons c calls ih =>
    rw [List.foldl_cons, ih]
    refine List.ext_getElem? fun i => ?_
    rw [List.getElem?_mapIdx, List.getElem?_mapIdx, performCallback, List.getElem?_modify]
    by_cases h : c.handle = i <;> simp [h, delivered, EasyHandle.append, Function.comp_def]

/-! ## The loop -/

/-- The loop goes on for as long as nothing fails and something is left to do. -/
def Round.last (r : Round) : Prop := r.breaks ∨ r.runningStatus = 0

theorem drive_eq_some {hs : List EasyHandle} (h : drive handles rounds = some (hs, taken)) :
    taken <+: rounds ∧ (∃ before r, taken = before ++ [r] ∧ r.last ∧ ∀ r ∈ before, ¬ r.last) ∧
      hs = (taken.flatMap Round.callbacks).foldl performCallback handles := by
  induction rounds generalizing handles hs taken with
  | nil => cases h
  | cons r rounds ih =>
    unfold drive at h
    dsimp only at h
    split at h
    case isTrue hbreaks =>
      obtain ⟨rfl, rfl⟩ := Prod.mk.inj (Option.some.inj h)
      exact ⟨by simp, ⟨[], r, rfl, .inl hbreaks, by simp⟩, by simp⟩
    case isFalse hbreaks =>
      split at h
      case isTrue hstatus =>
        obtain ⟨⟨hs', rest⟩, hdrive, heq⟩ := Option.map_eq_some_iff.1 h
        obtain ⟨rfl, rfl⟩ := Prod.mk.inj heq
        obtain ⟨hinitial, ⟨before, last, rfl, hlast, hbefore⟩, rfl⟩ := ih hdrive
        refine ⟨List.cons_prefix_cons.2 ⟨rfl, hinitial⟩, ⟨r :: before, last, rfl, hlast, ?_⟩, by simp⟩
        exact List.forall_mem_cons.2 ⟨not_or.2 ⟨hbreaks, hstatus⟩, hbefore⟩
      case isFalse hstatus =>
        obtain ⟨rfl, rfl⟩ := Prod.mk.inj (Option.some.inj h)
        exact ⟨by simp, ⟨[], r, rfl, .inr (not_not.1 hstatus), by simp⟩, by simp⟩

/-- The loop ends exactly if there is a last round. -/
theorem drive_isSome : (drive handles rounds).isSome ↔ ∃ r ∈ rounds, r.last := by
  induction rounds generalizing handles with
  | nil => simp [drive]
  | cons r rounds ih =>
    unfold drive
    dsimp only
    split
    case isTrue hbreaks =>
      exact iff_of_true rfl ⟨r, List.mem_cons_self, .inl hbreaks⟩
    case isFalse hbreaks =>
      split
      case isTrue hstatus =>
        rw [Option.isSome_map, ih, List.exists_mem_cons_iff]
        exact (or_iff_right (not_or.2 ⟨hbreaks, hstatus⟩)).symm
      case isFalse hstatus =>
        exact iff_of_true rfl ⟨r, List.mem_cons_self, .inr (not_not.1 hstatus)⟩

/-! ## The files -/

theorem save_returns : (save opens files k handles).2 ↔ ∀ h ∈ handles, 11 ≤ h.url.length := by
  induction handles generalizing k files with
  | nil => simp [save]
  | cons h handles ih =>
    unfold save
    split
    case h_1 hname =>
      have hshort := filename_eq_none.1 hname
      simp
      omega
    case h_2 name hname =>
      have hlong : 11 ≤ h.url.length :=
        Nat.not_lt.1 fun hshort => Option.some_ne_none name
          (hname.symm.trans (filename_eq_none.2 hshort))
      split <;> simp [ih, hlong]

/-- A file that no handle is written to is left alone. -/
theorem save_unchanged (hno : ∀ i h, handles[i]? = some h → opens (k + i) →
    filename h.url ≠ some name) : (save opens files k handles).1 name = files name := by
  induction handles generalizing k files with
  | nil => rfl
  | cons h handles ih =>
    have hrest : ∀ i h', handles[i]? = some h' → opens (k + 1 + i) →
        filename h'.url ≠ some name := fun i h' hi hopens =>
      hno (i + 1) h' (by simpa using hi) (by rwa [Nat.add_right_comm] at hopens)
    unfold save
    split
    · rfl
    case h_2 own hown =>
      split
      case isTrue hopens =>
        have hne : name ≠ own := fun he => hno 0 h rfl hopens (he ▸ hown)
        rw [ih hrest, Function.update_of_ne hne]
      case isFalse => exact ih hrest

/-- The last handle that is written to a file is what is found there. -/
theorem save_last {h : EasyHandle} (hreturns : (save opens files k handles).2)
    (hi : handles[i]? = some h) (hopens : opens (k + i)) (hname : filename h.url = some name)
    (hlast : ∀ j h', i < j → handles[j]? = some h' → opens (k + j) → filename h'.url ≠ some name) :
    (save opens files k handles).1 name = some h.data := by
  induction handles generalizing i k files with
  | nil => cases hi
  | cons h' handles ih =>
    have hrest : ∀ j h', i < j + 1 → handles[j]? = some h' → opens (k + 1 + j) →
        filename h'.url ≠ some name := fun j h' hij hj hopens =>
      hlast (j + 1) h' hij (by simpa using hj) (by rwa [Nat.add_right_comm] at hopens)
    unfold save at hreturns ⊢
    cases i with
    | zero =>
      obtain rfl := Option.some.inj hi
      rw [hname]
      simp only [show opens k = true from hopens, if_true]
      rw [save_unchanged fun j h' hj => hrest j h' (Nat.succ_pos j) hj, Function.update_self]
    | succ i =>
      have hopens' : opens (k + 1 + i) := by rwa [Nat.add_right_comm]
      cases hown : filename h'.url with
      | none => simp [hown] at hreturns
      | some own =>
        simp only [hown] at hreturns ⊢
        split at hreturns <;>
        · rename_i hopen
          simp only [hopen]
          exact ih hreturns (by simpa using hi) hopens' fun j h' hij hj =>
            hrest j h' (Nat.succ_lt_succ hij) hj

/-! ## main -/

theorem main_handles {hs : List EasyHandle} (first : List Callback)
    (h : hs = calls.foldl performCallback (added urls first)) (i : Nat) :
    hs[i]? = urls[i]?.map fun url => ⟨url, delivered i (first ++ calls)⟩ := by
  rw [h, added, ← List.foldl_append, foldl_performCallback, List.getElem?_mapIdx,
    List.getElem?_map, Option.map_map]
  rfl

theorem main_eq_some {first : List Callback} {returned : Bool}
    (h : main urls first rounds opens files = some (files', returned, taken)) :
    ∃ hs, drive (added urls first) rounds = some (hs, taken) ∧
      save opens files 0 hs = (files', returned) := by
  obtain ⟨⟨hs, taken'⟩, hdrive, heq⟩ := Option.map_eq_some_iff.1 h
  simp only [Prod.mk.injEq] at heq
  obtain ⟨rfl, rfl, rfl⟩ := heq
  exact ⟨hs, hdrive, rfl⟩

/-- The loop of `main` ends exactly if a round fails or leaves nothing to do. -/
theorem main_isSome {first : List Callback} :
    (main urls first rounds opens files).isSome ↔ ∃ r ∈ rounds, r.last := by
  rw [main, Option.isSome_map, drive_isSome]

/-- The loop takes rounds until one fails or leaves nothing to do, and `main` returns
unless a URL is too short. However the loop has ended, every file that could be opened
then holds what the last handle with its name had been given by then, and no other file
has changed. -/
theorem main_writes {first : List Callback} {returned : Bool}
    (h : main urls first rounds opens files = some (files', returned, taken)) :
    (taken <+: rounds ∧ ∃ before r, taken = before ++ [r] ∧ r.last ∧ ∀ r ∈ before, ¬ r.last) ∧
    (returned ↔ ∀ url ∈ urls, 11 ≤ url.length) ∧
    (returned → ∀ name i, Writes urls opens name i → (∀ j, i < j → ¬ Writes urls opens name j) →
      files' name = some (delivered i (first ++ taken.flatMap Round.callbacks))) ∧
    ∀ name, (∀ i, ¬ Writes urls opens name i) → files' name = files name := by
  obtain ⟨hs, hdrive, hsave⟩ := main_eq_some h
  obtain ⟨hinitial, hlast, hhandles⟩ := drive_eq_some hdrive
  have hget := main_handles first hhandles
  have hwrites {name : Bytes} {i : Nat} {handle : EasyHandle} (hi : hs[i]? = some handle)
      (hopens : opens (0 + i)) (hname : filename handle.url = some name) :
      Writes urls opens name i := by
    obtain ⟨url, hurl, rfl⟩ := Option.map_eq_some_iff.1 ((hget i).symm.trans hi)
    exact ⟨by simpa using hopens, url, hurl, hname⟩
  have hfiles : files' = (save opens files 0 hs).1 := by rw [hsave]
  have hreturned : returned = (save opens files 0 hs).2 := by rw [hsave]
  refine ⟨⟨hinitial, hlast⟩, ?_, fun hr name i hi hlater => ?_, fun name hno => ?_⟩
  · rw [hreturned, save_returns]
    have hurls : hs.map EasyHandle.url = urls :=
      List.ext_getElem? fun i => by simp [hget, Option.map_map, Function.comp_def]
    rw [← hurls, List.forall_mem_map]
  · obtain ⟨hopens, url, hurl, hname⟩ := hi
    rw [hfiles]
    have hi : hs[i]? = some ⟨url, delivered i (first ++ taken.flatMap Round.callbacks)⟩ := by
      rw [hget, hurl]
      rfl
    exact save_last (hreturned ▸ hr) hi (by simpa using hopens) hname
      fun j h' hij hj hopens hname' => hlater j hij (hwrites hj hopens hname')
  · rw [hfiles]
    exact save_unchanged fun i h' hi hopens hname => hno i (hwrites hi hopens hname)

def twoSites : List Bytes :=
  [website (bytesOf "a") (bytesOf "org"), website (bytesOf "b") (bytesOf "org")]

/-- The second round fails. -/
def twoRounds : List Round := [⟨[⟨0, [1]⟩], 2, 0, 0⟩, ⟨[⟨0, [2]⟩], 2, 1, 0⟩]

theorem main_writes_failed : ∃ files',
    main twoSites [] twoRounds (fun _ => true) (fun _ => none) = some (files', true, twoRounds) ∧
      files' (bytesOf "a.html") = some [1, 2] := by
  refine ⟨_, rfl, ?_⟩
  have hmain := main_writes (rfl : main twoSites [] twoRounds (fun _ => true) (fun _ => none) =
    some (_, true, twoRounds))
  refine hmain.2.2.1 rfl (bytesOf "a.html") 0 ⟨rfl, _, rfl, by decide⟩ fun j hj => ?_
  rintro ⟨-, url, hurl, hname⟩
  obtain rfl : j = 1 := by
    have hlt : j < 2 := (List.getElem?_eq_some_iff.1 hurl).1
    omega
  obtain rfl := Option.some.inj hurl
  exact absurd hname (by decide)

end LinuxNet.Curl
