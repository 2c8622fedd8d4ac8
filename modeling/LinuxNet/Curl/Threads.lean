-- SUMMARY: One thread for each URL, and the files they write (curl_multithreaded.cpp).
import LinuxNet.Base.Transition
import LinuxNet.Curl.FileName
import Mathlib.Data.List.Nodup

/-! # Downloads in threads

The threads share nothing but the file system. What libcurl passes to the
callback, and which calls fail, is left open. -/

namespace LinuxNet.Curl

/-- The files by their names. Two names of one file, such as a and ./a, are two files here. -/
abbrev Files := Bytes → Option Bytes

/-- Where a thread is in `perform_request`. -/
inductive Worker
  | absent
  | starting (url : Bytes)
  | performing (url data : Bytes)
  | opening (url data : Bytes)
  | writing (filename data : Bytes)
  | finished
  | terminated
  deriving DecidableEq, Repr

/-- What a thread does next, with the result of the call. -/
inductive Action
  | init (success : Bool)
  | callback (chunk : Bytes)
  | performed (success : Bool)
  | opened (success : Bool)
  | write
  | outOfRange
  deriving DecidableEq, Repr

/-- A file after `data` has been written at its start. -/
def overwrite (data content : Bytes) : Bytes := data ++ content.drop data.length

/-- `perform_request`, and `perform_callback` within `curl_easy_perform`. -/
def Worker.next (files : Files) : Worker → Action → Option (Worker × Files)
  | .starting url, .init success =>
    some (if success then .performing url [] else .finished, files)
  | .performing url data, .callback chunk => some (.performing url (data ++ chunk), files)
  | .performing url data, .performed success =>
    some (if success then .opening url data else .finished, files)
  | .opening url data, .opened success =>
    (filename url).map fun name =>
      if success then (.writing name data, Function.update files name (some []))
      else (.finished, files)
  | .opening url _, .outOfRange =>
    if filename url = none then some (.terminated, files) else none
  | .writing name data, .write =>
    some (.finished, Function.update files name ((files name).map (overwrite data)))
  | _, _ => none

/-- The threads `main` has created and joined so far. -/
structure State where
  created : Nat
  joined : Nat
  returned : Bool
  aborted : Bool
  worker : Nat → Worker
  files : Files

inductive Label
  | create
  | thread (i : Nat) (action : Action)
  | join
  | cleanup
  deriving DecidableEq, Repr

def State.running (s : State) : Bool := !s.aborted && !s.returned

def State.after (s : State) (i : Nat) (action : Action) (w : Worker) (files : Files) : State :=
  { s with worker := Function.update s.worker i w, files := files, aborted := action == .outOfRange }

/-- A step of `main` or of a thread. An exception ends all of them. -/
inductive State.Step (urls : List Bytes) : State → Label → State → Prop
  | create {s url} (h : s.running) (hurl : urls[s.created]? = some url) :
      Step urls s .create { s with
        created := s.created + 1, worker := Function.update s.worker s.created (.starting url) }
  | thread {s i action w files} (h : s.running)
      (hnext : (s.worker i).next s.files action = some (w, files)) :
      Step urls s (.thread i action) (s.after i action w files)
  | join {s} (h : s.running) (hcreated : s.created = urls.length) (hjoined : s.joined < s.created)
      (hfinished : s.worker s.joined = .finished) :
      Step urls s .join { s with joined := s.joined + 1 }
  | cleanup {s} (h : s.running) (hcreated : s.created = urls.length)
      (hjoined : s.joined = s.created) :
      Step urls s .cleanup { s with returned := true }

def State.start (files : Files) : State where
  created := 0
  joined := 0
  returned := false
  aborted := false
  worker _ := .absent
  files := files

def Label.chunk (i : Nat) : Label → Bytes
  | .thread j (.callback chunk) => if j = i then chunk else []
  | _ => []

/-- All that the callback of a thread has been given. -/
def downloaded (i : Nat) (ls : List Label) : Bytes := ls.flatMap (Label.chunk i)

/-- Whatever the order, a thread that has written its file finds there from then on
what it has downloaded. -/
def Kept (urls : List Bytes) : Prop :=
  ∀ files ls s, Run (State.Step urls) (.start files) ls s → ∀ i url name,
    urls[i]? = some url → filename url = some name → .thread i .write ∈ ls →
      s.files name = some (downloaded i ls)

variable {urls : List Bytes} {files files' : Files} {w w' : Worker} {a : Action} {s t : State}
  {l : Label} {ls : List Label} {i j : Nat} {url name : Bytes}

/-! ## One thread -/

/-- What a thread has done so far, told by where it is. -/
def Worker.Fits (urls : List Bytes) (i : Nat) (ls : List Label) (files : Files) : Worker → Prop
  | .absent => downloaded i ls = [] ∧ .thread i .write ∉ ls
  | .starting url => urls[i]? = some url ∧ downloaded i ls = [] ∧ .thread i .write ∉ ls
  | .performing url data | .opening url data =>
    urls[i]? = some url ∧ downloaded i ls = data ∧ .thread i .write ∉ ls
  | .writing name data =>
    (∃ url, urls[i]? = some url ∧ filename url = some name) ∧ downloaded i ls = data ∧
      .thread i .write ∉ ls ∧ files name = some []
  | .finished | .terminated =>
    .thread i .write ∈ ls → ∃ url name, urls[i]? = some url ∧ filename url = some name ∧
      files name = some (downloaded i ls)

theorem downloaded_concat : downloaded i (ls ++ [l]) = downloaded i ls ++ l.chunk i := by
  simp [downloaded]

theorem Worker.Fits.next (h : w.Fits urls i ls files) (hnext : w.next files a = some (w', files')) :
    w'.Fits urls i (ls ++ [.thread i a]) files' := by
  cases w <;> cases a <;> simp only [Worker.next, reduceCtorEq] at hnext
  case starting.init url success =>
    obtain ⟨hurl, hdata, hwrite⟩ := h
    obtain ⟨rfl, rfl⟩ := Prod.mk.inj (Option.some.inj hnext)
    cases success <;> simp [Fits, downloaded_concat, Label.chunk, *]
  case performing.callback url data chunk =>
    obtain ⟨hurl, hdata, hwrite⟩ := h
    obtain ⟨rfl, rfl⟩ := Prod.mk.inj (Option.some.inj hnext)
    simp [Fits, downloaded_concat, Label.chunk, *]
  case performing.performed url data success =>
    obtain ⟨hurl, hdata, hwrite⟩ := h
    obtain ⟨rfl, rfl⟩ := Prod.mk.inj (Option.some.inj hnext)
    cases success <;> simp [Fits, downloaded_concat, Label.chunk, *]
  case opening.opened url data success =>
    obtain ⟨hurl, hdata, hwrite⟩ := h
    obtain ⟨name, hname, hnext⟩ := Option.map_eq_some_iff.1 hnext
    cases success with
    | true =>
      obtain ⟨rfl, rfl⟩ := Prod.mk.inj hnext
      simp [Fits, downloaded_concat, Label.chunk, *]
    | false =>
      obtain ⟨rfl, rfl⟩ := Prod.mk.inj hnext
      simp [Fits, downloaded_concat, Label.chunk, *]
  case opening.outOfRange url data =>
    obtain ⟨hurl, hdata, hwrite⟩ := h
    obtain ⟨-, hnext⟩ := Option.ite_none_right_eq_some.1 hnext
    obtain ⟨rfl, rfl⟩ := Prod.mk.inj (Option.some.inj hnext)
    simp [Fits, hwrite]
  case writing.write name data =>
    obtain ⟨⟨url, hurl, hname⟩, hdata, -, hempty⟩ := h
    obtain ⟨rfl, rfl⟩ := Prod.mk.inj (Option.some.inj hnext)
    rintro -
    refine ⟨url, name, hurl, hname, ?_⟩
    simp [downloaded_concat, Label.chunk, overwrite, hdata, hempty]

/-- A thread writes to no file but its own. -/
theorem Worker.Fits.files_eq (h : w.Fits urls i ls files)
    (hnext : w.next files a = some (w', files'))
    (hname : ∀ url, urls[i]? = some url → filename url ≠ some name) : files' name = files name := by
  cases w <;> cases a <;> simp only [Worker.next, reduceCtorEq] at hnext
  case opening.opened url data success =>
    obtain ⟨hurl, -, -⟩ := h
    obtain ⟨own, hown, hnext⟩ := Option.map_eq_some_iff.1 hnext
    have hne : name ≠ own := fun he => hname url hurl (he ▸ hown)
    cases success with
    | true =>
      obtain ⟨-, rfl⟩ := Prod.mk.inj hnext
      exact Function.update_of_ne hne _ _
    | false =>
      obtain ⟨-, rfl⟩ := Prod.mk.inj hnext
      rfl
  case writing.write own data =>
    obtain ⟨⟨url, hurl, hown⟩, -⟩ := h
    obtain ⟨-, rfl⟩ := Prod.mk.inj (Option.some.inj hnext)
    have hne : name ≠ own := fun he => hname url hurl (he ▸ hown)
    exact Function.update_of_ne hne _ _
  case opening.outOfRange =>
    obtain ⟨-, hnext⟩ := Option.ite_none_right_eq_some.1 hnext
    obtain ⟨-, rfl⟩ := Prod.mk.inj (Option.some.inj hnext)
    rfl
  all_goals
    obtain ⟨-, rfl⟩ := Prod.mk.inj (Option.some.inj hnext)
    rfl

/-- What others do makes no difference, as long as they leave the file of the thread alone. -/
theorem Worker.Fits.frame (h : w.Fits urls i ls files) (hchunk : l.chunk i = [])
    (hl : l ≠ .thread i .write)
    (hfiles : ∀ url name, urls[i]? = some url → filename url = some name →
      files' name = files name) :
    w.Fits urls i (ls ++ [l]) files' := by
  have hdata : downloaded i (ls ++ [l]) = downloaded i ls := by
    rw [downloaded_concat, hchunk, List.append_nil]
  have hmem : .thread i .write ∈ ls ++ [l] ↔ .thread i .write ∈ ls := by
    simp [List.mem_append, hl.symm]
  cases w with
  | absent | starting | performing | opening =>
    simpa only [Fits, hdata, hmem] using h
  | writing name data =>
    obtain ⟨⟨url, hurl, hname⟩, hrest⟩ := h
    simp only [Fits, hdata, hmem, hfiles url name hurl hname]
    exact ⟨⟨url, hurl, hname⟩, hrest⟩
  | finished | terminated =>
    intro hwrite
    obtain ⟨url, name, hurl, hname, hcontent⟩ := h (hmem.1 hwrite)
    exact ⟨url, name, hurl, hname, by rw [hfiles url name hurl hname, hdata, hcontent]⟩

/-! ## All threads -/

/-- No two threads write to one file. -/
def Apart (urls : List Bytes) : Prop := (urls.filterMap filename).Nodup

instance : Decidable (Apart urls) := inferInstanceAs (Decidable (List.Nodup _))

theorem apart_iff : Apart urls ↔ ∀ (i j : Nat) url url' name, i ≠ j → urls[i]? = some url →
    urls[j]? = some url' → filename url = some name → filename url' ≠ some name := by
  unfold Apart List.Nodup
  rw [List.pairwise_filterMap, List.pairwise_iff_getElem]
  constructor
  · intro h i j url url' name hij hi hj hname hname'
    obtain ⟨hlt, rfl⟩ := List.getElem?_eq_some_iff.1 hi
    obtain ⟨hlt', rfl⟩ := List.getElem?_eq_some_iff.1 hj
    rcases Nat.lt_or_gt_of_ne hij with hless | hless
    · exact h i j hlt hlt' hless name hname name hname' rfl
    · exact h j i hlt' hlt hless name hname' name hname rfl
  · rintro h i j hi hj hij name hname name' hname' rfl
    exact h i j _ _ name hij.ne (List.getElem?_eq_getElem hi) (List.getElem?_eq_getElem hj)
      hname hname'

/-- Each thread is where its calls so far have brought it. -/
structure State.Fits (urls : List Bytes) (ls : List Label) (s : State) : Prop where
  worker : ∀ i, (s.worker i).Fits urls i ls s.files
  absent : ∀ i, s.created ≤ i → s.worker i = .absent

theorem State.fits_start : (State.start files).Fits urls [] :=
  ⟨fun _ => ⟨rfl, List.not_mem_nil⟩, fun _ _ => rfl⟩

/-- What `main` does is no news to the threads. -/
theorem State.Fits.main (h : s.Fits urls ls) (hchunk : ∀ i, l.chunk i = [])
    (hl : ∀ i, l ≠ .thread i .write) (i : Nat) :
    (s.worker i).Fits urls i (ls ++ [l]) s.files :=
  (h.worker i).frame (hchunk i) (hl i) fun _ _ _ _ => rfl

theorem State.Fits.step (hapart : Apart urls) (h : s.Fits urls ls) (hstep : State.Step urls s l t) :
    t.Fits urls (ls ++ [l]) := by
  cases hstep with
  | @create url _ hurl =>
    have hmain := h.main (l := .create) (fun _ => rfl) (fun _ => nofun)
    refine ⟨fun i => ?_, fun i (hi : s.created + 1 ≤ i) => ?_⟩
    · by_cases hi : i = s.created
      · subst hi
        have hfresh := hmain s.created
        rw [h.absent s.created le_rfl] at hfresh
        simpa only [Function.update_self] using ⟨hurl, hfresh⟩
      · simpa only [Function.update_of_ne hi] using hmain i
    · simpa only [Function.update_of_ne (Nat.ne_of_gt hi)] using h.absent i (Nat.le_of_lt hi)
  | @thread j a w files _ hnext =>
    have hj := h.worker j
    refine ⟨fun i => ?_, fun i (hi : s.created ≤ i) => ?_⟩
    · by_cases hij : i = j
      · subst hij
        simpa only [after, Function.update_self] using hj.next hnext
      · simp only [after, Function.update_of_ne hij]
        refine (h.worker i).frame ?_ ?_ fun url name hurl hname => ?_
        · cases a <;> simp [Label.chunk, Ne.symm hij]
        · simp [Ne.symm hij]
        · exact hj.files_eq hnext fun url' hurl' =>
            apart_iff.1 hapart i j url url' name hij hurl hurl' hname
    · have hij : i ≠ j := by
        rintro rfl
        rw [h.absent i hi] at hnext
        cases a <;> cases hnext
      simpa only [after, Function.update_of_ne hij] using h.absent i hi
  | join => exact ⟨h.main (fun _ => rfl) (fun _ => nofun), h.absent⟩
  | cleanup => exact ⟨h.main (fun _ => rfl) (fun _ => nofun), h.absent⟩

theorem State.Fits.run (hapart : Apart urls) (hrun : Run (State.Step urls) (.start files) ls s) :
    s.Fits urls ls := by
  induction hrun with
  | nil => exact State.fits_start
  | snoc _ hstep ih => exact ih.step hapart hstep

theorem kept_of_apart (hapart : Apart urls) : Kept urls := by
  intro files ls s hrun i url name hurl hname hwrite
  have hfits := (State.Fits.run hapart hrun).worker i
  have hcontent : s.worker i = .finished ∨ s.worker i = .terminated := by
    cases hw : s.worker i <;> simp_all [Worker.Fits]
  rcases hcontent with hw | hw <;>
  · rw [hw] at hfits
    obtain ⟨url', name', hurl', hname', hcontent⟩ := hfits hwrite
    obtain rfl := Option.some.inj (hurl.symm.trans hurl')
    obtain rfl := Option.some.inj (hname.symm.trans hname')
    exact hcontent

/-! ## Two threads with one file -/

/-- The calls of a thread that takes turns with nobody. -/
def wholeDownload (data : Bytes) : List Action :=
  [.init true, .callback data, .performed true, .opened true, .write]

theorem State.create_all (urls : List Bytes) (files : Files) : ∀ k ≤ urls.length, ∃ s,
    Run (State.Step urls) (.start files) (List.replicate k .create) s ∧ s.running ∧
      s.created = k ∧ ∀ i url, i < k → urls[i]? = some url → s.worker i = .starting url := by
  intro k hk
  induction k with
  | zero => exact ⟨_, .nil, rfl, rfl, fun i _ hi => absurd hi (Nat.not_lt_zero i)⟩
  | succ k ih =>
    obtain ⟨s, hrun, hrunning, rfl, hworker⟩ := ih (Nat.le_of_succ_le hk)
    have hurl : urls[s.created]? = some urls[s.created] := List.getElem?_eq_getElem hk
    rw [List.replicate_succ']
    refine ⟨_, hrun.snoc (.create hrunning hurl), hrunning, rfl, fun i url hi hiurl => ?_⟩
    by_cases he : i = s.created
    · subst he
      obtain rfl := Option.some.inj (hurl.symm.trans hiurl)
      exact Function.update_self _ _ _
    · simpa only [Function.update_of_ne he] using hworker i url (by omega) hiurl

/-- One thread goes on, and the others wait. -/
theorem State.thread_run {as : List Action} (hs : s.running) (has : .outOfRange ∉ as)
    (h : as.foldlM (fun p a => Worker.next p.2 p.1 a) (s.worker i, s.files) = some (w, files)) :
    ∃ t, Run (State.Step urls) s (as.map (.thread i)) t ∧ t.running ∧
      t.worker = Function.update s.worker i w ∧ t.files = files := by
  induction as generalizing s with
  | nil =>
    obtain ⟨rfl, rfl⟩ := Prod.mk.inj (Option.some.inj h)
    exact ⟨s, .nil, hs, by simp, rfl⟩
  | cons a as ih =>
    rw [List.foldlM_cons] at h
    obtain ⟨⟨w', files'⟩, hnext, hrest⟩ := Option.bind_eq_some_iff.1 h
    obtain ⟨ha, has⟩ := not_or.1 (mt List.mem_cons.2 has)
    have hafter : (s.after i a w' files').running := by
      have hreturned : (!s.returned) = true := (Bool.and_eq_true_iff.1 hs).2
      simp [running, after, hreturned, Ne.symm ha]
    have hself : (s.after i a w' files').worker i = w' := Function.update_self _ _ _
    obtain ⟨t, hrun, ht, hworker, hfiles⟩ := ih hafter has (hself.symm ▸ hrest)
    refine ⟨t, Run.cons (.thread hs hnext) hrun, ht, ?_, hfiles⟩
    rw [hworker, after, Function.update_idem]

theorem Worker.next_download {data : Bytes} (hname : filename url = some name) :
    (wholeDownload data).foldlM (fun p a => Worker.next p.2 p.1 a) (.starting url, files) =
      some (.finished, Function.update files name (some data)) := by
  simp [wholeDownload, Worker.next, hname, overwrite]

theorem State.download (urls : List Bytes) (data : Bytes) (hs : s.running)
    (hworker : s.worker i = .starting url) (hname : filename url = some name) :
    ∃ t, Run (State.Step urls) s ((wholeDownload data).map (.thread i)) t ∧ t.running ∧
      t.worker = Function.update s.worker i .finished ∧
      t.files = Function.update s.files name (some data) :=
  State.thread_run hs (by simp [wholeDownload]) (hworker ▸ Worker.next_download hname)

theorem downloaded_append (ls' : List Label) :
    downloaded i (ls ++ ls') = downloaded i ls ++ downloaded i ls' :=
  List.flatMap_append

theorem downloaded_create (k : Nat) : downloaded i (List.replicate k .create) = [] := by
  simp [downloaded, Label.chunk]

theorem downloaded_thread (data : Bytes) :
    downloaded i ((wholeDownload data).map (.thread j)) = if j = i then data else [] := by
  simp [downloaded, wholeDownload, Label.chunk]

theorem apart_of_kept (h : Kept urls) : Apart urls := by
  rw [apart_iff]
  intro i j url url' name hij hi hj hname hname'
  obtain ⟨s, hrun, hs, -, hworker⟩ := State.create_all urls (fun _ => none) urls.length le_rfl
  have hstarting := hworker i url (List.getElem?_eq_some_iff.1 hi).1 hi
  obtain ⟨t, hfirst, ht, htworker, -⟩ := State.download urls [1] hs hstarting hname
  have hstarting' : t.worker j = .starting url' := by
    rw [htworker, Function.update_of_ne hij.symm]
    exact hworker j url' (List.getElem?_eq_some_iff.1 hj).1 hj
  obtain ⟨u, hsecond, -, -, hufiles⟩ := State.download urls [2] ht hstarting' hname'
  have hkept := h _ _ u ((hrun.trans hfirst).trans hsecond) i url name hi hname
    (by simp [wholeDownload])
  rw [hufiles, Function.update_self, downloaded_append, downloaded_append, downloaded_create,
    downloaded_thread, downloaded_thread, if_pos rfl, if_neg hij.symm] at hkept
  exact absurd hkept (by decide)

/-- Every thread's file holds what the thread has downloaded, in whatever order they
run, if and only if no two threads write to one file. -/
theorem kept_iff_apart : Kept urls ↔ Apart urls :=
  ⟨apart_of_kept, kept_of_apart⟩

/-- Web sites with different names are not written to one file. -/
theorem apart_websites {sites : List (Bytes × Bytes)} (hnames : (sites.map Prod.fst).Nodup)
    (hsites : ∀ site ∈ sites, (website site.1 site.2).length < CxxString.npos ∧ dot ∉ site.2) :
    Apart (sites.map fun site => website site.1 site.2) := by
  have hfiles : (sites.map fun site => website site.1 site.2).filterMap filename =
      (sites.map Prod.fst).map (· ++ bytesOf ".html") := by
    rw [List.filterMap_map, List.map_map, ← List.filterMap_eq_map]
    refine List.filterMap_congr fun site hsite => ?_
    exact filename_website (hsites site hsite).1 (hsites site hsite).2
  rw [Apart, hfiles]
  exact hnames.map fun _ _ h => List.append_cancel_right h

/-- The list in `main`. -/
example : Kept [bytesOf "http://www.example.com", bytesOf "http://www.google.com",
    bytesOf "http://www.bing.com", bytesOf "http://www.speedtest.net"] :=
  kept_of_apart (by decide)

end LinuxNet.Curl
