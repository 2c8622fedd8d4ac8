-- SUMMARY: When the HTTP server's answer to a request does not depend on how TCP cuts the request.
import LinuxNet.Base.CString
import LinuxNet.HttpServer.Containment
import LinuxNet.HttpServer.Handler
import LinuxNet.HttpServer.RoundTrip

/-! # Requests that arrive in pieces

The handler answers the first piece. Its path is a part of the path of the
request, and its headers are those that have arrived. -/

namespace LinuxNet.HttpServer

open UnixPath (Dir)

variable {raw method path rest : Bytes} {limits : StringLimits} {request : HTTPRequest} {n : Nat}

/-! ## The path in a piece -/

/-- The path that `parse` finds is in the first line. -/
theorem parse_path (h : parse limits raw = .ok request)
    (hblank : raw.takeWhile (· ≠ newline) ≠ [carriageReturn]) :
    request.path = (readFirstLine (raw.takeWhile (· ≠ newline))).2 := by
  have hline := (parse_parts h).1
  unfold requestLine at hline
  rw [if_neg hblank] at hline
  exact (congrArg Prod.snd hline).symm

theorem takeWhile_take_line {line : Bytes} (h : newline ∉ line) (rest : Bytes) (n : Nat) :
    ((line ++ newline :: rest).take n).takeWhile (· ≠ newline) = line.take n := by
  have hall : ∀ b ∈ line, decide (b ≠ newline) = true := fun b hb =>
    decide_eq_true fun he => h (he ▸ hb)
  rw [← List.take_takeWhile, List.takeWhile_append_of_pos hall]
  simp

/-- The word in the first `k` bytes of a word and a space. -/
theorem extract_take (hne : path ≠ []) (hpath : ∀ b ∈ path, isSpace b = false) (rest : Bytes)
    (k : Nat) : ((IStream.ofBytes ((path ++ space :: rest).take k)).extract []).2 =
      path.take k := by
  rcases Nat.lt_or_ge path.length k with hlong | hshort
  · obtain ⟨j, rfl⟩ : ∃ j, k = path.length + 1 + j := ⟨k - (path.length + 1), by omega⟩
    have hcut : (path ++ space :: rest).take (path.length + 1 + j) =
        path ++ space :: rest.take j := by
      rw [List.take_append, List.take_of_length_le (by omega)]
      congr 1
      rw [show path.length + 1 + j - path.length = j + 1 by omega]
      rfl
    have hall : path.take (path.length + 1 + j) = path := List.take_of_length_le (by omega)
    rw [hcut, IStream.extract_word hne hpath isSpace_space, hall]
  · rw [List.take_append_of_le_length hshort]
    rcases Nat.eq_zero_or_pos k with rfl | hk
    · exact IStream.extract_none _ (.inr rfl) _
    · have hsome : path.take k ≠ [] := by simp [hne, hk.ne']
      rw [IStream.extract_last hsome fun b hb => hpath b (List.mem_of_mem_take hb)]

/-- The path in the first `n` bytes of a request line. -/
theorem readFirstLine_take (hmethod : method ≠ []) (hmethodWord : ∀ b ∈ method, isSpace b = false)
    (hpath : path ≠ []) (hpathWord : ∀ b ∈ path, isSpace b = false) (rest : Bytes) (hn : 0 < n) :
    (readFirstLine ((method ++ space :: (path ++ space :: rest)).take n)).2 =
      path.take (n - (method.length + 1)) := by
  unfold readFirstLine
  rcases Nat.lt_or_ge method.length n with hlong | hshort
  · obtain ⟨k, rfl⟩ : ∃ k, n = method.length + 1 + k := ⟨n - (method.length + 1), by omega⟩
    have hcut : (method ++ space :: (path ++ space :: rest)).take (method.length + 1 + k) =
        method ++ space :: (path ++ space :: rest).take k := by
      rw [List.take_append, List.take_of_length_le (by omega)]
      congr 1
      rw [show method.length + 1 + k - method.length = k + 1 by omega]
      rfl
    rw [hcut, IStream.extract_word hmethod hmethodWord isSpace_space]
    dsimp only
    rw [IStream.extract_space isSpace_space, extract_take hpath hpathWord, Nat.add_sub_cancel_left]
  · have hcut : (method ++ space :: (path ++ space :: rest)).take n = method.take n :=
      List.take_append_of_le_length hshort
    have hword : ∀ b ∈ method.take n, isSpace b = false := fun b hb =>
      hmethodWord b (List.mem_of_mem_take hb)
    have hsome : method.take n ≠ [] := by simp [hmethod, hn.ne']
    rw [hcut, IStream.extract_last hsome hword, Nat.sub_eq_zero_of_le (by omega)]
    exact IStream.extract_none _ (.inl rfl) _

namespace WireRequest

variable (r : WireRequest)

/-- The path in the first `n` bytes of a request. -/
def pathIn (n : Nat) : Bytes := r.path.take (n - (r.method.length + 1))

theorem parse_take (hn : 0 < n) (h : parse limits (r.render.take n) = .ok request) :
    request.path = r.pathIn n := by
  obtain ⟨hline, -⟩ := firstLine_spec r.method_word r.path_word
  have htake : (r.render.take n).takeWhile (· ≠ newline) = (firstLine r.method r.path).take n :=
    takeWhile_take_line hline _ n
  obtain ⟨b, tail, hmethod⟩ := List.exists_cons_of_ne_nil r.method_ne_nil
  obtain ⟨k, rfl⟩ : ∃ k, n = k + 1 := ⟨n - 1, by omega⟩
  have hfirst : (firstLine r.method r.path).take (k + 1) = b :: (tail ++ space ::
      (r.path ++ space :: (bytesOf "HTTP/1.1" ++ [carriageReturn]))).take k := by
    rw [firstLine, hmethod]
    rfl
  have hpath := parse_path h
  rw [htake] at hpath
  rw [hpath ?_, firstLine, readFirstLine_take r.method_ne_nil r.method_word r.path_ne_nil
    r.path_word _ hn]
  · rfl
  · intro he
    rw [hfirst] at he
    have hb : b = carriageReturn := (List.cons.inj he).1
    have hspace := r.method_word b (hmethod ▸ List.mem_cons_self)
    rw [hb] at hspace
    exact absurd hspace (by decide)

theorem render_ne_nil : r.render ≠ [] :=
  List.append_ne_nil_of_right_ne_nil _ (List.cons_ne_nil _ _)

theorem mem_render (b : UInt8) (h : b ∈ r.path) : b ∈ r.render := by
  simp [render, firstLine, h]

end WireRequest

/-! ## The response -/

/-- The response with the page in a directory, if the page can be read. -/
def page (fs : FileSystem) (status : Nat) (dir : List Bytes) : HTTPResponse :=
  match fs.content (dir ++ [httpMainPage]) with
  | some htmlContent => HTTPResponse.setBody htmlContent ⟨status, [], []⟩
  | none => ⟨status, [], []⟩

/-- What the router makes of the names that it finds below the current directory. -/
def routeNames (fs : FileSystem) (cwd : Dir) (names : List Bytes) : Except Errno HTTPResponse :=
  (fs.status (cwd.names ++ names)).map fun type =>
    if type = .directory then page fs http200 (cwd.names ++ names)
    else page fs http404 (cwd.names ++ UnixPath.names (httpRootPath ++ bytesOf "/404"))

variable {fs : FileSystem} {cwd : Dir} {env : Environment}

theorem read_filename (h : 0 ∉ path) : fs.read (filename (rootPath cwd path)) =
    fs.content (cwd.names ++ UnixPath.names (httpRootPath ++ path) ++ [httpMainPage]) := by
  have hzero : 0 ∉ rootPath cwd path := fun hmem => by
    rw [rootPath_append] at hmem
    exact (List.mem_append.1 hmem).elim zero_not_mem_root h
  rw [FileSystem.read, cString_filename hzero, names_filename, names_rootPath]

theorem route_eq (h : 0 ∉ request.path) :
    route fs cwd request = routeNames fs cwd (UnixPath.names (httpRootPath ++ request.path)) := by
  have hmissing : 0 ∉ bytesOf "/404" := by decide
  rw [route, choose_eq, cString_eq_self h, names_rootPath, routeNames]
  cases fs.status (cwd.names ++ UnixPath.names (httpRootPath ++ request.path)) with
  | error e => rfl
  | ok type =>
    by_cases hdir : type = .directory
    · simp only [Except.map, hdir, if_true, Except.bind_ok, page, ← read_filename h]
      cases fs.read (filename (rootPath cwd request.path)) <;> rfl
    · simp only [Except.map, hdir, if_false, Except.bind_ok, page, ← read_filename hmissing]
      cases fs.read (filename (rootPath cwd (bytesOf "/404"))) <;> rfl

theorem respond_eq (hparse : parse env.limits raw = .ok request) (h : 0 ∉ request.path) :
    respond env raw = ((routeNames env.fs env.cwd
      (UnixPath.names (httpRootPath ++ request.path))).mapError .filesystem).map
        HTTPResponse.toBytes := by
  rw [respond, hparse, Except.mapError_ok, Except.bind_ok, route_eq h]
  cases routeNames env.fs env.cwd (UnixPath.names (httpRootPath ++ request.path)) <;> rfl

theorem respond_render (r : WireRequest) (hmem : r.render.length ≤ env.limits.memory)
    (h : 0 ∉ r.path) : respond env r.render = ((routeNames env.fs env.cwd
      (UnixPath.names (httpRootPath ++ r.path))).mapError .filesystem).map
        HTTPResponse.toBytes := by
  have hparse := r.parse_eq hmem
  rw [respond_eq hparse h]

/-- The bytes of a request without zeros reach the parser as they are. -/
theorem answers_segmentation {stream : Bytes} (cut : Segmentation messageSize stream)
    (hne : stream ≠ []) (hzero : 0 ∉ stream) :
    answers env cut.results = (respond env cut.first).map fun response => [response] := by
  obtain ⟨p, pieces, hpieces, hfirst, tail, happend⟩ := cut.exists_first hne
  have hself : cString (filled messageSize p.1) = p.1 := by
    rw [cString_filled]
    exact cString_eq_self fun hmem => hzero (happend ▸ List.mem_append_left _ hmem)
  rw [Segmentation.results, hpieces, List.map_cons, answers_cons, hself, hfirst]

/-- Only one path leads to a directory, which has no page. -/
def onlyDirectory (dir : List Bytes) : FileSystem where
  status := fun names => .ok (if names = dir then .directory else .notFound)
  content := fun _ => none

/-- Whatever the files are, the server answers a request the same as when it
arrives as a whole, if and only if its first piece has no Content-Length on which
`parse` throws, and what the piece lacks of the path does not change the names in
it. -/
theorem answers_whole_iff (r : WireRequest) (cut : Segmentation messageSize r.render)
    (hlt : r.render.length < messageSize) (hzero : 0 ∉ r.render)
    (hmem : r.render.length ≤ limits.memory) (cwd : Dir) (send : Bytes → SendResult) :
    (∀ fs, answers ⟨limits, fs, cwd, send⟩ cut.results =
      answers ⟨limits, fs, cwd, send⟩ (Segmentation.whole r.render_ne_nil hlt.le).results) ↔
    LengthOk limits cut.first ∧
      UnixPath.names (httpRootPath ++ r.pathIn cut.first.length) =
        UnixPath.names (httpRootPath ++ r.path) := by
  obtain ⟨p, pieces, -, hfirst, tail, happend⟩ := cut.exists_first r.render_ne_nil
  have hpart : cut.first = r.render.take cut.first.length := by
    rw [hfirst, happend, List.take_left]
  have hpos : 0 < cut.first.length := hfirst ▸ List.length_pos_of_ne_nil p.2.1
  have hpath : 0 ∉ r.path := fun hin => hzero (r.mem_render 0 hin)
  have hpathIn : 0 ∉ r.pathIn cut.first.length := fun hin => hpath (List.mem_of_mem_take hin)
  have hpiece : ∀ request, parse limits cut.first = .ok request →
      request.path = r.pathIn cut.first.length := fun request hparse =>
    r.parse_take hpos (hpart ▸ hparse)
  have hwhole : ∀ fs, respond ⟨limits, fs, cwd, send⟩ r.render =
      ((routeNames fs cwd (UnixPath.names (httpRootPath ++ r.path))).mapError .filesystem).map
        HTTPResponse.toBytes := fun fs => respond_render r hmem hpath
  simp only [answers_segmentation _ r.render_ne_nil hzero]
  have hrender : (Segmentation.whole r.render_ne_nil hlt.le).first = r.render := rfl
  rw [hrender]
  constructor
  · intro hsame
    replace hsame := hsame (onlyDirectory (cwd.names ++ UnixPath.names (httpRootPath ++ r.path)))
    rw [hwhole] at hsame
    cases hparse : parse limits cut.first with
    | error e =>
      rw [respond, hparse] at hsame
      simp [routeNames, onlyDirectory, Except.map] at hsame
    | ok request =>
      refine ⟨parse_ok_iff.1 ⟨request, hparse⟩, not_not.1 fun hnames => ?_⟩
      have hrequest := hpiece request hparse
      rw [respond_eq hparse (hrequest ▸ hpathIn), hrequest] at hsame
      simp only [routeNames, onlyDirectory, Except.map, List.append_cancel_left_eq, if_neg hnames,
        if_true, page, Except.mapError_ok, Except.ok.injEq, List.cons.injEq, and_true] at hsame
      exact absurd hsame (by decide)
  · rintro ⟨hlength, hnames⟩ fs
    obtain ⟨request, hparse⟩ := parse_ok_iff.2 hlength
    have hrequest := hpiece request hparse
    rw [hwhole, respond_eq hparse (hrequest ▸ hpathIn), hrequest, hnames]

/-- A request for the page of the status 200. -/
def getRequest : WireRequest where
  method := bytesOf "GET"
  path := bytesOf "/200"
  fields := []
  body := []
  method_ne_nil := by decide
  method_word := by decide +kernel
  path_ne_nil := by decide
  path_word := by decide +kernel
  key_spec := by decide
  val_spec := by decide
  body_lt := by decide
  length_spec := by decide
  body_eq_nil := by decide

/-- The request in two pieces, the first of `n` bytes. -/
def cutAt (n : Nat) (h : 0 < n ∧ n < getRequest.render.length) :
    Segmentation messageSize getRequest.render where
  pieces :=
    have hle : getRequest.render.length ≤ messageSize := by decide
    [⟨getRequest.render.take n, by simp [getRequest.render_ne_nil, h.1.ne'],
        (List.length_take_le _ _).trans (by omega)⟩,
      ⟨getRequest.render.drop n, by simp; omega, by simp; omega⟩]
  flatten := by simp

/-- A cut in the name of the version. -/
theorem answers_whole_iff_version :
    answers ⟨stringLimits, directories, srv, fun b => .sent b.length⟩
        (cutAt 12 ⟨by decide, by decide⟩).results =
      answers ⟨stringLimits, directories, srv, fun b => .sent b.length⟩
        [.data getRequest.render (by decide)] := by
  have hnone : requestHeaders (cutAt 12 ⟨by decide, by decide⟩).first contentLength = none := rfl
  have hlength : LengthOk stringLimits (cutAt 12 ⟨by decide, by decide⟩).first := by
    intro val hval
    rw [hnone] at hval
    cases hval
  exact (answers_whole_iff getRequest (cutAt 12 ⟨by decide, by decide⟩) (by decide) (by decide)
    (by decide) srv fun b => .sent b.length).2 ⟨hlength, rfl⟩ directories

/-- A cut after the first byte of the name in the path: the server looks for the
directory "2". -/
theorem answers_depend_on_cut : ¬ ∀ (r : WireRequest) (cut : Segmentation messageSize r.render)
    (env : Environment) (hlt : r.render.length < messageSize), 0 ∉ r.render →
    answers env cut.results =
      answers env (Segmentation.whole r.render_ne_nil hlt.le).results := by
  intro hall
  let fs := onlyDirectory (srv.names ++ [httpRootPath, bytesOf "200"])
  have hsame := hall getRequest (cutAt 6 ⟨by decide, by decide⟩)
    ⟨stringLimits, fs, srv, fun b => .sent b.length⟩ (by decide) (by decide)
  have hcut : answers ⟨stringLimits, fs, srv, fun b => .sent b.length⟩
      (cutAt 6 ⟨by decide, by decide⟩).results =
        .ok [HTTPResponse.toBytes ⟨http404, [], []⟩] := rfl
  have hwhole : answers ⟨stringLimits, fs, srv, fun b => .sent b.length⟩
      (Segmentation.whole getRequest.render_ne_nil (by decide)).results =
        .ok [HTTPResponse.toBytes ⟨http200, [], []⟩] := rfl
  rw [hcut, hwhole] at hsame
  exact absurd (List.singleton_inj.1 (Except.ok.inj hsame)) (by decide)

end LinuxNet.HttpServer
