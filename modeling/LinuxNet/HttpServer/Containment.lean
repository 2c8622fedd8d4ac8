-- SUMMARY: For which request paths the router opens a file inside the root of the pages.
import LinuxNet.Base.CString
import LinuxNet.HttpServer.ParserSpec
import LinuxNet.HttpServer.Router

/-! # Containment

The router puts the path of the request behind that of the root, whatever ".."
it has and whether or not it starts with a slash. -/

namespace LinuxNet.HttpServer

open UnixPath (Dir slash)

variable {fs : FileSystem} {cwd : Dir} {request : HTTPRequest} {path : Bytes}

/-- The root of the pages, as the names from the root directory. -/
def httpRoot (cwd : Dir) : List Bytes := cwd.names ++ [httpRootPath]

/-- A file is below the root of the pages, when no name is a symbolic link. -/
def Inside (cwd : Dir) (file : Bytes) : Prop := httpRoot cwd <+: UnixPath.resolve (cString file)

/-- Where the path of a request leads from its first segment on: how far above
the root of the pages, and through which names down from there. -/
def descent (path : Bytes) : Nat × List Bytes :=
  (UnixPath.names (path.dropWhile (· ≠ slash))).foldl UnixPath.climb (0, [])

/-- The path adds nothing to the name of the root and does not climb above it, or
it climbs `k` directories and goes down to the root again. -/
def StaysInside (cwd : Dir) (path : Bytes) : Prop :=
  (descent path).1 = 0 ∧ path.takeWhile (· ≠ slash) = [] ∨
    0 < (descent path).1 ∧
      cwd.names.drop (cwd.names.length + 1 - (descent path).1) ++ [httpRootPath] <+:
        (descent path).2

instance (cwd : Dir) (path : Bytes) : Decidable (StaysInside cwd path) := by
  unfold StaysInside
  infer_instance

/-! ## The files that the router opens -/

theorem names_rootPath :
    UnixPath.names (rootPath cwd path) = cwd.names ++ UnixPath.names (httpRootPath ++ path) := by
  rw [rootPath, UnixPath.names_append, Dir.names_path]

theorem rootPath_append : rootPath cwd path = cwd.path ++ slash :: httpRootPath ++ path := by
  simp [rootPath]

theorem zero_not_mem_root : 0 ∉ cwd.path ++ slash :: httpRootPath := fun hmem =>
  (List.mem_append.1 hmem).elim cwd.zero_not_mem (by decide)

/-- The system calls read the path of the request up to its first zero. -/
theorem cString_rootPath : cString (rootPath cwd path) = rootPath cwd (cString path) := by
  rw [rootPath_append, cString_append zero_not_mem_root, ← rootPath_append]

theorem walk_root (word : Bytes) : UnixPath.walk cwd.names (httpRootPath ++ word) =
    cwd.names ++ [httpRootPath ++ word] := by
  have hne : httpRootPath ++ word ≠ UnixPath.dotdot := fun he => by
    have hlength := congrArg List.length he
    simp [httpRootPath, bytesOf, UnixPath.dotdot] at hlength
  exact if_neg hne

/-- The directory at the path of a request is the root of the pages or below it. -/
theorem inside_rootPath : httpRoot cwd <+: UnixPath.resolve (rootPath cwd path) ↔
    StaysInside cwd path := by
  rw [UnixPath.resolve, names_rootPath, List.foldl_append, Dir.foldl_walk,
    UnixPath.names_word (by decide) (by decide), List.foldl_cons, walk_root, httpRoot,
    UnixPath.prefix_foldl_walk_iff, StaysInside, descent]
  simp

theorem names_filename (path : Bytes) :
    UnixPath.names (filename path) = UnixPath.names path ++ [httpMainPage] := by
  rw [filename, UnixPath.names_append]
  rfl

theorem cString_filename (h : 0 ∉ path) : cString (filename path) = filename path := by
  rw [filename, cString_append h]
  rfl

theorem inside_filename : Inside cwd (filename (rootPath cwd path)) ↔
    StaysInside cwd (cString path) := by
  rw [Inside, ← inside_rootPath, ← cString_rootPath]
  by_cases hzero : 0 ∈ rootPath cwd path
  · rw [filename, cString_append_of_mem hzero]
  · have hresolve : UnixPath.resolve (filename (rootPath cwd path)) =
        UnixPath.resolve (rootPath cwd path) ++ [httpMainPage] := by
      rw [UnixPath.resolve, names_filename, List.foldl_append]
      rfl
    rw [cString_filename hzero, cString_eq_self hzero, hresolve, httpRoot,
      UnixPath.prefix_file_iff (by decide)]

theorem choose_eq : choose fs cwd request =
    (fs.status (UnixPath.names (rootPath cwd (cString request.path)))).map fun type =>
      if type = .directory then (http200, rootPath cwd request.path)
      else (http404, rootPath cwd (bytesOf "/404")) := by
  rw [choose, FileSystem.exist, FileSystem.isDirectory, cString_rootPath]
  cases fs.status (UnixPath.names (rootPath cwd (cString request.path))) with
  | error e => rfl
  | ok type => cases type <;> rfl

/-- The file that `route` opens. -/
def openedFile (fs : FileSystem) (cwd : Dir) (request : HTTPRequest) : Except Errno Bytes :=
  (choose fs cwd request).map fun page => filename page.2

/-- The file that the router opens is below the root of the pages if and only if
the path of the request leads to no directory, so that it is the page of the
status 404, or stays inside. -/
theorem openedFile_inside_iff :
    (∀ file, openedFile fs cwd request = .ok file → Inside cwd file) ↔
      fs.status (UnixPath.names (rootPath cwd (cString request.path))) ≠ .ok .directory ∨
        StaysInside cwd (cString request.path) := by
  have hmissing : StaysInside cwd (cString (bytesOf "/404")) := .inl ⟨by decide, by decide⟩
  rw [openedFile, choose_eq]
  cases fs.status (UnixPath.names (rootPath cwd (cString request.path))) with
  | error e => simp [Except.map]
  | ok type =>
    cases type with
    | directory => simp [Except.map, inside_filename]
    | notFound | other => simp [Except.map, inside_filename, hmissing]

/-- Where every path leads to a directory. -/
def directories : FileSystem := ⟨fun _ => .ok .directory, fun _ => some []⟩

def srv : Dir where
  names := [bytesOf "srv"]
  isName := fun name hname => by
    obtain rfl := List.mem_singleton.1 hname
    exact ⟨by decide, by decide, by decide, by decide, by decide⟩

/-- The request "GET /.." opens a file next to the root of the pages. -/
theorem parentPath_not_inside : ¬ ∀ raw request fs cwd file,
    parse stringLimits raw = .ok request → openedFile fs cwd request = .ok file →
      Inside cwd file := by
  intro hall
  have hparse : parse stringLimits (bytesOf "GET /.. HTTP/1.1\r\n\r\n") =
    .ok ⟨bytesOf "GET", bytesOf "/..", fun _ => none, []⟩ := rfl
  have hfile := hall _ _ directories srv _ hparse rfl
  exact absurd (inside_filename.1 hfile) (by decide)

end LinuxNet.HttpServer
