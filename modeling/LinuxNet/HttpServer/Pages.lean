-- SUMMARY: For which requests the status of the router's response agrees with the page in it.
import LinuxNet.HttpServer.Containment

/-! # Status and page

The router sets the status before it opens the page. -/

namespace LinuxNet.HttpServer

open UnixPath (Dir)

/-- A file that can be opened: its size, and what can be read of it. -/
structure OpenFile where
  size : Nat
  bytes : Bytes
  length_le : bytes.length ≤ size

/-- All of the file can be read. -/
def OpenFile.Whole (file : OpenFile) : Prop := file.bytes.length = file.size

/-- Where no library call throws: what is at a path, and the file there if it can be
opened. -/
structure Disk where
  type : List Bytes → FileType
  file : List Bytes → Option OpenFile

/-- What `file.read` stores in a string of the file's size, if it leaves the
stream as `if (file)` expects it. -/
def OpenFile.read (file : OpenFile) : Option Bytes :=
  let (stream, htmlContent) := (IStream.ofBytes file.bytes).read file.size
  if stream.fail then none else some htmlContent

/-- The files as the router sees them. -/
def Disk.fileSystem (disk : Disk) : FileSystem where
  status := fun names => .ok (disk.type names)
  content := fun names => (disk.file names).bind OpenFile.read

/-- Where the path of a request leads below the root of the pages. -/
def requestedDir (cwd : Dir) (request : HTTPRequest) : List Bytes :=
  UnixPath.names (cString (rootPath cwd request.path))

/-- The path of a request is a directory, and the router has opened the page in it
and read all of it. -/
structure Serves (disk : Disk) (cwd : Dir) (request : HTTPRequest) (page : OpenFile) : Prop where
  directory : disk.type (requestedDir cwd request) = .directory
  opened : ∃ file, openedFile disk.fileSystem cwd request = .ok file ∧
    UnixPath.names (cString file) = requestedDir cwd request ++ [httpMainPage]
  found : disk.file (requestedDir cwd request ++ [httpMainPage]) = some page
  whole : page.Whole

/-- The status is 200 for the pages that are served, and the body is then the page. -/
structure StatusAgrees (disk : Disk) (cwd : Dir) (request : HTTPRequest)
    (response : HTTPResponse) : Prop where
  status : response.status = http200 ↔ ∃ page, Serves disk cwd request page
  body : ∀ page, Serves disk cwd request page → response.body = page.bytes

variable {disk : Disk} {cwd : Dir} {request : HTTPRequest} {page : OpenFile}

/-! ## Reading a page -/

theorem OpenFile.read_eq_some_iff {bytes : Bytes} :
    page.read = some bytes ↔ page.Whole ∧ page.bytes = bytes := by
  have hle := page.length_le
  unfold OpenFile.read OpenFile.Whole
  by_cases hshort : page.bytes.length < page.size
  · simp [IStream.read, IStream.good, IStream.ofBytes, hshort, hshort.ne]
  · have hwhole : page.bytes.length = page.size := by omega
    simp [IStream.read, IStream.good, IStream.ofBytes, ← hwhole]

/-! ## What the router opens -/

/-- The page of a directory, or the directory itself where a zero byte ends the path. -/
theorem names_opened : UnixPath.names (cString (filename (rootPath cwd request.path))) =
    requestedDir cwd request ++ if 0 ∈ request.path then [] else [httpMainPage] := by
  unfold requestedDir
  split
  · rename_i hzero
    have hroot : 0 ∈ rootPath cwd request.path := by
      rw [rootPath_append]
      exact List.mem_append_right _ hzero
    rw [filename, cString_append_of_mem hroot, List.append_nil]
  · rename_i hzero
    have hroot : 0 ∉ rootPath cwd request.path := fun hmem => by
      rw [rootPath_append] at hmem
      exact (List.mem_append.1 hmem).elim zero_not_mem_root hzero
    rw [cString_filename hroot, names_filename, cString_eq_self hroot]

/-- The status depends on the type of the requested path only. -/
theorem route_disk (disk : Disk) (cwd : Dir) (request : HTTPRequest) : ∃ response,
    route disk.fileSystem cwd request = .ok response ∧
    response.status =
      (if disk.type (requestedDir cwd request) = .directory then http200 else http404) ∧
    (disk.type (requestedDir cwd request) = .directory →
      response.body = (disk.fileSystem.read (filename (rootPath cwd request.path))).getD []) := by
  have hstatus : disk.fileSystem.status (UnixPath.names (rootPath cwd (cString request.path))) =
      .ok (disk.type (requestedDir cwd request)) := by
    rw [requestedDir, cString_rootPath]
    rfl
  rw [route, choose_eq, hstatus]
  by_cases hdir : disk.type (requestedDir cwd request) = .directory
  · simp only [Except.map, hdir, if_true, Except.bind_ok]
    cases disk.fileSystem.read (filename (rootPath cwd request.path)) with
    | none => exact ⟨_, rfl, rfl, fun _ => rfl⟩
    | some htmlContent => exact ⟨_, rfl, rfl, fun _ => rfl⟩
  · simp only [Except.map, hdir, if_false, Except.bind_ok]
    cases disk.fileSystem.read (filename (rootPath cwd (bytesOf "/404"))) with
    | none => exact ⟨_, rfl, rfl, fun h => h.elim⟩
    | some htmlContent => exact ⟨_, rfl, rfl, fun h => h.elim⟩

theorem openedFile_directory (hdir : disk.type (requestedDir cwd request) = .directory) :
    openedFile disk.fileSystem cwd request = .ok (filename (rootPath cwd request.path)) := by
  have hstatus : disk.fileSystem.status (UnixPath.names (rootPath cwd (cString request.path))) =
      .ok .directory := by
    rw [← cString_rootPath, ← hdir]
    rfl
  rw [openedFile, choose_eq, hstatus]
  rfl

/-- A zero byte in the path of the request cuts the name of the page off. -/
theorem serves_iff : Serves disk cwd request page ↔
    disk.type (requestedDir cwd request) = .directory ∧ 0 ∉ request.path ∧
      disk.file (requestedDir cwd request ++ [httpMainPage]) = some page ∧ page.Whole := by
  constructor
  · rintro ⟨hdir, ⟨file, hopened, hnames⟩, hfound, hwhole⟩
    refine ⟨hdir, fun hzero => ?_, hfound, hwhole⟩
    obtain rfl := Except.ok.inj ((openedFile_directory hdir).symm.trans hopened)
    rw [names_opened, if_pos hzero, List.append_nil] at hnames
    exact absurd (List.self_eq_append_right.1 hnames) (by decide)
  · rintro ⟨hdir, hzero, hfound, hwhole⟩
    refine ⟨hdir, ⟨_, openedFile_directory hdir, ?_⟩, hfound, hwhole⟩
    rw [names_opened, if_neg hzero]

/-- The status agrees with the page unless the path of the request is a directory, and
the path has a zero byte or the page in the directory cannot be opened and read. -/
theorem route_agrees_iff (disk : Disk) (cwd : Dir) (request : HTTPRequest) :
    (∃ response, route disk.fileSystem cwd request = .ok response ∧
      StatusAgrees disk cwd request response) ↔
    (disk.type (requestedDir cwd request) = .directory → 0 ∉ request.path ∧
      ∃ page, disk.file (requestedDir cwd request ++ [httpMainPage]) = some page ∧
        page.Whole) := by
  obtain ⟨response, hroute, hstatus, hbody⟩ := route_disk disk cwd request
  constructor
  · rintro ⟨response', hroute', hagrees⟩ hdir
    obtain rfl := Except.ok.inj (hroute.symm.trans hroute')
    rw [if_pos hdir] at hstatus
    obtain ⟨page, hserves⟩ := hagrees.status.1 hstatus
    obtain ⟨-, hzero, hfound, hwhole⟩ := serves_iff.1 hserves
    exact ⟨hzero, page, hfound, hwhole⟩
  · intro hpage
    refine ⟨response, hroute, ?_, fun page hserves => ?_⟩
    · by_cases hdir : disk.type (requestedDir cwd request) = .directory
      · obtain ⟨hzero, page, hfound, hwhole⟩ := hpage hdir
        rw [hstatus, if_pos hdir]
        exact iff_of_true rfl ⟨page, serves_iff.2 ⟨hdir, hzero, hfound, hwhole⟩⟩
      · rw [hstatus, if_neg hdir]
        refine iff_of_false (by decide) ?_
        rintro ⟨page, hserves⟩
        exact hdir hserves.directory
    · obtain ⟨hdir, hzero, hfound, hwhole⟩ := serves_iff.1 hserves
      have hread : page.read = some page.bytes := OpenFile.read_eq_some_iff.2 ⟨hwhole, rfl⟩
      have hcontent : disk.fileSystem.read (filename (rootPath cwd request.path)) =
          page.read := by
        rw [FileSystem.read, names_opened, if_neg hzero]
        exact congrArg (·.bind OpenFile.read) hfound
      rw [hbody hdir, hcontent, hread]
      rfl

/-- A root of the pages without a page: the status is 200, and the body is empty. -/
theorem route_not_agrees : ¬ ∀ disk cwd request response,
    route disk.fileSystem cwd request = .ok response →
      StatusAgrees disk cwd request response := by
  intro hall
  let disk : Disk := ⟨fun _ => .directory, fun _ => none⟩
  let request : HTTPRequest := ⟨bytesOf "GET", bytesOf "/", fun _ => none, []⟩
  have hagrees := hall disk srv request ⟨http200, [], []⟩ rfl
  obtain ⟨page, hserves⟩ := hagrees.status.1 rfl
  cases hserves.found

end LinuxNet.HttpServer
