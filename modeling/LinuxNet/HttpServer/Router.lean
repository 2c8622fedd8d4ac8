-- SUMMARY: The router of the HTTP server and its responses (http_router.cpp, http_response.cpp, defs.h), over any file system.
import LinuxNet.Base.UnixPath
import LinuxNet.HttpServer.Parser

/-! # HTTPRouter::route -/

namespace LinuxNet.HttpServer

open UnixPath (Dir slash)

/-- `STR_HTTP_ROOT_PATH`. -/
def httpRootPath : Bytes := bytesOf "http_root"

/-- `STR_HTTP_MAIN_PAGE`. -/
def httpMainPage : Bytes := bytesOf "index.html"

def http200 : Nat := 200

def http404 : Nat := 404

/-! ## Responses -/

/-- `m_headers` is unordered, and has one key at most. -/
structure HTTPResponse where
  status : Nat
  headers : List (Bytes × Bytes)
  body : Bytes
  deriving DecidableEq, Repr

namespace HTTPResponse

def setHeader (key val : Bytes) (r : HTTPResponse) : HTTPResponse :=
  { r with headers := (r.headers.filter fun header => header.1 ≠ key) ++ [(key, val)] }

def setBody (body : Bytes) (r : HTTPResponse) : HTTPResponse :=
  { r with body := body }.setHeader contentLength (decimal body.length)

def codeToMessage : Nat → Bytes
  | 200 => bytesOf "OK"
  | 404 => bytesOf "Not Found"
  | 500 => bytesOf "Internal Server Error"
  | _ => bytesOf "Unknown"

/-- `to_string`. The length is written again after the headers. -/
def toBytes (r : HTTPResponse) : Bytes :=
  bytesOf "HTTP/1.1 " ++ decimal r.status ++ bytesOf " " ++ codeToMessage r.status ++
    bytesOf "\r\n" ++
    (r.headers.flatMap fun header => header.1 ++ bytesOf ":" ++ header.2 ++ bytesOf "\r\n") ++
    bytesOf "Content-Length: " ++ decimal r.body.length ++ bytesOf "\r\n" ++ bytesOf "\r\n" ++
    r.body

end HTTPResponse

/-! ## Files -/

inductive FileType
  | notFound
  | directory
  | other
  deriving DecidableEq, Repr

/-- What the router asks the file system, by the names of a path: what is there,
where `status` throws no `filesystem_error`, and what a file that can be opened
and read contains. A read that throws, as that of a directory with the name of the
main page does, is left out. -/
structure FileSystem where
  status : List Bytes → Except Errno FileType
  content : List Bytes → Option Bytes

namespace FileSystem

/-- `fs::exists`. System calls read a path up to its first zero. -/
def exist (path : Bytes) (fs : FileSystem) : Except Errno Bool := do
  let type ← fs.status (UnixPath.names (cString path))
  pure (type ≠ .notFound)

def isDirectory (path : Bytes) (fs : FileSystem) : Except Errno Bool := do
  let type ← fs.status (UnixPath.names (cString path))
  pure (type = .directory)

/-- What `std::fstream` reads from a file. -/
def read (path : Bytes) (fs : FileSystem) : Option Bytes :=
  fs.content (UnixPath.names (cString path))

end FileSystem

/-! ## Routing -/

/-- A path of a request, below the root of the pages. -/
def rootPath (cwd : Dir) (path : Bytes) : Bytes := cwd.path ++ slash :: (httpRootPath ++ path)

/-- The status of the response, and the directory that its page is in. -/
def choose (fs : FileSystem) (cwd : Dir) (request : HTTPRequest) : Except Errno (Nat × Bytes) := do
  let path := rootPath cwd request.path
  if ← fs.exist path then
    if ← fs.isDirectory path then pure (http200, path)
    else pure (http404, rootPath cwd (bytesOf "/404"))
  else pure (http404, rootPath cwd (bytesOf "/404"))

def filename (path : Bytes) : Bytes := path ++ slash :: httpMainPage

/-- `HTTPRouter::route`. -/
def route (fs : FileSystem) (cwd : Dir) (request : HTTPRequest) : Except Errno HTTPResponse := do
  let (status, path) ← choose fs cwd request
  let response : HTTPResponse := ⟨status, [], []⟩
  match fs.read (filename path) with
  | some htmlContent => pure (response.setBody htmlContent)
  | none => pure response

end LinuxNet.HttpServer
