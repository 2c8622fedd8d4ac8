-- SUMMARY: The request parser of the HTTP server (http_parser.cpp, http_request.h), with the exceptions it can throw.
import LinuxNet.Base.Socket
import LinuxNet.Base.Stoi
import Mathlib.Logic.Function.Basic

/-! # HTTPParser::parse -/

namespace LinuxNet.HttpServer

/-- The longest `std::string` of the library, shorter than the `size_t` that a
negative `int` becomes, and the longest one that there is memory for. -/
structure StringLimits where
  maxSize : Nat
  memory : Nat
  memory_le : memory ≤ maxSize
  lt_negative : maxSize < 2 ^ 64 - 2 ^ 31

/-- `std::unordered_map<std::string, std::string>`. -/
abbrev Headers := Bytes → Option Bytes

structure HTTPRequest where
  method : Bytes
  path : Bytes
  headers : Headers
  body : Bytes

def contentLength : Bytes := bytesOf "Content-Length"

def colon : UInt8 := 58

def space : UInt8 := 32

/-- The key and the value in a header line, if it has a colon. -/
def field (line : Bytes) : Option (Bytes × Bytes) :=
  let line := if line.getLast? = some carriageReturn then line.dropLast else line
  match line.dropWhile (· ≠ colon) with
  | [] => none
  | _ :: val =>
    let val := if val.head? = some space then val.tail else val
    some (line.takeWhile (· ≠ colon), val)

def addHeader (headers : Headers) (line : Bytes) : Headers :=
  match field line with
  | none => headers
  | some (key, val) => Function.update headers key (some val)

/-- `while (std::getline(iss, line) && line != "\r")`, in at most the given
number of iterations: every line takes a byte from the stream. -/
def readHeaders : Nat → IStream → Bytes → Headers → IStream × Headers
  | 0, iss, _, headers => (iss, headers)
  | n + 1, iss, line, headers =>
    let (iss, line) := iss.getline line
    if !iss.fail && line ≠ [carriageReturn] then
      readHeaders n iss line (addHeader headers line)
    else (iss, headers)

/-- The first line: its method and its path. -/
def readFirstLine (line : Bytes) : Bytes × Bytes :=
  let (iss, method) := (IStream.ofBytes line).extract []
  (method, (iss.extract []).2)

/-- `request.m_body.resize(n)`, for a `size_t` that an `int` has been converted to. -/
def resize (limits : StringLimits) (n : Int) : Except StdException Nat :=
  let bodyLength := (n % 2 ^ 64).toNat
  if limits.maxSize < bodyLength then throw .lengthError
  else if limits.memory < bodyLength then throw .badAlloc
  else pure bodyLength

def parse (limits : StringLimits) (rawRequest : Bytes) : Except StdException HTTPRequest := do
  let (iss, line) := (IStream.ofBytes rawRequest).getline []
  let (method, path) :=
    if !iss.fail && line ≠ [carriageReturn] then readFirstLine line else ([], [])
  let (iss, headers) := readHeaders (rawRequest.length + 1) iss line fun _ => none
  match headers contentLength with
  | none => pure ⟨method, path, headers, []⟩
  | some val =>
    let bodyLength ← resize limits (← stoi val)
    pure ⟨method, path, headers, (iss.read bodyLength).2⟩

end LinuxNet.HttpServer
