-- SUMMARY: The file a download is written to (curl_multithreaded.cpp and curl_multi_handle.cpp).
import LinuxNet.Base.CxxString
import LinuxNet.Base.Socket

/-! # File names

Both programs take the name out of the URL in the same way. -/

namespace LinuxNet.Curl

open CxxString

abbrev Bytes := List UInt8

def dot : UInt8 := 46

/-- `url.substr(11, url.find_last_of(".") - url.find_first_of(".") - 1) + ".html"`,
or the exception of `substr`. -/
def filename (url : Bytes) : Option Bytes :=
  (substr url 11 (sizeSub (sizeSub (findLastOf dot url) (findFirstOf dot url)) 1)).map
    (· ++ bytesOf ".html")

variable {url before middle after name tld : Bytes}

theorem filename_eq_none : filename url = none ↔ url.length < 11 := by
  simp [filename, substr]

/-- What lies between the first dot and the last one tells only how much is kept. -/
theorem filename_split (hsize : url.length < npos) (hlong : 11 ≤ url.length)
    (h : url = before ++ dot :: (middle ++ dot :: after)) (hbefore : dot ∉ before)
    (hafter : dot ∉ after) :
    filename url = some ((url.drop 11).take middle.length ++ bytesOf ".html") := by
  have hfirst : findFirstOf dot url = before.length := by rw [h, findFirstOf_split hbefore]
  have hlast : findLastOf dot url = before.length + 1 + middle.length := by
    have hsplit : url = (before ++ dot :: middle) ++ dot :: after := by simp [h]
    rw [hsplit, findLastOf_split hafter, List.length_append, List.length_cons]
    omega
  have hlength : before.length + 1 + middle.length ≤ url.length := by
    rw [h]
    simp only [List.length_append, List.length_cons]
    omega
  have hcount : sizeSub (sizeSub (findLastOf dot url) (findFirstOf dot url)) 1 =
      middle.length := by
    have hbound : url.length < 2 ^ 64 := hsize.trans_le (Nat.sub_le _ _)
    have hdots : sizeSub (findLastOf dot url) (findFirstOf dot url) = middle.length + 1 := by
      rw [hfirst, hlast, sizeSub_of_le (by omega) (by omega)]
      omega
    rw [hdots, sizeSub_of_le (by omega) (by omega), Nat.add_sub_cancel]
  rw [filename, hcount, substr, if_pos hlong, Option.map_some]

/-- A URL of the form of those in `main`. -/
def website (name tld : Bytes) : Bytes := bytesOf "http://www." ++ name ++ dot :: tld

/-- The file of a web site has its name without the domain it is in. -/
theorem filename_website (hsize : (website name tld).length < npos) (htld : dot ∉ tld) :
    filename (website name tld) = some (name ++ bytesOf ".html") := by
  have hsplit : website name tld = bytesOf "http://www" ++ dot :: (name ++ dot :: tld) := by
    unfold website
    rw [show bytesOf "http://www." = bytesOf "http://www" ++ [dot] by decide]
    simp
  have hdrop : (website name tld).drop 11 = name ++ dot :: tld := by
    rw [website, List.append_assoc]
    exact List.drop_left' (by decide)
  have hlong : 11 ≤ (website name tld).length := by
    rw [website, List.append_assoc, List.length_append]
    exact Nat.le_add_right 11 _
  rw [filename_split hsize hlong hsplit (by decide) htld, hdrop, List.take_left]

example : filename (bytesOf "http://www.bing.com") = some (bytesOf "bing.html") := by decide

end LinuxNet.Curl
