/-
  WebBench/webbench.c: the request that `build_request` makes of a URL.

  The strings are in arrays of a fixed size, and the library functions do not look
  at it.  Here a call that would go behind the end of an array has no result.  What
  is printed is left out.
-/
import MyHttpServer.Lib.CString
import MyHttpServer.Lib.Fallible
import MyHttpServer.Model.Cpp

namespace MyHttpServer.WebBench

open CString

/-- `METHOD_GET` to `METHOD_TRACE` -/
inductive Method
  | GET
  | HEAD
  | OPTIONS
  | TRACE
  deriving DecidableEq

def REQUEST_SIZE : ℕ := 2048
/-- its value on Linux -/
def MAXHOSTNAMELEN : ℕ := 64
def PROGRAM_VERSION : Bytes := str "1.5"
/-- `':'` -/
def COLON : UInt8 := 58

/-- The values and globals that `build_request` uses. -/
structure Globals where
  /-- 0 - http/0.9, 1 - http/1.0, 2 - http/1.1 -/
  http10 : ℕ := 1
  method : Method := .GET
  force_reload : Bool := false
  proxyport : ℤ := 80
  proxyhost : Option Bytes := none
  keep_alive : Bool := false
  host : Bytes := List.replicate MAXHOSTNAMELEN 0
  request : Bytes := List.replicate REQUEST_SIZE 0
  deriving DecidableEq

/-- How `build_request` ends early. -/
inductive Stop
  | exit (code : ℕ)
  /-- behind the end of an array -/
  | outOfBounds
  deriving DecidableEq

def inBounds {α : Type} : Option α → Except Stop α
  | some a => .ok a
  | none => .error .outOfBounds

/-! ## Library functions -/

/-- `tolower` -/
def toLower (c : UInt8) : UInt8 := if 65 ≤ c ∧ c ≤ 90 then c + 32 else c

/-- `strcspn(s, "c")`; for a `c` that occurs in `s`, also `index(s, c) - s`. -/
def strcspn (s : Bytes) (c : UInt8) : ℕ := (s.takeWhile (· ≠ c)).length

def isDigit (c : UInt8) : Bool := 48 ≤ c ∧ c ≤ 57

/-- What follows the number at the start of `s`. -/
def pastNumber (s : Bytes) : Bytes :=
  let s := s.dropWhile isSpace
  let s := if s.head? = some 45 ∨ s.head? = some 43 then s.tail else s
  s.dropWhile isDigit

/-- `atoi(tmp)`, which reads up to the first byte behind the number. -/
def atoiArray (tmp : Bytes) : Option ℤ := if pastNumber tmp = [] then none else some (atoi tmp)

/-! ## `build_request` -/

def methodText : Method → Bytes
  | .GET => str "GET"
  | .HEAD => str "HEAD"
  | .OPTIONS => str "OPTIONS"
  | .TRACE => str "TRACE"

/-- Lines 233 to 236: what a method asks of the version. -/
def setHttp10 (g : Globals) : Globals :=
  let http10 := g.http10
  let http10 := if g.force_reload ∧ g.proxyhost ≠ none ∧ http10 < 1 then 1 else http10
  let http10 := if g.method = .HEAD ∧ http10 < 1 then 1 else http10
  let http10 := if g.method = .OPTIONS ∧ http10 < 2 then 2 else http10
  let http10 := if g.method = .TRACE ∧ http10 < 2 then 2 else http10
  { g with http10 }

/-- Lines 279 to 284: the number between the first `':'` and the first `'/'`. -/
def readPort (rest : Bytes) : Option ℤ := do
  let tmp := List.replicate 10 0
  let tmp ← strncpy 0 tmp (rest.drop (strcspn rest COLON + 1))
    (strcspn rest SLASH - strcspn rest COLON - 1)
  let proxyport ← atoiArray tmp
  return if proxyport = 0 then 80 else proxyport

/-- Lines 275 to 289, where `rest` is `url+i`. -/
def setHost (g : Globals) (rest : Bytes) : Option Globals :=
  if strcspn rest COLON < strcspn rest SLASH then do
    let host ← strncpy 0 g.host rest (strcspn rest COLON)
    let proxyport ← readPort rest
    return { g with host, proxyport }
  else do
    let host ← strncpy 0 g.host rest (strcspn rest SLASH)
    return { g with host }

/-- Lines 273 to 297. -/
def addTarget (g : Globals) (url rest : Bytes) : Option Globals :=
  if g.proxyhost = none then do
    let g ← setHost g rest
    let request ← strcat 0 g.request (rest.drop (strcspn rest SLASH))
    return { g with request }
  else do
    let request ← strcat 0 g.request url
    return { g with request }

/-- `strcat(request, s)` in the case `c` only. -/
def strcatIf (c : Prop) [Decidable c] (request s : Bytes) : Option Bytes :=
  if c then strcat 0 request s else some request

/-- Lines 299 to 307. -/
def addVersion (g : Globals) : Option Bytes := do
  let request ← strcatIf (g.http10 = 1) g.request (str " HTTP/1.0")
  let request ← strcatIf (g.http10 = 2) request (str " HTTP/1.1")
  let request ← strcat 0 request (str "\r\n")
  strcatIf (0 < g.http10) request (str "User-Agent: WebBench " ++ PROGRAM_VERSION ++ str "\r\n")

/-- Lines 308 to 313. -/
def addHost (g : Globals) (request : Bytes) : Option Bytes :=
  if g.proxyhost = none ∧ 0 < g.http10 then do
    let request ← strcat 0 request (str "Host: ")
    let host ← read 0 g.host
    let request ← strcat 0 request host
    strcat 0 request (str "\r\n")
  else some request

/-- Lines 299 to 330: the version and the header. -/
def addHeader (g : Globals) : Option Globals := do
  let request ← addVersion g
  let request ← addHost g request
  let request ← strcatIf (g.force_reload ∧ g.proxyhost ≠ none) request
    (str "Pragma: no-cache\r\n")
  let request ← strcatIf (1 < g.http10) request
    (if ! g.keep_alive then str "Connection: close\r\n" else str "Connection: Keep-Alive\r\n")
  let request ← strcatIf (0 < g.http10) request (str "\r\n")
  return { g with request }

/-- `build_request(url)` -/
def buildRequest (g : Globals) (url : Bytes) : Except Stop Globals := do
  let g := { g with
    host := List.replicate MAXHOSTNAMELEN 0, request := List.replicate REQUEST_SIZE 0 }
  let g := setHttp10 g
  let request ← inBounds (strcpy 0 g.request (methodText g.method))
  let request ← inBounds (strcat 0 request (str " "))
  match find (str "://") url with
  | none => .error (.exit 2)
  | some pos =>
    if 1500 < url.length then .error (.exit 2)
    else if (url.take 7).map toLower ≠ str "http://" then .error (.exit 2)
    else
      -- the protocol/host delimiter
      let i := pos + 3
      if SLASH ∉ url.drop i then .error (.exit 2)
      else
        let g ← inBounds (addTarget { g with request } url (url.drop i))
        inBounds (addHeader g)

end MyHttpServer.WebBench
