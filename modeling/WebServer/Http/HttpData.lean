/-
# `Http.HttpData` — parsing a request and answering it

The class of `HttpData.{h,cc}`.  One object serves a pooled connection for all
its sessions.  `onRequest` parses what the input buffer holds, chooses a page by
the path, appends the response to a buffer, hands it to the connection's `send`,
and forgets the request.

A buffer is the list of its readable bytes, which `Buffer::append` extends by
the `strncpy` of its argument (`Base.Buffer`).  `append(const StringPiece&)`
goes through an `int` length; a piece whose length becomes negative on the way
is undefined behaviour.  The loop of `parseRequest` gets as many rounds as it
can use; `none` means that it never ends.
-/
import WebServer.Lib.Memory
import Mathlib.Algebra.Ring.Nat

namespace WebServer

/-- The bytes of an ASCII text. -/
def ascii (s : String) : Bytes := s.toList.map fun c => UInt8.ofNat c.toNat

/-- `"\r\n"`. -/
def crlf : Bytes := [13, 10]

/-- `Buffer::findCRLF()`, as an offset from `peek()`. -/
def findCRLF : Bytes → Option Nat
  | a :: b :: rest => if a = 13 ∧ b = 10 then some 0 else (findCRLF (b :: rest)).map (· + 1)
  | _ => none

/-- `std::find(begin, end, c)`, as an offset: the length when `c` is not there. -/
def find (c : UInt8) (bs : Bytes) : Nat := bs.findIdx (· = c)

/-- `isspace` in the C locale. -/
def isspace (b : UInt8) : Bool := b = 32 || (9 ≤ b && b ≤ 13)

/-- A `std::map` from strings to strings, as the list of its entries in order. -/
abbrev StringMap := List (Bytes × Bytes)

namespace StringMap

/-- `m[key] = value`. -/
def set (key value : Bytes) : StringMap → StringMap
  | [] => [(key, value)]
  | e :: m =>
      if key = e.1 then (key, value) :: m
      else if key < e.1 then (key, value) :: e :: m
      else e :: set key value m

/-- `m.find(key)`. -/
def get (key : Bytes) (m : StringMap) : Option Bytes := (m.find? fun e => e.1 = key).map Prod.snd

end StringMap

/-! ## The object -/

inductive Method where
  | kInvalid
  | kGet
  | kPost
  | kHead
  | kPut
  | kDelete
  deriving DecidableEq

inductive Version where
  | kUnknownVersion
  | kHttp10
  | kHttp11
  deriving DecidableEq

inductive HttpRequestParseState where
  | kExpectRequestLine
  | kExpectHeaders
  | kExpectBody
  | kGotAll
  deriving DecidableEq

inductive HttpStatesCode where
  | kUnknownState
  | k200Ok
  | k301MovePermanently
  | k400BadRequest
  | k404NotFound
  deriving DecidableEq

def HttpStatesCode.code : HttpStatesCode → Nat
  | .kUnknownState => 0
  | .k200Ok => 200
  | .k301MovePermanently => 301
  | .k400BadRequest => 400
  | .k404NotFound => 404

structure HttpData where
  closeConnection : Bool
  method : Method
  version : Version
  state : HttpRequestParseState
  statusCode : HttpStatesCode
  path : Bytes
  query : Bytes
  statusMessage : Bytes
  body : Bytes
  requestHeaders : StringMap
  responseHeaders : StringMap
  deriving DecidableEq

namespace HttpData

/-- The constructor. -/
def new : HttpData where
  closeConnection := false
  method := .kInvalid
  version := .kUnknownVersion
  state := .kExpectRequestLine
  statusCode := .kUnknownState
  path := []
  query := []
  statusMessage := []
  body := []
  requestHeaders := []
  responseHeaders := []

def clearAllContent (d : HttpData) : HttpData :=
  { d with
    requestHeaders := [], responseHeaders := [], closeConnection := false, method := .kInvalid
    version := .kUnknownVersion, state := .kExpectRequestLine, statusCode := .kUnknownState }

/-! ## Parsing -/

/-- The method a word names; `HEAD` is stored as `kDelete`. -/
def methodOf (m : Bytes) : Option Method :=
  if m = ascii "GET" then some .kGet
  else if m = ascii "POST" then some .kPost
  else if m = ascii "HEAD" then some .kDelete
  else if m = ascii "PUT" then some .kPut
  else if m = ascii "DELETE" then some .kDelete
  else none

/-- `setMethod(start, end)`: an unknown word leaves the method as it was. -/
def setMethod (d : HttpData) (m : Bytes) : HttpData :=
  { d with method := (methodOf m).getD d.method }

/-- The version the last part of a request line names. -/
def versionOf (bs : Bytes) : Option Version :=
  if bs.length = 8 ∧ bs.take 7 = ascii "HTTP/1." then
    if bs.getLast? = some 49 then some .kHttp11
    else if bs.getLast? = some 48 then some .kHttp10
    else none
  else none

/-- `setQuery` and `setPath`, on the target of a request line. -/
def setTarget (d : HttpData) (target : Bytes) : HttpData :=
  let queryPos := find 63 target
  let d := if queryPos ≠ target.length then { d with query := target.drop queryPos } else d
  { d with path := target.take queryPos }

/-- `processRequestLine(begin, end)`, and whether it succeeded. -/
def processRequestLine (d : HttpData) (line : Bytes) : HttpData × Bool :=
  let space := find 32 line
  let d' := d.setMethod (line.take space)
  if space = line.length then (d, false)
  else if d'.method = .kInvalid then (d', false)
  else
    let rest := line.drop (space + 1)
    let space := find 32 rest
    if space = rest.length then (d', false)
    else
      let d' := d'.setTarget (rest.take space)
      match versionOf (rest.drop (space + 1)) with
      | some v => ({ d' with version := v }, true)
      | none => (d', false)

/-- `addReqHeader(start, colon, end)`, the line and the offset of its colon. -/
def addReqHeader (d : HttpData) (line : Bytes) (colon : Nat) : HttpData :=
  let value := (line.drop (colon + 1)).dropWhile isspace
  let value := (value.reverse.dropWhile isspace).reverse
  { d with requestHeaders := d.requestHeaders.set (line.take colon) value }

def getAReqHeader (d : HttpData) (field : Bytes) : Bytes := (d.requestHeaders.get field).getD []

/-- The loop's variables: the object, the unread bytes, `ok` and `hasMore`. -/
structure Parsing where
  data : HttpData
  input : Bytes
  ok : Bool
  hasMore : Bool
  deriving DecidableEq

/-- One round of the loop of `parseRequest`. -/
def parseRound (p : Parsing) : Parsing :=
  match p.data.state with
  | .kExpectRequestLine =>
      match findCRLF p.input with
      | some crlf =>
          let r := p.data.processRequestLine (p.input.take crlf)
          if r.2 then
            { p with data := { r.1 with state := .kExpectHeaders }, ok := true
                     input := p.input.drop (crlf + 2) }
          else { p with data := r.1, ok := false, hasMore := false }
      | none => { p with hasMore := false }
  | .kExpectHeaders =>
      match findCRLF p.input with
      | some crlf =>
          let line := p.input.take crlf
          let colon := find 58 line
          let p := { p with input := p.input.drop (crlf + 2) }
          if colon ≠ line.length then { p with data := p.data.addReqHeader line colon }
          else { p with data := { p.data with state := .kGotAll }, hasMore := false }
      | none => { p with hasMore := false }
  | .kExpectBody => p
  | .kGotAll => p

/-- The loop, for at most that many rounds. -/
def parseLoop : Nat → Parsing → Option Parsing
  | 0, p => if p.hasMore then none else some p
  | n + 1, p => if p.hasMore then parseLoop n (parseRound p) else some p

/-- `parseRequest(buf, receiveTime)`.  Where a round takes bytes off the input
the rounds end before the bytes do; where none does they never end. -/
def parseRequest (d : HttpData) (input : Bytes) : Option Parsing :=
  parseLoop (input.length + 1) ⟨d, input, true, true⟩

/-! ## Answering -/

/-- The text left by `snprintf(buf, 32, ..)`. -/
def snprintf (s : Bytes) : Bytes := s.take 31 ++ [0]

/-- The decimal digits of a number. -/
def decimal (n : Nat) : Bytes := (Nat.toDigits 10 n).map fun c => UInt8.ofNat c.toNat

/-- `output->append(piece)`. -/
def append (piece output : Bytes) : Option Bytes :=
  let size := piece.length % 2 ^ 32
  if size < 2 ^ 31 then some (output ++ strncpy piece size) else none

def appendHeader (output : Bytes) (e : Bytes × Bytes) : Option Bytes :=
  append e.1 output >>= append (ascii ": ") >>= append e.2 >>= append crlf

/-- `appendToBuffer(output)`; `append(buf, sizeof buf)` adds all 32 bytes. -/
def appendToBuffer (d : HttpData) (output : Bytes) : Option Bytes := do
  let output := output ++ strncpy (snprintf (ascii "HTTP/1.1 " ++ decimal d.statusCode.code)) 32
  let output ← append d.statusMessage output
  let output ← append crlf output
  let output ←
    if d.closeConnection then append (ascii "Connection: close\r\n") output
    else append (ascii "Connection: Keep-Alive\r\n") (output ++
      strncpy (snprintf (ascii "Content-Length: " ++ decimal d.body.length ++ crlf)) 32)
  let output ← d.responseHeaders.foldlM appendHeader output
  let output ← append crlf output
  append d.body output

/-- `HttpData::favicon`. -/
def favicon : Bytes := [
  137, 80, 78, 71, 13, 10, 26, 10, 0, 0, 0, 13, 73, 72, 68, 82, 0, 0, 0, 16, 0, 0, 0, 16, 8, 6, 0,
  0, 0, 31, 243, 255, 97, 0, 0, 0, 25, 116, 69, 88, 116, 83, 111, 102, 116, 119, 97, 114, 101, 0,
  65, 100, 111, 98, 101, 32, 73, 109, 97, 103, 101, 82, 101, 97, 100, 121, 113, 201, 101, 60, 0, 0,
  1, 205, 73, 68, 65, 84, 120, 218, 148, 147, 57, 72, 3, 65, 20, 134, 255, 93, 98, 167, 4, 82, 196,
  109, 34, 30, 160, 70, 36, 8, 22, 22, 118, 10, 54, 186, 74, 154, 128, 8, 65, 180, 113, 133, 88,
  137, 71, 176, 73, 169, 81, 36, 205, 166, 8, 164, 72, 99, 145, 66, 11, 175, 86, 193, 70, 180, 21,
  207, 34, 88, 152, 11, 84, 72, 138, 100, 147, 141, 251, 70, 103, 201, 26, 20, 125, 240, 102, 118,
  102, 223, 124, 239, 231, 103, 70, 168, 213, 106, 72, 36, 18, 42, 0, 5, 191, 71, 212, 239, 247,
  47, 54, 236, 18, 32, 30, 143, 215, 170, 213, 234, 175, 73, 53, 70, 170, 84, 95, 159, 34, 65, 42,
  149, 10, 131, 229, 114, 57, 100, 179, 89, 150, 153, 76, 6, 233, 116, 154, 37, 133, 44, 203, 84,
  167, 196, 98, 49, 181, 94, 0, 3, 104, 154, 198, 22, 130, 32, 88, 82, 20, 69, 54, 83, 148, 203,
  101, 120, 189, 94, 170, 85, 84, 35, 76, 192, 224, 226, 193, 143, 0, 158, 188, 9, 65, 124, 62, 31,
  131, 68, 34, 17, 213, 84, 64, 63, 56, 128, 119, 229, 51, 7, 184, 92, 46, 72, 146, 4, 135, 195,
  129, 64, 32, 64, 103, 152, 233, 54, 26, 166, 103, 21, 4, 227, 215, 200, 189, 21, 225, 105, 183,
  67, 171, 234, 120, 47, 106, 88, 146, 187, 24, 32, 159, 207, 51, 195, 184, 233, 78, 167, 211, 108,
  74, 0, 105, 54, 124, 142, 225, 254, 86, 132, 231, 60, 159, 114, 43, 58, 66, 123, 55, 102, 119,
  174, 142, 14, 243, 189, 82, 169, 100, 2, 66, 175, 133, 50, 102, 70, 186, 12, 217, 159, 29, 154,
  108, 34, 230, 199, 58, 44, 128, 239, 193, 21, 144, 7, 147, 162, 40, 160, 83, 106, 177, 184, 223,
  41, 53, 67, 14, 63, 88, 252, 152, 218, 121, 106, 80, 64, 0, 135, 174, 27, 23, 66, 180, 58, 63,
  190, 121, 199, 10, 38, 182, 238, 217, 154, 96, 20, 147, 219, 143, 13, 10, 46, 233, 35, 149, 41,
  88, 0, 39, 235, 110, 86, 112, 188, 214, 203, 214, 71, 171, 61, 108, 125, 184, 210, 221, 160, 96,
  131, 186, 239, 95, 164, 234, 204, 2, 78, 174, 94, 112, 26, 236, 179, 64, 57, 172, 254, 242, 145,
  137, 103, 145, 133, 33, 168, 135, 183, 88, 126, 126, 133, 187, 205, 78, 78, 98, 116, 64, 250,
  147, 137, 236, 30, 236, 134, 2, 72, 38, 147, 208, 117, 29, 127, 9, 50, 149, 191, 31, 219, 215,
  99, 138, 26, 247, 92, 193, 255, 34, 74, 195, 135, 0, 3, 0, 75, 187, 248, 214, 42, 118, 152, 73,
  0, 0, 0, 0, 73, 69, 78, 68, 174, 66, 96, 130]

def index : Bytes := ascii "<html><head><title>Hello World</title></head></html>"

def addARepHeader (d : HttpData) (key value : Bytes) : HttpData :=
  { d with responseHeaders := d.responseHeaders.set key value }

def setContentType (d : HttpData) (contentType : Bytes) : HttpData :=
  d.addARepHeader (ascii "Content-Type") contentType

/-- The middle of `onRequest`: the page the path asks for. -/
def choosePage (d : HttpData) : HttpData :=
  if d.path = ascii "/" then
    let d := { d with statusCode := .k200Ok, statusMessage := ascii "Ok" }
    let d := (d.setContentType (ascii "text/html")).addARepHeader (ascii "Server")
      (ascii "tyh's Web Server")
    { d with body := index }
  else if d.path = ascii "/favicon.ico" then
    let d := { d with statusCode := .k200Ok, statusMessage := ascii "Ok" }
    { d.setContentType (ascii "image/png") with body := favicon }
  else
    { d with statusCode := .k404NotFound, statusMessage := ascii "Not Found"
             closeConnection := true }

/-- Whether `onRequest` will shut the connection down. -/
def wantsClose (d : HttpData) : Bool :=
  let connection := d.getAReqHeader (ascii "Connection")
  connection = ascii "close" || (d.version = .kHttp10 && connection ≠ ascii "Keep-Alive")

/-- What `onRequest` does but for the object: the bytes it gives to `send`, and
whether it calls `shutdown`. -/
structure Answer where
  response : Bytes
  close : Bool
  deriving DecidableEq

/-- `onRequest(input)`; it empties the input whatever `parseRequest` said. -/
def onRequest (d : HttpData) (input : Bytes) : Option (HttpData × Answer) :=
  match d.parseRequest input with
  | none => none
  | some p =>
      let d := p.data.choosePage
      match d.appendToBuffer [] with
      | none => none
      | some response => some (d.clearAllContent, ⟨response, p.data.wantsClose⟩)

end HttpData

end WebServer
