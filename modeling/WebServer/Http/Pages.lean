/-
# `Http.Pages` — what one call of `onRequest` answers

An object serves three pages.  `/` and `/favicon.ico` store a body; any other
path is not found, and goes out with the body that is there already.  So the
answer is a function of the page and of that body (`response`): what the page
alone decides, and then the body (`response_eq`).  On the bodies an object can
hold it tells the pages, and the bodies it shows, apart (`response_inj`).

`onRequest_answers` is the call on an object that has been cleared: which
answer goes out, and what is left in the object.  An input whose first line
sets no path gets the page of the path that is there already.
-/
import Mathlib.Data.List.Nodup
import WebServer.Http.Parse

namespace WebServer

namespace HttpData

/-! ## Pages -/

inductive Page where
  | root
  | icon
  | missing
  deriving DecidableEq

def Page.all : List Page := [.root, .icon, .missing]

theorem Page.mem_all (p : Page) : p ∈ Page.all := by cases p <;> decide

def pageOf (path : Bytes) : Page :=
  if path = ascii "/" then .root
  else if path = ascii "/favicon.ico" then .icon
  else .missing

/-- The body a page leaves, from the body before. -/
def Page.body : Page → Bytes → Bytes
  | .root, _ => index
  | .icon, _ => favicon
  | .missing, before => before

/-- The bodies an object can hold. -/
def bodies : List Bytes := [[], index, favicon]

theorem Page.body_mem {before : Bytes} (h : before ∈ bodies) :
    ∀ p : Page, p.body before ∈ bodies
  | .root => .tail _ (.head _)
  | .icon => .tail _ (.tail _ (.head _))
  | .missing => h

/-- The object as it is answered from. -/
def Page.shown (p : Page) (before : Bytes) : HttpData :=
  match p with
  | .root => { new with path := ascii "/", body := before }.choosePage
  | .icon => { new with path := ascii "/favicon.ico", body := before }.choosePage
  | .missing => { new with body := before }.choosePage

/-- The bytes that answer a request for the page. -/
def response (p : Page) (before : Bytes) : Bytes := ((p.shown before).appendToBuffer []).getD []

/-- `appendToBuffer` up to the body. -/
def appendHead (d : HttpData) (output : Bytes) : Option Bytes := do
  let output := output ++ strncpy (snprintf (ascii "HTTP/1.1 " ++ decimal d.statusCode.code)) 32
  let output ← append d.statusMessage output
  let output ← append crlf output
  let output ←
    if d.closeConnection then append (ascii "Connection: close\r\n") output
    else append (ascii "Connection: Keep-Alive\r\n") (output ++
      strncpy (snprintf (ascii "Content-Length: " ++ decimal d.body.length ++ crlf)) 32)
  let output ← d.responseHeaders.foldlM appendHeader output
  append crlf output

theorem appendToBuffer_eq (d : HttpData) (output : Bytes) :
    d.appendToBuffer output = d.appendHead output >>= append d.body := by
  unfold appendToBuffer appendHead
  by_cases hclose : d.closeConnection = true
  · simp only [if_pos hclose, bind_assoc]
  · simp only [if_neg hclose, bind_assoc]

/-- What is sent before the body. -/
def Page.head (p : Page) : Bytes := ((p.shown []).appendHead []).getD []

theorem appendHead_lengths :
    Page.all.map (fun p => ((p.shown []).appendHead []).map List.length) =
      [some 145, some 119, some 64] := by
  decide +kernel

/-- What is sent before the body does not depend on the body before. -/
theorem appendHead_shown (p : Page) (before : Bytes) :
    (p.shown before).appendHead [] = some p.head := by
  have hlengths := appendHead_lengths
  simp only [Page.all, List.map_cons, List.cons.injEq] at hlengths
  have hsame : (p.shown before).appendHead [] = (p.shown []).appendHead [] := by
    cases p with
    | root => rfl
    | icon => rfl
    | missing => rfl
  have hsome : ∃ head, (p.shown []).appendHead [] = some head := by
    cases p with
    | root => exact (Option.map_eq_some_iff.mp hlengths.1).imp fun _ h => h.1
    | icon => exact (Option.map_eq_some_iff.mp hlengths.2.1).imp fun _ h => h.1
    | missing => exact (Option.map_eq_some_iff.mp hlengths.2.2.1).imp fun _ h => h.1
  obtain ⟨head, hhead⟩ := hsome
  rw [hsame, Page.head, hhead, Option.getD_some]

theorem length_head : (Page.head .root).length = 145 ∧ (Page.head .icon).length = 119 ∧
    (Page.head .missing).length = 64 := by
  have hlengths := appendHead_lengths
  simp only [Page.all, List.map_cons, List.cons.injEq, appendHead_shown, Option.map_some,
    Option.some.injEq] at hlengths
  exact ⟨hlengths.1, hlengths.2.1, hlengths.2.2.1⟩

theorem bodies_lengths : bodies.map List.length = [0, 52, 555] := by decide +kernel

theorem length_of_mem_bodies {body : Bytes} (h : body ∈ bodies) :
    body.length = 0 ∨ body.length = 52 ∨ body.length = 555 := by
  have hmem := List.mem_map_of_mem (f := List.length) h
  rw [bodies_lengths] at hmem
  simpa using hmem

theorem append_small {piece : Bytes} (h : piece.length < 2 ^ 31) (output : Bytes) :
    append piece output = some (output ++ strncpy piece piece.length) := by
  have hsize : piece.length % 2 ^ 32 = piece.length := Nat.mod_eq_of_lt (h.trans (by decide))
  rw [append, hsize]
  exact if_pos h

theorem shown_body (p : Page) (before : Bytes) : (p.shown before).body = p.body before := by
  cases p <;> rfl

/-- A body that an object can hold is short enough to be appended. -/
theorem appendToBuffer_bytes {before : Bytes} (h : before ∈ bodies) (p : Page) :
    (p.shown before).appendToBuffer [] =
      some (p.head ++ strncpy (p.body before) (p.body before).length) := by
  have hsmall : (p.body before).length < 2 ^ 31 := by
    have hlength := length_of_mem_bodies (Page.body_mem h p)
    omega
  rw [appendToBuffer_eq, appendHead_shown, shown_body]
  exact append_small hsmall _

theorem response_eq {before : Bytes} (h : before ∈ bodies) (p : Page) :
    response p before = p.head ++ strncpy (p.body before) (p.body before).length := by
  rw [response, appendToBuffer_bytes h, Option.getD_some]

theorem response_congr {b c : Bytes} (hb : b ∈ bodies) (hc : c ∈ bodies) {p : Page}
    (h : p.body b = p.body c) : response p b = response p c := by
  rw [response_eq hb, response_eq hc, h]

theorem appendToBuffer_shown {before : Bytes} (h : before ∈ bodies) (p : Page) :
    (p.shown before).appendToBuffer [] = some (response p before) := by
  rw [response_eq h, appendToBuffer_bytes h]

theorem length_response {before : Bytes} (h : before ∈ bodies) (p : Page) :
    (response p before).length = p.head.length + (p.body before).length := by
  rw [response_eq h, List.length_append, length_strncpy]

/-- An answer tells which page it is; a page not found shows the body before.  No two
answers have the same length. -/
theorem response_inj {p q : Page} {b c : Bytes} (hb : b ∈ bodies) (hc : c ∈ bodies)
    (h : response p b = response q c) : p = q ∧ p.body b = q.body c := by
  have hlength := congrArg List.length h
  rw [length_response hb, length_response hc] at hlength
  obtain ⟨-, hindex, hfavicon, -⟩ : _ ∧ index.length = 52 ∧ favicon.length = 555 ∧ _ := by
    simpa only [bodies, List.map_cons, List.cons.injEq] using bodies_lengths
  obtain ⟨hroot, hicon, hmissing⟩ := length_head
  have hpage : p = q := by
    have hb' := length_of_mem_bodies hb
    have hc' := length_of_mem_bodies hc
    cases p <;> cases q <;> first | rfl | (simp only [Page.body] at hlength; omega)
  subst hpage
  have hnodup : (bodies.map List.length).Nodup := by rw [bodies_lengths]; decide
  refine ⟨rfl, List.inj_on_of_nodup_map hnodup (Page.body_mem hb p) (Page.body_mem hc p) ?_⟩
  omega

theorem appendToBuffer_congr {d e : HttpData} (hcode : d.statusCode = e.statusCode)
    (hmessage : d.statusMessage = e.statusMessage)
    (hclose : d.closeConnection = e.closeConnection) (hbody : d.body = e.body)
    (hresponse : d.responseHeaders = e.responseHeaders) (output : Bytes) :
    d.appendToBuffer output = e.appendToBuffer output := by
  simp only [appendToBuffer, hcode, hmessage, hclose, hbody, hresponse]

/-- Of a cleared object, an answer reads the path and the body. -/
theorem appendToBuffer_choosePage {d : HttpData} (hresponse : d.responseHeaders = [])
    (hclose : d.closeConnection = false) :
    d.choosePage.appendToBuffer [] = ((pageOf d.path).shown d.body).appendToBuffer [] := by
  have hne : ascii "/favicon.ico" ≠ ascii "/" := by decide
  have hnil : ([] : Bytes) ≠ ascii "/" ∧ ([] : Bytes) ≠ ascii "/favicon.ico" := by decide
  by_cases hroot : d.path = ascii "/"
  · apply appendToBuffer_congr <;>
      simp [choosePage, pageOf, hroot, Page.shown, setContentType, addARepHeader, hresponse,
        hclose, new]
  · by_cases hicon : d.path = ascii "/favicon.ico"
    · apply appendToBuffer_congr <;>
        simp [choosePage, pageOf, hicon, Page.shown, setContentType, addARepHeader, hresponse,
          hclose, new, hne]
    · apply appendToBuffer_congr <;>
        simp [choosePage, pageOf, hroot, hicon, Page.shown, hresponse, new, hnil]

theorem choosePage_path (d : HttpData) : d.choosePage.path = d.path := by
  unfold choosePage
  split <;> [rfl; split <;> rfl]

theorem choosePage_body (d : HttpData) : d.choosePage.body = (pageOf d.path).body d.body := by
  unfold choosePage pageOf
  split <;> [rfl; split <;> rfl]

/-! ## The call -/

/-- Whether an input makes `onRequest` shut the connection down. -/
def hangsUp (input : Bytes) : Bool :=
  let connection := ((requestFields input).get (ascii "Connection")).getD []
  connection = ascii "close" ||
    (requestVersion input = some .kHttp10 && connection ≠ ascii "Keep-Alive")

/-- The object between two calls, with the path and the body they left. -/
structure Kept (d : HttpData) (path body : Bytes) : Prop where
  cleared : d.Cleared
  path_eq : d.path = path
  body_eq : d.body = body
  known : body ∈ bodies

theorem kept_new : new.Kept [] [] := ⟨cleared_new, rfl, rfl, .head _⟩

/-- One call: the answer, and what it leaves. -/
theorem onRequest_answers {d : HttpData} {path body : Bytes} (hd : d.Kept path body)
    (input : Bytes) :
    ∃ d', d.onRequest input = some (d',
        ⟨response (pageOf ((requestPath input).getD path)) body, hangsUp input⟩) ∧
      d'.Kept ((requestPath input).getD path)
        ((pageOf ((requestPath input).getD path)).body body) := by
  obtain ⟨hclear, rfl, rfl, hmem⟩ := hd
  obtain ⟨p, q, m, s, hparse, hdata⟩ := parseRequest_reads hclear input
  have hpath : p.data.path = (requestPath input).getD d.path := by rw [hdata]
  have hbody : p.data.body = d.body := by rw [hdata]
  have hresponse : p.data.responseHeaders = [] := by rw [hdata]; exact hclear.responseHeaders
  have hclose : p.data.closeConnection = false := by rw [hdata]; exact hclear.closeConnection
  have happend := appendToBuffer_choosePage hresponse hclose
  rw [hpath, hbody, appendToBuffer_shown hmem] at happend
  have hwants : p.data.wantsClose = hangsUp input := by
    rw [wantsClose, hangsUp, getAReqHeader, hdata]
    cases requestVersion input <;> simp
  refine ⟨p.data.choosePage.clearAllContent, ?_, cleared_clearAllContent _, ?_, ?_,
    Page.body_mem hmem _⟩
  · simp only [onRequest, hparse, happend, hwants]
  · exact (choosePage_path p.data).trans hpath
  · exact (choosePage_body p.data).trans (by rw [hpath, hbody])

end HttpData

end WebServer
