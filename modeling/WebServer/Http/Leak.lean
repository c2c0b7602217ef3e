/-
# `Http.Leak` — what an answer tells about earlier requests

A history of an object is a run of `onRequest` calls and of `TcpConnection::reset`
calls between two sessions, which leave the object alone.  Every history goes
through (`history_runs`) and leaves a path and a body (`Kept`), and these two
are the leak: `clearAllContent` forgets neither.

Whether the connection is shut down depends on the input only (`close_eq`).  The
bytes of the answer do exactly when the first line of the input sets a path that
has a page (`answer_iff`): a page not found goes out with the body of an earlier
answer, and an input that sets no path is answered for the path of an earlier
one.
-/
import WebServer.Http.Pages
import WebServer.Lib.Machine

namespace WebServer

namespace HttpData

open Machine

/-! ## Histories -/

/-- What happens to the object of a pooled connection. -/
inductive Use where
  | onRequest (input : Bytes)
  | reset
  deriving DecidableEq

def Use.step (d : HttpData) : Use → Option HttpData
  | .onRequest input => (d.onRequest input).map Prod.fst
  | .reset => some d

/-- The answer to a request after a history. -/
def answer (history : List Use) (input : Bytes) : Option Answer :=
  (exec Use.step new history).bind fun d => (d.onRequest input).map Prod.snd

/-- The path that is there after one of them. -/
def Use.pathAfter (path : Bytes) : Use → Bytes
  | .onRequest input => (requestPath input).getD path
  | .reset => path

theorem step_kept {d : HttpData} {path body : Bytes} (hd : d.Kept path body) (u : Use) :
    ∃ d' body', Use.step d u = some d' ∧ d'.Kept (u.pathAfter path) body' := by
  cases u with
  | onRequest input =>
      obtain ⟨d', hcall, hkept⟩ := onRequest_answers hd input
      exact ⟨d', _, congrArg (Option.map Prod.fst) hcall, hkept⟩
  | reset => exact ⟨d, body, rfl, hd⟩

/-- Every history goes through, and leaves a path and a body. -/
theorem history_runs (history : List Use) : ∃ d body, exec Use.step new history = some d ∧
    d.Kept (history.foldl Use.pathAfter []) body := by
  have hrun : ∀ {d : HttpData} {path body : Bytes}, d.Kept path body →
      ∃ d' body', exec Use.step d history = some d' ∧
        d'.Kept (history.foldl Use.pathAfter path) body' := by
    induction history with
    | nil =>
        intro d path body hd
        exact ⟨d, body, rfl, hd⟩
    | cons u history ih =>
        intro d path body hd
        obtain ⟨d₁, body₁, hstep, hkept⟩ := step_kept hd u
        obtain ⟨d', body', hexec, hkept'⟩ := ih hkept
        exact ⟨d', body', exec_cons.mpr ⟨d₁, hstep, hexec⟩, hkept'⟩
  exact hrun kept_new

theorem answer_of_kept {history : List Use} {d : HttpData} {path body : Bytes}
    (hrun : exec Use.step new history = some d) (hd : d.Kept path body) (input : Bytes) :
    answer history input =
      some ⟨response (pageOf ((requestPath input).getD path)) body, hangsUp input⟩ := by
  obtain ⟨d', hcall, -⟩ := onRequest_answers hd input
  rw [answer, hrun, Option.bind_some, hcall]
  rfl

def rootRequest : Bytes := ascii "GET / HTTP/1.1\r\n\r\n"

theorem requestPath_rootRequest : requestPath rootRequest = some (ascii "/") := by decide

/-- The history that leaves the path and the body of the page `/`. -/
theorem root_history :
    ∃ d, exec Use.step new [.onRequest rootRequest] = some d ∧ d.Kept (ascii "/") index := by
  obtain ⟨d, hcall, hkept⟩ := onRequest_answers kept_new rootRequest
  rw [requestPath_rootRequest] at hkept
  exact ⟨d, exec_cons.mpr ⟨d, congrArg (Option.map Prod.fst) hcall, rfl⟩, hkept⟩

/-! ## What leaks -/

/-- Whether the connection is shut down leaks nothing. -/
theorem close_eq (h h' : List Use) (input : Bytes) :
    (answer h input).map Answer.close = (answer h' input).map Answer.close := by
  obtain ⟨d, body, hrun, hd⟩ := history_runs h
  obtain ⟨d', body', hrun', hd'⟩ := history_runs h'
  rw [answer_of_kept hrun hd, answer_of_kept hrun' hd']
  rfl

/-- The answer is the same after every two histories exactly when the input's
first line sets a path that has a page. -/
theorem answer_iff (input : Bytes) : (∀ h h', answer h input = answer h' input) ↔
    ∃ path, SetsPath input path ∧ (path = ascii "/" ∨ path = ascii "/favicon.ico") := by
  constructor
  · intro hsame
    have heq := hsame [] [.onRequest rootRequest]
    obtain ⟨d, hrun, hd⟩ := root_history
    rw [answer_of_kept (exec_nil _) kept_new, answer_of_kept hrun hd] at heq
    obtain ⟨hpage, hbody⟩ := response_inj kept_new.known hd.known
      (congrArg Answer.response (Option.some.inj heq))
    cases hpath : requestPath input with
    | none =>
        rw [hpath] at hpage
        exact absurd hpage (by decide)
    | some path =>
        refine ⟨path, requestPath_eq_some_iff.mp hpath, ?_⟩
        rw [hpath, Option.getD_some, Option.getD_some] at hbody
        by_contra hother
        obtain ⟨hroot, hicon⟩ := not_or.mp hother
        rw [pageOf, if_neg hroot, if_neg hicon] at hbody
        exact absurd hbody (by decide)
  · rintro ⟨path, hsets, hpage⟩ h h'
    obtain ⟨d, body, hrun, hd⟩ := history_runs h
    obtain ⟨d', body', hrun', hd'⟩ := history_runs h'
    rw [answer_of_kept hrun hd, answer_of_kept hrun' hd', requestPath_eq_some_iff.mpr hsets,
      Option.getD_some, Option.getD_some]
    rcases hpage with rfl | rfl <;> rfl

/-- A page not found, before and after the page `/` has been served. -/
theorem answer_differs :
    ¬∀ input h h', answer h input = answer h' input := by
  intro hsame
  have hne : answer [] (ascii "GET /nosuch HTTP/1.1\r\n\r\n") ≠
      answer [.onRequest rootRequest] (ascii "GET /nosuch HTTP/1.1\r\n\r\n") := by
    decide
  exact hne (hsame _ _ _)

end HttpData

end WebServer
