/-
# `Http.Answers` — what an answer says, and whether it is so

The status of an answer and its `Connection` header come from the page, that is,
from the path the request is answered for: the one its first line sets, or, where
it sets none, the one that is left from an earlier request (`servedPath`).  What
they should agree with comes from elsewhere.

* Whether the connection is shut down depends on the version and on a header of
  the request.  A page not found says `Connection: close` to a client that is kept,
  and a page says `Keep-Alive` to one that is hung up on (`says_so_iff`).
* `onRequest` does not look at what `parseRequest` returns.  A request that is
  malformed, or not yet complete, is answered with the page of its path all the same
  (`refuses_iff`).
-/
import WebServer.Http.Leak
import WebServer.Http.Resume
import Mathlib.Data.List.Infix

namespace WebServer

namespace HttpData

open Machine

/-- The path that an input is answered for after a history. -/
def servedPath (history : List Use) (input : Bytes) : Bytes :=
  (requestPath input).getD (history.foldl Use.pathAfter [])

/-- An answer to the input after the history is one of that page, with some body. -/
theorem answer_eq (history : List Use) (input : Bytes) : ∃ body ∈ bodies,
    answer history input =
      some ⟨response (pageOf (servedPath history input)) body, hangsUp input⟩ := by
  obtain ⟨d, body, hrun, hd⟩ := history_runs history
  exact ⟨body, hd.known, answer_of_kept hrun hd input⟩

theorem pageOf_missing_iff {path : Bytes} :
    pageOf path = .missing ↔ path ≠ ascii "/" ∧ path ≠ ascii "/favicon.ico" := by
  by_cases hroot : path = ascii "/"
  · exact iff_of_false (by simp [pageOf, hroot]) fun h => h.1 hroot
  · by_cases hicon : path = ascii "/favicon.ico"
    · exact iff_of_false (by rw [pageOf, if_neg hroot, if_pos hicon]; simp) fun h => h.2 hicon
    · exact iff_of_true (by rw [pageOf, if_neg hroot, if_neg hicon]) ⟨hroot, hicon⟩

/-! ## The connection -/

def closeHeader : Bytes := ascii "Connection: close\r\n"

def keepAliveHeader : Bytes := ascii "Connection: Keep-Alive\r\n"

/-- The header, as it is appended, is somewhere in the response. -/
def Carries (response header : Bytes) : Prop := header <:+: response

theorem carries_response {before : Bytes} (h : before ∈ bodies) (p : Page) :
    (Carries (response p before) closeHeader ↔ p = .missing) ∧
      (Carries (response p before) keepAliveHeader ↔ p ≠ .missing) := by
  have hpages : ∀ p ∈ [Page.root, Page.icon],
      (closeHeader <:+: response p [] ↔ p = .missing) ∧
        (keepAliveHeader <:+: response p [] ↔ p ≠ .missing) := by
    decide +kernel
  have hmissing : ∀ before ∈ bodies,
      (closeHeader <:+: response .missing before ↔ Page.missing = .missing) ∧
        (keepAliveHeader <:+: response .missing before ↔ Page.missing ≠ .missing) := by
    decide +kernel
  cases p with
  | root =>
    rw [response_congr h (.head _) (p := .root) rfl]
    exact hpages _ (.head _)
  | icon =>
    rw [response_congr h (.head _) (p := .icon) rfl]
    exact hpages _ (.tail _ (.head _))
  | missing => exact hmissing before h

theorem answer_closes (history : List Use) (input : Bytes) :
    (answer history input).map (fun a => (decide (closeHeader <:+: a.response), a.close)) =
      some (decide (pageOf (servedPath history input) = .missing), hangsUp input) := by
  obtain ⟨body, hbody, hanswer⟩ := answer_eq history input
  rw [hanswer, Option.map_some, Option.some.injEq, Prod.mk.injEq]
  exact ⟨decide_eq_decide.mpr (carries_response hbody _).1, rfl⟩

theorem answer_keeps (history : List Use) (input : Bytes) :
    (answer history input).map (fun a => (decide (keepAliveHeader <:+: a.response), a.close)) =
      some (decide (pageOf (servedPath history input) ≠ .missing), hangsUp input) := by
  obtain ⟨body, hbody, hanswer⟩ := answer_eq history input
  rw [hanswer, Option.map_some, Option.some.injEq, Prod.mk.injEq]
  exact ⟨decide_eq_decide.mpr (carries_response hbody _).2, rfl⟩

/-- The answer says that the connection is closed when it is shut down, and that it
is kept when it is not. -/
def SaysSo (a : Answer) : Prop :=
  (Carries a.response closeHeader ↔ a.close = true) ∧
    (a.close = false → Carries a.response keepAliveHeader)

/-- The answer to an input says what is done exactly when the path it is answered for
has no page just in case the input asks to be hung up on. -/
theorem says_so_iff (history : List Use) (input : Bytes) :
    (∃ a, answer history input = some a ∧ SaysSo a) ↔
      ((servedPath history input ≠ ascii "/" ∧ servedPath history input ≠ ascii "/favicon.ico") ↔
        hangsUp input = true) := by
  obtain ⟨body, hbody, hanswer⟩ := answer_eq history input
  obtain ⟨hclose, hkeep⟩ := carries_response hbody (pageOf (servedPath history input))
  rw [← pageOf_missing_iff, ← hclose]
  constructor
  · rintro ⟨a, ha, hagree, -⟩
    cases hanswer.symm.trans ha
    exact hagree
  · intro hagree
    refine ⟨_, hanswer, hagree, ?_⟩
    intro hkept
    refine hkeep.mpr fun hmissing => ?_
    exact absurd ((hagree.mp (hclose.mpr hmissing)).symm.trans hkept) (by decide)

/-- A page not found is a client kept and told that it is not; a page asked for in
HTTP/1.0 is a client told that it is kept, and hung up on. -/
theorem says_so_fails :
    ((answer [] (ascii "GET /nosuch HTTP/1.1\r\n\r\n")).map fun a =>
      (decide (closeHeader <:+: a.response), a.close)) = some (true, false) ∧
    ((answer [] (ascii "GET / HTTP/1.0\r\n\r\n")).map fun a =>
      (decide (keepAliveHeader <:+: a.response), a.close)) = some (true, true) ∧
    ¬∀ history input, ∃ a, answer history input = some a ∧ SaysSo a := by
  have hfound : ((answer [] (ascii "GET /nosuch HTTP/1.1\r\n\r\n")).map fun a =>
      (decide (closeHeader <:+: a.response), a.close)) = some (true, false) := by
    rw [answer_closes]
    decide
  have hkept : ((answer [] (ascii "GET / HTTP/1.0\r\n\r\n")).map fun a =>
      (decide (keepAliveHeader <:+: a.response), a.close)) = some (true, true) := by
    rw [answer_keeps]
    decide
  refine ⟨hfound, hkept, ?_⟩
  intro h
  obtain ⟨a, ha, hagree, -⟩ := h [] (ascii "GET /nosuch HTTP/1.1\r\n\r\n")
  rw [ha, Option.map_some, Option.some.injEq, Prod.mk.injEq, decide_eq_true_eq] at hfound
  exact absurd ((hagree.mp hfound.1).symm.trans hfound.2) (by decide)

/-! ## The status -/

/-- The digits after `HTTP/1.1 `. -/
def statusOf (response : Bytes) : Bytes := (response.drop 9).take 3

theorem statusOf_response {before : Bytes} (h : before ∈ bodies) (p : Page) :
    statusOf (response p before) = ascii "200" ↔ p ≠ .missing := by
  have hall : ∀ p ∈ Page.all, (statusOf p.head = ascii "200" ↔ p ≠ .missing) := by decide
  have hlength : 12 ≤ p.head.length := by
    obtain ⟨hroot, hicon, hmissing⟩ := length_head
    cases p <;> omega
  have hdigits : 3 ≤ (p.head.drop 9).length := by
    rw [List.length_drop]
    omega
  rw [response_eq h, statusOf, List.drop_append_of_le_length (by omega),
    List.take_append_of_le_length hdigits]
  exact hall p p.mem_all

theorem answer_ok {history : List Use} {input : Bytes}
    (h : pageOf (servedPath history input) ≠ .missing) :
    (answer history input).map (fun a => statusOf a.response) = some (ascii "200") := by
  obtain ⟨body, hbody, hanswer⟩ := answer_eq history input
  rw [hanswer, Option.map_some]
  exact congrArg some ((statusOf_response hbody _).mpr h)

/-- An input that is a complete request: a request line, header fields, and a line
without a colon. -/
def Complete (input : Bytes) : Prop := ∃ last rest, Headed last input rest

/-- `parseRequest` returns false or does not get it all just when the input is not
complete. -/
theorem parse_fails_iff {d : HttpData} (hd : d.Cleared) {input : Bytes} {p : Parsing}
    (hp : d.parseRequest input = some p) :
    p.ok = false ∨ p.data.state ≠ .kGotAll ↔ ¬Complete input := by
  obtain ⟨q, hq, hends⟩ := parseRequest_ends hd input
  cases hp.symm.trans hq
  obtain ⟨r, hr, hwaits⟩ := parseRequest_waits (Or.inl hd.state) input
  cases hp.symm.trans hr
  rcases hends with ⟨hgot, last, hlast⟩ | ⟨hopen, hnone⟩
  · refine iff_of_false ?_ fun h => h ⟨last, _, hlast⟩
    rintro (hok | hopen)
    · rcases hwaits with ⟨-, hok'⟩ | hwaits
      · exact Bool.noConfusion (hok.symm.trans hok')
      · rcases hwaits with hs | hs <;> cases hgot.symm.trans hs
    · exact hopen hgot
  · refine iff_of_true (Or.inr hopen) ?_
    rintro ⟨last, rest, h⟩
    exact hnone last rest h

/-- An input that `parseRequest` does not get all of is not answered with 200. -/
def Refuses (history : List Use) (input : Bytes) : Prop :=
  ∀ d p a, exec Use.step new history = some d → d.parseRequest input = some p →
    answer history input = some a → p.ok = false ∨ p.data.state ≠ .kGotAll →
    statusOf a.response ≠ ascii "200"

/-- After a history, an input is refused exactly when it is complete or is answered for
a path that has no page. -/
theorem refuses_iff (history : List Use) (input : Bytes) : Refuses history input ↔
    Complete input ∨
      servedPath history input ≠ ascii "/" ∧ servedPath history input ≠ ascii "/favicon.ico" := by
  obtain ⟨d, body, hrun, hd⟩ := history_runs history
  have hanswer := answer_of_kept hrun hd input
  have hstatus := statusOf_response hd.known (pageOf (servedPath history input))
  obtain ⟨p, hp, -⟩ := parseRequest_waits (Or.inl hd.cleared.state) input
  have hfails := parse_fails_iff hd.cleared hp
  rw [← pageOf_missing_iff]
  constructor
  · intro hrefuses
    refine Classical.or_iff_not_imp_left.mpr fun hopen => ?_
    have hne := hrefuses d p _ hrun hp hanswer (hfails.mpr hopen)
    exact Classical.byContradiction fun hpage => hne (hstatus.mpr hpage)
  · rintro hgood d' p' a hrun' hp' ha hfailed
    cases hrun.symm.trans hrun'
    cases hp.symm.trans hp'
    cases hanswer.symm.trans ha
    have hmissing := hgood.resolve_left (hfails.mp hfailed)
    exact fun h => hstatus.mp h hmissing

/-- A request with a version that there is not, one cut off after its first line, and
no request at all, each answered with 200. -/
theorem refuses_fails :
    ((answer [] (ascii "GET / HTTP/2.0\r\n\r\n")).map fun a => statusOf a.response) =
      some (ascii "200") ∧
    ((answer [] (ascii "GET / HTTP/1.1\r\nA: b")).map fun a => statusOf a.response) =
      some (ascii "200") ∧
    ((answer [.onRequest rootRequest] (ascii "???\r\n")).map fun a => statusOf a.response) =
      some (ascii "200") ∧
    ¬∀ history input, Refuses history input := by
  have hfirst : ((answer [] (ascii "GET / HTTP/2.0\r\n\r\n")).map fun a =>
      statusOf a.response) = some (ascii "200") := answer_ok (by decide)
  refine ⟨hfirst, answer_ok (by decide), answer_ok (by decide), ?_⟩
  intro h
  obtain ⟨a, ha, hstatus⟩ := Option.map_eq_some_iff.mp hfirst
  have hok : (new.parseRequest (ascii "GET / HTTP/2.0\r\n\r\n")).map Parsing.ok =
      some false := by decide
  obtain ⟨p, hp, hfalse⟩ := Option.map_eq_some_iff.mp hok
  exact h [] _ new p a rfl hp ha (Or.inl hfalse) hstatus

end HttpData

end WebServer
