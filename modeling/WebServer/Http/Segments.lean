/-
# `Http.Segments` — how the cutting into reads changes the answers

A session appends each read to the input buffer and calls `onRequest` once
(`Session.read`).  `onRequest` answers whether or not the input held a whole
request, and empties the buffer, so a session emits one answer for each read, up
to the one that shuts the connection down (`answered`), whatever stood in it:

    answer to a read  =  page of the path that its first line sets,
                         or else of the path that is there already   (`asked`)

`Request` is a well-formed keep-alive request without a body, `encode` its
bytes.  A read that is one request is answered with that request's page
(`asked_encode`), and other reads get the answers of requests exactly when they
ask for the requests' pages, one after the other (`emits_iff`).

What a server owes is more: after each read, the answers to the requests that
are complete by then and no other (`Prompt`).  One answer for each read keeps
that only where each read brings the end of one request (`prompt_iff`).
-/
import WebServer.Http.Leak

namespace WebServer

namespace HttpData

open Machine

/-! ## A session -/

/-- A session of a connection: its object, the bytes in its input buffer,
whether `state_` is `KConnected`, and the answers that `send` has let out. -/
structure Session where
  data : HttpData
  input : Bytes
  connected : Bool
  emitted : List Bytes
  deriving DecidableEq

/-- A read: the bytes are appended, and `onRequest` is called. -/
def Session.read (s : Session) (bytes : Bytes) : Option Session :=
  (s.data.onRequest (s.input ++ bytes)).map fun r =>
    { data := r.1
      input := []
      connected := s.connected && !r.2.close
      emitted := if s.connected then s.emitted ++ [r.2.response] else s.emitted }

/-- What a session emits, on an object with that history. -/
def emits (history : List Use) (reads : List Bytes) : Option (List Bytes) := do
  let d ← exec Use.step new history
  let s ← exec Session.read ⟨d, [], true, []⟩ reads
  some s.emitted

/-! ## Requests -/

/-- A well-formed request without a body that keeps its connection open.  No
line has a carriage return in it, and every header line has a colon. -/
structure Request where
  method : Bytes
  target : Bytes
  http11 : Bool
  fields : List Bytes
  method_mem : method ∈ methods
  target_blank : 32 ∉ target
  target_line : 13 ∉ target
  fields_line : ∀ f ∈ fields, 13 ∉ f
  fields_colon : ∀ f ∈ fields, 58 ∈ f
  stays : ((storeFields [] fields).get (ascii "Connection")).getD [] ≠ ascii "close"
  keepAlive : http11 = false →
    ((storeFields [] fields).get (ascii "Connection")).getD [] = ascii "Keep-Alive"

namespace Request

def versionText (r : Request) : Bytes := ascii (if r.http11 then "HTTP/1.1" else "HTTP/1.0")

def requestLine (r : Request) : Bytes := r.method ++ 32 :: (r.target ++ 32 :: r.versionText)

/-- The bytes of a request. -/
def encode (r : Request) : Bytes :=
  r.requestLine ++ 13 :: 10 :: (r.fields ++ [[]]).flatMap (· ++ [13, 10])

/-- The page a request asks for. -/
def page (r : Request) : Page := pageOf (pathOf r.target)

end Request

theorem lines_flatMap : ∀ {ls : List Bytes}, (∀ l ∈ ls, 13 ∉ l) →
    lines (ls.flatMap (· ++ [13, 10])) = ls := by
  intro ls
  induction ls with
  | nil => intro _; rfl
  | cons l ls ih =>
      intro h
      have hl := findCRLF_of_not_mem (h l (.head _))
      rw [List.flatMap_cons, List.append_assoc]
      show lines (l ++ 13 :: 10 :: ls.flatMap (· ++ [13, 10])) = _
      rw [lines_append hl, ih fun l' hl' => h l' (.tail _ hl')]

namespace Request

theorem lines_encode (r : Request) : lines r.encode = r.requestLine :: (r.fields ++ [[]]) := by
  have hmethods : ∀ m ∈ methods, (13 : UInt8) ∉ m := by decide
  have hline : 13 ∉ r.requestLine := by
    have hversion : 13 ∉ r.versionText := by
      rw [versionText]
      cases r.http11 <;> decide
    simp only [requestLine, List.mem_append, List.mem_cons, not_or]
    exact ⟨hmethods _ r.method_mem, by decide, r.target_line, by decide, hversion⟩
  rw [encode, lines_append (findCRLF_of_not_mem hline), lines_flatMap]
  intro l hl
  rcases List.mem_append.mp hl with hl | hl
  · exact r.fields_line l hl
  · rw [List.mem_singleton.mp hl]
    exact List.not_mem_nil

theorem requestPath_encode (r : Request) : requestPath r.encode = some (pathOf r.target) :=
  requestPath_eq_some_iff.mpr ⟨r.method, r.target, r.versionText,
    by rw [lines_encode]; rfl, r.method_mem, r.target_blank, rfl⟩

theorem requestVersion_encode (r : Request) :
    requestVersion r.encode = some (if r.http11 then .kHttp11 else .kHttp10) := by
  have hmethods : ∀ m ∈ methods, (32 : UInt8) ∉ m := by decide
  have hwords : words r.requestLine = some (r.method, r.target, r.versionText) :=
    words_eq_some_iff.mpr ⟨rfl, hmethods _ r.method_mem, r.target_blank,
      methodOf_isSome_iff.mpr r.method_mem⟩
  have hversion : versionOf r.versionText = some (if r.http11 then .kHttp11 else .kHttp10) := by
    rw [versionText]
    cases r.http11 <;> decide
  simp [requestVersion, lines_encode, hwords, hversion]

theorem requestFields_encode (r : Request) : requestFields r.encode = storeFields [] r.fields := by
  have htake : (r.fields ++ [[]]).takeWhile (58 ∈ ·) = r.fields.takeWhile (58 ∈ ·) := by
    rw [List.takeWhile_append_of_pos fun f hf => decide_eq_true (r.fields_colon f hf),
      List.takeWhile_eq_self_iff.mpr fun f hf => decide_eq_true (r.fields_colon f hf)]
    exact List.append_nil _
  rw [requestFields, requestVersion_encode, lines_encode, List.tail_cons, if_pos Option.isSome_some,
    storeFields, htake]
  rfl

theorem hangsUp_encode (r : Request) : hangsUp r.encode = false := by
  have hstays := r.stays
  have hkeep := r.keepAlive
  rw [hangsUp, requestVersion_encode, requestFields_encode]
  cases hversion : r.http11 with
  | true => simp [hstays]
  | false =>
      have hne : ascii "Keep-Alive" ≠ ascii "close" := by decide
      simp [hkeep hversion, hne]

end Request

/-! ## What is asked and what is answered -/

/-- The reads that get an answer: those up to the first that hangs up. -/
def answered : List Bytes → List Bytes
  | [] => []
  | bytes :: reads => bytes :: if hangsUp bytes then [] else answered reads

/-- The pages that reads ask for, when that path is there before them. -/
def asked (path : Bytes) : List Bytes → List Page
  | [] => []
  | bytes :: reads =>
      let path := (requestPath bytes).getD path
      pageOf path :: asked path reads

/-- The answers to requests for these pages, when that body is there before. -/
def responses (body : Bytes) : List Page → List Bytes
  | [] => []
  | p :: pages => response p body :: responses (p.body body) pages

/-- Answers tell the pages apart. -/
theorem responses_inj : ∀ {ps qs : List Page} {body : Bytes}, body ∈ bodies →
    responses body ps = responses body qs → ps = qs := by
  intro ps
  induction ps with
  | nil =>
      intro qs body _ h
      cases qs with
      | nil => rfl
      | cons q qs => exact absurd h nofun
  | cons p ps ih =>
      intro qs body hbody h
      cases qs with
      | nil => exact absurd h nofun
      | cons q qs =>
          obtain ⟨hfirst, hrest⟩ := List.cons.inj h
          obtain ⟨rfl, -⟩ := response_inj hbody hbody hfirst
          rw [ih (p.body_mem hbody) hrest]

theorem answered_encode (rs : List Request) :
    answered (rs.map Request.encode) = rs.map Request.encode := by
  induction rs with
  | nil => rfl
  | cons r rs ih => rw [List.map_cons, answered, r.hangsUp_encode, ih]; rfl

/-- A read that is a request asks for the request's page. -/
theorem asked_encode (rs : List Request) :
    ∀ path, asked path (rs.map Request.encode) = rs.map Request.page := by
  induction rs with
  | nil => intro path; rfl
  | cons r rs ih =>
      intro path
      rw [List.map_cons, asked, r.requestPath_encode, Option.getD_some, ih]
      rfl

/-- One read, while the session is connected. -/
theorem read_connected {s : Session} {path body : Bytes} (hd : s.data.Kept path body)
    (hinput : s.input = []) (hconn : s.connected = true) (bytes : Bytes) :
    ∃ t, s.read bytes = some t ∧ t.input = [] ∧ t.connected = !hangsUp bytes ∧
      t.data.Kept ((requestPath bytes).getD path)
        ((pageOf ((requestPath bytes).getD path)).body body) ∧
      t.emitted = s.emitted ++ [response (pageOf ((requestPath bytes).getD path)) body] := by
  obtain ⟨d, hcall, hkept⟩ := onRequest_answers hd bytes
  refine ⟨_, by rw [Session.read, hinput, List.nil_append, hcall]; rfl, rfl, ?_, hkept, ?_⟩
  · simp [hconn]
  · simp [hconn]

theorem read_closed {s : Session} {path body : Bytes} (hd : s.data.Kept path body)
    (hconn : s.connected = false) (bytes : Bytes) :
    ∃ t path' body', s.read bytes = some t ∧ t.connected = false ∧ t.data.Kept path' body' ∧
      t.emitted = s.emitted := by
  obtain ⟨d, hcall, hkept⟩ := onRequest_answers hd (s.input ++ bytes)
  refine ⟨_, _, _, by rw [Session.read, hcall]; rfl, ?_, hkept, ?_⟩
  · simp [hconn]
  · simp [hconn]

/-- A session that has been shut down emits nothing. -/
theorem reads_closed (reads : List Bytes) : ∀ {s : Session} {path body : Bytes},
    s.data.Kept path body → s.connected = false →
    ∃ t, exec Session.read s reads = some t ∧ t.emitted = s.emitted := by
  induction reads with
  | nil =>
      intro s path body _ _
      exact ⟨s, rfl, rfl⟩
  | cons bytes reads ih =>
      intro s path body hd hconn
      obtain ⟨t, path', body', hread, hconn', hd', hemit⟩ := read_closed hd hconn bytes
      obtain ⟨u, hrun, hemit'⟩ := ih hd' hconn'
      exact ⟨u, exec_cons.mpr ⟨t, hread, hrun⟩, hemit'.trans hemit⟩

/-- A connected session emits the answers to what is asked for. -/
theorem reads_connected (reads : List Bytes) : ∀ {s : Session} {path body : Bytes},
    s.data.Kept path body → s.input = [] → s.connected = true →
    ∃ t, exec Session.read s reads = some t ∧
      t.emitted = s.emitted ++ responses body (asked path (answered reads)) := by
  induction reads with
  | nil =>
      intro s path body _ _ _
      exact ⟨s, rfl, (List.append_nil _).symm⟩
  | cons bytes reads ih =>
      intro s path body hd hinput hconn
      obtain ⟨t, hread, hinput', hconn', hd', hemit⟩ := read_connected hd hinput hconn bytes
      have hfirst : ∃ u, exec Session.read t reads = some u ∧ u.emitted = t.emitted ++
          responses ((pageOf ((requestPath bytes).getD path)).body body)
            (asked ((requestPath bytes).getD path)
              (if hangsUp bytes then [] else answered reads)) := by
        cases hhang : hangsUp bytes with
        | true =>
            obtain ⟨u, hrun, hemit'⟩ := reads_closed reads hd' (by rw [hconn', hhang]; rfl)
            exact ⟨u, hrun, hemit'.trans (List.append_nil _).symm⟩
        | false => exact ih hd' hinput' (by rw [hconn', hhang]; rfl)
      obtain ⟨u, hrun, hemit'⟩ := hfirst
      refine ⟨u, exec_cons.mpr ⟨t, hread, hrun⟩, ?_⟩
      rw [hemit', hemit, List.append_assoc]
      rfl

/-- What a session emits, on any object. -/
theorem emits_eq (history : List Use) : ∃ body ∈ bodies, ∀ reads, emits history reads =
    some (responses body (asked (history.foldl Use.pathAfter []) (answered reads))) := by
  obtain ⟨d, body, hrun, hd⟩ := history_runs history
  refine ⟨body, hd.known, ?_⟩
  intro reads
  obtain ⟨t, hreads, hemit⟩ := reads_connected reads (s := ⟨d, [], true, []⟩) hd rfl rfl
  rw [emits, hrun, Option.bind_eq_bind, Option.bind_some, hreads]
  exact congrArg some hemit

/-! ## The cutting -/

/-- The answers are those of one read for each request exactly when the reads
that are answered ask for the requests' pages. -/
theorem emits_iff (history : List Use) (rs : List Request) (reads : List Bytes) :
    emits history reads = emits history (rs.map Request.encode) ↔
      asked (history.foldl Use.pathAfter []) (answered reads) = rs.map Request.page := by
  obtain ⟨body, hbody, hemits⟩ := emits_eq history
  rw [hemits, hemits, answered_encode, asked_encode, Option.some.injEq]
  exact ⟨responses_inj hbody, congrArg (responses body)⟩

/-- The requests that are complete when `n` bytes have arrived. -/
def completed : List Request → Nat → List Request
  | [], _ => []
  | r :: rs, n =>
      if r.encode.length ≤ n then r :: completed rs (n - r.encode.length) else []

/-- The requests that the first `k` reads complete. -/
def completedBy (rs : List Request) (reads : List Bytes) (k : Nat) : List Request :=
  completed rs (reads.take k).flatten.length

/-- After each read, the answers that are out are those of the requests that are
complete by then, as they are when each request arrives in one read. -/
def Prompt (history : List Use) (rs : List Request) (reads : List Bytes) : Prop :=
  ∀ k, emits history (reads.take k) =
    emits history ((completedBy rs reads k).map Request.encode)

theorem completed_eq_take (rs : List Request) :
    ∀ n, completed rs n = rs.take (completed rs n).length := by
  induction rs with
  | nil => intro n; rfl
  | cons r rs ih =>
      intro n
      rw [completed]
      split
      · rw [List.length_cons, List.take_succ_cons, ← ih]
      · rfl

/-- All requests are complete exactly when all bytes have arrived. -/
theorem completed_eq_self_iff {rs : List Request} : ∀ {n : Nat},
    completed rs n = rs ↔ (rs.map Request.encode).flatten.length ≤ n := by
  induction rs with
  | nil => intro n; exact ⟨fun _ => Nat.zero_le _, fun _ => rfl⟩
  | cons r rs ih =>
      intro n
      rw [completed, List.map_cons, List.flatten_cons, List.length_append]
      split
      · rename_i hle
        rw [List.cons.injEq, ih, eq_self_iff_true, true_and]
        omega
      · rename_i hgt
        exact ⟨fun h => absurd h nofun, fun h => absurd h (by omega)⟩

/-- Reads none of which but the last hangs up are all answered. -/
theorem answered_eq_self {reads : List Bytes}
    (h : ∀ bytes ∈ reads.dropLast, hangsUp bytes = false) : answered reads = reads := by
  induction reads with
  | nil => rfl
  | cons bytes reads ih =>
      cases reads with
      | nil => rw [answered, answered, ite_self]
      | cons next rest =>
          have hfirst : hangsUp bytes = false := h bytes (List.mem_cons_self)
          have hrest : answered (next :: rest) = next :: rest :=
            ih fun b hb => h b (List.mem_cons_of_mem _ hb)
          rw [answered, hfirst, if_neg Bool.false_ne_true, hrest]

theorem answered_take {reads : List Bytes} (h : ∀ bytes ∈ reads.dropLast, hangsUp bytes = false)
    (k : Nat) : answered (reads.take k) = reads.take k := by
  refine answered_eq_self fun bytes hmem => h bytes ?_
  rw [List.dropLast_eq_take] at hmem ⊢
  rw [List.take_take] at hmem
  refine List.take_subset_take_left reads ?_ hmem
  rw [List.length_take]
  omega

/-- What comes behind a read that hangs up gets no answer. -/
theorem answered_append {bytes : Bytes} (h : hangsUp bytes = true) (later : List Bytes) :
    ∀ reads, answered (reads ++ bytes :: later) = answered (reads ++ [bytes]) := by
  intro reads
  induction reads with
  | nil => simp only [List.nil_append, answered, h, if_true]
  | cons first reads ih => simp only [List.cons_append, answered, ih]

theorem asked_take (reads : List Bytes) :
    ∀ path k, asked path (reads.take k) = (asked path reads).take k := by
  induction reads with
  | nil => intro path k; simp [asked]
  | cons bytes reads ih =>
      intro path k
      cases k with
      | zero => rfl
      | succ k => rw [List.take_succ_cons, asked, asked, List.take_succ_cons, ih]

theorem length_asked (reads : List Bytes) : ∀ path, (asked path reads).length = reads.length := by
  induction reads with
  | nil => intro path; rfl
  | cons bytes reads ih => intro path; rw [asked, List.length_cons, List.length_cons, ih]

section

variable {history : List Use} {rs : List Request} {reads : List Bytes}

theorem prompt_iff_asked : Prompt history rs reads ↔ ∀ k,
    asked (history.foldl Use.pathAfter []) (answered (reads.take k)) =
      (completedBy rs reads k).map Request.page :=
  forall_congr' fun k => emits_iff history (completedBy rs reads k) (reads.take k)

theorem completedBy_length (hcut : reads.flatten = (rs.map Request.encode).flatten) :
    completedBy rs reads reads.length = rs := by
  rw [completedBy, List.take_length, completed_eq_self_iff, hcut]

/-- When as many requests are complete as there are, all the bytes have arrived. -/
theorem completedBy_all (hcut : reads.flatten = (rs.map Request.encode).flatten) {k : Nat}
    (hlength : (completedBy rs reads k).length = rs.length) :
    reads.flatten.length ≤ (reads.take k).flatten.length := by
  have htaken := completed_eq_take rs (reads.take k).flatten.length
  rw [completedBy] at hlength
  rw [hlength, List.take_length] at htaken
  rw [hcut]
  exact completed_eq_self_iff.mp htaken

/-- A prompt session is not hung up before its last read: the reads behind
would bring requests that get no answer. -/
theorem Prompt.stays (h : Prompt history rs reads) (hne : ∀ bytes ∈ reads, bytes ≠ [])
    (hcut : reads.flatten = (rs.map Request.encode).flatten) :
    ∀ bytes ∈ reads.dropLast, hangsUp bytes = false := by
  intro bytes hmem
  by_contra hhang
  have hhang : hangsUp bytes = true := by simpa using hhang
  obtain ⟨before, after, hsplit⟩ := List.append_of_mem hmem
  have hreads : reads ≠ [] := by
    rintro rfl
    exact absurd hmem List.not_mem_nil
  have hlast : reads = before ++ bytes :: (after ++ [reads.getLast hreads]) := by
    conv_lhs => rw [← List.dropLast_append_getLast hreads, hsplit]
    simp
  have htake : reads.take (before.length + 1) = before ++ [bytes] := by
    rw [hlast, List.take_append]
    simp
  have hasked := prompt_iff_asked.mp h
  have hpart := hasked (before.length + 1)
  have hall := hasked reads.length
  have hdone := completedBy_length hcut
  have hsame : answered reads = answered (before ++ [bytes]) := by
    conv_lhs => rw [hlast]
    exact answered_append hhang _ before
  rw [List.take_length, hdone, hsame] at hall
  rw [htake, hall] at hpart
  have hlength : (completedBy rs reads (before.length + 1)).length = rs.length := by
    have hpages := congrArg List.length hpart
    rw [List.length_map, List.length_map] at hpages
    exact hpages.symm
  have harrived := completedBy_all hcut hlength
  rw [htake] at harrived
  have hpos : 0 < (reads.getLast hreads).length :=
    List.length_pos_of_ne_nil (hne _ (List.getLast_mem hreads))
  have hflat : reads.flatten =
      (before ++ [bytes]).flatten ++ (after.flatten ++ reads.getLast hreads) := by
    conv_lhs => rw [hlast]
    simp only [List.flatten_append, List.flatten_cons, List.flatten_nil, List.append_assoc,
      List.append_nil]
  rw [hflat, List.length_append, List.length_append] at harrived
  omega

/-- Non-empty reads of the bytes of requests are answered promptly exactly when
no read but the last hangs up, each brings the end of one request, and each asks
for the page of the request it ends. -/
theorem prompt_iff (hne : ∀ bytes ∈ reads, bytes ≠ [])
    (hcut : reads.flatten = (rs.map Request.encode).flatten) :
    Prompt history rs reads ↔
      (∀ bytes ∈ reads.dropLast, hangsUp bytes = false) ∧
      (∀ k ≤ reads.length, (completedBy rs reads k).length = k) ∧
      asked (history.foldl Use.pathAfter []) reads = rs.map Request.page := by
  constructor
  · intro h
    have hstays := h.stays hne hcut
    have hasked := prompt_iff_asked.mp h
    refine ⟨hstays, ?_, ?_⟩
    · intro k hk
      have hlength := congrArg List.length (hasked k)
      rw [answered_take hstays, length_asked, List.length_take, List.length_map,
        Nat.min_eq_left hk] at hlength
      exact hlength.symm
    · have hall := hasked reads.length
      rwa [List.take_length, answered_eq_self hstays, completedBy_length hcut] at hall
  · rintro ⟨hstays, hones, hpages⟩
    refine prompt_iff_asked.mpr fun k => ?_
    rw [answered_take hstays, asked_take, hpages]
    by_cases hk : k ≤ reads.length
    · rw [completedBy, completed_eq_take rs, List.map_take]
      have hone := hones k hk
      rw [completedBy] at hone
      rw [hone]
    · have hlength : rs.length = reads.length := by
        rw [← length_asked reads (history.foldl Use.pathAfter []), hpages, List.length_map]
      have hdone : completedBy rs reads k = rs := by
        rw [completedBy, List.take_of_length_le (by omega), completed_eq_self_iff, hcut]
      rw [hdone, List.take_of_length_le (by rw [List.length_map]; omega)]

end

def getRoot : Request where
  method := ascii "GET"
  target := ascii "/"
  http11 := true
  fields := []
  method_mem := .head _
  target_blank := by decide
  target_line := by decide
  fields_line := nofun
  fields_colon := nofun
  stays := by decide
  keepAlive := nofun

def getMissing : Request where
  method := ascii "GET"
  target := ascii "/nosuch"
  http11 := true
  fields := []
  method_mem := .head _
  target_blank := by decide
  target_line := by decide
  fields_line := nofun
  fields_colon := nofun
  stays := by decide
  keepAlive := nofun

/-- Two requests whose pages are the same are answered in time if each read ends
one of them, and not if the second read ends both. -/
theorem prompt_getMissing :
    Prompt [] [getMissing, getMissing]
        [ascii "GET /nosuch HTTP/1.1\r\n\r\nGE", ascii "T /nosuch HTTP/1.1\r\n\r\n"] ∧
      ¬Prompt [] [getMissing, getMissing]
        [ascii "GET /nosuch HT", ascii "TP/1.1\r\n\r\nGET /nosuch HTTP/1.1\r\n\r\n"] := by
  refine ⟨(prompt_iff (by decide) (by decide)).mpr ⟨by decide, by decide, by decide⟩, ?_⟩
  intro h
  have hones := ((prompt_iff (by decide) (by decide)).mp h).2.1 1 (by decide)
  exact absurd hones (by decide)

/-- A request for `/`, cut in two, gets an answer before it is complete. -/
theorem prompt_fails :
    ¬∀ (rs : List Request) (reads : List Bytes), (∀ bytes ∈ reads, bytes ≠ []) →
      reads.flatten = (rs.map Request.encode).flatten → Prompt [] rs reads := by
  intro hall
  have hprompt := hall [getRoot] [ascii "GET / HT", ascii "TP/1.1\r\n\r\n"] (by decide) (by decide)
  exact absurd (hprompt 1) (by decide)

end HttpData

end WebServer
