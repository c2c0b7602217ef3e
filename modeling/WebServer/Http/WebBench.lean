/-
# `Http.WebBench` — the requests of the benchmark client

`build_request` of `webbench.c` makes of a URL and the options of the program the one request
that all clients send.  Texts are C strings, the bytes before their NUL; a copy that does not
leave room for the NUL in its array is an `overflow`.  The length of a URL is checked, those
of its parts are not: `host` has room for 63 bytes and `tmp` for 9 of the port (`Fits`).

`served` is what becomes of such a request, for every URL without white space whose parts
fit.  `request` has room for it, and `HttpData` takes it apart again: the method, the target
of the URL, and the header fields.  So the answer is the page of the URL's path; and the
connection is kept exactly where the client was told to keep it and speaks HTTP/1.1, as it
sends `Connection` in no other version.  What the server has no method or version for it
answers with the page of the request before, and keeps the connection.
-/
import WebServer.Http.Answers
import WebServer.Http.RoundTrip

namespace WebServer

namespace WebBench

open HttpData

/-! ## `build_request` -/

/-- `METHOD_GET` and the others. -/
inductive BenchMethod where
  | get
  | head
  | options
  | trace
  deriving DecidableEq

def BenchMethod.word : BenchMethod → Bytes
  | .get => ascii "GET"
  | .head => ascii "HEAD"
  | .options => ascii "OPTIONS"
  | .trace => ascii "TRACE"

/-- What `main` takes from the command line; `http10` is 0 for HTTP/0.9, 1 for 1.0 and 2 for
1.1. -/
structure Options where
  method : BenchMethod
  http10 : Nat
  force_reload : Bool
  proxyhost : Option Bytes
  proxyport : Int
  keep_alive : Bool

inductive Memory where
  | host
  | tmp
  | request
  deriving DecidableEq

inductive Stop where
  /-- `exit(2)`, with that on `stderr`. -/
  | exit (message : Bytes)
  | overflow (memory : Memory)
  deriving DecidableEq

/-- What is left in the globals. -/
structure Built where
  request : Bytes
  host : Bytes
  proxyport : Int
  http10 : Nat
  deriving DecidableEq

/-- `MAXHOSTNAMELEN`. -/
def maxHostNameLen : Nat := 64

def requestSize : Nat := 2048

/-- `strstr(bs, needle)`, as an offset. -/
def strstr (needle : Bytes) : Bytes → Option Nat
  | [] => if needle = [] then some 0 else none
  | b :: bs => if needle <+: b :: bs then some 0 else (strstr needle bs).map (· + 1)

def tolower (b : UInt8) : UInt8 := if 65 ≤ b ∧ b ≤ 90 then b + 32 else b

def isdigit (b : UInt8) : Bool := 48 ≤ b && b ≤ 57

def digits (s : Bytes) : Int := (s.takeWhile isdigit).foldl (fun n b => 10 * n + (b.toNat - 48)) 0

def atoi (s : Bytes) : Int :=
  match s.dropWhile isspace with
  | 45 :: s => -digits s
  | 43 :: s => digits s
  | s => digits s

/-- The `http10` that the other options ask for. -/
def Options.raised (o : Options) : Nat :=
  let http10 := if o.force_reload ∧ o.proxyhost.isSome ∧ o.http10 < 1 then 1 else o.http10
  let http10 := if o.method = .head ∧ http10 < 1 then 1 else http10
  let http10 := if o.method = .options ∧ http10 < 2 then 2 else http10
  if o.method = .trace ∧ http10 < 2 then 2 else http10

/-- The checks of the URL; what follows its `://`. -/
def checkUrl (url : Bytes) : Except Stop Bytes :=
  match strstr (ascii "://") url with
  | none => .error (.exit (10 :: url ++ ascii ": is not a valid URL.\n"))
  | some i =>
      if 1500 < url.length then .error (.exit (ascii "URL is too long.\n"))
      else if (url.take 7).map tolower ≠ ascii "http://" then
        .error (.exit
          (ascii "\nOnly HTTP protocol is directly supported, set --proxy for others.\n"))
      else if 47 ∉ url.drop (i + 3) then
        .error (.exit (ascii "\nInvalid URL syntax - hostname don't ends with '/'.\n"))
      else .ok (url.drop (i + 3))

/-- What is copied to `host`, and `proxyport`, without a proxy. -/
def hostPort (o : Options) (rest : Bytes) : Except Stop (Bytes × Int) :=
  let slash := find 47 rest
  let colon := find 58 rest
  if colon < slash then
    if maxHostNameLen ≤ colon then .error (.overflow .host)
    else if 10 ≤ slash - colon - 1 then .error (.overflow .tmp)
    else
      let port := atoi ((rest.take slash).drop (colon + 1))
      .ok (rest.take colon, if port = 0 then 80 else port)
  else if maxHostNameLen ≤ slash then .error (.overflow .host)
  else .ok (rest.take slash, o.proxyport)

/-- What is copied to `request`, piece after piece. -/
def compose (o : Options) (http10 : Nat) (host target : Bytes) : Bytes :=
  o.method.word ++ ascii " " ++ target ++
  (if http10 = 1 then ascii " HTTP/1.0" else if http10 = 2 then ascii " HTTP/1.1" else []) ++
  crlf ++
  (if 0 < http10 then ascii "User-Agent: WebBench 1.5\r\n" else []) ++
  (if o.proxyhost = none ∧ 0 < http10 then ascii "Host: " ++ host ++ crlf else []) ++
  (if o.force_reload ∧ o.proxyhost ≠ none then ascii "Pragma: no-cache\r\n" else []) ++
  (if 1 < http10 then
    if o.keep_alive then ascii "Connection: Keep-Alive\r\n" else ascii "Connection: close\r\n"
  else []) ++
  if 0 < http10 then crlf else []

def build_request (o : Options) (url : Bytes) : Except Stop Built := do
  let http10 := o.raised
  let rest ← checkUrl url
  let (host, proxyport) ←
    match o.proxyhost with
    | none => hostPort o rest
    | some _ => .ok ([], o.proxyport)
  let target :=
    match o.proxyhost with
    | none => rest.drop (find 47 rest)
    | some _ => url
  let request := compose o http10 host target
  if request.length < requestSize then .ok ⟨request, host, proxyport, http10⟩
  else .error (.overflow .request)

/-! ## Its lines -/

section

variable (o : Options) (http10 : Nat) (host target : Bytes)

def requestLine : Bytes :=
  o.method.word ++ 32 :: (target ++
    if http10 = 1 then ascii " HTTP/1.0" else if http10 = 2 then ascii " HTTP/1.1" else [])

/-- The header fields, each with a blank before its value. -/
def fields : List HeaderLine :=
  (if 0 < http10 then [⟨ascii "User-Agent", [32], ascii "WebBench 1.5", []⟩] else []) ++
  (if o.proxyhost = none ∧ 0 < http10 then [⟨ascii "Host", [32], host, []⟩] else []) ++
  (if o.force_reload ∧ o.proxyhost ≠ none then [⟨ascii "Pragma", [32], ascii "no-cache", []⟩]
    else []) ++
  (if 1 < http10 then
    [⟨ascii "Connection", [32], if o.keep_alive then ascii "Keep-Alive" else ascii "close", []⟩]
    else [])

/-- The lines of a request. -/
def requestLines : List Bytes :=
  requestLine o http10 target :: ((fields o http10 host).map HeaderLine.bytes ++
    if 0 < http10 then [[]] else [])

end

variable {o : Options} {http10 : Nat} {host target url rest : Bytes}

theorem compose_eq :
    compose o http10 host target = join (requestLines o http10 host target) [] := by
  have hblank : ascii " " = [32] := by decide
  have hagent : ascii "User-Agent: WebBench 1.5\r\n" =
      HeaderLine.bytes ⟨ascii "User-Agent", [32], ascii "WebBench 1.5", []⟩ ++ crlf := by decide
  have hhost : ascii "Host: " ++ host ++ crlf =
      HeaderLine.bytes ⟨ascii "Host", [32], host, []⟩ ++ crlf := by
    have htext : ascii "Host: " = ascii "Host" ++ [58, 32] := by decide
    rw [HeaderLine.bytes, htext]
    simp
  have hpragma : ascii "Pragma: no-cache\r\n" =
      HeaderLine.bytes ⟨ascii "Pragma", [32], ascii "no-cache", []⟩ ++ crlf := by decide
  have hconnection : (if o.keep_alive then ascii "Connection: Keep-Alive\r\n"
      else ascii "Connection: close\r\n") = HeaderLine.bytes ⟨ascii "Connection", [32],
        if o.keep_alive then ascii "Keep-Alive" else ascii "close", []⟩ ++ crlf := by
    cases o.keep_alive <;> decide
  have hif : ∀ (c : Prop) [Decidable c] (l : Bytes),
      (if c then l ++ crlf else []) = (if c then [l] else []).flatMap (· ++ crlf) := by
    intro c _ l
    split
    · exact (List.append_nil _).symm
    · rfl
  have hmap : ∀ (c : Prop) [Decidable c] (h : HeaderLine),
      (if c then [h] else []).map HeaderLine.bytes = if c then [h.bytes] else [] := by
    intro c _ h
    split <;> rfl
  have hend : (if 0 < http10 then crlf else []) =
      (if 0 < http10 then [([] : Bytes)] else []).flatMap (· ++ crlf) := hif (0 < http10) []
  rw [compose, hhost, hagent, hpragma, hconnection, hend, hif, hif, hif, hif, join, requestLines,
    fields, requestLine, hblank]
  simp [hmap]

/-! ## What the server reads in them -/

/-- The server has a method and a version for the request. -/
def Understood (o : Options) (http10 : Nat) : Prop :=
  (o.method = .get ∨ o.method = .head) ∧ (http10 = 1 ∨ http10 = 2)

instance (o : Options) (http10 : Nat) : Decidable (Understood o http10) :=
  inferInstanceAs (Decidable ((_ ∨ _) ∧ (_ ∨ _)))

/-- The version that it names. -/
def versionName (http10 : Nat) : Bytes := ascii (if http10 = 1 then "HTTP/1.0" else "HTTP/1.1")

theorem isspace_notMem {b : UInt8} (hb : isspace b = true) {bs : Bytes}
    (h : ∀ c ∈ bs, isspace c = false) : b ∉ bs := fun hmem =>
  Bool.noConfusion (hb.symm.trans (h b hmem))

theorem word_free (m : BenchMethod) : 32 ∉ m.word ∧ 13 ∉ m.word := by
  cases m <;> decide

theorem requestLine_free (h : 13 ∉ target) : 13 ∉ requestLine o http10 target := by
  have hversion : (13 : UInt8) ∉
      if http10 = 1 then ascii " HTTP/1.0" else if http10 = 2 then ascii " HTTP/1.1" else [] := by
    split
    · decide
    · split <;> decide
  simp only [requestLine, List.mem_append, List.mem_cons, not_or]
  exact ⟨(word_free o.method).2, by decide, h, hversion⟩

theorem requestLine_understood (h : Understood o http10) : requestLine o http10 target =
    o.method.word ++ 32 :: (target ++ 32 :: versionName http10) := by
  obtain ⟨-, rfl | rfl⟩ := h
  · rfl
  · rfl

theorem words_understood (h : Understood o http10) (htarget : 32 ∉ target) :
    words (requestLine o http10 target) = some (o.method.word, target, versionName http10) := by
  refine words_eq_some_iff.mpr
    ⟨requestLine_understood h, (word_free o.method).1, htarget, methodOf_isSome_iff.mpr ?_⟩
  obtain ⟨hmethod | hmethod, -⟩ := h <;> rw [hmethod] <;> decide

theorem words_misunderstood (h : ¬Understood o http10) (htarget : 32 ∉ target) :
    words (requestLine o http10 target) = none := by
  refine Option.eq_none_iff_forall_not_mem.mpr ?_
  rintro ⟨m, t, tail⟩ hwords
  obtain ⟨hline, hm, ht, hsome⟩ := words_eq_some_iff.mp hwords
  have hcut := (cut_append hm (t ++ 32 :: tail)).symm.trans
    ((congrArg (cut 32) hline.symm).trans (cut_append (word_free o.method).1 _))
  obtain ⟨hword, hrest⟩ := Prod.mk.inj (Option.some.inj hcut)
  by_cases hversion : http10 = 1 ∨ http10 = 2
  · refine h ⟨?_, hversion⟩
    rw [hword, methodOf_isSome_iff] at hsome
    cases hmethod : o.method with
    | get => exact Or.inl rfl
    | head => exact Or.inr rfl
    | options | trace => rw [hmethod] at hsome; exact absurd hsome (by decide)
  · rw [not_or] at hversion
    rw [if_neg hversion.1, if_neg hversion.2, List.append_nil] at hrest
    exact htarget (hrest ▸ List.mem_append_right t List.mem_cons_self)

theorem versionOf_versionName (h : Understood o http10) :
    versionOf (versionName http10) = some (if http10 = 1 then .kHttp10 else .kHttp11) := by
  obtain ⟨-, rfl | rfl⟩ := h
  · decide
  · decide

theorem valid_line {field value : Bytes} (hcolon : 58 ∉ field) (hfield : 13 ∉ field)
    (hvalue : 13 ∉ value) (hfirst : ∀ b ∈ value.head?, isspace b = false)
    (hlast : ∀ b ∈ value.getLast?, isspace b = false) :
    HeaderLine.Valid ⟨field, [32], value, []⟩ where
  field := ⟨hcolon, findCRLF_of_not_mem hfield⟩
  value := findCRLF_of_not_mem hvalue
  first := hfirst
  last := hlast
  blanks := fun _ hb => Or.inl (List.mem_singleton.mp hb)

theorem fields_valid (hhost : ∀ c ∈ host, isspace c = false) :
    ∀ h ∈ fields o http10 host, h.Valid := by
  have hagent : HeaderLine.Valid ⟨ascii "User-Agent", [32], ascii "WebBench 1.5", []⟩ :=
    valid_line (by decide) (by decide) (by decide) (by decide +kernel) (by decide +kernel)
  have hhost : HeaderLine.Valid ⟨ascii "Host", [32], host, []⟩ :=
    valid_line (by decide) (by decide) (isspace_notMem rfl hhost)
      (fun b hb => hhost b (List.mem_of_head? hb)) fun b hb => hhost b (List.mem_of_getLast? hb)
  have hpragma : HeaderLine.Valid ⟨ascii "Pragma", [32], ascii "no-cache", []⟩ :=
    valid_line (by decide) (by decide) (by decide) (by decide +kernel) (by decide +kernel)
  have hconnection : HeaderLine.Valid ⟨ascii "Connection", [32],
      if o.keep_alive then ascii "Keep-Alive" else ascii "close", []⟩ := by
    cases o.keep_alive
    · exact valid_line (by decide) (by decide) (by decide) (by decide +kernel) (by decide +kernel)
    · exact valid_line (by decide) (by decide) (by decide) (by decide +kernel) (by decide +kernel)
  have hif : ∀ (c : Prop) [Decidable c] {g : HeaderLine}, g.Valid →
      ∀ h ∈ if c then [g] else [], h.Valid := by
    intro c _ g hg h hh
    split at hh
    · exact List.mem_singleton.mp hh ▸ hg
    · cases hh
  intro h hh
  rw [fields, List.mem_append, List.mem_append, List.mem_append] at hh
  rcases hh with ((hh | hh) | hh) | hh
  · exact hif _ hagent h hh
  · exact hif _ hhost h hh
  · exact hif _ hpragma h hh
  · exact hif _ hconnection h hh

theorem lines_compose (htarget : ∀ c ∈ target, isspace c = false)
    (hhost : ∀ c ∈ host, isspace c = false) :
    lines (compose o http10 host target) = requestLines o http10 host target := by
  have hall : ∀ l ∈ requestLines o http10 host target, findCRLF l = none := by
    refine List.forall_mem_cons.mpr
      ⟨findCRLF_of_not_mem (requestLine_free (isspace_notMem rfl htarget)), fun l hl => ?_⟩
    rcases List.mem_append.mp hl with hl | hl
    · obtain ⟨h, hh, rfl⟩ := List.mem_map.mp hl
      exact HeaderLine.findCRLF_bytes (fields_valid hhost h hh)
    · split at hl
      · rw [List.mem_singleton.mp hl]
        rfl
      · cases hl
  rw [compose_eq, lines_join hall]
  exact List.append_nil _

section

variable (htarget : ∀ c ∈ target, isspace c = false) (hhost : ∀ c ∈ host, isspace c = false)
include htarget hhost

theorem requestPath_compose : requestPath (compose o http10 host target) =
    if Understood o http10 then some (pathOf target) else none := by
  rw [requestPath, lines_compose htarget hhost, requestLines, List.head?_cons]
  have hblank := isspace_notMem (b := 32) rfl htarget
  split
  · rename_i h
    simp [words_understood h hblank]
  · rename_i h
    simp [words_misunderstood h hblank]

theorem requestVersion_compose : requestVersion (compose o http10 host target) =
    if Understood o http10 then some (if http10 = 1 then .kHttp10 else .kHttp11) else none := by
  rw [requestVersion_of_cons (lines_compose htarget hhost)]
  have hblank := isspace_notMem (b := 32) rfl htarget
  split
  · rename_i h
    rw [words_understood h hblank]
    exact versionOf_versionName h
  · rename_i h
    rw [words_misunderstood h hblank]
    rfl

theorem requestFields_compose (h : Understood o http10) :
    requestFields (compose o http10 host target) =
      HeaderLine.entered (fields o http10 host) [] := by
  have hpos : 0 < http10 := by
    obtain ⟨-, rfl | rfl⟩ := h <;> decide
  rw [requestFields, requestVersion_compose htarget hhost, if_pos h, if_pos Option.isSome_some,
    lines_compose htarget hhost, requestLines, List.tail_cons, if_pos hpos]
  exact HeaderLine.storeFields_lines (fields_valid hhost) [] []

end

/-- `Connection` is sent in HTTP/1.1 only. -/
theorem connection_fields (h : Understood o http10) :
    HeaderLine.last (fields o http10 host) (ascii "Connection") =
      if http10 = 2 then some (if o.keep_alive then ascii "Keep-Alive" else ascii "close")
      else none := by
  obtain ⟨-, rfl | rfl⟩ := h
  · have hif : ∀ (c : Prop) [Decidable c] {g : HeaderLine}, g.field ≠ ascii "Connection" →
        ∀ h ∈ if c then [g] else [], h.field ≠ ascii "Connection" := by
      intro c _ g hg h hh
      split at hh
      · exact List.mem_singleton.mp hh ▸ hg
      · cases hh
    have hother : ∀ h ∈ fields o 1 host, h.field ≠ ascii "Connection" := by
      intro h hh
      rw [fields, List.mem_append, List.mem_append, List.mem_append] at hh
      rcases hh with ((hh | hh) | hh) | hh
      · exact hif _ (by decide) h hh
      · exact hif _ (show ascii "Host" ≠ ascii "Connection" by decide) h hh
      · exact hif _ (by decide) h hh
      · rw [if_neg (Nat.lt_irrefl 1)] at hh
        cases hh
    have hnone : (fields o 1 host).reverse.find? (fun h => h.field = ascii "Connection") =
        none := by
      refine List.find?_eq_none.mpr fun h hh => ?_
      rw [decide_eq_true_eq]
      exact hother h (List.mem_reverse.mp hh)
    rw [HeaderLine.last, hnone]
    rfl
  · rw [HeaderLine.last, fields, if_pos (show 1 < 2 by decide), List.reverse_append,
      List.reverse_singleton, List.singleton_append, List.find?_cons_of_pos (by simp)]
    rfl

theorem hangsUp_compose (htarget : ∀ c ∈ target, isspace c = false)
    (hhost : ∀ c ∈ host, isspace c = false) : hangsUp (compose o http10 host target) =
      decide (Understood o http10 ∧ ¬(http10 = 2 ∧ o.keep_alive = true)) := by
  have hversion : requestVersion (compose o http10 host target) = _ :=
    requestVersion_compose htarget hhost
  by_cases h : Understood o http10
  · have hfields := congrArg (StringMap.get (ascii "Connection"))
      (requestFields_compose htarget hhost h)
    rw [HeaderLine.get_entered, connection_fields h] at hfields
    rw [if_pos h] at hversion
    rw [hangsUp, hversion, hfields]
    obtain ⟨-, rfl | rfl⟩ := id h
    · have hne : ([] : Bytes) ≠ ascii "close" ∧ ([] : Bytes) ≠ ascii "Keep-Alive" := by decide
      simp [h, StringMap.get, hne]
    · have hne : ascii "Keep-Alive" ≠ ascii "close" := by decide
      cases hkeep : o.keep_alive <;> simp [h, hne]
  · have hfields : requestFields (compose o http10 host target) = [] := by
      rw [requestFields, hversion, if_neg h, Option.isSome_none, if_neg Bool.false_ne_true]
    have hne : ([] : Bytes) ≠ ascii "close" := by decide
    rw [if_neg h] at hversion
    rw [hangsUp, hversion, hfields]
    simp [h, StringMap.get, hne]

/-- The server gets all of it, and nothing is left. -/
theorem parses_compose (h : Understood o http10) (htarget : ∀ c ∈ target, isspace c = false)
    (hhost : ∀ c ∈ host, isspace c = false) {d : HttpData} (hd : d.Cleared) :
    ∃ p, d.parseRequest (compose o http10 host target) = some p ∧ p.data.state = .kGotAll ∧
      p.input = [] ∧ p.data.path = pathOf target ∧
      p.data.version = (if http10 = 1 then .kHttp10 else .kHttp11) ∧
      ∀ field, p.data.requestHeaders.get field =
        HeaderLine.last (fields o http10 host) field := by
  have hpos : 0 < http10 := by
    obtain ⟨-, rfl | rfl⟩ := h <;> decide
  have hline : RequestLine (requestLine o http10 target) := by
    rw [requestLine_iff, words_understood h (isspace_notMem rfl htarget)]
    exact Option.isSome_of_eq_some (versionOf_versionName h)
  have hheaded : Headed [] (compose o http10 host target) [] := by
    refine ⟨_, (fields o http10 host).map HeaderLine.bytes, hline,
      findCRLF_of_not_mem (requestLine_free (isspace_notMem rfl htarget)), ?_,
      ⟨List.not_mem_nil, rfl⟩, ?_⟩
    · intro l hl
      obtain ⟨g, hg, rfl⟩ := List.mem_map.mp hl
      exact ⟨List.mem_append_right _ List.mem_cons_self,
        HeaderLine.findCRLF_bytes (fields_valid hhost g hg)⟩
    · rw [compose_eq, requestLines, if_pos hpos, List.cons_append]
  obtain ⟨p, q, m, s, hparse, hdata⟩ := parseRequest_reads hd (compose o http10 host target)
  obtain ⟨p', hparse', hends⟩ := parseRequest_ends hd (compose o http10 host target)
  obtain rfl : p = p' := Option.some.inj (hparse.symm.trans hparse')
  have hgot : p.data.state = .kGotAll ∧ p.input = [] := by
    rcases hends with ⟨hgot, last, hlast⟩ | ⟨-, hnone⟩
    · exact ⟨hgot, (headed_unique hlast hheaded).2⟩
    · exact absurd hheaded (hnone [] [])
  refine ⟨p, hparse, hgot.1, hgot.2, ?_, ?_, fun field => ?_⟩
  · rw [hdata]
    show (requestPath _).getD d.path = _
    rw [requestPath_compose htarget hhost, if_pos h, Option.getD_some]
  · rw [hdata]
    show (requestVersion _).getD .kUnknownVersion = _
    rw [requestVersion_compose htarget hhost, if_pos h, Option.getD_some]
  · rw [hdata]
    show (requestFields _).get field = _
    rw [requestFields_compose htarget hhost h, HeaderLine.get_entered]
    exact Option.or_none

/-! ## The URL -/

/-- What a URL says: the host and the port to connect to, and the target to ask for, which
begins with the first slash. -/
structure Aims (url host port target : Bytes) : Prop where
  split : ∃ scheme, scheme.map tolower = ascii "http://" ∧
    url = scheme ++ (host ++ (port ++ target))
  fits : host.length < maxHostNameLen ∧ port.length ≤ 10
  colon : 58 ∉ host ∧ (port = [] ∨ port.head? = some 58)
  slash : 47 ∉ host ++ port ∧ target.head? = some 47

theorem tolower_eq {b : UInt8} (h : tolower b = 58 ∨ tolower b = 47) : tolower b = b := by
  have hall : ∀ n < 256, tolower (UInt8.ofNat n) = 58 ∨ tolower (UInt8.ofNat n) = 47 →
      tolower (UInt8.ofNat n) = UInt8.ofNat n := by decide +kernel
  have hb := hall b.toNat b.toNat_lt
  rw [UInt8.ofNat_toNat] at hb
  exact hb h

/-- In a URL that begins with `http://` the first `://` is that one. -/
theorem checkUrl_ok (h : checkUrl url = .ok rest) : url.length ≤ 1500 ∧ 47 ∈ rest ∧
    ∃ scheme, scheme.map tolower = ascii "http://" ∧ url = scheme ++ rest := by
  rw [checkUrl] at h
  split at h
  · cases h
  · rename_i i hi
    split at h
    · cases h
    · rename_i hlength
      split at h
      · cases h
      · rename_i hscheme
        split at h
        · cases h
        · rename_i hslash
          cases h
          have hscheme := not_not.mp hscheme
          have hfour : i = 4 := by
            match url, hscheme with
            | a :: b :: c :: d :: e :: f :: g :: url, hscheme =>
                have hbytes : [tolower a, tolower b, tolower c, tolower d, tolower e, tolower f,
                    tolower g] = [104, 116, 116, 112, 58, 47, 47] := hscheme
                simp only [List.cons.injEq, and_true] at hbytes
                obtain ⟨ha, hb, hc, hd, he, hf, hg⟩ := hbytes
                have hne : ∀ {x : UInt8}, tolower x ≠ 58 → (58 : UInt8) ≠ x := by
                  rintro x hx rfl
                  exact hx (by decide)
                have ha' := hne (x := a) (by rw [ha]; decide)
                have hb' := hne (x := b) (by rw [hb]; decide)
                have hc' := hne (x := c) (by rw [hc]; decide)
                have hd' := hne (x := d) (by rw [hd]; decide)
                have he' := (tolower_eq (Or.inl he)).symm.trans he
                have hf' := (tolower_eq (Or.inr hf)).symm.trans hf
                have hg' := (tolower_eq (Or.inr hg)).symm.trans hg
                subst he' hf' hg'
                have hneedle : ascii "://" = [58, 47, 47] := by decide
                rw [hneedle] at hi
                simp [strstr, List.cons_prefix_cons, ha', hb', hc', hd'] at hi
                exact hi.symm
            | [], h | [_], h | [_, _], h | [_, _, _], h | [_, _, _, _], h | [_, _, _, _, _], h
            | [_, _, _, _, _, _], h =>
                exact absurd (congrArg List.length h) (by simp [ascii])
          subst hfour
          exact ⟨Nat.le_of_not_lt hlength, not_not.mp hslash, url.take 7, hscheme,
            (List.take_append_drop 7 url).symm⟩

theorem hostPort_ok {p : Int} (hslash : 47 ∈ rest) (h : hostPort o rest = .ok (host, p)) :
    ∃ port, rest = host ++ (port ++ rest.drop (find 47 rest)) ∧
      (host.length < maxHostNameLen ∧ port.length ≤ 10) ∧
      (58 ∉ host ∧ (port = [] ∨ port.head? = some 58)) ∧
      47 ∉ host ++ port ∧ (rest.drop (find 47 rest)).head? = some 47 := by
  obtain ⟨before, after, rfl, hbefore⟩ := List.eq_append_cons_of_mem hslash
  have hfind : find 47 (before ++ 47 :: after) = before.length := find_append hbefore _
  rw [hostPort, hfind] at h
  rw [hfind, List.drop_left]
  by_cases hcolon : 58 ∈ before
  · obtain ⟨name, number, rfl, hname⟩ := List.eq_append_cons_of_mem hcolon
    have hfind' : find 58 ((name ++ 58 :: number) ++ 47 :: after) = name.length := by
      rw [List.append_assoc, List.cons_append]
      exact find_append hname _
    have hlt : name.length < (name ++ 58 :: number).length := by
      rw [List.length_append, List.length_cons]
      omega
    rw [hfind'] at h
    dsimp only at h
    rw [if_pos hlt] at h
    split at h
    · cases h
    · rename_i hhost
      split at h
      · cases h
      · rename_i hnumber
        have htake : ((name ++ 58 :: number) ++ 47 :: after).take name.length = name := by
          rw [List.append_assoc, List.take_left]
        obtain ⟨hhost', -⟩ := Prod.mk.inj (Except.ok.inj h)
        rw [htake] at hhost'
        subst hhost'
        rw [List.length_append, List.length_cons] at hnumber
        refine ⟨58 :: number, ?_, ⟨Nat.lt_of_not_le hhost, ?_⟩, ⟨hname, Or.inr rfl⟩, hbefore, rfl⟩
        · rw [List.append_assoc, List.cons_append]
        · rw [List.length_cons]
          omega
  · have hfind' : ¬find 58 (before ++ 47 :: after) < before.length := by
      have hnone : before.findIdx (· = 58) = before.length := find_eq_length_iff.mpr hcolon
      rw [find, List.findIdx_append, hnone, if_neg (Nat.lt_irrefl _)]
      omega
    dsimp only at h
    rw [if_neg hfind'] at h
    split at h
    · cases h
    · rename_i hhost
      obtain ⟨hhost', -⟩ := Prod.mk.inj (Except.ok.inj h)
      rw [List.take_left] at hhost'
      subst hhost'
      exact ⟨[], rfl, ⟨Nat.lt_of_not_le hhost, Nat.zero_le _⟩, ⟨hcolon, Or.inl rfl⟩,
        by rwa [List.append_nil], rfl⟩

/-- The array has room for every request. -/
theorem length_compose (htarget : target.length ≤ 1500) (hhost : host.length < maxHostNameLen) :
    (compose o http10 host target).length < requestSize := by
  have hif : ∀ (c : Prop) [Decidable c] (l : Bytes), (if c then l else []).length ≤ l.length := by
    intro c _ l
    split
    · exact Nat.le_refl _
    · exact Nat.zero_le _
  have hword : o.method.word.length ≤ 7 := by cases o.method <;> decide
  have hversion : (if http10 = 1 then ascii " HTTP/1.0" else if http10 = 2 then ascii " HTTP/1.1"
      else []).length ≤ 9 := by
    split
    · decide
    · exact hif _ _
  have hagent := hif (0 < http10) (ascii "User-Agent: WebBench 1.5\r\n")
  have hname := hif (o.proxyhost = none ∧ 0 < http10) (ascii "Host: " ++ host ++ crlf)
  have hpragma := hif (o.force_reload ∧ o.proxyhost ≠ none) (ascii "Pragma: no-cache\r\n")
  have hconnection : (if 1 < http10 then if o.keep_alive then ascii "Connection: Keep-Alive\r\n"
      else ascii "Connection: close\r\n" else []).length ≤ 24 := by
    refine (hif _ _).trans ?_
    split <;> decide
  have hend := hif (0 < http10) crlf
  have hlengths : (ascii " ").length = 1 ∧ crlf.length = 2 ∧ (ascii "Host: ").length = 6 ∧
      (ascii "User-Agent: WebBench 1.5\r\n").length = 26 ∧
      (ascii "Pragma: no-cache\r\n").length = 18 := by decide
  rw [maxHostNameLen] at hhost
  rw [compose, requestSize]
  simp only [List.length_append] at hname ⊢
  omega

/-! ## From the URL to the answer -/

/-- What is sent for a URL: with a proxy the URL is the target, and no host is set. -/
structure Sends (o : Options) (url host target : Bytes) : Prop where
  aims : o.proxyhost = none → ∃ port, Aims url host port target
  whole : o.proxyhost ≠ none → host = [] ∧ target = url

theorem Sends.parts (h : Sends o url host target) : host <:+: url ∧ target <:+: url := by
  by_cases hproxy : o.proxyhost = none
  · obtain ⟨port, haims⟩ := h.aims hproxy
    obtain ⟨scheme, -, rfl⟩ := haims.split
    refine ⟨⟨scheme, port ++ target, List.append_assoc _ _ _⟩, scheme ++ (host ++ port), [], ?_⟩
    simp
  · obtain ⟨rfl, rfl⟩ := h.whole hproxy
    exact ⟨List.nil_infix, List.infix_refl _⟩

theorem Sends.host_length (h : Sends o url host target) : host.length < maxHostNameLen := by
  by_cases hproxy : o.proxyhost = none
  · obtain ⟨port, haims⟩ := h.aims hproxy
    exact haims.fits.1
  · obtain ⟨rfl, -⟩ := h.whole hproxy
    decide

/-- Without a proxy, the host and the port of a URL that is accepted are copied to `host` and
`tmp`, which have room for them. -/
def Fits (o : Options) (url : Bytes) : Prop :=
  o.proxyhost = none → ∀ rest, checkUrl url = .ok rest →
    min (find 58 rest) (find 47 rest) < maxHostNameLen ∧ find 47 rest - find 58 rest - 1 < 10

theorem checkUrl_error {e : Stop} (h : checkUrl url = .error e) (m : Memory) :
    e ≠ .overflow m := by
  rintro rfl
  rw [checkUrl] at h
  split at h
  · cases h
  · split at h
    · cases h
    · split at h
      · cases h
      · split at h <;> cases h

theorem hostPort_fits (hhost : min (find 58 rest) (find 47 rest) < maxHostNameLen)
    (hport : find 47 rest - find 58 rest - 1 < 10) : ∃ found, hostPort o rest = .ok found := by
  dsimp only [hostPort]
  split
  · rename_i hcolon
    rw [Nat.min_eq_left (Nat.le_of_lt hcolon)] at hhost
    exact ⟨_, (if_neg (Nat.not_le.mpr hhost)).trans (if_neg (Nat.not_le.mpr hport))⟩
  · rename_i hcolon
    rw [Nat.min_eq_right (Nat.le_of_not_lt hcolon)] at hhost
    exact ⟨_, if_neg (Nat.not_le.mpr hhost)⟩

/-- It stops at the checks of the URL, or sends what the URL says. -/
theorem build_request_cases (hfits : Fits o url) :
    (∃ e, build_request o url = .error e ∧ ∀ m, e ≠ .overflow m) ∨
    ∃ host p target, Sends o url host target ∧
      build_request o url = .ok ⟨compose o o.raised host target, host, p, o.raised⟩ := by
  have hbuilt : ∀ {host target : Bytes} (p : Int), url.length ≤ 1500 → Sends o url host target →
      (if (compose o o.raised host target).length < requestSize then
          .ok (Built.mk (compose o o.raised host target) host p o.raised)
        else .error (.overflow .request) : Except Stop Built) =
        .ok ⟨compose o o.raised host target, host, p, o.raised⟩ := fun p hlength hsends =>
    if_pos (length_compose (hsends.parts.2.length_le.trans hlength) hsends.host_length)
  cases hcheck : checkUrl url with
  | error e =>
      refine Or.inl ⟨e, ?_, checkUrl_error hcheck⟩
      rw [build_request, hcheck]
      rfl
  | ok rest =>
      obtain ⟨hlength, hslash, scheme, hscheme, hurl⟩ := checkUrl_ok hcheck
      cases hproxy : o.proxyhost with
      | some proxy =>
          have hsends : Sends o url [] url :=
            ⟨fun h => absurd (h.symm.trans hproxy) (by simp), fun _ => ⟨rfl, rfl⟩⟩
          refine Or.inr ⟨[], o.proxyport, url, hsends, ?_⟩
          rw [← hbuilt o.proxyport hlength hsends, build_request, hcheck]
          simp only [hproxy]
          rfl
      | none =>
          obtain ⟨hroom, hdigits⟩ := hfits hproxy rest hcheck
          obtain ⟨⟨host, p⟩, hhost⟩ := hostPort_fits (o := o) hroom hdigits
          obtain ⟨port, hsplit, hlengths, hcolon, hslash⟩ := hostPort_ok hslash hhost
          have hsends : Sends o url host (rest.drop (find 47 rest)) :=
            ⟨fun _ => ⟨port, ⟨scheme, hscheme, hsplit ▸ hurl⟩, hlengths, hcolon, hslash⟩,
              fun h => absurd hproxy h⟩
          refine Or.inr ⟨host, p, rest.drop (find 47 rest), hsends, ?_⟩
          rw [← hbuilt p hlength hsends, build_request, hcheck]
          simp only [hproxy]
          show (hostPort o rest).bind _ = _
          rw [hhost]
          rfl

/-- For every URL without white space whose parts fit and all options, on an object with any
history: no array overflows; and a request that is built gets the page of the path that the
URL names, and is hung up on unless the client was to keep the connection and speaks
HTTP/1.1, if the server has its method and version, and else the page of the request before.
A request that it has them for it reads to the end, and stores its header fields. -/
theorem served (o : Options) {url : Bytes} (hurl : ∀ c ∈ url, isspace c = false)
    (hfits : Fits o url) (history : List Use) :
    (∀ m, build_request o url ≠ .error (.overflow m)) ∧
    ∀ b, build_request o url = .ok b → ∃ target, Sends o url b.host target ∧
      (∃ body ∈ bodies, answer history b.request = some
        ⟨response (pageOf (if Understood o b.http10 then pathOf target
            else history.foldl Use.pathAfter [])) body,
          decide (Understood o b.http10 ∧ ¬(b.http10 = 2 ∧ o.keep_alive = true))⟩) ∧
      (Understood o b.http10 → ∀ d : HttpData, d.Cleared → ∃ p,
        d.parseRequest b.request = some p ∧ p.data.state = .kGotAll ∧ p.input = [] ∧
        p.data.path = pathOf target ∧
        p.data.version = (if b.http10 = 1 then .kHttp10 else .kHttp11) ∧
        ∀ field, p.data.requestHeaders.get field =
          HeaderLine.last (fields o b.http10 b.host) field) := by
  rcases build_request_cases hfits with ⟨e, hstop, hne⟩ | ⟨host, port, target, hsends, hbuilt⟩
  · rw [hstop]
    exact ⟨fun m h => hne m (Except.error.inj h), fun b h => nomatch h⟩
  · rw [hbuilt]
    refine ⟨fun m h => (nomatch h), fun b h => ?_⟩
    obtain rfl := Except.ok.inj h
    have hhost : ∀ c ∈ host, isspace c = false := fun c hc => hurl c (hsends.parts.1.subset hc)
    have htarget : ∀ c ∈ target, isspace c = false :=
      fun c hc => hurl c (hsends.parts.2.subset hc)
    refine ⟨target, hsends, ?_, fun h d hd => parses_compose h htarget hhost hd⟩
    obtain ⟨body, hbody, hanswer⟩ :=
      answer_eq history (compose o o.raised host target)
    refine ⟨body, hbody, hanswer.trans ?_⟩
    rw [servedPath, requestPath_compose htarget hhost, hangsUp_compose htarget hhost]
    split <;> rfl

/-- `webbench -2 -k`. -/
def keepOptions : Options := ⟨.get, 2, false, none, 80, true⟩

def localUrl : Bytes := ascii "http://localhost:7000/?a"

/-- A host that has no room. -/
example : build_request keepOptions (ascii "http://" ++ List.replicate 64 97 ++ ascii "/") =
    .error (.overflow .host) := rfl

/-- The client that asks the local server to keep the connection. -/
theorem served_local : ∃ b target, build_request keepOptions localUrl = .ok b ∧
    b.host = ascii "localhost" ∧ b.proxyport = 7000 ∧
    Sends keepOptions localUrl b.host target ∧
    ∃ body ∈ bodies, answer [] b.request =
      some ⟨response (pageOf (pathOf target)) body, false⟩ := by
  have hbuilt : ∃ b, build_request keepOptions localUrl = .ok b ∧ b.host = ascii "localhost" ∧
      b.proxyport = 7000 ∧ b.http10 = 2 := ⟨_, rfl, by decide, by decide, rfl⟩
  obtain ⟨b, hb, hhost, hport, hversion⟩ := hbuilt
  have hurl : ∀ c ∈ localUrl, isspace c = false := by decide +kernel
  have hfits : Fits keepOptions localUrl := by
    intro _ rest hrest
    have hcheck : checkUrl localUrl = .ok (ascii "localhost:7000/?a") := rfl
    obtain rfl := Except.ok.inj (hcheck.symm.trans hrest)
    decide
  obtain ⟨target, hsends, ⟨body, hbody, hanswer⟩, -⟩ := (served keepOptions hurl hfits []).2 b hb
  refine ⟨b, target, hb, hhost, hport, hsends, body, hbody, hanswer.trans ?_⟩
  have hunderstood : Understood keepOptions b.http10 := ⟨Or.inl rfl, Or.inr hversion⟩
  rw [if_pos hunderstood, decide_eq_false fun h => h.2 ⟨hversion, rfl⟩]

end WebBench

end WebServer
