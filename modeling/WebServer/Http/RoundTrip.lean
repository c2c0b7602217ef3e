/-
# `Http.RoundTrip` — what is stored of a request, put back into bytes

A request line is stored as a method, a path, a query and a version.  Written out
again (`encode`) these are the line, but for two things: `HEAD` is stored as the
method `kDelete`, and a target without a query leaves the query of an earlier
request in place (`decodes_iff`).

A header line is stored without the blanks around its value (`storeField_line`), so
a block of header lines, with any blanks around the values, is stored as the map in
which the last line for each field counts (`parses_fields`).
-/
import WebServer.Http.Grammar

namespace WebServer

/-- A CRLF in two parts is in one of them, or across the cut. -/
theorem findCRLF_append_none {as bs : Bytes} (has : findCRLF as = none)
    (hbs : findCRLF bs = none) (hcut : as.getLast? ≠ some 13 ∨ bs.head? ≠ some 10) :
    findCRLF (as ++ bs) = none := by
  induction as with
  | nil => exact hbs
  | cons a as ih =>
      cases as with
      | nil =>
          cases bs with
          | nil => rfl
          | cons b bs =>
              have hne : ¬(a = 13 ∧ b = 10) := by
                rintro ⟨rfl, rfl⟩
                rcases hcut with hcut | hcut <;> exact hcut rfl
              show findCRLF (a :: b :: bs) = none
              rw [findCRLF, if_neg hne, hbs]
              rfl
      | cons b as =>
          rw [findCRLF] at has
          split at has
          · exact absurd has (Option.some_ne_none _)
          · rename_i hne
            have hrest := ih (Option.map_eq_none_iff.mp has)
              (hcut.imp_left fun h => by rwa [List.getLast?_cons_cons] at h)
            show findCRLF (a :: b :: (as ++ bs)) = none
            rw [findCRLF, if_neg hne]
            exact congrArg (Option.map (· + 1)) hrest

namespace StringMap

theorem get_set (key field value : Bytes) (m : StringMap) :
    (m.set field value).get key = if key = field then some value else m.get key := by
  have hcons (e : Bytes × Bytes) (m : StringMap) :
      StringMap.get key (e :: m) = if key = e.1 then some e.2 else StringMap.get key m := by
    by_cases h : key = e.1
    · rw [if_pos h, StringMap.get, List.find?_cons_of_pos (by simpa using h.symm)]
      rfl
    · rw [if_neg h, StringMap.get, List.find?_cons_of_neg (by simpa using Ne.symm h)]
      rfl
  induction m with
  | nil => exact hcons (field, value) []
  | cons e m ih =>
      rw [StringMap.set]
      by_cases heq : field = e.1
      · rw [if_pos heq, hcons, hcons, ← heq]
        by_cases hkey : key = field
        · rw [if_pos hkey, if_pos hkey]
        · rw [if_neg hkey, if_neg hkey, if_neg hkey]
      · rw [if_neg heq]
        by_cases hlt : field < e.1
        · rw [if_pos hlt]
          exact hcons (field, value) (e :: m)
        · rw [if_neg hlt, hcons, hcons, ih]
          by_cases hkey : key = e.1
          · have hne : key ≠ field := fun h => heq (h.symm.trans hkey)
            rw [if_pos hkey, if_neg hne, if_pos hkey]
          · rw [if_neg hkey, if_neg hkey]

end StringMap

namespace HttpData

/-! ## The request line -/

def Method.name : Method → Bytes
  | .kInvalid => []
  | .kGet => ascii "GET"
  | .kPost => ascii "POST"
  | .kHead => ascii "HEAD"
  | .kPut => ascii "PUT"
  | .kDelete => ascii "DELETE"

def Version.text : Version → Bytes
  | .kUnknownVersion => []
  | .kHttp10 => ascii "HTTP/1.0"
  | .kHttp11 => ascii "HTTP/1.1"

/-- The stored fields as a request line. -/
def encode (d : HttpData) : Bytes :=
  Method.name d.method ++ 32 :: (d.path ++ d.query ++ 32 :: Version.text d.version)

/-- The word of a line that names the method. -/
def wordOf (line : Bytes) : Bytes := line.take (find 32 line)

/-- The word after it. -/
def targetOf (line : Bytes) : Bytes :=
  let rest := line.drop (find 32 line + 1)
  rest.take (find 32 rest)

theorem wordOf_append {word : Bytes} (h : 32 ∉ word) (rest : Bytes) :
    wordOf (word ++ 32 :: rest) = word := by
  rw [wordOf, find_append h, List.take_left]

theorem targetOf_append {word target : Bytes} (h : 32 ∉ word) (h' : 32 ∉ target)
    (tail : Bytes) : targetOf (word ++ 32 :: (target ++ 32 :: tail)) = target := by
  have hdrop (rest : Bytes) : (word ++ 32 :: rest).drop (word.length + 1) = rest := by
    rw [List.drop_append]
    simp
  rw [targetOf, find_append h, hdrop, find_append h', List.take_left]

/-- An accepted line, in words, and what is stored of it. -/
theorem processRequestLine_accepted {d : HttpData} {line : Bytes}
    (h : (d.processRequestLine line).2 = true) : ∃ word target tail v,
    line = word ++ 32 :: (target ++ 32 :: tail) ∧ 32 ∉ word ∧ 32 ∉ target ∧
      (d.setMethod word).method ≠ .kInvalid ∧ versionOf tail = some v ∧
      (d.processRequestLine line).1 = { (d.setMethod word).setTarget target with version := v } := by
  rw [processRequestLine] at h ⊢
  by_cases hspace : find 32 line = line.length
  · rw [if_pos hspace] at h
    exact absurd h Bool.false_ne_true
  rw [if_neg hspace] at h ⊢
  by_cases hmethod : (d.setMethod (line.take (find 32 line))).method = .kInvalid
  · rw [if_pos hmethod] at h
    exact absurd h Bool.false_ne_true
  rw [if_neg hmethod] at h ⊢
  dsimp only at h ⊢
  generalize hrest : line.drop (find 32 line + 1) = rest at h ⊢
  by_cases hspace' : find 32 rest = rest.length
  · rw [if_pos hspace'] at h
    exact absurd h Bool.false_ne_true
  rw [if_neg hspace'] at h ⊢
  obtain ⟨hline, hword⟩ := cut_eq_some_iff.mp (if_neg hspace)
  obtain ⟨hrest', htarget⟩ := cut_eq_some_iff.mp (if_neg hspace')
  dsimp only at hline hword hrest' htarget
  cases hv : versionOf (rest.drop (find 32 rest + 1)) with
  | none =>
      rw [hv] at h
      exact absurd h Bool.false_ne_true
  | some v =>
      refine ⟨_, _, _, v, ?_, hword, htarget, hmethod, hv, rfl⟩
      rw [← hrest', ← hrest]
      exact hline

/-- The method that is stored for a word is that of the word, but for `HEAD`. -/
theorem name_methodOf {word : Bytes} {m : Method} (h : methodOf word = some m) :
    Method.name m = word ↔ word ≠ ascii "HEAD" := by
  have hall : ∀ word ∈ methods, ∀ m ∈ methodOf word,
      (Method.name m = word ↔ word ≠ ascii "HEAD") := by decide
  exact hall word (methodOf_isSome_iff.mp (Option.isSome_of_eq_some h)) m h

theorem text_versionOf {tail : Bytes} {v : Version} (h : versionOf tail = some v) :
    Version.text v = tail := by
  rcases versionOf_isSome_iff.mp (Option.isSome_of_eq_some h) with rfl | rfl
  · cases h.symm.trans (show versionOf (ascii "HTTP/1.0") = some .kHttp10 by decide)
    rfl
  · cases h.symm.trans (show versionOf (ascii "HTTP/1.1") = some .kHttp11 by decide)
    rfl

/-- The path and the query are the target, if it has a query or none is left there. -/
theorem setTarget_append (d : HttpData) (target : Bytes) :
    (d.setTarget target).path ++ (d.setTarget target).query = target ↔
      63 ∈ target ∨ d.query = [] := by
  by_cases hquery : 63 ∈ target
  · have hfind : find 63 target ≠ target.length := mt find_eq_length_iff.mp (not_not.mpr hquery)
    refine iff_of_true ?_ (Or.inl hquery)
    simp only [setTarget, if_pos hfind]
    exact List.take_append_drop _ _
  · have hfind : find 63 target = target.length := find_eq_length_iff.mpr hquery
    have hpath : (d.setTarget target).path = target ∧ (d.setTarget target).query = d.query := by
      simp [setTarget, hfind]
    rw [hpath.1, hpath.2, List.append_right_eq_self]
    exact ⟨Or.inr, fun h => h.resolve_left hquery⟩

theorem setTarget_method (d : HttpData) (target : Bytes) :
    (d.setTarget target).method = d.method := by
  rw [setTarget]
  split <;> rfl

theorem blank_notMem_name (m : Method) : 32 ∉ Method.name m := by
  cases m <;> decide

/-- An accepted request line is given back by what is stored of it exactly when its
method is not `HEAD`, and its target has a query or no query was left there. -/
theorem decodes_iff {d : HttpData} {line : Bytes} (hd : d.method = .kInvalid)
    (hok : (d.processRequestLine line).2 = true) :
    encode (d.processRequestLine line).1 = line ↔
      wordOf line ≠ ascii "HEAD" ∧ (63 ∈ targetOf line ∨ d.query = []) := by
  obtain ⟨word, target, tail, v, rfl, hword, htarget, hmethod, hv, hstored⟩ :=
    processRequestLine_accepted hok
  obtain ⟨m, hm⟩ : ∃ m, methodOf word = some m := by
    cases hm : methodOf word with
    | none =>
        rw [setMethod, hm, hd] at hmethod
        exact absurd rfl hmethod
    | some m => exact ⟨m, rfl⟩
  have hset : d.setMethod word = { d with method := m } := by
    rw [setMethod, hm]
    rfl
  have htext := text_versionOf hv
  rw [hstored, hset, encode, wordOf_append hword, targetOf_append hword htarget,
    ← name_methodOf hm, ← setTarget_append { d with method := m } target]
  have hname := setTarget_method { d with method := m } target
  generalize { d with method := m }.setTarget target = e at hname ⊢
  show Method.name e.method ++ 32 :: (e.path ++ e.query ++ 32 :: Version.text v) = _ ↔ _
  rw [htext, hname]
  constructor
  · intro heq
    have hwords := (cut_append (blank_notMem_name m) _).symm.trans
      ((congrArg (cut 32) heq).trans (cut_append hword _))
    obtain ⟨hname, hrest⟩ := Prod.mk.inj (Option.some.inj hwords)
    exact ⟨hname, List.append_cancel_right hrest⟩
  · rintro ⟨hname, hpath⟩
    rw [hname, hpath]

theorem decodes_iff_query :
    encode (new.processRequestLine (ascii "GET /a?b HTTP/1.0")).1 = ascii "GET /a?b HTTP/1.0" :=
  (decodes_iff rfl (by decide)).mpr ⟨by decide, Or.inr rfl⟩

/-- `HEAD` comes back as `DELETE`, and a target without a query with that of the
request before. -/
theorem decodes_fails :
    encode (new.processRequestLine (ascii "HEAD / HTTP/1.1")).1 = ascii "DELETE / HTTP/1.1" ∧
    ((new.onRequest (ascii "GET /?a HTTP/1.1\r\n\r\n")).map fun r =>
      encode (r.1.processRequestLine (ascii "GET / HTTP/1.1")).1) =
        some (ascii "GET /?a HTTP/1.1") ∧
    ¬∀ (d : HttpData) (line : Bytes), d.method = .kInvalid →
      (d.processRequestLine line).2 = true → encode (d.processRequestLine line).1 = line := by
  refine ⟨by decide, by decide, ?_⟩
  intro h
  have hhead := h new (ascii "HEAD / HTTP/1.1") rfl (by decide)
  revert hhead
  decide

/-! ## The header lines -/

/-- A header line: the field, and the value with blanks around it. -/
structure HeaderLine where
  field : Bytes
  before : Bytes
  value : Bytes
  after : Bytes

namespace HeaderLine

def bytes (h : HeaderLine) : Bytes := h.field ++ 58 :: (h.before ++ h.value ++ h.after)

/-- No colon and no CRLF in the field, no CRLF in the value and no white space at its
ends, and nothing but spaces and tabs around it. -/
structure Valid (h : HeaderLine) : Prop where
  field : 58 ∉ h.field ∧ findCRLF h.field = none
  value : findCRLF h.value = none
  first : ∀ b, h.value.head? = some b → isspace b = false
  last : ∀ b, h.value.getLast? = some b → isspace b = false
  blanks : ∀ b ∈ h.before ++ h.after, b = 32 ∨ b = 9

theorem findCRLF_bytes {h : HeaderLine} (hh : h.Valid) : findCRLF h.bytes = none := by
  have hblank : ∀ b ∈ h.before ++ h.after, b ≠ 13 ∧ b ≠ 10 := by
    intro b hb
    rcases hh.blanks b hb with rfl | rfl <;> decide
  have hbefore : 13 ∉ h.before := fun hmem => (hblank 13 (List.mem_append_left _ hmem)).1 rfl
  have hafter : 13 ∉ h.after := fun hmem => (hblank 13 (List.mem_append_right _ hmem)).1 rfl
  have hvalue : findCRLF (h.before ++ h.value) = none :=
    findCRLF_append_none (findCRLF_of_not_mem hbefore) hh.value
      (Or.inl fun e => hbefore (List.mem_of_getLast? e))
  have hend : findCRLF (h.before ++ h.value ++ h.after) = none :=
    findCRLF_append_none hvalue (findCRLF_of_not_mem hafter)
      (Or.inr fun e => (hblank 10 (List.mem_append_right _ (List.mem_of_head? e))).2 rfl)
  have hone : findCRLF [58] = none := rfl
  have hcolon : findCRLF ([58] ++ (h.before ++ h.value ++ h.after)) = none :=
    findCRLF_append_none hone hend (Or.inl (by decide))
  exact findCRLF_append_none hh.field.2 hcolon (Or.inr (by simp))

theorem dropWhile_blanks {blanks value : Bytes} (hblanks : ∀ b ∈ blanks, isspace b = true)
    (hfirst : ∀ b, value.head? = some b → isspace b = false) :
    (blanks ++ value).dropWhile isspace = value := by
  rw [List.dropWhile_append_of_pos hblanks]
  cases value with
  | nil => rfl
  | cons b value =>
      refine List.dropWhile_cons_of_neg ?_
      rw [hfirst b rfl]
      exact Bool.false_ne_true

/-- The two loops of `addReqHeader` leave the value. -/
theorem trim_value {h : HeaderLine} (hh : h.Valid) :
    (((h.before ++ h.value ++ h.after).dropWhile isspace).reverse.dropWhile isspace).reverse =
      h.value := by
  have hblank : ∀ b ∈ h.before ++ h.after, isspace b = true := by
    intro b hb
    rcases hh.blanks b hb with rfl | rfl <;> decide
  have hbefore : ∀ b ∈ h.before, isspace b = true :=
    fun b hb => hblank b (List.mem_append_left _ hb)
  have hafter : ∀ b ∈ h.after, isspace b = true :=
    fun b hb => hblank b (List.mem_append_right _ hb)
  cases hvalue : h.value with
  | nil =>
      have hall : (h.before ++ h.after ++ []).dropWhile isspace = [] :=
        dropWhile_blanks hblank nofun
      rw [List.append_nil] at hall ⊢
      rw [hall]
      rfl
  | cons b value =>
      have hleft : (h.before ++ ((b :: value) ++ h.after)).dropWhile isspace =
          (b :: value) ++ h.after :=
        dropWhile_blanks hbefore fun c hc => hh.first c (hvalue ▸ hc)
      have hright : (h.after.reverse ++ (b :: value).reverse).dropWhile isspace =
          (b :: value).reverse := by
        refine dropWhile_blanks (fun c hc => hafter c (List.mem_reverse.mp hc)) ?_
        intro c hc
        rw [List.head?_reverse, ← hvalue] at hc
        exact hh.last c hc
      rw [List.append_assoc, hleft, List.reverse_append, hright, List.reverse_reverse]

/-- A header line is stored under its field, with its value. -/
theorem storeField_line {h : HeaderLine} (hh : h.Valid) (m : StringMap) :
    storeField m h.bytes = m.set h.field h.value := by
  have hdrop : h.bytes.drop (h.field.length + 1) = h.before ++ h.value ++ h.after := by
    rw [bytes, List.drop_append]
    simp
  have htake : h.bytes.take h.field.length = h.field := List.take_left
  have hfind : find 58 h.bytes = h.field.length := find_append hh.field.1 _
  rw [storeField, hfind, hdrop, htake, trim_value hh]

/-- The value of the last line for a field. -/
def last (hs : List HeaderLine) (field : Bytes) : Option Bytes :=
  (hs.reverse.find? fun h => h.field = field).map value

/-- The lines, entered one after the other. -/
def entered (hs : List HeaderLine) (m : StringMap) : StringMap :=
  hs.foldl (fun m h => m.set h.field h.value) m

theorem get_entered (hs : List HeaderLine) (field : Bytes) : ∀ m : StringMap,
    (entered hs m).get field = (last hs field).or (m.get field) := by
  induction hs with
  | nil => exact fun m => rfl
  | cons h hs ih =>
      intro m
      have hrest := ih (m.set h.field h.value)
      rw [StringMap.get_set] at hrest
      rw [entered, List.foldl_cons]
      refine hrest.trans ?_
      rw [last, last, List.reverse_cons, List.find?_append]
      cases hfind : hs.reverse.find? fun h => h.field = field with
      | some g => rfl
      | none =>
          by_cases hfield : field = h.field
          · rw [if_pos hfield, List.find?_cons_of_pos (by simpa using hfield.symm)]
            rfl
          · rw [if_neg hfield, List.find?_cons_of_neg (by simpa using Ne.symm hfield)]
            rfl

theorem storeFields_lines {hs : List HeaderLine} (hhs : ∀ h ∈ hs, h.Valid) (more : List Bytes) :
    ∀ m : StringMap, storeFields m (hs.map bytes ++ [] :: more) = entered hs m := by
  induction hs with
  | nil => exact fun m => rfl
  | cons h hs ih =>
      intro m
      have hcolon : 58 ∈ h.bytes := List.mem_append_right _ List.mem_cons_self
      have hrest := ih (fun g hg => hhs g (List.mem_cons_of_mem h hg)) (m.set h.field h.value)
      rw [storeFields, List.map_cons, List.cons_append, List.takeWhile_cons,
        if_pos (decide_eq_true hcolon), List.foldl_cons,
        storeField_line (hhs h List.mem_cons_self)]
      exact hrest

end HeaderLine

open HeaderLine

/-- A request line and any header lines are read to the end; what follows them is
left, and of each field the last value is stored. -/
theorem parses_fields {d : HttpData} (hd : d.Cleared) {line : Bytes} {hs : List HeaderLine}
    (hline : RequestLine line) (hfree : findCRLF line = none) (hhs : ∀ h ∈ hs, h.Valid)
    (rest : Bytes) :
    ∃ p, d.parseRequest (join (line :: hs.map bytes ++ [[]]) rest) = some p ∧
      p.data.state = .kGotAll ∧ p.input = rest ∧ p.data.requestHeaders = entered hs [] ∧
      ∀ field, p.data.requestHeaders.get field = last hs field := by
  have hfields : ∀ l ∈ hs.map bytes, 58 ∈ l ∧ findCRLF l = none := by
    intro l hl
    obtain ⟨h, hh, rfl⟩ := List.mem_map.mp hl
    exact ⟨List.mem_append_right _ List.mem_cons_self, findCRLF_bytes (hhs h hh)⟩
  have hparts : ∀ part ∈ line :: hs.map bytes ++ [[]], findCRLF part = none := by
    intro part hmem
    rcases List.mem_append.mp hmem with hmem | hmem
    · rcases List.mem_cons.mp hmem with rfl | hmem
      · exact hfree
      · exact (hfields part hmem).2
    · rw [List.mem_singleton.mp hmem]
      rfl
  have hlines := lines_join hparts rest
  rw [List.cons_append, List.cons_append, List.append_assoc] at hlines
  generalize hinput : join (line :: (hs.map bytes ++ [[]])) rest = input at hlines
  have hheaded : Headed [] input rest :=
    ⟨line, hs.map bytes, hline, hfree, hfields, ⟨List.not_mem_nil, rfl⟩, hinput.symm⟩
  obtain ⟨p, q, m, s, hparse, hdata⟩ := parseRequest_reads hd input
  obtain ⟨p', hparse', hends⟩ := parseRequest_ends hd input
  obtain rfl : p = p' := Option.some.inj (hparse.symm.trans hparse')
  have hversion : (requestVersion input).isSome := by
    rw [requestVersion_of_cons hlines]
    exact requestLine_iff.mp hline
  have hheaders : p.data.requestHeaders = entered hs [] := by
    rw [hdata]
    show requestFields input = _
    rw [requestFields, if_pos hversion, hlines]
    exact storeFields_lines hhs (lines rest) []
  have hget : ∀ field, p.data.requestHeaders.get field = last hs field := by
    intro field
    rw [hheaders, get_entered]
    exact Option.or_none
  refine ⟨p, ?_, ?_, ?_, hheaders, hget⟩
  · rw [List.cons_append, hinput]
    exact hparse
  · rcases hends with ⟨hgot, -⟩ | ⟨-, hnone⟩
    · exact hgot
    · exact absurd hheaded (hnone [] rest)
  · rcases hends with ⟨-, l, hl⟩ | ⟨-, hnone⟩
    · exact (headed_unique hl hheaded).2
    · exact absurd hheaded (hnone [] rest)

/-- Two values of the field `A`, the second between tabs, and three bytes after the request. -/
theorem parses_fields_two : ∃ p,
    new.parseRequest (ascii "GET / HTTP/1.1\r\nA: b \r\nA:\tc\t\r\n\r\nGET") = some p ∧
    p.data.state = .kGotAll ∧ p.input = ascii "GET" ∧ p.data.requestHeaders.get [65] = some [99] := by
  have hline : RequestLine (ascii "GET / HTTP/1.1") :=
    ⟨ascii "GET", ascii "/", ascii "HTTP/1.1", by decide, by decide, Or.inr rfl,
      by decide⟩
  have hfirst : HeaderLine.Valid ⟨[65], [32], [98], [32]⟩ := by
    refine ⟨by decide, rfl, ?_, ?_, by simp⟩ <;> rintro b ⟨⟩ <;> rfl
  have hsecond : HeaderLine.Valid ⟨[65], [9], [99], [9]⟩ := by
    refine ⟨by decide, rfl, ?_, ?_, by simp⟩ <;> rintro b ⟨⟩ <;> rfl
  have hhs : ∀ h ∈ [(⟨[65], [32], [98], [32]⟩ : HeaderLine), ⟨[65], [9], [99], [9]⟩], h.Valid := by
    intro h hh
    rcases List.mem_cons.mp hh with rfl | hh
    · exact hfirst
    · exact List.mem_singleton.mp hh ▸ hsecond
  obtain ⟨p, hparse, hgot, hrest, -, hget⟩ :=
    parses_fields cleared_new hline (by decide) hhs (ascii "GET")
  refine ⟨p, ?_, hgot, hrest, hget [65]⟩
  rw [← hparse]
  exact congrArg _ (by decide)

end HttpData

end WebServer
