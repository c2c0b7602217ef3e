/-
# `Http.Parse` — what one call of `parseRequest` reads and writes

The loop of `parseRequest` against a description of it that has no loop.  The
bytes it reads are cut into lines (`lines`, those that end in CRLF); the first
is a request line, whose words name a method, a target and a version; those
after it are header fields, up to the first without a colon.

    requestPath      the path the first line sets, if it gets that far
    requestVersion   the version, if the first line is accepted
    requestFields    the header fields then stored

`parseRequest_reads` says that the loop ends, and what it leaves in an object
that `clearAllContent` has been called on: these three, and every other field
as it was, but for the query, the method and the state.
-/
import WebServer.Http.HttpData

namespace WebServer

/-! ## Lines -/

/-- The lines that end in CRLF. -/
def lines : Bytes → List Bytes
  | a :: b :: rest =>
      if a = 13 ∧ b = 10 then [] :: lines rest
      else
        match lines (b :: rest) with
        | [] => []
        | l :: ls => (a :: l) :: ls
  | _ => []

theorem findCRLF_bound : ∀ {bs : Bytes} {i : Nat}, findCRLF bs = some i → i + 2 ≤ bs.length := by
  intro bs
  induction bs with
  | nil => intro i h; exact absurd h nofun
  | cons a bs ih =>
      intro i h
      cases bs with
      | nil => exact absurd h nofun
      | cons b rest =>
          rw [findCRLF] at h
          split at h
          · cases h
            simp only [List.length_cons]
            omega
          · obtain ⟨j, hj, rfl⟩ := Option.map_eq_some_iff.mp h
            have hlen := ih hj
            simp only [List.length_cons] at hlen ⊢
            omega

theorem lines_of_none {bs : Bytes} (h : findCRLF bs = none) : lines bs = [] := by
  induction bs with
  | nil => rfl
  | cons a bs ih =>
      cases bs with
      | nil => rfl
      | cons b rest =>
          rw [findCRLF] at h
          rw [lines]
          split at h
          · exact absurd h nofun
          · rename_i hne
            rw [if_neg hne, ih (Option.map_eq_none_iff.mp h)]

theorem lines_of_some : ∀ {bs : Bytes} {i : Nat}, findCRLF bs = some i →
    lines bs = bs.take i :: lines (bs.drop (i + 2)) := by
  intro bs
  induction bs with
  | nil => intro i h; exact absurd h nofun
  | cons a bs ih =>
      intro i h
      cases bs with
      | nil => exact absurd h nofun
      | cons b rest =>
          rw [findCRLF] at h
          rw [lines]
          split at h
          · rename_i heq
            cases h
            rw [if_pos heq]
            rfl
          · rename_i hne
            obtain ⟨j, hj, rfl⟩ := Option.map_eq_some_iff.mp h
            rw [if_neg hne, ih hj]
            rfl

theorem findCRLF_of_not_mem {line : Bytes} (h : 13 ∉ line) : findCRLF line = none := by
  induction line with
  | nil => rfl
  | cons a line ih =>
      obtain ⟨ha, hline⟩ := not_or.mp (mt List.mem_cons.mpr h)
      cases line with
      | nil => rfl
      | cons b line =>
          rw [findCRLF, if_neg fun hab => ha hab.1.symm, ih hline]
          rfl

/-- A line that holds no CRLF ends at the first one after it. -/
theorem findCRLF_append {line : Bytes} (h : findCRLF line = none) (rest : Bytes) :
    findCRLF (line ++ 13 :: 10 :: rest) = some line.length := by
  induction line with
  | nil => rfl
  | cons a line ih =>
      cases line with
      | nil =>
          show findCRLF (a :: 13 :: 10 :: rest) = some 1
          simp [findCRLF]
      | cons b line =>
          rw [findCRLF] at h
          split at h
          · exact absurd h nofun
          · rename_i hne
            have hrest := ih (Option.map_eq_none_iff.mp h)
            show findCRLF (a :: b :: (line ++ 13 :: 10 :: rest)) = _
            rw [findCRLF, if_neg hne]
            exact congrArg (Option.map (· + 1)) hrest

theorem lines_append {line : Bytes} (h : findCRLF line = none) (rest : Bytes) :
    lines (line ++ 13 :: 10 :: rest) = line :: lines rest := by
  have hdrop : (line ++ 13 :: 10 :: rest).drop (line.length + 2) = rest := by
    rw [List.drop_append]
    simp
  rw [lines_of_some (findCRLF_append h rest), List.take_left, hdrop]

/-! ## Words -/

/-- The byte searched for stands after a part without it. -/
theorem find_append {c : UInt8} {as : Bytes} (h : c ∉ as) (bs : Bytes) :
    find c (as ++ c :: bs) = as.length := by
  induction as with
  | nil => simp [find, List.findIdx_cons]
  | cons a as ih =>
      have hne : a ≠ c := fun e => h (e ▸ List.mem_cons_self)
      have hrest := ih fun hc => h (List.mem_cons_of_mem a hc)
      rw [find] at hrest
      rw [find, List.cons_append, List.findIdx_cons, hrest]
      simp [hne]

theorem find_eq_length_iff {c : UInt8} {bs : Bytes} : find c bs = bs.length ↔ c ∉ bs := by
  rw [find, List.findIdx_eq_length]
  simp only [decide_eq_false_iff_not]
  exact ⟨fun h hc => h c hc rfl, fun h b hb e => h (e ▸ hb)⟩

/-- The bytes before the first `c`, and those after it. -/
def cut (c : UInt8) (bs : Bytes) : Option (Bytes × Bytes) :=
  if find c bs = bs.length then none else some (bs.take (find c bs), bs.drop (find c bs + 1))

theorem cut_append {c : UInt8} {as : Bytes} (h : c ∉ as) (bs : Bytes) :
    cut c (as ++ c :: bs) = some (as, bs) := by
  have hne : as.length ≠ (as ++ c :: bs).length := by
    rw [List.length_append, List.length_cons]
    omega
  have hdrop : (as ++ c :: bs).drop (as.length + 1) = bs := by
    rw [List.drop_append]
    simp
  rw [cut, find_append h, if_neg hne, List.take_left, hdrop]

theorem cut_eq_some_iff {c : UInt8} {bs : Bytes} {p : Bytes × Bytes} :
    cut c bs = some p ↔ bs = p.1 ++ c :: p.2 ∧ c ∉ p.1 := by
  constructor
  · intro h
    by_cases hc : c ∈ bs
    · obtain ⟨as, rest, rfl, has⟩ := List.eq_append_cons_of_mem hc
      rw [cut_append has, Option.some.injEq] at h
      exact h ▸ ⟨rfl, has⟩
    · rw [cut, if_pos (find_eq_length_iff.mpr hc)] at h
      exact absurd h nofun
  · rintro ⟨rfl, hc⟩
    exact cut_append hc p.2

/-- A request line's words: up to the first blank, up to the second, the rest. -/
def words (line : Bytes) : Option (Bytes × Bytes × Bytes) := do
  let (m, rest) ← cut 32 line
  let (target, tail) ← cut 32 rest
  if (HttpData.methodOf m).isSome then some (m, target, tail) else none

theorem words_eq_some_iff {line m target tail : Bytes} : words line = some (m, target, tail) ↔
    line = m ++ 32 :: (target ++ 32 :: tail) ∧ 32 ∉ m ∧ 32 ∉ target ∧
      (HttpData.methodOf m).isSome := by
  constructor
  · intro h
    obtain ⟨⟨m', rest⟩, hcut, h⟩ := Option.bind_eq_some_iff.mp h
    obtain ⟨⟨target', tail'⟩, hcut', h⟩ := Option.bind_eq_some_iff.mp h
    obtain ⟨hline, hm⟩ := cut_eq_some_iff.mp hcut
    obtain ⟨hrest, ht⟩ := cut_eq_some_iff.mp hcut'
    dsimp only at hline hrest hm ht h
    split at h
    · rename_i hsome
      cases h
      exact ⟨by rw [hline, hrest], hm, ht, hsome⟩
    · exact absurd h nofun
  · rintro ⟨rfl, hm, ht, hsome⟩
    simp [words, cut_append hm, cut_append ht, hsome]

namespace HttpData

/-! ## What an input says -/

/-- The words that name a method. -/
def methods : List Bytes := [ascii "GET", ascii "POST", ascii "HEAD", ascii "PUT", ascii "DELETE"]

theorem methodOf_isSome_iff {m : Bytes} : (methodOf m).isSome ↔ m ∈ methods := by
  unfold methodOf methods
  grind

theorem blank_notMem_method {m : Bytes} (hm : m ∈ methods) : 32 ∉ m := by
  have hall : ∀ m ∈ methods, (32 : UInt8) ∉ m := by decide
  exact hall m hm

/-- The path of a target: what stands before a query. -/
def pathOf (target : Bytes) : Bytes := target.take (find 63 target)

/-- The path that an input's first line sets. -/
def requestPath (input : Bytes) : Option Bytes := do
  let line ← (lines input).head?
  let (_, target, _) ← words line
  some (pathOf target)

/-- What it takes for an input to set that path: a first line `METHOD target …`,
with a method the server knows, and a target that is the path, and perhaps a
query. -/
def SetsPath (input path : Bytes) : Prop :=
  ∃ m target tail, (lines input).head? = some (m ++ 32 :: (target ++ 32 :: tail)) ∧
    m ∈ methods ∧ 32 ∉ target ∧ path = pathOf target

/-- The version that an input's first line names, when it is accepted. -/
def requestVersion (input : Bytes) : Option Version := do
  let line ← (lines input).head?
  let (_, _, tail) ← words line
  versionOf tail

theorem requestPath_eq_some_iff {input path : Bytes} :
    requestPath input = some path ↔ SetsPath input path := by
  constructor
  · intro h
    obtain ⟨line, hline, h⟩ := Option.bind_eq_some_iff.mp h
    obtain ⟨⟨m, target, tail⟩, hwords, h⟩ := Option.bind_eq_some_iff.mp h
    obtain ⟨hsplit, -, ht, hm⟩ := words_eq_some_iff.mp hwords
    exact ⟨m, target, tail, hsplit ▸ hline, methodOf_isSome_iff.mp hm, ht,
      (Option.some.inj h).symm⟩
  · rintro ⟨m, target, tail, hline, hm, ht, rfl⟩
    have hwords : words (m ++ 32 :: (target ++ 32 :: tail)) = some (m, target, tail) :=
      words_eq_some_iff.mpr ⟨rfl, blank_notMem_method hm, ht, methodOf_isSome_iff.mpr hm⟩
    simp [requestPath, hline, hwords]

/-- One header line stored. -/
def storeField (m : StringMap) (line : Bytes) : StringMap :=
  let value := (line.drop (find 58 line + 1)).dropWhile isspace
  m.set (line.take (find 58 line)) (value.reverse.dropWhile isspace).reverse

/-- The header lines among the lines that follow a request line, stored. -/
def storeFields (m : StringMap) (ls : List Bytes) : StringMap :=
  (ls.takeWhile (58 ∈ ·)).foldl storeField m

/-- The header fields an input leaves. -/
def requestFields (input : Bytes) : StringMap :=
  if (requestVersion input).isSome then storeFields [] (lines input).tail else []

/-! ## The loop -/

theorem parseLoop_stopped {p : Parsing} (h : p.hasMore = false) (n : Nat) :
    parseLoop n p = some p := by
  cases n <;> simp [parseLoop, h]

theorem methodOf_valid {bs : Bytes} {m : Method} (h : methodOf bs = some m) : m ≠ .kInvalid := by
  rintro rfl
  unfold methodOf at h
  grind

/-- The first line; what it does not name stays as it was. -/
theorem processRequestLine_words {d : HttpData} (hd : d.method = .kInvalid) (line : Bytes) :
    ∃ q m, d.processRequestLine line =
      ({ d with
          method := m, query := q
          path := ((words line).map fun w => pathOf w.2.1).getD d.path
          version := ((words line).bind fun w => versionOf w.2.2).getD d.version },
        ((words line).bind fun w => versionOf w.2.2).isSome) := by
  by_cases hspace : find 32 line = line.length
  · refine ⟨d.query, d.method, ?_⟩
    simp [processRequestLine, words, cut, hspace]
  cases hm : methodOf (line.take (find 32 line)) with
  | none =>
      refine ⟨d.query, d.method, ?_⟩
      simp [processRequestLine, words, cut, hspace, setMethod, hm, hd]
  | some m =>
      have hvalid : m ≠ .kInvalid := methodOf_valid hm
      have hcut : cut 32 line
          = some (line.take (find 32 line), line.drop (find 32 line + 1)) := if_neg hspace
      generalize hrest : line.drop (find 32 line + 1) = rest at hcut
      by_cases hspace' : find 32 rest = rest.length
      · have hwords : words line = none := by
          have hcut' : cut 32 rest = none := if_pos hspace'
          simp [words, hcut, hcut']
        refine ⟨d.query, m, ?_⟩
        rw [hwords, processRequestLine, if_neg hspace, hrest, if_pos hspace']
        simp [setMethod, hm, hvalid]
      · have hwords : words line = some (line.take (find 32 line),
            rest.take (find 32 rest), rest.drop (find 32 rest + 1)) := by
          have hcut' : cut 32 rest
              = some (rest.take (find 32 rest), rest.drop (find 32 rest + 1)) := if_neg hspace'
          simp [words, hcut, hcut', hm]
        have hmethod : d.setMethod (line.take (find 32 line)) = { d with method := m } := by
          rw [setMethod, hm, Option.getD_some]
        refine ⟨(d.setTarget (rest.take (find 32 rest))).query, m, ?_⟩
        rw [hwords, processRequestLine, if_neg hspace, hmethod, if_neg hvalid, hrest,
          if_neg hspace']
        cases hv : versionOf (rest.drop (find 32 rest + 1)) <;>
          rw [Option.bind_some, Option.map_some] <;> dsimp only [setTarget] <;> rw [hv] <;>
          split <;> rfl

/-! ### One round among the header lines -/

theorem parseRound_none {p : Parsing} (hs : p.data.state = .kExpectHeaders)
    (h : findCRLF p.input = none) : parseRound p = { p with hasMore := false } := by
  simp only [parseRound, hs, h]

theorem parseRound_field {p : Parsing} {i : Nat} (hs : p.data.state = .kExpectHeaders)
    (h : findCRLF p.input = some i) (hcolon : 58 ∈ p.input.take i) :
    parseRound p = { p with
      data := p.data.addReqHeader (p.input.take i) (find 58 (p.input.take i))
      input := p.input.drop (i + 2) } := by
  simp only [parseRound, hs, h]
  rw [if_pos (mt find_eq_length_iff.mp (not_not.mpr hcolon))]

theorem parseRound_end {p : Parsing} {i : Nat} (hs : p.data.state = .kExpectHeaders)
    (h : findCRLF p.input = some i) (hcolon : 58 ∉ p.input.take i) :
    parseRound p = { p with
      data := { p.data with state := .kGotAll }
      input := p.input.drop (i + 2), hasMore := false } := by
  simp only [parseRound, hs, h]
  rw [if_neg (not_not.mpr (find_eq_length_iff.mpr hcolon))]

/-- The header lines, from where the request line has been read. -/
theorem parseLoop_fields (n : Nat) : ∀ {p : Parsing}, p.data.state = .kExpectHeaders →
    p.hasMore = true → p.input.length < n → ∃ q s, parseLoop n p = some q ∧
      q.data = { p.data with
        requestHeaders := storeFields p.data.requestHeaders (lines p.input), state := s } := by
  induction n with
  | zero => intro p _ _ hn; exact absurd hn (Nat.not_lt_zero _)
  | succ n ih =>
      intro p hs hmore hn
      rw [parseLoop, if_pos hmore]
      cases hcrlf : findCRLF p.input with
      | none =>
          refine ⟨_, p.data.state, by rw [parseRound_none hs hcrlf, parseLoop_stopped rfl], ?_⟩
          rw [lines_of_none hcrlf]
          rfl
      | some i =>
          have hbound := findCRLF_bound hcrlf
          rw [lines_of_some hcrlf, storeFields, List.takeWhile_cons]
          by_cases hcolon : 58 ∈ p.input.take i
          · have hround := parseRound_field hs hcrlf hcolon
            obtain ⟨q, s, hloop, hdata⟩ := ih (p := parseRound p) (by rw [hround]; exact hs)
              (by rw [hround]; exact hmore) (by rw [hround, List.length_drop]; omega)
            refine ⟨q, s, hloop, ?_⟩
            rw [hdata, hround, if_pos (decide_eq_true hcolon), List.foldl_cons]
            rfl
          · refine ⟨_, .kGotAll,
              by rw [parseRound_end hs hcrlf hcolon, parseLoop_stopped rfl], ?_⟩
            rw [if_neg (by simpa using hcolon)]
            rfl

/-! ## The whole call -/

/-- What `clearAllContent` resets is as it left it. -/
structure Cleared (d : HttpData) : Prop where
  requestHeaders : d.requestHeaders = []
  responseHeaders : d.responseHeaders = []
  closeConnection : d.closeConnection = false
  method : d.method = .kInvalid
  version : d.version = .kUnknownVersion
  state : d.state = .kExpectRequestLine
  statusCode : d.statusCode = .kUnknownState

theorem cleared_new : new.Cleared := ⟨rfl, rfl, rfl, rfl, rfl, rfl, rfl⟩

theorem cleared_clearAllContent (d : HttpData) : d.clearAllContent.Cleared :=
  ⟨rfl, rfl, rfl, rfl, rfl, rfl, rfl⟩

/-- The call up to the header lines: it stops at the first line, or that line
is accepted and the loop goes on after it. -/
theorem parseRequest_cases {d : HttpData} (hd : d.Cleared) (input : Bytes) :
    ∃ q m,
      (requestVersion input = none ∧ ∃ ok, d.parseRequest input = some
        ⟨{ d with method := m, query := q, path := (requestPath input).getD d.path },
          input, ok, false⟩) ∨
      ∃ i v p, findCRLF input = some i ∧ requestVersion input = some v ∧
        d.parseRequest input = parseLoop input.length p ∧
        p.data = { d with
          method := m, query := q, path := (requestPath input).getD d.path
          version := v, state := .kExpectHeaders } ∧
        p.input = input.drop (i + 2) ∧ p.hasMore = true := by
  rw [parseRequest, parseLoop, if_pos rfl]
  cases hcrlf : findCRLF input with
  | none =>
      have hround : parseRound ⟨d, input, true, true⟩ = ⟨d, input, true, false⟩ := by
        simp only [parseRound, hd.state, hcrlf]
      refine ⟨d.query, d.method, Or.inl ⟨?_, true, ?_⟩⟩
      · simp [requestVersion, lines_of_none hcrlf]
      · rw [hround, parseLoop_stopped rfl]
        simp [requestPath, lines_of_none hcrlf]
  | some i =>
      obtain ⟨q, m, hline⟩ := processRequestLine_words hd.method (input.take i)
      have hlines := lines_of_some hcrlf
      have hpath : requestPath input = (words (input.take i)).map fun w => pathOf w.2.1 := by
        rw [requestPath, hlines]
        cases hw : words (input.take i) <;> simp [hw]
      have hversion : requestVersion input
          = (words (input.take i)).bind fun w => versionOf w.2.2 := by
        rw [requestVersion, hlines]
        cases hw : words (input.take i) <;> simp [hw]
      rw [← hpath, ← hversion] at hline
      cases hv : requestVersion input with
      | none =>
          rw [hv] at hline
          refine ⟨q, m, Or.inl ⟨rfl, false, ?_⟩⟩
          have hround : parseRound ⟨d, input, true, true⟩ = ⟨{ d with
              method := m, query := q, path := (requestPath input).getD d.path
              version := d.version }, input, false, false⟩ := by
            simp only [parseRound, hd.state, hcrlf, hline]
            rfl
          rw [hround, parseLoop_stopped rfl]
      | some v =>
          rw [hv] at hline
          have hround : parseRound ⟨d, input, true, true⟩ = ⟨{ d with
              method := m, query := q, path := (requestPath input).getD d.path
              version := v, state := .kExpectHeaders }, input.drop (i + 2), true, true⟩ := by
            simp only [parseRound, hd.state, hcrlf, hline]
            rfl
          refine ⟨q, m, Or.inr ⟨i, v, _, rfl, rfl, congrArg (parseLoop input.length) hround,
            rfl, rfl, rfl⟩⟩

/-- The call returns, with what the input says in the object and the rest of
the object as it was. -/
theorem parseRequest_reads {d : HttpData} (hd : d.Cleared) (input : Bytes) :
    ∃ p q m s, d.parseRequest input = some p ∧
      p.data = { d with
        method := m, query := q, state := s, path := (requestPath input).getD d.path
        version := (requestVersion input).getD .kUnknownVersion
        requestHeaders := requestFields input } := by
  obtain ⟨q, m, ⟨hv, ok, hparse⟩ | ⟨i, v, p, hcrlf, hv, hparse, hp, hinput, hmore⟩⟩ :=
    parseRequest_cases hd input
  · refine ⟨_, q, m, d.state, hparse, ?_⟩
    simp [requestFields, hv, ← hd.version, ← hd.requestHeaders]
  · have hbound := findCRLF_bound hcrlf
    obtain ⟨r, s, hloop, hdata⟩ := parseLoop_fields input.length (by rw [hp]) hmore
      (by rw [hinput, List.length_drop]; omega)
    refine ⟨r, q, m, s, hparse.trans hloop, ?_⟩
    rw [hdata, hp, hinput, requestFields, hv, lines_of_some hcrlf, List.tail_cons,
      ← hd.requestHeaders]
    rfl

end HttpData

end WebServer
