/-
# `Http.Resume` — a request that comes in pieces

`parseRequest` keeps what it has read of a request in the object, and what it has
not read in the buffer.  So the calls made as the pieces of an input arrive end as
one call on all of it (`pieces_as_one`), as long as the request is not complete
before the last piece.

A round that finds a CRLF does the same with more bytes after it (`round_more`),
and one that finds none has changed nothing when the next call begins.  A request
line that was rejected stays in the buffer and is parsed again; it is rejected
again, and leaves the object as it left it the first time
(`processRequestLine_again`).
-/
import WebServer.Http.Grammar

namespace WebServer

theorem findCRLF_extend {a : Bytes} {i : Nat} (h : findCRLF a = some i) (b : Bytes) :
    findCRLF (a ++ b) = some i ∧ (a ++ b).take i = a.take i ∧
      (a ++ b).drop (i + 2) = a.drop (i + 2) ++ b := by
  have hbound := findCRLF_bound h
  obtain ⟨hsplit, hfree⟩ := findCRLF_split h
  refine ⟨?_, List.take_append_of_le_length (by omega), List.drop_append_of_le_length hbound⟩
  have hlength : (a.take i).length = i := by
    rw [List.length_take]
    omega
  have hfound := findCRLF_append hfree (a.drop (i + 2) ++ b)
  rw [hlength] at hfound
  rw [← hfound]
  refine congrArg findCRLF ?_
  calc a ++ b = a.take i ++ 13 :: 10 :: a.drop (i + 2) ++ b := congrArg (· ++ b) hsplit
    _ = a.take i ++ 13 :: 10 :: (a.drop (i + 2) ++ b) := List.append_assoc _ _ _

namespace HttpData

/-! ## Rounds -/

/-- The object waits for a line. -/
def Waiting (d : HttpData) : Prop := d.state = .kExpectRequestLine ∨ d.state = .kExpectHeaders

/-- The same with more unread bytes. -/
def Parsing.more (p : Parsing) (b : Bytes) : Parsing := { p with input := p.input ++ b }

theorem round_none {p : Parsing} (hw : Waiting p.data) (h : findCRLF p.input = none) :
    parseRound p = { p with hasMore := false } := by
  rcases hw with hs | hs <;> simp only [parseRound, hs, h]

theorem round_more {p : Parsing} (hw : Waiting p.data) {i : Nat} (h : findCRLF p.input = some i)
    (b : Bytes) : parseRound (p.more b) = (parseRound p).more b := by
  obtain ⟨hfound, htake, hdrop⟩ := findCRLF_extend h b
  rcases hw with hs | hs
  · simp only [parseRound, Parsing.more, hs, h, hfound, htake, hdrop]
    split <;> rfl
  · simp only [parseRound, Parsing.more, hs, h, hfound, htake, hdrop]
    split <;> rfl

/-- What a round that finds a line leaves: it goes on among the header lines, or the
request is complete, or its line was rejected. -/
theorem round_some {p : Parsing} (hw : Waiting p.data) (hmore : p.hasMore = true)
    (hok : p.ok = true) {i : Nat} (h : findCRLF p.input = some i) :
    ((parseRound p).hasMore = true ∧ (parseRound p).ok = true ∧
        (parseRound p).data.state = .kExpectHeaders ∧
        (parseRound p).input = p.input.drop (i + 2)) ∨
      ((parseRound p).hasMore = false ∧ (parseRound p).ok = true ∧
        (parseRound p).data.state = .kGotAll) ∨
      (p.data.state = .kExpectRequestLine ∧
        (p.data.processRequestLine (p.input.take i)).2 = false ∧
        parseRound p =
          ⟨(p.data.processRequestLine (p.input.take i)).1, p.input, false, false⟩) := by
  rcases hw with hs | hs
  · cases hline : (p.data.processRequestLine (p.input.take i)).2 with
    | true =>
        left
        simp [parseRound, hs, h, hline, hmore]
    | false =>
        right
        right
        simp [parseRound, hs, h, hline]
  · by_cases hcolon : 58 ∈ p.input.take i
    · left
      rw [parseRound_field hs h hcolon]
      exact ⟨hmore, hok, hs, rfl⟩
    · right
      left
      rw [parseRound_end hs h hcolon]
      exact ⟨rfl, hok, rfl⟩

/-! ## A rejected line -/

theorem setMethod_again (d : HttpData) (word : Bytes) :
    (d.setMethod word).setMethod word = d.setMethod word := by
  cases hm : methodOf word <;> simp [setMethod, hm]

/-- The method and the target, set a second time. -/
theorem setTarget_again (d : HttpData) (word target : Bytes) :
    ((d.setMethod word).setTarget target).setMethod word = (d.setMethod word).setTarget target ∧
      ((d.setMethod word).setTarget target).setTarget target =
        (d.setMethod word).setTarget target ∧
      ((d.setMethod word).setTarget target).method = (d.setMethod word).method := by
  by_cases hquery : find 63 target = target.length
  · cases hm : methodOf word <;> simp [setMethod, setTarget, hm, hquery]
  · cases hm : methodOf word <;> simp [setMethod, setTarget, hm, hquery]

/-- A rejected request line is rejected again, and changes nothing. -/
theorem processRequestLine_again {d : HttpData} {line : Bytes}
    (h : (d.processRequestLine line).2 = false) :
    (d.processRequestLine line).1.processRequestLine line =
      ((d.processRequestLine line).1, false) := by
  obtain ⟨r, hr⟩ : ∃ r, d.processRequestLine line = r := ⟨_, rfl⟩
  rw [hr] at h ⊢
  rw [processRequestLine] at hr
  by_cases hspace : find 32 line = line.length
  · rw [if_pos hspace] at hr
    subst hr
    rw [processRequestLine, if_pos hspace]
  rw [if_neg hspace] at hr
  by_cases hmethod : (d.setMethod (line.take (find 32 line))).method = .kInvalid
  · rw [if_pos hmethod] at hr
    subst hr
    rw [processRequestLine, if_neg hspace, setMethod_again, if_pos hmethod]
  rw [if_neg hmethod] at hr
  dsimp only at hr
  by_cases hspace' : find 32 (line.drop (find 32 line + 1)) =
      (line.drop (find 32 line + 1)).length
  · rw [if_pos hspace'] at hr
    subst hr
    rw [processRequestLine, if_neg hspace, setMethod_again, if_neg hmethod]
    exact if_pos hspace'
  rw [if_neg hspace'] at hr
  cases hv : versionOf ((line.drop (find 32 line + 1)).drop
      (find 32 (line.drop (find 32 line + 1)) + 1)) with
  | some v =>
      rw [hv] at hr
      subst hr
      cases h
  | none =>
      rw [hv] at hr
      subst hr
      obtain ⟨hsame, htarget, hkept⟩ := setTarget_again d (line.take (find 32 line))
        ((line.drop (find 32 line + 1)).take (find 32 (line.drop (find 32 line + 1))))
      rw [processRequestLine, if_neg hspace, hsame, if_neg (hkept ▸ hmethod)]
      dsimp only
      rw [if_neg hspace', htarget, hv]

theorem processRequestLine_state (d : HttpData) (line : Bytes) :
    (d.processRequestLine line).1.state = d.state := by
  have htarget (e : HttpData) (target : Bytes) : (e.setTarget target).state = e.state := by
    rw [setTarget]
    split <;> rfl
  simp only [processRequestLine]
  split
  · rfl
  split
  · rfl
  split
  · rfl
  split
  · exact htarget _ _
  · exact htarget _ _

/-! ## The loop -/

/-- Runs of the loop that end, end in the same way. -/
theorem parseLoop_unique (n : Nat) : ∀ {m : Nat} {p q r : Parsing}, parseLoop n p = some q →
    parseLoop m p = some r → q = r := by
  induction n with
  | zero =>
      intro m p q r hq hr
      rw [parseLoop] at hq
      split at hq
      · cases hq
      · rename_i hmore
        cases hq
        exact Option.some.inj
          ((parseLoop_stopped (Bool.eq_false_iff.mpr hmore) m).symm.trans hr)
  | succ n ih =>
      intro m p q r hq hr
      rw [parseLoop] at hq
      split at hq
      · rename_i hmore
        cases m with
        | zero =>
            rw [parseLoop, if_pos hmore] at hr
            cases hr
        | succ m =>
            rw [parseLoop, if_pos hmore] at hr
            exact ih hq hr
      · rename_i hmore
        cases hq
        exact Option.some.inj
          ((parseLoop_stopped (Bool.eq_false_iff.mpr hmore) m).symm.trans hr)

/-- The loop ends, with the request complete and no line rejected, or waiting for a
line. -/
theorem parseLoop_waits (n : Nat) : ∀ {p : Parsing}, Waiting p.data → p.hasMore = true →
    p.ok = true → p.input.length < n →
    ∃ q, parseLoop n p = some q ∧
      ((q.data.state = .kGotAll ∧ q.ok = true) ∨ Waiting q.data) := by
  induction n with
  | zero => exact fun _ _ _ h => absurd h (Nat.not_lt_zero _)
  | succ n ih =>
      intro p hw hmore hok hn
      rw [parseLoop, if_pos hmore]
      cases hcrlf : findCRLF p.input with
      | none =>
          rw [round_none hw hcrlf, parseLoop_stopped rfl]
          exact ⟨_, rfl, Or.inr hw⟩
      | some i =>
          have hbound := findCRLF_bound hcrlf
          rcases round_some hw hmore hok hcrlf with
            ⟨hmore', hok', hs, hinput⟩ | ⟨hdone, hok', hgot⟩ | ⟨hs, hfail, hround⟩
          · refine ih (Or.inr hs) hmore' hok' ?_
            rw [hinput, List.length_drop]
            omega
          · rw [parseLoop_stopped hdone]
            exact ⟨_, rfl, Or.inl ⟨hgot, hok'⟩⟩
          · rw [hround, parseLoop_stopped rfl]
            exact ⟨_, rfl, Or.inr (Or.inl ((processRequestLine_state _ _).trans hs))⟩

/-- What a run leaves, taken up again with more bytes, ends as the run does on all of
them. -/
theorem parseLoop_resumes {b : Bytes} {m : Nat} {r : Parsing} (n : Nat) : ∀ {p q : Parsing},
    Waiting p.data → p.hasMore = true → p.ok = true → parseLoop n p = some q →
    q.data.state ≠ .kGotAll → parseLoop (m + 1) ⟨q.data, q.input ++ b, true, true⟩ = some r →
    ∃ k, parseLoop k (p.more b) = some r := by
  induction n with
  | zero =>
      intro p q _ hmore _ hq
      rw [parseLoop, if_pos hmore] at hq
      cases hq
  | succ n ih =>
      intro p q hw hmore hok hq hopen hr
      rw [parseLoop, if_pos hmore] at hq
      cases hcrlf : findCRLF p.input with
      | none =>
          rw [round_none hw hcrlf, parseLoop_stopped rfl] at hq
          cases hq
          refine ⟨m + 1, ?_⟩
          rw [← hr, Parsing.more, hok, hmore]
      | some i =>
          have hagain : ∀ k, parseLoop (k + 1) (p.more b) = parseLoop k ((parseRound p).more b) := by
            intro k
            rw [parseLoop, if_pos (show (p.more b).hasMore = true from hmore), round_more hw hcrlf]
          rcases round_some hw hmore hok hcrlf with
            ⟨hmore', hok', hs, -⟩ | ⟨hdone, -, hgot⟩ | ⟨hs, hfail, hround⟩
          · obtain ⟨k, hk⟩ := ih (Or.inr hs) hmore' hok' hq hopen hr
            exact ⟨k + 1, (hagain k).trans hk⟩
          · rw [parseLoop_stopped hdone] at hq
            cases hq
            exact absurd hgot hopen
          · -- the line is still there, and is rejected once more
            rw [hround, parseLoop_stopped rfl] at hq
            cases hq
            have hstate := (processRequestLine_state p.data (p.input.take i)).trans hs
            obtain ⟨hfound, htake, -⟩ := findCRLF_extend hcrlf b
            have hsecond : parseRound ⟨(p.data.processRequestLine (p.input.take i)).1,
                p.input ++ b, true, true⟩ =
                ⟨(p.data.processRequestLine (p.input.take i)).1, p.input ++ b, false, false⟩ := by
              simp only [parseRound, hstate, hfound, htake, processRequestLine_again hfail]
              rfl
            rw [parseLoop, if_pos rfl, hsecond, parseLoop_stopped rfl] at hr
            refine ⟨1, (hagain 0).trans ?_⟩
            rw [hround, ← hr]
            rfl

/-! ## The calls -/

theorem parseRequest_waits {d : HttpData} (hd : Waiting d) (input : Bytes) :
    ∃ p, d.parseRequest input = some p ∧
      ((p.data.state = .kGotAll ∧ p.ok = true) ∨ Waiting p.data) :=
  parseLoop_waits _ hd rfl rfl (Nat.lt_succ_self _)

/-- A call that does not complete the request, and one after more bytes have come,
are one call. -/
theorem parseRequest_resumes {d : HttpData} (hd : Waiting d) {a : Bytes} {p : Parsing}
    (hp : d.parseRequest a = some p) (hopen : p.data.state ≠ .kGotAll) (b : Bytes) :
    p.data.parseRequest (p.input ++ b) = d.parseRequest (a ++ b) := by
  obtain ⟨p', hp', hw⟩ := parseRequest_waits hd a
  cases hp.symm.trans hp'
  obtain ⟨r, hr, -⟩ :=
    parseRequest_waits (hw.resolve_left fun hgot => hopen hgot.1) (p.input ++ b)
  obtain ⟨r', hr', -⟩ := parseRequest_waits hd (a ++ b)
  obtain ⟨k, hk⟩ := parseLoop_resumes _ hd rfl rfl hp hopen hr
  rw [hr, hr']
  exact congrArg some (parseLoop_unique k hk hr')

/-- The calls made as an input arrives in pieces, each after its piece. -/
def parsePieces (d : HttpData) (a : Bytes) : List Bytes → Option Parsing
  | [] => d.parseRequest a
  | b :: bs => (d.parseRequest a).bind fun p => parsePieces p.data (p.input ++ b) bs

theorem parsePieces_congr {d e : HttpData} {a b : Bytes}
    (h : d.parseRequest a = e.parseRequest b) (bs : List Bytes) :
    parsePieces d a bs = parsePieces e b bs := by
  cases bs with
  | nil => exact h
  | cons c bs => rw [parsePieces, parsePieces, h]

theorem parsePieces_eq {d : HttpData} (hd : Waiting d) {a : Bytes} {bs : List Bytes}
    (hopen : ∀ k < bs.length, ∀ p, parsePieces d a (bs.take k) = some p →
      p.data.state ≠ .kGotAll) :
    parsePieces d a bs = d.parseRequest (a ++ bs.flatten) := by
  induction bs generalizing a with
  | nil => rw [parsePieces, List.flatten_nil, List.append_nil]
  | cons b bs ih =>
      obtain ⟨p, hp, -⟩ := parseRequest_waits hd a
      have hfirst : p.data.state ≠ .kGotAll := hopen 0 (Nat.zero_lt_succ _) p hp
      have hone : ∀ cs, parsePieces d a (b :: cs) = parsePieces d (a ++ b) cs := by
        intro cs
        rw [parsePieces, hp]
        exact parsePieces_congr (parseRequest_resumes hd hp hfirst b) cs
      rw [hone, List.flatten_cons, ← List.append_assoc]
      refine ih ?_
      intro k hk p' hp'
      exact hopen (k + 1) (Nat.succ_lt_succ hk) p' ((hone (bs.take k)).trans hp')

/-- The calls on the pieces of an input end as one call on all of it, where the
request is not complete before the last piece: in the same value returned, the same
object and the same unread bytes. -/
theorem pieces_as_one {d : HttpData} (hd : d.Cleared) {a : Bytes} {bs : List Bytes}
    (hopen : ∀ k < bs.length, ∀ p, parsePieces d a (bs.take k) = some p →
      p.data.state ≠ .kGotAll) :
    ∃ p, parsePieces d a bs = some p ∧ d.parseRequest (a ++ bs.flatten) = some p := by
  have hw : Waiting d := Or.inl hd.state
  obtain ⟨p, hp, -⟩ := parseRequest_waits hw (a ++ bs.flatten)
  exact ⟨p, (parsePieces_eq hw hopen).trans hp, hp⟩

/-- A request cut between the bytes of a CRLF, and after its request line. -/
theorem pieces_as_one_cut : ∃ p,
    parsePieces new (ascii "GET / HTTP/1.1\r") [ascii "\n", ascii "A: b\r\n\r\n"] = some p ∧
    new.parseRequest (ascii "GET / HTTP/1.1\r\nA: b\r\n\r\n") = some p := by
  have hall : ∀ k ∈ [0, 1], (parsePieces new (ascii "GET / HTTP/1.1\r")
      ([ascii "\n", ascii "A: b\r\n\r\n"].take k)).map (fun p => decide
        (p.data.state = .kGotAll)) = some false := by decide
  obtain ⟨p, hpieces, hone⟩ := @pieces_as_one new cleared_new (ascii "GET / HTTP/1.1\r")
    [ascii "\n", ascii "A: b\r\n\r\n"] <| by
      intro k hk p hp
      have hmem : k ∈ [0, 1] := by
        simp only [List.length_cons, List.length_nil] at hk
        simp only [List.mem_cons, List.not_mem_nil, or_false]
        omega
      have hstate := hall k hmem
      rw [hp, Option.map_some] at hstate
      exact of_decide_eq_false (Option.some.inj hstate)
  refine ⟨p, hpieces, ?_⟩
  rw [← hone]
  exact congrArg _ (by decide)

end HttpData

end WebServer
