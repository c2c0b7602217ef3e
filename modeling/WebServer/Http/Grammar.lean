/-
# `Http.Grammar` — the inputs that `parseRequest` accepts

The grammar of a request, over bytes:

    METHOD target HTTP/1.0|HTTP/1.1 CRLF
    field:value CRLF                        (any number of these)
    CRLF
    rest

`parseRequest` takes the header lines to end at the first line without a colon,
and does not look at that line.  So it accepts every request, and what it leaves
in the buffer is the rest; and it accepts as well what ends in a line that is
neither a field nor empty (`Headed`, with that line as a parameter).  A request
line and `abc` are a complete request to it.

`exact_iff` says that this is the only difference.
-/
import WebServer.Http.Parse

namespace WebServer

/-! ## Parts that end in CRLF -/

/-- The parts, each with a CRLF after it, and then `rest`. -/
def join (parts : List Bytes) (rest : Bytes) : Bytes := parts.flatMap (· ++ crlf) ++ rest

theorem join_cons (part : Bytes) (parts : List Bytes) (rest : Bytes) :
    join (part :: parts) rest = part ++ 13 :: 10 :: join parts rest := by
  simp [join, crlf]

theorem join_inj {parts : List Bytes} {rest rest' : Bytes}
    (h : join parts rest = join parts rest') : rest = rest' :=
  List.append_cancel_left h

theorem lines_join {parts : List Bytes} (h : ∀ part ∈ parts, findCRLF part = none)
    (rest : Bytes) : lines (join parts rest) = parts ++ lines rest := by
  induction parts with
  | nil => rfl
  | cons part parts ih =>
      have hpart := h part List.mem_cons_self
      have hparts := ih fun part' hmem => h part' (List.mem_cons_of_mem part hmem)
      rw [join_cons, lines_append hpart, hparts, List.cons_append]

/-- A CRLF that is found is there, and there is none before it. -/
theorem findCRLF_split : ∀ {bs : Bytes} {i : Nat}, findCRLF bs = some i →
    bs = bs.take i ++ 13 :: 10 :: bs.drop (i + 2) ∧ findCRLF (bs.take i) = none := by
  intro bs
  induction bs with
  | nil => intro i h; exact absurd h nofun
  | cons a bs ih =>
      intro i h
      cases bs with
      | nil => exact absurd h nofun
      | cons b rest =>
          rw [findCRLF] at h
          split at h
          · rename_i heq
            cases h
            exact ⟨by rw [heq.1, heq.2]; rfl, rfl⟩
          · rename_i hne
            obtain ⟨j, hj, rfl⟩ := Option.map_eq_some_iff.mp h
            obtain ⟨hsplit, hfree⟩ := ih hj
            refine ⟨congrArg (a :: ·) hsplit, ?_⟩
            cases j with
            | zero => rfl
            | succ j =>
                rw [List.take_succ_cons] at hfree
                rw [List.take_succ_cons, List.take_succ_cons, findCRLF, if_neg hne, hfree]
                rfl

/-- The first part that fails a test is in the same place in both. -/
theorem append_cons_inj_of_pos {α : Type} {f : α → Bool} {as as' bs bs' : List α} {b b' : α}
    (h : as ++ b :: bs = as' ++ b' :: bs') (has : ∀ a ∈ as, f a) (has' : ∀ a ∈ as', f a)
    (hb : ¬ f b) (hb' : ¬ f b') : as = as' ∧ b = b' := by
  have htake := congrArg (List.takeWhile f) h
  rw [List.takeWhile_append_of_pos has, List.takeWhile_append_of_pos has',
    List.takeWhile_cons_of_neg hb, List.takeWhile_cons_of_neg hb', List.append_nil,
    List.append_nil] at htake
  subst htake
  exact ⟨rfl, (List.cons.inj (List.append_cancel_left h)).1⟩

namespace HttpData

/-! ## The grammar -/

/-- `METHOD target HTTP/1.0`, or `1.1`. -/
def RequestLine (line : Bytes) : Prop :=
  ∃ m target v, m ∈ methods ∧ 32 ∉ target ∧ (v = ascii "HTTP/1.0" ∨ v = ascii "HTTP/1.1") ∧
    line = m ++ 32 :: (target ++ 32 :: v)

/-- A request, and the bytes after it. -/
def Grammar (input rest : Bytes) : Prop :=
  ∃ line fields, RequestLine line ∧ findCRLF line = none ∧
    (∀ h ∈ fields, h ≠ [] ∧ 58 ∈ h ∧ findCRLF h = none) ∧
    input = join (line :: fields ++ [[]]) rest

/-- A request line and header fields up to `last`, a line without a colon. -/
def Headed (last input rest : Bytes) : Prop :=
  ∃ line fields, RequestLine line ∧ findCRLF line = none ∧
    (∀ h ∈ fields, 58 ∈ h ∧ findCRLF h = none) ∧ (58 ∉ last ∧ findCRLF last = none) ∧
    input = join (line :: fields ++ [last]) rest

/-- `parseRequest` accepts a request and nothing else, and leaves what follows it. -/
def Exact (d : HttpData) (input : Bytes) : Prop :=
  ∃ p, d.parseRequest input = some p ∧
    (p.data.state = .kGotAll ↔ ∃ rest, Grammar input rest) ∧
    ∀ rest, Grammar input rest → p.input = rest

/-- The line that ends the header fields is empty, where there is one. -/
def BlankEnds (input : Bytes) : Prop := ∀ last rest, Headed last input rest → last = []

theorem headed_nil_iff {input rest : Bytes} : Headed [] input rest ↔ Grammar input rest := by
  constructor
  · rintro ⟨line, fields, hline, hfree, hfields, -, hinput⟩
    refine ⟨line, fields, hline, hfree, fun h hmem => ?_, hinput⟩
    exact ⟨List.ne_nil_of_mem (hfields h hmem).1, hfields h hmem⟩
  · rintro ⟨line, fields, hline, hfree, hfields, hinput⟩
    exact ⟨line, fields, hline, hfree, fun h hmem => (hfields h hmem).2,
      ⟨List.not_mem_nil, rfl⟩, hinput⟩

/-- The lines of such an input. -/
theorem lines_of_headed {last input rest : Bytes} (h : Headed last input rest) :
    ∃ line fields, RequestLine line ∧ (∀ h ∈ fields, 58 ∈ h) ∧
      input = join (line :: fields ++ [last]) rest ∧
      lines input = line :: (fields ++ last :: lines rest) := by
  obtain ⟨line, fields, hline, hfree, hfields, hlast, rfl⟩ := h
  refine ⟨line, fields, hline, fun h hmem => (hfields h hmem).1, rfl, ?_⟩
  have hparts : ∀ part ∈ line :: fields ++ [last], findCRLF part = none := by
    intro part hmem
    rcases List.mem_append.mp hmem with hmem | hmem
    · rcases List.mem_cons.mp hmem with rfl | hmem
      · exact hfree
      · exact (hfields part hmem).2
    · exact List.mem_singleton.mp hmem ▸ hlast.2
  rw [lines_join hparts, List.cons_append, List.cons_append, List.append_assoc]
  rfl

/-- The line that ends the fields, and what follows it, are determined. -/
theorem headed_unique {last last' input rest rest' : Bytes} (h : Headed last input rest)
    (h' : Headed last' input rest') : last = last' ∧ rest = rest' := by
  obtain ⟨-, -, -, -, -, ⟨hcolon, -⟩, -⟩ := id h
  obtain ⟨-, -, -, -, -, ⟨hcolon', -⟩, -⟩ := id h'
  obtain ⟨line, fields, -, hfields, hinput, hlines⟩ := lines_of_headed h
  obtain ⟨line', fields', -, hfields', hinput', hlines'⟩ := lines_of_headed h'
  obtain ⟨rfl, hrest⟩ := List.cons.inj (hlines.symm.trans hlines')
  obtain ⟨rfl, rfl⟩ := append_cons_inj_of_pos (f := fun l => decide (58 ∈ l)) hrest
    (fun a ha => decide_eq_true (hfields a ha)) (fun a ha => decide_eq_true (hfields' a ha))
    (by simpa using hcolon) (by simpa using hcolon')
  exact ⟨rfl, join_inj (hinput.symm.trans hinput')⟩

/-! ## The request line -/

theorem versionOf_isSome_iff {bs : Bytes} :
    (versionOf bs).isSome ↔ bs = ascii "HTTP/1.0" ∨ bs = ascii "HTTP/1.1" := by
  constructor
  · intro h
    unfold versionOf at h
    split at h
    · rename_i hprefix
      obtain ⟨hlen, htake⟩ := hprefix
      have hsplit : ∀ b, bs.getLast? = some b → bs = ascii "HTTP/1." ++ [b] := by
        intro b hb
        have hdrop := List.dropLast_append_getLast? b hb
        rw [List.dropLast_eq_take, hlen, htake] at hdrop
        exact hdrop.symm
      split at h
      · rename_i hb
        exact Or.inr ((hsplit 49 hb).trans (by decide))
      · split at h
        · rename_i hb
          exact Or.inl ((hsplit 48 hb).trans (by decide))
        · exact absurd h nofun
    · exact absurd h nofun
  · rintro (rfl | rfl)
    · decide
    · decide

theorem requestLine_iff {line : Bytes} :
    RequestLine line ↔ ((words line).bind fun w => versionOf w.2.2).isSome := by
  constructor
  · rintro ⟨m, target, v, hm, htarget, hv, rfl⟩
    have hwords : words (m ++ 32 :: (target ++ 32 :: v)) = some (m, target, v) :=
      words_eq_some_iff.mpr
        ⟨rfl, blank_notMem_method hm, htarget, methodOf_isSome_iff.mpr hm⟩
    rw [hwords]
    exact versionOf_isSome_iff.mpr hv
  · intro h
    obtain ⟨v, hv⟩ := Option.isSome_iff_exists.mp h
    obtain ⟨⟨m, target, tail⟩, hwords, hversion⟩ := Option.bind_eq_some_iff.mp hv
    obtain ⟨hline, -, htarget, hm⟩ := words_eq_some_iff.mp hwords
    exact ⟨m, target, tail, methodOf_isSome_iff.mp hm, htarget,
      versionOf_isSome_iff.mp (Option.isSome_of_eq_some hversion), hline⟩

theorem requestVersion_of_cons {input line : Bytes} {ls : List Bytes}
    (h : lines input = line :: ls) :
    requestVersion input = (words line).bind fun w => versionOf w.2.2 := by
  rw [requestVersion, h]
  cases hw : words line <;> simp [hw]

/-! ## The loop -/

/-- The header lines: the loop stops after the first line without a colon, or
there is none. -/
theorem parseLoop_ends (n : Nat) : ∀ {p : Parsing}, p.data.state = .kExpectHeaders →
    p.hasMore = true → p.input.length < n → ∃ q, parseLoop n p = some q ∧
      ((q.data.state = .kGotAll ∧ ∃ fields last, (∀ h ∈ fields, 58 ∈ h ∧ findCRLF h = none) ∧
          (58 ∉ last ∧ findCRLF last = none) ∧ p.input = join (fields ++ [last]) q.input) ∨
        q.data.state = .kExpectHeaders ∧ ∀ l ∈ lines p.input, 58 ∈ l) := by
  induction n with
  | zero => intro p _ _ hn; exact absurd hn (Nat.not_lt_zero _)
  | succ n ih =>
      intro p hs hmore hn
      rw [parseLoop, if_pos hmore]
      cases hcrlf : findCRLF p.input with
      | none =>
          refine ⟨{ p with hasMore := false },
            by rw [parseRound_none hs hcrlf, parseLoop_stopped rfl], Or.inr ⟨hs, ?_⟩⟩
          rw [lines_of_none hcrlf]
          exact fun l hl => absurd hl List.not_mem_nil
      | some i =>
          have hbound := findCRLF_bound hcrlf
          obtain ⟨hsplit, hfree⟩ := findCRLF_split hcrlf
          by_cases hcolon : 58 ∈ p.input.take i
          · have hround := parseRound_field hs hcrlf hcolon
            obtain ⟨q, hloop, hq⟩ := ih (p := parseRound p) (by rw [hround]; exact hs)
              (by rw [hround]; exact hmore) (by rw [hround, List.length_drop]; omega)
            have hinput : (parseRound p).input = p.input.drop (i + 2) := by rw [hround]
            rw [hinput] at hq
            refine ⟨q, hloop, ?_⟩
            rcases hq with ⟨hgot, fields, last, hfields, hlast, hrest⟩ | ⟨hexpect, hall⟩
            · refine Or.inl ⟨hgot, p.input.take i :: fields, last, ?_, hlast, ?_⟩
              · intro h hmem
                rcases List.mem_cons.mp hmem with rfl | hmem
                · exact ⟨hcolon, hfree⟩
                · exact hfields h hmem
              · rw [List.cons_append, join_cons, ← hrest]
                exact hsplit
            · refine Or.inr ⟨hexpect, fun l hl => ?_⟩
              rw [lines_of_some hcrlf] at hl
              rcases List.mem_cons.mp hl with rfl | hl
              · exact hcolon
              · exact hall l hl
          · refine ⟨_, by rw [parseRound_end hs hcrlf hcolon, parseLoop_stopped rfl],
              Or.inl ⟨rfl, [], p.input.take i, fun h hmem => absurd hmem List.not_mem_nil,
                ⟨hcolon, hfree⟩, ?_⟩⟩
            rw [List.nil_append, join_cons]
            exact hsplit

/-- The call ends after the line that ends the header fields, or it has not got
all and there is no such line. -/
theorem parseRequest_ends {d : HttpData} (hd : d.Cleared) (input : Bytes) :
    ∃ p, d.parseRequest input = some p ∧
      ((p.data.state = .kGotAll ∧ ∃ last, Headed last input p.input) ∨
        p.data.state ≠ .kGotAll ∧ ∀ last rest, ¬ Headed last input rest) := by
  obtain ⟨q, m, ⟨hv, ok, hparse⟩ | ⟨i, v, p, hcrlf, hv, hparse, hp, hinput, hmore⟩⟩ :=
    parseRequest_cases hd input
  · refine ⟨_, hparse, Or.inr ⟨?_, ?_⟩⟩
    · exact fun hgot => absurd (hd.state.symm.trans hgot) nofun
    · intro last rest h
      obtain ⟨line, fields, hline, -, -, hlines⟩ := lines_of_headed h
      have hsome := requestLine_iff.mp hline
      rw [← requestVersion_of_cons hlines, hv] at hsome
      exact absurd hsome nofun
  · have hbound := findCRLF_bound hcrlf
    have hlines := lines_of_some hcrlf
    obtain ⟨hsplit, hfree⟩ := findCRLF_split hcrlf
    obtain ⟨r, hloop, hr⟩ := parseLoop_ends input.length (by rw [hp]) hmore
      (by rw [hinput, List.length_drop]; omega)
    rw [hinput] at hr
    refine ⟨r, hparse.trans hloop, ?_⟩
    rcases hr with ⟨hgot, fields, last, hfields, hlast, hrest⟩ | ⟨hexpect, hall⟩
    · have hline : RequestLine (input.take i) := by
        rw [requestLine_iff, ← requestVersion_of_cons hlines, hv]
        rfl
      refine Or.inl ⟨hgot, last, input.take i, fields, hline, hfree, hfields, hlast, ?_⟩
      rw [List.cons_append, join_cons, ← hrest]
      exact hsplit
    · refine Or.inr ⟨fun hgot => absurd (hexpect.symm.trans hgot) nofun, ?_⟩
      intro last rest h
      obtain ⟨-, -, -, -, -, ⟨hcolon, -⟩, -⟩ := id h
      obtain ⟨line, fields, -, -, -, hlines'⟩ := lines_of_headed h
      have htail := (List.cons.inj (hlines.symm.trans hlines')).2
      have hmem : last ∈ lines (input.drop (i + 2)) := by
        rw [htail]
        exact List.mem_append_right fields List.mem_cons_self
      exact hcolon (hall last hmem)

/-! ## The inputs on which it is exact -/

/-- `parseRequest` is exact on an input just when no line but an empty one ends
the header fields there. -/
theorem exact_iff (d : HttpData) (input : Bytes) :
    Exact d.clearAllContent input ↔ BlankEnds input := by
  obtain ⟨p, hparse, hends⟩ := parseRequest_ends (cleared_clearAllContent d) input
  constructor
  · rintro ⟨p', hparse', hgot, -⟩ last rest h
    obtain rfl : p = p' := Option.some.inj (hparse.symm.trans hparse')
    rcases hends with ⟨hstate, -⟩ | ⟨-, hnone⟩
    · obtain ⟨rest', hgrammar⟩ := hgot.mp hstate
      exact (headed_unique h (headed_nil_iff.mpr hgrammar)).1
    · exact absurd h (hnone last rest)
  · intro hblank
    rcases hends with ⟨hstate, last, hlast⟩ | ⟨hstate, hnone⟩
    · obtain rfl := hblank last p.input hlast
      refine ⟨p, hparse, iff_of_true hstate ⟨p.input, headed_nil_iff.mp hlast⟩, ?_⟩
      exact fun rest hrest => (headed_unique hlast (headed_nil_iff.mpr hrest)).2
    · have hno : ∀ rest, ¬ Grammar input rest :=
        fun rest hrest => hnone [] rest (headed_nil_iff.mpr hrest)
      exact ⟨p, hparse, iff_of_false hstate fun ⟨rest, hrest⟩ => hno rest hrest,
        fun rest hrest => absurd hrest (hno rest)⟩

/-- `GET / HTTP/1.1` and `abc`: all of it is taken, and it is no request. -/
theorem exact_fails : ¬ ∀ (d : HttpData) (input : Bytes), Exact d.clearAllContent input := by
  intro hall
  obtain ⟨p, hparse, hgot, -⟩ := hall new (ascii "GET / HTTP/1.1\r\nabc\r\n")
  have hstate : (new.clearAllContent.parseRequest (ascii "GET / HTTP/1.1\r\nabc\r\n")).map
      (fun p => decide (p.data.state = .kGotAll)) = some true := by decide
  rw [hparse, Option.map_some, Option.some.injEq, decide_eq_true_eq] at hstate
  obtain ⟨rest, hgrammar⟩ := hgot.mp hstate
  have habc : Headed (ascii "abc") (ascii "GET / HTTP/1.1\r\nabc\r\n") [] :=
    ⟨ascii "GET / HTTP/1.1", [],
      ⟨ascii "GET", ascii "/", ascii "HTTP/1.1", by decide, by decide,
        Or.inr rfl, by decide⟩,
      by decide, fun h hmem => absurd hmem List.not_mem_nil,
      ⟨by decide, by decide⟩, by decide⟩
  have hempty := (headed_unique habc (headed_nil_iff.mpr hgrammar)).1
  exact absurd hempty (by decide)

end HttpData

end WebServer
