/-
# `Http.Response` — the message a response should be, and the bytes it is

`message d` is the HTTP/1.1 message for the response stored in an object: status
line, header lines, an empty line, the body.  `appendToBuffer` writes its status
line into a 32-byte array and appends the whole array, so the text is followed
by NULs where a space should be, whatever the code and the message are
(`padded_ne_statusLine`): what is appended never even begins with the status
line (`never_message`).
-/
import WebServer.Http.HttpData

namespace WebServer

namespace HttpData

/-! ## The message -/

def statusLine (d : HttpData) : Bytes :=
  ascii "HTTP/1.1 " ++ decimal d.statusCode.code ++ ascii " " ++ d.statusMessage ++ crlf

def headerLine (e : Bytes × Bytes) : Bytes := e.1 ++ ascii ": " ++ e.2 ++ crlf

/-- A response that keeps the connection says how long its body is. -/
def headerLines (d : HttpData) : Bytes :=
  (if d.closeConnection then ascii "Connection: close" ++ crlf
    else ascii "Content-Length: " ++ decimal d.body.length ++ crlf ++
      ascii "Connection: Keep-Alive" ++ crlf) ++ d.responseHeaders.flatMap headerLine

def message (d : HttpData) : Bytes := d.statusLine ++ d.headerLines ++ crlf ++ d.body

/-- Neither a carriage return nor a line feed. -/
def OneLine (bs : Bytes) : Prop := 13 ∉ bs ∧ 10 ∉ bs

/-- A response that fits in a message: every text is of one line, and the body
is shorter than 10^12 bytes. -/
structure Sendable (d : HttpData) : Prop where
  message : OneLine d.statusMessage
  headers : ∀ e ∈ d.responseHeaders, OneLine e.1 ∧ OneLine e.2
  body : d.body.length < 10 ^ 12

/-! ## The bytes -/

theorem append_grows {piece output out : Bytes} (h : append piece output = some out) :
    output <+: out := by
  obtain ⟨-, hout⟩ := Option.ite_none_right_eq_some.mp h
  cases hout
  exact List.prefix_append _ _

theorem appendHeader_grows {e : Bytes × Bytes} {output out : Bytes}
    (h : appendHeader output e = some out) : output <+: out := by
  obtain ⟨out₃, h₃, h₄⟩ := Option.bind_eq_some_iff.mp h
  obtain ⟨out₂, h₂, h₃⟩ := Option.bind_eq_some_iff.mp h₃
  obtain ⟨out₁, h₁, h₂⟩ := Option.bind_eq_some_iff.mp h₂
  exact (append_grows h₁).trans ((append_grows h₂).trans ((append_grows h₃).trans
    (append_grows h₄)))

theorem headers_grow (m : StringMap) : ∀ {output out : Bytes},
    m.foldlM appendHeader output = some out → output <+: out := by
  induction m with
  | nil =>
      intro output out h
      cases h
      exact List.prefix_refl _
  | cons e m ih =>
      intro output out h
      rw [List.foldlM_cons] at h
      obtain ⟨next, hfirst, hrest⟩ := Option.bind_eq_some_iff.mp h
      exact (appendHeader_grows hfirst).trans (ih hrest)

/-- Everything appended comes after the 32 bytes of the array. -/
theorem appendToBuffer_grows {d : HttpData} {output out : Bytes}
    (h : d.appendToBuffer output = some out) :
    output ++ strncpy (snprintf (ascii "HTTP/1.1 " ++ decimal d.statusCode.code)) 32 <+: out := by
  obtain ⟨out₁, h₁, h⟩ := Option.bind_eq_some_iff.mp h
  obtain ⟨out₂, h₂, h⟩ := Option.bind_eq_some_iff.mp h
  have hrest : ∀ {o : Bytes}, (do
      let o ← d.responseHeaders.foldlM appendHeader o
      let o ← append crlf o
      append d.body o) = some out → o <+: out := by
    intro o ho
    obtain ⟨o₁, h₃, ho⟩ := Option.bind_eq_some_iff.mp ho
    obtain ⟨o₂, h₄, ho⟩ := Option.bind_eq_some_iff.mp ho
    exact (headers_grow _ h₃).trans ((append_grows h₄).trans (append_grows ho))
  have hconnection : out₂ <+: out := by
    dsimp only at h
    split at h
    · obtain ⟨out₃, h₃, h⟩ := Option.bind_eq_some_iff.mp h
      exact (append_grows h₃).trans (hrest h)
    · obtain ⟨out₃, h₃, h⟩ := Option.bind_eq_some_iff.mp h
      exact (List.prefix_append _ _).trans ((append_grows h₃).trans (hrest h))
  exact (append_grows h₁).trans ((append_grows h₂).trans hconnection)

/-- A text shorter than the array, in the array. -/
theorem strncpy_snprintf {text : Bytes} (hlen : text.length < 32) (h0 : 0 ∉ text) :
    strncpy (snprintf text) 32 = text ++ List.replicate (32 - text.length) 0 := by
  have hall : ∀ b ∈ text, decide (b ≠ 0) = true := by
    intro b hb
    exact decide_eq_true fun e => h0 (e ▸ hb)
  have hcopy : ((snprintf text).take 32).takeWhile (· ≠ 0) = text := by
    have htake : (snprintf text).take 32 = text ++ [0] := by
      rw [snprintf, List.take_of_length_le (Nat.le_of_lt_succ hlen), List.take_of_length_le]
      rw [List.length_append]
      exact hlen
    rw [htake, List.takeWhile_append_of_pos hall]
    simp
  rw [strncpy, hcopy]

theorem statusText_short (code : HttpStatesCode) :
    (ascii "HTTP/1.1 " ++ decimal code.code).length < 32 ∧
      0 ∉ ascii "HTTP/1.1 " ++ decimal code.code := by
  cases code <;> decide

/-- After the code stands a NUL; in a status line, a space. -/
theorem padded_ne_statusLine (d : HttpData) (bytes rest : Bytes) :
    strncpy (snprintf (ascii "HTTP/1.1 " ++ decimal d.statusCode.code)) 32 ++ bytes ≠
      d.statusLine ++ rest := by
  obtain ⟨hlen, h0⟩ := statusText_short d.statusCode
  rw [strncpy_snprintf hlen h0, statusLine]
  generalize ascii "HTTP/1.1 " ++ decimal d.statusCode.code = text at hlen
  obtain ⟨k, hk⟩ : ∃ k, 32 - text.length = k + 1 :=
    ⟨_, (Nat.succ_pred_eq_of_pos (Nat.sub_pos_of_lt hlen)).symm⟩
  rw [hk]
  intro heq
  simp only [List.append_assoc] at heq
  have hnext := List.append_cancel_left heq
  have hbyte : (0 : UInt8) = 32 := (List.cons.inj hnext).1
  exact absurd hbyte (by decide)

/-- What is appended does not begin with the status line. -/
theorem appendToBuffer_ne_statusLine (d : HttpData) (output rest : Bytes) :
    d.appendToBuffer output ≠ some (output ++ (d.statusLine ++ rest)) := by
  intro h
  obtain ⟨bytes, hbytes⟩ := appendToBuffer_grows h
  rw [List.append_assoc] at hbytes
  exact padded_ne_statusLine d bytes rest (List.append_cancel_left hbytes)

theorem message_eq (d : HttpData) :
    d.message = d.statusLine ++ (d.headerLines ++ (crlf ++ d.body)) := by
  simp only [message, List.append_assoc]

/-- Whatever the response is, what is appended is not its message. -/
theorem never_message (d : HttpData) (output : Bytes) :
    d.appendToBuffer output ≠ some (output ++ d.message) := by
  rw [message_eq]
  exact appendToBuffer_ne_statusLine d output _

/-- `200 Ok` with an empty body. -/
theorem never_message_ok : ¬ ∀ (d : HttpData) (output : Bytes), Sendable d →
    d.appendToBuffer output = some (output ++ d.message) := by
  intro hall
  have hsend : Sendable { new with statusCode := .k200Ok, statusMessage := ascii "Ok" } :=
    ⟨⟨by decide, by decide⟩, fun _ he => absurd he List.not_mem_nil, by decide⟩
  have h := hall _ [] hsend
  rw [message_eq] at h
  exact appendToBuffer_ne_statusLine _ [] _ h

end HttpData

end WebServer
