/-
# `Http.Rounds` — the loop of `parseRequest` ends, in every call

In two of the four states of the parser, `kGotAll` and `kExpectBody`, a round of
the loop does nothing and does not ask to stop.  The loop ends because no round
begins in either: `onRequest` leaves the object in `kExpectRequestLine` whatever
the parser said (`clearAllContent`), and a round that goes on leaves it waiting for
a header line, with two bytes less in the buffer at least (`round_goes_on`).

`parseRound^[n]` is `n` rounds, and `Begins` says that the next one begins.
-/
import WebServer.Http.Leak
import WebServer.Http.Resume
import Mathlib.Data.Nat.Find
import Mathlib.Logic.Function.Iterate

namespace WebServer

namespace HttpData

open Machine

/-! ## One round -/

/-- A round begins, in a state where it takes bytes off the buffer. -/
structure Parsing.Open (p : Parsing) : Prop where
  waiting : Waiting p.data
  hasMore : p.hasMore = true
  ok : p.ok = true

theorem round_goes_on {p : Parsing} (hp : p.Open) (hmore : (parseRound p).hasMore = true) :
    (parseRound p).Open ∧ (parseRound p).input.length + 2 ≤ p.input.length := by
  cases hcrlf : findCRLF p.input with
  | none =>
      rw [round_none hp.waiting hcrlf] at hmore
      cases hmore
  | some i =>
      have hbound := findCRLF_bound hcrlf
      rcases round_some hp.waiting hp.hasMore hp.ok hcrlf with
        ⟨-, hok, hs, hinput⟩ | ⟨hdone, -, -⟩ | ⟨-, -, hround⟩
      · refine ⟨⟨Or.inr hs, hmore, hok⟩, ?_⟩
        rw [hinput, List.length_drop]
        omega
      · exact Bool.noConfusion (hdone.symm.trans hmore)
      · rw [hround] at hmore
        cases hmore

/-! ## The loop -/

/-- After `n` rounds the loop has not been left. -/
def Begins (p : Parsing) (n : Nat) : Prop := ∀ k ≤ n, (parseRound^[k] p).hasMore = true

theorem begins_open {p : Parsing} (hp : p.Open) (n : Nat) : Begins p n →
    (parseRound^[n] p).Open ∧ (parseRound^[n] p).input.length + 2 * n ≤ p.input.length := by
  induction n with
  | zero => exact fun _ => ⟨hp, Nat.le_refl _⟩
  | succ n ih =>
      intro hbegins
      obtain ⟨hopen, hlength⟩ := ih fun k hk => hbegins k (Nat.le_succ_of_le hk)
      have hmore := hbegins (n + 1) (Nat.le_refl _)
      rw [Function.iterate_succ_apply'] at hmore ⊢
      obtain ⟨hopen', hless⟩ := round_goes_on hopen hmore
      exact ⟨hopen', by omega⟩

/-- A loop that is left after `n` rounds is left with what they leave. -/
theorem parseLoop_rounds (n : Nat) : ∀ {fuel : Nat} {p : Parsing}, n ≤ fuel →
    (∀ k < n, (parseRound^[k] p).hasMore = true) → (parseRound^[n] p).hasMore = false →
    parseLoop fuel p = some (parseRound^[n] p) := by
  induction n with
  | zero => exact fun _ _ hdone => parseLoop_stopped hdone _
  | succ n ih =>
      intro fuel p hfuel hmore hdone
      cases fuel with
      | zero => exact absurd hfuel (Nat.not_succ_le_zero n)
      | succ fuel =>
          have hfirst : p.hasMore = true := hmore 0 (Nat.succ_pos n)
          rw [parseLoop, if_pos hfirst]
          exact ih (Nat.le_of_succ_le_succ hfuel)
            (fun k hk => hmore (k + 1) (Nat.succ_lt_succ hk)) hdone

theorem loop_left {p : Parsing} (hp : p.Open) : ∃ n ≤ p.input.length / 2 + 1,
    (∀ k < n, (parseRound^[k] p).hasMore = true) ∧ (parseRound^[n] p).hasMore = false := by
  have hleft : ∃ n, (parseRound^[n] p).hasMore = false := by
    by_contra hnever
    have hbegins : Begins p (p.input.length / 2 + 1) := fun k _ =>
      Bool.of_not_eq_false fun hk => hnever ⟨k, hk⟩
    have hlength := (begins_open hp _ hbegins).2
    omega
  have hfirst : ∀ k < Nat.find hleft, (parseRound^[k] p).hasMore = true := fun k hk =>
    Bool.of_not_eq_false (Nat.find_min hleft hk)
  refine ⟨Nat.find hleft, ?_, hfirst, Nat.find_spec hleft⟩
  by_contra hlate
  have hbegins : Begins p (p.input.length / 2 + 1) := fun k hk => hfirst k (by omega)
  have hlength := (begins_open hp _ hbegins).2
  omega

/-- After any history of an object, a call of `parseRequest` with any input is entered
in `kExpectRequestLine`, and its loop is left: no round begins in `kGotAll` or
`kExpectBody`, and every round but the last takes two bytes off the buffer at least. -/
theorem loop_ends (history : List Use) : ∃ d, exec Use.step new history = some d ∧
    ∀ input : Bytes, d.state = .kExpectRequestLine ∧
      (∃ n ≤ input.length / 2 + 1,
        (∀ k < n, (parseRound^[k] ⟨d, input, true, true⟩).hasMore = true) ∧
        (parseRound^[n] ⟨d, input, true, true⟩).hasMore = false ∧
        d.parseRequest input = some (parseRound^[n] ⟨d, input, true, true⟩)) ∧
      ∀ n, Begins ⟨d, input, true, true⟩ n →
        (parseRound^[n] ⟨d, input, true, true⟩).data.state ≠ .kGotAll ∧
        (parseRound^[n] ⟨d, input, true, true⟩).data.state ≠ .kExpectBody ∧
        ((parseRound^[n + 1] ⟨d, input, true, true⟩).hasMore = true →
          (parseRound^[n + 1] ⟨d, input, true, true⟩).input.length + 2 ≤
            (parseRound^[n] ⟨d, input, true, true⟩).input.length) := by
  obtain ⟨d, body, hrun, hkept⟩ := history_runs history
  refine ⟨d, hrun, fun input => ?_⟩
  have hstate := hkept.cleared.state
  have hopen : Parsing.Open ⟨d, input, true, true⟩ := ⟨Or.inl hstate, rfl, rfl⟩
  refine ⟨hstate, ?_, ?_⟩
  · obtain ⟨n, hn, hmore, hdone⟩ := loop_left hopen
    refine ⟨n, hn, hmore, hdone, parseLoop_rounds n ?_ hmore hdone⟩
    have hhalf : input.length / 2 ≤ input.length := Nat.div_le_self _ _
    exact Nat.le_trans hn (Nat.succ_le_succ hhalf)
  · intro n hbegins
    obtain ⟨hopen', -⟩ := begins_open hopen n hbegins
    rw [Function.iterate_succ_apply']
    refine ⟨?_, ?_, fun hmore => (round_goes_on hopen' hmore).2⟩
    · rcases hopen'.waiting with hs | hs <;> simp [hs]
    · rcases hopen'.waiting with hs | hs <;> simp [hs]

end HttpData

end WebServer
