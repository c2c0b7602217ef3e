/-
# `Lib.Chain` — singly linked chains that start at a head node

All this file knows of a heap of nodes is its function `next`.  `Linked next h
cs` says that following `next` from `h` visits the nodes of `cs`, in order, and
then ends.  The three ways a chain is edited each have one rule: a node is
pushed behind the head (`Linked.push`), the node behind the head is taken off
(`Linked.pop`), a node is hung on the end (`Linked.snoc`).  A rule asks only
what the new `next` is on the nodes it touches and that the others keep theirs.

A chain that ends visits no node twice (`Linked.nodup`): its list is determined
by its head, so a node met again would have to start a list shorter than itself.
-/
import Mathlib.Logic.Function.Basic
import Mathlib.Data.List.Nodup

namespace Chain

variable {ν : Type*}

def Linked (next : ν → Option ν) : ν → List ν → Prop
  | h, [] => next h = none
  | h, c :: cs => next h = some c ∧ Linked next c cs

variable {next next' : ν → Option ν} {h c : ν} {cs : List ν}

/-- Only the links of the chain's own nodes matter. -/
theorem Linked.congr (hl : Linked next h cs) (hsame : ∀ a ∈ h :: cs, next' a = next a) :
    Linked next' h cs := by
  induction cs generalizing h with
  | nil => exact (hsame h List.mem_cons_self).trans hl
  | cons c cs ih =>
      refine ⟨(hsame h List.mem_cons_self).trans hl.1, ih hl.2 ?_⟩
      intro a ha
      exact hsame a (List.mem_cons_of_mem h ha)

theorem Linked.head? (hl : Linked next h cs) : next h = cs.head? := by
  cases cs with
  | nil => exact hl
  | cons c cs => exact hl.1

theorem Linked.unique {ds : List ν} (hl : Linked next h cs) (hd : Linked next h ds) : cs = ds := by
  induction cs generalizing h ds with
  | nil =>
      cases ds with
      | nil => rfl
      | cons d ds =>
          have hne : none = some d := hl.symm.trans hd.1
          exact absurd hne nofun
  | cons c cs ih =>
      cases ds with
      | nil =>
          have hne : none = some c := hd.symm.trans hl.1
          exact absurd hne nofun
      | cons d ds =>
          have hcd : c = d := Option.some.inj (hl.1.symm.trans hd.1)
          subst hcd
          rw [ih hl.2 hd.2]

/-- From any node it visits, the chain goes on as the rest of its list. -/
theorem Linked.tail (hl : Linked next h cs) {as bs : List ν} {a : ν} (hcs : cs = as ++ a :: bs) :
    Linked next a bs := by
  induction as generalizing h cs with
  | nil => subst hcs; exact hl.2
  | cons b as ih => subst hcs; exact ih hl.2 rfl

theorem Linked.nodup (hl : Linked next h cs) : (h :: cs).Nodup := by
  induction cs generalizing h with
  | nil => exact List.nodup_singleton h
  | cons c cs ih =>
      refine List.nodup_cons.mpr ⟨?_, ih hl.2⟩
      intro hmem
      obtain ⟨as, bs, hsplit⟩ := List.append_of_mem hmem
      have hshort : c :: cs = bs := hl.unique (hl.tail hsplit)
      have hlen := congrArg List.length (hsplit.symm.trans hshort)
      simp only [List.length_append, List.length_cons] at hlen
      omega

/-! ## Editing a chain -/

theorem Linked.push (hl : Linked next h cs) (hc : c ∉ h :: cs) (hhead : next' h = some c)
    (hnew : next' c = next h) (hsame : ∀ a ∈ cs, next' a = next a) : Linked next' h (c :: cs) := by
  refine ⟨hhead, ?_⟩
  cases cs with
  | nil => exact hnew.trans hl
  | cons d ds =>
      refine ⟨hnew.trans hl.1, hl.2.congr fun a ha => hsame a ha⟩

theorem Linked.pop (hl : Linked next h (c :: cs)) (hhead : next' h = next c)
    (hsame : ∀ a ∈ cs, next' a = next a) : Linked next' h cs := by
  cases cs with
  | nil => exact hhead.trans hl.2
  | cons d ds => exact ⟨hhead.trans hl.2.1, hl.2.2.congr fun a ha => hsame a ha⟩

theorem Linked.snoc (hl : Linked next h cs) {l : ν} (hlast : (h :: cs).getLast? = some l)
    (hend : next' l = some c) (hnew : next' c = none)
    (hsame : ∀ a ∈ h :: cs, a ≠ l → next' a = next a) : Linked next' h (cs ++ [c]) := by
  induction cs generalizing h with
  | nil =>
      have hhl : h = l := Option.some.inj hlast
      subst hhl
      exact ⟨hend, hnew⟩
  | cons d ds ih =>
      have hlast' : (d :: ds).getLast? = some l := by rwa [List.getLast?_cons_cons] at hlast
      have hhl : h ≠ l := by
        rintro rfl
        exact (List.nodup_cons.mp hl.nodup).1 (List.mem_of_getLast? hlast')
      refine ⟨(hsame h List.mem_cons_self hhl).trans hl.1, ?_⟩
      exact ih hl.2 hlast' fun a ha => hsame a (List.mem_cons_of_mem h ha)

end Chain
