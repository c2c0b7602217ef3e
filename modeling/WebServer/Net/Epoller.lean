/-
# `Net.Epoller` — channels and the poller that watches them

`Channel` is the record of `Channel.h` as far as the poller and the handlers
read it: the descriptor, the events of interest, and `index`, the poller's note
of what it has done with the channel.  `Epoller` is the class of
`Epoller.{h,cc}`, over any type `κ` of channel pointers, together with the
kernel's side of its descriptor: `interest` is what `epoll_ctl` has registered.

The library is built with `-DNDEBUG`, so the assertions are not executed.  Two
counters, which no code reads, keep what they would have said: `failedLookups`
counts the asserted lookups in `channels` that fail, `failedCtls` the
`epoll_ctl` calls the kernel refuses.
-/
import Mathlib.Logic.Function.Basic

namespace WebServer

/-- An event mask, one flag per bit the code names. -/
structure Events where
  epollin : Bool := false
  epollpri : Bool := false
  epollout : Bool := false
  epollerr : Bool := false
  epollhup : Bool := false
  epollrdhup : Bool := false
  deriving DecidableEq

/-- What the poller has done with a channel (`kNew`, `kAdded`, `kDeleted`). -/
inductive PollIndex where
  | kNew
  | kAdded
  | kDeleted
  deriving DecidableEq

structure Channel where
  fd : Int
  events : Events
  index : PollIndex
  deriving DecidableEq

namespace Channel

/-- The constructor: no interest, unknown to the poller. -/
def new (fd : Int) : Channel := ⟨fd, {}, .kNew⟩

def isNoneEvent (ch : Channel) : Bool := ch.events = {}

def isReading (ch : Channel) : Bool := ch.events.epollin || ch.events.epollpri

def isWriting (ch : Channel) : Bool := ch.events.epollout

/-! The first halves of `enableReading` and its like: each is followed by
`update`, which belongs to the loop. -/

/-- Sets the bits `EPOLLIN | EPOLLPRI`. -/
def wantReading (ch : Channel) : Channel :=
  { ch with events := { ch.events with epollin := true, epollpri := true } }

def wantWriting (ch : Channel) : Channel :=
  { ch with events := { ch.events with epollout := true } }

def dropWriting (ch : Channel) : Channel :=
  { ch with events := { ch.events with epollout := false } }

def dropAll (ch : Channel) : Channel := { ch with events := {} }

end Channel

/-- The poller, over channel pointers of type `κ`. -/
structure Epoller (κ : Type) where
  channels : Int → Option κ
  interest : Int → Option (Events × κ)
  failedLookups : Nat
  failedCtls : Nat

namespace Epoller

variable {κ : Type}

def new : Epoller κ := ⟨fun _ => none, fun _ => none, 0, 0⟩

inductive CtlOp where
  | add
  | mod
  | del
  deriving DecidableEq

/-- The kernel's `epoll_ctl`: `ADD` wants an absent, valid descriptor, `MOD` and
`DEL` a present one; a refused call changes nothing. -/
def epollCtl (p : Epoller κ) (op : CtlOp) (fd : Int) (ev : Events) (ptr : κ) : Epoller κ :=
  match op, p.interest fd with
  | .add, none =>
      if 0 ≤ fd then { p with interest := Function.update p.interest fd (some (ev, ptr)) }
      else { p with failedCtls := p.failedCtls + 1 }
  | .mod, some _ => { p with interest := Function.update p.interest fd (some (ev, ptr)) }
  | .del, some _ => { p with interest := Function.update p.interest fd none }
  | _, _ => { p with failedCtls := p.failedCtls + 1 }

/-- The kernel's part of `::close(fd)`: a closed descriptor leaves the set. -/
def closeFd (p : Epoller κ) (fd : Int) : Epoller κ :=
  { p with interest := Function.update p.interest fd none }

/-- `Epoller::update(operation, channel)`. -/
def update (p : Epoller κ) (op : CtlOp) (ptr : κ) (ch : Channel) : Epoller κ :=
  p.epollCtl op ch.fd ch.events ptr

/-- An assertion about `channels`. -/
def checked (p : Epoller κ) (cond : Bool) : Epoller κ :=
  if cond then p else { p with failedLookups := p.failedLookups + 1 }

/-! ## What the calls leave alone -/

@[simp] theorem channels_checked (p : Epoller κ) (b : Bool) :
    (p.checked b).channels = p.channels := by
  unfold checked; split <;> rfl

@[simp] theorem interest_checked (p : Epoller κ) (b : Bool) :
    (p.checked b).interest = p.interest := by
  unfold checked; split <;> rfl

@[simp] theorem channels_epollCtl (p : Epoller κ) (op : CtlOp) (fd : Int) (ev : Events) (ptr : κ) :
    (p.epollCtl op fd ev ptr).channels = p.channels := by
  unfold epollCtl; split <;> (try split) <;> rfl

@[simp] theorem failedLookups_epollCtl (p : Epoller κ) (op : CtlOp) (fd : Int) (ev : Events)
    (ptr : κ) : (p.epollCtl op fd ev ptr).failedLookups = p.failedLookups := by
  unfold epollCtl; split <;> (try split) <;> rfl

@[simp] theorem channels_closeFd (p : Epoller κ) (fd : Int) :
    (p.closeFd fd).channels = p.channels := rfl

theorem interest_epollCtl_ne (p : Epoller κ) (op : CtlOp) {fd fd' : Int} (ev : Events) (ptr : κ)
    (h : fd' ≠ fd) : (p.epollCtl op fd ev ptr).interest fd' = p.interest fd' := by
  unfold epollCtl
  split <;> (try split) <;> simp [Function.update_of_ne h]

/-! ## The two calls -/

section

variable [DecidableEq κ]

/-- `Epoller::updateChannel(channel)`: the poller and the channel after it. -/
def updateChannel (p : Epoller κ) (ptr : κ) (ch : Channel) : Epoller κ × Channel :=
  match ch.index with
  | .kNew =>
      let p := p.checked (p.channels ch.fd = none)
      let p := { p with channels := Function.update p.channels ch.fd (some ptr) }
      (p.update .add ptr ch, { ch with index := .kAdded })
  | .kDeleted =>
      let p := p.checked (p.channels ch.fd = some ptr)
      (p.update .add ptr ch, { ch with index := .kAdded })
  | .kAdded =>
      let p := p.checked (p.channels ch.fd = some ptr)
      if ch.isNoneEvent then (p.update .del ptr ch, { ch with index := .kDeleted })
      else (p.update .mod ptr ch, ch)

/-- All that the poller changes of a channel is its index. -/
theorem updateChannel_index (p : Epoller κ) (ptr : κ) (ch : Channel) :
    ∃ index, (p.updateChannel ptr ch).2 = { ch with index := index } := by
  unfold updateChannel
  split
  · exact ⟨.kAdded, rfl⟩
  · exact ⟨.kAdded, rfl⟩
  · dsimp only
    split
    · exact ⟨.kDeleted, rfl⟩
    · exact ⟨ch.index, rfl⟩

/-- `Epoller::removeChannel(channel)`. -/
def removeChannel (p : Epoller κ) (ptr : κ) (ch : Channel) : Epoller κ × Channel :=
  let p := p.checked (p.channels ch.fd = some ptr)
  let p := { p with channels := Function.update p.channels ch.fd none }
  let p := if ch.index = .kAdded then p.update .del ptr ch else p
  (p, { ch with index := .kNew })

end

end Epoller

end WebServer
