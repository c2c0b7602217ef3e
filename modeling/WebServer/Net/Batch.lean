/-
# `Net.Batch` — the channels of one poll, handled one after another

`poll` returns a batch of channels with their event masks; the loop handles
them in order.  `handleEvent` would first lock its holder if the channel were
tied, but `tied_` is false from the constructor on, so nothing stands between a
batch's earlier handlers and a callback of a connection they have closed.

A `Dispatch` is one channel of the batch: a connection's, with its mask and the
kernel's answers to its handlers, or one of the loop's own (wakeup, timer,
acceptor), with the calls its handler makes.  `Legal` is what `poll` and
`accept` promise: distinct connections, each one registered.

Three things make a callback stale.  A mask with `EPOLLHUP` and without
`EPOLLIN` runs the close callback and then goes on to the read and write
callbacks its other bits ask for; a read that finds the end of the stream closes
the connection before the write callback of the same mask; a timer closes a
connection that comes later in the batch.  `Spared` excludes the three, and
`batches_clean` says that runs which keep to it have no stale callback, close no
session twice, and never meet undefined behaviour, an erased list position
included.
-/
import WebServer.Net.Run

namespace WebServer

inductive Dispatch where
  /-- `r` and `wr` answer the read and the echo's write of `handleRead`, `wr'` the
  write of `handleWrite`. -/
  | conn (c : ConnId) (revents : Events) (r : ReadResult) (wr wr' : WriteResult)
  | own (calls : List Call)
  deriving DecidableEq

namespace Events

/-- The masks for which `handleEventWithGuard` runs the close, the read and the
write callback.  (The error callback only asks the socket for its error.) -/
def closing (ev : Events) : Bool := ev.epollhup && !ev.epollin
def readable (ev : Events) : Bool := ev.epollin || ev.epollpri || ev.epollrdhup
def writable (ev : Events) : Bool := ev.epollout

end Events

namespace Dispatch

/-- `handleEvent()`: the callbacks it runs, in order. -/
def acts : Dispatch → List Act
  | .conn c ev r wr wr' =>
      (if ev.closing then [.handleClose c] else []) ++
        (if ev.readable then [.handleRead c r wr] else []) ++
          (if ev.writable then [.handleWrite c wr'] else [])
  | .own calls => calls.map .call

/-- The connection whose channel is dispatched. -/
def target : Dispatch → Option ConnId
  | .conn c _ _ _ _ => some c
  | .own _ => none

/-- The dispatch runs a callback of connection `c`. -/
def Reaches (d : Dispatch) (c : ConnId) : Prop := d.target = some c ∧ d.acts ≠ []

instance (d : Dispatch) (c : ConnId) : Decidable (d.Reaches c) :=
  inferInstanceAs (Decidable (_ ∧ _))

/-- The mask asks for no callback after one that closes. -/
def MaskOk (ev : Events) (r : ReadResult) : Prop :=
  (ev.closing = true → ev.readable = false ∧ ev.writable = false) ∧
    (ev.readable = true → r = .eof → ev.writable = false)

instance (ev : Events) (r : ReadResult) : Decidable (MaskOk ev r) :=
  inferInstanceAs (Decidable ((_ → _) ∧ (_ → _ → _)))

end Dispatch

namespace Batch

open EventLoop

/-- The calls of a handler close no connection that a later dispatch reaches. -/
def Spares (later : List Dispatch) (w : EventLoop) (a : Act) : Prop :=
  ∀ c ∈ w.closes a, ∀ d ∈ later, ¬ d.Reaches c

def DispatchOk (w : EventLoop) (later : List Dispatch) : Dispatch → Prop
  | .conn _ ev r _ _ => Dispatch.MaskOk ev r
  | .own calls => Machine.Meets act (Spares later) w (calls.map .call)

def BatchOk : EventLoop → List Dispatch → Prop
  | _, [] => True
  | w, d :: ds => DispatchOk w ds d ∧ ∀ t, Machine.exec act w d.acts = some t → BatchOk t ds

/-- One round of the loop, or something that happens between two polls. -/
inductive Step where
  | tick (dt : Nat)
  | call (k : Call)
  | batch (ds : List Dispatch)
  deriving DecidableEq

def step (w : EventLoop) : Step → Option EventLoop
  | .tick dt => w.act (.tick dt)
  | .call k => w.act (.call k)
  | .batch ds => Machine.exec act (w.record .polled) (ds.flatMap Dispatch.acts)

/-- `accept` returned a descriptor that was not in use. -/
def Granted (w : EventLoop) (a : Act) : Prop := ∀ fd ∈ a.connfd, 0 ≤ fd ∧ fd ∉ w.openFds

/-- The kernel watches a descriptor for connection `c`. -/
def Registered (w : EventLoop) (c : ConnId) : Prop :=
  ∃ fd ∈ w.openFds, w.watcher fd = some (.conn c)

structure LegalBatch (w : EventLoop) (ds : List Dispatch) : Prop where
  distinct : (ds.filterMap Dispatch.target).Nodup
  registered : ∀ c ∈ ds.filterMap Dispatch.target, Registered w c
  granted : Machine.Meets act Granted (w.record .polled) (ds.flatMap Dispatch.acts)

def Legal (w : EventLoop) : Step → Prop
  | .tick _ => True
  | .call k => Granted w (.call k)
  | .batch ds => LegalBatch w ds

def Spared (w : EventLoop) : Step → Prop
  | .batch ds => BatchOk (w.record .polled) ds
  | _ => True

/-! These conditions can be computed. -/

instance (later : List Dispatch) (w : EventLoop) (a : Act) : Decidable (Spares later w a) :=
  inferInstanceAs (Decidable (∀ c ∈ w.closes a, ∀ d ∈ later, ¬ d.Reaches c))

instance (w : EventLoop) (later : List Dispatch) : ∀ d, Decidable (DispatchOk w later d)
  | .conn _ ev r _ _ => inferInstanceAs (Decidable (Dispatch.MaskOk ev r))
  | .own calls =>
      inferInstanceAs (Decidable (Machine.Meets act (Spares later) w (calls.map .call)))

instance decidableBatchOk : ∀ (w : EventLoop) (ds : List Dispatch), Decidable (BatchOk w ds)
  | _, [] => isTrue trivial
  | w, d :: ds =>
      match h : Machine.exec act w d.acts with
      | none => decidable_of_iff (DispatchOk w ds d)
          ⟨fun hd => ⟨hd, fun _ ht => absurd (h.symm.trans ht) nofun⟩, fun hb => hb.1⟩
      | some t =>
          have : Decidable (BatchOk t ds) := decidableBatchOk t ds
          decidable_of_iff (DispatchOk w ds d ∧ BatchOk t ds)
            ⟨fun hb => ⟨hb.1, fun _ hu => Option.some.inj (h.symm.trans hu) ▸ hb.2⟩,
              fun hb => ⟨hb.1, hb.2 t h⟩⟩

instance (w : EventLoop) (a : Act) : Decidable (Granted w a) :=
  inferInstanceAs (Decidable (∀ fd ∈ a.connfd, 0 ≤ fd ∧ fd ∉ w.openFds))

instance (w : EventLoop) (c : ConnId) : Decidable (Registered w c) :=
  inferInstanceAs (Decidable (∃ fd ∈ w.openFds, w.watcher fd = some (.conn c)))

instance (w : EventLoop) : ∀ op, Decidable (Legal w op)
  | .tick _ => isTrue trivial
  | .call k => inferInstanceAs (Decidable (Granted w (.call k)))
  | .batch ds => decidable_of_iff ((ds.filterMap Dispatch.target).Nodup ∧
      (∀ c ∈ ds.filterMap Dispatch.target, Registered w c) ∧
        Machine.Meets act Granted (w.record .polled) (ds.flatMap Dispatch.acts))
      ⟨fun h => ⟨h.1, h.2.1, h.2.2⟩, fun h => ⟨h.distinct, h.registered, h.granted⟩⟩

instance (w : EventLoop) : ∀ op, Decidable (Spared w op)
  | .tick _ => isTrue trivial
  | .call _ => isTrue trivial
  | .batch ds => inferInstanceAs (Decidable (BatchOk (w.record .polled) ds))

/-! ## What the history says -/

/-- The connections closed since the last poll, the history read in order. -/
def closedSincePoll (log : List Event) : List ConnId :=
  log.foldl (fun cs e => match e with
    | .polled => []
    | .closed c _ => c :: cs
    | _ => cs) []

/-- No callback of a connection was started after the connection was closed in
the same batch. -/
def NoStale (log : List Event) : Prop :=
  ∀ before kind c after, log = before ++ .callback kind c :: after → c ∉ closedSincePoll before

structure Clean (w : EventLoop) : Prop where
  noStale : NoStale w.log
  once : (closedSessions w.log).Nodup

theorem closedSincePoll_snoc (log : List Event) (e : Event) :
    closedSincePoll (log ++ [e]) = match e with
      | .polled => []
      | .closed c _ => c :: closedSincePoll log
      | _ => closedSincePoll log := by
  rw [closedSincePoll, List.foldl_append]
  rfl

/-- Events that close nothing but `cs` add nothing but `cs`. -/
theorem closedSincePoll_append {c : ConnId} {es : List Event} (hes : ∀ s, .closed c s ∉ es)
    (log : List Event) : c ∉ closedSincePoll log → c ∉ closedSincePoll (log ++ es) := by
  induction es generalizing log with
  | nil => intro h; rwa [List.append_nil]
  | cons e es ih =>
      intro h
      rw [List.append_cons]
      refine ih (fun s hs => hes s (List.mem_cons_of_mem _ hs)) _ ?_
      rw [closedSincePoll_snoc]
      cases e with
      | polled => exact List.not_mem_nil
      | callback k d => exact h
      | closed d s =>
          rintro (_ | ⟨_, hmem⟩)
          · exact hes s List.mem_cons_self
          · exact h hmem
      | forceClosed d g s => exact h

theorem noStale_snoc {log : List Event} (h : NoStale log) {e : Event}
    (he : ∀ kind c, e = .callback kind c → c ∉ closedSincePoll log) : NoStale (log ++ [e]) := by
  intro before kind c after heq
  rcases List.eq_nil_or_concat after with rfl | ⟨after', a, rfl⟩
  · obtain ⟨rfl, hlast⟩ := List.append_inj' heq rfl
    exact he kind c (List.head_eq_of_cons_eq hlast)
  · have hsplit : log ++ [e] = (before ++ .callback kind c :: after') ++ [a] := by
      rw [heq, List.concat_eq_append, List.append_assoc]
      rfl
    obtain ⟨rfl, -⟩ := List.append_inj' hsplit rfl
    exact h before kind c after' rfl

/-- Events that start no callback. -/
theorem noStale_append {es : List Event} (hes : ∀ kind c, .callback kind c ∉ es) {log : List Event}
    (h : NoStale log) : NoStale (log ++ es) := by
  induction es generalizing log with
  | nil => rwa [List.append_nil]
  | cons e es ih =>
      rw [List.append_cons]
      refine ih (fun k c hmem => hes k c (List.mem_cons_of_mem _ hmem)) (noStale_snoc h ?_)
      rintro k c rfl
      exact absurd List.mem_cons_self (hes k c)

/-! ## One act -/

/-- The connection is open and has not been closed in this batch. -/
def Fresh (w : EventLoop) (c : ConnId) : Prop :=
  c ∈ w.activeConnections ∧ c ∉ closedSincePoll w.log

/-- The act is no stale callback. -/
def Timely (w : EventLoop) (a : Act) : Prop :=
  w.Proper a ∧ ∀ kind c, a.callback = some (kind, c) → c ∉ closedSincePoll w.log

variable {w w' : EventLoop} {a : Act} {c : ConnId}

theorem noStale_after (h : After w a w') (hn : NoStale w.log)
    (ha : ∀ kind c, a.callback = some (kind, c) → c ∉ closedSincePoll w.log) : NoStale w'.log := by
  obtain ⟨es, hlog, hes⟩ := h.log
  rw [hlog]
  refine noStale_append ?_ ?_
  · intro kind c hmem
    rcases hes _ hmem with ⟨_, _, he, _⟩ | ⟨_, _, _, he⟩
    · exact absurd he nofun
    · exact absurd he nofun
  · unfold Act.started
    split
    · rename_i kind c hcb
      refine noStale_snoc hn ?_
      intro k d hkd
      cases hkd
      exact ha kind c hcb
    · rwa [List.append_nil]

theorem fresh_after (h : After w a w') (hf : Fresh w c) (hcl : w.closes a ≠ some c) :
    Fresh w' c := by
  obtain ⟨es, hlog, hes⟩ := h.log
  refine ⟨h.stays c hf.1 hcl, ?_⟩
  rw [hlog]
  refine closedSincePoll_append ?_ _ ?_
  · intro s hmem
    rcases hes _ hmem with ⟨d, _, he, hd⟩ | ⟨_, _, _, he⟩
    · cases he
      exact hcl hd
    · exact absurd he nofun
  · refine closedSincePoll_append ?_ _ hf.2
    intro s hmem
    unfold Act.started at hmem
    split at hmem
    · exact absurd (List.mem_singleton.mp hmem) nofun
    · exact absurd hmem List.not_mem_nil

/-- Acts that are timely and close none of `cs` go through, and leave `cs`
fresh. -/
theorem exec_fresh {acts : List Act} {cs : List ConnId} (hs : w.Sound) (hn : NoStale w.log)
    (hf : ∀ c ∈ cs, Fresh w c)
    (hM : Machine.Meets act (fun w a => Timely w a ∧ ∀ c ∈ cs, w.closes a ≠ some c) w acts) :
    ∃ t, Machine.exec act w acts = some t ∧ t.Sound ∧ NoStale t.log ∧ ∀ c ∈ cs, Fresh t c := by
  have hstep : ∀ (v : EventLoop) (a : Act),
      (v.Sound ∧ NoStale v.log ∧ ∀ c ∈ cs, Fresh v c) →
      (Timely v a ∧ ∀ c ∈ cs, v.closes a ≠ some c) →
      ∃ t, v.act a = some t ∧ t.Sound ∧ NoStale t.log ∧ ∀ c ∈ cs, Fresh t c := by
    rintro v a ⟨hv, hvn, hvf⟩ ⟨⟨hp, ha⟩, hcl⟩
    obtain ⟨t, ht, hafter⟩ := act_after hv hp
    exact ⟨t, ht, hafter.sound, noStale_after hafter hvn ha,
      fun c hc => fresh_after hafter (hvf c hc) (hcl c hc)⟩
  obtain ⟨t, ht, hI, -⟩ := Machine.exec_progress hstep hM ⟨hs, hn, hf⟩
  exact ⟨t, ht, hI⟩

/-! ## One dispatch -/

/-- A callback of a fresh connection is timely, and closes no other. -/
theorem timely_of_fresh (hf : Fresh w c) {kind : CallbackKind} (hcb : a.callback = some (kind, c)) :
    Timely w a ∧ ∀ d, d ≠ c → w.closes a ≠ some d := by
  have hcallback : ∀ k d, a.callback = some (k, d) → d ∉ closedSincePoll w.log := by
    intro k d hd
    rw [hcb] at hd
    cases hd
    exact hf.2
  cases a with
  | tick dt => exact absurd hcb nofun
  | call k => exact absurd hcb nofun
  | handleRead d r wr =>
      cases hcb
      refine ⟨⟨hf.1, hcallback⟩, ?_⟩
      intro d hd hcl
      cases r with
      | data first rest => exact absurd hcl nofun
      | eof => exact hd (Option.some.inj hcl).symm
      | fail => exact absurd hcl nofun
  | handleWrite d wr =>
      cases hcb
      exact ⟨⟨hf.1, hcallback⟩, fun d _ => nofun⟩
  | handleClose d =>
      cases hcb
      exact ⟨⟨hf.1, hcallback⟩, fun d hd hcl => hd (Option.some.inj hcl).symm⟩

/-- The callbacks of one mask: none of them is stale if the mask asks for none
after one that closes. -/
theorem meets_conn {cs : List ConnId} {ev : Events} {r : ReadResult} {wr wr' : WriteResult}
    (hs : w.Sound) (hcs : c ∉ cs) (hok : Dispatch.MaskOk ev r)
    (hf : (Dispatch.conn c ev r wr wr').acts ≠ [] → Fresh w c) :
    Machine.Meets act (fun w a => Timely w a ∧ ∀ d ∈ cs, w.closes a ≠ some d) w
      (Dispatch.conn c ev r wr wr').acts := by
  have hone : ∀ {v : EventLoop} {a : Act} {kind : CallbackKind}, Fresh v c →
      a.callback = some (kind, c) → Timely v a ∧ ∀ d ∈ cs, v.closes a ≠ some d := by
    intro v a kind hv hcb
    obtain ⟨ht, hcl⟩ := timely_of_fresh hv hcb
    exact ⟨ht, fun d hd => hcl d fun e => hcs (e ▸ hd)⟩
  cases hclose : ev.closing with
  | true =>
      obtain ⟨hr, hw⟩ := hok.1 hclose
      simp only [Dispatch.acts, hclose, hr, hw] at hf ⊢
      exact ⟨hone (hf nofun) rfl, fun _ _ => trivial⟩
  | false =>
      cases hread : ev.readable with
      | true =>
          cases hwrite : ev.writable with
          | true =>
              simp only [Dispatch.acts, hclose, hread, hwrite] at hf ⊢
              have hfresh : Fresh w c := hf nofun
              refine ⟨hone hfresh rfl, fun t ht => ⟨hone ?_ rfl, fun _ _ => trivial⟩⟩
              -- the read left the connection open: it did not find the end of the stream
              obtain ⟨t', ht', hafter⟩ := act_after hs (a := .handleRead c r wr) hfresh.1
              cases ht.symm.trans ht'
              refine fresh_after hafter hfresh ?_
              cases r with
              | data first rest => exact nofun
              | eof => exact absurd hwrite (by rw [hok.2 hread rfl]; decide)
              | fail => exact nofun
          | false =>
              simp only [Dispatch.acts, hclose, hread, hwrite] at hf ⊢
              exact ⟨hone (hf nofun) rfl, fun _ _ => trivial⟩
      | false =>
          cases hwrite : ev.writable with
          | true =>
              simp only [Dispatch.acts, hclose, hread, hwrite] at hf ⊢
              exact ⟨hone (hf nofun) rfl, fun _ _ => trivial⟩
          | false =>
              simp only [Dispatch.acts, hclose, hread, hwrite]
              exact trivial

/-- The calls of one handler. -/
theorem meets_own {cs : List ConnId} {later : List Dispatch} {calls : List Call}
    (hcs : ∀ c ∈ cs, ∃ d ∈ later, d.Reaches c)
    (hg : Machine.Meets act Granted w (calls.map .call))
    (hok : Machine.Meets act (Spares later) w (calls.map .call)) :
    Machine.Meets act (fun w a => Timely w a ∧ ∀ c ∈ cs, w.closes a ≠ some c) w
      (calls.map .call) := by
  induction calls generalizing w with
  | nil => trivial
  | cons k calls ih =>
      refine ⟨⟨⟨?_, fun _ _ => nofun⟩, ?_⟩, fun t ht => ih (hg.2 t ht) (hok.2 t ht)⟩
      · have hgk : Granted w (.call k) := hg.1
        cases k with
        | getNextFreeConnection fd => exact hgk fd rfl
        | _ => trivial
      · intro c hc hcl
        obtain ⟨d, hd, hreach⟩ := hcs c hc
        exact hok.1 c hcl d hd hreach

/-! ## One batch, and runs -/

/-- The connections that some dispatch reaches. -/
def reached (ds : List Dispatch) : List ConnId :=
  (ds.filter fun d => d.acts ≠ []).filterMap Dispatch.target

theorem mem_reached {ds : List Dispatch} : c ∈ reached ds ↔ ∃ d ∈ ds, d.Reaches c := by
  simp only [reached, List.mem_filterMap, List.mem_filter, decide_eq_true_eq, Dispatch.Reaches]
  exact ⟨fun ⟨d, ⟨hd, ha⟩, ht⟩ => ⟨d, hd, ht, ha⟩, fun ⟨d, hd, ht, ha⟩ => ⟨d, ⟨hd, ha⟩, ht⟩⟩

theorem exec_batch {ds : List Dispatch} : ∀ {w : EventLoop}, w.Sound → NoStale w.log →
    (ds.filterMap Dispatch.target).Nodup → (∀ c ∈ reached ds, Fresh w c) →
    Machine.Meets act Granted w (ds.flatMap Dispatch.acts) → BatchOk w ds →
    ∃ t, Machine.exec act w (ds.flatMap Dispatch.acts) = some t ∧ t.Sound ∧ NoStale t.log := by
  induction ds with
  | nil => intro w hs hn _ _ _ _; exact ⟨w, rfl, hs, hn⟩
  | cons d ds ih =>
      intro w hs hn hnd hf hg hok
      rw [List.flatMap_cons, Machine.meets_append] at hg
      have hlater : ∀ c ∈ reached ds, Fresh w c := fun c hc => by
        obtain ⟨e, he, hreach⟩ := mem_reached.mp hc
        exact hf c (mem_reached.mpr ⟨e, List.mem_cons_of_mem _ he, hreach⟩)
      have hM : Machine.Meets act (fun w a => Timely w a ∧ ∀ c ∈ reached ds, w.closes a ≠ some c) w
          d.acts := by
        cases d with
        | conn c ev r wr wr' =>
            refine meets_conn hs ?_ hok.1 fun hacts => hf c (mem_reached.mpr
              ⟨_, List.mem_cons_self, rfl, hacts⟩)
            intro hc
            obtain ⟨e, he, htarget, -⟩ := mem_reached.mp hc
            have hnd' : (c :: ds.filterMap Dispatch.target).Nodup := hnd
            exact (List.nodup_cons.mp hnd').1 (List.mem_filterMap.mpr ⟨e, he, htarget⟩)
        | own calls => exact meets_own (fun c hc => mem_reached.mp hc) hg.1 hok.1
      have hnd' : (ds.filterMap Dispatch.target).Nodup :=
        hnd.sublist ((List.sublist_cons_self d ds).filterMap Dispatch.target)
      obtain ⟨v, hv, hvs, hvn, hvf⟩ := exec_fresh hs hn hlater hM
      obtain ⟨t, ht, hts, htn⟩ := ih hvs hvn hnd' hvf (hg.2 v hv) (hok.2 v hv)
      exact ⟨t, by rw [List.flatMap_cons]; exact Machine.exec_append.mpr ⟨v, hv, ht⟩, hts, htn⟩

/-- One round of the loop, or one act between two rounds. -/
theorem step_progress {op : Step} (hs : w.Sound) (hn : NoStale w.log) (hl : Legal w op)
    (hsp : Spared w op) : ∃ t, step w op = some t ∧ t.Sound ∧ NoStale t.log := by
  cases op with
  | tick dt =>
      obtain ⟨t, ht, hafter⟩ := act_after hs (a := .tick dt) trivial
      exact ⟨t, ht, hafter.sound, noStale_after hafter hn fun _ _ => nofun⟩
  | call k =>
      have hp : w.Proper (.call k) := by
        have hg : Granted w (.call k) := hl
        cases k with
        | getNextFreeConnection fd => exact hg fd rfl
        | _ => trivial
      obtain ⟨t, ht, hafter⟩ := act_after hs hp
      exact ⟨t, ht, hafter.sound, noStale_after hafter hn fun _ _ => nofun⟩
  | batch ds =>
      obtain ⟨hnd, hreg, hg⟩ := hl
      refine exec_batch (hs.record rfl) (noStale_snoc hn fun _ _ => nofun) hnd ?_ hg hsp
      intro c hc
      obtain ⟨d, hd, htarget, -⟩ := mem_reached.mp hc
      obtain ⟨fd, -, hwatch⟩ := hreg c (List.mem_filterMap.mpr ⟨d, hd, htarget⟩)
      refine ⟨(hs.watched.owner fd c hwatch).1, ?_⟩
      show c ∉ closedSincePoll (w.log ++ [.polled])
      rw [closedSincePoll_snoc]
      exact List.not_mem_nil

/-- Every run whose batches spare the connections still to come goes through
without undefined behaviour, starts no stale callback, and closes no session
twice. -/
theorem batches_clean {idleSeconds now epollFd timerFd wakeupFd : Int} (ht : 0 ≤ timerFd)
    (hw : 0 ≤ wakeupFd) (hne : timerFd ≠ wakeupFd) {ops : List Step}
    (hops : Machine.Meets step (fun w op => Legal w op ∧ Spared w op)
      (start idleSeconds now epollFd timerFd wakeupFd) ops) :
    ∃ u, Machine.exec step (start idleSeconds now epollFd timerFd wakeupFd) ops = some u ∧
      Machine.Throughout step Clean (start idleSeconds now epollFd timerFd wakeupFd) ops := by
  have hs : (start idleSeconds now epollFd timerFd wakeupFd).Sound := sound_start ht hw hne
  have hn : NoStale (start idleSeconds now epollFd timerFd wakeupFd).log := by
    rw [(started_start idleSeconds now epollFd timerFd wakeupFd).log]
    intro before kind c after heq
    exact absurd heq.symm (by simp)
  obtain ⟨u, hu, -, hall⟩ := Machine.exec_progress
    (I := fun w => w.Sound ∧ NoStale w.log)
    (fun w op hI hC => step_progress hI.1 hI.2 hC.1 hC.2) hops ⟨hs, hn⟩
  exact ⟨u, hu, hall.mono fun w hI => ⟨hI.2, hI.1.past.once⟩⟩

/-- Two sessions.  One is read while a timer is to close the other; then the
timer fires, after the other's channel. -/
theorem batches_clean_two : ∃ u, Machine.exec step (start 1 0 3 4 5)
      [.call (.getNextFreeConnection 7), .call (.getNextFreeConnection 8),
        .call (.forceCloseWithDelay 2 0),
        .batch [.conn 1 { epollin := true } (.data 71 []) (.wrote 1) (.wrote 0),
          .conn 2 { epollout := true } .fail (.wrote 0) (.wrote 0), .own [.runTimer 0]],
        .batch [.conn 1 { epollhup := true } .fail (.wrote 0) (.wrote 0)]] = some u ∧
    Machine.Throughout step Clean (start 1 0 3 4 5)
      [.call (.getNextFreeConnection 7), .call (.getNextFreeConnection 8),
        .call (.forceCloseWithDelay 2 0),
        .batch [.conn 1 { epollin := true } (.data 71 []) (.wrote 1) (.wrote 0),
          .conn 2 { epollout := true } .fail (.wrote 0) (.wrote 0), .own [.runTimer 0]],
        .batch [.conn 1 { epollhup := true } .fail (.wrote 0) (.wrote 0)]] :=
  batches_clean (by decide) (by decide) (by decide) (by decide +kernel)

/-- A session whose peer has gone while the channel also reports `EPOLLOUT`: the
read closes the connection and the write callback runs. -/
theorem batches_clean_fails : ¬ ∀ (ops : List Step) (u : EventLoop),
    Machine.Meets step Legal (start 1 0 3 4 5) ops →
      Machine.exec step (start 1 0 3 4 5) ops = some u → Clean u := by
  intro hall
  have hlegal : Machine.Meets step Legal (start 1 0 3 4 5) [.call (.getNextFreeConnection 7),
      .batch [.conn 1 { epollin := true, epollout := true } .eof (.wrote 0) (.wrote 0)]] := by
    decide +kernel
  have hclean := hall _ _ hlegal (Option.some_get (by decide +kernel)).symm
  have hlog := hclean.noStale [.polled, .callback .read 1, .closed 1 1] .write 1 []
    (by decide +kernel)
  exact hlog (by decide)

end Batch

end WebServer
