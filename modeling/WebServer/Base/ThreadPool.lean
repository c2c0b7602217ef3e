/-
# `Base.ThreadPool` — the bounded queue of tasks

The class of `ThreadPool.{h,cc}` after `start`, with `n` worker threads and `m`
threads that call `run`.  The steps are the critical sections of `mutex_`, each
one pass of a wait loop, and what a worker does outside: its test of `running_`
and its task.  A thread that waits on a condition has its status there
(`Lib.Condition`); it comes back to its loop when it has been notified, or
spuriously.

A task is a function that is not empty; a slot of the ring, and what `take`
returns, may be empty too.  Moving a task out of its slot leaves something there
that is not specified, so it is part of the action.

`Fifo`: the tasks that `take` has returned, and those in the ring, read from
`head`, are the tasks accepted by `run`, in that order.  All of it is for a queue of
one slot at least; with none, nothing waits and the first access is out of range
(`indexed_iff`).
-/
import Mathlib.Data.Fintype.Pi
import WebServer.Lib.Machine
import WebServer.Lib.Ledger
import WebServer.Lib.Ring
import WebServer.Lib.Condition

namespace WebServer

open Machine

/-- An `int` where a `size_t` is expected. -/
def sizeT (i : Int) : Nat := (i % 2 ^ 64).toNat

theorem sizeT_of_nonneg {i : Int} (h : 0 ≤ i) (hint : i < 2 ^ 31) : (sizeT i : Int) = i := by
  have hmod : i % 2 ^ 64 = i := Int.emod_eq_of_lt h (by omega)
  rw [sizeT, hmod, Int.toNat_of_nonneg h]

structure ThreadPool (Task : Type) where
  head : Nat
  tail : Nat
  currentSize : Int
  taskQueue : List (Option Task)
  maxQueueSize : Nat
  running : Bool
  deriving DecidableEq

namespace ThreadPool

variable {Task : Type}

/-- What `start(numThreads, maxQueueSize)` makes of the queue. -/
def start (maxQueueSize : Nat) : ThreadPool Task where
  head := 0
  tail := 0
  currentSize := 0
  taskQueue := List.replicate maxQueueSize none
  maxQueueSize := maxQueueSize
  running := true

def isFullWithLock (p : ThreadPool Task) : Bool :=
  0 < p.maxQueueSize && p.head = p.tail && sizeT p.currentSize = p.maxQueueSize

def isEmptyWithLock (p : ThreadPool Task) : Bool :=
  0 < p.maxQueueSize && p.head = p.tail && p.currentSize = 0

/-- What `run(task)` does after its wait loop; `none` is an index out of range or
a division by zero. -/
def put (p : ThreadPool Task) (task : Task) : Option (ThreadPool Task) :=
  if p.tail < p.taskQueue.length ∧ p.maxQueueSize ≠ 0 then
    some { p with
      taskQueue := p.taskQueue.set p.tail (some task)
      tail := (p.tail + 1) % p.maxQueueSize, currentSize := p.currentSize + 1 }
  else none

/-- What `take()` does to a queue that is not empty, and the task it moves out. -/
def get (p : ThreadPool Task) (left : Option Task) :
    Option (Option Task × ThreadPool Task) := do
  let task ← p.taskQueue[p.head]?
  if p.maxQueueSize = 0 then none
  else some (task, { p with
    taskQueue := p.taskQueue.set p.head left
    head := (p.head + 1) % p.maxQueueSize, currentSize := p.currentSize - 1 })

/-- The ring, read from `head`. -/
def contents (p : ThreadPool Task) : List (Option Task) :=
  Ring.contents p.taskQueue p.head p.currentSize.toNat

/-! ## The ring -/

/-- `currentSize` counts the slots from `head` to `tail`. -/
structure Valid (p : ThreadPool Task) : Prop where
  pos : 0 < p.maxQueueSize
  int : p.maxQueueSize < 2 ^ 31
  length : p.taskQueue.length = p.maxQueueSize
  head : p.head < p.maxQueueSize
  nonneg : 0 ≤ p.currentSize
  le : p.currentSize ≤ p.maxQueueSize
  tail : (p.tail : Int) = (p.head + p.currentSize) % p.maxQueueSize

theorem valid_start {max : Nat} (hpos : 0 < max) (hint : max < 2 ^ 31) :
    (start max : ThreadPool Task).Valid where
  pos := hpos
  int := hint
  length := List.length_replicate
  head := hpos
  nonneg := le_refl 0
  le := Int.natCast_nonneg max
  tail := by simp [start]

variable {p q : ThreadPool Task}

theorem Valid.lt (hp : p.Valid) : p.tail < p.maxQueueSize := by
  have h := Int.emod_lt_of_pos (p.head + p.currentSize) (Int.natCast_pos.mpr hp.pos)
  rw [← hp.tail] at h
  exact Int.ofNat_lt.mp h

/-- The slot after the last item, as the ring counts it. -/
theorem Valid.tail_eq (hp : p.Valid) :
    p.tail = (p.head + p.currentSize.toNat) % p.taskQueue.length := by
  have h := hp.tail
  rw [← Int.toNat_of_nonneg hp.nonneg, ← hp.length] at h
  exact_mod_cast h

/-- `head` meets `tail` in a full ring and in an empty one. -/
theorem Valid.meet (hp : p.Valid) (h : p.currentSize = 0 ∨ p.currentSize = p.maxQueueSize) :
    p.head = p.tail := by
  have htail := hp.tail
  have hhead : (p.head : Int) % p.maxQueueSize = p.head :=
    Int.emod_eq_of_lt (Int.natCast_nonneg _) (Int.ofNat_lt.mpr hp.head)
  rcases h with h | h
  · rw [h, Int.add_zero, hhead] at htail
    exact (Int.ofNat_inj.mp htail).symm
  · rw [h, Int.add_emod_right, hhead] at htail
    exact (Int.ofNat_inj.mp htail).symm

theorem isFullWithLock_iff (hp : p.Valid) :
    p.isFullWithLock = true ↔ p.currentSize = p.maxQueueSize := by
  have hsize := sizeT_of_nonneg hp.nonneg (lt_of_le_of_lt hp.le (by exact_mod_cast hp.int))
  simp only [isFullWithLock, Bool.and_eq_true, decide_eq_true_eq]
  constructor
  · rintro ⟨-, h⟩
    rw [← hsize, h]
  · intro h
    exact ⟨⟨hp.pos, hp.meet (Or.inr h)⟩, Int.ofNat_inj.mp (hsize.trans h)⟩

theorem isEmptyWithLock_iff (hp : p.Valid) :
    p.isEmptyWithLock = true ↔ p.currentSize = 0 := by
  simp only [isEmptyWithLock, Bool.and_eq_true, decide_eq_true_eq]
  exact ⟨fun h => h.2, fun h => ⟨⟨hp.pos, hp.meet (Or.inl h)⟩, h⟩⟩

/-- The task behind the others. -/
structure Put (p : ThreadPool Task) (task : Task) (q : ThreadPool Task) : Prop where
  valid : q.Valid
  maxQueueSize : q.maxQueueSize = p.maxQueueSize
  running : q.running = p.running
  currentSize : q.currentSize = p.currentSize + 1
  contents : q.contents = p.contents ++ [some task]

theorem put_spec (hp : p.Valid) (hfree : p.currentSize < p.maxQueueSize) (task : Task) :
    ∃ q, p.put task = some q ∧ Put p task q := by
  have hnonneg := hp.nonneg
  have htail : p.tail < p.taskQueue.length := hp.length ▸ hp.lt
  refine ⟨_, if_pos ⟨htail, Nat.pos_iff_ne_zero.mp hp.pos⟩, ⟨?_, rfl, rfl, rfl, ?_⟩⟩
  · refine ⟨hp.pos, hp.int, ?_, hp.head, ?_, ?_, ?_⟩
    · exact List.length_set.trans hp.length
    · exact Int.add_nonneg hnonneg (by decide)
    · exact hfree
    · show (((p.tail + 1) % p.maxQueueSize : Nat) : Int) = _
      rw [Int.natCast_mod, Int.natCast_add, hp.tail, Int.emod_add_emod, Int.add_assoc]
      rfl
  · have hsize : (p.currentSize + 1).toNat = p.currentSize.toNat + 1 := by omega
    have hlt : p.currentSize.toNat < p.taskQueue.length := by
      rw [hp.length]
      omega
    show Ring.contents (p.taskQueue.set p.tail (some task)) p.head (p.currentSize + 1).toNat = _
    rw [hsize, hp.tail_eq]
    exact Ring.contents_push (some task) (hp.length ▸ hp.head) hlt

/-- The task in front taken. -/
structure Got (p : ThreadPool Task) (task : Option Task) (q : ThreadPool Task) : Prop where
  valid : q.Valid
  maxQueueSize : q.maxQueueSize = p.maxQueueSize
  running : q.running = p.running
  currentSize : q.currentSize = p.currentSize - 1
  contents : p.contents = task :: q.contents

theorem get_spec (hp : p.Valid) (hsome : 0 < p.currentSize) (left : Option Task) :
    ∃ task q, p.get left = some (task, q) ∧ Got p task q := by
  have hle := hp.le
  have hhead : p.head < p.taskQueue.length := hp.length ▸ hp.head
  have hget : p.get left = some (p.taskQueue[p.head], { p with
      taskQueue := p.taskQueue.set p.head left
      head := (p.head + 1) % p.maxQueueSize, currentSize := p.currentSize - 1 }) := by
    rw [get, List.getElem?_eq_getElem hhead]
    exact if_neg (Nat.pos_iff_ne_zero.mp hp.pos)
  refine ⟨_, _, hget, ⟨?_, rfl, rfl, rfl, ?_⟩⟩
  · refine ⟨hp.pos, hp.int, ?_, ?_, ?_, ?_, ?_⟩
    · exact List.length_set.trans hp.length
    · exact Nat.mod_lt _ hp.pos
    · show 0 ≤ p.currentSize - 1
      omega
    · show p.currentSize - 1 ≤ p.maxQueueSize
      omega
    · show (p.tail : Int) = (((p.head + 1) % p.maxQueueSize : Nat) + (p.currentSize - 1)) % _
      rw [hp.tail, Int.natCast_mod, Int.emod_add_emod]
      congr 1
      push_cast
      omega
  · have hsize : p.currentSize.toNat = (p.currentSize - 1).toNat + 1 := by omega
    have hlt : (p.currentSize - 1).toNat < p.taskQueue.length := by
      rw [hp.length]
      omega
    show Ring.contents p.taskQueue p.head p.currentSize.toNat = _ :: Ring.contents
      (p.taskQueue.set p.head left) ((p.head + 1) % p.maxQueueSize) (p.currentSize - 1).toNat
    rw [hsize, Ring.contents_succ hhead, ← hp.length, Ring.contents_pop left hhead hlt]

/-! ## The threads -/

/-- Where a worker stands in `runInThread`. -/
inductive Worker (Task : Type) where
  /-- Before the test of `running_`. -/
  | loop
  /-- In `take`. -/
  | take
  /-- With what `take` returned. -/
  | execute (task : Option Task)
  | finished
  deriving DecidableEq

structure State (Task : Type) (n m : Nat) where
  pool : ThreadPool Task
  notEmpty : Condition (Fin n)
  notFull : Condition (Fin m)
  workers : Fin n → Worker Task
  /-- The task that a producer is in `run` with. -/
  producers : Fin m → Option Task
  accepted : List Task
  taken : List (Option Task)
  deriving DecidableEq

variable {n m : Nat}

/-- After `start`. -/
def State.init (maxQueueSize : Nat) : State Task n m where
  pool := start maxQueueSize
  notEmpty := .idle
  notFull := .idle
  workers := fun _ => .loop
  producers := fun _ => none
  accepted := []
  taken := []

inductive Action (Task : Type) (n m : Nat) where
  /-- A producer calls `run`. -/
  | call (i : Fin m) (task : Task)
  /-- It has the mutex; with the worker that `notify` wakes. -/
  | run (i : Fin m) (choice : Option (Fin n))
  /-- The worker tests `running_`. -/
  | loop (w : Fin n)
  /-- It has the mutex; with what stays in the slot, and the producer that `notify` wakes. -/
  | take (w : Fin n) (left : Option Task) (choice : Option (Fin m))
  /-- It comes back from its task. -/
  | execute (w : Fin n)
  | stop
  /-- A spurious wakeup. -/
  | wakeProducer (i : Fin m)
  | wakeWorker (w : Fin n)

/-- One pass of the loop of `run(task)`, and what follows it; without threads the
task is called at once. -/
def run (s : State Task n m) (i : Fin m) (task : Task) (choice : Option (Fin n)) :
    Option (State Task n m) :=
  if n = 0 then some { s with producers := Function.update s.producers i none }
  else if s.pool.isFullWithLock then some { s with notFull := s.notFull.wait i }
  else do
    let pool ← s.pool.put task
    let notEmpty ← s.notEmpty.notify choice
    some { s with
      pool, notEmpty, notFull := s.notFull.leave i
      producers := Function.update s.producers i none, accepted := s.accepted ++ [task] }

/-- The notify at the end of `take()`. -/
def notifyNotFull (pool : ThreadPool Task) (notFull : Condition (Fin m))
    (choice : Option (Fin m)) : Option (Condition (Fin m)) :=
  if sizeT pool.currentSize < pool.maxQueueSize then notFull.notify choice else some notFull

/-- One pass of the loop of `take()`, and what follows it. -/
def take (s : State Task n m) (w : Fin n) (left : Option Task) (choice : Option (Fin m)) :
    Option (State Task n m) :=
  if s.pool.isEmptyWithLock && s.pool.running then
    some { s with notEmpty := s.notEmpty.wait w }
  else if s.pool.isEmptyWithLock then
    some { s with
      notEmpty := s.notEmpty.leave w
      workers := Function.update s.workers w (.execute none), taken := s.taken ++ [none] }
  else do
    let (task, pool) ← s.pool.get left
    let notFull ← notifyNotFull pool s.notFull choice
    some { s with
      pool, notFull, notEmpty := s.notEmpty.leave w
      workers := Function.update s.workers w (.execute task), taken := s.taken ++ [task] }

def step (s : State Task n m) : Action Task n m → Option (State Task n m)
  | .call i task =>
      if s.producers i = none then
        some { s with producers := Function.update s.producers i (some task) }
      else none
  | .run i choice =>
      match s.producers i with
      | some task => if s.notFull i ≠ .blocked then run s i task choice else none
      | none => none
  | .loop w =>
      match s.workers w with
      | .loop =>
          let next := if s.pool.running then .take else .finished
          some { s with workers := Function.update s.workers w next }
      | _ => none
  | .take w left choice =>
      match s.workers w with
      | .take => if s.notEmpty w ≠ .blocked then take s w left choice else none
      | _ => none
  | .execute w =>
      match s.workers w with
      | .execute _ => some { s with workers := Function.update s.workers w .loop }
      | _ => none
  | .stop =>
      some { s with
        pool := { s.pool with running := false }, notEmpty := s.notEmpty.notifyAll }
  | .wakeProducer i =>
      if s.notFull i = .blocked then some { s with notFull := s.notFull.leave i } else none
  | .wakeWorker w =>
      if s.notEmpty w = .blocked then some { s with notEmpty := s.notEmpty.leave w } else none

/-! ## What a step can do -/

theorem run_cases {s t : State Task n m} (hs : s.pool.Valid) {i : Fin m} {task : Task}
    {choice : Option (Fin n)} (h : run s i task choice = some t) :
    (n = 0 ∧ t = { s with producers := Function.update s.producers i none }) ∨
    (s.pool.currentSize = s.pool.maxQueueSize ∧ t = { s with notFull := s.notFull.wait i }) ∨
    (s.pool.currentSize < s.pool.maxQueueSize ∧ ∃ pool notEmpty, Put s.pool task pool ∧
      s.notEmpty.notify choice = some notEmpty ∧
      t = { s with
        pool, notEmpty, notFull := s.notFull.leave i
        producers := Function.update s.producers i none, accepted := s.accepted ++ [task] }) := by
  rw [run] at h
  split at h
  · exact Or.inl ⟨‹_›, (Option.some.inj h).symm⟩
  · split at h
    · exact Or.inr (Or.inl ⟨(isFullWithLock_iff hs).mp ‹_›, (Option.some.inj h).symm⟩)
    · have hfree : s.pool.currentSize < s.pool.maxQueueSize :=
        lt_of_le_of_ne hs.le (mt (isFullWithLock_iff hs).mpr ‹_›)
      obtain ⟨pool, hput, h⟩ := Option.bind_eq_some_iff.mp h
      obtain ⟨notEmpty, hnotify, h⟩ := Option.bind_eq_some_iff.mp h
      obtain ⟨pool', hput', hspec⟩ := put_spec hs hfree task
      obtain rfl := Option.some.inj (hput.symm.trans hput')
      exact Or.inr (Or.inr ⟨hfree, pool, notEmpty, hspec, hnotify, (Option.some.inj h).symm⟩)

theorem take_cases {s t : State Task n m} (hs : s.pool.Valid) {w : Fin n}
    {left : Option Task} {choice : Option (Fin m)} (h : take s w left choice = some t) :
    (s.pool.currentSize = 0 ∧ s.pool.running = true ∧
      t = { s with notEmpty := s.notEmpty.wait w }) ∨
    (s.pool.currentSize = 0 ∧ s.pool.running = false ∧
      t = { s with
        notEmpty := s.notEmpty.leave w
        workers := Function.update s.workers w (.execute none), taken := s.taken ++ [none] }) ∨
    (0 < s.pool.currentSize ∧ ∃ task pool notFull, Got s.pool task pool ∧
      s.notFull.notify choice = some notFull ∧
      t = { s with
        pool, notFull, notEmpty := s.notEmpty.leave w
        workers := Function.update s.workers w (.execute task)
        taken := s.taken ++ [task] }) := by
  rw [take] at h
  by_cases hempty : s.pool.isEmptyWithLock = true
  · have hsize := (isEmptyWithLock_iff hs).mp hempty
    cases hrunning : s.pool.running with
    | true =>
        rw [hempty, hrunning, if_pos rfl] at h
        exact Or.inl ⟨hsize, rfl, (Option.some.inj h).symm⟩
    | false =>
        rw [hempty, hrunning, if_neg nofun, if_pos rfl] at h
        exact Or.inr (Or.inl ⟨hsize, rfl, (Option.some.inj h).symm⟩)
  · have hsome : 0 < s.pool.currentSize :=
      lt_of_le_of_ne hs.nonneg (Ne.symm (mt (isEmptyWithLock_iff hs).mpr hempty))
    rw [if_neg (by simp [hempty]), if_neg hempty] at h
    obtain ⟨⟨task, pool⟩, hget, h⟩ := Option.bind_eq_some_iff.mp h
    obtain ⟨notFull, hnotify, h⟩ := Option.bind_eq_some_iff.mp h
    obtain ⟨task', pool', hget', hspec⟩ := get_spec hs hsome left
    obtain ⟨rfl, rfl⟩ := Prod.mk.inj (Option.some.inj (hget.symm.trans hget'))
    have hfree : sizeT pool.currentSize < pool.maxQueueSize := by
      have hsize := sizeT_of_nonneg hspec.valid.nonneg
        (lt_of_le_of_lt hspec.valid.le (by exact_mod_cast hspec.valid.int))
      have hle := hs.le
      rw [hspec.currentSize] at hsize
      rw [hspec.maxQueueSize, hspec.currentSize]
      omega
    rw [notifyNotFull, if_pos hfree] at hnotify
    exact Or.inr (Or.inr
      ⟨hsome, task, pool, notFull, hspec, hnotify, (Option.some.inj h).symm⟩)

theorem run_of_step {s t : State Task n m} {i : Fin m} {choice : Option (Fin n)}
    (h : step s (.run i choice) = some t) : ∃ task, run s i task choice = some t := by
  rw [step] at h
  split at h
  · exact ⟨_, (Option.ite_none_right_eq_some.mp h).2⟩
  · cases h

theorem loop_of_step {s t : State Task n m} {w : Fin n} (h : step s (.loop w) = some t) :
    t = { s with
      workers := Function.update s.workers w
        (if s.pool.running = true then .take else .finished) } := by
  rw [step] at h
  split at h
  · exact (Option.some.inj h).symm
  · cases h

theorem take_of_step {s t : State Task n m} {w : Fin n} {left : Option Task}
    {choice : Option (Fin m)} (h : step s (.take w left choice) = some t) :
    take s w left choice = some t := by
  rw [step] at h
  split at h
  · exact (Option.ite_none_right_eq_some.mp h).2
  · cases h

theorem execute_of_step {s t : State Task n m} {w : Fin n} (h : step s (.execute w) = some t) :
    t = { s with workers := Function.update s.workers w .loop } := by
  rw [step] at h
  split at h
  · exact (Option.some.inj h).symm
  · cases h

/-! ## Nothing is lost, doubled or overtaken -/

/-- The queue as a conduit of tasks. -/
def ledger (s : State Task n m) : Ledger (Option Task) where
  offered := s.accepted.map some
  delivered := s.taken.filter Option.isSome
  held := s.pool.contents

/-- The queue's sizes and indices, and the tasks that went through it. -/
structure Fifo (s : State Task n m) : Prop where
  nonneg : 0 ≤ s.pool.currentSize
  le : s.pool.currentSize ≤ s.pool.maxQueueSize
  tail : (s.pool.tail : Int) = (s.pool.head + s.pool.currentSize) % s.pool.maxQueueSize
  order : s.taken.filter Option.isSome ++ s.pool.contents = s.accepted.map some

structure Sound (s : State Task n m) : Prop where
  valid : s.pool.Valid
  lossless : (ledger s).Lossless

theorem sound_init {max : Nat} (hpos : 0 < max) (hint : max < 2 ^ 31) :
    Sound (State.init max : State Task n m) :=
  ⟨valid_start hpos hint, rfl⟩

/-- What leaves the queue is not empty: it went in. -/
theorem Sound.isSome {s : State Task n m} (hs : Sound s) {task : Option Task}
    {rest : List (Option Task)} (h : s.pool.contents = task :: rest) : task.isSome := by
  have hmem : task ∈ s.accepted.map some := by
    have hlossless : s.taken.filter Option.isSome ++ s.pool.contents = s.accepted.map some :=
      hs.lossless
    rw [← hlossless, h]
    exact List.mem_append_right _ List.mem_cons_self
  obtain ⟨a, -, rfl⟩ := List.mem_map.mp hmem
  rfl

theorem run_sound {s t : State Task n m} (hs : Sound s) {i : Fin m} {task : Task}
    {choice : Option (Fin n)} (h : run s i task choice = some t) : Sound t := by
  rcases run_cases hs.valid h with ⟨-, rfl⟩ | ⟨-, rfl⟩ | ⟨-, pool, notEmpty, hput, -, rfl⟩
  · exact ⟨hs.valid, hs.lossless⟩
  · exact ⟨hs.valid, hs.lossless⟩
  · refine ⟨hput.valid, ?_⟩
    have haccept := (Ledger.lossless_accept hs.lossless).mpr (rfl : [some task] = _)
    rw [Ledger.accept, ledger, ← hput.contents] at haccept
    rw [ledger, List.map_append]
    exact haccept

theorem take_sound {s t : State Task n m} (hs : Sound s) {w : Fin n} {left : Option Task}
    {choice : Option (Fin m)} (h : take s w left choice = some t) : Sound t := by
  rcases take_cases hs.valid h with
    ⟨-, -, rfl⟩ | ⟨-, -, rfl⟩ | ⟨-, task, pool, notFull, hgot, -, rfl⟩
  · exact ⟨hs.valid, hs.lossless⟩
  · refine ⟨hs.valid, ?_⟩
    rw [ledger, List.filter_append, List.filter_cons_of_neg Bool.false_ne_true, List.filter_nil,
      List.append_nil]
    exact hs.lossless
  · refine ⟨hgot.valid, ?_⟩
    have htask := hs.isSome hgot.contents
    have hdeliver := (Ledger.lossless_deliver (n := 1)).mpr hs.lossless
    rw [Ledger.deliver, ledger, hgot.contents] at hdeliver
    rw [ledger, List.filter_append, List.filter_cons_of_pos htask]
    exact hdeliver

theorem step_sound {s t : State Task n m} (hs : Sound s) {a : Action Task n m}
    (h : step s a = some t) : Sound t := by
  cases a with
  | call i task =>
      obtain ⟨-, h⟩ := Option.ite_none_right_eq_some.mp h
      cases h
      exact ⟨hs.valid, hs.lossless⟩
  | run i choice =>
      obtain ⟨task, h⟩ := run_of_step h
      exact run_sound hs h
  | loop w =>
      cases loop_of_step h
      exact ⟨hs.valid, hs.lossless⟩
  | take w left choice => exact take_sound hs (take_of_step h)
  | execute w =>
      cases execute_of_step h
      exact ⟨hs.valid, hs.lossless⟩
  | stop =>
      cases h
      exact ⟨{ hs.valid with }, hs.lossless⟩
  | wakeProducer i =>
      obtain ⟨-, h⟩ := Option.ite_none_right_eq_some.mp h
      cases h
      exact ⟨hs.valid, hs.lossless⟩
  | wakeWorker w =>
      obtain ⟨-, h⟩ := Option.ite_none_right_eq_some.mp h
      cases h
      exact ⟨hs.valid, hs.lossless⟩

/-- In every reachable state, the tasks taken and those in the ring are the tasks
accepted, in order. -/
theorem fifo {max : Nat} (hpos : 1 ≤ max) (hint : max < 2 ^ 31) {s : State Task n m}
    (h : Reachable step (State.init max) s) : Fifo s := by
  have hs := h.invariant (fun s a t hs ha => step_sound hs ha) (sound_init hpos hint)
  exact ⟨hs.valid.nonneg, hs.valid.le, hs.valid.tail, hs.lossless⟩

/-- Three tasks through one slot, the last still in it, the producer woken once for nothing. -/
theorem fifo_oneSlot : ∃ s : State Nat 1 1, s.accepted = [5, 6, 7] ∧ Fifo s := by
  have h : (exec step (State.init 1 : State Nat 1 1)
      [.call 0 5, .run 0 none, .call 0 6, .run 0 none, .wakeProducer 0, .run 0 none, .loop 0,
        .take 0 (some 9) (some 0), .run 0 none, .execute 0, .loop 0, .take 0 none none, .stop,
        .call 0 7, .run 0 none]).map (fun s => s.accepted) = some [5, 6, 7] := by decide +kernel
  obtain ⟨s, hs, haccepted⟩ := Option.map_eq_some_iff.mp h
  exact ⟨s, haccepted, fifo (le_refl 1) (by decide) ⟨_, hs⟩⟩

/-! ## Indices -/

/-- A producer is past its wait loop, at `taskQueue_[tail]`. -/
def Puts (s : State Task n m) (i : Fin m) : Prop :=
  n ≠ 0 ∧ s.producers i ≠ none ∧ s.notFull i ≠ .blocked ∧ s.pool.isFullWithLock = false

/-- A worker is past its wait loop, at `taskQueue_[head]`. -/
def Takes (s : State Task n m) (w : Fin n) : Prop :=
  s.workers w = .take ∧ s.notEmpty w ≠ .blocked ∧ s.pool.isEmptyWithLock = false

/-- The slot that is accessed is one of the vector, and the remainder is by no zero. -/
structure Indexed (s : State Task n m) : Prop where
  put : ∀ i, Puts s i → s.pool.tail < s.pool.taskQueue.length ∧ s.pool.maxQueueSize ≠ 0
  take : ∀ w, Takes s w → s.pool.head < s.pool.taskQueue.length ∧ s.pool.maxQueueSize ≠ 0

theorem Valid.indexed {s : State Task n m} (hs : s.pool.Valid) : Indexed s where
  put := fun _ _ => ⟨hs.length ▸ hs.lt, hs.pos.ne'⟩
  take := fun _ _ => ⟨hs.length ▸ hs.head, hs.pos.ne'⟩

/-- Without a slot no queue is ever empty: the first worker that asks for a task goes
past its wait loop. -/
theorem not_indexed_noSlot (w : Fin n) : ∃ s : State Task n m,
    Reachable step (State.init 0) s ∧ ¬ Indexed s := by
  have hrunning : (State.init 0 : State Task n m).pool.running = true := rfl
  refine ⟨_, ⟨[.loop w], exec_cons.mpr ⟨_, rfl, rfl⟩⟩, fun hindexed => ?_⟩
  have htakes := hindexed.take w ⟨?_, nofun, rfl⟩
  · exact htakes.2 rfl
  · dsimp only
    rw [Function.update_self, hrunning, if_pos rfl]

/-- With `n ≥ 1` threads and any size of the queue that is an `int`: over every
interleaving of `run`, `take` and `stop`, all accesses are to slots of the vector, and no
remainder is by zero, exactly when the size is not 0. -/
theorem indexed_iff (hn : 1 ≤ n) {max : Nat} (hint : max < 2 ^ 31) :
    (∀ s : State Task n m, Reachable step (State.init max) s → Indexed s) ↔ 0 < max := by
  constructor
  · intro hall
    refine Nat.pos_of_ne_zero ?_
    rintro rfl
    obtain ⟨s, hs, hnot⟩ := not_indexed_noSlot (⟨0, hn⟩ : Fin n)
    exact hnot (hall s hs)
  · intro hpos s hs
    exact (hs.invariant (fun _ _ _ h ha => step_sound h ha)
      (sound_init hpos hint)).valid.indexed

/-- Two workers, a queue of three, and a task in it. -/
theorem indexed_three : ∃ s : State Nat 2 1, s.pool.currentSize = 1 ∧ Indexed s := by
  have hgo : (exec step (State.init 3 : State Nat 2 1)
      [.call 0 5, .loop 0, .run 0 none, .loop 1, .call 0 6]).map
        (fun s => s.pool.currentSize) = some 1 := by
    decide
  obtain ⟨s, hs, hsize⟩ := Option.map_eq_some_iff.mp hgo
  exact ⟨s, hsize, (indexed_iff (by decide) (by decide)).mpr (by decide) s ⟨_, hs⟩⟩

/-- A queue of no slots, which is one that `start` accepts. -/
theorem indexed_fails :
    ¬ ∀ s : State Nat 1 1, Reachable step (State.init 0) s → Indexed s := by
  intro hall
  obtain ⟨s, hs, hnot⟩ := not_indexed_noSlot (0 : Fin 1)
  exact hnot (hall s hs)

end ThreadPool

end WebServer
