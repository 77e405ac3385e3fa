import Mathlib.Data.Nat.Count
import Umcg.Attempt2.Transitions

/-!
# How long a call of `handle_event` and of `try_schedule_tasks` takes

`Call` follows the thread of a server through one call. The shared queue holds a number of tasks
and nothing is submitted; a `Reply` is what the surroundings answer if the thread asks them: the
outcome of `remove_task` (which other servers may have emptied before), of a send and of a context
switch. `Call.after replies c k` is the call `c` after `k` steps, whatever the answers are.

A nested `handle_event` is made only after a `WAKE` that has taken a worker out of `Blocked`, and
a worker gets back there only in a call that makes no further one. So the number of `Blocked`
workers bounds the depth.

## Main results

* `Call.handle_event_returns` : a call of `handle_event` makes at most as many context switches,
  and nested calls, as there are `Blocked` workers, and returns.
* `Call.spins` : `try_schedule_tasks` does not return from a state in which workers are pending
  and none of them is `Waiting`.
* `Call.try_schedule_tasks_returns` : it does return when no `WAIT` has been handled of a worker
  that was not `Running`.
-/

namespace Umcg.Attempt2

variable {τ : Type}

/-- What the surroundings of a server answer, if they are asked. -/
structure Reply (τ : Type) where
  task : Option τ
  sent : Bool
  switch : SwitchAnswer

/-- A server in a call, and the number of tasks in the shared queue. -/
structure Call (τ : Type) where
  server : Server τ
  tasks : ℕ

namespace Control

/-- The depth and the outermost caller of the call of `handle_event` that control is in. -/
def frame : Control τ → Option (ℕ × Caller)
  | handleEvent _ d c | ctxSwitch _ (.handleEvent d c) => some (d, c)
  | _ => none

/-- The event that is about to be handled. -/
def event : Control τ → Option UInt64
  | handleEvent e _ _ => some e
  | _ => none

/-- Control is at the head of the loop of `try_schedule_tasks`. -/
def atHead : Control τ → Bool
  | popPending => true
  | _ => false

end Control

namespace Call

/-- The input of the next step of the call; outside of a call there is none. -/
def ask (c : Call τ) (r : Reply τ) : Option (Input τ) :=
  match c.server.control with
  | .popPending | .handleEvent _ _ _ => some .tau
  | .removeTask _ => some (.removed (if c.tasks = 0 then none else r.task))
  | .sendTask _ _ => some (.sent r.sent)
  | .ctxSwitch _ _ => some (.switched r.switch)
  | .registering _ | .registerSwitch _ _ | .eventLoop _ => none

/-- The next step of the call. -/
def next (c : Call τ) (r : Reply τ) : Call τ :=
  match c.ask r with
  | some i =>
    { server := (c.server.step i).getD c.server
      tasks :=
        match i with
        | .removed (some _) => c.tasks - 1
        | _ => c.tasks }
  | none => c

/-- The call after `k` steps. -/
def after (replies : ℕ → Reply τ) (c : Call τ) : ℕ → Call τ
  | 0 => c
  | k + 1 => (after replies c k).next (replies k)

variable {c : Call τ} {replies : ℕ → Reply τ}

theorem after_succ (replies : ℕ → Reply τ) (c : Call τ) (k : ℕ) :
    after replies c (k + 1) = (after replies c k).next (replies k) := rfl

theorem after_add (replies : ℕ → Reply τ) (c : Call τ) (j k : ℕ) :
    after replies c (j + k) = after (fun m => replies (j + m)) (after replies c j) k := by
  induction k with
  | zero => rfl
  | succ k ih => rw [← Nat.add_assoc, after_succ, after_succ, ih]

/-! ### `handle_event` -/

/-- The number of workers that are `Blocked`. -/
def blocked (c : Call τ) : ℕ := c.server.states.count (· == .blocked)

variable {e w : UInt64} {d d' b b' k m : ℕ} {caller : Caller}

/-- `handle_event` returns, unless it resumes a worker, which is then not `Blocked` any more. -/
theorem next_handleEvent (hc : c.server.control = .handleEvent e d caller) (r : Reply τ) :
    (c.next r).tasks = c.tasks ∧
      ((∃ o, (c.next r).server.control = Server.resume o caller) ∨
        (c.next r).server.control = .ctxSwitch (workerId e) (.handleEvent d caller) ∧
          (c.next r).blocked + 1 = c.blocked) := by
  have hnext : c.next r = ⟨c.server.handleEvent e d caller, c.tasks⟩ := by
    simp [next, ask, Server.step, hc]
  have hmove : Server.Move c.server .tau (c.server.handleEvent e d caller) :=
    Server.move_of_step (by simp [hc, Control.Serving]) (by simp [Server.step, hc])
  refine ⟨by rw [hnext], ?_⟩
  rw [hnext]
  generalize c.server.handleEvent e d caller = t at hmove ⊢
  cases hmove
  case wake hc' _ hw =>
    cases hc.symm.trans hc'
    obtain ⟨hk, hv⟩ := (c.server.states.get?_eq_some_iff).mp hw
    have hset := c.server.states.count_set (a := .running) (· == .blocked) hk
    rw [hv] at hset
    exact .inr ⟨rfl, hset⟩
  case block hc' _ _ | wait hc' _ _ | waitUnexpected hc' _ _ _ | ignored hc' _ | invalid hc' _ =>
    cases hc.symm.trans hc'
    exact .inl ⟨_, rfl⟩
  case popEmpty hc' _ | popUnknown hc' _ _ | popCritical hc' _ _ _ | popWaiting hc' _ _ =>
    cases hc.symm.trans hc'

/-- The switch of `handle_event` changes no status; the call returns or makes a nested one. -/
theorem next_ctxSwitch (hc : c.server.control = .ctxSwitch w (.handleEvent d caller))
    (r : Reply τ) : (c.next r).tasks = c.tasks ∧ (c.next r).blocked = c.blocked ∧
      ((∃ o, (c.next r).server.control = Server.resume o caller) ∨
        ∃ e', (c.next r).server.control = .handleEvent e' (d + 1) caller) := by
  have hnext : c.next r = ⟨c.server.switched r.switch (.handleEvent d caller), c.tasks⟩ := by
    simp [next, ask, Server.step, hc]
  rw [hnext]
  unfold Server.switched
  dsimp only
  split
  · exact ⟨rfl, rfl, .inl ⟨.ok, rfl⟩⟩
  · exact ⟨rfl, rfl, .inr ⟨_, rfl⟩⟩

/-- The call of `handle_event` at depth `d` returns after `k` steps, makes nested calls down to
the depth `d + b` at most and at most `b` context switches, and takes no task. -/
structure Returns (replies : ℕ → Reply τ) (c : Call τ) (d : ℕ) (caller : Caller) (b k : ℕ) :
    Prop where
  frame : ∀ j < k, ∃ d', (after replies c j).server.control.frame = some (d', caller) ∧
    d ≤ d' ∧ d' ≤ d + b
  switches : Nat.count (fun j => (after replies c j).server.control.target.isSome) k ≤ b
  ret : ∃ o, (after replies c k).server.control = Server.resume o caller
  tasks : (after replies c k).tasks = c.tasks

/-- A step of the call that leads to a state in which the rest of it returns; it may be the start
of a context switch. -/
theorem Returns.step (h : Returns (fun j => replies (1 + j)) (c.next (replies 0)) d' caller b' k)
    (hf : c.server.control.frame = some (d, caller)) (ht : (c.next (replies 0)).tasks = c.tasks)
    (hd : d ≤ d') (hb : d' + b' ≤ d + b)
    (hs : b' + (if c.server.control.target.isSome then 1 else 0) ≤ b) :
    Returns replies c d caller b (1 + k) where
  frame j hj := by
    cases j with
    | zero => exact ⟨d, hf, le_rfl, Nat.le_add_right ..⟩
    | succ j =>
      obtain ⟨d'', h₁, h₂, h₃⟩ := h.frame j (by omega)
      rw [Nat.add_comm j, after_add]
      exact ⟨d'', h₁, by omega, by omega⟩
  switches := by
    have hrest := h.switches
    simp only [Nat.count_add, after_add replies c 1, Nat.count_succ, Nat.count_zero, zero_add]
    exact (Nat.add_comm _ _).trans_le ((Nat.add_le_add_right hrest _).trans hs)
  ret := by
    rw [after_add]
    exact h.ret
  tasks := by
    rw [after_add]
    exact h.tasks.trans ht

theorem Returns.done {o : Outcome} (h : c.server.control = Server.resume o caller) (d b : ℕ) :
    Returns replies c d caller b 0 where
  frame j hj := absurd hj (Nat.not_lt_zero j)
  switches := Nat.zero_le b
  ret := ⟨o, h⟩
  tasks := rfl

-- induction on the number of `Blocked` workers: every round through a switch uses one up
theorem exists_returns (replies : ℕ → Reply τ) (b : ℕ)
    (hc : c.server.control = .handleEvent e d caller) (hb : c.blocked = b) :
    ∃ k, Returns replies c d caller b k := by
  induction b generalizing c e d replies with
  | zero =>
    obtain ⟨ht, ⟨o, ho⟩ | ⟨-, hlt⟩⟩ := next_handleEvent hc (replies 0)
    · exact ⟨_, (Returns.done ho d 0).step (by rw [hc]; rfl) ht le_rfl le_rfl (by rw [hc]; rfl)⟩
    · omega
  | succ b ih =>
    have hstart {k : ℕ} (h : Returns (fun j => replies (1 + j)) (c.next (replies 0)) d caller
        (b + 1) k) : Returns replies c d caller (b + 1) (1 + k) :=
      h.step (by rw [hc]; rfl) (next_handleEvent hc _).1 le_rfl le_rfl
        (by simp [hc, Control.target])
    obtain ⟨-, ⟨o, ho⟩ | ⟨hw, hlt⟩⟩ := next_handleEvent hc (replies 0)
    · exact ⟨_, hstart (.done ho d _)⟩
    · obtain ⟨ht, hsame, ⟨o, ho⟩ | ⟨e', he'⟩⟩ := next_ctxSwitch hw (replies 1)
      · exact ⟨_, hstart (((Returns.done ho d b).step (by rw [hw]; rfl) ht le_rfl (by omega)
          (by simp [hw, Control.target])))⟩
      · obtain ⟨k, hk⟩ := ih (fun j => replies (1 + (1 + j))) he' (by omega)
        exact ⟨_, hstart (hk.step (by rw [hw]; rfl) ht (Nat.le_succ d) (by omega)
          (by simp [hw, Control.target]))⟩

/-- A call of `handle_event` at depth `d` with `b` workers `Blocked` returns, whatever the kernel
answers to its context switches: it makes at most `b` of them, and no nested call is deeper than
`d + b`. -/
theorem handle_event_returns (s : Server τ) (event : UInt64) (d : ℕ) (caller : Caller) (n : ℕ)
    (replies : ℕ → Reply τ) :
    let c : Call τ := ⟨{ s with control := .handleEvent event d caller }, n⟩
    ∃ k o, (after replies c k).server.control = Server.resume o caller ∧
      (∀ j < k, ∃ d', (after replies c j).server.control.frame = some (d', caller) ∧
        d ≤ d' ∧ d' ≤ d + s.states.count (· == .blocked)) ∧
      Nat.count (fun j => (after replies c j).server.control.target.isSome) k ≤
        s.states.count (· == .blocked) := by
  intro c
  obtain ⟨k, hk⟩ := exists_returns (c := c) replies _ rfl rfl
  obtain ⟨o, ho⟩ := hk.ret
  exact ⟨k, o, ho, hk.frame, hk.switches⟩

end Call

/-! ### The workers that `try_schedule_tasks` pops -/

namespace Server

variable {s t : Server τ} {i : Input τ} {w : UInt64}

/-- A `WAIT` that is about to be handled is of a `Running` worker or of no worker of the table. -/
def WaitExpected (s : Server τ) : Prop :=
  ∀ e ∈ s.control.event, eventType e = some .wait →
    s.states.get? (workerId e) = none ∨ s.states.get? (workerId e) = some .running

instance (s : Server τ) : Decidable s.WaitExpected :=
  Option.decidableForallMem (p := fun e => eventType e = some .wait →
    s.states.get? (workerId e) = none ∨ s.states.get? (workerId e) = some .running) s.control.event

/-- The pending workers are `Waiting` and different, and so is the one that has been popped. -/
structure PendingWaiting (s : Server τ) : Prop where
  serving : s.control.Serving
  waiting : ∀ w ∈ s.pending.items, s.states.get? w = some .waiting
  nodup : s.pending.items.Nodup
  popped : ∀ w, s.control = .removeTask w →
    s.states.get? w = some .waiting ∧ w ∉ s.pending.items

theorem PostRegistration.pendingWaiting (h : PostRegistration s) : PendingWaiting s where
  serving := h.serving
  waiting w hw := h.get?_eq_waiting.mpr (h.pending.mem_iff.mp hw)
  nodup := h.pending.nodup_iff.mpr s.states.nodup
  popped w hc := by simpa [hc, Control.AtReturn] using h.control

/-- The invariant only depends on the pending queue and on the statuses of its workers. -/
private theorem PendingWaiting.congr (h : PendingWaiting s)
    (hp : t.pending.items = s.pending.items)
    (hst : ∀ x ∈ s.pending.items, t.states.get? x = s.states.get? x) (hs : t.control.Serving)
    (hc : ∀ w, t.control ≠ .removeTask w) : PendingWaiting t where
  serving := hs
  waiting w hw := (hst w (hp ▸ hw)).trans (h.waiting w (hp ▸ hw))
  nodup := hp ▸ h.nodup
  popped w hw := absurd hw (hc w)

theorem pushPending_items (s : Server τ) (w : UInt64) :
    (s.pushPending w).pending.items = s.pending.items ++ [w] ∨
      (s.pushPending w).pending.items = s.pending.items := by
  unfold pushPending
  split
  · exact .inl (BoundedQueue.push_eq_some_iff.mp ‹_›).2.2
  · exact .inr rfl

/-- The push of a worker that has become `Waiting` and is not pending. -/
private theorem PendingWaiting.push (h : PendingWaiting s) {c : Control τ}
    (hp : t.pending.items = s.pending.items)
    (hst : ∀ x ∈ s.pending.items, t.states.get? x = s.states.get? x)
    (hw : t.states.get? w = some .waiting) (hnot : w ∉ s.pending.items) (hs : c.Serving)
    (hc : ∀ x, c ≠ .removeTask x) : PendingWaiting { t.pushPending w with control := c } := by
  have ht : PendingWaiting { t with control := c } := h.congr hp hst hs hc
  rcases pushPending_items t w with hi | hi
  · refine ⟨hs, fun x hx => ?_, ?_, fun x hx => absurd hx (hc x)⟩
    · change (t.pushPending w).states.get? x = _
      rw [pushPending_states]
      rcases List.mem_append.mp (hi ▸ hx) with hx | hx
      · exact ht.waiting x hx
      · exact List.mem_singleton.mp hx ▸ hw
    · change (t.pushPending w).pending.items.Nodup
      rw [hi, hp]
      exact h.nodup.append (List.nodup_singleton w) (by simpa [List.disjoint_singleton] using hnot)
  · exact ht.congr hi (fun x _ => by simp) hs hc

/-- A worker that is not `Waiting` is not pending. -/
private theorem PendingWaiting.notMem (h : PendingWaiting s) {st : WorkerStatus}
    (hw : s.states.get? w = some st) (hst : st ≠ .waiting) : w ∉ s.pending.items := by
  intro hx
  exact hst (Option.some.inj (hw.symm.trans (h.waiting w hx)))

/-- The steps keep the invariant while no unexpected `WAIT` is handled. -/
theorem PendingWaiting.move (h : PendingWaiting s) (hok : s.WaitExpected) (hm : Move s i t) :
    PendingWaiting t := by
  have hset {w : UInt64} {st : WorkerStatus} (hw : w ∉ s.pending.items) :
      ∀ x ∈ s.pending.items, (s.states.set w st).get? x = s.states.get? x := by
    intro x hx
    exact s.states.get?_set_of_ne (ne_of_mem_of_not_mem hx hw)
  cases hm with
  | schedule | recv | popEmpty | noChannel | sentOk | sendFailed | switchedNested =>
    exact h.congr rfl (fun _ _ => rfl) trivial (by simp)
  | unmanaged hc => exact h.congr rfl (fun _ _ => rfl) h.serving (by simp [diagnose, hc])
  | popUnknown hc hq hw =>
    have hw' := h.waiting _ (BoundedQueue.mem_of_pop hq)
    simp [hw] at hw'
  | popCritical hc hq hw hst =>
    exact absurd (BoundedQueue.mem_of_pop hq) (h.notMem hw hst)
  | @popWaiting w q hc hq hw =>
    have hitems := (BoundedQueue.pop_eq_some_iff.mp hq).1
    obtain ⟨hnot, hnodup⟩ := List.nodup_cons.mp (hitems ▸ h.nodup)
    refine ⟨trivial, fun x hx => h.waiting x (hitems ▸ List.mem_cons_of_mem w hx), hnodup, ?_⟩
    rintro x ⟨⟩
    exact ⟨hw, hnot⟩
  | @noTask w hc =>
    obtain ⟨hw, hnot⟩ := h.popped w hc
    exact h.push rfl (fun _ _ => rfl) hw hnot trivial (by simp)
  | @dispatch w task q hc hw hq =>
    exact h.congr rfl (hset (h.popped w hc).2) trivial (by simp)
  | @runningFull w task hc hw hq =>
    obtain ⟨hwait, hnot⟩ := h.popped w hc
    have hstates : (((s.setStatus w .running).diagnose (.runningFull w)).setStatus w
        .waiting).states = s.states.set w .waiting := by simp
    refine h.push rfl (hstates ▸ hset hnot) ?_ hnot trivial (by simp)
    rw [hstates]
    exact s.states.get?_set_self (s.states.mem_keys_of_get? hwait)
  | switchedBack hc =>
    exact h.congr rfl (fun _ _ => rfl) (serving_nextEvent _) (nextEvent_ne_removeTask _)
  | switchedSilent | ignored | invalid =>
    exact h.congr rfl (fun _ _ => rfl) (serving_resume _ _) (resume_ne_removeTask _ _)
  | block hc he hw =>
    exact h.congr rfl (hset (h.notMem hw (by simp))) (serving_resume _ _)
      (resume_ne_removeTask _ _)
  | wake hc he hw => exact h.congr rfl (hset (h.notMem hw (by simp))) trivial (by simp)
  | wait hc he hw =>
    have hnot := h.notMem hw (by simp)
    exact h.push (t := (s.setStatus _ .waiting).popRunning) rfl (hset hnot)
      (s.states.get?_set_self (s.states.mem_keys_of_get? hw)) hnot (serving_resume _ _)
      (resume_ne_removeTask _ _)
  | waitUnexpected hc he hw hst =>
    have hwait := hok _ (by rw [hc]; rfl) he
    simp [hw, hst] at hwait

end Server

/-! ### `try_schedule_tasks` -/

namespace Call

variable {c : Call τ} {replies : ℕ → Reply τ} {w : UInt64} {b b' m n : ℕ}

/-- A step of a call is a step of the server. -/
theorem next_server (c : Call τ) (r : Reply τ) :
    (c.next r).server = c.server ∨ ∃ i, c.server.step i = some (c.next r).server := by
  unfold next
  split
  · rename_i i _
    cases ht : c.server.step i with
    | none => exact .inl rfl
    | some t => exact .inr ⟨i, ht⟩
  · exact .inl rfl

/-- A call of a server whose pending workers are `Waiting`, in which no unexpected `WAIT` is
handled. -/
structure Calm (replies : ℕ → Reply τ) (c : Call τ) : Prop where
  pending : c.server.PendingWaiting
  expected : ∀ k, (after replies c k).server.WaitExpected

theorem Calm.after (h : Calm replies c) (m : ℕ) :
    Calm (fun j => replies (m + j)) (after replies c m) where
  pending := by
    induction m with
    | zero => exact h.pending
    | succ m ih =>
      rcases next_server (Call.after replies c m) (replies m) with hsame | ⟨i, hstep⟩
      · rw [after_succ, hsame]
        exact ih
      · exact ih.move (h.expected m) (Server.move_of_step ih.serving hstep)
  expected k := by simpa only [after_add] using h.expected (m + k)

/-- `try_schedule_tasks` returns after visiting the head of its loop at most `b` times. -/
def Ends (replies : ℕ → Reply τ) (c : Call τ) (b : ℕ) : Prop :=
  ∃ k, (after replies c k).server.control.AtReturn ∧
    Nat.count (fun j => (after replies c j).server.control.atHead) k ≤ b

theorem Ends.of_atReturn (h : c.server.control.AtReturn) : Ends replies c b :=
  ⟨0, h, Nat.zero_le b⟩

/-- Steps away from the head of the loop. -/
theorem Ends.skip (h : Ends (fun j => replies (m + j)) (after replies c m) b)
    (hm : ∀ j < m, (after replies c j).server.control.atHead = false) : Ends replies c b := by
  obtain ⟨k, hret, hcount⟩ := h
  refine ⟨m + k, by rwa [after_add], ?_⟩
  have hzero : Nat.count (fun j => (after replies c j).server.control.atHead) m = 0 := by
    rw [Nat.count_iff_forall_not]
    intro j hj
    simp [hm j hj]
  rw [Nat.count_add, hzero, Nat.zero_add]
  simpa only [after_add] using hcount

theorem Ends.step (h : Ends (fun j => replies (1 + j)) (c.next (replies 0)) b)
    (hc : c.server.control.atHead = false) : Ends replies c b := by
  refine Ends.skip (m := 1) h fun j hj => ?_
  obtain rfl : j = 0 := by omega
  exact hc

/-- A step from the head of the loop. -/
theorem Ends.head (h : Ends (fun j => replies (1 + j)) (c.next (replies 0)) b) :
    Ends replies c (b + 1) := by
  obtain ⟨k, hret, hcount⟩ := h
  refine ⟨1 + k, by rwa [after_add], ?_⟩
  have hone := Nat.count_le (p := fun j => (after replies c j).server.control.atHead) (n := 1)
  have hrest : Nat.count (fun j => (after replies c (1 + j)).server.control.atHead) k ≤ b := by
    simp only [after_add]
    exact hcount
  rw [Nat.count_add, Nat.add_comm b 1]
  exact Nat.add_le_add hone hrest

/-- From the head of the loop the call returns, or a `Waiting` worker is popped. -/
theorem next_popPending (h : c.server.PendingWaiting) (hc : c.server.control = .popPending)
    (r : Reply τ) : (c.next r).tasks = c.tasks ∧
      ((c.next r).server.control.AtReturn ∨
        ∃ w, (c.next r).server.control = .removeTask w) := by
  have hnext : c.next r = ⟨c.server.popPending, c.tasks⟩ := by
    simp [next, ask, Server.step, hc]
  have hmove : Server.Move c.server .tau c.server.popPending :=
    Server.move_of_step h.serving (by simp [Server.step, hc])
  rw [hnext]
  refine ⟨rfl, ?_⟩
  dsimp only
  generalize c.server.popPending = t at hmove ⊢
  cases hmove
  case popEmpty => exact .inl trivial
  case popWaiting => exact .inr ⟨_, rfl⟩
  case popUnknown hq hw =>
    have hw' := h.waiting _ (BoundedQueue.mem_of_pop hq)
    simp [hw] at hw'
  case popCritical hq hw hst =>
    have hw' := h.waiting _ (BoundedQueue.mem_of_pop hq)
    simp [hw, hst] at hw'
  case block hc' _ _ | wake hc' _ _ | wait hc' _ _ | waitUnexpected hc' _ _ _ | ignored hc' _
    | invalid hc' _ => cases hc.symm.trans hc'

/-- After `remove_task` the call returns, or it has used up a task. -/
theorem next_removeTask (hc : c.server.control = .removeTask w) (r : Reply τ) :
    (c.next r).server.control.AtReturn ∨
      (c.next r).tasks + 1 = c.tasks ∧
        ((c.next r).server.control = .popPending ∨
          ∃ w task, (c.next r).server.control = .sendTask w task) := by
  by_cases hn : c.tasks = 0
  · exact .inl (by simp [next, ask, Server.step, hc, hn, Server.removeTask, Control.AtReturn])
  cases ht : r.task with
  | none => exact .inl (by simp [next, ask, Server.step, hc, ht, Server.removeTask,
      Control.AtReturn])
  | some task =>
    have hnext : c.next r = ⟨c.server.removeTask w (some task), c.tasks - 1⟩ := by
      simp [next, ask, Server.step, hc, hn, ht]
    rw [hnext]
    refine .inr ⟨Nat.succ_pred hn, ?_⟩
    unfold Server.removeTask
    dsimp only
    split_ifs
    · split
      · exact .inr ⟨_, _, rfl⟩
      · exact .inl rfl
    · exact .inl rfl

theorem next_sendTask {task : τ} (hc : c.server.control = .sendTask w task) (r : Reply τ) :
    (c.next r).tasks = c.tasks ∧ ((c.next r).server.control = .popPending ∨
      (c.next r).server.control = .ctxSwitch w .trySchedule) := by
  cases hs : r.sent <;> simp [next, ask, Server.step, hc, hs, Server.sendTask]

theorem next_switchedBack (hc : c.server.control = .ctxSwitch w .trySchedule) (r : Reply τ) :
    (c.next r).tasks = c.tasks ∧
      (c.next r).server.control = Server.nextEvent r.switch.reported := by
  simp [next, ask, Server.step, hc, Server.switched]

theorem atHead_of_frame {ctl : Control τ} {f : ℕ × Caller} (h : ctl.frame = some f) :
    ctl.atHead = false := by
  cases ctl <;> first | rfl | cases h

/-- From the head of the loop, `try_schedule_tasks` with `n` queued tasks visits it at most `b`
times. -/
def HeadEnds (τ : Type) (n b : ℕ) : Prop :=
  ∀ (c : Call τ) (replies : ℕ → Reply τ), Calm replies c → c.server.control = .popPending →
    c.tasks = n → Ends replies c b

-- induction on the events of the switch buffer
theorem HeadEnds.nextEvent (hloop : HeadEnds τ n b) (l : List UInt64) (h : Calm replies c)
    (hc : c.server.control = Server.nextEvent l) (hn : c.tasks = n) : Ends replies c b := by
  induction l generalizing c replies with
  | nil => exact hloop _ _ h hc hn
  | cons e rest ih =>
    obtain ⟨k, hk⟩ := exists_returns replies _ hc rfl
    refine Ends.skip (m := k) ?_ fun j hj => ?_
    · obtain ⟨o, ho⟩ := hk.ret
      cases o with
      | ok => exact ih (h.after k) ho (hk.tasks.trans hn)
      | err =>
        refine .of_atReturn ?_
        rw [ho]
        trivial
    · obtain ⟨d', hframe, -⟩ := hk.frame j hj
      exact atHead_of_frame hframe

theorem HeadEnds.sendTask (hloop : HeadEnds τ n b) {task : τ} (h : Calm replies c)
    (hc : c.server.control = .sendTask w task) (hn : c.tasks = n) : Ends replies c b := by
  refine Ends.step ?_ (by rw [hc]; rfl)
  obtain ⟨ht, hpop | hswitch⟩ := next_sendTask hc (replies 0)
  · exact hloop _ _ (h.after 1) hpop (ht.trans hn)
  · refine Ends.step ?_ (by rw [hswitch]; rfl)
    obtain ⟨ht', hevents⟩ := next_switchedBack hswitch (replies 1)
    exact hloop.nextEvent _ ((h.after 1).after 1) hevents (ht'.trans (ht.trans hn))

theorem HeadEnds.removeTask (hloop : HeadEnds τ n b) (h : Calm replies c)
    (hc : c.server.control = .removeTask w) (hn : c.tasks = n + 1) : Ends replies c b := by
  refine Ends.step ?_ (by rw [hc]; rfl)
  rcases next_removeTask hc (replies 0) with hret | ⟨ht, hpop | ⟨w, task, hsend⟩⟩
  · exact .of_atReturn hret
  · exact hloop _ _ (h.after 1) hpop (by omega)
  · exact hloop.sendTask (h.after 1) hsend (by omega)

-- induction on the number of queued tasks: every visit of the head but the last uses one up
theorem headEnds (τ : Type) (n : ℕ) : HeadEnds τ n (n + 1) := by
  induction n with
  | zero =>
    intro c replies h hc hn
    refine Ends.head ?_
    obtain ⟨ht, hret | ⟨w, hw⟩⟩ := next_popPending h.pending hc (replies 0)
    · exact .of_atReturn hret
    · refine Ends.step ?_ (by rw [hw]; rfl)
      rcases next_removeTask hw (replies 1) with hret | ⟨hlt, -⟩
      · exact .of_atReturn hret
      · omega
  | succ n ih =>
    intro c replies h hc hn
    refine Ends.head ?_
    obtain ⟨ht, hret | ⟨w, hw⟩⟩ := next_popPending h.pending hc (replies 0)
    · exact .of_atReturn hret
    · exact ih.removeTask (h.after 1) hw (ht.trans hn)

/-- While no `WAIT` is handled of a worker of the table that is not `Running`, neither before the
call nor in it, a call of `try_schedule_tasks` with `n` queued tasks and no submission returns
after at most `n + 1` rounds of its loop. -/
theorem try_schedule_tasks_returns (s t : Server τ) (h₀ : s.PostRegistration)
    (l : List (Input τ)) (hrun : Run (Guarded Server.step fun u _ => u.WaitExpected) s l t)
    (hc : t.control = .popPending) (n : ℕ) (replies : ℕ → Reply τ)
    (hok : ∀ k, (after replies ⟨t, n⟩ k).server.WaitExpected) :
    ∃ k, (after replies ⟨t, n⟩ k).server.control.AtReturn ∧
      Nat.count (fun j => (after replies ⟨t, n⟩ j).server.control.atHead) k ≤ n + 1 := by
  have hpend : t.PendingWaiting :=
    hrun.invariant h₀.pendingWaiting fun _ _ _ hI ⟨hi, hstep⟩ =>
      hI.move hi (Server.move_of_step hI.serving hstep)
  exact headEnds τ n ⟨t, n⟩ replies ⟨hpend, hok⟩ hc rfl

/-- After its return nothing more happens in the call. -/
theorem after_of_atReturn (h : c.server.control.AtReturn) (replies : ℕ → Reply τ) (k : ℕ) :
    after replies c k = c := by
  induction k with
  | zero => rfl
  | succ k ih =>
    rw [after_succ, ih]
    unfold next ask
    cases hc : c.server.control with
    | eventLoop => rfl
    | _ => simp [hc, Control.AtReturn] at h

/-- Every worker takes a task when there is one, and waits again at once. -/
def promptReply : Reply ℕ := ⟨some 0, true, .report (eventWord 32 .wait)⟩

theorem try_schedule_tasks_returns_promptReply : ∃ t,
    Run (Guarded Server.step fun u _ => u.WaitExpected) Server.twoWorkers [.schedule] t ∧
      ∃ k, (after (fun _ => promptReply) ⟨t, 1⟩ k).server.control.AtReturn ∧
        Nat.count (fun j => (after (fun _ => promptReply) ⟨t, 1⟩ j).server.control.atHead) k ≤
          2 := by
  have hrun : Run (Guarded Server.step fun u _ => u.WaitExpected) Server.twoWorkers
      [.schedule] _ := run_trace (by decide +kernel)
  refine ⟨_, hrun, try_schedule_tasks_returns _ _ Server.twoWorkers_postRegistration _ hrun
    (by decide +kernel) 1 _ fun k => ?_⟩
  by_cases hk : k < 7
  · revert k
    decide +kernel
  · obtain ⟨m, rfl⟩ := Nat.exists_eq_add_of_le (Nat.not_lt.mp hk)
    rw [after_add, after_of_atReturn (by decide +kernel)]
    decide +kernel

/-! ### The loop that does not end -/

/-- Some workers are pending, and all of them are in the table and not `Waiting`. -/
structure Spinning (s : Server τ) : Prop where
  control : s.control = .popPending
  nonempty : s.pending.items ≠ []
  busy : ∀ w ∈ s.pending.items, ∃ st, s.states.get? w = some st ∧ st ≠ .waiting

/-- The worker in front goes to the back, and nothing else changes. -/
theorem Spinning.next (h : Spinning c.server) (r : Reply τ) : Spinning (c.next r).server := by
  have hnext : c.next r = ⟨c.server.popPending, c.tasks⟩ := by
    simp [Call.next, ask, Server.step, h.control]
  have hmove : Server.Move c.server .tau c.server.popPending :=
    Server.move_of_step (by simp [h.control, Control.Serving]) (by simp [Server.step, h.control])
  rw [hnext]
  dsimp only
  generalize c.server.popPending = t at hmove ⊢
  cases hmove
  case popEmpty hq => exact absurd hq h.nonempty
  case popUnknown hq hw =>
    obtain ⟨st, hst, -⟩ := h.busy _ (BoundedQueue.mem_of_pop hq)
    simp [hw] at hst
  case popWaiting hq hw =>
    obtain ⟨st, hst, hne⟩ := h.busy _ (BoundedQueue.mem_of_pop hq)
    simp [hw, hne.symm] at hst
  case popCritical w q st _ hq hw hst =>
    obtain ⟨hitems, hcap⟩ := BoundedQueue.pop_eq_some_iff.mp hq
    have hlt : q.items.length < q.cap := by
      have hle := c.server.pending.length_le
      rw [hitems, ← hcap, List.length_cons] at hle
      exact hle
    have hpush := (Server.pushPending_of_lt (w := w)
      (s := { c.server with pending := q }.diagnose (.critical w st)) hlt).1
    refine ⟨by simpa using h.control, by simp [hpush], fun x hx => ?_⟩
    rw [hpush] at hx
    simp only [Server.pushPending_states, Server.diagnose_states]
    rcases List.mem_append.mp hx with hx | hx
    · exact h.busy x (hitems ▸ List.mem_cons_of_mem w hx)
    · exact List.mem_singleton.mp hx ▸ ⟨st, hw, hst⟩
  case block hc' _ _ | wake hc' _ _ | wait hc' _ _ | waitUnexpected hc' _ _ _ | ignored hc' _
    | invalid hc' _ => cases h.control.symm.trans hc'

/-- Nothing that happens outside of the thread ends the loop. -/
theorem spins (h : Spinning c.server) (replies : ℕ → Reply τ) (k : ℕ) :
    Spinning (after replies c k).server := by
  induction k with
  | zero => exact h
  | succ k ih => exact ih.next (replies k)

/-- Both workers block in a task, then a `WAIT` of the first one arrives. -/
def lateWait : List (Input ℕ) :=
  [.schedule, .tau, .removed (some 0), .sent true, .switched (.report (eventWord 32 .block)),
    .tau, .tau, .removed (some 1), .sent true, .switched (.report (eventWord 64 .block)),
    .tau, .tau, .recv (eventWord 32 .wait), .tau, .schedule]

/-- After the `WAIT` of a `Blocked` worker the next call of `try_schedule_tasks` does not return,
although no task is queued. -/
theorem try_schedule_tasks_lateWait : ∃ t,
    Run (Guarded Server.step fun _ _ => True) Server.twoWorkers lateWait t ∧
      t.control = .popPending ∧
      ∀ replies k, ¬ (after replies ⟨t, 0⟩ k).server.control.AtReturn := by
  obtain ⟨t, hrun, hc, hitems, hw⟩ : ∃ t,
      Run (Guarded Server.step fun _ _ => True) Server.twoWorkers lateWait t ∧
        t.control = .popPending ∧ t.pending.items = [32] ∧ t.states.get? 32 = some .blocked :=
    ⟨_, run_trace (by decide +kernel), by decide +kernel, by decide +kernel, by decide +kernel⟩
  have hspin : Spinning t := by
    refine ⟨hc, by simp [hitems], fun w hmem => ⟨.blocked, ?_, by simp⟩⟩
    rw [hitems, List.mem_singleton] at hmem
    rw [hmem, hw]
  refine ⟨t, hrun, hc, fun replies k hret => ?_⟩
  rw [(spins (c := ⟨t, 0⟩) hspin replies k).control] at hret
  exact hret

end Call

end Umcg.Attempt2
