import Umcg.Attempt2.Fleet
import Umcg.Attempt2.RunningCount
import Umcg.Foundation.Placement

/-!
# No task is lost between the queue, the servers and the workers

A task that `add_task` accepted is first in the shared queue, then in the hands of the server
that removed it, then in the channel of a worker, then in execution, and at last completed. At
every moment it is at exactly one of these places (`Fleet.Place`), whatever the kernel answers
and however the servers, the workers and the submitters interleave.

The branches of `try_schedule_tasks` that drop a task they have removed are not reached: every
worker of the table has a channel, the running queue has room for all busy workers
(`Server.RunningInv`), and the receivers are alive.

## Main results

* `Fleet.Conserved.step` : every step of the fleet keeps the distribution of the tasks.
* `Fleet.task_conservation` : one place for each task, at most one execution, removal in the
  order of acceptance, and what the two counters say.
-/

namespace Umcg.Attempt2

/-- The task that the thread holds between `remove_task` and the send. -/
def Control.held {τ : Type} : Control τ → Option τ
  | .sendTask _ task => some task
  | _ => none

namespace Server

variable {τ : Type} {s t : Server τ} {i : Input τ}

private theorem held_resume (r : Outcome) (c : Caller) : (resume r c : Control τ).held = none := by
  rcases c with _ | ⟨_ | ⟨e, rest⟩⟩ <;> cases r <;> rfl

/-- Only `remove_task` and the send change what the thread holds. -/
theorem Move.held_eq (h : Move s i t) (hr : ∀ o, i ≠ .removed o) (hs : ∀ b, i ≠ .sent b) :
    t.control.held = s.control.held := by
  cases h
  case noTask | noChannel | dispatch | runningFull => exact absurd rfl (hr _)
  case sentOk | sendFailed => exact absurd rfl (hs _)
  case switchedBack a hc =>
    simp only [hc]
    cases a.reported <;> rfl
  case switchedSilent hc _ | block hc _ _ | wait hc _ _ | waitUnexpected hc _ _ _ | ignored hc _ |
      invalid hc _ =>
    rw [hc]
    exact held_resume _ _
  case unmanaged | popUnknown => rfl
  case popCritical => simp
  all_goals simp_all [Control.held]

/-- With a channel for every worker and room in the running queue, a removed task ends up in the
hands of the thread. -/
theorem Move.held_of_removed {k : τ} (h : Move s (.removed (some k)) t) (hI : RunningInv s)
    (hch : ∀ w ∈ s.states.keys, w ∈ s.channels) :
    s.control.held = none ∧ t.control.held = some k := by
  cases h with
  | noChannel hc hw =>
    exact absurd (hch _ (s.states.mem_keys_of_get? (hI.popped _ hc))) hw
  | dispatch hc hw hq => simp [hc, Control.held]
  | runningFull hc hw hq =>
    have := hI.lt_cap (hI.popped _ hc)
    have := BoundedQueue.push_eq_none_iff.mp hq
    omega

end Server

namespace Fleet

variable {ι : Type}

/-- The places at which a task can be. -/
inductive Place (ι : Type)
  /-- In the shared queue. -/
  | queue
  /-- Removed by the server `i`, not yet sent. -/
  | held (i : ι)
  /-- In the channel of the worker `w` of the server `i`. -/
  | channel (i : ι) (w : UInt64)
  /-- In execution by the worker `w` of the server `i`. -/
  | executing (i : ι) (w : UInt64)
  | completed
  deriving DecidableEq, Repr

/-- The tasks at a place. -/
def content (f : Fleet ι) : Place ι → List ℕ
  | .queue => f.queue.items
  | .held i => (f.node i).server.control.held.toList
  | .channel i w => ((f.node i).worker w).queued
  | .executing i w => ((f.node i).worker w).executing.toList
  | .completed => f.completed

/-- Why no server drops a task: its running queue has room, every worker has a channel and no
receiver is gone. -/
structure NodesOk (f : Fleet ι) : Prop where
  servers : ∀ i, (f.node i).server.RunningInv
  channels : ∀ i, ∀ w ∈ (f.node i).server.states.keys, w ∈ (f.node i).server.channels
  live : ∀ i w, ((f.node i).worker w).pc ≠ .exited

/-- The distribution of the tasks over the places and the history of the fleet agree. -/
structure Conserved (f : Fleet ι) : Prop where
  nodes : f.NodesOk
  placed : Placed f.content f.accepted
  fresh : ∀ k ∈ f.accepted, k < f.stats.total_tasks
  total : f.stats.total_tasks = f.accepted.length + f.rejected
  counted : f.stats.completed_tasks = f.completed.length
  order : f.removed ++ f.queue.items = f.accepted
  started : f.started.Nodup
  mem_started : ∀ k, k ∈ f.started ↔
    (∃ i w, k ∈ f.content (.executing i w)) ∨ k ∈ f.content .completed

theorem Initial.content_eq_nil {f : Fleet ι} (h : f.Initial) (p : Place ι) : f.content p = [] := by
  cases p with
  | queue => exact h.queue
  | held i =>
    have := (h.servers i).control
    cases hc : (f.node i).server.control <;> simp_all [content, Control.held, Control.AtReturn]
  | channel i w => simp [content, WorkerThread.queued, h.channels i w]
  | executing i w => simp [content, (h.workers i w).1]
  | completed => exact h.completed

theorem Initial.conserved {f : Fleet ι} (h : f.Initial) : f.Conserved where
  nodes := ⟨fun i => (h.servers i).runningInv (h.room i), fun i => (h.servers i).channels,
    fun i w => (h.workers i w).2⟩
  placed := h.accepted ▸ Placed.nil.congr h.content_eq_nil
  fresh := by simp [h.accepted]
  total := by simp [h.accepted, h.rejected, h.stats, TaskStats.new]
  counted := by simp [h.completed, h.stats, TaskStats.new]
  order := by simp [h.removed, h.queue, h.accepted]
  started := h.started ▸ List.nodup_nil
  mem_started := by simp [h.started, h.content_eq_nil]

variable [DecidableEq ι] {f : Fleet ι} {i : ι} {w : UInt64}

@[simp] theorem node_setServer (s : Server ℕ) (j : ι) : (f.setServer i s).node j =
    if j = i then { f.node i with server := s } else f.node j := by
  simp [setServer, setNode, Function.update_apply]

@[simp] theorem node_setWorker (k : WorkerThread ℕ) (j : ι) : (f.setWorker i w k).node j =
    if j = i then { f.node i with worker := Function.update (f.node i).worker w k }
    else f.node j := by
  simp [setWorker, setNode, Function.update_apply]

theorem content_setServer (s : Server ℕ) (p : Place ι) : (f.setServer i s).content p =
    if p = .held i then s.control.held.toList else f.content p := by
  cases p with
  | queue | completed => rfl
  | held j | channel j x | executing j x => by_cases hj : j = i <;> simp [content, hj]

theorem content_setWorker (k : WorkerThread ℕ) (p : Place ι) : (f.setWorker i w k).content p =
    if p = .channel i w then k.queued else if p = .executing i w then k.executing.toList
    else f.content p := by
  cases p with
  | queue | completed => rfl
  | held j => by_cases hj : j = i <;> simp [content, hj]
  | channel j x | executing j x =>
    by_cases hj : j = i
    · by_cases hx : x = w <;> simp [content, hj, hx]
    · simp [content, hj]

theorem NodesOk.setServer (h : f.NodesOk) {x : Input ℕ} {t : Server ℕ}
    (hm : Server.Move (f.node i).server x t) : (f.setServer i t).NodesOk := by
  refine ⟨fun j => ?_, fun j => ?_, fun j w => ?_⟩
  · by_cases hj : j = i
    · simpa [hj] using (h.servers i).move hm
    · simpa [hj] using h.servers j
  · by_cases hj : j = i
    · obtain ⟨hk, hch, -⟩ := hm.fixed
      simpa [hj, hk, hch] using h.channels i
    · simpa [hj] using h.channels j
  · by_cases hj : j = i
    · simpa [hj] using h.live i w
    · simpa [hj] using h.live j w

theorem NodesOk.setWorker (h : f.NodesOk) {k : WorkerThread ℕ} (hk : k.pc ≠ .exited) :
    (f.setWorker i w k).NodesOk := by
  refine ⟨fun j => ?_, fun j => ?_, fun j x => ?_⟩
  · by_cases hj : j = i
    · simpa [hj] using h.servers i
    · simpa [hj] using h.servers j
  · by_cases hj : j = i
    · simpa [hj] using h.channels i
    · simpa [hj] using h.channels j
  · by_cases hj : j = i
    · by_cases hx : x = w
      · simpa [hj, hx] using hk
      · simpa [hj, hx] using h.live i x
    · simpa [hj] using h.live j x

omit [DecidableEq ι] in
/-- The number of the next submission is not the id of an accepted task. -/
theorem Conserved.submit (h : f.Conserved) : f.submit.Conserved := by
  have hnew : f.stats.total_tasks ∉ f.accepted := fun hk => (h.fresh _ hk).false
  unfold Fleet.submit
  dsimp only
  split
  · rename_i q hq
    obtain ⟨-, -, hitems⟩ := BoundedQueue.push_eq_some_iff.mp hq
    refine ⟨⟨h.nodes.servers, h.nodes.channels, h.nodes.live⟩,
      h.placed.add (p := Place.queue) hnew hitems fun r hr => ?_, fun k hk => ?_, ?_, h.counted,
      ?_, h.started, h.mem_started⟩
    · cases r <;> first | exact absurd rfl hr | rfl
    · rcases List.mem_append.mp hk with hk | hk
      · exact Nat.lt_succ_of_lt (h.fresh k hk)
      · rw [List.mem_singleton.mp hk]
        exact Nat.lt_succ_self _
    · have := h.total
      simp only [TaskStats.registerTask, List.length_append, List.length_singleton]
      omega
    · change f.removed ++ q.items = f.accepted ++ [_]
      rw [hitems, ← List.append_assoc, h.order]
  · refine { h with
      nodes := ⟨h.nodes.servers, h.nodes.channels, h.nodes.live⟩
      fresh := fun k hk => Nat.lt_succ_of_lt (h.fresh k hk)
      total := ?_ }
    have := h.total
    simp only [TaskStats.registerTask]
    omega

/-- A step of the server `i` that takes no task and sends none. -/
theorem Conserved.setServer (h : f.Conserved) {x : Input ℕ} {t : Server ℕ}
    (hm : Server.Move (f.node i).server x t)
    (hheld : t.control.held = (f.node i).server.control.held) : (f.setServer i t).Conserved := by
  have hcontent : ∀ p, (f.setServer i t).content p = f.content p := by
    intro p
    rw [content_setServer]
    split_ifs with hp
    · rw [hp, hheld, content]
    · rfl
  refine ⟨h.nodes.setServer hm, h.placed.congr hcontent, h.fresh, h.total, h.counted, h.order,
    h.started, ?_⟩
  simp only [hcontent]
  exact h.mem_started

/-- The server `i` takes a task from the queue, or finds it empty. -/
theorem Conserved.remove (h : f.Conserved) {g : Fleet ι} (hg : f.remove i = some g) :
    g.Conserved := by
  unfold Fleet.remove at hg
  split at hg
  · obtain ⟨t, ht, rfl⟩ := Option.map_eq_some_iff.mp hg
    have hm := Server.move_of_step (h.nodes.servers i).serving ht
    refine h.setServer hm ?_
    cases hm with
    | noTask hc => rw [hc]; rfl
  · rename_i k q hq
    obtain ⟨t, ht, rfl⟩ := Option.map_eq_some_iff.mp hg
    have hm := Server.move_of_step (h.nodes.servers i).serving ht
    obtain ⟨hbefore, hafter⟩ := hm.held_of_removed (h.nodes.servers i) (h.nodes.channels i)
    obtain ⟨hitems, -⟩ := BoundedQueue.pop_eq_some_iff.mp hq
    have hn := h.nodes.setServer hm
    have hcontent : ∀ p, p ≠ .queue → p ≠ .held i →
        content { f.setServer i t with queue := q, removed := f.removed ++ [k] } p =
          f.content p := by
      intro p hp hp'
      have := content_setServer (f := f) (i := i) t p
      cases p <;> simp_all [content]
    refine ⟨⟨hn.servers, hn.channels, hn.live⟩,
      h.placed.move (p := .queue) (q := .held i) (by simp) hitems rfl ?_ hcontent, h.fresh,
      h.total, h.counted, ?_, h.started, fun x => ?_⟩
    · simp [content, hbefore, hafter]
    · change (f.removed ++ [k]) ++ q.items = f.accepted
      rw [← h.order, hitems, List.append_assoc, List.singleton_append]
    · change x ∈ f.started ↔ _
      rw [h.mem_started, hcontent .completed (by simp) (by simp)]
      simp only [hcontent (.executing _ _) (by simp) (by simp)]

/-- The server `i` sends the task it holds; the receiver is alive. -/
theorem Conserved.send (h : f.Conserved) {g : Fleet ι} (hg : f.send i = some g) :
    g.Conserved := by
  unfold Fleet.send at hg
  split at hg
  · rename_i w k hc
    obtain ⟨m, hm, hqueued, hexec, hpc⟩ := WorkerThread.send_eq_some (h.nodes.live i w) k
    simp only [hm] at hg
    obtain ⟨t, ht, rfl⟩ := Option.map_eq_some_iff.mp hg
    have hmove := Server.move_of_step (h.nodes.servers i).serving ht
    have hbefore : (f.node i).server.control.held = some k := by rw [hc]; rfl
    have hafter : t.control.held = none := by cases hmove with | sentOk hc => rfl
    have hcontent : ∀ p, p ≠ .held i → p ≠ .channel i w →
        ((f.setWorker i w m).setServer i t).content p = f.content p := by
      intro p hp hp'
      rw [content_setServer, content_setWorker, if_neg hp, if_neg hp']
      split_ifs with hx
      · rw [hx, hexec, content]
      · rfl
    have hheld : f.content (.held i) = [k] := by simp [content, hbefore]
    have hn : (f.setWorker i w m).NodesOk := h.nodes.setWorker (hpc ▸ h.nodes.live i w)
    refine ⟨hn.setServer (x := .sent true) (by simpa using hmove),
      h.placed.move (p := .held i) (q := .channel i w) (by simp) hheld ?_ ?_ hcontent,
      h.fresh, h.total, h.counted, h.order, h.started, fun x => ?_⟩
    · simp [content_setServer, hafter]
    · simp [content, hqueued]
    · change x ∈ f.started ↔ _
      rw [h.mem_started, hcontent .completed (by simp) (by simp)]
      simp only [hcontent (.executing _ _) (by simp) (by simp)]
  · cases hg

/-- The worker `w` of the server `i` finds the task `t` in its channel and starts it. -/
private theorem Conserved.start (h : f.Conserved) {k : WorkerThread ℕ} {t : ℕ}
    (hpc : k.pc ≠ .exited) (hidle : ((f.node i).worker w).executing = none)
    (hexec : k.executing = some t) (hqueued : ((f.node i).worker w).queued = t :: k.queued) :
    Conserved { f.setWorker i w k with started := f.started ++ [t] } := by
  have hn := h.nodes.setWorker (i := i) (w := w) hpc
  have hch : t ∈ f.content (.channel i w) := by simp [content, hqueued]
  have hfresh : t ∉ f.started := by
    rw [h.mem_started]
    rintro (⟨j, x, ht⟩ | ht)
    · simpa using h.placed.unique _ _ t hch ht
    · simpa using h.placed.unique _ _ t hch ht
  have hnew : ∀ p, content { f.setWorker i w k with started := f.started ++ [t] } p =
      if p = .channel i w then k.queued else if p = .executing i w then [t]
      else f.content p := by
    intro p
    rw [← Option.toList_some (a := t), ← hexec, ← content_setWorker]
    cases p <;> rfl
  have hexec' : content { f.setWorker i w k with started := f.started ++ [t] } (.executing i w) =
      f.content (.executing i w) ++ [t] := by simp [content, hidle, hexec]
  refine ⟨⟨hn.servers, hn.channels, hn.live⟩,
    h.placed.move (p := .channel i w) (q := .executing i w) (by simp) hqueued (by simp [hnew])
      hexec' fun p hp hp' => by rw [hnew, if_neg hp, if_neg hp'],
    h.fresh, h.total, h.counted, h.order, ?_, fun x => ?_⟩
  · exact h.started.append (List.nodup_singleton t) (List.disjoint_singleton.mpr hfresh)
  · have hmem : ∀ j y, (x ∈ content { f.setWorker i w k with started := f.started ++ [t] }
        (.executing j y)) ↔ x ∈ f.content (.executing j y) ∨ (j = i ∧ y = w) ∧ x = t := by
      intro j y
      by_cases hj : j = i ∧ y = w
      · rw [hj.1, hj.2, hexec']
        simp
      · rw [hnew]
        simp [hj]
    change x ∈ f.started ++ [t] ↔ _
    rw [List.mem_append, List.mem_singleton, h.mem_started, hnew .completed]
    simp only [hmem, exists_or, exists_and_right]
    simp [or_right_comm]

/-- The worker `w` of the server `i` ends its task `t`. -/
private theorem Conserved.finish (h : f.Conserved) {k : WorkerThread ℕ} {t : ℕ}
    (hpc : k.pc ≠ .exited) (hbusy : ((f.node i).worker w).executing = some t)
    (hexec : k.executing = none) (hqueued : k.queued = ((f.node i).worker w).queued) :
    Conserved { f.setWorker i w k with
      stats := f.stats.markCompleted, completed := f.completed ++ [t] } := by
  have hn := h.nodes.setWorker (i := i) (w := w) hpc
  have hold : f.content (.executing i w) = [t] := by simp [content, hbusy]
  have hnew : ∀ p, content { f.setWorker i w k with
      stats := f.stats.markCompleted, completed := f.completed ++ [t] } p =
      if p = .executing i w then [] else if p = .completed then f.completed ++ [t]
      else f.content p := by
    intro p
    by_cases hp : p = .completed
    · simp [hp, content]
    · have := content_setWorker (f := f) (i := i) (w := w) k p
      cases p <;> simp_all [content]
  refine ⟨⟨hn.servers, hn.channels, hn.live⟩,
    h.placed.move (p := .executing i w) (q := .completed) (by simp) hold (by simp [hnew])
      (by simp [content]) fun p hp hp' => by rw [hnew, if_neg hp, if_neg hp'],
    h.fresh, h.total, ?_, h.order, h.started, fun x => ?_⟩
  · have := h.counted
    simp only [TaskStats.markCompleted, List.length_append, List.length_singleton]
    omega
  · have hmem : ∀ j y, (x ∈ f.content (.executing j y)) ↔
        (x ∈ content { f.setWorker i w k with
          stats := f.stats.markCompleted, completed := f.completed ++ [t] } (.executing j y)) ∨
        (j = i ∧ y = w) ∧ x = t := by
      intro j y
      by_cases hj : j = i ∧ y = w
      · rw [hj.1, hj.2, hold, hnew]
        simp
      · rw [hnew]
        simp [hj]
    change x ∈ f.started ↔ _
    rw [h.mem_started, hnew .completed, if_neg (by simp), if_pos rfl, List.mem_append,
      List.mem_singleton]
    simp only [hmem, exists_or, exists_and_right, exists_and_left, exists_eq, true_and]
    rw [or_assoc, or_comm (a := x = t)]
    rfl

/-- Every step of a worker whose receiver stays alive. -/
theorem Conserved.workerStep (h : f.Conserved) {x : WorkerInput}
    (hx : x ≠ .done ∧ x ≠ .panicked) {g : Fleet ι} (hg : f.workerStep i w x = some g) :
    g.Conserved := by
  obtain ⟨k, hk, rfl⟩ := Option.map_eq_some_iff.mp hg
  have hm := WorkerThread.move_of_step hk
  have hpc := hm.pc_ne_exited hx.1
  rcases hm.tasks hx.1 hx.2 with ⟨c, t, rfl, hidle, hexec, hqueued⟩ |
    ⟨t, rfl, hbusy, hexec, hqueued⟩ | ⟨hret, hpoll, hexec, hqueued⟩
  · simp only [hexec, Option.toList_some]
    exact h.start hpc hidle hexec hqueued
  · simp only [hbusy, Option.toList_some]
    exact h.finish hpc hbusy hexec hqueued
  · have hcontent : ∀ p, (f.setWorker i w k).content p = f.content p := by
      intro p
      rw [content_setWorker, hqueued, hexec]
      split_ifs with hp hp' <;> simp [*, content]
    have hset : (f.setWorker i w k).Conserved := by
      refine ⟨h.nodes.setWorker hpc, h.placed.congr hcontent, h.fresh, h.total, h.counted,
        h.order, h.started, ?_⟩
      simp only [hcontent]
      exact h.mem_started
    cases x with
    | poll c => simpa [hpoll c rfl] using hset
    | returned => exact absurd rfl hret
    | _ => exact hset

/-- Every step of the fleet keeps the distribution of the tasks. -/
theorem Conserved.step (h : f.Conserved) {a : FleetStep ι} (ha : f.ReceiversLive a) {g : Fleet ι}
    (hg : f.step a = some g) : g.Conserved := by
  cases a with
  | submit =>
    cases hg
    exact h.submit
  | submitFrom i w =>
    simp only [Fleet.step] at hg
    split_ifs at hg
    cases hg
    exact h.submit
  | remove i => exact h.remove hg
  | send i => exact h.send hg
  | worker i w x => exact h.workerStep ha hg
  | server i x =>
    have hserver : (∀ o, x ≠ .removed o) → (∀ b, x ≠ .sent b) →
        ((f.node i).server.step x).map (f.setServer i) = some g → g.Conserved := by
      intro hr hs hg
      obtain ⟨t, ht, rfl⟩ := Option.map_eq_some_iff.mp hg
      have hm := Server.move_of_step (h.nodes.servers i).serving ht
      exact h.setServer hm (hm.held_eq hr hs)
    cases x with
    | removed o => cases hg
    | sent b => cases hg
    | _ => exact hserver (by simp) (by simp) hg

/-- In every state of every run of the fleet: each accepted task is at exactly one place and is
there once, and no other task is anywhere; no task is started twice; tasks are removed from the
queue in the order of acceptance; and the tasks that are in the queue, in a server's hands, in a
channel or in execution are those counted by `total_tasks` and neither completed nor rejected. -/
theorem task_conservation (f g : Fleet ι) (h₀ : f.Initial) (l : List (FleetStep ι))
    (h : Run (Guarded step ReceiversLive) f l g) :
    (∀ k ∈ g.accepted, ∃ p, (g.content p).count k = 1 ∧ ∀ q, q ≠ p → k ∉ g.content q) ∧
    (∀ p, ∀ k ∈ g.content p, k ∈ g.accepted) ∧
    g.started.Nodup ∧
    g.removed ++ g.queue.items = g.accepted ∧
    g.stats.total_tasks = g.stats.completed_tasks + g.rejected +
      {k | ∃ p, p ≠ .completed ∧ k ∈ g.content p}.ncard := by
  have hI : g.Conserved :=
    h.invariant h₀.conserved fun _ _ _ hI ⟨ha, hstep⟩ => hI.step ha hstep
  refine ⟨fun k hk => hI.placed.exists_count_eq_one hk,
    fun p k hk => (hI.placed.mem k).mpr ⟨p, hk⟩, hI.started, hI.order, ?_⟩
  have hcount := hI.placed.ncard_elsewhere .completed
  have := hI.counted
  have := hI.total
  simp only [content] at hcount this ⊢
  omega

/-- Two servers, named `false` and `true`, with two idle workers each and no tasks. -/
def twoServers : Fleet Bool where
  queue := .empty 4
  stats := .new
  node _ := ⟨Server.twoWorkers, fun _ => ⟨[], .waiting⟩⟩
  accepted := []
  removed := []
  started := []
  completed := []
  rejected := 0

theorem twoServers_initial : twoServers.Initial where
  servers _ := Server.twoWorkers_postRegistration
  room _ := le_refl 2
  channels _ _ := rfl
  workers _ _ := ⟨rfl, by simp [twoServers]⟩
  queue := rfl
  stats := rfl
  accepted := rfl
  removed := rfl
  started := rfl
  completed := rfl
  rejected := rfl

/-- Two tasks are submitted. Each server removes one and dispatches it to its first worker; the task
of the first server completes. -/
def dispatchRun : List (FleetStep Bool) :=
  [.submit, .server false .schedule, .server false .tau, .remove false, .submit,
    .server true .schedule, .server true .tau, .remove true, .send true, .send false,
    .worker false 32 (.waited 0), .worker true 32 (.waited 0), .worker false 32 (.poll true),
    .worker true 32 (.poll true), .worker false 32 .returned]

theorem task_conservation_dispatchRun : ∃ g,
    Run (Guarded step ReceiversLive) twoServers dispatchRun g ∧ g.completed = [0] ∧
      g.content (.executing true 32) = [1] ∧ g.started.Nodup ∧
      g.removed ++ g.queue.items = g.accepted := by
  have hrun : Run (Guarded step ReceiversLive) twoServers dispatchRun _ :=
    run_trace (by decide +kernel)
  refine ⟨_, hrun, by decide +kernel, by decide +kernel, ?_⟩
  obtain ⟨-, -, hstarted, horder, -⟩ :=
    task_conservation twoServers _ twoServers_initial dispatchRun hrun
  exact ⟨hstarted, horder⟩

/-- Between `remove_task` and the send the task is in the hands of the server only: it is not in
the queue, in a channel, in execution or completed, while the counters count it. -/
theorem removed_task_in_no_shared_place : ∃ g,
    Run (Guarded step ReceiversLive) twoServers (dispatchRun.take 4) g ∧ g.accepted = [0] ∧
      (∀ p, (∀ i, p ≠ .held i) → g.content p = []) ∧
      g.stats.total_tasks - g.stats.completed_tasks - g.rejected = 1 := by
  refine ⟨_, run_of_trace rfl, by decide, fun p hp => ?_, by decide⟩
  cases p with
  | held i => exact absurd rfl (hp i)
  | queue | completed => rfl
  | channel i w | executing i w => cases i <;> rfl

end Fleet

end Umcg.Attempt2
