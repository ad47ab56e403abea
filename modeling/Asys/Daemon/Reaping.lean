import Asys.Daemon.Tracked

/-! # The exit of a child reaches its task

    `sigchld_handler` looks for the pid of a reaped child among the PENDING entries. A child that is
    reaped before its parent has recorded it is not found, and nobody asks for it again. -/

namespace Asys
open Words

/-- Exits are reported. `settled`: the step that reaps a child within the time of its task, whose
    owner is connected, leaves the task in its slot with the status of the exit. `kept`: the status
    stays so for as long as the slot holds the task. `own`: no task shows an exit but that of its own
    child, so no exit changes the task of another. -/
structure ExitsReported (st : Restarts) : Prop where
  settled : ∀ r ∈ st.recorded, r.connected = true → ∀ q ∈ st.justReaped, q.number = r.number →
    q.time - r.createdAt ≤ taskTimeoutSec →
      st.tag r.slot = r.number ∧ (st.pool r.slot).status = childStatus q.status
  kept : ∀ i, (st.pool i).status ≠ .empty → ∀ q ∈ st.reaped, q.number = st.tag i →
    q.time - (st.pool i).createdAt ≤ taskTimeoutSec → (st.pool i).status = childStatus q.status
  own : ∀ i, (st.pool i).status = .success ∨ (st.pool i).status = .failed →
    ∃ q ∈ st.reaped, q.number = st.tag i ∧ (st.pool i).status = childStatus q.status

/-- A thread that records its child does so before the child is reaped. -/
def AllocBeforeReap (st : Restarts) (m : RestartsMove) : Prop :=
  ∀ t rand fork th n pid, m = .call t rand fork → st.threads t = some th → th.pc = .alloc n pid →
    taskPoolAvailable st.pool = true → ∀ q ∈ st.reaped, q.number ≠ th.child

/-! ### One run of the reaper -/

/-- What a run of `sigchld_handler` does to a slot, when no two PENDING slots share a pid. -/
theorem sigchldHandler_apply {g : TaskPool} (zs : List (ℤ × WaitStatus))
    (hpid : ∀ i j, (g i).status = .pending → (g j).status = .pending →
      (g i).childPid = (g j).childPid → i = j) (i : Fin taskPoolSize) :
    ((g i).status = .pending ∧ ∃ w, ((g i).childPid, w) ∈ zs ∧
      sigchldHandler g zs i = { g i with status := childStatus w }) ∨
    (((g i).status = .pending → ∀ w, ((g i).childPid, w) ∉ zs) ∧ sigchldHandler g zs i = g i) := by
  induction zs generalizing g with
  | nil => exact Or.inr ⟨fun _ _ => List.not_mem_nil, rfl⟩
  | cons z zs ih =>
    have hcons : sigchldHandler g (z :: zs) =
        sigchldHandler (taskPoolUpdateByPid g z.1 (childStatus z.2)) zs := rfl
    rw [hcons]
    rcases taskPoolUpdateByPid_cases g z.1 (childStatus z.2) with ⟨j, hj, hu⟩ | ⟨hnone, hu⟩ <;> rw [hu]
    · obtain ⟨hjpid, hjp⟩ := pendingWithPid_some hj
      have hpend : ∀ k, (Function.update g j { g j with status := childStatus z.2 } k).status =
          .pending → k ≠ j ∧ (g k).status = .pending := by
        intro k hk
        rcases eq_or_ne k j with rfl | hkj
        · rw [Function.update_self] at hk
          exact absurd hk (childStatus_ne_pending z.2)
        · rw [Function.update_of_ne hkj] at hk
          exact ⟨hkj, hk⟩
      have hrest := ih (g := Function.update g j { g j with status := childStatus z.2 }) (by
        intro a b ha hb hab
        obtain ⟨haj, ha⟩ := hpend a ha
        obtain ⟨hbj, hb⟩ := hpend b hb
        rw [Function.update_of_ne haj, Function.update_of_ne hbj] at hab
        exact hpid a b ha hb hab)
      rcases eq_or_ne i j with rfl | hij
      · rw [Function.update_self] at hrest
        rcases hrest with ⟨hp, -⟩ | ⟨-, hsame⟩
        · exact absurd hp (childStatus_ne_pending z.2)
        · exact Or.inl ⟨hjp, z.2, by rw [hjpid]; exact List.mem_cons_self, hsame⟩
      · rw [Function.update_of_ne hij] at hrest
        rcases hrest with ⟨hp, w, hw, hs⟩ | ⟨hno, hs⟩
        · exact Or.inl ⟨hp, w, List.mem_cons_of_mem _ hw, hs⟩
        · refine Or.inr ⟨fun hp w hw => ?_, hs⟩
          rcases List.mem_cons.mp hw with rfl | hw
          · exact hij (hpid i j hp hjp hjpid.symm)
          · exact hno hp w hw
    · rcases ih hpid with ⟨hp, w, hw, hs⟩ | ⟨hno, hs⟩
      · exact Or.inl ⟨hp, w, List.mem_cons_of_mem _ hw, hs⟩
      · refine Or.inr ⟨fun hp w hw => ?_, hs⟩
        rcases List.mem_cons.mp hw with rfl | hw
        · exact pendingWithPid_none hnone i hp rfl
        · exact hno hp w hw

theorem mem_zombies {children : List Child} {n : ℕ} {pid : ℤ} {w : WaitStatus} :
    (n, pid, w) ∈ zombies children ↔
      ∃ c ∈ children, c.number = n ∧ c.pid = pid ∧ c.exited = some w := by
  simp only [zombies, List.mem_filterMap, Option.map_eq_some_iff, Prod.mk.injEq]
  constructor
  · rintro ⟨c, hc, w', hw, rfl, rfl, rfl⟩
    exact ⟨c, hc, rfl, rfl, hw⟩
  · rintro ⟨c, hc, rfl, rfl, hw⟩
    exact ⟨c, hc, w, hw, rfl, rfl, rfl⟩

/-! ### The invariant -/

/-- A child between its fork and its alloc: no slot and no record knows it yet. -/
structure InFlight (st : Restarts) (number : ℕ) (pid : ℤ) : Prop where
  born : number < st.forks
  untagged : ∀ i, (st.pool i).status ≠ .empty → st.tag i ≠ number
  unrecorded : ∀ r ∈ st.recorded, r.number ≠ number
  somewhere : (∃ c ∈ st.children, c.number = number ∧ c.pid = pid) ∨ ∃ q ∈ st.reaped, q.number = number

/-- A record whose child is not reaped and whose owner is connected, within its time. -/
def Awaited (st : Restarts) (r : TaskRecord) : Prop :=
  r.connected = true ∧ (∀ q ∈ st.reaped, q.number ≠ r.number) ∧
    st.clock - r.createdAt ≤ taskTimeoutSec

structure RestartsOk (st : Restarts) : Prop where
  pool : PoolOk st.pool
  pids : ∀ c ∈ st.children, ∀ c' ∈ st.children, c.pid = c'.pid → c = c'
  numbers : ∀ c ∈ st.children, ∀ c' ∈ st.children, c.number = c'.number → c = c'
  born : ∀ c ∈ st.children, c.number < st.forks
  gone : ∀ q ∈ st.reaped, q.number < st.forks ∧ q.time ≤ st.clock ∧
    ∀ c ∈ st.children, c.number ≠ q.number
  once : ∀ q ∈ st.reaped, ∀ q' ∈ st.reaped, q.number = q'.number → q = q'
  flight : ∀ t th n pid, st.threads t = some th → th.pc = .alloc n pid → InFlight st th.child pid
  apart : ∀ t t' th th' n n' pid pid', st.threads t = some th → th.pc = .alloc n pid →
    st.threads t' = some th' → th'.pc = .alloc n' pid' → th.child = th'.child → t = t'
  tags : ∀ i j, (st.pool i).status ≠ .empty → (st.pool j).status ≠ .empty →
    st.tag i = st.tag j → i = j
  tagBorn : ∀ i, (st.pool i).status ≠ .empty → st.tag i < st.forks
  pending : ∀ i, (st.pool i).status = .pending →
    ∃ c ∈ st.children, c.number = st.tag i ∧ c.pid = (st.pool i).childPid
  timedOut : ∀ i, (st.pool i).status = .timeout →
    taskTimeoutSec < st.clock - (st.pool i).createdAt ∧
      ∀ q ∈ st.reaped, q.number = st.tag i → taskTimeoutSec < q.time - (st.pool i).createdAt
  finished : ∀ i, (st.pool i).status ≠ .empty → (st.pool i).status ≠ .pending →
    (st.pool i).status ≠ .timeout →
      ∃ q ∈ st.reaped, q.number = st.tag i ∧ (st.pool i).status = childStatus q.status
  recordBorn : ∀ r ∈ st.recorded, r.number < st.forks
  records : ∀ r ∈ st.recorded, Awaited st r → st.tag r.slot = r.number ∧
    (st.pool r.slot).status = .pending ∧ (st.pool r.slot).createdAt = r.createdAt ∧
      (st.pool r.slot).sessionId = r.session
  reported : ∀ r ∈ st.recorded, r.connected = true → ∀ q ∈ st.justReaped, q.number = r.number →
    q.time - r.createdAt ≤ taskTimeoutSec →
      st.tag r.slot = r.number ∧ (st.pool r.slot).status = childStatus q.status

theorem restartsOk_init : RestartsOk restarts₀ where
  pool := poolOk_init
  pids := by simp [restarts₀]
  numbers := by simp [restarts₀]
  born := by simp [restarts₀]
  gone := by simp [restarts₀]
  once := by simp [restarts₀]
  flight := by rintro t th n pid ⟨⟩
  apart := by rintro t t' th th' n n' pid pid' ⟨⟩
  tags := fun i j hi => absurd rfl hi
  tagBorn := fun i hi => absurd rfl hi
  pending := by rintro i ⟨⟩
  timedOut := by rintro i ⟨⟩
  finished := fun i hi => absurd rfl hi
  recordBorn := by simp [restarts₀]
  records := by simp [restarts₀]
  reported := by simp [restarts₀]

/-- The invariant gives the property. -/
theorem RestartsOk.reports {st : Restarts} (h : RestartsOk st) : ExitsReported st := by
  refine ⟨h.reported, fun i hlive q hq hn htime => ?_, fun i hi => ?_⟩
  · by_cases hp : (st.pool i).status = .pending
    · -- the child of a PENDING task is not reaped
      obtain ⟨c, hc, hcn, -⟩ := h.pending i hp
      exact absurd (hcn.trans hn.symm) ((h.gone q hq).2.2 c hc)
    by_cases ht : (st.pool i).status = .timeout
    · exact absurd ((h.timedOut i ht).2 q hq hn) (not_lt.mpr htime)
    obtain ⟨q', hq', hn', hs⟩ := h.finished i hlive hp ht
    rw [hs, h.once q hq q' hq' (hn.trans hn'.symm)]
  · refine h.finished i ?_ ?_ ?_ <;> rcases hi with hi | hi <;> simp [hi]

/-! ### One step -/

theorem RestartsOk.ticked {st : Restarts} (h : RestartsOk st) (d : ℕ) :
    RestartsOk { st with clock := st.clock + d, justReaped := [] } where
  pool := h.pool
  pids := h.pids
  numbers := h.numbers
  born := h.born
  gone := fun q hq => ⟨(h.gone q hq).1, by have := (h.gone q hq).2.1; dsimp only; omega,
    (h.gone q hq).2.2⟩
  once := h.once
  flight := fun t th n pid ht hpc => by
    obtain ⟨h1, h2, h3, h4⟩ := h.flight t th n pid ht hpc
    exact ⟨h1, h2, h3, h4⟩
  apart := h.apart
  tags := h.tags
  tagBorn := h.tagBorn
  pending := h.pending
  timedOut := fun i hi => ⟨by have := (h.timedOut i hi).1; dsimp only; omega, (h.timedOut i hi).2⟩
  finished := h.finished
  recordBorn := h.recordBorn
  records := fun r hr hw => h.records r hr ⟨hw.1, hw.2.1, by
    have := hw.2.2
    dsimp only at this
    omega⟩
  reported := fun _ _ _ _ hq => absurd hq List.not_mem_nil

/-- A child's entry after `pid` has exited. -/
theorem exitedEntry (pid : ℤ) (w : WaitStatus) (c : Child) :
    (if c.pid = pid then { c with exited := some w } else c).pid = c.pid ∧
    (if c.pid = pid then { c with exited := some w } else c).number = c.number := by
  split <;> exact ⟨rfl, rfl⟩

theorem RestartsOk.exited {st : Restarts} (h : RestartsOk st) (pid : ℤ) (w : WaitStatus) :
    RestartsOk { st with
      children := st.children.map fun c => if c.pid = pid then { c with exited := some w } else c
      justReaped := [] } := by
  have hmem : ∀ c' ∈ st.children.map (fun c => if c.pid = pid then { c with exited := some w } else c),
      ∃ c ∈ st.children, c' = (if c.pid = pid then { c with exited := some w } else c) := by
    intro c' hc'
    obtain ⟨c, hc, rfl⟩ := List.mem_map.mp hc'
    exact ⟨c, hc, rfl⟩
  have hback : ∀ {n : ℕ} {p : ℤ}, (∃ c ∈ st.children, c.number = n ∧ c.pid = p) →
      ∃ c ∈ st.children.map (fun c => if c.pid = pid then { c with exited := some w } else c),
        c.number = n ∧ c.pid = p := by
    rintro n p ⟨c, hc, rfl, rfl⟩
    obtain ⟨hp, hn⟩ := exitedEntry pid w c
    exact ⟨_, List.mem_map_of_mem hc, hn, hp⟩
  refine { h with pids := ?_, numbers := ?_, born := ?_, gone := ?_, flight := ?_, pending := ?_,
                  reported := fun _ _ _ _ hq => absurd hq List.not_mem_nil }
  · intro c hc c' hc' heq
    obtain ⟨d, hd, rfl⟩ := hmem c hc
    obtain ⟨d', hd', rfl⟩ := hmem c' hc'
    rw [(exitedEntry pid w d).1, (exitedEntry pid w d').1] at heq
    rw [h.pids d hd d' hd' heq]
  · intro c hc c' hc' heq
    obtain ⟨d, hd, rfl⟩ := hmem c hc
    obtain ⟨d', hd', rfl⟩ := hmem c' hc'
    rw [(exitedEntry pid w d).2, (exitedEntry pid w d').2] at heq
    rw [h.numbers d hd d' hd' heq]
  · intro c hc
    obtain ⟨d, hd, rfl⟩ := hmem c hc
    rw [(exitedEntry pid w d).2]
    exact h.born d hd
  · intro q hq
    refine ⟨(h.gone q hq).1, (h.gone q hq).2.1, fun c hc => ?_⟩
    obtain ⟨d, hd, rfl⟩ := hmem c hc
    rw [(exitedEntry pid w d).2]
    exact (h.gone q hq).2.2 d hd
  · intro t th n p ht hpc
    obtain ⟨h1, h2, h3, h4⟩ := h.flight t th n p ht hpc
    exact ⟨h1, h2, h3, h4.imp hback id⟩
  · exact fun i hi => hback (h.pending i hi)

theorem RestartsOk.forked {st : Restarts} (h : RestartsOk st) {t : ℕ} {th : RestartThread}
    {n : List UInt8} {pid : ℤ} (hfresh : ∀ c ∈ st.children, c.pid ≠ pid) :
    RestartsOk { st with
      threads := Function.update st.threads t (some ⟨th.session, .alloc n pid, st.forks⟩)
      children := ⟨pid, st.forks, none⟩ :: st.children
      forks := st.forks + 1
      justReaped := [] } := by
  refine { h with pids := ?_, numbers := ?_, born := ?_, gone := ?_, flight := ?_, apart := ?_,
                  tagBorn := ?_, pending := ?_, recordBorn := ?_,
                  reported := fun _ _ _ _ hq => absurd hq List.not_mem_nil }
  · intro c hc c' hc' heq
    rcases List.mem_cons.mp hc with rfl | hc <;> rcases List.mem_cons.mp hc' with rfl | hc'
    · rfl
    · exact absurd heq.symm (hfresh c' hc')
    · exact absurd heq (hfresh c hc)
    · exact h.pids c hc c' hc' heq
  · intro c hc c' hc' heq
    rcases List.mem_cons.mp hc with rfl | hc <;> rcases List.mem_cons.mp hc' with rfl | hc'
    · rfl
    · exact absurd heq.symm (h.born c' hc').ne
    · exact absurd heq (h.born c hc).ne
    · exact h.numbers c hc c' hc' heq
  · intro c hc
    rcases List.mem_cons.mp hc with rfl | hc
    · exact Nat.lt_succ_self _
    · exact Nat.lt_succ_of_lt (h.born c hc)
  · intro q hq
    obtain ⟨hb, ht, hno⟩ := h.gone q hq
    refine ⟨Nat.lt_succ_of_lt hb, ht, fun c hc => ?_⟩
    rcases List.mem_cons.mp hc with rfl | hc
    · exact hb.ne'
    · exact hno c hc
  · intro t' th' n' pid' ht' hpc'
    rcases thread_of_update ht' with ⟨-, rfl⟩ | ⟨-, ht'⟩
    · obtain ⟨-, rfl⟩ := RestartPc.alloc.inj hpc'
      exact ⟨Nat.lt_succ_self _, fun i hi => (h.tagBorn i hi).ne, fun r hr => (h.recordBorn r hr).ne,
        Or.inl ⟨_, List.mem_cons_self, rfl, rfl⟩⟩
    · obtain ⟨h1, h2, h3, h4⟩ := h.flight t' th' n' pid' ht' hpc'
      exact ⟨Nat.lt_succ_of_lt h1, h2, h3,
        h4.imp (fun ⟨c, hc, hcn⟩ => ⟨c, List.mem_cons_of_mem _ hc, hcn⟩) id⟩
  · intro a b tha thb na nb pa pb ha hpa hb hpb heq
    rcases thread_of_update ha with ⟨hat, rfl⟩ | ⟨-, ha'⟩ <;>
      rcases thread_of_update hb with ⟨hbt, rfl⟩ | ⟨-, hb'⟩
    · exact hat.trans hbt.symm
    · exact absurd heq.symm (h.flight b thb nb pb hb' hpb).born.ne
    · exact absurd heq (h.flight a tha na pa ha' hpa).born.ne
    · exact h.apart a b tha thb na nb pa pb ha' hpa hb' hpb heq
  · exact fun i hi => Nat.lt_succ_of_lt (h.tagBorn i hi)
  · intro i hi
    obtain ⟨c, hc, hcn⟩ := h.pending i hi
    exact ⟨c, List.mem_cons_of_mem _ hc, hcn⟩
  · exact fun r hr => Nat.lt_succ_of_lt (h.recordBorn r hr)

/-- The flights of the threads other than `t` are the flights there were. -/
theorem RestartsOk.landed {st : Restarts} (h : RestartsOk st) {t : ℕ} {s : UInt16}
    {resp : List UInt8} {c : Option ℤ} {k t' : ℕ} {th' : RestartThread} {n : List UInt8} {pid : ℤ}
    (ht' : Function.update st.threads t (some ⟨s, .answered resp c, k⟩) t' = some th')
    (hpc : th'.pc = .alloc n pid) :
    t' ≠ t ∧ st.threads t' = some th' ∧ InFlight st th'.child pid := by
  rcases thread_of_update ht' with ⟨-, rfl⟩ | ⟨hne, ht'⟩
  · cases hpc
  · exact ⟨hne, ht', h.flight t' th' n pid ht' hpc⟩

theorem RestartsOk.untracked {st : Restarts} (h : RestartsOk st) {t : ℕ} {th : RestartThread}
    {resp : List UInt8} {c : Option ℤ} :
    RestartsOk { st with
      threads := Function.update st.threads t (some { th with pc := .answered resp c })
      justReaped := [] } := by
  refine { h with flight := ?_, apart := ?_,
                  reported := fun _ _ _ _ hq => absurd hq List.not_mem_nil }
  · intro t' th' n pid ht' hpc
    obtain ⟨-, -, h1, h2, h3, h4⟩ := h.landed ht' hpc
    exact ⟨h1, h2, h3, h4⟩
  · intro a b tha thb na nb pa pb ha hpa hb hpb heq
    obtain ⟨-, ha', -⟩ := h.landed ha hpa
    obtain ⟨-, hb', -⟩ := h.landed hb hpb
    exact h.apart a b tha thb na nb pa pb ha' hpa hb' hpb heq

/-- A slot and its tag once a task is recorded in slot `i`: the new ones, or those there were. -/
theorem slot_of_record (g : TaskPool) (tag : Fin taskPoolSize → ℕ) (i j : Fin taskPoolSize)
    (e : TaskEntry) (k : ℕ) :
    (j = i ∧ Function.update g i e j = e ∧ Function.update tag i k j = k) ∨
    (j ≠ i ∧ Function.update g i e j = g j ∧ Function.update tag i k j = tag j) := by
  rcases eq_or_ne j i with rfl | hji
  · exact Or.inl ⟨rfl, Function.update_self _ _ _, Function.update_self _ _ _⟩
  · exact Or.inr ⟨hji, Function.update_of_ne hji _ _, Function.update_of_ne hji _ _⟩

/-- A child that is recorded before it is reaped. -/
theorem RestartsOk.recorded {st : Restarts} (h : RestartsOk st) {t : ℕ} {th : RestartThread}
    {n : List UInt8} {pid : ℤ} {i : Fin taskPoolSize} {rand : UInt32} {resp : List UInt8}
    (hth : st.threads t = some th) (hpc : th.pc = .alloc n pid) (hi : firstEmpty st.pool = some i)
    (hC : ∀ q ∈ st.reaped, q.number ≠ th.child) :
    RestartsOk { st with
      pool := Function.update st.pool i (newEntry th.session n pid rand st.clock)
      threads := Function.update st.threads t (some { th with pc := .answered resp (some pid) })
      tag := Function.update st.tag i th.child
      recorded := ⟨th.child, i, th.session, st.clock, true⟩ :: st.recorded
      justReaped := [] } := by
  obtain ⟨hborn, huntag, hunrec, hsome⟩ := h.flight t th n pid hth hpc
  have hempty : (st.pool i).status = .empty := firstEmpty_some hi
  have hchild : ∃ c ∈ st.children, c.number = th.child ∧ c.pid = pid := by
    rcases hsome with hc | ⟨q, hq, hqn⟩
    · exact hc
    · exact absurd hqn (hC q hq)
  have hslot := fun j => slot_of_record st.pool st.tag i j
    (newEntry th.session n pid rand st.clock) th.child
  refine { h with pool := ?_, flight := ?_, apart := ?_, tags := ?_, tagBorn := ?_, pending := ?_,
                  timedOut := ?_, finished := ?_, recordBorn := ?_, records := ?_,
                  reported := fun _ _ _ _ hq => absurd hq List.not_mem_nil }
  · exact h.pool.step (update_step (.fill _ _ _ _ _ hempty))
  · intro t' th' n' pid' ht' hpc'
    obtain ⟨hne, ht', h1, h2, h3, h4⟩ := h.landed ht' hpc'
    have hother : th.child ≠ th'.child := fun heq =>
      hne (h.apart t t' th th' n n' pid pid' hth hpc ht' hpc' heq).symm
    refine ⟨h1, fun j hj => ?_, fun r hr => ?_, h4⟩
    · dsimp only at hj ⊢
      rcases hslot j with ⟨-, -, ht⟩ | ⟨-, hp, ht⟩ <;> rw [ht]
      · exact hother
      · exact h2 j (hp ▸ hj)
    · rcases List.mem_cons.mp hr with rfl | hr
      · exact hother
      · exact h3 r hr
  · intro a b tha thb na nb pa pb ha hpa hb hpb heq
    obtain ⟨-, ha', -⟩ := h.landed ha hpa
    obtain ⟨-, hb', -⟩ := h.landed hb hpb
    exact h.apart a b tha thb na nb pa pb ha' hpa hb' hpb heq
  · intro j k hj hk heq
    dsimp only at hj hk heq
    rcases hslot j with ⟨hji, -, htj⟩ | ⟨-, hpj, htj⟩ <;>
      rcases hslot k with ⟨hki, -, htk⟩ | ⟨-, hpk, htk⟩ <;> rw [htj, htk] at heq
    · exact hji.trans hki.symm
    · exact absurd heq.symm (huntag k (hpk ▸ hk))
    · exact absurd heq (huntag j (hpj ▸ hj))
    · exact h.tags j k (hpj ▸ hj) (hpk ▸ hk) heq
  · intro j hj
    dsimp only at hj ⊢
    rcases hslot j with ⟨-, -, ht⟩ | ⟨-, hp, ht⟩ <;> rw [ht]
    · exact hborn
    · exact h.tagBorn j (hp ▸ hj)
  · intro j hj
    dsimp only at hj ⊢
    rcases hslot j with ⟨-, hp, ht⟩ | ⟨-, hp, ht⟩ <;> rw [hp] at hj ⊢ <;> rw [ht]
    · exact hchild
    · exact h.pending j hj
  · intro j hj
    dsimp only at hj ⊢
    rcases hslot j with ⟨-, hp, ht⟩ | ⟨-, hp, ht⟩ <;> rw [hp] at hj ⊢ <;> rw [ht]
    · cases hj
    · exact h.timedOut j hj
  · intro j hlive hnp hnt
    dsimp only at hlive hnp hnt ⊢
    rcases hslot j with ⟨-, hp, ht⟩ | ⟨-, hp, ht⟩ <;> rw [hp] at hlive hnp hnt ⊢ <;> rw [ht]
    · exact absurd rfl hnp
    · exact h.finished j hlive hnp hnt
  · intro r hr
    rcases List.mem_cons.mp hr with rfl | hr
    · exact hborn
    · exact h.recordBorn r hr
  · intro r hr hw
    dsimp only
    rcases List.mem_cons.mp hr with rfl | hr
    · simp only [Function.update_self]
      exact ⟨trivial, rfl, rfl, rfl⟩
    · have hold := h.records r hr hw
      rcases hslot r.slot with ⟨heq, -, -⟩ | ⟨-, hp, ht⟩
      · rw [heq, hempty] at hold
        cases hold.2.1
      · rw [hp, ht]
        exact hold

/-! ### Sweeps, queries and releases -/

/-- A record that is still connected is untouched, and its session is not the one released. -/
theorem disconnect_connected {gone : Option UInt16} {r : TaskRecord}
    (h : (disconnect gone r).connected = true) : disconnect gone r = r ∧ gone ≠ some r.session := by
  simp only [disconnect] at h ⊢
  split at h
  · cases h
  · rename_i hne
    rw [if_neg hne]
    exact ⟨rfl, hne⟩

/-- An entry that is still there is as it was, but for a timeout. -/
theorem QuietEntry.live {clock : ℤ} {gone : Option UInt16} {e e' : TaskEntry}
    (h : QuietEntry clock gone e e') (hlive : e'.status ≠ .empty) : e' = e ∨
      (e.status = .pending ∧ taskTimeoutSec < clock - e.createdAt ∧
        e' = { e with status := .timeout }) := by
  cases h with
  | same => exact Or.inl rfl
  | timeout hp hold => exact Or.inr ⟨hp, hold, rfl⟩
  | freed _ => exact absurd rfl hlive

theorem QuietEntry.live_before {clock : ℤ} {gone : Option UInt16} {e e' : TaskEntry}
    (h : QuietEntry clock gone e e') (hlive : e'.status ≠ .empty) : e.status ≠ .empty := by
  rcases h.live hlive with rfl | ⟨hp, -⟩
  · exact hlive
  · rw [hp]; nofun

/-- A PENDING task within its time, whose session stays, is not touched. -/
theorem QuietEntry.awaited {clock : ℤ} {gone : Option UInt16} {e e' : TaskEntry}
    (h : QuietEntry clock gone e e') (hp : e.status = .pending)
    (hyoung : clock - e.createdAt ≤ taskTimeoutSec) (hstay : gone ≠ some e.sessionId) : e' = e := by
  cases h with
  | same => rfl
  | timeout _ hold => exact absurd hold (not_lt.mpr hyoung)
  | freed hwhy =>
    rcases hwhy with hnp | hold | hgone
    · exact absurd hp hnp
    · exact absurd hold (not_lt.mpr hyoung)
    · exact absurd hgone hstay

/-- A thread at its alloc after a quiet step was there before. -/
theorem alloc_of_quiet {st : Restarts} {threads : ℕ → Option RestartThread}
    (hth : ∀ t, threads t = st.threads t ∨ ∃ th, threads t = some th ∧ NoChild th) {t : ℕ}
    {th : RestartThread} {n : List UInt8} {pid : ℤ} (ht : threads t = some th)
    (hpc : th.pc = .alloc n pid) : st.threads t = some th := by
  rcases hth t with hsame | ⟨th', hth', hno, -⟩
  · exact hsame ▸ ht
  · obtain rfl := Option.some.inj (hth'.symm.trans ht)
    exact absurd hpc (hno n pid)

theorem RestartsOk.quiet {st : Restarts} (h : RestartsOk st) {g : TaskPool}
    {threads : ℕ → Option RestartThread} {gone : Option UInt16}
    (hg : ∀ i, QuietEntry st.clock gone (st.pool i) (g i))
    (hth : ∀ t, threads t = st.threads t ∨ ∃ th, threads t = some th ∧ NoChild th) :
    RestartsOk { st with
      pool := g
      threads := threads
      recorded := st.recorded.map (disconnect gone)
      justReaped := [] } := by
  refine { h with pool := fun i => (hg i).ok (h.pool i), flight := ?_, apart := ?_, tags := ?_,
                  tagBorn := fun i hi => h.tagBorn i ((hg i).live_before hi), pending := ?_,
                  timedOut := ?_, finished := ?_, recordBorn := ?_, records := ?_,
                  reported := fun _ _ _ _ hq => absurd hq List.not_mem_nil }
  · intro t th n pid ht hpc
    obtain ⟨h1, h2, h3, h4⟩ := h.flight t th n pid (alloc_of_quiet hth ht hpc) hpc
    refine ⟨h1, fun i hi => h2 i ((hg i).live_before hi), fun r hr => ?_, h4⟩
    obtain ⟨r', hr', rfl⟩ := List.mem_map.mp hr
    rw [disconnect_number]
    exact h3 r' hr'
  · intro a b tha thb na nb pa pb ha hpa hb hpb heq
    exact h.apart a b tha thb na nb pa pb (alloc_of_quiet hth ha hpa) hpa
      (alloc_of_quiet hth hb hpb) hpb heq
  · exact fun i j hi hj heq => h.tags i j ((hg i).live_before hi) ((hg j).live_before hj) heq
  · intro i hi
    rcases (hg i).live (by rw [hi]; nofun) with hsame | ⟨-, -, hto⟩
    · dsimp only at hi ⊢
      rw [hsame] at hi ⊢
      exact h.pending i hi
    · dsimp only at hi
      rw [hto] at hi
      cases hi
  · intro i hi
    dsimp only at hi ⊢
    rcases (hg i).live (by rw [hi]; nofun) with hsame | ⟨hp, hold, hto⟩
    · rw [hsame] at hi ⊢
      exact h.timedOut i hi
    · -- the child of a task that was PENDING up to now is not reaped
      obtain ⟨c, hc, hcn, -⟩ := h.pending i hp
      rw [hto]
      exact ⟨hold, fun q hq hn => absurd (hcn.trans hn.symm) ((h.gone q hq).2.2 c hc)⟩
  · intro i hi hp ht
    dsimp only at hi hp ht ⊢
    rcases (hg i).live hi with hsame | ⟨-, -, hto⟩
    · rw [hsame] at hi hp ht ⊢
      exact h.finished i hi hp ht
    · exact absurd (by rw [hto]) ht
  · intro r hr
    obtain ⟨r', hr', rfl⟩ := List.mem_map.mp hr
    rw [disconnect_number]
    exact h.recordBorn r' hr'
  · intro r hr hw
    obtain ⟨r', hr', rfl⟩ := List.mem_map.mp hr
    obtain ⟨hsame, hstay⟩ := disconnect_connected hw.1
    rw [hsame] at hw ⊢
    obtain ⟨htag, hp, hat, hs⟩ := h.records r' hr' hw
    have hkeep := (hg r'.slot).awaited hp (by rw [hat]; exact hw.2.2) (by rw [hs]; exact hstay)
    dsimp only
    rw [hkeep]
    exact ⟨htag, hp, hat, hs⟩

/-! ### The reaper -/

/-- The children that the next run of `sigchld_handler` reaps. -/
def reapedNow (st : Restarts) : List Reaped :=
  (zombies st.children).map fun z => ⟨z.1, z.2.2, st.clock⟩

theorem mem_reapedNow {st : Restarts} {q : Reaped} : q ∈ reapedNow st ↔
    q.time = st.clock ∧ ∃ c ∈ st.children, c.number = q.number ∧ c.exited = some q.status := by
  simp only [reapedNow, List.mem_map]
  constructor
  · rintro ⟨⟨n, pid, w⟩, hz, rfl⟩
    obtain ⟨c, hc, hn, -, hw⟩ := mem_zombies.mp hz
    exact ⟨rfl, c, hc, hn, hw⟩
  · rintro ⟨ht, c, hc, hn, hw⟩
    exact ⟨(q.number, c.pid, q.status), mem_zombies.mpr ⟨c, hc, hn, rfl, hw⟩, by rw [← ht]⟩

theorem reapedNow_of_exited {st : Restarts} {c : Child} {w : WaitStatus} (hc : c ∈ st.children)
    (hw : c.exited = some w) : ⟨c.number, w, st.clock⟩ ∈ reapedNow st :=
  mem_reapedNow.mpr ⟨rfl, c, hc, rfl, hw⟩

theorem mem_exited_pids {children : List Child} {pid : ℤ} {w : WaitStatus} :
    (pid, w) ∈ (zombies children).map Prod.snd ↔ ∃ c ∈ children, c.pid = pid ∧ c.exited = some w := by
  simp only [List.mem_map]
  constructor
  · rintro ⟨⟨n, p, w'⟩, hz, heq⟩
    obtain ⟨rfl, rfl⟩ := Prod.mk.inj heq
    obtain ⟨c, hc, -, hp, hw⟩ := mem_zombies.mp hz
    exact ⟨c, hc, hp, hw⟩
  · rintro ⟨c, hc, rfl, hw⟩
    exact ⟨(c.number, c.pid, w), mem_zombies.mpr ⟨c, hc, rfl, rfl, hw⟩, rfl⟩

/-- The state after a run of `sigchld_handler`. -/
def Restarts.afterReap (st : Restarts) : Restarts :=
  { st with
    pool := sigchldHandler st.pool ((zombies st.children).map Prod.snd)
    children := st.children.filter fun c => c.exited.isNone
    reaped := reapedNow st ++ st.reaped
    justReaped := reapedNow st }

/-- The reaper settles a PENDING task whose own child has exited, and touches no other slot. -/
theorem RestartsOk.reapedSlot {st : Restarts} (h : RestartsOk st) (i : Fin taskPoolSize) :
    ((st.pool i).status = .pending ∧ ∃ c ∈ st.children, ∃ w, c.number = st.tag i ∧
      c.exited = some w ∧ st.afterReap.pool i = { st.pool i with status := childStatus w }) ∨
    (((st.pool i).status = .pending → ∃ c ∈ st.children, c.number = st.tag i ∧
      c.pid = (st.pool i).childPid ∧ c.exited = none) ∧ st.afterReap.pool i = st.pool i) := by
  have hpid : ∀ i j, (st.pool i).status = .pending → (st.pool j).status = .pending →
      (st.pool i).childPid = (st.pool j).childPid → i = j := by
    intro i j hi hj heq
    obtain ⟨c, hc, hcn, hcp⟩ := h.pending i hi
    obtain ⟨c', hc', hcn', hcp'⟩ := h.pending j hj
    obtain rfl := h.pids c hc c' hc' (by rw [hcp, hcp', heq])
    exact h.tags i j (by rw [hi]; nofun) (by rw [hj]; nofun) (hcn.symm.trans hcn')
  rcases sigchldHandler_apply ((zombies st.children).map Prod.snd) hpid i with
    ⟨hp, w, hw, hs⟩ | ⟨hno, hs⟩
  · obtain ⟨c, hc, hcp, hcw⟩ := mem_exited_pids.mp hw
    obtain ⟨c', hc', hcn', hcp'⟩ := h.pending i hp
    obtain rfl := h.pids c hc c' hc' (hcp.trans hcp'.symm)
    exact Or.inl ⟨hp, c, hc, w, hcn', hcw, hs⟩
  · refine Or.inr ⟨fun hp => ?_, hs⟩
    obtain ⟨c, hc, hcn, hcp⟩ := h.pending i hp
    refine ⟨c, hc, hcn, hcp, Option.eq_none_iff_forall_ne_some.mpr fun w hw => ?_⟩
    exact hno hp w (mem_exited_pids.mpr ⟨c, hc, hcp, hw⟩)

theorem mem_afterReap_children {st : Restarts} {c : Child} :
    c ∈ st.afterReap.children ↔ c ∈ st.children ∧ c.exited = none := by
  simp [Restarts.afterReap]

theorem mem_afterReap_reaped {st : Restarts} {q : Reaped} :
    q ∈ st.afterReap.reaped ↔ q ∈ reapedNow st ∨ q ∈ st.reaped := by
  simp [Restarts.afterReap]

section
variable {st : Restarts} (h : RestartsOk st)
include h

/-- A child is found by its number, so one that is reaped now has exited. -/
theorem RestartsOk.exited_of_reapedNow {q : Reaped} (hq : q ∈ reapedNow st) {c : Child}
    (hc : c ∈ st.children) (hn : c.number = q.number) : c.exited = some q.status := by
  obtain ⟨-, c', hc', hn', hw⟩ := mem_reapedNow.mp hq
  rwa [h.numbers c hc c' hc' (hn.trans hn'.symm)]

/-- A child that is reaped now was not reaped before. -/
theorem RestartsOk.reapedNow_new {q q' : Reaped} (hq : q ∈ reapedNow st) (hq' : q' ∈ st.reaped) :
    q.number ≠ q'.number := by
  intro heq
  obtain ⟨-, c, hc, hn, -⟩ := mem_reapedNow.mp hq
  exact (h.gone q' hq').2.2 c hc (hn.trans heq)

theorem RestartsOk.live_of_afterReap {i : Fin taskPoolSize}
    (hi : (st.afterReap.pool i).status ≠ .empty) : (st.pool i).status ≠ .empty := by
  rcases h.reapedSlot i with ⟨hp, -⟩ | ⟨-, hs⟩
  · simp [hp]
  · rwa [hs] at hi

theorem RestartsOk.gone_afterReap {q : Reaped} (hq : q ∈ st.afterReap.reaped) :
    q.number < st.forks ∧ q.time ≤ st.clock ∧ ∀ c ∈ st.afterReap.children, c.number ≠ q.number := by
  rcases mem_afterReap_reaped.mp hq with hq | hq
  · obtain ⟨ht, c, hc, hn, -⟩ := mem_reapedNow.mp hq
    refine ⟨hn ▸ h.born c hc, ht.le, fun c' hc' hn' => ?_⟩
    obtain ⟨hc', hrun⟩ := mem_afterReap_children.mp hc'
    rw [h.exited_of_reapedNow hq hc' hn'] at hrun
    cases hrun
  · obtain ⟨hb, ht, hno⟩ := h.gone q hq
    exact ⟨hb, ht, fun c hc => hno c (mem_afterReap_children.mp hc).1⟩

theorem RestartsOk.once_afterReap {q q' : Reaped} (hq : q ∈ st.afterReap.reaped)
    (hq' : q' ∈ st.afterReap.reaped) (heq : q.number = q'.number) : q = q' := by
  rcases mem_afterReap_reaped.mp hq with hq | hq <;>
    rcases mem_afterReap_reaped.mp hq' with hq' | hq'
  · obtain ⟨ht, c, hc, hn, hw⟩ := mem_reapedNow.mp hq
    have hw' := h.exited_of_reapedNow hq' hc (hn.trans heq)
    obtain ⟨ht', -⟩ := mem_reapedNow.mp hq'
    obtain ⟨n, w, t⟩ := q
    obtain ⟨n', w', t'⟩ := q'
    obtain rfl : w = w' := Option.some.inj (hw.symm.trans hw')
    exact congrArg₂ (fun n t => Reaped.mk n w t) heq (ht.trans ht'.symm)
  · exact absurd heq (h.reapedNow_new hq hq')
  · exact absurd heq.symm (h.reapedNow_new hq' hq)
  · exact h.once q hq q' hq' heq

theorem RestartsOk.flight_afterReap {n : ℕ} {pid : ℤ} (hf : InFlight st n pid) :
    InFlight st.afterReap n pid := by
  obtain ⟨h1, h2, h3, h4⟩ := hf
  refine ⟨h1, fun i hi => h2 i (h.live_of_afterReap hi), h3, ?_⟩
  rcases h4 with ⟨c, hc, hcn, hcp⟩ | ⟨q, hq, hqn⟩
  · cases hw : c.exited with
    | none => exact Or.inl ⟨c, mem_afterReap_children.mpr ⟨hc, hw⟩, hcn, hcp⟩
    | some w =>
      exact Or.inr ⟨_, mem_afterReap_reaped.mpr (Or.inl (reapedNow_of_exited hc hw)), hcn⟩
  · exact Or.inr ⟨q, mem_afterReap_reaped.mpr (Or.inr hq), hqn⟩

/-- A record whose child is reaped now, within its time, shows what the child reported. -/
theorem RestartsOk.reported_afterReap {r : TaskRecord} (hr : r ∈ st.recorded)
    (hconn : r.connected = true) {q : Reaped} (hq : q ∈ reapedNow st) (hn : q.number = r.number)
    (hyoung : q.time - r.createdAt ≤ taskTimeoutSec) :
    st.tag r.slot = r.number ∧ (st.afterReap.pool r.slot).status = childStatus q.status := by
  obtain ⟨ht, c, hc, hcn, hcw⟩ := mem_reapedNow.mp hq
  obtain ⟨htag, hp, -⟩ := h.records r hr ⟨hconn, fun q' hq' hn' =>
    h.reapedNow_new hq hq' (hn.trans hn'.symm), by rw [← ht]; exact hyoung⟩
  refine ⟨htag, ?_⟩
  rcases h.reapedSlot r.slot with ⟨-, c', hc', w, hcn', hcw', hs⟩ | ⟨hrun, -⟩
  · obtain rfl := h.numbers c hc c' hc' (by rw [hcn, hcn', htag, hn])
    rw [hs]
    exact congrArg childStatus (Option.some.inj (hcw'.symm.trans hcw))
  · obtain ⟨c', hc', hcn', -, hrun'⟩ := hrun hp
    rw [h.exited_of_reapedNow hq hc' (by rw [hcn', htag, hn])] at hrun'
    cases hrun'

theorem RestartsOk.reaped : RestartsOk st.afterReap := by
  refine { h with pool := sigchldHandler_ok h.pool _, pids := ?_, numbers := ?_, born := ?_,
                  gone := fun q hq => h.gone_afterReap hq,
                  once := fun q hq q' hq' => h.once_afterReap hq hq',
                  flight := fun t th n pid ht hpc => h.flight_afterReap (h.flight t th n pid ht hpc),
                  tags := ?_, tagBorn := fun i hi => h.tagBorn i (h.live_of_afterReap hi),
                  pending := ?_, timedOut := ?_, finished := ?_, records := ?_,
                  reported := fun r hr hconn q hq => h.reported_afterReap hr hconn hq }
  · exact fun c hc c' hc' =>
      h.pids c (mem_afterReap_children.mp hc).1 c' (mem_afterReap_children.mp hc').1
  · exact fun c hc c' hc' =>
      h.numbers c (mem_afterReap_children.mp hc).1 c' (mem_afterReap_children.mp hc').1
  · exact fun c hc => h.born c (mem_afterReap_children.mp hc).1
  · exact fun i j hi hj heq => h.tags i j (h.live_of_afterReap hi) (h.live_of_afterReap hj) heq
  · intro i hi
    rcases h.reapedSlot i with ⟨-, c, hc, w, -, -, hs⟩ | ⟨hrun, hs⟩ <;>
      rw [hs] at hi
    · exact absurd hi (childStatus_ne_pending w)
    · rw [hs]
      obtain ⟨c, hc, hcn, hcp, hw⟩ := hrun hi
      exact ⟨c, mem_afterReap_children.mpr ⟨hc, hw⟩, hcn, hcp⟩
  · intro i hi
    rcases h.reapedSlot i with ⟨-, c, hc, w, -, -, hs⟩ | ⟨-, hs⟩ <;>
      rw [hs] at hi ⊢
    · exact absurd hi (childStatus_ne_timeout w)
    · obtain ⟨hold, hlate⟩ := h.timedOut i hi
      refine ⟨hold, fun q hq hn => ?_⟩
      rcases List.mem_append.mp hq with hq | hq
      · rw [(mem_reapedNow.mp hq).1]; exact hold
      · exact hlate q hq hn
  · intro i hi hp ht
    rcases h.reapedSlot i with ⟨-, c, hc, w, hcn, hcw, hs⟩ | ⟨-, hs⟩ <;>
      rw [hs] at hi hp ht ⊢
    · exact ⟨_, List.mem_append_left _ (reapedNow_of_exited hc hcw), hcn, rfl⟩
    · obtain ⟨q, hq, hqn, hst⟩ := h.finished i hi hp ht
      exact ⟨q, List.mem_append_right _ hq, hqn, hst⟩
  · intro r hr hw
    obtain ⟨htag, hp, hat, hsess⟩ := h.records r hr
      ⟨hw.1, fun q hq => hw.2.1 q (List.mem_append_right _ hq), hw.2.2⟩
    rcases h.reapedSlot r.slot with ⟨-, c, hc, w, hcn, hcw, -⟩ | ⟨-, hs⟩
    · -- the child of an awaited record is not reaped by this run either
      exact absurd (hcn.trans htag)
        (hw.2.1 _ (List.mem_append_left _ (reapedNow_of_exited hc hcw)))
    · rw [hs]
      exact ⟨htag, hp, hat, hsess⟩

end

/-! ### Runs -/

/-- Every step keeps the invariant, but for the alloc that comes after its child was reaped. -/
theorem RestartsOk.step {st st' : Restarts} {m : RestartsMove} (h : RestartsOk st)
    (hC : AllocBeforeReap st m) (hc : RestartsCase st m st') : RestartsOk st' := by
  cases hc with
  | quiet _ g threads gone hg hth _ => exact h.quiet hg hth
  | forked t rand th n pid _ _ hfresh => exact h.forked hfresh
  | recorded t rand fork th n pid i hth hpc hi =>
    exact h.recorded hth hpc hi
      (hC t rand fork th n pid rfl hth hpc (by rw [taskPoolAvailable, hi]; rfl))
  | untracked t rand fork th n pid _ _ _ => exact h.untracked
  | exited pid w => exact h.exited pid w
  | reaped => exact h.reaped
  | ticked d => exact h.ticked d

/-- A task recorded after its child was reaped is PENDING, and no later run of the reaper sees it. -/
theorem RestartsOk.lost {st st' : Restarts} {m : RestartsMove} (h : RestartsOk st)
    (hC : ¬ AllocBeforeReap st m) (hc : RestartsCase st m st') : ¬ ExitsReported st' := by
  simp only [AllocBeforeReap, not_forall, not_not] at hC
  obtain ⟨t, rand, fork, th, n, pid, rfl, hth, hpc, hfree, q, hq, hn⟩ := hC
  intro hrep
  rcases hc.at_alloc hth hpc with ⟨i, -, rfl⟩ | ⟨hnone, -⟩
  · have hkept := hrep.kept i
    simp only [Function.update_self] at hkept
    refine childStatus_ne_pending q.status (hkept (by simp) q hq hn ?_).symm
    have hpast := (h.gone q hq).2.1
    simp only [newEntry_createdAt, taskTimeoutSec]
    omega
  · obtain ⟨j, hj⟩ := taskPoolAvailable_some.mp hfree
    rw [hnone] at hj
    cases hj

/-- CORRECT (exact): along a run every exit within the time reaches its task, and no other task,
    exactly when each thread records its child before the child is reaped. -/
theorem exits_reported_iff (ms : List RestartsMove) (st : Restarts)
    (hrun : Runs.run restartsStep restarts₀ ms = some st) :
    Runs.StatesMeet restartsStep ExitsReported restarts₀ ms ↔
      Runs.StepsMeet restartsStep AllocBeforeReap restarts₀ ms := by
  refine Runs.states_iff_steps (I := RestartsOk) restartsOk_init ?_ (fun _ h => h.reports) ?_ hrun
  · exact fun st m st' h hC hstep => h.step hC (restartsStep_cases h.pool hstep)
  · exact fun st m st' h hC hstep => h.lost hC (restartsStep_cases h.pool hstep)

/-- Thread 0 forks child 100 and records it, then the child exits with code 0 and is reaped. -/
def recordedFirst : List RestartsMove :=
  toAlloc 0 1 0 100 ++ [.call 0 0 (.child 0), .exit 100 (.exited 0), .sigchld]

/-- The task ends up SUCCESS. -/
theorem exits_reported_recorded : ∃ st, Runs.run restartsStep restarts₀ recordedFirst = some st ∧
    (st.pool 0).childPid = 100 ∧ (st.pool 0).status = .success ∧ ⟨0, .exited 0, 0⟩ ∈ st.justReaped ∧
    (Runs.StatesMeet restartsStep ExitsReported restarts₀ recordedFirst ↔
      Runs.StepsMeet restartsStep AllocBeforeReap restarts₀ recordedFirst) := by
  have hfork := run_toAlloc restarts₀ 0 1 0 100 trivial
    (nthRequest_form 0) packed_zero.sweep (packed_zero.findPending 0 1 (Or.inl le_rfl))
    (by decide +kernel) (by decide) fun _ h => absurd h List.not_mem_nil
  set st₁ := restarts₀.afterFork 0 1 (nameBuf (nthRequest 0)) 100 with hst₁
  have hfirst : firstEmpty st₁.pool = some 0 := packed_zero.firstEmpty (by decide)
  have hth : st₁.threads 0 = some ⟨1, .alloc (nameBuf (nthRequest 0)) 100, 0⟩ :=
    Restarts.afterFork_threads restarts₀ 0 1 _ 100
  have halloc := call_alloc_some hth hfirst
  set st₂ := st₁.afterAlloc 0 1 (nameBuf (nthRequest 0)) 100 0 0 with hst₂
  have hslot : st₂.pool 0 = newEntry 1 (nameBuf (nthRequest 0)) 100 0 0 :=
    Restarts.afterAlloc_pool _ _ _ _ _ _ _
  have hothers : ∀ i ≠ 0, st₂.pool i = zeroEntry := fun i hi => Function.update_of_ne hi _ _
  have hexit : restartsStep st₂ (.exit 100 (.exited 0)) =
      some { st₂ with children := [⟨100, 0, some (.exited 0)⟩], justReaped := [] } := rfl
  have hreap : restartsStep { st₂ with children := [⟨100, 0, some (.exited 0)⟩], justReaped := [] }
      .sigchld = some { st₂ with
        pool := sigchldHandler st₂.pool [(100, .exited 0)]
        children := []
        reaped := [⟨0, .exited 0, 0⟩]
        justReaped := [⟨0, .exited 0, 0⟩] } := rfl
  have hrun : Runs.run restartsStep restarts₀ recordedFirst = some { st₂ with
      pool := sigchldHandler st₂.pool [(100, .exited 0)]
      children := []
      reaped := [⟨0, .exited 0, 0⟩]
      justReaped := [⟨0, .exited 0, 0⟩] } := by
    rw [recordedFirst, Runs.run_append, hfork, Option.bind_some, Runs.run_cons, halloc,
      Option.bind_some, Runs.run_cons, hexit, Option.bind_some, Runs.run_cons, hreap,
      Option.bind_some, Runs.run_nil]
  -- slot 0 is the one PENDING slot, so the reaper finds pid 100 there
  have hpending : ∀ i, (st₂.pool i).status = .pending → i = 0 := by
    intro i hi
    by_contra hne
    rw [hothers i hne] at hi
    cases hi
  have hreaped : sigchldHandler st₂.pool [(100, .exited 0)] 0 =
      { st₂.pool 0 with status := .success } := by
    rcases sigchldHandler_apply (g := st₂.pool) [(100, .exited 0)]
      (fun i j hi hj _ => (hpending i hi).trans (hpending j hj).symm) 0 with ⟨-, w, hw, hs⟩ | ⟨hno, -⟩
    · obtain ⟨-, rfl⟩ := Prod.mk.inj (List.mem_singleton.mp hw)
      exact hs
    · rw [hslot] at hno
      exact absurd (List.mem_singleton_self _) (hno rfl (.exited 0))
  refine ⟨_, hrun, ?_, ?_, List.mem_singleton_self _, exits_reported_iff _ _ hrun⟩
  · dsimp only
    rw [hreaped, hslot]
    rfl
  · dsimp only
    rw [hreaped]

/-- Thread 0 forks child 100, which exits with code 0 and is reaped before the thread records it. -/
def reapedFirst : List RestartsMove :=
  toAlloc 0 1 0 100 ++ [.exit 100 (.exited 0), .sigchld, .call 0 0 (.child 0)]

/-- The task stays PENDING: its child is gone, and TASK_QUERY answers that it is running. -/
theorem reaped_first : ∃ st, Runs.run restartsStep restarts₀ reapedFirst = some st ∧
    (st.pool 0).status = .pending ∧ (st.pool 0).childPid = 100 ∧ st.tag 0 = 0 ∧
    ⟨0, .exited 0, 0⟩ ∈ st.reaped ∧ ¬ ExitsReported st := by
  have hfork := run_toAlloc restarts₀ 0 1 0 100 trivial
    (nthRequest_form 0) packed_zero.sweep (packed_zero.findPending 0 1 (Or.inl le_rfl))
    (by decide +kernel) (by decide) fun _ h => absurd h List.not_mem_nil
  set st₁ := restarts₀.afterFork 0 1 (nameBuf (nthRequest 0)) 100 with hst₁
  have hexit : restartsStep st₁ (.exit 100 (.exited 0)) =
      some { st₁ with children := [⟨100, 0, some (.exited 0)⟩], justReaped := [] } := rfl
  set st₂ := { st₁ with children := [⟨100, 0, some (.exited 0)⟩], justReaped := [] } with hst₂
  -- the pool holds no PENDING task yet, so the reaper looks for pid 100 in vain
  have hreap : restartsStep st₂ .sigchld = some { st₂ with
      children := []
      reaped := [⟨0, .exited 0, 0⟩]
      justReaped := [⟨0, .exited 0, 0⟩] } := by
    have hpool : sigchldHandler taskPoolInit [(100, .exited 0)] = taskPoolInit := by
      rcases taskPoolUpdateByPid_cases taskPoolInit 100 (childStatus (.exited 0)) with
        ⟨i, hi, -⟩ | ⟨-, hu⟩
      · cases (pendingWithPid_some hi).2
      · exact hu
    simp only [restartsStep]
    exact congrArg some (by rw [Restarts.mk.injEq]; exact ⟨hpool, rfl, rfl, rfl, rfl, rfl, rfl, rfl, rfl⟩)
  set st₃ := { st₂ with
      children := []
      reaped := [⟨0, .exited 0, 0⟩]
      justReaped := [⟨0, .exited 0, 0⟩] } with hst₃
  have hfirst : firstEmpty st₃.pool = some 0 := packed_zero.firstEmpty (by decide)
  have hth : st₃.threads 0 = some ⟨1, .alloc (nameBuf (nthRequest 0)) 100, 0⟩ :=
    Restarts.afterFork_threads restarts₀ 0 1 _ 100
  have halloc := call_alloc_some hth hfirst
  have hslot : (st₃.afterAlloc 0 1 (nameBuf (nthRequest 0)) 100 0 0).pool 0 =
      newEntry 1 (nameBuf (nthRequest 0)) 100 0 0 := Restarts.afterAlloc_pool _ _ _ _ _ _ _
  have htag : (st₃.afterAlloc 0 1 (nameBuf (nthRequest 0)) 100 0 0).tag 0 = 0 :=
    Restarts.afterAlloc_tag _ _ _ _ _ _ _
  refine ⟨st₃.afterAlloc 0 1 (nameBuf (nthRequest 0)) 100 0 0, ?_, by rw [hslot]; rfl,
    by rw [hslot]; rfl, htag, List.mem_cons_self, fun hrep => ?_⟩
  · rw [reapedFirst, Runs.run_append, hfork, Option.bind_some, Runs.run_cons, hexit,
      Option.bind_some, Runs.run_cons, hreap, Option.bind_some, Runs.run_cons, halloc,
      Option.bind_some, Runs.run_nil]
  · have hkept := hrep.kept 0
    rw [hslot, htag] at hkept
    cases hkept (by simp) ⟨0, .exited 0, 0⟩ List.mem_cons_self rfl (by decide)

end Asys
