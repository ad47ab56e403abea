import Asys.Daemon.PoolEvents
import Asys.Lib.Runs

/-! # One pending restart for each service of a session

    SVC_RESTART looks for a pending task of the service before it forks one, and what it compares is
    what it stores: a valid name has no NUL and fits `svc_name`. So a session has at most one pending
    task for a service, and asking again gives that task's handle. -/

namespace Asys
open Words

/-- At most one pending entry for each session and service name. -/
def OnePending (g : TaskPool) : Prop :=
  ∀ i j, (g i).status = .pending → (g j).status = .pending → (g i).sessionId = (g j).sessionId →
    (g i).svcName = (g j).svcName → i = j

/-- The service a request names. -/
def requestedSvc (req : ApduFrame) : List UInt8 := req.data.drop offSvcName

/-! ### Names -/

/-- A string without NUL is read back whole from its buffer. -/
theorem cString_terminated {name : List UInt8} (h : ∀ c ∈ name, c ≠ 0) :
    cString (name ++ [0]) = name := by
  simp only [cString]
  rw [List.takeWhile_append_of_pos (by simpa using h)]
  simp

/-- What the lookup compares is the name in the request. -/
theorem RestartForm.cString_nameBuf {req : ApduFrame} (h : RestartForm req) :
    cString (nameBuf req) = requestedSvc req :=
  cString_terminated (svcNameValid_spec h.2.2).2

/-- What the new entry stores is the name in the request, uncut. -/
theorem RestartForm.svcName {req : ApduFrame} (h : RestartForm req) (s : UInt16) (pid : ℤ)
    (r : UInt32) (t : ℤ) : (newEntry s (nameBuf req) pid r t).svcName = requestedSvc req := by
  show (cString (nameBuf req)).take taskSvcNameMax = _
  rw [h.cString_nameBuf]
  exact List.take_of_length_le (svcNameValid_spec h.2.2).1

/-! ### The lookup -/

theorem taskPoolFindPending_zero {g : TaskPool} (hg : PoolOk g) {s : UInt16} {n : List UInt8}
    (h : taskPoolFindPending g s n = 0) (i : Fin taskPoolSize) (hp : (g i).status = .pending)
    (hs : (g i).sessionId = s) : (g i).svcName ≠ cString n := by
  intro hn
  unfold taskPoolFindPending at h
  split at h
  · rename_i j hj
    obtain ⟨hjp, -⟩ : (g j).status = .pending ∧ (g j).sessionId = s ∧ (g j).svcName = cString n := by
      simpa using Fin.eq_true_of_find?_eq_some hj
    exact (hg j).handleNe (by simp [hjp]) h
  · rename_i hnone
    simpa [hp, hs, hn] using Fin.eq_false_of_find?_eq_none hnone i

/-- With one pending entry for a service, the lookup finds that one. -/
theorem OnePending.find {g : TaskPool} (hone : OnePending g) {i : Fin taskPoolSize} {n : List UInt8}
    (hp : (g i).status = .pending) (hn : (g i).svcName = cString n) :
    taskPoolFindPending g (g i).sessionId n = (g i).handleId := by
  unfold taskPoolFindPending
  split
  · rename_i j hj
    obtain ⟨hjp, hjs, hjn⟩ : (g j).status = .pending ∧ (g j).sessionId = (g i).sessionId ∧
        (g j).svcName = cString n := by simpa using Fin.eq_true_of_find?_eq_some hj
    rw [hone j i hjp hp hjs (hjn.trans hn.symm)]
  · rename_i hnone
    exact absurd (Fin.eq_false_of_find?_eq_none hnone i) (by simp [hp, hn])

/-! ### Steps -/

/-- What is pending afterwards was pending before, in the same slot. -/
def PendingFrom (g g' : TaskPool) : Prop := ∀ i, (g' i).status = .pending → g' i = g i

theorem OnePending.of_pendingFrom {g g' : TaskPool} (h : OnePending g) (hfrom : PendingFrom g g') :
    OnePending g' := by
  intro i j hi hj hs hn
  have hi' := hfrom i hi
  have hj' := hfrom j hj
  rw [hi'] at hi hs hn
  rw [hj'] at hj hs hn
  exact h i j hi hj hs hn

theorem sweep_pendingFrom (g : TaskPool) (now : ℤ) :
    PendingFrom g (taskPoolSweepTimeouts g now) := by
  intro i hi
  rw [taskPoolSweepTimeouts_apply] at hi ⊢
  rcases sweepEntry_cases now (g i) with h | ⟨-, -, h⟩ | ⟨-, -, -, h⟩
  · exact h
  · rw [h] at hi; cases hi
  · rw [h] at hi; cases hi

theorem taskQuery_pendingFrom (env : Env) (g : TaskPool) (req : ApduFrame) (s : UInt16) :
    PendingFrom g (handlerTaskQuery env g req s).1 := by
  intro i hi
  rcases handlerTaskQuery_apply env g req s i with ⟨-, he⟩ | ⟨-, he | he⟩
  · exact he
  · rw [he] at hi ⊢; exact sweep_pendingFrom g env.sweepTime i hi
  · rw [he] at hi; cases hi

theorem updateByPid_pendingFrom (g : TaskPool) (pid : ℤ) {st : TaskStatus} (hst : st ≠ .pending) :
    PendingFrom g (taskPoolUpdateByPid g pid st) := by
  intro i hi
  rcases taskPoolUpdateByPid_cases g pid st with ⟨j, -, hu⟩ | ⟨-, hu⟩
  · rw [hu] at hi ⊢
    rcases eq_or_ne i j with rfl | hij
    · rw [Function.update_self] at hi; exact absurd hi hst
    · rw [Function.update_of_ne hij]
  · rw [hu]

theorem releaseSession_pendingFrom (g : TaskPool) (s : UInt16) :
    PendingFrom g (taskPoolReleaseSession g s) := by
  intro i hi
  exact (releaseSession_live (by simp [hi])).2

/-- A task is recorded only for a service that has none pending in the session. -/
theorem OnePending.svcRestart {g : TaskPool} (hg : PoolOk g) (h : OnePending g) (env : Env)
    (req : ApduFrame) (s : UInt16) : OnePending (handlerSvcRestart env g req s).1 := by
  have hc := handlerSvcRestart_cases env g req s
  have hswept := h.of_pendingFrom (sweep_pendingFrom g env.sweepTime)
  generalize handlerSvcRestart env g req s = out at hc
  cases hc with
  | rejected sw hno => exact h
  | reused handle hform hne hfind => exact hswept
  | full hform hfind hfirst => exact hswept
  | forkError errno i hform hfork hfind hfirst => exact hswept
  | started pid k hform hfork hfind hfirst =>
    -- no other pending entry has the session and the name of the new one
    have hfresh : ∀ j, j ≠ k → (taskPoolSweepTimeouts g env.sweepTime j).status = .pending →
        (taskPoolSweepTimeouts g env.sweepTime j).sessionId = s →
        (taskPoolSweepTimeouts g env.sweepTime j).svcName ≠ requestedSvc req := by
      intro j _ hp hs
      rw [← hform.cString_nameBuf]
      exact taskPoolFindPending_zero (hg.sweep _) hfind j hp hs
    intro i j hi hj hs hn
    dsimp only at hi hj hs hn
    rcases eq_or_ne i k with rfl | hik <;> rcases eq_or_ne j i with rfl | hji
    · rfl
    · rw [Function.update_self, Function.update_of_ne hji] at hs hn
      rw [Function.update_of_ne hji] at hj
      rw [hform.svcName] at hn
      exact absurd hn.symm (hfresh j hji hj hs.symm)
    · rfl
    · rw [Function.update_of_ne hik] at hi hs hn
      rcases eq_or_ne j k with rfl | hjk
      · rw [Function.update_self] at hs hn
        rw [hform.svcName] at hn
        exact absurd hn (hfresh i hik hi hs)
      · rw [Function.update_of_ne hjk] at hj hs hn
        exact hswept i j hi hj hs hn

theorem onePending_step {g : TaskPool} (hg : PoolOk g) (h : OnePending g) (e : PoolEvent) :
    OnePending (poolStep g e) := by
  cases e with
  | init => exact fun i j hi => by cases hi
  | svcRestart env req s => exact h.svcRestart hg env req s
  | taskQuery env req s => exact h.of_pendingFrom (taskQuery_pendingFrom env g req s)
  | childExit pid status =>
    exact h.of_pendingFrom (updateByPid_pendingFrom g pid (childStatus_ne_pending status))
  | sweep now => exact h.of_pendingFrom (sweep_pendingFrom g now)
  | releaseSession s => exact h.of_pendingFrom (releaseSession_pendingFrom g s)

theorem poolAfter_onePending (es : List PoolEvent) : OnePending (poolAfter es) := by
  induction es using List.reverseRecOn with
  | nil => exact fun i j hi => by cases hi
  | append_singleton es e ih =>
    rw [poolAfter, List.foldl_append]
    exact onePending_step (poolAfter_ok es) ih e

/-- The pending task in slot `i` is within its time when the request `req` asks for its service. -/
structure AsksAgain (g : TaskPool) (env : Env) (req : ApduFrame) (s : UInt16)
    (i : Fin taskPoolSize) : Prop where
  form : RestartForm req
  pending : (g i).status = .pending
  session : (g i).sessionId = s
  service : (g i).svcName = requestedSvc req
  young : env.sweepTime - (g i).createdAt ≤ taskTimeoutSec

/-- CORRECT: whatever has happened to the pool, a session has at most one pending task for a service,
    and a request for the service of a pending task that has not expired gives its handle, forks
    nothing and leaves every entry that is within its time as it was. -/
theorem one_pending_per_service (es : List PoolEvent) : OnePending (poolAfter es) ∧
    ∀ env req s i, AsksAgain (poolAfter es) env req s i →
      (handlerSvcRestart env (poolAfter es) req s).2.2 = handleResp (poolAfter es i).handleId ∧
      (handlerSvcRestart env (poolAfter es) req s).2.1 = [] ∧
      (handlerSvcRestart env (poolAfter es) req s).1 =
        taskPoolSweepTimeouts (poolAfter es) env.sweepTime ∧
      ∀ j, env.sweepTime - (poolAfter es j).createdAt ≤ taskTimeoutSec →
        (handlerSvcRestart env (poolAfter es) req s).1 j = poolAfter es j := by
  have hone := poolAfter_onePending es
  refine ⟨hone, fun env req s i h => ?_⟩
  generalize hg : poolAfter es = g at *
  have hok : PoolOk g := hg ▸ poolAfter_ok es
  have hi : taskPoolSweepTimeouts g env.sweepTime i = g i := sweepEntry_young h.young
  have hfind : taskPoolFindPending (taskPoolSweepTimeouts g env.sweepTime) s (nameBuf req) =
      (g i).handleId := by
    have hswept := hone.of_pendingFrom (sweep_pendingFrom g env.sweepTime)
    have := hswept.find (i := i) (n := nameBuf req) (by rw [hi]; exact h.pending)
      (by rw [hi, h.form.cString_nameBuf]; exact h.service)
    rwa [hi, h.session] at this
  have hne : (g i).handleId ≠ 0 := (hok i).handleNe (by simp [h.pending])
  have hall : handlerSvcRestart env g req s =
      (taskPoolSweepTimeouts g env.sweepTime, [], handleResp (g i).handleId) := by
    rw [handlerSvcRestart_of_form h.form, hfind, if_pos hne]
  rw [hall]
  exact ⟨rfl, rfl, rfl, fun j hj => sweepEntry_young hj⟩

/-- The second restart of service `a` gets the handle of the first. -/
theorem one_pending_per_service_again :
    (handlerSvcRestart ⟨30, 30, 2, .child 101, none⟩ (poolAfter oneRestart) (letterRequest 0x61)
      1).2.2 = handleResp 0x00010001 := by
  have hslot := oneRestart_slot
  have h := (one_pending_per_service oneRestart).2 ⟨30, 30, 2, .child 101, none⟩
    (letterRequest 0x61) 1 0 ⟨by decide, by rw [hslot], by rw [hslot], by rw [hslot]; rfl,
      by rw [hslot]; decide⟩
  rw [h.1, hslot]

end Asys
