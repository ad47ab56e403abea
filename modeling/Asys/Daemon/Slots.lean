import Asys.Daemon.Sessions
import Mathlib.Data.Fintype.Card

/-! # What a connection takes it gives back

    There are as many parsers as client slots, and a parser is only held by a client that is in its
    APDU loop or on its way out, so a client that asks for one gets it. `handle_client` is left by the
    bare `return`, which holds nothing yet, or through `cleanup`, whatever the goto or break. -/

namespace Asys
open Words

/-- `in_use` of the client slots and of the parsers, counted. -/
def Sessions.clientsInUse (st : Sessions) : ℕ :=
  (Finset.univ.filter fun i => (st.clients i).isFree = false).card

def Sessions.parsersInUse (st : Sessions) : ℕ :=
  (Finset.univ.filter fun p => st.parsers p = true).card

/-- The parser of a client in its loop, or at `cleanup` with `p` not NULL. -/
def Client.parser : Client → Option (Fin apduPoolSize)
  | .serving _ _ p => some p
  | .leaving _ _ p => p
  | _ => none

/-- The thread and the number of a client that takes turns. -/
def Client.inside : Client → Option (ℕ × ClientThread)
  | .entered n c => some (n, c)
  | .serving n c _ => some (n, c)
  | _ => none

/-- The thread is where its slot has it. -/
def Client.InPhase : Client → Prop
  | .entered _ c => c.phase = .start
  | .serving _ c _ => c.phase = .serving
  | _ => True

/-- Every parser in use is that of a client. -/
def ParsersHeld (st : Sessions) : Prop :=
  ∀ p, st.parsers p = true → ∃ i, (st.clients i).parser = some p

/-- A turn is taken in the surroundings `e` and `g`. -/
def SessionsMove.TakenIn (e : TurnEnv) (g : Statics) : SessionsMove → Prop
  | .turn _ e' g' => e' = e ∧ g' = g
  | _ => True

/-- A run of turns in these surroundings and of what follows them, which frees the slot `i` and
    touches no other. -/
def GetsOut (mc : Monocypher) (keys : ServerKeys) (e : TurnEnv) (g : Statics) (st : Sessions)
    (i : Fin maxClients) : Prop :=
  ∃ ms st', (∀ m ∈ ms, m.TakenIn e g) ∧ Runs.run (sessionsStep mc keys) st ms = some st' ∧
    st'.clients i = .free ∧ ∀ j ≠ i, st'.clients j = st.clients j

/-- Nothing is lost. `count`: there are no more parsers in use than client slots. `acquire`: a client
    on its way to the loop gets a parser. `live`: a task carries the id of a session that is there.
    `ended`: without a session all parsers and tasks are free. `leaves`: whatever surroundings its
    turns find, every client slot in use is on a way that frees it. `drained`: when all clients have
    gone that way, nothing is in use. -/
structure SlotsKept (mc : Monocypher) (keys : ServerKeys) (st : Sessions) : Prop where
  count : st.parsersInUse ≤ st.clientsInUse
  acquire : ∀ i n c, st.clients i = .entered n c → ∃ p, apduPoolAcquire st.parsers = some p
  live : ∀ k, (st.pool k).status ≠ .empty →
    ∃ i n, (st.clients i).session = some ((st.pool k).sessionId, n)
  ended : (∀ i, (st.clients i).session = none) →
    (∀ p, st.parsers p = false) ∧ ∀ k, st.pool k = zeroEntry
  leaves : ∀ e g i, GetsOut mc keys e g st i
  drained : ∀ e g, ∃ ms st', (∀ m ∈ ms, SessionsMove.TakenIn e g m) ∧
    Runs.run (sessionsStep mc keys) st ms = some st' ∧ (∀ i, st'.clients i = .free) ∧
    (∀ p, st'.parsers p = false) ∧ ∀ k, st'.pool k = zeroEntry

section
variable {mc : Monocypher} {keys : ServerKeys} {st st' : Sessions} {i : Fin maxClients}

/-! ### Parsers -/

/-- What a step does to the clients and the parsers. -/
inductive ClientsCase (st st' : Sessions) : Prop where
  | same : st'.clients = st.clients → st'.parsers = st.parsers → ClientsCase st st'
  | became (i : Fin maxClients) (c : Client) : st'.clients = Function.update st.clients i c →
      st'.parsers = st.parsers → c.parser = (st.clients i).parser → c.InPhase → ClientsCase st st'
  | acquired (i : Fin maxClients) (n : ℕ) (c : ClientThread) (p : Fin apduPoolSize) :
      (st.clients i).parser = none → c.phase = .serving →
      st'.clients = Function.update st.clients i (.serving n c p) →
      st'.parsers = Function.update st.parsers p true → ClientsCase st st'
  | gaveBack (i : Fin maxClients) (n : ℕ) (c : ClientThread) (p : Option (Fin apduPoolSize)) :
      st.clients i = .leaving n c p → st'.clients = Function.update st.clients i (.releasing n c) →
      st'.parsers = apduPoolRelease st.parsers p → ClientsCase st st'

theorem afterStart_clients {n : ℕ} {c : ClientThread} {t : Turn} (hi : st.clients i = .entered n c) :
    ClientsCase st (st.afterStart i n c t) := by
  have hnone : (st.clients i).parser = none := by rw [hi]; rfl
  rw [Sessions.afterStart]
  split
  · exact .became i .returned rfl rfl hnone.symm trivial
  split
  · rename_i p hserving _
    exact .acquired i n t.thread p hnone hserving rfl rfl
  · exact .became i (.leaving n t.thread none) rfl rfl hnone.symm trivial

theorem afterLoop_clients {n : ℕ} {c : ClientThread} {p : Fin apduPoolSize} {t : Turn}
    (hi : st.clients i = .serving n c p) : ClientsCase st (st.afterLoop i n p t) := by
  have hsome : (st.clients i).parser = some p := by rw [hi]; rfl
  rw [Sessions.afterLoop]
  split
  · rename_i hserving
    exact .became i (.serving n t.thread p) rfl rfl hsome.symm hserving
  · exact .became i (.leaving n t.thread (some p)) rfl rfl hsome.symm trivial

theorem sessionsStep_clients {m : SessionsMove} (h : sessionsStep mc keys st m = some st') :
    ClientsCase st st' := by
  cases m with
  | accept =>
    simp only [sessionsStep] at h
    cases hf : freeSlot st.clients with
    | none =>
      rw [hf] at h
      obtain rfl := Option.some.inj h
      exact .same rfl rfl
    | some i =>
      rw [hf] at h
      obtain rfl := Option.some.inj h
      exact .became i .accepted rfl rfl (by rw [freeSlot_some hf]; rfl) trivial
  | threadFailed i =>
    simp only [sessionsStep] at h
    split at h
    · rename_i hi
      obtain rfl := Option.some.inj h
      exact .became i .free rfl rfl (by rw [hi]; rfl) trivial
    · cases h
  | enter i inp =>
    simp only [sessionsStep] at h
    split at h
    · rename_i hi
      obtain rfl := Option.some.inj h
      exact .became i (.entered st.entered (enteredThread st.nextId inp)) rfl rfl (by rw [hi]; rfl) rfl
    · cases h
  | turn i e g =>
    simp only [sessionsStep] at h
    split at h
    · rename_i n c hi
      obtain ⟨t, -, rfl⟩ := Option.map_eq_some_iff.mp h
      exact afterStart_clients hi
    · rename_i n c p hi
      obtain ⟨t, -, rfl⟩ := Option.map_eq_some_iff.mp h
      exact afterLoop_clients hi
    · cases h
  | releaseParser i =>
    simp only [sessionsStep] at h
    split at h
    · rename_i n c p hi
      obtain rfl := Option.some.inj h
      exact .gaveBack i n c p hi rfl rfl
    · cases h
  | releaseTasks i =>
    obtain ⟨n, c, hi, rfl⟩ := releaseTasks_some h
    exact .became i .returned rfl rfl (by rw [hi]; rfl) trivial
  | close i =>
    simp only [sessionsStep] at h
    split at h
    · rename_i hi
      obtain rfl := Option.some.inj h
      exact .became i .free rfl rfl (by rw [hi]; rfl) trivial
    · cases h
  | alloc i svcName pid rand now =>
    simp only [sessionsStep] at h
    split at h
    · obtain rfl := Option.some.inj h
      exact .same rfl rfl
    · cases h
  | freeTask i handle =>
    simp only [sessionsStep] at h
    split at h
    · split at h
      · obtain rfl := Option.some.inj h
        exact .same rfl rfl
      · cases h
    · cases h
  | sweep now =>
    obtain rfl := Option.some.inj h
    exact .same rfl rfl
  | childExit pid status =>
    obtain rfl := Option.some.inj h
    exact .same rfl rfl

theorem parsersHeld_init : ParsersHeld sessions₀ := by
  intro p hp
  cases hp

theorem ParsersHeld.step (h : ParsersHeld st) (hc : ClientsCase st st') : ParsersHeld st' := by
  intro q hq
  cases hc with
  | same hclients hparsers =>
    rw [hparsers] at hq
    rw [hclients]
    exact h q hq
  | became i c hclients hparsers hkeeps _ =>
    rw [hparsers] at hq
    obtain ⟨j, hj⟩ := h q hq
    rw [hclients]
    rcases eq_or_ne j i with rfl | hne
    · exact ⟨j, by rw [Function.update_self, hkeeps, hj]⟩
    · exact ⟨j, by rw [Function.update_of_ne hne, hj]⟩
  | acquired i n c p hnone _ hclients hparsers =>
    rw [hparsers] at hq
    rw [hclients]
    rcases eq_or_ne q p with rfl | hqp
    · exact ⟨i, by rw [Function.update_self]; rfl⟩
    · rw [Function.update_of_ne hqp] at hq
      obtain ⟨j, hj⟩ := h q hq
      have hne : j ≠ i := by
        rintro rfl
        rw [hnone] at hj
        cases hj
      exact ⟨j, by rw [Function.update_of_ne hne, hj]⟩
  | gaveBack i n c p hi hclients hparsers =>
    rw [hparsers] at hq
    rw [hclients]
    -- what is still in use is not the parser of the client that leaves
    have hkept : st.parsers q = true ∧ p ≠ some q := by
      cases p with
      | none => exact ⟨hq, nofun⟩
      | some p =>
        rcases eq_or_ne q p with rfl | hqp
        · rw [apduPoolRelease, Function.update_self] at hq
          cases hq
        · rw [apduPoolRelease, Function.update_of_ne hqp] at hq
          exact ⟨hq, fun heq => hqp (Option.some.inj heq).symm⟩
    obtain ⟨j, hj⟩ := h q hkept.1
    have hne : j ≠ i := by
      rintro rfl
      rw [hi] at hj
      exact hkept.2 hj
    exact ⟨j, by rw [Function.update_of_ne hne, hj]⟩

/-- The parsers in use inject into the clients that hold one. -/
theorem ParsersHeld.count (h : ParsersHeld st) :
    st.parsersInUse ≤ (Finset.univ.filter fun i => (st.clients i).parser ≠ none).card := by
  choose! holder hholder using h
  refine Finset.card_le_card_of_injOn holder ?_ ?_
  · intro p hp
    have hc := hholder p (by simpa using hp)
    exact Finset.mem_filter.mpr ⟨Finset.mem_univ _, by rw [hc]; nofun⟩
  · intro p hp q hq heq
    have hc := hholder p (by simpa using hp)
    have hc' := hholder q (by simpa using hq)
    rw [heq, hc'] at hc
    exact (Option.some.inj hc).symm

/-- A client without a parser leaves one for itself. -/
theorem ParsersHeld.acquire (h : ParsersHeld st) (hi : (st.clients i).parser = none) :
    ∃ p, apduPoolAcquire st.parsers = some p := by
  have hothers : (Finset.univ.filter fun j => (st.clients j).parser ≠ none) ⊆
      Finset.univ.erase i := by
    intro j hj
    refine Finset.mem_erase.mpr ⟨?_, Finset.mem_univ _⟩
    rintro rfl
    exact (Finset.mem_filter.mp hj).2 hi
  have hcard := Finset.card_le_card hothers
  rw [Finset.card_erase_of_mem (Finset.mem_univ i), Finset.card_univ, Fintype.card_fin] at hcard
  have hlt : st.parsersInUse < apduPoolSize := (h.count.trans hcard).trans_lt (by decide)
  cases hp : apduPoolAcquire st.parsers with
  | some p => exact ⟨p, rfl⟩
  | none =>
    have hall : ∀ p, st.parsers p = true := by simpa [apduPoolAcquire] using hp
    have hfull : st.parsersInUse = apduPoolSize := by
      rw [Sessions.parsersInUse, Finset.filter_true_of_mem fun p _ => hall p, Finset.card_univ,
        Fintype.card_fin]
    omega

/-! ### The way out -/

/-- Every thread is where its slot has it. -/
def InPhases (st : Sessions) : Prop := ∀ i, (st.clients i).InPhase

theorem inPhases_init : InPhases sessions₀ := fun _ => trivial

theorem InPhases.become (h : InPhases st) {c : Client} (hc : c.InPhase) {clients}
    (hclients : clients = Function.update st.clients i c) : ∀ j, (clients j).InPhase := by
  intro j
  rw [hclients]
  rcases eq_or_ne j i with rfl | hne
  · rwa [Function.update_self]
  · rw [Function.update_of_ne hne]
    exact h j

theorem InPhases.step (h : InPhases st) (hc : ClientsCase st st') : InPhases st' := by
  cases hc with
  | same hclients _ =>
    intro j
    rw [hclients]
    exact h j
  | became i c hclients _ _ hphase => exact h.become hphase hclients
  | acquired i n c p _ hphase hclients _ => exact h.become (c := .serving n c p) hphase hclients
  | gaveBack i n c p _ hclients _ => exact h.become (c := .releasing n c) trivial hclients

variable {e : TurnEnv} {g : Statics}

theorem GetsOut.of_step {st₁ : Sessions} {m : SessionsMove}
    (hs : sessionsStep mc keys st m = some st₁) (hm : m.TakenIn e g)
    (hothers : ∀ j ≠ i, st₁.clients j = st.clients j) (h : GetsOut mc keys e g st₁ i) :
    GetsOut mc keys e g st i := by
  obtain ⟨ms, st', hms, hrun, hfree, hsame⟩ := h
  refine ⟨m :: ms, st', ?_, Runs.run_of_step hs hrun, hfree,
    fun j hj => (hsame j hj).trans (hothers j hj)⟩
  intro m' hm'
  rcases List.mem_cons.mp hm' with rfl | hm'
  · exact hm
  · exact hms m' hm'

theorem leaves_returned (hi : st.clients i = .returned) : GetsOut mc keys e g st i := by
  have hs : sessionsStep mc keys st (.close i) = some (st.become i .free) := by
    simp [sessionsStep, hi]
  refine GetsOut.of_step hs trivial (fun j hj => Function.update_of_ne hj _ _)
    ⟨[], _, by simp, rfl, ?_, fun j _ => rfl⟩
  exact Function.update_self _ _ _

theorem leaves_releasing {n : ℕ} {c : ClientThread} (hi : st.clients i = .releasing n c) :
    GetsOut mc keys e g st i := by
  have hs : sessionsStep mc keys st (.releaseTasks i) = some { st.become i .returned with
      pool := taskPoolReleaseSession st.pool c.ctx.sessionId } := by simp [sessionsStep, hi]
  exact GetsOut.of_step hs trivial (fun j hj => Function.update_of_ne hj _ _)
    (leaves_returned (Function.update_self _ _ _))

theorem leaves_leaving {n : ℕ} {c : ClientThread} {p : Option (Fin apduPoolSize)}
    (hi : st.clients i = .leaving n c p) : GetsOut mc keys e g st i := by
  have hs : sessionsStep mc keys st (.releaseParser i) = some { st.become i (.releasing n c) with
      parsers := apduPoolRelease st.parsers p } := by simp [sessionsStep, hi]
  exact GetsOut.of_step hs trivial (fun j hj => Function.update_of_ne hj _ _)
    (leaves_releasing (Function.update_self _ _ _))

/-- Every turn of the loop takes from what the peer has sent, so the loop ends. -/
theorem leaves_serving {n : ℕ} {c : ClientThread} {p : Fin apduPoolSize}
    (hi : st.clients i = .serving n c p) (hc : c.phase = .serving) : GetsOut mc keys e g st i := by
  induction hlen : c.inp.length using Nat.strong_induction_on generalizing st c with
  | _ len ih =>
    have hs := turn_serving mc keys hi hc e g
    refine GetsOut.of_step hs ⟨rfl, rfl⟩ ?_ ?_
    · intro j hj
      rw [Sessions.afterLoop]
      split <;> exact Function.update_of_ne hj _ _
    · cases clientLoop_path mc (st.around c e) g hc with
      | turnedAway hstart _ _ _ _ => rw [hc] at hstart; cases hstart
      | refused hstart _ _ => rw [hc] at hstart; cases hstart
      | admitted hstart _ _ _ _ => rw [hc] at hstart; cases hstart
      | goesOn pool _ _ h hshort =>
        rw [Sessions.afterLoop, h.serving]
        exact ih _ (by omega) (Function.update_self _ _ _) h.serving rfl
      | breaks pool _ _ h =>
        rw [Sessions.afterLoop, h.closed]
        exact leaves_leaving (Function.update_self _ _ _)

theorem leaves_entered {n : ℕ} {c : ClientThread} (hi : st.clients i = .entered n c)
    (hc : c.phase = .start) : GetsOut mc keys e g st i := by
  have hs := turn_entered mc keys hi hc e g
  refine GetsOut.of_step hs ⟨rfl, rfl⟩ ?_ ?_
  · intro j hj
    rw [Sessions.afterStart]
    split
    · exact Function.update_of_ne hj _ _
    · split <;> exact Function.update_of_ne hj _ _
  · rw [Sessions.afterStart]
    split
    · exact leaves_returned (Function.update_self _ _ _)
    split
    · rename_i p hserving _
      exact leaves_serving (Function.update_self _ _ _) hserving
    · exact leaves_leaving (Function.update_self _ _ _)

variable (mc keys e g)

/-- From wherever it stands, a client gets out. -/
theorem getsOut (h : InPhases st) (i : Fin maxClients) : GetsOut mc keys e g st i := by
  have hphase := h i
  cases hi : st.clients i with
  | free => exact ⟨[], st, by simp, rfl, hi, fun _ _ => rfl⟩
  | accepted =>
    have hs : sessionsStep mc keys st (.enter i []) = some { st.become i
        (.entered st.entered (enteredThread st.nextId [])) with
          nextId := nextSessionId st.nextId
          entered := st.entered + 1 } := by simp [sessionsStep, hi]
    exact GetsOut.of_step hs trivial (fun j hj => Function.update_of_ne hj _ _)
      (leaves_entered (Function.update_self _ _ _) rfl)
  | entered n c =>
    rw [hi] at hphase
    exact leaves_entered hi hphase
  | serving n c p =>
    rw [hi] at hphase
    exact leaves_serving hi hphase
  | leaving n c p => exact leaves_leaving hi
  | releasing n c => exact leaves_releasing hi
  | returned => exact leaves_returned hi

/-- One client after the other. -/
theorem all_leave (h : InPhases st) (S : Finset (Fin maxClients)) :
    ∃ ms st', (∀ m ∈ ms, SessionsMove.TakenIn e g m) ∧
      Runs.run (sessionsStep mc keys) st ms = some st' ∧ ∀ i ∈ S, st'.clients i = .free := by
  induction S using Finset.induction_on with
  | empty => exact ⟨[], st, by simp, rfl, by simp⟩
  | insert i S _ ih =>
    obtain ⟨ms, st₁, hms, hrun, hfree⟩ := ih
    have hphases : InPhases st₁ := Runs.inv_of_run h (fun s l s' hs hstep =>
      hs.step (sessionsStep_clients hstep)) hrun
    obtain ⟨ms', st', hms', hrun', hi, hsame⟩ := getsOut mc keys e g hphases i
    refine ⟨ms ++ ms', st', ?_, Runs.run_trans hrun hrun', fun j hj => ?_⟩
    · intro m hm
      exact (List.mem_append.mp hm).elim (hms m) (hms' m)
    · rcases eq_or_ne j i with rfl | hne
      · exact hi
      · rw [hsame j hne]
        exact hfree j ((Finset.mem_insert.mp hj).resolve_left hne)

/-! ### The turns of handle_client -/

/-- What one turn of `handle_client`, not disturbed by other threads, makes of the daemon: the pool as
    the turn leaves it, and the client in the loop with the turn's thread, or out of the function. -/
structure TurnDone (st : Sessions) (i : Fin maxClients) (n : ℕ) (t : Turn) (st' : Sessions) :
    Prop where
  pool : st'.pool = t.statics.pool
  others : ∀ j ≠ i, st'.clients j = st.clients j
  client : t.thread.phase = .serving ∧ (∃ p, st'.clients i = .serving n t.thread p) ∨
    t.thread.phase = .closed ∧ st'.clients i = .returned

/-- The calls of a request, one move each. -/
theorem calls_run {n : ℕ} {c : ClientThread} {p : Fin apduPoolSize} {pool : TaskPool}
    (hi : st.clients i = .serving n c p) (h : CallsLeave c.ctx.sessionId st.pool pool) :
    ∃ ms st', Runs.run (sessionsStep mc keys) st ms = some st' ∧ st'.clients = st.clients ∧
      st'.parsers = st.parsers ∧ st'.pool = pool := by
  obtain ⟨calls, hfor, rfl⟩ := h
  induction calls generalizing st with
  | nil => exact ⟨[], st, rfl, rfl, rfl, rfl⟩
  | cons x calls ih =>
    have hx := hfor x List.mem_cons_self
    obtain ⟨m, st₁, hstep, hclients, hparsers, hpool⟩ : ∃ m st₁,
        sessionsStep mc keys st m = some st₁ ∧ st₁.clients = st.clients ∧
          st₁.parsers = st.parsers ∧ st₁.pool = poolCall c.ctx.sessionId st.pool x := by
      cases x with
      | sweep now => exact ⟨.sweep now, _, rfl, rfl, rfl, rfl⟩
      | free handle =>
        have hown : high16 handle = c.ctx.sessionId := hx
        exact ⟨.freeTask i handle, { st with pool := taskPoolFree st.pool handle },
          by simp only [sessionsStep, hi, if_pos hown], rfl, rfl, rfl⟩
      | alloc svcName pid rand now =>
        exact ⟨.alloc i svcName pid rand now, { st with
          pool := (taskPoolAlloc st.pool c.ctx.sessionId svcName pid rand now).1
          owner := st.ownerAfter n }, by simp only [sessionsStep, hi], rfl, rfl, rfl⟩
    obtain ⟨ms, st', hrun, hclients', hparsers', hpool'⟩ := ih
      (show st₁.clients i = .serving n c p by rw [hclients, hi])
      fun y hy => hfor y (List.mem_cons_of_mem x hy)
    refine ⟨m :: ms, st', Runs.run_of_step hstep hrun, hclients'.trans hclients,
      hparsers'.trans hparsers, ?_⟩
    rw [hpool', hpool]
    rfl

/-- The rest of a turn that is at `cleanup`. -/
theorem TurnDone.of_leaving {st₁ : Sessions} {n : ℕ} {t : Turn} {p : Option (Fin apduPoolSize)}
    (hclients : st₁.clients = Function.update st.clients i (.leaving n t.thread p))
    (hclosed : t.thread.phase = .closed)
    (hpool : t.statics.pool = taskPoolReleaseSession st₁.pool t.thread.ctx.sessionId) :
    ∃ st', Runs.run (sessionsStep mc keys) st₁ [.releaseParser i, .releaseTasks i] = some st' ∧
      TurnDone st i n t st' := by
  have hi : st₁.clients i = .leaving n t.thread p := by rw [hclients, Function.update_self]
  refine ⟨{ st₁.become i .returned with
    parsers := apduPoolRelease st₁.parsers p
    pool := taskPoolReleaseSession st₁.pool t.thread.ctx.sessionId }, ?_, hpool.symm, ?_, ?_⟩
  · simp [sessionsStep, hi, Sessions.become]
  · intro j hj
    show Function.update st₁.clients i .returned j = st.clients j
    rw [hclients, Function.update_of_ne hj, Function.update_of_ne hj]
  · exact .inr ⟨hclosed, Function.update_self _ _ _⟩

theorem entered_moves {n : ℕ} {c : ClientThread} (hi : st.clients i = .entered n c)
    (hc : c.phase = .start) (e : TurnEnv) {g : Statics} (hg : g.pool = st.pool) {t : Turn}
    (ht : clientStart mc keys (st.around c e) g c = t) :
    ∃ ms st', Runs.run (sessionsStep mc keys) st ms = some st' ∧ TurnDone st i n t st' := by
  have hs := turn_entered mc keys hi hc e g
  have hpath := clientStart_path mc keys (e := st.around c e) g hc rfl
  rw [ht] at hs hpath
  have hbehind : waitForClientMagic c.inp = true → ¬ waitForClientMagic c.inp = false := by simp
  cases hpath with
  | turnedAway _ hwait hclosed _ hstatics =>
    rw [Sessions.afterStart, if_pos hwait] at hs
    refine ⟨[.turn i e g], _, Runs.run_of_step hs rfl, ?_, fun j hj => Function.update_of_ne hj _ _,
      .inr ⟨hclosed, Function.update_self _ _ _⟩⟩
    rw [hstatics, hg]
    rfl
  | refused _ hwait hquits =>
    rw [Sessions.afterStart, if_neg (hbehind hwait), hquits.closed] at hs
    have hreleased : t.statics.pool = taskPoolReleaseSession
        (st.become i (.leaving n t.thread none)).pool t.thread.ctx.sessionId := by
      rw [hquits.released, hquits.sessionId, hg]
      rfl
    obtain ⟨st', hrun, hdone⟩ := TurnDone.of_leaving mc keys rfl hquits.closed hreleased
    exact ⟨_, st', Runs.run_of_step hs hrun, hdone⟩
  | admitted _ hwait hfree hstays _ =>
    obtain ⟨p, hp⟩ := Option.isSome_iff_exists.mp hfree
    rw [Sessions.afterStart, if_neg (hbehind hwait), hstays.serving, hp] at hs
    refine ⟨[.turn i e g], _, Runs.run_of_step hs rfl, ?_, fun j hj => Function.update_of_ne hj _ _,
      .inl ⟨hstays.serving, p, Function.update_self _ _ _⟩⟩
    rw [hstays.kept, hg]
    rfl
  | goesOn _ hserving _ _ _ => rw [hc] at hserving; cases hserving
  | breaks _ hserving _ _ => rw [hc] at hserving; cases hserving

theorem serving_moves {n : ℕ} {c : ClientThread} {p : Fin apduPoolSize}
    (hi : st.clients i = .serving n c p) (hc : c.phase = .serving) (e : TurnEnv) {g : Statics}
    (hg : g.pool = st.pool) {t : Turn} (ht : clientLoop mc (st.around c e) g c = t) :
    ∃ ms st', Runs.run (sessionsStep mc keys) st ms = some st' ∧ TurnDone st i n t st' := by
  have hpath := clientLoop_path mc (st.around c e) g hc
  rw [ht] at hpath
  -- the calls come first, and do not change what the turn finds of the parsers
  have hturn : ∀ {pool}, CallsLeave c.ctx.sessionId g.pool pool → ∃ ms st₁,
      Runs.run (sessionsStep mc keys) st ms = some st₁ ∧ st₁.clients = st.clients ∧
        st₁.pool = pool ∧ sessionsStep mc keys st₁ (.turn i e g) = some (st₁.afterLoop i n p t) := by
    intro pool hcalls
    rw [hg] at hcalls
    obtain ⟨ms, st₁, hrun, hclients, hparsers, hpool⟩ := calls_run mc keys hi hcalls
    have hs := turn_serving mc keys
      (show st₁.clients i = .serving n c p by rw [hclients, hi]) hc e g
    rw [Sessions.around, hparsers, ← Sessions.around, ht] at hs
    exact ⟨ms, st₁, hrun, hclients, hpool, hs⟩
  cases hpath with
  | turnedAway hstart _ _ _ _ => rw [hc] at hstart; cases hstart
  | refused hstart _ _ => rw [hc] at hstart; cases hstart
  | admitted hstart _ _ _ _ => rw [hc] at hstart; cases hstart
  | goesOn pool _ hcalls hstays _ =>
    obtain ⟨ms, st₁, hrun, hclients, hpool, hs⟩ := hturn hcalls
    rw [Sessions.afterLoop, hstays.serving] at hs
    refine ⟨ms ++ [.turn i e g], _, Runs.run_trans hrun (Runs.run_of_step hs rfl), ?_, ?_,
      .inl ⟨hstays.serving, p, Function.update_self _ _ _⟩⟩
    · rw [hstays.kept, ← hpool]
      rfl
    · intro j hj
      rw [← hclients]
      exact Function.update_of_ne hj _ _
  | breaks pool _ hcalls hquits =>
    obtain ⟨ms, st₁, hrun, hclients, hpool, hs⟩ := hturn hcalls
    rw [Sessions.afterLoop, hquits.closed] at hs
    have hleaving : (st₁.become i (.leaving n t.thread (some p))).clients =
        Function.update st.clients i (.leaving n t.thread (some p)) := by
      rw [← hclients]
      rfl
    have hreleased : t.statics.pool = taskPoolReleaseSession
        (st₁.become i (.leaving n t.thread (some p))).pool t.thread.ctx.sessionId := by
      rw [hquits.released, hquits.sessionId, ← hpool]
      rfl
    obtain ⟨st', hrun', hdone⟩ := TurnDone.of_leaving mc keys hleaving hquits.closed hreleased
    exact ⟨_, st', Runs.run_trans hrun (Runs.run_of_step hs hrun'), hdone⟩

/-- CORRECT: what `handle_client` does in a turn the moves do, one after the other, on each of its
    ways: the calls on the pool, the turn, and on a way through `cleanup` what that releases. -/
theorem turn_moves (h : InPhases st) {n : ℕ} {c : ClientThread}
    (hi : (st.clients i).inside = some (n, c)) (e : TurnEnv) {g : Statics} (hg : g.pool = st.pool)
    {t : Turn} (ht : clientTurn mc keys (st.around c e) g c = some t) :
    ∃ ms st', Runs.run (sessionsStep mc keys) st ms = some st' ∧ TurnDone st i n t st' := by
  have hphase := h i
  cases hclient : st.clients i with
  | entered m c' =>
    rw [hclient] at hi hphase
    obtain ⟨rfl, rfl⟩ := Prod.mk.inj (Option.some.inj hi)
    have hc : c'.phase = .start := hphase
    simp only [clientTurn, hc] at ht
    exact entered_moves mc keys hclient hc e hg (Option.some.inj ht)
  | serving m c' p =>
    rw [hclient] at hi hphase
    obtain ⟨rfl, rfl⟩ := Prod.mk.inj (Option.some.inj hi)
    have hc : c'.phase = .serving := hphase
    simp only [clientTurn, hc] at ht
    exact serving_moves mc keys hclient hc e hg (Option.some.inj ht)
  | _ => rw [hclient] at hi; cases hi

/-! ### Every run -/

/-- Without a session no parser is in use and no task is left. -/
theorem nothing_held (hp : ParsersHeld st) (hok : SessionsOk st)
    (hnone : ∀ i, (st.clients i).session = none) :
    (∀ p, st.parsers p = false) ∧ ∀ k, st.pool k = zeroEntry := by
  refine ⟨fun p => ?_, fun k => ?_⟩
  · rw [← Bool.not_eq_true]
    intro hin
    obtain ⟨i, hi⟩ := hp p hin
    have hsess := hnone i
    cases hc : st.clients i with
    | serving n c q => rw [hc] at hsess; cases hsess
    | leaving n c q => rw [hc] at hsess; cases hsess
    | _ => rw [hc] at hi; cases hi
  · refine (hok.pool k).emptyZero ?_
    by_contra hk
    obtain ⟨i, hi⟩ := hok.tasks k hk
    have hsess := session_of_served hi
    rw [hnone i] at hsess
    cases hsess

/-- What a run keeps, in any order of the threads. -/
theorem sessions_inv (h : Runs.Reachable (sessionsStep mc keys) sessions₀ st) :
    ParsersHeld st ∧ InPhases st ∧ SessionsOk st := by
  refine Runs.inv_of_reachable (I := fun st => ParsersHeld st ∧ InPhases st ∧ SessionsOk st)
    ⟨parsersHeld_init, inPhases_init, sessionsOk_init⟩ ?_ h
  rintro st m st' ⟨hp, hphases, hok⟩ hs
  have hc := sessionsStep_clients hs
  exact ⟨hp.step hc, hphases.step hc, hok.step (sessionsStep_cases hs)⟩

end

/-- CORRECT: along every run of connections, whichever way each of them ends, no parser, client slot
    or task slot is lost, and a client that gets to its loop finds a parser. -/
theorem slots_kept (mc : Monocypher) (keys : ServerKeys) {st : Sessions}
    (h : Runs.Reachable (sessionsStep mc keys) sessions₀ st) : SlotsKept mc keys st := by
  obtain ⟨hp, hphases, hok⟩ := sessions_inv mc keys h
  refine ⟨?_, ?_, ?_, nothing_held hp hok, fun e g => getsOut mc keys e g hphases, fun e g => ?_⟩
  · refine hp.count.trans (Finset.card_le_card fun i hi => ?_)
    refine Finset.mem_filter.mpr ⟨Finset.mem_univ _, ?_⟩
    have hholds := (Finset.mem_filter.mp hi).2
    cases hc : st.clients i with
    | free => rw [hc] at hholds; exact absurd rfl hholds
    | _ => rfl
  · intro i n c hi
    exact hp.acquire (by rw [hi]; rfl)
  · intro k hk
    obtain ⟨i, hi⟩ := hok.tasks k hk
    rw [(hok.pool k).owner hk] at hi
    exact ⟨i, st.owner k, session_of_served hi⟩
  · obtain ⟨ms, st', hms, hrun, hfree⟩ := all_leave mc keys e g hphases Finset.univ
    obtain ⟨ls, hls⟩ := h
    obtain ⟨hp', -, hok'⟩ := sessions_inv mc keys ⟨ls ++ ms, Runs.run_trans hls hrun⟩
    have hall : ∀ i, st'.clients i = .free := fun i => hfree i (Finset.mem_univ i)
    exact ⟨ms, st', hms, hrun, hall, nothing_held hp' hok' fun i => by rw [hall i]; rfl⟩

/-- A connection gets as far as a task, one is turned away at the magic, one sends no msg1 and goes
    through `cleanup`, and then the first falls silent in its loop. -/
def threeWays (inp : List UInt8) : List SessionsMove :=
  firstTask inp ++ (wrongMagic ++ (second ++ (secondLeaves ++
    [.close 1, .turn 0 listedEnv idleStatics, .releaseParser 0, .releaseTasks 0, .close 0])))

/-- Behind them nothing is in use. -/
theorem slots_kept_threeWays : ∃ inp st,
    Runs.run (sessionsStep monocypher drawnNode) sessions₀ (threeWays inp) = some st ∧
    SlotsKept monocypher drawnNode st ∧ (∀ i, st.clients i = .free) ∧
    (∀ p, st.parsers p = false) ∧ ∀ k, st.pool k = zeroEntry := by
  obtain ⟨inp, c, h⟩ := exists_admits 1
  obtain ⟨st₁, hleaves, hclients, -⟩ := run_secondLeaves c 1
  have hclose : sessionsStep monocypher drawnNode st₁ (.close 1) = some (st₁.become 1 .free) := by
    simp [sessionsStep, hclients]
  have hfirst : (st₁.become 1 .free).clients 0 = .serving 0 c 0 := by
    show Function.update st₁.clients 1 .free 0 = _
    rw [hclients]
    rfl
  obtain ⟨c', -, hover⟩ := turn_over monocypher drawnNode hfirst h.serving h.silent
    listedEnv idleStatics
  obtain ⟨st, hend, hfree⟩ : ∃ st, Runs.run (sessionsStep monocypher drawnNode)
      ((st₁.become 1 .free).become 0 (.leaving 0 c' (some 0)))
      [.releaseParser 0, .releaseTasks 0, .close 0] = some st ∧ ∀ i, st.clients i = .free := by
    refine ⟨_, rfl, fun i => ?_⟩
    simp only [Sessions.become, hclients, onlyFirst, Function.update_apply]
    split_ifs <;> rfl
  have hrun := Runs.run_trans (run_firstTask h) (Runs.run_trans (run_wrongMagic c 0)
    (Runs.run_trans (run_second c 1) (Runs.run_trans hleaves (Runs.run_of_step hclose
      (Runs.run_of_step hover hend)))))
  have hkept := slots_kept monocypher drawnNode ⟨_, hrun⟩
  exact ⟨inp, st, hrun, hkept, hfree, hkept.ended fun i => by rw [hfree i]; rfl⟩

end Asys
