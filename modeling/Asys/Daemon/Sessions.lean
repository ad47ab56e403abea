import Asys.Daemon.ClientPaths
import Asys.Daemon.Handshake
import Asys.Daemon.PoolEvents
import Asys.Daemon.Replay
import Asys.Lib.Runs

/-! # Connections and their session ids

    A connection takes a client slot in `main` and its session id in `handle_client`, whose turns take
    it through the handshake to a parser and the APDU loop and out again. Each turn is one step, and so
    are the two calls behind `cleanup` and each call on the task pool, in any order of the threads. -/

namespace Asys
open Words

def listenBacklog : ℕ := 8
def maxClients : ℕ := listenBacklog
def apduPoolSize : ℕ := 8

instance : NeZero maxClients := ⟨by decide⟩
instance : NeZero apduPoolSize := ⟨by decide⟩

/-- A slot of `g_cslots` and how far its thread has come. Sessions are numbered by their entry into
    `handle_client`. -/
inductive Client where
  | free
  /-- in use, the thread not in `handle_client` yet -/
  | accepted
  /-- on the way to the loop; `p` is NULL -/
  | entered (number : ℕ) (thread : ClientThread)
  /-- in the APDU loop -/
  | serving (number : ℕ) (thread : ClientThread) (parser : Fin apduPoolSize)
  /-- at the label `cleanup`; `p` may be NULL -/
  | leaving (number : ℕ) (thread : ClientThread) (parser : Option (Fin apduPoolSize))
  /-- behind `apdu_pool_release`, with the tasks still to be released -/
  | releasing (number : ℕ) (thread : ClientThread)
  /-- back from `handle_client`, the slot still in use -/
  | returned

def Client.isFree : Client → Bool
  | .free => true
  | _ => false

/-- The session of a thread that is in `handle_client`. -/
def Client.session : Client → Option (UInt16 × ℕ)
  | .entered n c => some (c.ctx.sessionId, n)
  | .serving n c _ => some (c.ctx.sessionId, n)
  | .leaving n c _ => some (c.ctx.sessionId, n)
  | .releasing n c => some (c.ctx.sessionId, n)
  | _ => none

/-- The session of a thread that has got as far as the APDU loop, or into `cleanup`. -/
def Client.served : Client → Option (UInt16 × ℕ)
  | .serving n c _ => some (c.ctx.sessionId, n)
  | .leaving n c _ => some (c.ctx.sessionId, n)
  | .releasing n c => some (c.ctx.sessionId, n)
  | _ => none

structure Sessions where
  clients : Fin maxClients → Client
  /-- `in_use` of the parsers -/
  parsers : Fin apduPoolSize → Bool
  /-- `g_next_session_id` -/
  nextId : UInt16
  pool : TaskPool
  /-- the sessions entered so far -/
  entered : ℕ
  /-- the session for which the slot was last taken -/
  owner : Fin taskPoolSize → ℕ

inductive SessionsMove where
  | accept
  /-- `pthread_create` fails for the slot just taken -/
  | threadFailed (i : Fin maxClients)
  /-- the thread enters `handle_client` and takes its id; `inp` is what the peer will send -/
  | enter (i : Fin maxClients) (inp : List UInt8)
  /-- a turn of `handle_client`, with what it finds of the surroundings and of the static data -/
  | turn (i : Fin maxClients) (e : TurnEnv) (g : Statics)
  | releaseParser (i : Fin maxClients)
  | releaseTasks (i : Fin maxClients)
  | close (i : Fin maxClients)
  | alloc (i : Fin maxClients) (svcName : List UInt8) (pid : ℤ) (rand : UInt32) (now : ℤ)
  | freeTask (i : Fin maxClients) (handle : UInt32)
  | sweep (now : ℤ)
  | childExit (pid : ℤ) (status : WaitStatus)

/-- The daemon before its first connection. -/
def sessions₀ : Sessions := ⟨fun _ => .free, fun _ => false, 1, taskPoolInit, 0, fun _ => 0⟩

/-- `g_next_session_id++`, with 0 skipped. -/
def nextSessionId (id : UInt16) : UInt16 := if id + 1 = 0 then 1 else id + 1

/-- The slot `main` takes for a connection. -/
def freeSlot (clients : Fin maxClients → Client) : Option (Fin maxClients) :=
  Fin.find? fun i => (clients i).isFree

def apduPoolAcquire (parsers : Fin apduPoolSize → Bool) : Option (Fin apduPoolSize) :=
  Fin.find? fun p => parsers p = false

/-- `apdu_pool_release`. -/
def apduPoolRelease (parsers : Fin apduPoolSize → Bool) :
    Option (Fin apduPoolSize) → Fin apduPoolSize → Bool
  | none => parsers
  | some p => Function.update parsers p false

/-- The thread that enters `handle_client` under the id. -/
def enteredThread (id : UInt16) (inp : List UInt8) : ClientThread :=
  { clientThread₀ inp with ctx := { (clientThread₀ inp).ctx with sessionId := id } }

/-- The client in slot `i` gets to `c`. -/
def Sessions.become (st : Sessions) (i : Fin maxClients) (c : Client) : Sessions :=
  { st with clients := Function.update st.clients i c }

/-- The surroundings of a turn, with the id of its session and the parsers as they are. -/
def Sessions.around (st : Sessions) (c : ClientThread) (e : TurnEnv) : TurnEnv :=
  { e with sessionId := c.ctx.sessionId, parserFree := (apduPoolAcquire st.parsers).isSome }

/-- Where the first turn leaves its client: back by the bare `return`, in the loop with a parser, or
    at `cleanup` without one. -/
def Sessions.afterStart (st : Sessions) (i : Fin maxClients) (n : ℕ) (c : ClientThread) (t : Turn) :
    Sessions :=
  if waitForClientMagic c.inp = false then st.become i .returned
  else
    match t.thread.phase, apduPoolAcquire st.parsers with
    | .serving, some p => { st.become i (.serving n t.thread p) with
        parsers := Function.update st.parsers p true }
    | _, _ => st.become i (.leaving n t.thread none)

/-- Where a turn of the loop leaves its client: in the loop, or at `cleanup` with the parser. -/
def Sessions.afterLoop (st : Sessions) (i : Fin maxClients) (n : ℕ) (p : Fin apduPoolSize)
    (t : Turn) : Sessions :=
  match t.thread.phase with
  | .serving => st.become i (.serving n t.thread p)
  | _ => st.become i (.leaving n t.thread (some p))

/-- Whose the tasks are when connection `n` has recorded one. -/
def Sessions.ownerAfter (st : Sessions) (n : ℕ) : Fin taskPoolSize → ℕ :=
  (firstEmpty st.pool).elim st.owner fun k => Function.update st.owner k n

theorem Sessions.ownerAfter_some {st : Sessions} {k : Fin taskPoolSize}
    (hk : firstEmpty st.pool = some k) (n : ℕ) :
    st.ownerAfter n = Function.update st.owner k n := by
  rw [Sessions.ownerAfter, hk, Option.elim_some]

theorem Sessions.ownerAfter_none {st : Sessions} (h : firstEmpty st.pool = none) (n : ℕ) :
    st.ownerAfter n = st.owner := by
  rw [Sessions.ownerAfter, h, Option.elim_none]

def sessionsStep (mc : Monocypher) (keys : ServerKeys) (st : Sessions) :
    SessionsMove → Option Sessions
  | .accept =>
    match freeSlot st.clients with
    | some i => some (st.become i .accepted)
    | none => some st
  | .threadFailed i =>
    match st.clients i with
    | .accepted => some (st.become i .free)
    | _ => none
  | .enter i inp =>
    match st.clients i with
    | .accepted => some { st.become i (.entered st.entered (enteredThread st.nextId inp)) with
        nextId := nextSessionId st.nextId
        entered := st.entered + 1 }
    | _ => none
  | .turn i e g =>
    match st.clients i with
    | .entered n c => (clientTurn mc keys (st.around c e) g c).map (st.afterStart i n c)
    | .serving n c p => (clientTurn mc keys (st.around c e) g c).map (st.afterLoop i n p)
    | _ => none
  | .releaseParser i =>
    match st.clients i with
    | .leaving n c p => some { st.become i (.releasing n c) with
        parsers := apduPoolRelease st.parsers p }
    | _ => none
  | .releaseTasks i =>
    match st.clients i with
    | .releasing _ c => some { st.become i .returned with
        pool := taskPoolReleaseSession st.pool c.ctx.sessionId }
    | _ => none
  | .close i =>
    match st.clients i with
    | .returned => some (st.become i .free)
    | _ => none
  | .alloc i svcName pid rand now =>
    match st.clients i with
    | .serving n c _ => some { st with
        pool := (taskPoolAlloc st.pool c.ctx.sessionId svcName pid rand now).1
        owner := st.ownerAfter n }
    | _ => none
  | .freeTask i handle =>
    match st.clients i with
    | .serving _ c _ =>
      if high16 handle = c.ctx.sessionId then some { st with pool := taskPoolFree st.pool handle }
      else none
    | _ => none
  | .sweep now => some { st with pool := taskPoolSweepTimeouts st.pool now }
  | .childExit pid status => some { st with
      pool := taskPoolUpdateByPid st.pool pid (childStatus status) }

/-- The session ids tell the connections apart. `ids`: no two connections have the same id at a time.
    `handles`: the id in a task's handle is that of no connection but its own. `cleanup`: what a
    connection releases on its way out are its own tasks. -/
structure SessionsApart (mc : Monocypher) (keys : ServerKeys) (st : Sessions) : Prop where
  ids : ∀ i j s n m, (st.clients i).session = some (s, n) → (st.clients j).session = some (s, m) → i = j
  handles : ∀ i s n k, (st.clients i).session = some (s, n) → (st.pool k).status ≠ .empty →
    high16 (st.pool k).handleId = s → st.owner k = n
  cleanup : ∀ i s n st', (st.clients i).session = some (s, n) →
    sessionsStep mc keys st (.releaseTasks i) = some st' →
      ∀ k, (st.pool k).status ≠ .empty → st.owner k ≠ n → st'.pool k = st.pool k

/-- No connection is still there when 65535 others have come after it. -/
def NoneOutlived (st : Sessions) : SessionsMove → Prop
  | .enter _ _ => ∀ j s n, (st.clients j).session = some (s, n) → st.entered ≠ n + 65535
  | _ => True

/-! ### What a step can do -/

inductive SessionsCase (st : Sessions) : SessionsMove → Sessions → Prop where
  /-- a thread goes on with its session, or without one and without tasks -/
  | moved (m : SessionsMove) (i : Fin maxClients) (c : Client) (parsers : Fin apduPoolSize → Bool) :
      (∀ j inp, m ≠ .enter j inp) → (c.session = none ∨ c.session = (st.clients i).session) →
      ((st.clients i).served = none ∨ c.served = (st.clients i).served) →
      SessionsCase st m { st.become i c with parsers := parsers }
  | entered (i : Fin maxClients) (inp : List UInt8) : st.clients i = .accepted →
      SessionsCase st (.enter i inp)
        { st.become i (.entered st.entered (enteredThread st.nextId inp)) with
          nextId := nextSessionId st.nextId
          entered := st.entered + 1 }
  | released (i : Fin maxClients) (n : ℕ) (c : ClientThread) : st.clients i = .releasing n c →
      SessionsCase st (.releaseTasks i) { st.become i .returned with
        pool := taskPoolReleaseSession st.pool c.ctx.sessionId }
  | recorded (i : Fin maxClients) (svcName : List UInt8) (pid : ℤ) (rand : UInt32) (now : ℤ)
      (n : ℕ) (c : ClientThread) (p : Fin apduPoolSize) (k : Fin taskPoolSize) :
      st.clients i = .serving n c p → firstEmpty st.pool = some k →
      SessionsCase st (.alloc i svcName pid rand now) { st with
        pool := Function.update st.pool k (newEntry c.ctx.sessionId svcName pid rand now)
        owner := Function.update st.owner k n }
  /-- no task is recorded -/
  | quiet (m : SessionsMove) (g : TaskPool) : (∀ j inp, m ≠ .enter j inp) → Shrinks st.pool g →
      (∀ k, EntryStep (st.pool k) (g k)) → SessionsCase st m { st with pool := g }

section
variable {mc : Monocypher} {keys : ServerKeys} {st st' : Sessions}

theorem releaseTasks_some {i : Fin maxClients}
    (h : sessionsStep mc keys st (.releaseTasks i) = some st') :
    ∃ n c, st.clients i = .releasing n c ∧ st' = { st.become i .returned with
      pool := taskPoolReleaseSession st.pool c.ctx.sessionId } := by
  simp only [sessionsStep] at h
  split at h
  · rename_i n c hi
    exact ⟨n, c, hi, (Option.some.inj h).symm⟩
  · cases h

theorem afterStart_case {i : Fin maxClients} {n : ℕ} {c : ClientThread} {e : TurnEnv} {g : Statics}
    {t : Turn} (hi : st.clients i = .entered n c) (ht : t.thread.ctx.sessionId = c.ctx.sessionId) :
    SessionsCase st (.turn i e g) (st.afterStart i n c t) := by
  have hserved : (st.clients i).served = none := by rw [hi]; rfl
  rw [Sessions.afterStart]
  split
  · exact .moved _ i .returned st.parsers nofun (Or.inl rfl) (Or.inl hserved)
  split
  · rename_i p _ _
    refine .moved _ i (.serving n t.thread p) _ nofun (Or.inr ?_) (Or.inl hserved)
    rw [hi, Client.session, Client.session, ht]
  · refine .moved _ i (.leaving n t.thread none) st.parsers nofun (Or.inr ?_) (Or.inl hserved)
    rw [hi, Client.session, Client.session, ht]

theorem afterLoop_case {i : Fin maxClients} {n : ℕ} {c : ClientThread} {p : Fin apduPoolSize}
    {e : TurnEnv} {g : Statics} {t : Turn} (hi : st.clients i = .serving n c p)
    (ht : t.thread.ctx.sessionId = c.ctx.sessionId) :
    SessionsCase st (.turn i e g) (st.afterLoop i n p t) := by
  rw [Sessions.afterLoop]
  split
  · refine .moved _ i (.serving n t.thread p) st.parsers nofun (Or.inr ?_) (Or.inr ?_)
    · rw [hi, Client.session, Client.session, ht]
    · rw [hi, Client.served, Client.served, ht]
  · refine .moved _ i (.leaving n t.thread (some p)) st.parsers nofun (Or.inr ?_) (Or.inr ?_)
    · rw [hi, Client.session, Client.session, ht]
    · rw [hi, Client.served, Client.served, ht]

/-- Every move, by what it does. -/
theorem sessionsStep_cases {m : SessionsMove} (h : sessionsStep mc keys st m = some st') :
    SessionsCase st m st' := by
  cases m with
  | accept =>
    simp only [sessionsStep] at h
    cases hf : freeSlot st.clients with
    | some i =>
      rw [hf] at h
      obtain rfl := Option.some.inj h
      have hfree : (st.clients i).isFree = true := Fin.eq_true_of_find?_eq_some hf
      refine .moved _ i .accepted st.parsers nofun (Or.inl rfl) (Or.inl ?_)
      cases hi : st.clients i with
      | free => rfl
      | _ => rw [hi] at hfree; cases hfree
    | none =>
      rw [hf] at h
      obtain rfl := Option.some.inj h
      exact .quiet _ st.pool nofun (fun _ hi => ⟨hi, rfl⟩) fun _ => .same _
  | threadFailed i =>
    simp only [sessionsStep] at h
    split at h
    · rename_i hi
      obtain rfl := Option.some.inj h
      exact .moved _ i .free st.parsers nofun (Or.inl rfl) (Or.inl (by rw [hi]; rfl))
    · cases h
  | enter i inp =>
    simp only [sessionsStep] at h
    split at h
    · rename_i hi
      obtain rfl := Option.some.inj h
      exact .entered i inp hi
    · cases h
  | turn i e g =>
    simp only [sessionsStep] at h
    split at h
    · rename_i n c hi
      obtain ⟨t, ht, rfl⟩ := Option.map_eq_some_iff.mp h
      exact afterStart_case hi (clientTurn_path rfl ht).sessionId
    · rename_i n c p hi
      obtain ⟨t, ht, rfl⟩ := Option.map_eq_some_iff.mp h
      exact afterLoop_case hi (clientTurn_path rfl ht).sessionId
    · cases h
  | releaseParser i =>
    simp only [sessionsStep] at h
    split at h
    · rename_i n c p hi
      obtain rfl := Option.some.inj h
      exact .moved _ i (.releasing n c) _ nofun (Or.inr (by rw [hi]; rfl)) (Or.inr (by rw [hi]; rfl))
    · cases h
  | releaseTasks i =>
    obtain ⟨n, c, hi, rfl⟩ := releaseTasks_some h
    exact .released i n c hi
  | close i =>
    simp only [sessionsStep] at h
    split at h
    · rename_i hi
      obtain rfl := Option.some.inj h
      exact .moved _ i .free st.parsers nofun (Or.inl rfl) (Or.inl (by rw [hi]; rfl))
    · cases h
  | alloc i svcName pid rand now =>
    simp only [sessionsStep] at h
    split at h
    · rename_i n c p hi
      rcases taskPoolAlloc_cases st.pool c.ctx.sessionId svcName pid rand now with
        ⟨k, hk, ha⟩ | ⟨hnone, ha⟩
      · rw [Sessions.ownerAfter_some hk, ha] at h
        obtain rfl := Option.some.inj h
        exact .recorded i svcName pid rand now n c p k hi hk
      · rw [Sessions.ownerAfter_none hnone, ha] at h
        obtain rfl := Option.some.inj h
        exact .quiet _ st.pool nofun (fun _ hi => ⟨hi, rfl⟩) fun _ => .same _
    · cases h
  | freeTask i handle =>
    simp only [sessionsStep] at h
    split at h
    · split at h
      · obtain rfl := Option.some.inj h
        exact .quiet _ _ nofun (free_shrinks _ _) (taskPoolFree_step _ _)
      · cases h
    · cases h
  | sweep now =>
    obtain rfl := Option.some.inj h
    exact .quiet _ _ nofun (sweep_shrinks _ _) fun k => sweepEntry_step now (st.pool k)
  | childExit pid status =>
    obtain rfl := Option.some.inj h
    exact .quiet _ _ nofun (updateByPid_shrinks _ _ _)
      (taskPoolUpdateByPid_step _ _ (childStatus_ne_empty status))

end

/-! ### The invariant -/

/-- The `n`-th session has id `n % 65535 + 1`, and every task is that of a connection past its
    handshake, under the id in its handle. -/
structure SessionsOk (st : Sessions) : Prop where
  pool : PoolOk st.pool
  nextId : st.nextId.toNat = st.entered % 65535 + 1
  idOf : ∀ i s n, (st.clients i).session = some (s, n) → s.toNat = n % 65535 + 1 ∧ n < st.entered
  numbers : ∀ i j s t n, (st.clients i).session = some (s, n) → (st.clients j).session = some (t, n) →
    i = j
  tasks : ∀ k, (st.pool k).status ≠ .empty →
    ∃ i, (st.clients i).served = some (high16 (st.pool k).handleId, st.owner k)

/-- No connection is so old that its id has come up again. -/
def Recent (st : Sessions) : Prop :=
  ∀ i s n, (st.clients i).session = some (s, n) → st.entered ≤ n + 65535

theorem sessionsOk_init : SessionsOk sessions₀ where
  pool := poolOk_init
  nextId := rfl
  idOf := by rintro i s n ⟨⟩
  numbers := by rintro i j s t n ⟨⟩
  tasks := fun k hk => absurd rfl hk

theorem session_of_served {c : Client} {p : UInt16 × ℕ} (h : c.served = some p) :
    c.session = some p := by
  cases c <;> first | exact h | cases h

theorem nextSessionId_toNat {id : UInt16} {k : ℕ} (h : id.toNat = k % 65535 + 1) :
    (nextSessionId id).toNat = (k + 1) % 65535 + 1 := by
  simp only [nextSessionId]
  by_cases hz : id + 1 = 0
  · have hwrap : (id.toNat + 1) % 65536 = 0 := by simpa using congrArg UInt16.toNat hz
    rw [if_pos hz]
    simp only [UInt16.toNat_one]
    omega
  · have hlt : id.toNat + 1 < 65536 := by
      refine lt_of_le_of_ne (by omega) fun heq => hz (UInt16.toNat_inj.mp ?_)
      rw [UInt16.toNat_add, UInt16.toNat_one, heq]
      rfl
    rw [if_neg hz, UInt16.toNat_add, UInt16.toNat_one]
    omega

/-- A client after one of them has moved: the one that moved, or another as it was. -/
theorem client_of_become (st : Sessions) (i j : Fin maxClients) (c : Client) :
    (j = i ∧ (st.become i c).clients j = c) ∨ (j ≠ i ∧ (st.become i c).clients j = st.clients j) := by
  rcases eq_or_ne j i with rfl | hne
  · exact Or.inl ⟨rfl, Function.update_self _ _ _⟩
  · exact Or.inr ⟨hne, Function.update_of_ne hne _ _⟩

/-- A client that keeps its session or loses it has no session it did not have. -/
theorem session_of_become {st : Sessions} {i j : Fin maxClients} {c : Client} {p : UInt16 × ℕ}
    (hc : c.session = none ∨ c.session = (st.clients i).session)
    (h : ((st.become i c).clients j).session = some p) : (st.clients j).session = some p := by
  rcases client_of_become st i j c with ⟨rfl, hj⟩ | ⟨-, hj⟩ <;> rw [hj] at h
  · rcases hc with hnone | hsame
    · rw [hnone] at h; cases h
    · rwa [hsame] at h
  · exact h

theorem SessionsOk.moved {st : Sessions} (h : SessionsOk st) {i : Fin maxClients} {c : Client}
    {parsers : Fin apduPoolSize → Bool}
    (hc : c.session = none ∨ c.session = (st.clients i).session)
    (hs : (st.clients i).served = none ∨ c.served = (st.clients i).served) :
    SessionsOk { st.become i c with parsers := parsers } := by
  refine { h with idOf := ?_, numbers := ?_, tasks := ?_ }
  · exact fun j s n hj => h.idOf j s n (session_of_become hc hj)
  · exact fun j j' s t n hj hj' =>
      h.numbers j j' s t n (session_of_become hc hj) (session_of_become hc hj')
  · intro k hk
    obtain ⟨j, hj⟩ := h.tasks k hk
    refine ⟨j, ?_⟩
    rcases client_of_become st i j c with ⟨rfl, hj'⟩ | ⟨-, hj'⟩
    · rcases hs with hnone | hsame
      · rw [hnone] at hj; cases hj
      · exact (congrArg Client.served hj').trans (hsame.trans hj)
    · exact (congrArg Client.served hj').trans hj

/-- The session of a client after a connection has entered: the new one, or one there was. -/
theorem session_of_entered {st : Sessions} {i j : Fin maxClients} {inp : List UInt8}
    {p : UInt16 × ℕ} (h : ((st.become i
      (.entered st.entered (enteredThread st.nextId inp))).clients j).session = some p) :
    (j = i ∧ p = (st.nextId, st.entered)) ∨ (j ≠ i ∧ (st.clients j).session = some p) := by
  rcases client_of_become st i j (.entered st.entered (enteredThread st.nextId inp)) with
    ⟨hj, hcl⟩ | ⟨hj, hcl⟩ <;> rw [hcl] at h
  · exact Or.inl ⟨hj, (Option.some.inj h).symm⟩
  · exact Or.inr ⟨hj, h⟩

theorem SessionsOk.entered {st : Sessions} (h : SessionsOk st) {i : Fin maxClients}
    (hi : st.clients i = .accepted) (inp : List UInt8) :
    SessionsOk { st.become i (.entered st.entered (enteredThread st.nextId inp)) with
      nextId := nextSessionId st.nextId
      entered := st.entered + 1 } := by
  refine { h with nextId := nextSessionId_toNat h.nextId, idOf := ?_, numbers := ?_, tasks := ?_ }
  · intro j s n hj
    rcases session_of_entered hj with ⟨-, heq⟩ | ⟨-, hj⟩
    · obtain ⟨rfl, rfl⟩ := Prod.mk.inj heq
      exact ⟨h.nextId, Nat.lt_succ_self _⟩
    · obtain ⟨hid, hlt⟩ := h.idOf j s n hj
      exact ⟨hid, Nat.lt_succ_of_lt hlt⟩
  · intro a b s t n ha hb
    rcases session_of_entered ha with ⟨hai, hna⟩ | ⟨-, ha'⟩ <;>
      rcases session_of_entered hb with ⟨hbi, hnb⟩ | ⟨-, hb'⟩
    · exact hai.trans hbi.symm
    · obtain ⟨-, rfl⟩ := Prod.mk.inj hna
      exact absurd (h.idOf b t _ hb').2 (lt_irrefl _)
    · obtain ⟨-, rfl⟩ := Prod.mk.inj hnb
      exact absurd (h.idOf a s _ ha').2 (lt_irrefl _)
    · exact h.numbers a b s t n ha' hb'
  · intro k hk
    obtain ⟨j, hj⟩ := h.tasks k hk
    have hne : j ≠ i := by
      rintro rfl
      rw [hi] at hj
      cases hj
    exact ⟨j, (congrArg Client.served (Function.update_of_ne hne _ _)).trans hj⟩

theorem SessionsOk.released {st : Sessions} (h : SessionsOk st) {i : Fin maxClients} {n : ℕ}
    {c : ClientThread} (hi : st.clients i = .releasing n c) : SessionsOk { st.become i .returned with
      pool := taskPoolReleaseSession st.pool c.ctx.sessionId } := by
  refine { h with pool := h.pool.step (taskPoolReleaseSession_step _ _), idOf := ?_, numbers := ?_,
                  tasks := ?_ }
  · exact fun j s n hj => h.idOf j s n (session_of_become (Or.inl rfl) hj)
  · exact fun j j' s t n hj hj' =>
      h.numbers j j' s t n (session_of_become (Or.inl rfl) hj) (session_of_become (Or.inl rfl) hj')
  · intro k hk
    obtain ⟨hother, hkeep⟩ := releaseSession_live hk
    dsimp only at hk ⊢
    rw [hkeep] at hk ⊢
    obtain ⟨j, hj⟩ := h.tasks k hk
    -- the task of another id is not that of the client that leaves
    have hne : j ≠ i := by
      rintro rfl
      rw [hi] at hj
      obtain ⟨hid, -⟩ := Prod.mk.inj (Option.some.inj hj)
      exact hother (((h.pool k).owner hk).symm.trans hid.symm)
    exact ⟨j, (congrArg Client.served (Function.update_of_ne hne _ _)).trans hj⟩

theorem SessionsOk.recorded {st : Sessions} (h : SessionsOk st) {i : Fin maxClients}
    {svcName : List UInt8} {pid : ℤ} {rand : UInt32} {now : ℤ} {n : ℕ} {c : ClientThread}
    {p : Fin apduPoolSize} {k : Fin taskPoolSize} (hi : st.clients i = .serving n c p)
    (hk : firstEmpty st.pool = some k) :
    SessionsOk { st with
      pool := Function.update st.pool k (newEntry c.ctx.sessionId svcName pid rand now)
      owner := Function.update st.owner k n } := by
  refine { h with pool := h.pool.step (update_step (.fill _ _ _ _ _ (firstEmpty_some hk))),
                  tasks := ?_ }
  intro l hl
  dsimp only at hl ⊢
  rcases eq_or_ne l k with rfl | hlk
  · rw [Function.update_self, Function.update_self, newEntry_handleId, high16_join16]
    exact ⟨i, by rw [hi]; rfl⟩
  · rw [Function.update_of_ne hlk] at hl ⊢
    rw [Function.update_of_ne hlk]
    exact h.tasks l hl

/-- Every step keeps the invariant. -/
theorem SessionsOk.step {st st' : Sessions} {m : SessionsMove} (h : SessionsOk st)
    (hc : SessionsCase st m st') : SessionsOk st' := by
  cases hc with
  | moved _ i c parsers _ hses hser => exact h.moved hses hser
  | entered i inp hi => exact h.entered hi inp
  | released i n c hi => exact h.released hi
  | recorded i svcName pid rand now n c p k hi hk => exact h.recorded hi hk
  | quiet _ g _ hg hstep =>
    refine { h with pool := h.pool.step hstep, tasks := fun k hk => ?_ }
    obtain ⟨hlive, hh⟩ := hg k hk
    dsimp only
    rw [hh]
    exact h.tasks k hlive

/-- A connection that enters when no other is 65535 sessions old leaves none older. -/
theorem Recent.step {st st' : Sessions} {m : SessionsMove} (hr : Recent st)
    (hC : NoneOutlived st m) (hc : SessionsCase st m st') : Recent st' := by
  cases hc with
  | moved _ i c parsers _ hses _ => exact fun j s n hj => hr j s n (session_of_become hses hj)
  | entered i inp hi =>
    intro j s n hj
    rcases session_of_entered hj with ⟨-, heq⟩ | ⟨-, hj⟩
    · obtain ⟨-, rfl⟩ := Prod.mk.inj heq
      exact Nat.add_le_add_left (by decide) _
    · have hne := hC j s n hj
      have hle := hr j s n hj
      dsimp only
      omega
  | released i n c hi =>
    exact fun j s n hj => hr j s n (session_of_become (Or.inl rfl) hj)
  | recorded i svcName pid rand now n c p k hi hk => exact hr
  | quiet _ g _ hg hstep => exact hr

/-- Two recent connections with one id are one. -/
theorem SessionsOk.ids {st : Sessions} (h : SessionsOk st) (hr : Recent st) {i j : Fin maxClients}
    {s : UInt16} {n m : ℕ} (hi : (st.clients i).session = some (s, n))
    (hj : (st.clients j).session = some (s, m)) : i = j := by
  obtain ⟨hid, hlt⟩ := h.idOf i s n hi
  obtain ⟨hid', hlt'⟩ := h.idOf j s m hj
  have hle := hr i s n hi
  have hle' := hr j s m hj
  obtain rfl : n = m := by omega
  exact h.numbers i j s s n hi hj

/-- The invariant gives the property. -/
theorem SessionsOk.apart (mc : Monocypher) (keys : ServerKeys) {st : Sessions} (h : SessionsOk st)
    (hr : Recent st) : SessionsApart mc keys st := by
  have hown : ∀ i s n k, (st.clients i).session = some (s, n) → (st.pool k).status ≠ .empty →
      high16 (st.pool k).handleId = s → st.owner k = n := by
    rintro i s n k hi hk rfl
    obtain ⟨j, hj⟩ := h.tasks k hk
    obtain rfl := h.ids hr hi (session_of_served hj)
    rw [session_of_served hj] at hi
    exact (Prod.mk.inj (Option.some.inj hi)).2
  refine ⟨fun i j s n m hi hj => h.ids hr hi hj, hown, fun i s n st' hi hstep k hk hother => ?_⟩
  obtain ⟨m, c, hrel, rfl⟩ := releaseTasks_some hstep
  rw [hrel] at hi
  obtain ⟨rfl, rfl⟩ := Prod.mk.inj (Option.some.inj hi)
  dsimp only
  rw [taskPoolReleaseSession_apply, if_neg]
  rintro ⟨hs, -⟩
  refine hother (hown i c.ctx.sessionId m k (by rw [hrel]; rfl) hk ?_)
  rw [(h.pool k).owner hk, hs]

/-- A connection that enters while another is 65535 sessions old gets the other's id. -/
theorem SessionsOk.reissued {mc : Monocypher} {keys : ServerKeys} {st st' : Sessions}
    {m : SessionsMove} (h : SessionsOk st) (hC : ¬ NoneOutlived st m)
    (hstep : sessionsStep mc keys st m = some st') : ¬ SessionsApart mc keys st' := by
  intro hap
  cases sessionsStep_cases hstep with
  | entered i inp hi =>
    simp only [NoneOutlived, not_forall, not_not] at hC
    obtain ⟨j, s, n, hj, hold⟩ := hC
    have hne : j ≠ i := by
      rintro rfl
      rw [hi] at hj
      cases hj
    obtain rfl : st.nextId = s := UInt16.toNat_inj.mp (by
      rw [h.nextId, (h.idOf j s n hj).1, hold, Nat.add_mod_right])
    refine hne (hap.ids j i st.nextId n st.entered ?_ ?_)
    · exact (congrArg Client.session (Function.update_of_ne hne _ _)).trans hj
    · exact congrArg Client.session (Function.update_self i _ st.clients)
  | moved _ i c parsers hm _ _ =>
    cases m with
    | enter j inp => exact hm j inp rfl
    | _ => exact hC trivial
  | quiet _ g hm _ _ =>
    cases m with
    | enter j inp => exact hm j inp rfl
    | _ => exact hC trivial
  | _ => exact hC trivial

/-- CORRECT (exact): along a run the connections that are there at a time have different ids, and no
    cleanup releases the tasks of another, exactly when no connection is still there when 65535
    others have come after it. -/
theorem sessions_apart_iff (mc : Monocypher) (keys : ServerKeys) (ms : List SessionsMove)
    (st : Sessions) (hrun : Runs.run (sessionsStep mc keys) sessions₀ ms = some st) :
    Runs.StatesMeet (sessionsStep mc keys) (SessionsApart mc keys) sessions₀ ms ↔
      Runs.StepsMeet (sessionsStep mc keys) NoneOutlived sessions₀ ms := by
  refine Runs.states_iff_steps (I := fun st => SessionsOk st ∧ Recent st)
    ⟨sessionsOk_init, by rintro i s n ⟨⟩⟩ ?_ (fun _ h => h.1.apart mc keys h.2) ?_ hrun
  · rintro st m st' ⟨h, hr⟩ hC hstep
    have hc := sessionsStep_cases hstep
    exact ⟨h.step hc, hr.step hC hc⟩
  · rintro st m st' ⟨h, -⟩ hC hstep
    exact h.reissued hC hstep

/-! ### The way of one connection -/

section
variable (mc : Monocypher) (keys : ServerKeys) {st : Sessions} {i : Fin maxClients} {n : ℕ}

theorem freeSlot_some (h : freeSlot st.clients = some i) : st.clients i = .free := by
  have hfree : (st.clients i).isFree = true := Fin.eq_true_of_find?_eq_some h
  cases hi : st.clients i with
  | free => rfl
  | _ => rw [hi] at hfree; cases hfree

theorem turn_entered {c : ClientThread} (hi : st.clients i = .entered n c) (hc : c.phase = .start)
    (e : TurnEnv) (g : Statics) : sessionsStep mc keys st (.turn i e g) =
      some (st.afterStart i n c (clientStart mc keys (st.around c e) g c)) := by
  simp only [sessionsStep, hi, clientTurn, hc, Option.map_some]

theorem turn_serving {c : ClientThread} {p : Fin apduPoolSize} (hi : st.clients i = .serving n c p)
    (hc : c.phase = .serving) (e : TurnEnv) (g : Statics) : sessionsStep mc keys st (.turn i e g) =
      some (st.afterLoop i n p (clientLoop mc (st.around c e) g c)) := by
  simp only [sessionsStep, hi, clientTurn, hc, Option.map_some]

/-- A connection is accepted and enters `handle_client`. -/
theorem run_connect (hfree : freeSlot st.clients = some i) (inp : List UInt8) :
    Runs.run (sessionsStep mc keys) st [.accept, .enter i inp] =
      some { st.become i (.entered st.entered (enteredThread st.nextId inp)) with
        nextId := nextSessionId st.nextId
        entered := st.entered + 1 } := by
  simp [sessionsStep, hfree, Sessions.become]

/-- Its magic is wrong or does not come: the bare `return`. -/
theorem run_turnedAway (hfree : freeSlot st.clients = some i) {inp : List UInt8}
    (hinp : waitForClientMagic inp = false) (e : TurnEnv) (g : Statics) :
    Runs.run (sessionsStep mc keys) st [.accept, .enter i inp, .turn i e g, .close i] =
      some { st with
        nextId := nextSessionId st.nextId
        entered := st.entered + 1 } := by
  have hconnect := run_connect mc keys hfree inp
  have hback : Function.update st.clients i .free = st.clients :=
    Function.update_eq_self_iff.mpr (freeSlot_some hfree).symm
  have hwait : waitForClientMagic (enteredThread st.nextId inp).inp = false := hinp
  have hentered : ({ st.become i (.entered st.entered (enteredThread st.nextId inp)) with
      nextId := nextSessionId st.nextId
      entered := st.entered + 1 } : Sessions).clients i =
        .entered st.entered (enteredThread st.nextId inp) := Function.update_self _ _ _
  have hturn := turn_entered mc keys hentered rfl e g
  rw [Sessions.afterStart, if_pos hwait] at hturn
  rw [show [SessionsMove.accept, .enter i inp, .turn i e g, .close i] =
    [.accept, .enter i inp] ++ [.turn i e g, .close i] from rfl, Runs.run_append, hconnect,
    Option.bind_some, Runs.run_cons, hturn]
  simp [sessionsStep, Sessions.become, hback]

/-- It sends the magic and no more: to `cleanup`, without a parser. -/
theorem turn_silent {id : UInt16} (hi : st.clients i = .entered n (enteredThread id hello))
    (e : TurnEnv) (g : Statics) : ∃ c, c.ctx.sessionId = id ∧
      sessionsStep mc keys st (.turn i e g) = some (st.become i (.leaving n c none)) := by
  obtain ⟨t, ht⟩ : ∃ t, clientStart mc keys (st.around (enteredThread id hello) e) g
    (enteredThread id hello) = t := ⟨_, rfl⟩
  have hclosed : t.thread.phase = .closed := by
    rw [← ht]
    exact clientStart_silent keys (st.around (enteredThread id hello) e) g
  have hid : t.thread.ctx.sessionId = id := by
    rw [← ht]
    exact (clientStart_path mc keys (e := st.around (enteredThread id hello) e) g rfl rfl).sessionId
  have hwait : ¬ waitForClientMagic (enteredThread id hello).inp = false := by
    have hmagic : waitForClientMagic hello = true := by decide
    rw [show (enteredThread id hello).inp = hello from rfl, hmagic]
    decide
  refine ⟨t.thread, hid, ?_⟩
  rw [turn_entered mc keys hi rfl, ht, Sessions.afterStart, if_neg hwait, hclosed]

/-- It falls silent in the loop: to `cleanup`, with its parser. -/
theorem turn_over {c : ClientThread} {p : Fin apduPoolSize} (hi : st.clients i = .serving n c p)
    (hc : c.phase = .serving) (hinp : c.inp = []) (e : TurnEnv) (g : Statics) :
    ∃ c', c'.ctx.sessionId = c.ctx.sessionId ∧
      sessionsStep mc keys st (.turn i e g) = some (st.become i (.leaving n c' (some p))) := by
  have hnone : recvPacket mc c = none := by
    rw [recvPacket, hinp]
    rfl
  refine ⟨(cleanup g c).2, rfl, ?_⟩
  rw [turn_serving mc keys hi hc, clientLoop, hnone]
  rfl

end

/-! ### Two sessions at a time -/

/-- A node with a drawn key pair. -/
def drawnNode : ServerKeys := ⟨(drawnKeys 32).1, (drawnKeys 32).2⟩

/-- A list with the agent of another drawn pair. -/
def listedEnv : TurnEnv :=
  { agentEnv with whitelist := ⟨[⟨(drawnKeys 0).2, []⟩], by decide⟩ }

/-- The bytes get the agent into the loop, as the thread `c` that then waits for more. -/
structure Admits (id : UInt16) (inp : List UInt8) (c : ClientThread) : Prop where
  magic : waitForClientMagic inp = true
  serving : c.phase = .serving
  sessionId : c.ctx.sessionId = id
  silent : c.inp = []
  thread : ∀ (st : Sessions) (g : Statics), (apduPoolAcquire st.parsers).isSome = true →
    (clientStart monocypher drawnNode (st.around (enteredThread id inp) listedEnv) g
      (enteredThread id inp)).thread = c

theorem exists_admits (id : UInt16) : ∃ inp c, Admits id inp c := by
  have hnode : KeyPairOf monocypher ⟨drawnNode.priv, drawnNode.pub⟩ := drawnKeys_pair 32
  have hlisted : whitelistCheck listedEnv.whitelist (drawnKeys 0).2 = true :=
    whitelistCheck_iff.mpr ⟨_, List.mem_singleton_self _, rfl⟩
  obtain ⟨msg1, c, hserving, hid, hinp, hthread⟩ := clientStart_admits monocypher_aeadInverts
    (drawnKeys_pair 0) hnode (some (bytesFrom 64 32))
    { listedEnv with sessionId := id, parserFree := true } (monocypher_x25519Commutes _ _) hlisted rfl
  refine ⟨hello ++ msg1, c, ?_, hserving, hid, hinp, fun st g hfree => ?_⟩
  · have hmagic : recvExact (hello ++ msg1) 4 = some (hello, msg1) := recvExact_append hello msg1
    rw [waitForClientMagic, hmagic]
    rfl
  · rw [← hthread g, Sessions.around, hfree]
    rfl

/-- Into the loop. -/
theorem turn_admitted {st : Sessions} {i : Fin maxClients} {n : ℕ} {id : UInt16} {inp : List UInt8}
    {c : ClientThread} {p : Fin apduPoolSize} (h : Admits id inp c)
    (hi : st.clients i = .entered n (enteredThread id inp))
    (hp : apduPoolAcquire st.parsers = some p) (g : Statics) :
    sessionsStep monocypher drawnNode st (.turn i listedEnv g) =
      some { st.become i (.serving n c p) with parsers := Function.update st.parsers p true } := by
  have hthread := h.thread st g (by rw [hp]; rfl)
  have hwait : ¬ waitForClientMagic (enteredThread id inp).inp = false := by
    rw [show (enteredThread id inp).inp = inp from rfl, h.magic]
    decide
  rw [turn_entered monocypher drawnNode hi rfl, Sessions.afterStart, if_neg hwait, hthread,
    h.serving, hp]

/-- Connection 0 gets as far as a task in slot 0. -/
def firstTask (inp : List UInt8) : List SessionsMove :=
  [.accept, .enter 0 inp, .turn 0 listedEnv idleStatics, .alloc 0 [0x61] 100 0 0]

/-- Connection 0 in its APDU loop, and no other. -/
def onlyFirst (c : ClientThread) : Fin maxClients → Client :=
  Function.update (fun _ => .free) 0 (.serving 0 c 0)

/-- What is there with connection 0 and its task, when `k` others have come and gone. -/
def withTask (c : ClientThread) (k : ℕ) : Sessions where
  clients := onlyFirst c
  parsers := Function.update (fun _ => false) 0 true
  nextId := nextSessionId^[k] 2
  pool := Function.update taskPoolInit 0 (newEntry 1 [0x61] 100 0 0)
  entered := k + 1
  owner := Function.update (fun _ => 0) 0 0

theorem run_firstTask {inp : List UInt8} {c : ClientThread} (h : Admits 1 inp c) :
    Runs.run (sessionsStep monocypher drawnNode) sessions₀ (firstTask inp) = some (withTask c 0) := by
  have hfirst : firstEmpty taskPoolInit = some 0 := by decide +kernel
  obtain ⟨st, hst⟩ : ∃ st, { sessions₀.become 0 (.entered 0 (enteredThread 1 inp)) with
    nextId := nextSessionId 1, entered := 1 } = st := ⟨_, rfl⟩
  have hconnect : Runs.run (sessionsStep monocypher drawnNode) sessions₀ [.accept, .enter 0 inp] =
      some st := hst ▸ run_connect monocypher drawnNode rfl inp
  have hi : st.clients 0 = .entered 0 (enteredThread 1 inp) := by rw [← hst]; rfl
  have hp : apduPoolAcquire st.parsers = some 0 := by rw [← hst]; rfl
  refine Runs.run_trans hconnect (Runs.run_of_step (turn_admitted h hi hp idleStatics) ?_)
  subst hst
  simp [sessionsStep, Sessions.become, Sessions.ownerAfter, hfirst, taskPoolAlloc_of_some hfirst,
    h.sessionId, withTask, onlyFirst, sessions₀, nextSessionId]

/-- A second connection comes and sends the magic alone. -/
def second : List SessionsMove := [.accept, .enter 1 hello]

/-- Its way out. -/
def secondLeaves : List SessionsMove :=
  [.turn 1 listedEnv idleStatics, .releaseParser 1, .releaseTasks 1]

/-- The second connection in `handle_client`. -/
def withSecond (c : ClientThread) (k : ℕ) : Sessions :=
  { (withTask c k).become 1 (.entered (k + 1) (enteredThread (nextSessionId^[k] 2) hello)) with
    nextId := nextSessionId (nextSessionId^[k] 2)
    entered := k + 2 }

theorem run_second (c : ClientThread) (k : ℕ) :
    Runs.run (sessionsStep monocypher drawnNode) (withTask c k) second = some (withSecond c k) :=
  run_connect monocypher drawnNode rfl hello

theorem second_session (c : ClientThread) (k : ℕ) :
    ((withSecond c k).clients 1).session = some (nextSessionId^[k] 2, k + 1) := rfl

theorem run_secondLeaves (c : ClientThread) (k : ℕ) :
    ∃ st, Runs.run (sessionsStep monocypher drawnNode) (withSecond c k) secondLeaves = some st ∧
      st.clients = Function.update (onlyFirst c) 1 .returned ∧
      st.pool = taskPoolReleaseSession (withTask c k).pool (nextSessionId^[k] 2) := by
  have hentered : (withSecond c k).clients 1 =
      .entered (k + 1) (enteredThread (nextSessionId^[k] 2) hello) := rfl
  obtain ⟨c', hid, hturn⟩ := turn_silent monocypher drawnNode hentered listedEnv idleStatics
  refine ⟨_, Runs.run_of_step hturn rfl, ?_, ?_⟩
  · simp [Sessions.become, withSecond, withTask]
  · rw [← hid]
    rfl

/-- A run of so few moves has too few connections for an id to come again. -/
theorem stepsMeet_of_short {mc : Monocypher} {keys : ServerKeys} {ms : List SessionsMove}
    (hshort : ms.length ≤ 65535) :
    Runs.StepsMeet (sessionsStep mc keys) NoneOutlived sessions₀ ms := by
  have hentered : ∀ {ls : List SessionsMove} {st : Sessions},
      Runs.run (sessionsStep mc keys) sessions₀ ls = some st → st.entered ≤ ls.length := by
    intro ls
    induction ls using List.reverseRecOn with
    | nil =>
      rintro st ⟨⟩
      exact le_rfl
    | append_singleton ls m ih =>
      intro st hrun
      obtain ⟨st₁, hst₁, hstep⟩ := Runs.run_snoc_some hrun
      have hle := ih hst₁
      rw [List.length_append, List.length_singleton]
      cases sessionsStep_cases hstep with
      | entered i inp hi => exact Nat.succ_le_succ hle
      | _ => exact Nat.le_succ_of_le hle
  intro pre m post st hsplit hrun
  have hlt : pre.length < ms.length := by simp [hsplit]
  have hle := hentered hrun
  cases m with
  | enter i inp =>
    intro j s n _
    omega
  | _ => trivial

/-- Two sessions at a time, the first with a task; the second leaves the task alone. -/
theorem sessions_apart_two : ∃ inp c st st',
    Runs.run (sessionsStep monocypher drawnNode) sessions₀ (firstTask inp ++ second) = some st ∧
    (st.clients 0).session = some (1, 0) ∧ (st.clients 1).session = some (2, 1) ∧
    (st.pool 0).status = .pending ∧
    Runs.run (sessionsStep monocypher drawnNode) st secondLeaves = some st' ∧
    st'.clients 0 = .serving 0 c 0 ∧ st'.pool 0 = st.pool 0 ∧
    Runs.StatesMeet (sessionsStep monocypher drawnNode) (SessionsApart monocypher drawnNode)
      sessions₀ (firstTask inp ++ second ++ secondLeaves) := by
  obtain ⟨inp, c, h⟩ := exists_admits 1
  obtain ⟨st', hleaves, hclients, hpool⟩ := run_secondLeaves c 0
  have hboth := Runs.run_trans (run_firstTask h) (run_second c 0)
  refine ⟨inp, c, withSecond c 0, st', hboth, ?_, rfl, rfl, hleaves, by rw [hclients]; rfl, ?_, ?_⟩
  · show some (c.ctx.sessionId, 0) = _
    rw [h.sessionId]
  · rw [hpool, taskPoolReleaseSession_apply, if_neg]
    · rfl
    · rintro ⟨hid, -⟩
      exact absurd (show (1 : UInt16) = 2 from hid) (by decide)
  · exact (sessions_apart_iff _ _ _ _ (Runs.run_trans hboth hleaves)).mpr
      (stepsMeet_of_short (by simp [firstTask, second, secondLeaves]))

/-! ### An id that comes up again -/

/-- A connection that sends a wrong magic, while connection 0 is there. -/
def wrongMagic : List SessionsMove :=
  [.accept, .enter 1 [0, 0, 0, 0], .turn 1 listedEnv idleStatics, .close 1]

theorem run_wrongMagic (c : ClientThread) (k : ℕ) :
    Runs.run (sessionsStep monocypher drawnNode) (withTask c k) wrongMagic =
      some (withTask c (k + 1)) := by
  have hfree : freeSlot (withTask c k).clients = some 1 := rfl
  have hgone := run_turnedAway monocypher drawnNode hfree
    (show waitForClientMagic [0, 0, 0, 0] = false from rfl) listedEnv idleStatics
  refine hgone.trans ?_
  simp [withTask, Function.iterate_succ_apply']

theorem run_wrongMagics (c : ClientThread) (k : ℕ) :
    Runs.run (sessionsStep monocypher drawnNode) (withTask c 0) (List.replicate k wrongMagic).flatten =
      some (withTask c k) := by
  induction k with
  | zero => rfl
  | succ k ih =>
    rw [List.replicate_succ', List.flatten_append, List.flatten_singleton]
    exact Runs.run_trans ih (run_wrongMagic c k)

theorem nextSessionId_iterate (id : UInt16) (n : ℕ) (h : id.toNat = n % 65535 + 1) (k : ℕ) :
    (nextSessionId^[k] id).toNat = (n + k) % 65535 + 1 := by
  induction k with
  | zero => exact h
  | succ k ih =>
    rw [Function.iterate_succ_apply']
    exact nextSessionId_toNat ih

/-- 65534 connections come and go while connection 0 stays, and then one more comes. -/
def idComesAgain (inp : List UInt8) : List SessionsMove :=
  firstTask inp ++ ((List.replicate 65534 wrongMagic).flatten ++ second)

/-- The last connection has the id of connection 0, and its way out takes the other's task. -/
theorem id_comes_again : ∃ inp c st,
    Runs.run (sessionsStep monocypher drawnNode) sessions₀ (idComesAgain inp) = some st ∧
    st.clients 0 = .serving 0 c 0 ∧ (st.clients 0).session = some (1, 0) ∧
    (st.clients 1).session = some (1, 65535) ∧ (st.pool 0).status = .pending ∧ st.owner 0 = 0 ∧
    ¬ SessionsApart monocypher drawnNode st ∧
    ∃ st', Runs.run (sessionsStep monocypher drawnNode) st secondLeaves = some st' ∧
      st'.clients 0 = .serving 0 c 0 ∧ (st'.pool 0).status = .empty := by
  obtain ⟨inp, c, h⟩ := exists_admits 1
  obtain ⟨st', hleaves, hclients, hpool⟩ := run_secondLeaves c 65534
  have hid : nextSessionId^[65534] 2 = 1 :=
    UInt16.toNat_inj.mp (nextSessionId_iterate 2 1 rfl 65534)
  have hrun : Runs.run (sessionsStep monocypher drawnNode) sessions₀ (idComesAgain inp) =
      some (withSecond c 65534) :=
    Runs.run_trans (run_firstTask h) (Runs.run_trans (run_wrongMagics c 65534) (run_second c 65534))
  have hone : ((withSecond c 65534).clients 0).session = some (1, 0) := by
    show some (c.ctx.sessionId, 0) = _
    rw [h.sessionId]
  have htwo : ((withSecond c 65534).clients 1).session = some (1, 65535) := by
    rw [second_session, hid]
  refine ⟨inp, c, withSecond c 65534, hrun, rfl, hone, htwo, rfl, rfl, fun hap => ?_, st', hleaves,
    by rw [hclients]; rfl, ?_⟩
  · exact absurd (hap.ids 0 1 1 0 65535 hone htwo) (by decide)
  · rw [hpool, hid, taskPoolReleaseSession_apply, if_pos ⟨rfl, nofun⟩]
    rfl

end Asys
