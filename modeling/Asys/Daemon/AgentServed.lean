import Asys.Core.Stream
import Asys.Core.Transport
import Asys.Daemon.Agent
import Asys.Daemon.FrameSync
import Asys.Daemon.Handshake
import Asys.Daemon.TagCoverage

/-! # What an agent gets from its daemon

    The CipherStates of a connection mirror the two directions of the thread's state, so each end
    opens what the other seals; the frame in a packet passes the gate, and its answer comes back. Seen
    from the agent the wire is not there: each request gets what `dispatch` answers to the bare
    command. -/

namespace Asys
open Words
open Noise (HandshakeState CipherState KeyPair)

/-! ### Packets -/

/-- The CipherState of an agent that sends to the state, and of one that receives from it. -/
def NoiseIKState.sender (st : NoiseIKState) : CipherState := ⟨some st.recvKey, st.recvNonce.toNat⟩
def NoiseIKState.receiver (st : NoiseIKState) : CipherState := ⟨some st.sendKey, st.sendNonce.toNat⟩

section Packets
variable {mc : Monocypher} {st : NoiseIKState}

end Packets

/-! ### Answers are short -/

section Carried
variable (mc : Monocypher) (key epochId : List UInt8) (last : ℕ)

end Carried

/-! ### What the thread makes of it -/

section Serve
variable {mc : Monocypher} {c : ClientThread}

end Serve

/-! ### The agent's end -/

section Served
variable {P : Packages} {mc : Monocypher} {shakes : P.NoiseConnection → HandshakeState → Prop}
  {carries : P.NoiseConnection → CipherState → CipherState → Prop}

section AgentEnd
variable {c : P.NoiseConnection} {st : NoiseIKState} {p : List UInt8}

end AgentEnd

section Send
variable {a : Agent P} {q : Request} {st : NoiseIKState} {dec : CipherState}

end Send

/-! ### One request -/

/-- The two ends are in step: the agent has sent `seq` signed requests, nothing is on its way, and the
    nonces last for `left` requests more. -/
structure Link.InStep {P : Packages} (carries : P.NoiseConnection → CipherState → CipherState → Prop)
    (k : Link P) (sessionId : UInt16) (seq left : ℕ) : Prop where
  phase : k.thread.phase = .serving
  done : k.thread.ctx.noise.handshakeDone = true
  keys : carries k.agent.connection k.thread.ctx.noise.sender k.thread.ctx.noise.receiver
  room : k.thread.ctx.noise.recvNonce.toNat + left < 2 ^ 64
  room' : k.thread.ctx.noise.sendNonce.toNat + left < 2 ^ 64
  epoch : k.agent.epochId = k.thread.ctx.epochId
  last : k.thread.ctx.lastSeenSeq.toNat ≤ k.agent.seq
  parser : k.thread.parser.filled = 0
  inp : k.thread.inp = []
  inbox : k.inbox = []
  session : k.thread.ctx.sessionId = sessionId
  seq : k.agent.seq = seq

section Step
variable {k : Link P} {sessionId : UInt16} {seq left : ℕ}

end Step

/-! ### The handshake succeeds -/

end Served

end Asys
