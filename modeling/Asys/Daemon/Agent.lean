import Asys.Core.Frames
import Asys.Daemon.ClientPaths

/-! # An agent and its daemon

    What `client_proc_throttle.py` does on a connection: it seals a request in one packet, plain or
    with the tag and the next Seq, and waits for the packet with the answer. Its handshake and its
    sealing are those of the package `noiseprotocol`, and its tags are made with `cryptography`. The
    other end is a thread in `handle_client`. The last definitions are the same without a wire. -/

namespace Asys
open Words
open Noise (HandshakeState CipherState KeyPair)

/-! ### The packages -/

/-- What the program uses of `noiseprotocol` and `cryptography`. A call that raises gives `none`. -/
structure Packages where
  NoiseConnection : Type
  /-- `from_name`, `set_as_initiator`, the two `set_keypair` calls and `start_handshake`. -/
  startHandshake : (name clientPriv serverPub : List UInt8) → Option NoiseConnection
  /-- `write_message`, with the ephemeral pair that it draws. -/
  writeMessage : NoiseConnection → KeyPair → Option (NoiseConnection × List UInt8)
  readMessage : NoiseConnection → List UInt8 → Option NoiseConnection
  encrypt : NoiseConnection → List UInt8 → Option (NoiseConnection × List UInt8)
  decrypt : NoiseConnection → List UInt8 → Option (NoiseConnection × List UInt8)
  /-- `noise_protocol.cipher_state_encrypt.k`. -/
  sendKey : NoiseConnection → List UInt8
  /-- `HMAC(key, BLAKE2b(64))`, updated once and finalized. -/
  hmac : (key message : List UInt8) → List UInt8

/-- What the program keeps: the connection, `_epoch_id` and `_seq`. -/
structure Agent (P : Packages) where
  connection : P.NoiseConnection
  epochId : List UInt8
  seq : ℕ

/-- A call of `send_apdu` or of `send_apdu_signed`. -/
inductive Request where
  | plain (ins p1 p2 : UInt8) (data : List UInt8)
  | signed (ins p1 p2 : UInt8) (payload : List UInt8)

/-- `struct.pack('>H', len(ct)) + ct`. -/
def packet (ciphertext : List UInt8) : List UInt8 := packetHeader ciphertext.length ++ ciphertext

namespace Agent
variable {P : Packages}

/-- `_compute_auth_tag`. -/
def computeAuthTag (a : Agent P) (cla ins p1 p2 lc : UInt8) (seq : UInt32) (payload : List UInt8) :
    List UInt8 :=
  (P.hmac (P.sendKey a.connection)
    ([cla, ins, p1, p2, lc] ++ a.epochId ++ putU32 seq ++ payload)).take 16

/-- `struct.pack` refuses a length that is not two bytes. -/
def sendPlaintext (a : Agent P) (plaintext : List UInt8) : Agent P × Option (List UInt8) :=
  match P.encrypt a.connection plaintext with
  | none => (a, none)
  | some (connection, ct) =>
    ({ a with connection := connection }, if 65535 < ct.length then none else some (packet ct))

/-- `send_apdu`, with its default CLA; `bytes` takes no length above 255. -/
def sendApdu (a : Agent P) (ins p1 p2 : UInt8) (data : List UInt8) : Agent P × Option (List UInt8) :=
  if 255 < data.length then (a, none)
  else a.sendPlaintext ([0x00, ins, p1, p2, data.length.toUInt8] ++ data ++ [0x00])

/-- `send_apdu_signed`; the Seq moves before `struct.pack` and `bytes` may refuse. -/
def sendApduSigned (a : Agent P) (ins p1 p2 : UInt8) (payload : List UInt8) :
    Agent P × Option (List UInt8) :=
  let a := { a with seq := a.seq + 1 }
  if 2 ^ 32 ≤ a.seq then (a, none)
  else
    let data := putU32 a.seq.toUInt32 ++ payload
    if 255 < data.length then (a, none)
    else
      let authTag := a.computeAuthTag 0x04 ins p1 p2 data.length.toUInt8 a.seq.toUInt32 payload
      a.sendPlaintext ([0x04, ins, p1, p2, data.length.toUInt8] ++ data ++ [0x00] ++ authTag)

def send (a : Agent P) : Request → Agent P × Option (List UInt8)
  | .plain ins p1 p2 data => a.sendApdu ins p1 p2 data
  | .signed ins p1 p2 payload => a.sendApduSigned ins p1 p2 payload

end Agent

/-! ### The connection -/

/-- An agent, the thread that serves it, and the bytes that the agent has not read yet. -/
structure Link (P : Packages) where
  agent : Agent P
  thread : ClientThread
  inbox : List UInt8

section Connection
variable {P : Packages} (mc : Monocypher) (keys : ServerKeys)

/-- The bytes arrive, and the thread takes its turn. -/
def Link.turn (e : TurnEnv) (g : Statics) (k : Link P) (bytes : List UInt8) :
    Statics × List Effect × Link P :=
  let thread := { k.thread with inp := k.thread.inp ++ bytes }
  match clientTurn mc keys e.delivering g thread with
  | none => (g, [], { k with thread := thread })
  | some t => (t.statics, t.effects, ⟨k.agent, t.thread, k.inbox ++ t.sent.flatten⟩)

end Connection

/-! ### The handshake -/

def hexDigit (n : ℕ) : Char := "0123456789abcdef".toList.getD n '0'

/-- `bytes.hex`. -/
def hex (bs : List UInt8) : String :=
  String.ofList (bs.flatMap fun b => [hexDigit (b.toNat / 16), hexDigit (b.toNat % 16)])

section Packages
variable (P : Packages)

/-- `derive_epoch_id`. -/
def Packages.deriveEpochId (connection : P.NoiseConnection) : List UInt8 :=
  (P.hmac (P.sendKey connection)
    [0x61, 0x73, 0x79, 0x73, 0x2D, 0x65, 0x70, 0x6F, 0x63, 0x68, 0x2D, 0x76, 0x31]).take 4

end Packages

/-! ### The same without a wire -/

end Asys
