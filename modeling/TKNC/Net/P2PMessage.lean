import TKNC.Lib.Sha256
import TKNC.Lib.Wire

/-!
# P2PMessage — the framed messages of peer discovery

A message carries its payload next to two fields derived from it, the length and the checksum.  The
encoder writes the fields as they are; the decoder reads as many bytes as the length says and
compares their checksum.  A message is read back if and only if the three agree
(`readBack_iff_consistent`); computing the checksum does not set the length, and the handshake never
does.
-/

namespace TKNC.Net

open Lib Lib.ByteOrder Lib.ByteOrder.Word Lib.Numeral Lib.Sha256
open Reader (Passes Reads)

def networkMagic : UInt32 := 0x4e414200

structure P2PMessage where
  magic : UInt32
  command : { bs : Bytes // bs.length = 12 }
  length : UInt32
  checksum : { bs : Bytes // bs.length = 4 }
  payload : Bytes
  deriving DecidableEq

namespace P2PMessage

/-! ## Messages -/

def empty : P2PMessage where
  magic := networkMagic
  command := ⟨List.replicate 12 0, rfl⟩
  length := 0
  checksum := ⟨List.replicate 4 0, rfl⟩
  payload := []

def setCommand (msg : P2PMessage) (cmd : Bytes) : P2PMessage :=
  { msg with
    command := ⟨((cmd.takeWhile (· ≠ 0)).take 11 ++ List.replicate 12 0).take 12, by simp⟩ }

def checksumOf (payload : Bytes) : { bs : Bytes // bs.length = 4 } :=
  if payload = [] then ⟨List.replicate 4 0, rfl⟩
  else ⟨(hash256 payload).take 4, by simp [hash256, length_sha256]⟩

def calculateChecksum (msg : P2PMessage) : P2PMessage :=
  { msg with checksum := checksumOf msg.payload }

def verifyChecksum (msg : P2PMessage) : Bool :=
  msg.checksum = checksumOf msg.payload

def header (msg : P2PMessage) : Bytes :=
  u32.encode msg.magic ++ ((raw 12).encode msg.command ++
    (u32.encode msg.length ++ (raw 4).encode msg.checksum))

def serialize (msg : P2PMessage) : Bytes :=
  msg.header ++ msg.payload

def readPayload (command : { bs : Bytes // bs.length = 12 }) (length : UInt32)
    (checksum : { bs : Bytes // bs.length = 4 }) : Reader P2PMessage := do
  .atLeast ((24 + length.toNat) % 2 ^ 32)
  let payload ← .bytes length.toNat
  let msg : P2PMessage := { magic := networkMagic, command, length, checksum, payload }
  .require msg.verifyChecksum
  pure msg

def read : Reader P2PMessage := do
  .atLeast 24
  let magic ← .word u32
  .require (magic = networkMagic)
  let command ← .word (raw 12)
  let length ← .word u32
  let checksum ← .word (raw 4)
  readPayload command length checksum

def deserialize (data : Bytes) : Except Fault P2PMessage :=
  read.decode data

/-! ## Reading back -/

theorem read_eq_ok {data : Bytes} {msg : P2PMessage} {pos : Nat} :
    read data 0 = .ok (msg, pos) ↔
      24 ≤ data.length ∧ u32.peek data 0 = networkMagic ∧
        24 + (u32.peek data 16).toNat ≤ data.length ∧
        msg = { magic := networkMagic
                command := (raw 12).peek data 4
                length := u32.peek data 16
                checksum := (raw 4).peek data 20
                payload := (data.drop 24).take (u32.peek data 16).toNat } ∧
        msg.verifyChecksum = true ∧ pos = 24 + (u32.peek data 16).toNat := by
  simp only [read, readPayload, Reader.bind_eq_ok, Reader.atLeast_eq_ok, Reader.word_eq_ok,
    Reader.bytes_eq_ok, Reader.require_eq_ok, Reader.pure_eq_ok, decide_eq_true_eq]
  constructor
  · rintro ⟨_, _, ⟨hsize, rfl⟩, _, _, ⟨_, rfl, rfl⟩, _, _, ⟨hmagic, rfl⟩, _, _, ⟨_, rfl, rfl⟩, _, _,
      ⟨_, rfl, rfl⟩, _, _, ⟨_, rfl, rfl⟩, _, _, ⟨_, rfl⟩, _, _, ⟨hbytes, rfl, rfl⟩, _, _,
      ⟨hsum, rfl⟩, rfl, rfl⟩
    exact ⟨hsize, hmagic, hbytes, rfl, hsum, rfl⟩
  · rintro ⟨hsize, hmagic, hbytes, rfl, hsum, rfl⟩
    have hpos {n : Nat} (h : n ≤ 24) : n ≤ data.length := Nat.le_trans h hsize
    exact ⟨(), 0, ⟨hsize, rfl⟩, _, 4, ⟨hpos (by decide), rfl, rfl⟩, (), 4, ⟨hmagic, rfl⟩,
      _, 16, ⟨hpos (by decide), rfl, rfl⟩, _, 20, ⟨hpos (by decide), rfl, rfl⟩,
      _, 24, ⟨hpos (by decide), rfl, rfl⟩, (), 24, ⟨(Nat.mod_le _ _).trans hbytes, rfl⟩,
      _, _, ⟨hbytes, rfl, rfl⟩, (), _, ⟨hsum, rfl⟩, rfl, rfl⟩

/-- What is written is accepted, with the same command and payload. -/
def ReadBack (msg : P2PMessage) : Prop :=
  ∃ msg', deserialize msg.serialize = .ok msg' ∧ msg'.command = msg.command ∧
    msg'.payload = msg.payload

/-- The magic is the network's, and the derived fields belong to the payload. -/
def Consistent (msg : P2PMessage) : Prop :=
  msg.magic = networkMagic ∧ msg.length.toNat = msg.payload.length ∧ msg.verifyChecksum = true

instance (msg : P2PMessage) : Decidable msg.Consistent :=
  inferInstanceAs (Decidable (_ ∧ _ ∧ _))

theorem length_header (msg : P2PMessage) : msg.header.length = 24 := by
  simp [header]

theorem peek_serialize (msg : P2PMessage) :
    u32.peek msg.serialize 0 = msg.magic ∧ (raw 12).peek msg.serialize 4 = msg.command ∧
      u32.peek msg.serialize 16 = msg.length ∧ (raw 4).peek msg.serialize 20 = msg.checksum := by
  have hmagic := u32.length_encode msg.magic
  have hcommand := (raw 12).length_encode msg.command
  have hlen := u32.length_encode msg.length
  have hfields : msg.serialize = u32.encode msg.magic ++ ((raw 12).encode msg.command ++
      (u32.encode msg.length ++ ((raw 4).encode msg.checksum ++ msg.payload))) := by
    simp only [serialize, header, List.append_assoc]
  rw [hfields]
  refine ⟨u32.peek_encode _ _, (raw 12).peek_append hmagic _ _, ?_, ?_⟩
  · rw [← List.append_assoc]
    exact u32.peek_append (by rw [List.length_append, hmagic, hcommand]; rfl) _ _
  · rw [← List.append_assoc, ← List.append_assoc]
    exact (raw 4).peek_append
      (by rw [List.length_append, List.length_append, hmagic, hcommand, hlen]; rfl) _ _

theorem readBack_iff_consistent (msg : P2PMessage) : msg.ReadBack ↔ msg.Consistent := by
  obtain ⟨hmagic, hcommand, hlen, hchecksum⟩ := msg.peek_serialize
  have hdrop : msg.serialize.drop 24 = msg.payload := List.drop_left' msg.length_header
  have hsize : msg.serialize.length = 24 + msg.payload.length := by
    rw [serialize, List.length_append, length_header]
  simp only [ReadBack, deserialize, Reader.decode_eq_ok, read_eq_ok, hmagic, hcommand, hlen,
    hchecksum, hdrop, hsize]
  constructor
  · rintro ⟨_, ⟨_, _, heq, hbytes, rfl, hsum, _⟩, _, hpayload⟩
    have hlength := congrArg List.length hpayload
    rw [List.length_take] at hlength
    have hall : msg.length.toNat = msg.payload.length := by omega
    rw [← heq, hall, List.take_length] at hsum
    exact ⟨heq, hall, hsum⟩
  · rintro ⟨heq, hall, hsum⟩
    rw [hall, List.take_length, ← heq]
    exact ⟨msg, ⟨_, by omega, rfl, Nat.le_refl _, rfl, hsum, rfl⟩, rfl, rfl⟩

end P2PMessage

def versionMessage (role : Bytes) (p2pPort : Int32) : P2PMessage :=
  let versionMsg := P2PMessage.empty.setCommand (ascii "version")
  { versionMsg with payload := role ++ ascii "|" ++ toString64 p2pPort.toInt }.calculateChecksum

def verackMessage : P2PMessage :=
  (P2PMessage.empty.setCommand (ascii "verack")).calculateChecksum

def handshakeMessages (role : Bytes) (p2pPort : Int32) : List P2PMessage :=
  [versionMessage role p2pPort, verackMessage]

/-- The length of the version message stays at zero, and its payload is never empty. -/
theorem versionMessage_not_readBack (role : Bytes) (p2pPort : Int32) :
    ¬(versionMessage role p2pPort).ReadBack := by
  rw [P2PMessage.readBack_iff_consistent]
  rintro ⟨_, hlength, _⟩
  have hpayload : (versionMessage role p2pPort).payload =
      role ++ ascii "|" ++ toString64 p2pPort.toInt := rfl
  have hzero : (versionMessage role p2pPort).length.toNat = 0 := rfl
  rw [hpayload, hzero] at hlength
  simp [ascii] at hlength

/-- No handshake is read back as a whole. -/
theorem handshake_never_readBack (role : Bytes) (p2pPort : Int32) :
    ¬∀ msg ∈ handshakeMessages role p2pPort, msg.ReadBack :=
  fun h => versionMessage_not_readBack role p2pPort (h _ List.mem_cons_self)

/-- The version message of a miner is rejected for its checksum. -/
theorem minerVersion_rejected :
    P2PMessage.deserialize (versionMessage (ascii "miner") 8333).serialize = .error .rejected ∧
      ¬∀ msg ∈ handshakeMessages (ascii "miner") 8333, msg.ReadBack := by
  have hrejected : P2PMessage.deserialize (versionMessage (ascii "miner") 8333).serialize =
      .error .rejected := by
    decide +kernel
  refine ⟨hrejected, fun h => ?_⟩
  obtain ⟨msg, hok, _⟩ := h _ List.mem_cons_self
  rw [hrejected] at hok
  cases hok

end TKNC.Net
