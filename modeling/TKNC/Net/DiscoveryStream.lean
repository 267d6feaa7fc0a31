import TKNC.Net.P2PDiscovery

/-!
# DiscoveryStream — what a discovery connection makes of its stream

A peer writes P2P-LLM frames and heartbeat messages to one connection.  The read callback takes
whatever has arrived for one message: it drains the whole buffer, hands it to the LLM handler if it
begins with the magic, and reads it as a heartbeat otherwise.  Neither looks behind the first
message, and neither keeps a message that is not complete.

The connection is in the table of active connections when its data arrives.
-/

namespace TKNC.Net

open Lib Lib.ByteOrder Lib.ByteOrder.Word Lib.Numeral
open P2PDiscovery (HeartbeatMessage heartbeatMagic msgPing msgPong)
open List

/-- A message as it is handled: what the switch of `HandleIncomingMessage` or the branches of
`ProcessHeartbeatResponse` get. -/
inductive Handled where
  | llm (messageType : UInt16) (payload : Bytes)
  | heartbeat (type : UInt8) (timestamp : UInt64)
  deriving DecidableEq

namespace Handled

def bytes : Handled → Bytes
  | .llm messageType payload =>
      P2PLLMMessageHeader.serialize
        { magic := llmMagic, messageType, payloadLength := UInt32.ofNat payload.length } ++ payload
  | .heartbeat type timestamp =>
      HeartbeatMessage.serialize { magic := heartbeatMagic, type, timestamp }

theorem length_bytes_llm (messageType : UInt16) (payload : Bytes) :
    (bytes (.llm messageType payload)).length = 10 + payload.length := by
  simp [bytes, P2PLLMMessageHeader.serialize]
  omega

theorem length_bytes_heartbeat (type : UInt8) (timestamp : UInt64) :
    (bytes (.heartbeat type timestamp)).length = 13 := by
  simp [bytes, HeartbeatMessage.serialize]

end Handled

inductive DiscoveryMessage where
  | llm (msgType : P2PLLMMessageType) (payload : Bytes)
  | ping (timestamp : UInt64)
  | pong (timestamp : UInt64)
  deriving DecidableEq

namespace DiscoveryMessage

def handled : DiscoveryMessage → Handled
  | .llm msgType payload => .llm msgType.toUInt16 payload
  | .ping timestamp => .heartbeat msgPing timestamp
  | .pong timestamp => .heartbeat msgPong timestamp

def bytes (message : DiscoveryMessage) : Bytes :=
  message.handled.bytes

/-- The receiver accepts a payload of this size. -/
def Accepted : DiscoveryMessage → Prop
  | .llm _ payload => payload.length ≤ 10 * 1024 * 1024
  | .ping _ => True
  | .pong _ => True

end DiscoveryMessage

def handleData (data : Bytes) : Option Handled :=
  match handlerOf data with
  | .llm =>
      match parseLLMMessage data with
      | .ok (header, payload) => some (.llm header.messageType payload)
      | .error _ => none
  | .message => (HeartbeatMessage.deserialize data).map fun msg => .heartbeat msg.type msg.timestamp

def readEvent (data : Bytes) : Option Handled :=
  if data.length > 0 then handleData data else none

def handledOf (segments : List Bytes) : List Handled :=
  segments.filterMap readEvent

/-! ## One message in one piece -/

theorem handleData_llmPacket {msgType : P2PLLMMessageType} {payload : Bytes}
    (h : payload.length ≤ 10 * 1024 * 1024) :
    handleData (llmPacket msgType payload) = some (.llm msgType.toUInt16 payload) := by
  have hparse : parseLLMMessage (llmPacket msgType payload ++ []) =
      .ok (packetHeader msgType payload, payload) := parseLLMMessage_packet h []
  rw [append_nil] at hparse
  rw [handleData, handlerOf_llmPacket]
  dsimp only
  rw [hparse]
  rfl

open Handled

theorem handlerOf_heartbeat (type : UInt8) (timestamp : UInt64) :
    handlerOf (bytes (.heartbeat type timestamp)) = .message := by
  have hlength := length_bytes_heartbeat type timestamp
  have hmagic : u32.reverse.peek (bytes (.heartbeat type timestamp)) 0 = 0x004b4250 := by
    have hbytes : u32.encode heartbeatMagic = u32.reverse.encode 0x004b4250 := by decide
    rw [bytes, HeartbeatMessage.serialize]
    dsimp only
    rw [hbytes]
    exact u32.reverse.peek_encode _ _
  rw [handlerOf, if_neg (by omega), if_pos (by rw [hmagic]; decide)]

theorem deserialize_heartbeat {type : UInt8} (h : type = msgPing ∨ type = msgPong)
    (timestamp : UInt64) :
    HeartbeatMessage.deserialize (bytes (.heartbeat type timestamp)) =
      some { magic := heartbeatMagic, type, timestamp } := by
  have hlength := length_bytes_heartbeat type timestamp
  have hmagic := u32.length_encode heartbeatMagic
  have htype := u8.length_encode type
  have hbytes : bytes (.heartbeat type timestamp) =
      (u32.encode heartbeatMagic ++ u8.encode type) ++ (u64.encode timestamp ++ []) := by
    rw [append_nil, append_assoc]
    rfl
  have hread : u32.peek (bytes (.heartbeat type timestamp)) 0 = heartbeatMagic ∧
      u8.peek (bytes (.heartbeat type timestamp)) 4 = type ∧
      u64.peek (bytes (.heartbeat type timestamp)) 5 = timestamp := by
    refine ⟨u32.peek_encode _ _, u8.peek_append hmagic _ _, ?_⟩
    rw [hbytes]
    exact u64.peek_append (by rw [length_append, hmagic, htype]; rfl) _ _
  rw [HeartbeatMessage.deserialize, if_neg (by omega), hread.1, hread.2.1, hread.2.2]
  exact if_pos ⟨rfl, h⟩

theorem handleData_heartbeat {type : UInt8} (h : type = msgPing ∨ type = msgPong)
    (timestamp : UInt64) :
    handleData (bytes (.heartbeat type timestamp)) = some (.heartbeat type timestamp) := by
  rw [handleData, handlerOf_heartbeat]
  dsimp only
  rw [deserialize_heartbeat h]
  rfl

theorem handleData_bytes {message : DiscoveryMessage} (h : message.Accepted) :
    handleData message.bytes = some message.handled := by
  cases message with
  | llm msgType payload => exact handleData_llmPacket h
  | ping timestamp => exact handleData_heartbeat (Or.inl rfl) timestamp
  | pong timestamp => exact handleData_heartbeat (Or.inr rfl) timestamp

theorem bounds_of_handleData {data : Bytes} {message : Handled}
    (h : handleData data = some message) :
    message.bytes.length ≤ data.length ∧
      ∀ messageType payload, message = .llm messageType payload →
        payload.length ≤ 10 * 1024 * 1024 := by
  rw [handleData] at h
  split at h
  · split at h
    · rename_i header payload hok
      obtain ⟨hsize, hheader, hvalid, hneed, rfl⟩ := parseLLMMessage_eq_ok.1 hok
      have hlimit : header.payloadLength.toNat ≤ 10 * 1024 * 1024 := by
        have hle := (of_decide_eq_true hvalid).2.2.2
        exact UInt32.le_iff_toNat_le.1 hle
      have hpayload : ((data.drop 10).take header.payloadLength.toNat).length =
          header.payloadLength.toNat := by
        rw [length_take, length_drop]
        omega
      cases h
      refine ⟨by rw [length_bytes_llm, hpayload]; exact hneed, ?_⟩
      rintro messageType payload ⟨⟩
      rw [hpayload]
      exact hlimit
    · cases h
  · obtain ⟨msg, hmsg, rfl⟩ := Option.map_eq_some_iff.1 h
    rw [HeartbeatMessage.deserialize] at hmsg
    split at hmsg
    · cases hmsg
    · refine ⟨by rw [length_bytes_heartbeat]; omega, ?_⟩
      rintro messageType payload ⟨⟩

/-! ## Streams -/

def pieces (segments : List Bytes) : List Bytes :=
  segments.filter fun data => decide (data.length > 0)

theorem handledOf_eq (segments : List Bytes) :
    handledOf segments = (pieces segments).filterMap handleData := by
  rw [handledOf, pieces, filterMap_filter]
  congr 1
  funext data
  rw [readEvent]
  simp

theorem flatten_pieces (segments : List Bytes) : (pieces segments).flatten = segments.flatten := by
  induction segments with
  | nil => rfl
  | cons data segments ih =>
    rw [pieces]
    by_cases hdata : data.length > 0
    · rw [filter_cons_of_pos (by simpa using hdata), flatten_cons, flatten_cons,
        ← pieces, ih]
    · have hnil : data = [] := length_eq_zero_iff.1 (by omega)
      rw [filter_cons_of_neg (by simpa using hdata), ← pieces, ih, flatten_cons,
        hnil, nil_append]

end TKNC.Net
