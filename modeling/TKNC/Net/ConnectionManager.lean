import TKNC.Lib.EventMachine
import TKNC.Lib.Framing
import TKNC.Net.P2PLLM

/-!
# ConnectionManager — the receiving side of a peer connection

The receive loop collects what arrives and cuts it into messages behind a 32-bit length; a message
that begins with the LLM magic goes to the LLM handler and any other to the message handler.  What a
connection hands over does not depend on how the stream was cut into segments (`receiveAll_eq`).

`SendMessage` writes the length; `SendLLMMessage` writes its packet to the same socket without it.
The receiver then takes the magic for a length beyond its limit.
-/

namespace TKNC.Net

open Lib Lib.ByteOrder Lib.ByteOrder.Word Lib.EventMachine Lib.Numeral Framing List

/-! ## The receive loop -/

def bufferSize : Nat := 65536

inductive Handler where
  | llm
  | message
  deriving DecidableEq

structure Connection where
  connected : Bool
  messageBuffer : Bytes
  delivered : List (Handler × Bytes)
  deriving DecidableEq

def handlerOf (data : Bytes) : Handler :=
  if data.length < 10 then .message
  else if u32.reverse.peek data 0 ≠ llmMagic then .message
  else .llm

namespace Connection

def settle (conn : Connection) (s : List Bytes × Option Bytes) : Connection where
  connected := s.2.isSome && conn.connected
  messageBuffer := s.2.getD []
  delivered := conn.delivered ++ s.1.map fun data => (handlerOf data, data)

def processReceivedData (conn : Connection) : Connection :=
  conn.settle (Framing.split bufferSize conn.messageBuffer)

def receive (conn : Connection) (received : Bytes) : Connection :=
  if conn.connected then
    processReceivedData { conn with messageBuffer := conn.messageBuffer ++ received }
  else
    conn

def receiveAll (conn : Connection) (segments : List Bytes) : Connection :=
  run receive conn segments

/-- Nothing is left to cut. -/
def Settled (conn : Connection) : Prop :=
  Framing.split bufferSize conn.messageBuffer = ([], some conn.messageBuffer)

variable {conn : Connection}

theorem settled_of_nil (h : conn.messageBuffer = []) : conn.Settled := by
  rw [Settled, h, split_of_short (by decide)]

theorem receiveAll_of_disconnected (h : conn.connected = false) (segments : List Bytes) :
    conn.receiveAll segments = conn := by
  induction segments with
  | nil => rfl
  | cons segment segments ih =>
    have hstep : conn.receive segment = conn := by simp [receive, h]
    rw [receiveAll, run, foldl_cons, hstep]
    exact ih

theorem settle_settle {s : List Bytes × Option Bytes} (h : s.2.isSome = true)
    (t : List Bytes × Option Bytes) :
    (conn.settle s).settle t = conn.settle (s.1 ++ t.1, t.2) := by
  simp [settle, h]

theorem receiveAll_eq (hconnected : conn.connected = true) (hsettled : conn.Settled)
    (segments : List Bytes) :
    conn.receiveAll segments =
      conn.settle (split bufferSize (conn.messageBuffer ++ segments.flatten)) := by
  induction segments generalizing conn with
  | nil =>
    rw [flatten_nil, append_nil, hsettled]
    cases conn
    simp_all [receiveAll, run, settle]
  | cons segment segments ih =>
    have hstep : conn.receiveAll (segment :: segments) =
        (conn.settle (split bufferSize (conn.messageBuffer ++ segment))).receiveAll
          segments := by
      rw [receiveAll, run, foldl_cons, receive, if_pos hconnected]
      rfl
    have happend := split_append bufferSize (conn.messageBuffer ++ segment)
      segments.flatten
    rw [hstep, flatten_cons, ← append_assoc, happend]
    cases hrest : (split bufferSize (conn.messageBuffer ++ segment)).2 with
    | none =>
      -- dropped at this segment: the rest of the stream is not read
      exact receiveAll_of_disconnected (by simp [settle, hrest]) segments
    | some rest =>
      have hbuffer : (conn.settle
          (split bufferSize (conn.messageBuffer ++ segment))).messageBuffer = rest := by
        simp [settle, hrest]
      rw [ih (by simp [settle, hrest, hconnected])
        (by rw [Settled, hbuffer]; exact split_rest hrest), hbuffer,
        settle_settle (by rw [hrest]; rfl)]

/-- The stream `data` arrives in `segments`, and `message` is handed to the LLM handler and nothing
else; the connection stays. -/
def DeliversLLM (conn : Connection) (segments : List Bytes) (message : Bytes) : Prop :=
  (conn.receiveAll segments).connected = true ∧
    (conn.receiveAll segments).delivered = conn.delivered ++ [(.llm, message)]

end Connection

/-! ## The two senders -/

theorem handlerOf_llmPacket (msgType : P2PLLMMessageType) (payload : Bytes) :
    handlerOf (llmPacket msgType payload) = .llm := by
  have hlength := length_llmPacket msgType payload
  have hmagic := (peek_llmPacket msgType payload).1
  rw [handlerOf, if_neg (by omega), if_neg (by rw [hmagic]; exact fun h => h rfl)]

open Connection

/-- A packet behind its length, as `SendMessage` writes it, arrives if the receiver's limit allows
it. -/
theorem framedPacket_delivered {conn : Connection} (hconnected : conn.connected = true)
    (hbuffer : conn.messageBuffer = []) {msgType : P2PLLMMessageType} {payload : Bytes}
    (hsize : 10 + payload.length ≤ bufferSize) {segments : List Bytes}
    (hsegments : segments.flatten = frame (llmPacket msgType payload)) :
    conn.DeliversLLM segments (llmPacket msgType payload) := by
  have hlength := length_llmPacket msgType payload
  have hne : llmPacket msgType payload ≠ [] := length_pos_iff.1 (by omega)
  have hsplit := split_frame hne (hlength.trans_le hsize)
    (by rw [hlength]; exact Nat.lt_of_le_of_lt hsize (by decide))
  rw [Connection.DeliversLLM,
    receiveAll_eq hconnected (settled_of_nil hbuffer), hbuffer,
    nil_append, hsegments, hsplit]
  simp [settle, hconnected, handlerOf_llmPacket]

theorem split_llmPacket (msgType : P2PLLMMessageType) (payload : Bytes) :
    split bufferSize (llmPacket msgType payload) = ([], none) := by
  have hlength := length_llmPacket msgType payload
  have hbytes : u32.reverse.encode llmMagic = u32.encode 0x4c4e4b54 := by decide
  have hpeek : u32.peek (llmPacket msgType payload) 0 = 0x4c4e4b54 := by
    simp only [llmPacket, P2PLLMMessageHeader.serialize, append_assoc, hbytes]
    exact u32.peek_encode _ _
  exact split_of_invalid (by omega) (Or.inl (by rw [hpeek]; decide))

/-- A packet without a length in front of it ends the connection at its first four bytes. -/
theorem receiveAll_llmPacket {conn : Connection} (hconnected : conn.connected = true)
    (hbuffer : conn.messageBuffer = []) {msgType : P2PLLMMessageType} {payload : Bytes}
    {segments : List Bytes} (hsegments : segments.flatten = llmPacket msgType payload) :
    conn.receiveAll segments = { conn with connected := false } := by
  rw [receiveAll_eq hconnected (settled_of_nil hbuffer), hbuffer,
    nil_append, hsegments, split_llmPacket]
  simp [settle]

/-- What `SendLLMMessage` writes is never handed over, and ends the connection. -/
theorem llmPacket_never_delivered {conn : Connection} (hconnected : conn.connected = true)
    (hbuffer : conn.messageBuffer = []) (msgType : P2PLLMMessageType) (payload : Bytes)
    {segments : List Bytes} (hsegments : segments.flatten = llmPacket msgType payload) :
    ¬conn.DeliversLLM segments (llmPacket msgType payload) ∧
      (conn.receiveAll segments).connected = false ∧
      (conn.receiveAll segments).delivered = conn.delivered := by
  rw [Connection.DeliversLLM, receiveAll_llmPacket hconnected hbuffer hsegments]
  exact ⟨fun h => Bool.false_ne_true h.1, rfl, rfl⟩

def donePacket : Bytes :=
  llmPacket .inferenceDone (P2PLLMInferenceDone.serialize ⟨ascii "hi", 2⟩)

def freshConnection : Connection where
  connected := true
  messageBuffer := []
  delivered := []

theorem framed_donePacket_delivered :
    freshConnection.DeliversLLM [(frame donePacket).take 3, (frame donePacket).drop 3]
      donePacket :=
  framedPacket_delivered rfl rfl (by decide) (by decide)

theorem donePacket_never_delivered :
    [donePacket.take 3, donePacket.drop 3].flatten = donePacket ∧
      ¬freshConnection.DeliversLLM [donePacket.take 3, donePacket.drop 3] donePacket :=
  have hsegments : [donePacket.take 3, donePacket.drop 3].flatten = donePacket := by decide
  ⟨hsegments, (llmPacket_never_delivered rfl rfl .inferenceDone _ hsegments).1⟩

/-- The whole answer in one segment: nothing is handed over and the connection is gone. -/
theorem donePacket_drops_connection :
    freshConnection.receiveAll [donePacket] =
        { connected := false, messageBuffer := [], delivered := [] } ∧
      ¬freshConnection.DeliversLLM [donePacket] donePacket := by
  have hdropped : freshConnection.receiveAll [donePacket] =
      { connected := false, messageBuffer := [], delivered := [] } :=
    receiveAll_llmPacket rfl rfl (append_nil donePacket)
  refine ⟨hdropped, fun h => ?_⟩
  rw [Connection.DeliversLLM, hdropped] at h
  exact Bool.false_ne_true h.1

/-! ## Messages behind their lengths -/

/-- A call of `SendMessage`: whether the peer is found and connected, and what `send` returns, which
is at most the size of the packet. -/
structure SendCall where
  connected : Bool
  data : Bytes
  sent : Int
  sent_le : sent ≤ (Framing.frame data).length

namespace SendCall

def sendMessage (call : SendCall) : Bool :=
  call.connected && decide (call.sent > 0)

def written (call : SendCall) : Bytes :=
  if call.connected then (Framing.frame call.data).take call.sent.toNat else []

/-- The whole packet was taken, and the receiver's limit allows it. -/
def Fits (call : SendCall) : Prop :=
  call.data ≠ [] ∧ call.data.length ≤ bufferSize ∧ call.sent = 4 + call.data.length

def stream (calls : List SendCall) : Bytes :=
  calls.flatMap written

def reported (calls : List SendCall) : List Bytes :=
  (calls.filter sendMessage).map (·.data)

/-- However the stream is cut, the receiver hands over the messages that were reported as sent and
keeps the connection. -/
def ExactFraming (calls : List SendCall) : Prop :=
  ∀ segments, segments.flatten = stream calls →
    (freshConnection.receiveAll segments).connected = true ∧
      (freshConnection.receiveAll segments).delivered.map (·.2) = reported calls

theorem written_of_failed {call : SendCall} (h : call.sendMessage = false) : call.written = [] := by
  rw [written]
  split
  · rename_i hconnected
    rw [sendMessage, hconnected, Bool.true_and, decide_eq_false_iff_not] at h
    rw [Int.toNat_of_nonpos (by omega), take_zero]
  · rfl

theorem written_of_fits {call : SendCall} (h : call.sendMessage = true) (hfits : call.Fits) :
    call.written = frame call.data := by
  rw [written, if_pos (Bool.and_eq_true_iff.1 h).1, hfits.2.2]
  exact take_of_length_le (by rw [length_frame]; omega)

theorem stream_eq (calls : List SendCall) :
    stream calls = (calls.filter sendMessage).flatMap written := by
  induction calls with
  | nil => rfl
  | cons call calls ih =>
    rw [stream, flatMap_cons, ← stream, ih]
    cases h : call.sendMessage with
    | false => rw [filter_cons_of_neg (by simp [h]), written_of_failed h, nil_append]
    | true => rw [filter_cons_of_pos h, flatMap_cons]

theorem sent_of_length_le {calls : List SendCall} (hsent : ∀ call ∈ calls, call.sendMessage = true)
    (h : ((calls.map (·.data)).map fun data => 4 + data.length).sum ≤
      (calls.flatMap written).length) :
    ∀ call ∈ calls, call.sent = 4 + call.data.length := by
  -- No call writes more than its packet, so one that writes less cannot be made up for.
  have hle : ∀ call : SendCall, call.written.length ≤ 4 + call.data.length := by
    intro call
    rw [written]
    split
    · rw [length_take, length_frame]
      omega
    · exact Nat.zero_le _
  have hall : ∀ calls : List SendCall, (calls.flatMap written).length ≤
      ((calls.map (·.data)).map fun data => 4 + data.length).sum := by
    intro calls
    induction calls with
    | nil => exact Nat.le_refl 0
    | cons call calls ih =>
      have hcall := hle call
      rw [flatMap_cons, length_append, map_cons, map_cons, sum_cons]
      omega
  induction calls with
  | nil => exact forall_mem_nil _
  | cons call calls ih =>
    obtain ⟨hcall, hrest⟩ := forall_mem_cons.1 hsent
    rw [flatMap_cons, length_append, map_cons, map_cons, sum_cons] at h
    have hfirst := hle call
    have hlater := hall calls
    refine forall_mem_cons.2 ⟨?_, ih hrest (by omega)⟩
    have hsize := call.sent_le
    have hwritten : call.written.length = min call.sent.toNat (4 + call.data.length) := by
      rw [written, if_pos (Bool.and_eq_true_iff.1 hcall).1, length_take,
        length_frame]
    rw [length_frame] at hsize
    omega

theorem receiveAll_fresh {segments : List Bytes} {calls : List SendCall}
    (h : segments.flatten = stream calls) :
    freshConnection.receiveAll segments =
      freshConnection.settle (split bufferSize (stream calls)) := by
  rw [receiveAll_eq rfl (settled_of_nil rfl), h]
  rfl

theorem delivered_settle (s : List Bytes × Option Bytes) :
    (freshConnection.settle s).delivered.map (·.2) = s.1 := by
  rw [settle, freshConnection, nil_append, map_map]
  exact map_id s.1

/-- The framing is exact if and only if every message that was reported as sent is not empty, within
the receiver's limit and taken by `send` as a whole. -/
theorem exactFraming_iff (calls : List SendCall) :
    ExactFraming calls ↔ ∀ call ∈ calls, call.sendMessage = true → call.Fits := by
  have hsent : ∀ call ∈ calls.filter sendMessage, call.sendMessage = true :=
    fun call hmem => (mem_filter.1 hmem).2
  constructor
  · intro h
    have hreceived := (h [stream calls] (append_nil _)).2
    rw [receiveAll_fresh (append_nil _), delivered_settle] at hreceived
    have hlength := length_split_le bufferSize (stream calls)
    rw [hreceived, stream_eq] at hlength
    intro call hmem hcall
    have hmem' : call ∈ calls.filter sendMessage := mem_filter.2 ⟨hmem, hcall⟩
    have hdata : call.data ∈ (split bufferSize (stream calls)).1 := by
      rw [hreceived]
      exact mem_map_of_mem hmem'
    obtain ⟨hne, hlimit⟩ := bounds_of_mem_split hdata
    exact ⟨hne, hlimit, sent_of_length_le hsent hlength call hmem'⟩
  · intro h segments hsegments
    have hfits : ∀ call ∈ calls.filter sendMessage, call.Fits :=
      fun call hmem => h call (mem_filter.1 hmem).1 (mem_filter.1 hmem).2
    have hstream : stream calls = (reported calls).flatMap frame := by
      rw [stream_eq, reported, flatMap_map, flatMap_def, flatMap_def]
      exact congrArg flatten (map_congr_left fun call hmem =>
        written_of_fits (hsent call hmem) (hfits call hmem))
    have hbounds : ∀ message ∈ reported calls, message ≠ [] ∧ message.length ≤ bufferSize := by
      intro message hmem
      obtain ⟨call, hcall, rfl⟩ := mem_map.1 hmem
      exact ⟨(hfits call hcall).1, (hfits call hcall).2.1⟩
    rw [receiveAll_fresh hsegments, hstream, delivered_settle,
      split_frames (by decide) hbounds]
    exact ⟨rfl, rfl⟩

def partialSend : SendCall where
  connected := true
  data := ascii "hi"
  sent := 5
  sent_le := by decide

/-- The call reports success, and nothing is handed over. -/
theorem not_exactFraming_of_partial_send : ¬ExactFraming [partialSend] := by
  intro h
  have hreceived := (h [[2, 0, 0, 0, 104]] (by decide)).2
  have hcut : stream [partialSend] = [2, 0, 0, 0, 104] := by decide
  have hflatten : [[2, 0, 0, 0, 104]].flatten = stream [partialSend] := by decide
  rw [receiveAll_fresh hflatten, delivered_settle, hcut,
    split_of_incomplete (by decide) (by decide) (by decide)] at hreceived
  exact absurd hreceived (by decide)

end SendCall

end TKNC.Net
