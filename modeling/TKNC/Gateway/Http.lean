import TKNC.Gateway.Json

/-!
# Http — what the gateway and the proxy share

Both serve a request from the callbacks of an event loop: the connection to the miner delivers its
response in segments, and either side may close.  A callback acts on the client, on the table of
reserved costs and on the escrow records; these actions are collected in a log.
-/

namespace TKNC.Gateway

open Lib.MachineInt Lib.Numeral Lib.TextSearch

/-! ## Events and actions -/

inductive Setup where
  | noBufferevent
  | noConnection
  | connecting
  deriving DecidableEq

/-- What happens to a request: the rest of its handler, then callbacks.  `ended` is an end of file,
an error or a timeout of the miner. -/
inductive Event where
  | setup (outcome : Setup)
  | connected
  | data (segment : Bytes)
  | ended
  | clientClose
  | keepalive

inductive Charge where
  | checkAndDeductEscrow (apiKey : Bytes) (tokens : Int)
  | trackMinerServedTokens (apiKey : Bytes) (tokens : Int)
  deriving DecidableEq

inductive Action where
  | request (text : Bytes)
  | reply (status : Int) (text : Bytes)
  | start (status : Int)
  | chunk (text : Bytes)
  | forward (data : Bytes)
  | finish
  | release (apiKey : Bytes) (cost : Int)
  | charge (c : Charge)
  deriving DecidableEq

def forwarded : List Action → Bytes
  | [] => []
  | .forward data :: log => data ++ forwarded log
  | _ :: log => forwarded log

def releases : List Action → List (Bytes × Int)
  | [] => []
  | .release apiKey cost :: log => (apiKey, cost) :: releases log
  | _ :: log => releases log

def charges : List Action → List Charge
  | [] => []
  | .charge c :: log => c :: charges log
  | _ :: log => charges log

def starts : List Action → List Int
  | [] => []
  | .start status :: log => status :: starts log
  | _ :: log => starts log

section Append

variable (log log' : List Action)

@[simp] theorem forwarded_append : forwarded (log ++ log') = forwarded log ++ forwarded log' := by
  induction log with
  | nil => rfl
  | cons a log ih => cases a <;> simp [forwarded, ih]

@[simp] theorem releases_append : releases (log ++ log') = releases log ++ releases log' := by
  induction log with
  | nil => rfl
  | cons a log ih => cases a <;> simp [releases, ih]

@[simp] theorem charges_append : charges (log ++ log') = charges log ++ charges log' := by
  induction log with
  | nil => rfl
  | cons a log ih => cases a <;> simp [charges, ih]

@[simp] theorem starts_append : starts (log ++ log') = starts log ++ starts log' := by
  induction log with
  | nil => rfl
  | cons a log ih => cases a <;> simp [starts, ih]

end Append

/-- No cost is released and nothing is charged. -/
def Quiet (log : List Action) : Prop :=
  releases log = [] ∧ charges log = []

theorem quiet_nil : Quiet [] :=
  ⟨rfl, rfl⟩

theorem quiet_forward (data : Bytes) : Quiet [.forward data] :=
  ⟨rfl, rfl⟩

theorem Quiet.append {log log' : List Action} (h : Quiet log) (h' : Quiet log') :
    Quiet (log ++ log') := by
  constructor
  · rw [releases_append, h.1, h'.1, List.append_nil]
  · rw [charges_append, h.2, h'.2, List.append_nil]

def crlf : Bytes := [13, 10]

def errorMarkers : List Bytes :=
  [ascii "[Error:", ascii "[Miner returned", ascii "[Inference unavailable:",
    ascii "[LLM inference error:", ascii "[FATAL:"]

def hasErrorMarker (text : Bytes) : Bool :=
  errorMarkers.any (fun marker => contains marker text)

def deltaMark : Bytes :=
  ascii "\"content\":\""

/-- The texts from the contents of each delta on; a search goes on behind the mark it found. -/
def deltaTails : Nat → Bytes → List Bytes
  | _, [] => []
  | skip + 1, _ :: rest => deltaTails skip rest
  | 0, c :: rest =>
      if deltaMark.isPrefixOf (c :: rest) then
        rest.drop (deltaMark.length - 1) :: deltaTails (deltaMark.length - 1) rest
      else deltaTails 0 rest

def contentDeltas (text : Bytes) : List Bytes :=
  (deltaTails 0 text).filter (fun tail => tail.head?.any (· ≠ quote))

def deltaCount (text : Bytes) : Nat :=
  (contentDeltas text).length

example :
    deltaCount (ascii "data: \x7b\"content\":\"\"\x7d data: \x7b\"content\":\"a\"\x7d") = 1 := by
  decide +kernel

end TKNC.Gateway
