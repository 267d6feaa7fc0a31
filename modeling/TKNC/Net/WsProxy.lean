import TKNC.Lib.ChunkedCoding
import TKNC.Lib.EventMachine
import TKNC.Lib.TextSearch

/-!
# WsProxy — the miner's side of a proxied WebSocket

The proxy waits for the answer to its upgrade request and then forwards what the miner sends.  While
it waits, every read event copies the whole input buffer behind what was copied before, and leaves
the input buffer as it is.  The end of the header is found in the copies, and that many bytes are
drained from the input buffer.  If the header came in several pieces, the copies before the last are
drained a second time, from the payload.

The client's side is connected for the whole time.
-/

namespace TKNC.Net

open Lib
open List hiding contains
open Lib.ChunkedCoding (headerEnd)
open Lib.EventMachine Lib.Numeral Lib.TextSearch

/-! ## Sessions -/

inductive ProxyState where
  | upgrading
  | forwarding
  | cleanedUp
  deriving DecidableEq

structure ProxySession where
  state : ProxyState
  minerInput : Bytes
  minerReadBuf : Bytes
  clientOutput : Bytes
  deriving DecidableEq

namespace ProxySession

def initial : ProxySession where
  state := .upgrading
  minerInput := []
  minerReadBuf := []
  clientOutput := []

def minerReadCb (s : ProxySession) : ProxySession :=
  if s.state = .upgrading then
    if s.minerInput.length = 0 then s
    else
      let buf := s.minerReadBuf ++ s.minerInput
      match find headerEnd buf with
      | none => { s with minerReadBuf := buf }
      | some rest =>
          if contains (ascii "101") buf then
            let consumed := buf.length - rest.length + 4
            { s with
              state := .forwarding
              minerInput := s.minerInput.drop consumed
              minerReadBuf := [] }
          else
            { s with state := .cleanedUp }
  else
    s

def forwardReadcb (s : ProxySession) : ProxySession :=
  { s with clientOutput := s.clientOutput ++ s.minerInput, minerInput := [] }

/-- A read event: data is added to the input buffer, and the callback that is set is called. -/
def readEvent (s : ProxySession) (data : Bytes) : ProxySession :=
  match s.state with
  | .upgrading => minerReadCb { s with minerInput := s.minerInput ++ data }
  | .forwarding => forwardReadcb { s with minerInput := s.minerInput ++ data }
  | .cleanedUp => s

def afterEvents (segments : List Bytes) : ProxySession :=
  run readEvent initial segments

end ProxySession

/-- The header of a 101 response: a status line with that code, and the first empty line at the
end. -/
structure Header101 (header : Bytes) : Prop where
  status : ∃ version, ascii "HTTP/" ++ version ++ ascii " 101" <+: header
  ends : find headerEnd header = some headerEnd

/-! ## While the header is incomplete -/

variable {header : Bytes}

namespace Header101

theorem exists_cons (h : Header101 header) : ∃ rest, header = 72 :: rest := by
  obtain ⟨version, rest, hrest⟩ := h.status
  exact ⟨_, hrest.symm⟩

theorem not_infix (h : Header101 header) {part missing : Bytes} (hpart : part ++ missing = header)
    (hmissing : missing ≠ []) : ¬headerEnd <:+: part := by
  intro hinfix
  rw [← contains_iff_infix, contains, Option.isSome_iff_exists] at hinfix
  obtain ⟨rest, hrest⟩ := hinfix
  have hfound := find_append_of_some hrest missing
  rw [hpart, h.ends, Option.some.injEq] at hfound
  -- what is found begins with the empty line and has the missing part behind it
  have hlength := congrArg length hfound
  have hle := (prefix_of_find hrest).1.length_le
  have hpos := length_pos_iff.2 hmissing
  rw [length_append] at hlength
  omega

theorem contains_101 (h : Header101 header) (before after : Bytes) :
    contains (ascii "101") (before ++ (header ++ after)) = true := by
  obtain ⟨version, rest, hrest⟩ := h.status
  refine contains_iff_infix.2 ?_
  refine ⟨before ++ (ascii "HTTP/" ++ version ++ [32]), rest ++ after, ?_⟩
  have hstatus : ascii " 101" = [32] ++ ascii "101" := rfl
  rw [← hrest, hstatus]
  simp only [append_assoc]

end Header101

/-- The session while the part of the header that has arrived is `part`. -/
structure Upgrading (s : ProxySession) (part : Bytes) : Prop where
  state : s.state = .upgrading
  minerInput : s.minerInput = part
  clientOutput : s.clientOutput = []
  minerReadBuf_nil_iff : s.minerReadBuf = [] ↔ part = []
  /-- A search passes over the copies, since a header does not begin inside an empty line. -/
  find_minerReadBuf : ∀ text, find headerEnd (s.minerReadBuf ++ 72 :: text) =
    find headerEnd (72 :: text)

namespace Upgrading

variable {s : ProxySession} {part data : Bytes}

theorem initial : Upgrading ProxySession.initial [] where
  state := rfl
  minerInput := rfl
  clientOutput := rfl
  minerReadBuf_nil_iff := Iff.rfl
  find_minerReadBuf _ := rfl

theorem readEvent_eq (h : Upgrading s part) (data : Bytes) :
    s.readEvent data = ProxySession.minerReadCb { s with minerInput := part ++ data } := by
  rw [ProxySession.readEvent, h.state, h.minerInput]

theorem incomplete (h : Upgrading s part) (hheader : Header101 header) {missing : Bytes}
    (hpart : (part ++ data) ++ missing = header) (hmissing : missing ≠ []) :
    Upgrading (s.readEvent data) (part ++ data) := by
  rw [h.readEvent_eq, ProxySession.minerReadCb]
  dsimp only
  rw [if_pos h.state]
  have hnot := hheader.not_infix hpart hmissing
  by_cases hempty : (part ++ data).length = 0
  · rw [if_pos hempty]
    have hnil := length_eq_zero_iff.1 hempty
    have hpartNil := (append_eq_nil_iff.1 hnil).1
    rw [hnil]
    exact
      { state := h.state
        minerInput := rfl
        clientOutput := h.clientOutput
        minerReadBuf_nil_iff := by rw [h.minerReadBuf_nil_iff, hpartNil]
        find_minerReadBuf := h.find_minerReadBuf }
  · rw [if_neg hempty]
    -- what has arrived begins as the header does
    obtain ⟨rest, hrest⟩ := hheader.exists_cons
    obtain ⟨text, htext⟩ : ∃ text, part ++ data = 72 :: text := by
      cases hp : part ++ data with
      | nil => rw [hp] at hempty; exact absurd rfl hempty
      | cons b text =>
        rw [hp, hrest, cons_append, cons.injEq] at hpart
        exact ⟨text, by rw [hpart.1]⟩
    have hfind : find headerEnd (s.minerReadBuf ++ (part ++ data)) = none := by
      rw [htext, h.find_minerReadBuf, ← htext]
      exact find_eq_none_of_not_infix hnot
    rw [hfind]
    exact
      { state := h.state
        minerInput := rfl
        clientOutput := h.clientOutput
        minerReadBuf_nil_iff := by
          rw [htext]
          simp
        find_minerReadBuf := by
          intro later
          rw [append_assoc, htext, cons_append, h.find_minerReadBuf, ← cons_append,
            ← htext]
          exact find_append_cons_of_not_mem (by decide) hnot later }

theorem complete (h : Upgrading s part) (hheader : Header101 header) {payload : Bytes}
    (hpart : part ++ data = header ++ payload) :
    s.readEvent data =
      { state := .forwarding
        minerInput := payload.drop s.minerReadBuf.length
        minerReadBuf := []
        clientOutput := [] } := by
  obtain ⟨rest, hrest⟩ := hheader.exists_cons
  have hfind : find headerEnd (s.minerReadBuf ++ (header ++ payload)) =
      some (headerEnd ++ payload) := by
    rw [hrest, cons_append, h.find_minerReadBuf, ← cons_append, ← hrest]
    exact find_append_of_some hheader.ends payload
  have hne : ¬(header ++ payload).length = 0 := by
    rw [hrest, cons_append, length_cons]
    omega
  have hlength : 4 ≤ header.length := (prefix_of_find hheader.ends).2.length_le
  have hconsumed : (s.minerReadBuf ++ (header ++ payload)).length -
      (headerEnd ++ payload).length + 4 = header.length + s.minerReadBuf.length := by
    rw [length_append, length_append, length_append, headerEnd]
    simp only [length_cons, length_nil]
    omega
  rw [h.readEvent_eq, ProxySession.minerReadCb]
  dsimp only
  rw [if_pos h.state, hpart, if_neg hne, hfind]
  dsimp only
  rw [if_pos (hheader.contains_101 _ _), hconsumed, drop_append, h.clientOutput]
  rw [drop_of_length_le (by omega), nil_append, Nat.add_sub_cancel_left]

theorem afterEvents (hheader : Header101 header) {segments : List Bytes} {missing : Bytes}
    (hpart : segments.flatten ++ missing = header) (hmissing : missing ≠ []) :
    Upgrading (ProxySession.afterEvents segments) segments.flatten := by
  induction segments using reverseRecOn generalizing missing with
  | nil => exact initial
  | append_singleton segments data ih =>
    rw [flatten_append, flatten_singleton] at hpart ⊢
    have hbefore : Upgrading (ProxySession.afterEvents segments) segments.flatten :=
      ih (by rw [← hpart, append_assoc]) (append_ne_nil_of_right_ne_nil data hmissing)
    rw [ProxySession.afterEvents, run_concat]
    exact hbefore.incomplete hheader hpart hmissing

end Upgrading

/-! ## Forwarding -/

theorem forwarding_run {s : ProxySession} (h : s.state = .forwarding) (segments : List Bytes) :
    (run ProxySession.readEvent s segments).clientOutput ++
        (run ProxySession.readEvent s segments).minerInput =
      s.clientOutput ++ s.minerInput ++ segments.flatten := by
  induction segments generalizing s with
  | nil => exact (append_nil _).symm
  | cons data segments ih =>
    have hstep : s.readEvent data =
        { s with
          clientOutput := s.clientOutput ++ (s.minerInput ++ data)
          minerInput := [] } := by
      rw [ProxySession.readEvent, h]
      rfl
    have hrest := ih (s := s.readEvent data) (by rw [hstep]; exact h)
    rw [hstep] at hrest
    rw [run, foldl_cons, hstep, ← run, hrest]
    simp only [append_nil, flatten_cons, append_assoc]

/-- What is forwarded and waiting after a whole stream, by the event that completes the header. -/
theorem forwarded_eq (hheader : Header101 header) {before : List Bytes} {data extra : Bytes}
    (after : List Bytes) (hshort : before.flatten.length < header.length)
    (hcomplete : before.flatten ++ data = header ++ extra) :
    (ProxySession.afterEvents (before ++ data :: after)).clientOutput ++
        (ProxySession.afterEvents (before ++ data :: after)).minerInput =
      extra.drop (ProxySession.afterEvents before).minerReadBuf.length ++ after.flatten ∧
    ((ProxySession.afterEvents before).minerReadBuf = [] ↔ before.flatten = []) := by
  -- a proper part of the header has arrived before
  obtain ⟨missing, hmissing⟩ : before.flatten <+: header :=
    prefix_of_prefix_length_le ⟨data, hcomplete⟩ (prefix_append _ _) (by omega)
  have hne : missing ≠ [] := by
    rintro rfl
    rw [append_nil] at hmissing
    rw [hmissing] at hshort
    omega
  have hbefore := Upgrading.afterEvents hheader hmissing hne
  refine ⟨?_, hbefore.minerReadBuf_nil_iff⟩
  have hstep := hbefore.complete hheader hcomplete
  have hrun : ProxySession.afterEvents (before ++ data :: after) =
      run ProxySession.readEvent ((ProxySession.afterEvents before).readEvent data) after := by
    rw [ProxySession.afterEvents, run, foldl_append, foldl_cons]
    rfl
  rw [hrun, forwarding_run (by rw [hstep]), hstep]
  rfl

theorem exists_completing {segments : List Bytes} {n : Nat} (hpos : 0 < n)
    (h : n ≤ segments.flatten.length) :
    ∃ before data after, segments = before ++ data :: after ∧
      before.flatten.length < n ∧ n ≤ (before.flatten ++ data).length := by
  induction segments using reverseRecOn with
  | nil => exact absurd h (Nat.not_le.2 hpos)
  | append_singleton segments data ih =>
    by_cases hn : n ≤ segments.flatten.length
    · obtain ⟨before, data', after, rfl, hshort, hlong⟩ := ih hn
      exact ⟨before, data', after ++ [data], by simp, hshort, hlong⟩
    · refine ⟨segments, data, [], rfl, by omega, ?_⟩
      rwa [flatten_append, flatten_singleton] at h

def upgradeResponse : Bytes :=
  ascii "HTTP/1.1 101 Switching Protocols\r\nUpgrade: websocket\r\n\r\n"

theorem upgradeResponse_header101 : Header101 upgradeResponse where
  status := ⟨ascii "1.1", List.isPrefixOf_iff_prefix.1 (by decide)⟩
  ends := by decide

end TKNC.Net
