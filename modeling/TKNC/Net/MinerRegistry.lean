import TKNC.Lib.JsonText
import TKNC.Lib.QuotedText

/-!
# MinerRegistry — what the node reads of the list of miners

`HandleMinersListRequest` writes the live miners as JSON, and `ParseMinersResponse` looks for the
miners that are online by searching this text for marks: forward for the wallet and the GPU,
backward for the model.  The registrations that it makes are compared with the miners that were
written.
-/

namespace TKNC.Net

open Lib
open Lib.JsonText (Number)
open Lib.Numeral Lib.TextSearch NoStart List

/-- The fields of a live miner that are listed; the hashrate is a number as it is printed. -/
structure LiveMinerInfo where
  minerId : Bytes
  modelName : Bytes
  status : Bytes
  gpuName : Bytes
  gpuVramTotalMb : Int64
  hashrate : Number
  walletAddress : Bytes
  tokensPerTknc : Int64

namespace UniValue

def escapes (ch : UInt8) : Option Bytes :=
  if ch = 8 then some (ascii "\\b")
  else if ch = 9 then some (ascii "\\t")
  else if ch = 10 then some (ascii "\\n")
  else if ch = 12 then some (ascii "\\f")
  else if ch = 13 then some (ascii "\\r")
  else if ch = 34 then some (ascii "\\\"")
  else if ch = 92 then some (ascii "\\\\")
  else if ch.toNat < 32 ∨ ch = 127 then some (ascii "\\u00" ++ toHex 2 ch.toNat)
  else none

def jsonEscape (inS : Bytes) : Bytes :=
  inS.flatMap fun ch => (escapes ch).getD [ch]

def writeStr (val : Bytes) : Bytes :=
  34 :: (jsonEscape val ++ [34])

def writeArray (values : List Bytes) : Bytes :=
  91 :: ([44].intercalate values ++ [93])

def writeObject (members : List (Bytes × Bytes)) : Bytes :=
  123 :: ([44].intercalate (members.map fun m => writeStr m.1 ++ 58 :: m.2) ++ [125])

end UniValue

open UniValue

def minerObj (m : LiveMinerInfo) : Bytes :=
  writeObject
    [(ascii "miner_id", writeStr m.minerId),
      (ascii "model_name", writeStr m.modelName),
      (ascii "status", writeStr m.status),
      (ascii "gpu_name", writeStr m.gpuName),
      (ascii "gpu_vram_total_mb", toString64 m.gpuVramTotalMb.toInt),
      (ascii "hashrate", m.hashrate.text),
      (ascii "wallet_address", writeStr m.walletAddress),
      (ascii "tokens_per_tknc", toString64 m.tokensPerTknc.toInt)]

/-- The reply of `HandleMinersListRequest`, for the live miners in the order of their ids. -/
def minersListReply (liveMiners : List LiveMinerInfo) : Bytes :=
  writeObject [(ascii "miners", writeArray (liveMiners.map minerObj)),
    (ascii "count", toString64 liveMiners.length)]

/-! ## The registrations that are made of a text -/

structure LocalMinerEntry where
  walletAddress : Bytes
  modelName : Bytes
  gpuName : Bytes
  apiPort : UInt16
  lastSeen : Int
  online : Bool

namespace MinerLocalRegistry

structure Registration where
  wallet : Bytes
  model : Bytes
  gpu : Bytes
  deriving DecidableEq

def onlineMarker : Bytes := ascii "\"status\":\"online\""
def walletKey : Bytes := ascii "\"wallet_address\""
def modelKey : Bytes := ascii "\"model_name\""
def gpuKey : Bytes := ascii "\"gpu_name\""

/-- The text behind the next colon, without blanks and quotes in front, up to a quote. -/
def readValue (jsonBody field : Bytes) : Bytes :=
  let start := match find [58] field with
    | some colon => colon.drop 1
    | none => jsonBody -- `npos + 1` is zero
  let rest := start.dropWhile Quoting.isSkipped
  match find [34] rest with
  | some _ => rest.takeWhile (· ≠ 34)
  | none => []

def objEnd (online : Bytes) : Bytes :=
  (find [125] online).getD []

def forwardField (jsonBody online key : Bytes) : Bytes :=
  match find key online with
  | some field => if (objEnd online).length < field.length then readValue jsonBody field else []
  | none => []

def backwardField (jsonBody online key : Bytes) : Bytes :=
  match rfind key jsonBody (jsonBody.length - online.length) with
  | some field => readValue jsonBody field
  | none => []

/-- What is registered for the marker at the head of `online`. -/
def registrationAt (jsonBody online : Bytes) : Option Registration :=
  let wallet := forwardField jsonBody online walletKey
  let model := backwardField jsonBody online modelKey
  let gpu := forwardField jsonBody online gpuKey
  if wallet ≠ [] then some ⟨wallet, model, gpu⟩ else none

def registrationsFrom (jsonBody rest : Bytes) : List Registration :=
  match h : find onlineMarker rest with
  | none => []
  | some online =>
      have : online.length - onlineMarker.length < rest.length := by
        obtain ⟨hmark, hrest⟩ := prefix_of_find h
        have hpos : 0 < onlineMarker.length := by decide
        have hle := hmark.length_le
        have hsuffix := hrest.length_le
        omega
      (registrationAt jsonBody online).toList ++
        registrationsFrom jsonBody (online.drop onlineMarker.length)
termination_by rest.length

def registrations (jsonBody : Bytes) : List Registration :=
  registrationsFrom jsonBody jsonBody

abbrev Entries : Type := Bytes → Option LocalMinerEntry

def Registration.entry (r : Registration) (port : UInt16) (now : Int) : LocalMinerEntry where
  walletAddress := r.wallet
  modelName := r.model
  gpuName := r.gpu
  apiPort := port
  lastSeen := now
  online := true

def register (registry : Entries) (port : UInt16) (now : Int) (r : Registration) : Entries :=
  Function.update registry r.wallet (some (r.entry port now))

def registerAll (port : UInt16) (clock : Nat → Int) : Nat → List Registration → Entries → Entries
  | _, [], registry => registry
  | k, r :: rs, registry => registerAll port clock (k + 1) rs (register registry port (clock k) r)

def parseMinersResponse (registry : Entries) (jsonBody : Bytes) (port : UInt16)
    (clock : Nat → Int) : Entries :=
  registerAll port clock 0 (registrations jsonBody) registry

end MinerLocalRegistry

/-! ## The text of a miner -/

theorem escapes_shape {b : UInt8} {e : Bytes} (h : escapes b = some e) :
    ∃ rest, e = 92 :: rest ∧ rest ≠ [] ∧ 125 ∉ rest ∧ (b ≠ 34 → 34 ∉ rest) := by
  have hletter : ∀ c : UInt8, c ≠ 125 → c ≠ 34 →
      ∃ rest, [92, c] = 92 :: rest ∧ rest ≠ [] ∧ 125 ∉ rest ∧ (b ≠ 34 → 34 ∉ rest) := by
    intro c hbrace hquote
    refine ⟨[c], rfl, cons_ne_nil _ _, ?_, fun _ => ?_⟩
    · exact fun hmem => hbrace (mem_singleton.1 hmem).symm
    · exact fun hmem => hquote (mem_singleton.1 hmem).symm
  rw [escapes] at h
  split_ifs at h with _ _ _ _ _ hquote <;> obtain rfl := Option.some.inj h
  · exact hletter 98 (by decide) (by decide)
  · exact hletter 116 (by decide) (by decide)
  · exact hletter 110 (by decide) (by decide)
  · exact hletter 102 (by decide) (by decide)
  · exact hletter 114 (by decide) (by decide)
  · exact ⟨[34], rfl, by decide, by decide, fun hne => absurd hquote hne⟩
  · exact hletter 92 (by decide) (by decide)
  · -- the digits of the code unit
    have hdigits : ∀ d < 16, hexByte d ≠ 125 ∧ hexByte d ≠ 34 := by decide
    have hhex : ∀ c ∈ toHex 2 b.toNat, c ≠ 125 ∧ c ≠ 34 := by
      intro c hc
      obtain ⟨d, hd, rfl⟩ := mem_toHex hc
      exact hdigits d hd
    refine ⟨ascii "u00" ++ toHex 2 b.toNat, rfl, ?_, ?_, fun _ => ?_⟩
    · simp [ascii]
    · rw [mem_append, not_or]
      exact ⟨by decide, fun hmem => (hhex _ hmem).1 rfl⟩
    · rw [mem_append, not_or]
      exact ⟨by decide, fun hmem => (hhex _ hmem).2 rfl⟩

def jsonQuoting : Quoting where
  escapes := escapes
  quote := by decide
  backslash := by decide
  blank := by decide
  shape := by
    intro b e h hb
    obtain ⟨rest, he, hne, -, hquote⟩ := escapes_shape h
    exact ⟨rest, he, hne, hquote hb⟩

theorem jsonEscape_eq (s : Bytes) : jsonEscape s = jsonQuoting.text s :=
  rfl

namespace LiveMinerInfo

open MinerLocalRegistry

variable (m : LiveMinerInfo)

def fromWallet : Bytes :=
  walletKey ++ 58 :: 34 :: (jsonQuoting.text m.walletAddress ++
    34 :: (ascii ",\"tokens_per_tknc\":" ++ (toString64 m.tokensPerTknc.toInt ++ [125])))

def numbers : Bytes :=
  ascii ",\"gpu_vram_total_mb\":" ++ (toString64 m.gpuVramTotalMb.toInt ++
    (ascii ",\"hashrate\":" ++ (m.hashrate.text ++ [44])))

def gpuMember : Bytes :=
  44 :: (gpuKey ++ 58 :: 34 :: (jsonQuoting.text m.gpuName ++ 34 :: m.numbers))

def beforeModel : Bytes :=
  ascii "\x7b\"miner_id\":" ++ 34 :: (jsonQuoting.text m.minerId ++ [34, 44])

def modelMember : Bytes :=
  modelKey ++ 58 :: 34 :: (jsonQuoting.text m.modelName ++ [34, 44])

theorem minerObj_eq : minerObj m = m.beforeModel ++ (m.modelMember ++
    (ascii "\"status\":" ++ 34 :: (jsonQuoting.text m.status ++
      34 :: (m.gpuMember ++ m.fromWallet)))) := by
  have hkeys : (writeStr (ascii "miner_id") = ascii "\"miner_id\"" ∧
      writeStr (ascii "model_name") = modelKey ∧ writeStr (ascii "status") = ascii "\"status\"") ∧
      writeStr (ascii "gpu_name") = gpuKey ∧
      writeStr (ascii "gpu_vram_total_mb") = ascii "\"gpu_vram_total_mb\"" ∧
      writeStr (ascii "hashrate") = ascii "\"hashrate\"" ∧
      writeStr (ascii "wallet_address") = walletKey ∧
      writeStr (ascii "tokens_per_tknc") = ascii "\"tokens_per_tknc\"" := by
    decide
  have hfirst : ascii "\x7b\"miner_id\":" = 123 :: (ascii "\"miner_id\"" ++ [58]) := by decide
  have hstatus : ascii "\"status\":" = ascii "\"status\"" ++ [58] := by decide
  have hvram : ascii ",\"gpu_vram_total_mb\":" = 44 :: (ascii "\"gpu_vram_total_mb\"" ++ [58]) := by
    decide
  have hhashrate : ascii ",\"hashrate\":" = 44 :: (ascii "\"hashrate\"" ++ [58]) := by decide
  have htokens : ascii ",\"tokens_per_tknc\":" = 44 :: (ascii "\"tokens_per_tknc\"" ++ [58]) := by
    decide
  rw [minerObj, writeObject, beforeModel, modelMember, gpuMember, numbers, fromWallet, hfirst,
    hstatus, hvram, hhashrate, htokens]
  simp only [map_cons, map_nil, hkeys]
  simp only [intercalate, intersperse, flatten_cons, flatten_nil, writeStr,
    jsonEscape_eq, append_assoc, cons_append, nil_append, append_nil]

end LiveMinerInfo

section Searches

theorem not_mem_toString64 {c : UInt8} (hc : isDigit c = false ∧ c ≠ 45) (k : Int) :
    c ∉ toString64 k := by
  intro h
  rcases mem_toString64 h with hdigit | hsign
  · exact absurd (hc.1.symm.trans hdigit) Bool.false_ne_true
  · exact hc.2 hsign

theorem not_mem_number {c : UInt8}
    (hc : isDigit c = false ∧ c ≠ 43 ∧ c ≠ 45 ∧ c ≠ 46 ∧ c ≠ 69 ∧ c ≠ 101) (n : Number) :
    c ∉ n.text := by
  intro h
  obtain ⟨hdigit, hother⟩ := hc
  rcases n.mem_text h with hmem | hmem
  · exact absurd (hdigit.symm.trans hmem) Bool.false_ne_true
  · simp [hother] at hmem

variable (m : LiveMinerInfo)

theorem noStart_numbers (pat : Bytes)
    (hvram : passes (34 :: pat) (34 :: ascii ",\"gpu_vram_total_mb\":") = true)
    (hhashrate : passes (34 :: pat) (ascii ",\"hashrate\":") = true) (v : Bytes) :
    NoStart (34 :: pat) (34 :: m.numbers) v := by
  have htext : 34 :: m.numbers = (34 :: ascii ",\"gpu_vram_total_mb\":") ++
      (toString64 m.gpuVramTotalMb.toInt ++ (ascii ",\"hashrate\":" ++
        (m.hashrate.text ++ [44]))) := rfl
  rw [htext, noStart_append, noStart_append, noStart_append, noStart_append]
  refine ⟨of_passes hvram _, ?_, of_passes hhashrate _, ?_, ?_⟩
  · exact of_not_mem (not_mem_toString64 (by decide) _) _ _
  · exact of_not_mem (not_mem_number (by decide) _) _ _
  · exact of_not_mem (by decide) _ _

theorem brace_not_mem_escapes (b : UInt8) (e : Bytes) (h : jsonQuoting.escapes b = some e) :
    125 ∉ e := by
  intro hmem
  obtain ⟨rest, rfl, -, hbrace, -⟩ := escapes_shape h
  rcases mem_cons.1 hmem with hslash | hrest
  · cases hslash
  · exact hbrace hrest

theorem brace_mem_text_iff (s : Bytes) : 125 ∈ jsonQuoting.text s ↔ 125 ∈ s :=
  Quoting.mem_text_iff (by decide) brace_not_mem_escapes s

theorem brace_not_mem_numbers : 125 ∉ m.numbers := by
  rw [LiveMinerInfo.numbers]
  simp only [mem_append, not_or]
  refine ⟨by decide, not_mem_toString64 (by decide) _, by decide, not_mem_number (by decide) _,
    by decide⟩

end Searches

namespace MinerLocalRegistry

variable {m : LiveMinerInfo}

/-! ### The marker -/

/-- The marker as a name and what follows it. -/
theorem onlineMarker_eq :
    onlineMarker = 34 :: (ascii "status" ++ 34 :: (ascii ":" ++ ascii "\"online\"")) := by
  decide

theorem plain_status : jsonQuoting.Plain (ascii "status") := by
  decide

theorem noStart_marker_string {u v : Bytes} (s : Bytes) (hcomma : u.head? = some 44)
    (hu : NoStart onlineMarker (34 :: u) v) :
    NoStart onlineMarker (34 :: (jsonQuoting.text s ++ 34 :: u)) v := by
  rw [onlineMarker_eq] at hu ⊢
  refine Quoting.noStart_string plain_status ?_ hu
  -- a colon follows the name in the marker, and a comma the literal
  rintro - hfollows
  cases u with
  | nil => cases hcomma
  | cons c u =>
    cases hcomma
    simp [ascii, cons_prefix_cons] at hfollows

theorem noStart_marker_beforeModel (v : Bytes) : NoStart onlineMarker m.beforeModel v := by
  rw [LiveMinerInfo.beforeModel, noStart_append]
  refine ⟨of_passes (by decide) _, noStart_marker_string _ rfl ?_⟩
  exact of_passes (by decide) _

theorem noStart_marker_modelMember (v : Bytes) : NoStart onlineMarker m.modelMember v := by
  have htext : m.modelMember =
      (modelKey ++ [58]) ++ 34 :: (jsonQuoting.text m.modelName ++ [34, 44]) := by
    rw [LiveMinerInfo.modelMember, append_assoc, singleton_append]
  rw [htext, noStart_append]
  refine ⟨of_passes (by decide) _, noStart_marker_string _ rfl ?_⟩
  exact of_passes (by decide) _

theorem noStart_marker_gpuMember (v : Bytes) : NoStart onlineMarker m.gpuMember v := by
  have htext : m.gpuMember =
      (44 :: (gpuKey ++ [58])) ++ 34 :: (jsonQuoting.text m.gpuName ++ 34 :: m.numbers) := by
    rw [LiveMinerInfo.gpuMember, cons_append, append_assoc, singleton_append]
  rw [htext, noStart_append]
  refine ⟨of_passes (by decide) _, noStart_marker_string _ rfl ?_⟩
  rw [onlineMarker_eq]
  exact noStart_numbers m _ (by decide) (by decide) v

theorem noStart_marker_fromWallet (v : Bytes) : NoStart onlineMarker m.fromWallet v := by
  have htext : m.fromWallet = (walletKey ++ [58]) ++
      34 :: (jsonQuoting.text m.walletAddress ++ 34 :: (ascii ",\"tokens_per_tknc\":" ++
        (toString64 m.tokensPerTknc.toInt ++ [125]))) := by
    rw [LiveMinerInfo.fromWallet, append_assoc, singleton_append]
  rw [htext, noStart_append]
  refine ⟨of_passes (by decide) _, noStart_marker_string _ rfl ?_⟩
  rw [← cons_append, noStart_append, noStart_append]
  refine ⟨of_passes (by decide) _, ?_, of_passes (by decide) _⟩
  rw [onlineMarker_eq]
  exact of_not_mem (not_mem_toString64 (by decide) _) _ _

/-- The text from the status on has the marker exactly when the status is `online`. -/
theorem noStart_marker_status (hstatus : m.status ≠ ascii "online") {u v : Bytes}
    (hcomma : u.head? = some 44) (hu : NoStart onlineMarker (34 :: u) v) :
    NoStart onlineMarker
      (ascii "\"status\":" ++ 34 :: (jsonQuoting.text m.status ++ 34 :: u)) v := by
  have hkey : ascii "\"status\":" = 34 :: ascii "status\":" := by decide
  rw [hkey, cons_append]
  refine ⟨?_, ?_⟩
  · -- at the key itself the status decides
    have hmarker : onlineMarker =
        34 :: (ascii "status\":" ++ 34 :: (ascii "online" ++ 34 :: [])) := by decide
    rw [hmarker, cons_prefix_cons, append_assoc, prefix_append_right_inj,
      cons_append, cons_prefix_cons, append_assoc, cons_append,
      Quoting.prefix_text_iff (by decide)]
    rintro ⟨-, -, hvalue, -⟩
    exact hstatus hvalue
  · rw [noStart_append]
    exact ⟨of_passes (by decide) _, noStart_marker_string _ hcomma hu⟩

theorem registrationsFrom_of_none {jsonBody rest : Bytes} (h : find onlineMarker rest = none) :
    registrationsFrom jsonBody rest = [] := by
  rw [registrationsFrom]
  split
  · rfl
  · rename_i online hsome
    rw [h] at hsome
    cases hsome

theorem registrationsFrom_of_some {jsonBody rest online : Bytes}
    (h : find onlineMarker rest = some online) :
    registrationsFrom jsonBody rest = (registrationAt jsonBody online).toList ++
      registrationsFrom jsonBody (online.drop onlineMarker.length) := by
  rw [registrationsFrom]
  split
  · rename_i hnone
    rw [h] at hnone
    cases hnone
  · rename_i found hsome
    rw [h, Option.some.injEq] at hsome
    rw [hsome]

theorem registrationsFrom_append {u v : Bytes} (jsonBody : Bytes) (h : NoStart onlineMarker u v) :
    registrationsFrom jsonBody (u ++ v) = registrationsFrom jsonBody v := by
  have hfind := find_append_of_noStart h
  cases hv : find onlineMarker v with
  | none => rw [registrationsFrom_of_none (hfind.trans hv), registrationsFrom_of_none hv]
  | some online => rw [registrationsFrom_of_some (hfind.trans hv), registrationsFrom_of_some hv]

theorem registrationsFrom_marker (jsonBody v : Bytes) :
    registrationsFrom jsonBody (onlineMarker ++ v) =
      (registrationAt jsonBody (onlineMarker ++ v)).toList ++ registrationsFrom jsonBody v := by
  rw [registrationsFrom_of_some (find_append_self (by decide) v), drop_left]

end MinerLocalRegistry

end TKNC.Net
