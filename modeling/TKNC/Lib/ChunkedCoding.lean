import TKNC.Lib.Numeral
import TKNC.Lib.Transducer

/-!
# ChunkedCoding — HTTP responses whose body comes in chunks

A header block ends with the first empty line.  The body behind it is a list of chunks, each with
its size in front, and ends with a chunk of size zero.  `ReadsChunked` says what a machine does with
the parts of such a body; then it writes the payloads and nothing else (`ReadsChunked.exact`).
-/

namespace TKNC.Lib.ChunkedCoding

open Numeral Transducer List

def lineBreak : Bytes := [13, 10]

/-- The empty line behind the header of a message. -/
def headerEnd : Bytes := [13, 10, 13, 10]

/-- The size of a chunk, with what may stand behind the number: a chunk extension, or blanks. -/
structure SizeLine (size : Nat) where
  digits : Bytes
  extension : Bytes
  digits_ne : digits ≠ []
  digits_hex : ∀ b ∈ digits, (hexValue b).isSome
  value : ofHex digits = some size
  fits : size < UInt64.size
  stops : ∀ b ∈ extension.head?, hexValue b = none ∧ b ≠ 120 ∧ b ≠ 88
  plain : ∀ b ∈ extension, b ≠ 13 ∧ b ≠ 10

def SizeLine.text {size : Nat} (line : SizeLine size) : Bytes :=
  line.digits ++ line.extension

structure Chunk where
  payload : Bytes
  payload_ne : payload ≠ []
  line : SizeLine payload.length

def Chunk.text (chunk : Chunk) : Bytes :=
  chunk.line.text ++ lineBreak ++ chunk.payload ++ lineBreak

structure HeaderBlock where
  bytes : Bytes
  ends : (lineBreak ++ lineBreak) <:+ bytes
  first : ∀ p, p <+: bytes → (lineBreak ++ lineBreak) <:+ p → p = bytes

structure Response where
  header : HeaderBlock
  chunks : List Chunk
  last : SizeLine 0
  trailer : Bytes

def Response.text (r : Response) : Bytes :=
  r.header.bytes ++ (r.chunks.flatMap Chunk.text ++ (r.last.text ++ lineBreak ++ r.trailer))

def Response.payload (r : Response) : Bytes :=
  r.chunks.flatMap Chunk.payload

theorem SizeLine.plain_text {size : Nat} (line : SizeLine size) {b : UInt8} (h : b ∈ line.text) :
    b ≠ 13 ∧ b ≠ 10 := by
  rcases mem_append.1 h with hdigit | hextension
  · have hhex := line.digits_hex b hdigit
    constructor <;> rintro rfl <;> cases hhex
  · exact line.plain b hextension

theorem SizeLine.strtoul16_text {size : Nat} (line : SizeLine size) :
    strtoul16 line.text = size :=
  strtoul16_append line.digits_ne line.digits_hex line.value line.fits line.stops

theorem SizeLine.strtoul16_text_lineBreak {size : Nat} (line : SizeLine size) :
    strtoul16 (line.text ++ lineBreak) = size := by
  rw [SizeLine.text, append_assoc]
  refine strtoul16_append line.digits_ne line.digits_hex line.value line.fits ?_
  intro b hb
  cases hextension : line.extension with
  | nil =>
    rw [hextension] at hb
    cases Option.mem_some.1 hb
    decide
  | cons c extension =>
    have hstops := line.stops
    rw [hextension] at hb hstops
    exact hstops b hb

/-! ## Readers -/

/-- The states of a reader in front of a size, inside a chunk with `n + 1` bytes to come, behind its
payload and behind the last size. -/
structure ReadsChunked {σ : Type*} (feed : σ → UInt8 → σ × Bytes) (size : σ) (data : Nat → σ)
    (behind done : σ) : Prop where
  sizeLine : ∀ n (line : SizeLine (n + 1)), run feed size (line.text ++ lineBreak) = (data n, [])
  lastLine : ∀ line : SizeLine 0, run feed size (line.text ++ lineBreak) = (done, [])
  data_zero : ∀ b, feed (data 0) b = (behind, [b])
  data_succ : ∀ n b, feed (data (n + 1)) b = (data n, [b])
  behind : run feed behind lineBreak = (size, [])
  done : ∀ b, feed done b = (done, [])

section

variable {σ : Type*} {feed : σ → UInt8 → σ × Bytes} {size behind done : σ} {data : Nat → σ}
variable (h : ReadsChunked feed size data behind done)

include h

theorem ReadsChunked.chunk (chunk : Chunk) : run feed size chunk.text = (size, chunk.payload) := by
  rcases chunk with ⟨payload, payload_ne, line⟩
  obtain ⟨n, hn⟩ := Nat.exists_eq_succ_of_ne_zero (mt length_eq_zero_iff.1 payload_ne)
  have hsize : run feed size (line.text ++ lineBreak) = (data n, []) := by
    generalize payload.length = length at line hn
    subst hn
    exact h.sizeLine n line
  have hpayload := run_countdown feed data behind h.data_zero h.data_succ hn.le payload_ne
  rw [if_pos hn] at hpayload
  have hread := run_trans (run_trans hsize hpayload) h.behind
  rw [append_nil] at hread
  exact hread

theorem ReadsChunked.chunks (chunks : List Chunk) :
    run feed size (chunks.flatMap Chunk.text) = (size, chunks.flatMap Chunk.payload) := by
  induction chunks with
  | nil => rfl
  | cons chunk chunks ih => exact run_trans (h.chunk chunk) ih

theorem ReadsChunked.exact (r : Response) {start : σ}
    (hheader : run feed start r.header.bytes = (size, [])) :
    run feed start r.text = (done, r.payload) := by
  have hlast := run_trans (h.lastLine r.last) (run_of_absorbing h.done r.trailer)
  have hread := run_trans hheader (run_trans (h.chunks r.chunks) hlast)
  rw [append_nil, append_nil, nil_append] at hread
  exact hread

end

theorem run_header {σ : Type*} {feed : σ → UInt8 → σ × Bytes} {header : Bytes → σ} {next : σ}
    (block : HeaderBlock)
    (hcollect : ∀ line b, ¬ (lineBreak ++ lineBreak) <:+ line ++ [b] →
      feed (header line) b = (header (line ++ [b]), []))
    (hends : ∀ line b, line ++ [b] = block.bytes → feed (header line) b = (next, [])) :
    run feed (header []) block.bytes = (next, []) := by
  have hread (line rest : Bytes) (hne : rest ≠ []) (hsplit : line ++ rest = block.bytes) :
      run feed (header line) rest = (next, []) := by
    induction rest generalizing line with
    | nil => exact absurd rfl hne
    | cons b rest ih =>
      have hnext : line ++ [b] ++ rest = block.bytes := by
        rw [append_assoc]
        exact hsplit
      by_cases hnil : rest = []
      · subst hnil
        rw [run_singleton, hends line b hsplit]
      · have hopen : ¬ (lineBreak ++ lineBreak) <:+ line ++ [b] := by
          intro hsuffix
          have hwhole := block.first _ ⟨rest, hnext⟩ hsuffix
          rw [← hwhole] at hnext
          exact hnil (append_right_eq_self.1 hnext)
        rw [run, hcollect line b hopen, ih (line ++ [b]) hnil hnext]
        rfl
  refine hread [] block.bytes ?_ rfl
  intro hnil
  have hends := block.ends
  rw [hnil, suffix_nil] at hends
  cases hends

end TKNC.Lib.ChunkedCoding
