import TKNC.Lib.ByteOrder

/-!
# Wire — encoders and decoders that walk a position through a byte vector

An encoder (`Writer`) grows its vector and copies bytes to its position; the two are advanced
separately, so that it may write over bytes it has written before.

A decoder (`Reader`) reads the vector at its position.  It gives up (`rejected`) where the code
tests a size and returns; a read of bytes that the vector does not have is `outOfBounds`, whatever
the language makes of it.  A range that no string can hold is not read at all: the library throws
(`lengthError`).  Sizes are `size_t`: the sum of a position and a length is taken modulo `2 ^ 64`.

* `Passes r enc rest next` — wherever the bytes `enc` stand with `rest` behind them, `r` runs past
  them and goes on as `next`; `Reads r enc rest a` if it then returns `a`.  They are composed by
  `Reads.bind`;
* `InBounds r data pos` — the run of `r` from `pos` stays inside `data`; computed by the
  `inBounds_…_bind` equivalences.
-/

namespace TKNC.Lib

open ByteOrder Numeral List

/-! ## Encoders -/

structure Writer where
  data : Bytes
  pos : Nat

namespace Writer

variable {α : Type}

def atEnd (data : Bytes) : Writer :=
  { data := data, pos := data.length }

@[simp]
theorem data_atEnd (data : Bytes) : (atEnd data).data = data :=
  rfl

def grow (w : Writer) (n : Nat) : Writer :=
  { w with data := w.data ++ List.replicate n 0 }

def copy (w : Writer) (bs : Bytes) : Writer :=
  { w with data := w.data.take w.pos ++ bs ++ w.data.drop (w.pos + bs.length) }

def advance (w : Writer) (n : Nat) : Writer :=
  { w with pos := w.pos + n }

def putWord (w : Writer) (word : Word α) (a : α) : Writer :=
  ((w.grow word.width).copy (word.encode a)).advance word.width

/-- A length and that many bytes: the vector grows by both at once. -/
def putString (w : Writer) (bs : Bytes) : Writer :=
  let w := ((w.grow (8 + bs.length)).copy (Word.u64.encode (UInt64.ofNat bs.length))).advance 8
  (w.copy bs).advance bs.length

theorem copy_append (front : Bytes) {hole bs : Bytes} (h : hole.length = bs.length) (rest : Bytes) :
    ({ data := front ++ (hole ++ rest), pos := front.length } : Writer).copy bs =
      { data := front ++ (bs ++ rest), pos := front.length } := by
  simp [copy, ← h]

@[simp]
theorem atEnd_putWord (data : Bytes) (word : Word α) (a : α) :
    (atEnd data).putWord word a = atEnd (data ++ word.encode a) := by
  simp [putWord, atEnd, grow, copy, advance]

/-- The vector after the length of a string was written, with room for the string. -/
theorem atEnd_putLength (data : Bytes) (n : Nat) (len : UInt64) :
    (((atEnd data).grow (8 + n)).copy (Word.u64.encode len)).advance 8 =
      { data := data ++ Word.u64.encode len ++ replicate n 0
        pos := (data ++ Word.u64.encode len).length } := by
  have hlen : (Word.u64.encode len).length = 8 := Word.u64.length_encode len
  have hgrow : (atEnd data).grow (8 + n) =
      { data := data ++ (replicate 8 0 ++ replicate n 0), pos := data.length } := by
    rw [replicate_append_replicate]
    rfl
  rw [hgrow, copy_append data (by rw [hlen, length_replicate])]
  simp [advance, hlen]

theorem copy_replicate (front bs : Bytes) :
    ({ data := front ++ replicate bs.length 0, pos := front.length } : Writer).copy bs =
      { data := front ++ bs, pos := front.length } := by
  have hroom : (replicate bs.length (0 : UInt8)).length = bs.length := length_replicate
  simpa using copy_append front hroom []

@[simp]
theorem atEnd_putString (data bs : Bytes) :
    (atEnd data).putString bs =
      atEnd (data ++ (Word.u64.encode (UInt64.ofNat bs.length) ++ bs)) := by
  rw [putString, atEnd_putLength, copy_replicate]
  simp [advance, atEnd, Nat.add_assoc]

end Writer

/-! ## Decoders -/

inductive Fault where
  | rejected
  | outOfBounds
  | lengthError
  deriving DecidableEq, Repr

def Reader (α : Type) : Type :=
  Bytes → Nat → Except Fault (α × Nat)

namespace Reader

variable {α β : Type}

instance : Monad Reader where
  pure a := fun _ pos => .ok (a, pos)
  bind r f := fun data pos =>
    match r data pos with
    | .error fault => .error fault
    | .ok (a, pos') => f a data pos'

def word (w : Word α) : Reader α := fun data pos =>
  if pos + w.width ≤ data.length then
    .ok (w.peek data pos, pos + w.width)
  else
    .error .outOfBounds

/-- `assign` of `len` bytes, and the position behind them. -/
def bytes (len : Nat) : Reader Bytes := fun data pos =>
  if pos + len ≤ data.length then
    .ok ((data.drop pos).take len, pos + len)
  else if len < 2 ^ 63 then
    .error .outOfBounds
  else
    .error .lengthError

def fits (len : Nat) : Reader Unit := fun data pos =>
  if data.length < (pos + len) % 2 ^ 64 then .error .rejected else .ok ((), pos)

def atLeast (size : Nat) : Reader Unit := fun data pos =>
  if data.length < size then .error .rejected else .ok ((), pos)

def require (condition : Bool) : Reader Unit := fun _ pos =>
  if condition then .ok ((), pos) else .error .rejected

def remaining : Reader Nat := fun data pos =>
  .ok (data.length - pos, pos)

/-- A word that older encoders leave out: `if (pos + width <= data.size())`. -/
def optionalWord (w : Word α) (default : α) : Reader α := fun data pos =>
  if (pos + w.width) % 2 ^ 64 ≤ data.length then word w data pos else .ok (default, pos)

def lengthPrefixed (w : Word α) (len : α → Nat) : Reader Bytes := do
  let n ← word w
  fits (len n)
  bytes (len n)

def decode (r : Reader α) (data : Bytes) : Except Fault α :=
  (r data 0).map Prod.fst

@[simp]
theorem pure_apply (a : α) (data : Bytes) (pos : Nat) :
    (pure a : Reader α) data pos = .ok (a, pos) :=
  rfl

theorem bind_apply (r : Reader α) (f : α → Reader β) (data : Bytes) (pos : Nat) :
    (r >>= f) data pos =
      match r data pos with
      | .error fault => .error fault
      | .ok (a, pos') => f a data pos' :=
  rfl

instance : LawfulMonad Reader :=
  LawfulMonad.mk' Reader
    (by
      intro α r
      funext data pos
      change (match r data pos with | .error fault => _ | .ok (a, pos') => _) = r data pos
      cases r data pos <;> rfl)
    (by intros; rfl)
    (by
      intro α β γ r g f
      funext data pos
      simp only [bind_apply]
      cases r data pos <;> rfl)

variable {r : Reader α} {data : Bytes}

theorem bind_eq_ok {f : α → Reader β} {pos pos' : Nat} {b : β} :
    (r >>= f) data pos = .ok (b, pos') ↔
      ∃ a mid, r data pos = .ok (a, mid) ∧ f a data mid = .ok (b, pos') := by
  rw [bind_apply]
  cases h : r data pos with
  | error fault => simp
  | ok p => exact ⟨fun hf => ⟨p.1, p.2, rfl, hf⟩, by rintro ⟨a, mid, hr, hf⟩; cases hr; exact hf⟩

section EqOk

variable {data : Bytes} {pos pos' : Nat}

theorem pure_eq_ok {a b : α} :
    (pure a : Reader α) data pos = .ok (b, pos') ↔ b = a ∧ pos' = pos := by
  rw [pure_apply, Except.ok.injEq, Prod.mk.injEq, eq_comm, @eq_comm _ pos']

theorem word_eq_ok {w : Word α} {a : α} :
    word w data pos = .ok (a, pos') ↔
      pos + w.width ≤ data.length ∧ a = w.peek data pos ∧ pos' = pos + w.width := by
  rw [word]
  split <;> simp [*, eq_comm]

theorem bytes_eq_ok {len : Nat} {bs : Bytes} :
    bytes len data pos = .ok (bs, pos') ↔
      pos + len ≤ data.length ∧ bs = (data.drop pos).take len ∧ pos' = pos + len := by
  rw [bytes]
  split_ifs <;> simp [*, eq_comm]

theorem atLeast_eq_ok {size : Nat} {u : Unit} :
    atLeast size data pos = .ok (u, pos') ↔ size ≤ data.length ∧ pos' = pos := by
  rw [atLeast]
  split <;> simp [eq_comm] <;> omega

theorem require_eq_ok {condition : Bool} {u : Unit} :
    require condition data pos = .ok (u, pos') ↔ condition = true ∧ pos' = pos := by
  rw [require]
  split <;> simp [*, eq_comm]

end EqOk

variable {a : α}

theorem decode_eq_ok :
    r.decode data = .ok a ↔ ∃ pos, r data 0 = .ok (a, pos) := by
  rw [decode]
  cases h : r data 0 with
  | error fault => simp [Except.map]
  | ok p => simp [Except.map, Prod.ext_iff]

/-! ## Reading back what was written -/

/-- Wherever `enc` stands with `rest` behind it, `r` runs past `enc` and goes on as `next`. -/
def Passes (r : Reader α) (enc rest : Bytes) (next : Reader α) : Prop :=
  ∀ done : Bytes, (done ++ (enc ++ rest)).length < 2 ^ 64 →
    r (done ++ (enc ++ rest)) done.length = next (done ++ (enc ++ rest)) (done ++ enc).length

/-- Wherever `enc` stands with `rest` behind it, `r` reads `a` and stops behind `enc`. -/
abbrev Reads (r : Reader α) (enc rest : Bytes) (a : α) : Prop :=
  Passes r enc rest (pure a)

theorem Passes.refl (r : Reader α) (rest : Bytes) : Passes r [] rest r := by
  intro done _
  rw [append_nil]

theorem Passes.trans {r next next' : Reader α} {enc enc' rest : Bytes}
    (h : Passes r enc (enc' ++ rest) next) (h' : Passes next enc' rest next') :
    Passes r (enc ++ enc') rest next' := by
  intro done hsize
  have hnext := h' (done ++ enc)
  rw [append_assoc] at hsize ⊢
  rw [append_assoc] at hnext
  rw [h done hsize, hnext hsize, append_assoc]

theorem Reads.bind {f : α → Reader β} {next : Reader β} {enc enc' rest : Bytes}
    (h : Reads r enc (enc' ++ rest) a) (h' : Passes (f a) enc' rest next) :
    Passes (r >>= f) (enc ++ enc') rest next := by
  have hfirst : Passes (r >>= f) enc (enc' ++ rest) (f a) := by
    intro done hsize
    rw [bind_apply, h done hsize]
    rfl
  exact hfirst.trans h'

variable {enc rest : Bytes}

theorem Reads.test {f : α → Reader β} {next : Reader β} (h : Reads r [] (enc ++ rest) a)
    (h' : Passes (f a) enc rest next) :
    Passes (r >>= f) enc rest next :=
  h.bind h'

theorem Reads.last {f : α → Reader β} (h : Reads r enc rest a)
    : Passes (r >>= f) enc rest (f a) := by
  have hbind : Passes (r >>= f) (enc ++ []) rest (f a) := Reads.bind h (Passes.refl _ rest)
  rwa [append_nil] at hbind

theorem Passes.run {r next : Reader α} (h : Passes r enc rest next)
    (hsize : (enc ++ rest).length < 2 ^ 64) : r (enc ++ rest) 0 = next (enc ++ rest) enc.length :=
  h [] hsize

theorem Reads.decode (h : Reads r data [] a) (hsize : data.length < 2 ^ 64)
    : r.decode data = .ok a := by
  have hread := h.run (by rwa [append_nil])
  rw [append_nil] at hread
  rw [Reader.decode, hread]
  rfl

theorem Reads.word (w : Word α) (a : α) (rest : Bytes) : Reads (word w) (w.encode a) rest a := by
  intro done _
  simp [Reader.word, w.peek_append rfl]

theorem Reads.bytes (bs rest : Bytes) : Reads (bytes bs.length) bs rest bs := by
  intro done _
  simp [Reader.bytes]

theorem Reads.fits {len : Nat} {rest : Bytes} (h : len ≤ rest.length) :
    Reads (fits len) [] rest () := by
  intro done hsize
  rw [nil_append, length_append] at hsize
  have hfit : ¬(done ++ rest).length < (done.length + len) % 2 ^ 64 := by
    rw [length_append]
    omega
  simp only [Reader.fits, nil_append, append_nil, if_neg hfit, pure_apply]

theorem Reads.atLeast {size : Nat} {rest : Bytes} (h : size ≤ rest.length) :
    Reads (atLeast size) [] rest () := by
  intro done _
  have hsize : ¬(done ++ rest).length < size := by
    rw [length_append]
    omega
  simp only [Reader.atLeast, nil_append, append_nil, if_neg hsize, pure_apply]

theorem Reads.optionalWord (w : Word α) (default a : α) (rest : Bytes) :
    Reads (optionalWord w default) (w.encode a) rest a := by
  intro done hsize
  have hwidth := w.length_encode a
  have hfit : (done.length + w.width) % 2 ^ 64 ≤ (done ++ (w.encode a ++ rest)).length := by
    simp only [length_append] at hsize ⊢
    omega
  rw [Reader.optionalWord, if_pos hfit]
  exact Reads.word w a rest done hsize

theorem Reads.remaining (rest : Bytes) : Reads remaining [] rest rest.length := by
  intro done _
  simp [Reader.remaining]

theorem Reads.lengthPrefixed {w : Word α} {len : α → Nat} {n : α} {bs : Bytes}
    (hn : len n = bs.length) (rest : Bytes) :
    Reads (lengthPrefixed w len) (w.encode n ++ bs) rest bs := by
  have hbody : Reads (Reader.fits (len n) >>= fun _ => Reader.bytes (len n)) bs rest bs := by
    rw [hn]
    exact (Reads.fits (by simp)).test (Reads.bytes bs rest)
  exact (Reads.word w n (bs ++ rest)).bind hbody

/-! ## Staying inside the vector -/

/-- The run of `r` from `pos` reads no byte that the vector does not have. -/
def InBounds (r : Reader α) (data : Bytes) (pos : Nat) : Prop :=
  r data pos ≠ .error .outOfBounds

theorem inBounds_pure (a : α) (data : Bytes) (pos : Nat) : InBounds (pure a) data pos := by
  rintro ⟨⟩

/-- The decoder meets no range that is too long for a string. -/
def NoThrow (r : Reader α) : Prop :=
  ∀ data pos, r data pos ≠ .error .lengthError

theorem NoThrow.bind {f : α → Reader β} (hr : NoThrow r) (hf : ∀ a, NoThrow (f a)) :
    NoThrow (r >>= f) := by
  intro data pos
  rw [bind_apply]
  cases h : r data pos with
  | error fault =>
    rintro ⟨⟩
    exact hr data pos h
  | ok p => exact hf p.1 data p.2

theorem noThrow_pure (a : α) : NoThrow (pure a) := by
  rintro data pos ⟨⟩

theorem noThrow_word (w : Word α) : NoThrow (word w) := by
  intro data pos
  rw [word]
  split <;> rintro ⟨⟩

theorem noThrow_atLeast (size : Nat) : NoThrow (atLeast size) := by
  intro data pos
  rw [atLeast]
  split <;> rintro ⟨⟩

theorem noThrow_require (condition : Bool) : NoThrow (require condition) := by
  intro data pos
  rw [require]
  split <;> rintro ⟨⟩

theorem noThrow_bytes {len : Nat} (h : len < 2 ^ 63) : NoThrow (bytes len) := by
  intro data pos
  rw [bytes, if_pos h]
  split <;> rintro ⟨⟩

theorem decode_eq_rejected (hbounds : InBounds r data 0) (hthrow : NoThrow r)
    (h : ∀ a, r.decode data ≠ .ok a) : r.decode data = .error .rejected := by
  unfold decode at h ⊢
  cases hrun : r data 0 with
  | ok p => exact absurd (by rw [hrun]; rfl) (h p.1)
  | error fault =>
    cases fault with
    | rejected => rfl
    | outOfBounds => exact absurd hrun hbounds
    | lengthError => exact absurd hrun (hthrow data 0)

section Bind

variable {f : α → Reader β} {data : Bytes} {pos : Nat}

variable {r : Reader α}

theorem inBounds_bind_of_ok {a : α} {pos' : Nat} (h : r data pos = .ok (a, pos')) :
    InBounds (r >>= f) data pos ↔ InBounds (f a) data pos' := by
  rw [InBounds, bind_apply, h, InBounds]

theorem inBounds_bind_of_error {fault : Fault} (h : r data pos = .error fault)
    (hfault : fault ≠ .outOfBounds) : InBounds (r >>= f) data pos := by
  rw [InBounds, bind_apply, h]
  rintro ⟨⟩
  exact hfault rfl

theorem not_inBounds_bind (h : r data pos = .error .outOfBounds) :
    ¬InBounds (r >>= f) data pos := by
  rw [InBounds, bind_apply, h]
  exact fun hne => hne rfl

theorem inBounds_word_bind {w : Word α} :
    InBounds (word w >>= f) data pos ↔
      pos + w.width ≤ data.length ∧ InBounds (f (w.peek data pos)) data (pos + w.width) := by
  by_cases h : pos + w.width ≤ data.length
  · rw [inBounds_bind_of_ok (if_pos h), and_iff_right h]
  · exact iff_of_false (not_inBounds_bind (if_neg h)) fun hand => h hand.1

theorem inBounds_bytes_bind {len : Nat} {f : Bytes → Reader β} :
    InBounds (bytes len >>= f) data pos ↔
      (len < 2 ^ 63 → pos + len ≤ data.length) ∧
        (pos + len ≤ data.length → InBounds (f ((data.drop pos).take len)) data (pos + len)) := by
  by_cases hfit : pos + len ≤ data.length
  · rw [inBounds_bind_of_ok (if_pos hfit), and_iff_right fun _ => hfit, imp_iff_right hfit]
  by_cases hlen : len < 2 ^ 63
  · refine iff_of_false (not_inBounds_bind ?_) fun h => hfit (h.1 hlen)
    rw [bytes, if_neg hfit, if_pos hlen]
  · have hthrow : bytes len data pos = .error .lengthError := by
      rw [bytes, if_neg hfit, if_neg hlen]
    exact iff_of_true (inBounds_bind_of_error hthrow (by decide))
      ⟨(absurd · hlen), (absurd · hfit)⟩

theorem inBounds_fits_bind {len : Nat} {f : Unit → Reader β} :
    InBounds (fits len >>= f) data pos ↔
      ((pos + len) % 2 ^ 64 ≤ data.length → InBounds (f ()) data pos) := by
  by_cases h : data.length < (pos + len) % 2 ^ 64
  · exact iff_of_true (inBounds_bind_of_error (if_pos h) (by decide)) fun hfit =>
      absurd hfit (by omega)
  · rw [inBounds_bind_of_ok (if_neg h), imp_iff_right (by omega)]

theorem inBounds_atLeast_bind {size : Nat} {f : Unit → Reader β} :
    InBounds (atLeast size >>= f) data pos ↔ (size ≤ data.length → InBounds (f ()) data pos) := by
  by_cases h : data.length < size
  · exact iff_of_true (inBounds_bind_of_error (if_pos h) (by decide)) fun hsize =>
      absurd hsize (by omega)
  · rw [inBounds_bind_of_ok (if_neg h), imp_iff_right (by omega)]

theorem inBounds_require_bind {condition : Bool} {f : Unit → Reader β} :
    InBounds (require condition >>= f) data pos ↔
      (condition = true → InBounds (f ()) data pos) := by
  by_cases h : condition = true
  · rw [inBounds_bind_of_ok (if_pos h), imp_iff_right h]
  · exact iff_of_true (inBounds_bind_of_error (if_neg h) (by decide)) fun hc => absurd hc h

theorem inBounds_remaining_bind {f : Nat → Reader β} :
    InBounds (remaining >>= f) data pos ↔ InBounds (f (data.length - pos)) data pos :=
  inBounds_bind_of_ok rfl

theorem inBounds_optionalWord_bind {w : Word α} {default : α} (h : pos + w.width < 2 ^ 64)
    (hf : ∀ a pos', InBounds (f a) data pos') :
    InBounds (optionalWord w default >>= f) data pos := by
  by_cases hfit : (pos + w.width) % 2 ^ 64 ≤ data.length
  · have hread : optionalWord w default data pos = .ok (w.peek data pos, pos + w.width) := by
      rw [optionalWord, if_pos hfit, word, if_pos (by rwa [Nat.mod_eq_of_lt h] at hfit)]
    exact (inBounds_bind_of_ok hread).2 (hf _ _)
  · exact (inBounds_bind_of_ok (if_neg hfit)).2 (hf _ _)

/-- A length that leads past the end is refused, by the test or, if the sum wraps around, by the
library. -/
theorem inBounds_lengthPrefixed_bind {w : Word α} {len : α → Nat} (hlen : ∀ a, len a < 2 ^ 64)
    {f : Bytes → Reader β} (hsize : data.length < 2 ^ 63) :
    InBounds (lengthPrefixed w len >>= f) data pos ↔
      pos + w.width ≤ data.length ∧
        (pos + w.width + len (w.peek data pos) ≤ data.length →
          InBounds (f ((data.drop (pos + w.width)).take (len (w.peek data pos)))) data
            (pos + w.width + len (w.peek data pos))) := by
  have hn := hlen (w.peek data pos)
  rw [lengthPrefixed, bind_assoc, inBounds_word_bind]
  refine and_congr_right fun hword => ?_
  rw [bind_assoc, inBounds_fits_bind, inBounds_bytes_bind]
  constructor
  · intro h hfit
    exact (h (by omega)).2 hfit
  · intro h hfits
    -- a sum that wraps around has a summand that is too long
    exact ⟨by omega, h⟩

end Bind

end Reader
end TKNC.Lib
