import Mathlib.Logic.Equiv.Defs
import TKNC.Lib.Numeral

/-!
# ByteOrder — machine words in memory

The bytes of a number of fixed width, least significant first or last, and `Word`: a type of machine
words together with the bytes that stand for its values.  Every string of the right length stands
for exactly one value.
-/

namespace TKNC.Lib.ByteOrder

open Numeral List

/-- The `width` low bytes of `n`, least significant first. -/
def leBytes : Nat → Nat → Bytes
  | 0, _ => []
  | width + 1, n => UInt8.ofNat n :: leBytes width (n / 256)

def leValue : Bytes → Nat
  | [] => 0
  | b :: bs => b.toNat + 256 * leValue bs

@[simp]
theorem length_leBytes (width n : Nat) : (leBytes width n).length = width := by
  induction width generalizing n with
  | zero => rfl
  | succ width ih => simp [leBytes, ih]

theorem leValue_lt (bs : Bytes) : leValue bs < 256 ^ bs.length := by
  induction bs with
  | nil => decide
  | cons b bs ih =>
    have hb := b.toNat_lt
    rw [leValue, length_cons, Nat.pow_succ]
    omega

theorem leValue_leBytes (width n : Nat) : leValue (leBytes width n) = n % 256 ^ width := by
  induction width generalizing n with
  | zero => simp [leBytes, leValue, Nat.mod_one]
  | succ width ih =>
    have hpow : 256 ^ (width + 1) = 256 * 256 ^ width := Nat.pow_succ'
    rw [leBytes, leValue, ih, UInt8.toNat_ofNat', hpow, Nat.mod_mul]

theorem leValue_leBytes_of_lt {width n : Nat} (h : n < 256 ^ width) :
    leValue (leBytes width n) = n := by
  rw [leValue_leBytes, Nat.mod_eq_of_lt h]

theorem leBytes_leValue (bs : Bytes) : leBytes bs.length (leValue bs) = bs := by
  induction bs with
  | nil => rfl
  | cons b bs ih =>
    have hb := b.toNat_lt
    have hlow : UInt8.ofNat (b.toNat + 256 * leValue bs) = b := by
      apply UInt8.toNat_inj.1
      rw [UInt8.toNat_ofNat']
      omega
    have hhigh : (b.toNat + 256 * leValue bs) / 256 = leValue bs := by omega
    rw [length_cons, leValue, leBytes, hlow, hhigh, ih]

theorem leBytes_add (low high n : Nat) :
    leBytes (low + high) n = leBytes low n ++ leBytes high (n / 256 ^ low) := by
  induction low generalizing n with
  | zero => simp [leBytes]
  | succ low ih =>
    rw [Nat.succ_add, leBytes, ih, leBytes, cons_append, Nat.div_div_eq_div_mul,
      ← Nat.pow_succ']

theorem leBytes_mod (width n : Nat) : leBytes width (n % 256 ^ width) = leBytes width n := by
  have h := leBytes_leValue (leBytes width n)
  rwa [length_leBytes, leValue_leBytes] at h

/-- Bits that do not meet are added. -/
theorem or_eq_add {a b i : Nat} (ha : 2 ^ i ∣ a) (hb : b < 2 ^ i) : a ||| b = a + b := by
  obtain ⟨c, rfl⟩ := ha
  rw [Nat.two_pow_add_eq_or_of_lt hb]

/-! ## Words -/

/-- The values of a machine type and the strings of `width` bytes that stand for them. -/
structure Word (α : Type) where
  width : Nat
  encode : α → Bytes
  decode : Bytes → α
  length_encode : ∀ a, (encode a).length = width
  decode_encode : ∀ a, decode (encode a) = a
  encode_decode : ∀ bs : Bytes, bs.length = width → encode (decode bs) = bs

namespace Word

variable {α β : Type}

attribute [simp] length_encode decode_encode

def peek (w : Word α) (data : Bytes) (pos : Nat) : α :=
  w.decode ((data.drop pos).take w.width)

theorem peek_append (w : Word α) {done : Bytes} {pos : Nat} (h : done.length = pos) (a : α)
    (rest : Bytes) : w.peek (done ++ (w.encode a ++ rest)) pos = a := by
  rw [peek, drop_left' h, take_left' (w.length_encode a), w.decode_encode]

theorem peek_encode (w : Word α) (a : α) (rest : Bytes) : w.peek (w.encode a ++ rest) 0 = a :=
  w.peek_append length_nil a rest

theorem peek_append_left (w : Word α) {data : Bytes} {pos : Nat} (h : pos + w.width ≤ data.length)
    (rest : Bytes) :
    w.peek (data ++ rest) pos = w.peek data pos := by
  have hword : w.width ≤ (data.drop pos).length := by
    rw [length_drop]
    omega
  rw [peek, peek, drop_append_of_le_length (by omega), take_append_of_le_length hword]

/-- The numbers below `256 ^ width`, least significant byte first. -/
def little (width : Nat) : Word (Fin (256 ^ width)) where
  width := width
  encode n := leBytes width n
  decode bs := ⟨leValue bs % 256 ^ width, Nat.mod_lt _ (Nat.pow_pos (by decide))⟩
  length_encode n := length_leBytes width n
  decode_encode n := by
    apply Fin.ext
    change leValue (leBytes width n) % 256 ^ width = n
    rw [leValue_leBytes_of_lt n.isLt, Nat.mod_eq_of_lt n.isLt]
  encode_decode bs h := by
    have hlt : leValue bs < 256 ^ width := h ▸ leValue_lt bs
    change leBytes width (leValue bs % 256 ^ width) = bs
    rw [Nat.mod_eq_of_lt hlt, ← h, leBytes_leValue]

/-- The same bytes for the values of another type. -/
def map (w : Word α) (e : α ≃ β) : Word β where
  width := w.width
  encode b := w.encode (e.symm b)
  decode bs := e (w.decode bs)
  length_encode b := w.length_encode (e.symm b)
  decode_encode b := by rw [w.decode_encode, e.apply_symm_apply]
  encode_decode bs h := by rw [e.symm_apply_apply, w.encode_decode bs h]

def reverse (w : Word α) : Word α where
  width := w.width
  encode a := (w.encode a).reverse
  decode bs := w.decode bs.reverse
  length_encode a := by rw [List.length_reverse, w.length_encode]
  decode_encode a := by rw [List.reverse_reverse, w.decode_encode]
  encode_decode bs h := by
    rw [w.encode_decode bs.reverse (by rw [List.length_reverse, h]), List.reverse_reverse]

theorem encode_inj (w : Word α) {a b : α} : w.encode a = w.encode b ↔ a = b := by
  constructor
  · intro h
    rw [← w.decode_encode a, h, w.decode_encode]
  · rintro rfl
    rfl

def pair (w : Word α) (w' : Word β) : Word (α × β) where
  width := w.width + w'.width
  encode p := w.encode p.1 ++ w'.encode p.2
  decode bs := (w.decode (bs.take w.width), w'.decode (bs.drop w.width))
  length_encode p := by rw [List.length_append, w.length_encode, w'.length_encode]
  decode_encode p := by
    rw [List.take_left' (w.length_encode p.1), List.drop_left' (w.length_encode p.1),
      w.decode_encode, w'.decode_encode]
  encode_decode bs h := by
    have htake : (bs.take w.width).length = w.width := by rw [List.length_take]; omega
    have hdrop : (bs.drop w.width).length = w'.width := by rw [List.length_drop]; omega
    rw [w.encode_decode _ htake, w'.encode_decode _ hdrop, List.take_append_drop]

def raw (n : Nat) : Word { bs : Bytes // bs.length = n } where
  width := n
  encode bs := bs
  decode bs := if h : bs.length = n then ⟨bs, h⟩ else ⟨List.replicate n 0, List.length_replicate⟩
  length_encode bs := bs.property
  decode_encode bs := dif_pos bs.property
  encode_decode bs h := by rw [dif_pos h]

@[simp]
theorem width_raw (n : Nat) : (raw n).width = n :=
  rfl

/-! ### The fixed-width integer types -/

def u8 : Word UInt8 where
  width := 1
  encode b := [b]
  decode bs := bs.headD 0
  length_encode _ := rfl
  decode_encode _ := rfl
  encode_decode
    | [_], _ => rfl

def u16 : Word UInt16 :=
  (little 2).map
    { toFun := fun n => UInt16.ofNat n
      invFun := fun x => ⟨x.toNat, x.toNat_lt⟩
      left_inv := fun n => Fin.ext (UInt16.toNat_ofNat_of_lt n.isLt)
      right_inv := fun _ => UInt16.ofNat_toNat }

def u32 : Word UInt32 :=
  (little 4).map
    { toFun := fun n => UInt32.ofNat n
      invFun := fun x => ⟨x.toNat, x.toNat_lt⟩
      left_inv := fun n => Fin.ext (UInt32.toNat_ofNat_of_lt n.isLt)
      right_inv := fun _ => UInt32.ofNat_toNat }

def u64 : Word UInt64 :=
  (little 8).map
    { toFun := fun n => UInt64.ofNat n
      invFun := fun x => ⟨x.toNat, x.toNat_lt⟩
      left_inv := fun n => Fin.ext (UInt64.toNat_ofNat_of_lt n.isLt)
      right_inv := fun _ => UInt64.ofNat_toNat }

def signed32 : UInt32 ≃ Int32 where
  toFun := UInt32.toInt32
  invFun := Int32.toUInt32
  left_inv := UInt32.toUInt32_toInt32
  right_inv := Int32.toInt32_toUInt32

def signed64 : UInt64 ≃ Int64 where
  toFun := UInt64.toInt64
  invFun := Int64.toUInt64
  left_inv := UInt64.toUInt64_toInt64
  right_inv := Int64.toInt64_toUInt64

def i32 : Word Int32 :=
  u32.map signed32

def i64 : Word Int64 :=
  u64.map signed64

def lowHigh : UInt32 × UInt32 ≃ UInt64 where
  toFun p := UInt64.ofNat (p.1.toNat + 2 ^ 32 * p.2.toNat)
  invFun x := (UInt32.ofNat x.toNat, UInt32.ofNat (x.toNat / 2 ^ 32))
  left_inv := by
    rintro ⟨low, high⟩
    have hlow := low.toNat_lt
    have hhigh := high.toNat_lt
    refine Prod.ext (UInt32.toNat_inj.1 ?_) (UInt32.toNat_inj.1 ?_)
    · simp only [UInt32.toNat_ofNat', UInt64.toNat_ofNat']
      omega
    · simp only [UInt32.toNat_ofNat', UInt64.toNat_ofNat']
      omega
  right_inv := by
    intro x
    have hx := x.toNat_lt
    apply UInt64.toNat_inj.1
    simp only [UInt32.toNat_ofNat', UInt64.toNat_ofNat']
    omega

theorem toNat_lowHigh (p : UInt32 × UInt32) :
    (lowHigh p).toNat = p.1.toNat + 2 ^ 32 * p.2.toNat := by
  have hlow := p.1.toNat_lt
  have hhigh := p.2.toNat_lt
  simp only [lowHigh, Equiv.coe_fn_mk, UInt64.toNat_ofNat']
  omega

theorem encode_lowHigh (p : UInt32 × UInt32) :
    u64.encode (lowHigh p) = u32.encode p.1 ++ u32.encode p.2 := by
  have hlow := p.1.toNat_lt
  have hfirst : leBytes 4 (p.1.toNat + 2 ^ 32 * p.2.toNat) = leBytes 4 p.1.toNat := by
    rw [← leBytes_mod]
    congr 1
    omega
  have hsecond : (p.1.toNat + 2 ^ 32 * p.2.toNat) / 256 ^ 4 = p.2.toNat := by omega
  change leBytes (4 + 4) (lowHigh p).toNat = leBytes 4 p.1.toNat ++ leBytes 4 p.2.toNat
  rw [toNat_lowHigh, leBytes_add, hfirst, hsecond]

@[simp]
theorem width_u8 : u8.width = 1 :=
  rfl

@[simp]
theorem width_u16 : u16.width = 2 :=
  rfl

@[simp]
theorem width_u32 : u32.width = 4 :=
  rfl

@[simp]
theorem width_u64 : u64.width = 8 :=
  rfl

@[simp]
theorem width_i32 : i32.width = 4 :=
  rfl

@[simp]
theorem width_i64 : i64.width = 8 :=
  rfl

@[simp]
theorem width_reverse (w : Word α) : w.reverse.width = w.width :=
  rfl

example : i32.encode (-2) = [254, 255, 255, 255] ∧ u32.reverse.encode 258 = [0, 0, 1, 2] := by
  decide

end Word

end TKNC.Lib.ByteOrder
