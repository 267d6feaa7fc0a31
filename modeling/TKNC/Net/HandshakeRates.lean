import TKNC.Net.P2PLLM

/-!
# HandshakeRates — the rates of a handshake on hosts of either byte order

`HtoN32` and `HtoN64` store bytes and read them back as a word, or the other way round, so what they
compute depends on the byte order of the host.  Here the host is a parameter; `P2PLLM` has the
frames of little-endian hosts.

The lengths of strings are in network order on every host.  A rate is only on big-endian hosts:
`HtoN64` swaps each half of the word and leaves the halves in their places, where a little-endian
host has the low half first.
-/

namespace TKNC.Net

open Lib Lib.ByteOrder Lib.ByteOrder.Word Lib.Numeral
open Reader (Passes Reads)

inductive HostOrder where
  | little
  | big
  deriving DecidableEq, Repr

namespace HostOrder

def word32 : HostOrder → Word UInt32
  | .little => u32
  | .big => u32.reverse

def word64 : HostOrder → Word UInt64
  | .little => u64
  | .big => u64.reverse

@[simp]
theorem width_word32 (host : HostOrder) : host.word32.width = 4 := by
  cases host <;> rfl

@[simp]
theorem width_word64 (host : HostOrder) : host.word64.width = 8 := by
  cases host <;> rfl

end HostOrder

open HostOrder

def htoN32 (host : HostOrder) (val : UInt32) : UInt32 :=
  host.word32.decode
    [((val >>> 24) &&& 0xFF).toUInt8, ((val >>> 16) &&& 0xFF).toUInt8,
      ((val >>> 8) &&& 0xFF).toUInt8, (val &&& 0xFF).toUInt8]

def ntoH32 (host : HostOrder) (val : UInt32) : UInt32 :=
  match host.word32.encode val with
  | [b0, b1, b2, b3] =>
      (b0.toUInt32 <<< 24) ||| (b1.toUInt32 <<< 16) ||| (b2.toUInt32 <<< 8) ||| b3.toUInt32
  | _ => 0

def htoN64 (host : HostOrder) (val : UInt64) : UInt64 :=
  let hi := (val >>> 32).toUInt32
  let lo := (val &&& 0xFFFFFFFF).toUInt32
  ((htoN32 host hi).toUInt64 <<< 32) ||| (htoN32 host lo).toUInt64

def ntoH64 (host : HostOrder) (val : UInt64) : UInt64 :=
  let hi := (val >>> 32).toUInt32
  let lo := (val &&& 0xFFFFFFFF).toUInt32
  ((ntoH32 host hi).toUInt64 <<< 32) ||| (ntoH32 host lo).toUInt64

example : htoN64 .little 1 = 0x01000000 ∧ htoN64 .big 1 = 1 := by decide

/-! ## 32 bits -/

section Bits

/-- The four bytes that `HtoN32` stores. -/
theorem shifted_eq_encode (val : UInt32) :
    [((val >>> 24) &&& 0xFF).toUInt8, ((val >>> 16) &&& 0xFF).toUInt8,
      ((val >>> 8) &&& 0xFF).toUInt8, (val &&& 0xFF).toUInt8] = u32.reverse.encode val := by
  have hmask : ∀ n : Nat, n &&& 255 = n % 256 := fun n => Nat.and_two_pow_sub_one_eq_mod n 8
  have hlow : ∀ x : UInt32, (x &&& 0xFF).toUInt8 = UInt8.ofNat x.toNat := by
    intro x
    apply UInt8.toNat_inj.1
    simp [hmask]
  change _ = (leBytes 4 val.toNat).reverse
  simp [hlow, leBytes, Nat.shiftRight_eq_div_pow, Nat.div_div_eq_div_mul]

theorem combined_eq_decode (b0 b1 b2 b3 : UInt8) :
    (b0.toUInt32 <<< 24) ||| (b1.toUInt32 <<< 16) ||| (b2.toUInt32 <<< 8) ||| b3.toUInt32 =
      u32.reverse.decode [b0, b1, b2, b3] := by
  have h0 := b0.toNat_lt
  have h1 := b1.toNat_lt
  have h2 := b2.toNat_lt
  have h3 := b3.toNat_lt
  have hvalue : (u32.reverse.decode [b0, b1, b2, b3]).toNat =
      b0.toNat * 2 ^ 24 + b1.toNat * 2 ^ 16 + b2.toNat * 2 ^ 8 + b3.toNat := by
    change (UInt32.ofNat (leValue [b3, b2, b1, b0] % 256 ^ 4)).toNat = _
    simp only [leValue, UInt32.toNat_ofNat']
    omega
  -- a byte that is shifted by at most 24 places stays in the word
  have hshift : ∀ b : UInt8, ∀ k ≤ 24, (b.toNat <<< k) % 2 ^ 32 = b.toNat * 2 ^ k := by
    intro b k hk
    rw [Nat.shiftLeft_eq, Nat.mod_eq_of_lt]
    calc
      b.toNat * 2 ^ k < 2 ^ 8 * 2 ^ k := Nat.mul_lt_mul_of_pos_right b.toNat_lt (by positivity)
      _ ≤ 2 ^ 8 * 2 ^ 24 := Nat.mul_le_mul_left _ (Nat.pow_le_pow_right (by decide) hk)
      _ = 2 ^ 32 := by decide
  apply UInt32.toNat_inj.1
  rw [hvalue]
  simp only [UInt32.toNat_or, UInt32.toNat_shiftLeft, UInt8.toNat_toUInt32, UInt32.reduceToNat,
    Nat.reduceMod, hshift b0 24 (by decide), hshift b1 16 (by decide), hshift b2 8 (by decide)]
  rw [or_eq_add (a := b0.toNat * 2 ^ 24) (i := 24) (by omega) (by omega),
    or_eq_add (a := _ + _) (b := b2.toNat * 2 ^ 8) (i := 16) (by omega) (by omega),
    or_eq_add (i := 8) (by omega) (by omega)]

end Bits

/-- `HtoN32` leaves the value in network order in the memory of every host. -/
theorem encode_htoN32 (host : HostOrder) (val : UInt32) :
    host.word32.encode (htoN32 host val) = u32.reverse.encode val := by
  rw [htoN32, host.word32.encode_decode _ (by simp), shifted_eq_encode]

/-- `NtoH32` reads the memory of every host in network order. -/
theorem ntoH32_eq (host : HostOrder) (val : UInt32) :
    ntoH32 host val = u32.reverse.decode (host.word32.encode val) := by
  have hlength : (host.word32.encode val).length = 4 := by simp
  unfold ntoH32
  match host.word32.encode val, hlength with
  | [b0, b1, b2, b3], _ => exact combined_eq_decode b0 b1 b2 b3

theorem ntoH32_htoN32 (host : HostOrder) (val : UInt32) : ntoH32 host (htoN32 host val) = val := by
  rw [ntoH32_eq, encode_htoN32, decode_encode]

theorem htoN32_ntoH32 (host : HostOrder) (val : UInt32) : htoN32 host (ntoH32 host val) = val := by
  rw [← host.word32.encode_inj, encode_htoN32, ntoH32_eq, u32.reverse.encode_decode]
  simp

theorem halves_eq (val : UInt64) :
    lowHigh.symm val = ((val &&& 0xFFFFFFFF).toUInt32, (val >>> 32).toUInt32) := by
  have hmask : ∀ n : Nat, n &&& 4294967295 = n % 2 ^ 32 := fun n =>
    Nat.and_two_pow_sub_one_eq_mod n 32
  refine Prod.ext (UInt32.toNat_inj.1 ?_) (UInt32.toNat_inj.1 ?_)
  · simp [lowHigh, hmask]
  · simp [lowHigh, Nat.shiftRight_eq_div_pow]

theorem shifted_or_eq (low high : UInt32) :
    (high.toUInt64 <<< 32) ||| low.toUInt64 = lowHigh (low, high) := by
  have hlow := low.toNat_lt
  have hhigh := high.toNat_lt
  have hshift : (high.toNat <<< 32) % 2 ^ 64 = 2 ^ 32 * high.toNat := by
    rw [Nat.shiftLeft_eq]
    omega
  apply UInt64.toNat_inj.1
  simp only [toNat_lowHigh, UInt64.toNat_or, UInt64.toNat_shiftLeft, UInt32.toNat_toUInt64,
    UInt64.reduceToNat, Nat.reduceMod, hshift]
  rw [or_eq_add (i := 32) (Nat.dvd_mul_right _ _) hlow, Nat.add_comm]

theorem htoN64_lowHigh (host : HostOrder) (p : UInt32 × UInt32) :
    htoN64 host (lowHigh p) = lowHigh (htoN32 host p.1, htoN32 host p.2) := by
  have hhalves := halves_eq (lowHigh p)
  rw [Equiv.symm_apply_apply] at hhalves
  rw [htoN64, shifted_or_eq, congrArg Prod.fst hhalves, congrArg Prod.snd hhalves]

theorem ntoH64_lowHigh (host : HostOrder) (p : UInt32 × UInt32) :
    ntoH64 host (lowHigh p) = lowHigh (ntoH32 host p.1, ntoH32 host p.2) := by
  have hhalves := halves_eq (lowHigh p)
  rw [Equiv.symm_apply_apply] at hhalves
  rw [ntoH64, shifted_or_eq, congrArg Prod.fst hhalves, congrArg Prod.snd hhalves]

theorem ntoH64_htoN64 (host : HostOrder) (val : UInt64) : ntoH64 host (htoN64 host val) = val := by
  obtain ⟨p, rfl⟩ := lowHigh.surjective val
  rw [htoN64_lowHigh, ntoH64_lowHigh, ntoH32_htoN32, ntoH32_htoN32]

theorem htoN64_ntoH64 (host : HostOrder) (val : UInt64) : htoN64 host (ntoH64 host val) = val := by
  obtain ⟨p, rfl⟩ := lowHigh.surjective val
  rw [ntoH64_lowHigh, htoN64_lowHigh, htoN32_ntoH32, htoN32_ntoH32]

/-! ## Words as they are sent -/

def netWord32 (host : HostOrder) : Word UInt32 :=
  host.word32.map
    { toFun := ntoH32 host
      invFun := htoN32 host
      left_inv := htoN32_ntoH32 host
      right_inv := ntoH32_htoN32 host }

def netRate (host : HostOrder) : Word Int64 :=
  (host.word64.map
    { toFun := ntoH64 host
      invFun := htoN64 host
      left_inv := htoN64_ntoH64 host
      right_inv := ntoH64_htoN64 host }).map signed64

@[simp]
theorem width_netWord32 (host : HostOrder) : (netWord32 host).width = 4 :=
  host.width_word32

@[simp]
theorem width_netRate (host : HostOrder) : (netRate host).width = 8 :=
  host.width_word64

@[simp]
theorem encode_netWord32 (host : HostOrder) (val : UInt32) :
    (netWord32 host).encode val = u32.reverse.encode val :=
  encode_htoN32 host val

def rateHalves (rate : Int64) : UInt32 × UInt32 :=
  lowHigh.symm rate.toUInt64

theorem toUInt64_eq (rate : Int64) : rate.toUInt64 = lowHigh (rateHalves rate) :=
  (lowHigh.apply_symm_apply rate.toUInt64).symm

theorem encode_netRate_little (rate : Int64) :
    (netRate .little).encode rate =
      u32.reverse.encode (rateHalves rate).1 ++ u32.reverse.encode (rateHalves rate).2 := by
  change u64.encode (htoN64 .little rate.toUInt64) = _
  rw [toUInt64_eq, htoN64_lowHigh, encode_lowHigh]
  exact congrArg₂ (· ++ ·) (encode_htoN32 .little _) (encode_htoN32 .little _)

theorem encode_netRate_big (rate : Int64) :
    (netRate .big).encode rate =
      u32.reverse.encode (rateHalves rate).2 ++ u32.reverse.encode (rateHalves rate).1 := by
  change (u64.encode (htoN64 .big rate.toUInt64)).reverse = _
  rw [toUInt64_eq, htoN64_lowHigh, encode_lowHigh, List.reverse_append]
  exact congrArg₂ (· ++ ·) (encode_htoN32 .big _) (encode_htoN32 .big _)

theorem encode_networkOrder (rate : Int64) :
    i64.reverse.encode rate =
      u32.reverse.encode (rateHalves rate).2 ++ u32.reverse.encode (rateHalves rate).1 := by
  change (u64.encode rate.toUInt64).reverse = _
  rw [toUInt64_eq, encode_lowHigh, List.reverse_append]
  rfl

/-- The two halves of a rate are the same, as they are in `0` and in `-1`. -/
def SameHalves (rate : Int64) : Prop :=
  (rateHalves rate).1 = (rateHalves rate).2

instance (rate : Int64) : Decidable (SameHalves rate) :=
  inferInstanceAs (Decidable ((rateHalves rate).1 = (rateHalves rate).2))

theorem encode_netRate_little_eq_iff (rate : Int64) :
    (netRate .little).encode rate = (netRate .big).encode rate ↔ SameHalves rate := by
  rw [encode_netRate_little, encode_netRate_big]
  constructor
  · intro heq
    exact u32.reverse.encode_inj.1 (List.append_inj heq (by simp)).1
  · intro hsame
    rw [hsame]

theorem encode_netRate_eq_iff (host host' : HostOrder) (rate : Int64) :
    (netRate host).encode rate = (netRate host').encode rate ↔ host = host' ∨ SameHalves rate := by
  cases host with
  | little =>
    cases host' with
    | little => simp
    | big => simpa using encode_netRate_little_eq_iff rate
  | big =>
    cases host' with
    | little => simpa [eq_comm] using encode_netRate_little_eq_iff rate
    | big => simp

theorem netRate_networkOrder_iff (host : HostOrder) (rate : Int64) :
    (netRate host).encode rate = i64.reverse.encode rate ↔ host = .big ∨ SameHalves rate := by
  rw [encode_networkOrder, ← encode_netRate_big, encode_netRate_eq_iff]

theorem netRate_networkOrder_and (host : HostOrder) (rate rate' : Int64) :
    (netRate host).encode rate = i64.reverse.encode rate ∧
        (netRate host).encode rate' = i64.reverse.encode rate' ↔
      host = .big ∨ SameHalves rate ∧ SameHalves rate' := by
  rw [netRate_networkOrder_iff, netRate_networkOrder_iff, or_and_left]

/-- What a host reads from the bytes of another one. -/
def seenRate (host host' : HostOrder) (rate : Int64) : Int64 :=
  (netRate host').decode ((netRate host).encode rate)

theorem encode_seenRate (host host' : HostOrder) (rate : Int64) :
    (netRate host').encode (seenRate host host' rate) = (netRate host).encode rate :=
  (netRate host').encode_decode _ (by simp)

theorem seenRate_eq_iff (host host' : HostOrder) (rate : Int64) :
    seenRate host host' rate = rate ↔ host = host' ∨ SameHalves rate := by
  rw [← (netRate host').encode_inj, encode_seenRate, encode_netRate_eq_iff]

/-! ## The two structures -/

def writeStringOn (host : HostOrder) (s : Bytes) : Bytes :=
  (netWord32 host).encode (UInt32.ofNat s.length) ++ s

def readStringOn (host : HostOrder) : Reader Bytes := do
  .fits 4
  .lengthPrefixed (netWord32 host) UInt32.toNat

def netCount (host : HostOrder) : Word Int32 :=
  (netWord32 host).map signed32

namespace P2PLLMHandshakeReq

def serializeOn (host : HostOrder) (req : P2PLLMHandshakeReq) : Bytes :=
  writeStringOn host req.apiKey ++ (writeStringOn host req.modelName ++
    (writeStringOn host req.testPrompt ++ (netRate host).encode req.clientTokensPerTknc))

def readOn (host : HostOrder) : Reader P2PLLMHandshakeReq := do
  let apiKey ← readStringOn host
  let modelName ← readStringOn host
  let testPrompt ← readStringOn host
  .fits 8
  let clientTokensPerTknc ← .word (netRate host)
  pure { apiKey, modelName, testPrompt, clientTokensPerTknc }

def networkForm (req : P2PLLMHandshakeReq) : Bytes :=
  writeString req.apiKey ++ (writeString req.modelName ++ (writeString req.testPrompt ++
    i64.reverse.encode req.clientTokensPerTknc))

end P2PLLMHandshakeReq

namespace P2PLLMHandshakeResp

def serializeOn (host : HostOrder) (resp : P2PLLMHandshakeResp) : Bytes :=
  u8.encode (if resp.accepted then 1 else 0) ++ (writeStringOn host resp.testTokens ++
    ((netCount host).encode resp.nodeTokenCount ++
      ((netRate host).encode resp.verifiedTokensPerTknc ++
        ((netRate host).encode resp.tokensPerTknc ++ (writeStringOn host resp.minerWallet ++
          writeStringOn host resp.rejectionReason)))))

def readOn (host : HostOrder) : Reader P2PLLMHandshakeResp := do
  .atLeast 1
  let accepted ← .word u8
  let testTokens ← readStringOn host
  .fits 4
  let nodeTokenCount ← .word (netCount host)
  .fits 8
  let verifiedTokensPerTknc ← .word (netRate host)
  .fits 8
  let tokensPerTknc ← .word (netRate host)
  let minerWallet ← readStringOn host
  let rejectionReason ← readStringOn host
  pure
    { accepted := accepted ≠ 0
      testTokens, nodeTokenCount, verifiedTokensPerTknc, tokensPerTknc, minerWallet
      rejectionReason }

def networkForm (resp : P2PLLMHandshakeResp) : Bytes :=
  u8.encode (if resp.accepted then 1 else 0) ++ (writeString resp.testTokens ++
    (i32.reverse.encode resp.nodeTokenCount ++ (i64.reverse.encode resp.verifiedTokensPerTknc ++
      (i64.reverse.encode resp.tokensPerTknc ++ (writeString resp.minerWallet ++
        writeString resp.rejectionReason)))))

end P2PLLMHandshakeResp

section Fields

variable (host : HostOrder)

@[simp]
theorem writeStringOn_eq (s : Bytes) : writeStringOn host s = writeString s := by
  rw [writeStringOn, encode_netWord32, writeString]

@[simp]
theorem encode_netCount (count : Int32) : (netCount host).encode count = i32.reverse.encode count :=
  encode_netWord32 host count.toUInt32

theorem reads_readStringOn {s : Bytes} (h : s.length < 2 ^ 32) (rest : Bytes) :
    Reads (readStringOn host) (writeString s) rest s := by
  rw [← writeStringOn_eq host]
  refine (Reads.fits ?_).test (Reads.lengthPrefixed (UInt32.toNat_ofNat_of_lt h) rest)
  simp [Nat.add_assoc]

theorem reads_netCount (count : Int32) (rest : Bytes) :
    Reads (.word (netCount host)) (i32.reverse.encode count) rest count := by
  rw [← encode_netCount host]
  exact Reads.word (netCount host) count rest

theorem reads_netRate (host' : HostOrder) (rate : Int64) (rest : Bytes) :
    Reads (.word (netRate host')) ((netRate host).encode rate) rest (seenRate host host' rate) := by
  rw [← encode_seenRate host host']
  exact Reads.word (netRate host') _ rest

end Fields

namespace P2PLLMHandshakeReq

theorem serializeOn_eq_iff (host : HostOrder) (req : P2PLLMHandshakeReq) :
    req.serializeOn host = req.networkForm ↔
      host = .big ∨ SameHalves req.clientTokensPerTknc := by
  simp only [serializeOn, networkForm, writeStringOn_eq, List.append_cancel_left_eq,
    netRate_networkOrder_iff]

theorem reads_serializeOn (host host' : HostOrder) {req : P2PLLMHandshakeReq}
    (h : (req.serializeOn host).length < 2 ^ 32) (rest : Bytes) :
    Reads (readOn host') (req.serializeOn host) rest
      { req with
        clientTokensPerTknc := seenRate host host' req.clientTokensPerTknc } := by
  simp only [serializeOn, writeStringOn_eq, List.length_append, length_writeString] at h ⊢
  exact (reads_readStringOn host' (by omega) _).bind <|
    (reads_readStringOn host' (by omega) _).bind <|
    (reads_readStringOn host' (by omega) _).bind <| (Reads.fits (by simp)).test
      (reads_netRate host host' _ _).last

end P2PLLMHandshakeReq

namespace P2PLLMHandshakeResp

theorem serializeOn_eq_iff (host : HostOrder) (resp : P2PLLMHandshakeResp) :
    resp.serializeOn host = resp.networkForm ↔
      host = .big ∨ SameHalves resp.verifiedTokensPerTknc ∧ SameHalves resp.tokensPerTknc := by
  have hwidth : ∀ rate, ((netRate host).encode rate).length = (i64.reverse.encode rate).length := by
    simp
  simp only [serializeOn, networkForm, writeStringOn_eq, encode_netCount,
    List.append_cancel_left_eq]
  rw [← netRate_networkOrder_and host]
  -- the fields in front of the rates are the same, and a rate has eight bytes either way
  constructor
  · intro heq
    obtain ⟨hfirst, hrest⟩ := List.append_inj heq (hwidth _)
    exact ⟨hfirst, (List.append_inj hrest (hwidth _)).1⟩
  · rintro ⟨hfirst, hsecond⟩
    rw [hfirst, hsecond]

theorem reads_serializeOn (host host' : HostOrder) {resp : P2PLLMHandshakeResp}
    (h : (resp.serializeOn host).length < 2 ^ 32) (rest : Bytes) :
    Reads (readOn host') (resp.serializeOn host) rest
      { resp with
        verifiedTokensPerTknc := seenRate host host' resp.verifiedTokensPerTknc
        tokensPerTknc := seenRate host host' resp.tokensPerTknc } := by
  simp only [serializeOn, writeStringOn_eq, List.length_append, length_writeString] at h
  have hread : Reads (readOn host') (resp.serializeOn host) rest
      { resp with
        accepted := decide ((if resp.accepted then (1 : UInt8) else 0) ≠ 0)
        verifiedTokensPerTknc := seenRate host host' resp.verifiedTokensPerTknc
        tokensPerTknc := seenRate host host' resp.tokensPerTknc } := by
    simp only [serializeOn, writeStringOn_eq, encode_netCount]
    -- field by field, in the order of the reader
    refine (Reads.atLeast ?_).test ?_
    · simp
    · exact (Reads.word u8 _ _).bind <| (reads_readStringOn host' (by omega) _).bind <|
        (Reads.fits (by simp)).test <| (reads_netCount host' _ _).bind <|
        (Reads.fits (by simp)).test <| (reads_netRate host host' _ _).bind <|
        (Reads.fits (by simp)).test <| (reads_netRate host host' _ _).bind <|
        (reads_readStringOn host' (by omega) _).bind (reads_readStringOn host' (by omega) _).last
  rwa [flag_readBack] at hread

end P2PLLMHandshakeResp

/-! ## Network order -/

/-- The rates of a handshake are in network order exactly on big-endian hosts and where both halves
are the same; a host of the other byte order reads the rates that were sent exactly in the second
case. -/
theorem handshake_rates_networkOrder_iff (host host' : HostOrder) (req : P2PLLMHandshakeReq)
    (resp : P2PLLMHandshakeResp) :
    (req.serializeOn host = req.networkForm ↔
        host = .big ∨ SameHalves req.clientTokensPerTknc) ∧
      (resp.serializeOn host = resp.networkForm ↔
        host = .big ∨ SameHalves resp.verifiedTokensPerTknc ∧ SameHalves resp.tokensPerTknc) ∧
      ((req.serializeOn host).length < 2 ^ 32 →
        ∃ req', (P2PLLMHandshakeReq.readOn host').decode (req.serializeOn host) = .ok req' ∧
          (req'.clientTokensPerTknc = req.clientTokensPerTknc ↔
            host = host' ∨ SameHalves req.clientTokensPerTknc)) ∧
      ((resp.serializeOn host).length < 2 ^ 32 →
        ∃ resp', (P2PLLMHandshakeResp.readOn host').decode (resp.serializeOn host) = .ok resp' ∧
          (resp'.verifiedTokensPerTknc = resp.verifiedTokensPerTknc ↔
            host = host' ∨ SameHalves resp.verifiedTokensPerTknc) ∧
          (resp'.tokensPerTknc = resp.tokensPerTknc ↔
            host = host' ∨ SameHalves resp.tokensPerTknc)) := by
  refine ⟨req.serializeOn_eq_iff host, resp.serializeOn_eq_iff host, ?_, ?_⟩
  · intro hlength
    have hread := P2PLLMHandshakeReq.reads_serializeOn host host' hlength []
    exact ⟨_, hread.decode (by omega), seenRate_eq_iff host host' _⟩
  · intro hlength
    have hread := P2PLLMHandshakeResp.reads_serializeOn host host' hlength []
    exact ⟨_, hread.decode (by omega), seenRate_eq_iff host host' _, seenRate_eq_iff host host' _⟩

def thousandReq : P2PLLMHandshakeReq where
  apiKey := ascii "key"
  modelName := ascii "m"
  testPrompt := []
  clientTokensPerTknc := 1000

def thousandResp : P2PLLMHandshakeResp where
  accepted := true
  testTokens := []
  nodeTokenCount := 1
  verifiedTokensPerTknc := 1000
  tokensPerTknc := 0
  minerWallet := ascii "w"
  rejectionReason := []

theorem handshake_rates_between_big_hosts :
    thousandReq.serializeOn .big = thousandReq.networkForm ∧
      (thousandReq.serializeOn .big).length < 2 ^ 32 ∧
      ∃ req', (P2PLLMHandshakeReq.readOn .big).decode (thousandReq.serializeOn .big) = .ok req' ∧
        req'.clientTokensPerTknc = 1000 := by
  have hlength : (thousandReq.serializeOn .big).length < 2 ^ 32 := by decide
  obtain ⟨hbytes, _, hread, _⟩ :=
    handshake_rates_networkOrder_iff .big .big thousandReq thousandResp
  obtain ⟨req', hdecode, hrate⟩ := hread hlength
  exact ⟨hbytes.2 (Or.inl rfl), hlength, req', hdecode, hrate.2 (Or.inl rfl)⟩

/-- A little-endian host sends the low half first, and a big-endian host reads it as the high
half. -/
theorem thousand_not_in_networkOrder :
    (netRate .little).encode 1000 = [0, 0, 3, 232, 0, 0, 0, 0] ∧
      i64.reverse.encode 1000 = [0, 0, 0, 0, 0, 0, 3, 232] ∧
      thousandReq.serializeOn .little ≠ thousandReq.networkForm ∧
      (((P2PLLMHandshakeReq.readOn .big).decode (thousandReq.serializeOn .little)).toOption.map
        P2PLLMHandshakeReq.clientTokensPerTknc) = some 4294967296000 := by
  decide

end TKNC.Net
