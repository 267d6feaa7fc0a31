import TKNC.Escrow.PricingCommitment
import TKNC.Lib.PrefixCode

/-!
# Snapshot — what the text and the quota of a pricing snapshot say

`ToJSON` writes the fields of a snapshot one after the other, strings in escaped form.  The escapes
can be read off one by one, so two snapshots with the same text are the same.

The quota of a snapshot is a product divided by `coin`.  The product is taken in the register, and
the test against overflow in `Validate` is about another product, so the quota is the exact one only
if the amount times the rate fits.
-/

namespace TKNC.Escrow

open Consensus Lib.MachineInt Lib.Numeral Lib.PrefixCode List

/-! ## Escaped strings -/

namespace PricingSnapshot

def letterByte (d : UInt8) : UInt8 :=
  if d = 98 then 8
  else if d = 102 then 12
  else if d = 110 then 10
  else if d = 114 then 13
  else if d = 116 then 9
  else d

def firstByte : Bytes → Option UInt8
  | [] => none
  | c :: rest =>
      if c = 34 then none
      else if c = 92 then
        match rest with
        | [] => none
        | d :: rest =>
            if d = 117 then (ofHex (rest.take 4)).map UInt8.ofNat else some (letterByte d)
      else some c

theorem firstByte_letter {d : UInt8} (h : d ≠ 117) (rest : Bytes) :
    firstByte (92 :: d :: rest) = some (letterByte d) := by
  simp [firstByte, h]

theorem firstByte_hex (c : UInt8) (rest : Bytes) :
    firstByte (ascii "\\u" ++ toHex 4 c.toNat ++ rest) = some c := by
  have htake : (toHex 4 c.toNat ++ rest).take 4 = toHex 4 c.toNat := by
    have hlength : (toHex 4 c.toNat).length = 4 := length_toHex 4 c.toNat
    rw [take_append_of_le_length (by omega), take_of_length_le (by omega)]
  have hvalue : ofHex (toHex 4 c.toNat) = some c.toNat := by
    have hlt : c.toNat < 16 ^ 4 := Nat.lt_trans c.toNat_lt (by decide)
    rw [ofHex_toHex, Nat.mod_eq_of_lt hlt]
  have hsplit : ascii "\\u" ++ toHex 4 c.toNat ++ rest =
      92 :: 117 :: (toHex 4 c.toNat ++ rest) := rfl
  rw [hsplit]
  simp [firstByte, htake, hvalue]

theorem firstByte_plain {c : UInt8} (hquote : c ≠ 34) (hslash : c ≠ 92) (rest : Bytes) :
    firstByte (c :: rest) = some c := by
  simp [firstByte, hquote, hslash]

/-- An escaped byte is a letter behind a backslash, a hexadecimal number or the byte itself. -/
theorem escapeByte_cases (c : UInt8) :
    (∃ d, d ≠ 117 ∧ letterByte d = c ∧ escapeByte c = [92, d]) ∨
      escapeByte c = ascii "\\u" ++ toHex 4 c.toNat ∨
      (c ≠ 34 ∧ c ≠ 92 ∧ escapeByte c = [c]) := by
  by_cases hletter : c = 34 ∨ c = 92 ∨ c = 8 ∨ c = 12 ∨ c = 10 ∨ c = 13 ∨ c = 9
  · left
    rcases hletter with rfl | rfl | rfl | rfl | rfl | rfl | rfl
    · exact ⟨34, by decide⟩
    · exact ⟨92, by decide⟩
    · exact ⟨98, by decide⟩
    · exact ⟨102, by decide⟩
    · exact ⟨110, by decide⟩
    · exact ⟨114, by decide⟩
    · exact ⟨116, by decide⟩
  · right
    simp only [not_or] at hletter
    obtain ⟨h34, h92, h8, h12, h10, h13, h9⟩ := hletter
    rw [escapeByte, if_neg h34, if_neg h92, if_neg h8, if_neg h12, if_neg h10, if_neg h13,
      if_neg h9]
    by_cases hcontrol : c < 32 ∨ 128 ≤ c
    · exact Or.inl (if_pos hcontrol)
    · exact Or.inr ⟨h34, h92, if_neg hcontrol⟩

theorem readable_escapeByte : Readable escapeByte firstByte 34 where
  symbol c rest := by
    rcases escapeByte_cases c with ⟨d, hd, hc, heq⟩ | heq | ⟨hquote, hslash, heq⟩
    · rw [heq, ← hc]
      exact firstByte_letter hd rest
    · rw [heq]
      exact firstByte_hex c rest
    · rw [heq]
      exact firstByte_plain hquote hslash rest
  stopped rest := by simp [firstByte]

variable {u v : Bytes}

theorem jsonEscape_append_inj {s t : Bytes} (h : jsonEscape s ++ u = jsonEscape t ++ v) :
    s = t ∧ u = v := by
  have hopen : s.flatMap escapeByte ++ 34 :: u = t.flatMap escapeByte ++ 34 :: v := by
    simpa [jsonEscape, ascii] using h
  exact readable_escapeByte.flatMap_inj hopen

/-- A numeral ends in front of the first byte that is neither a digit nor a sign. -/
theorem toString64_append_inj {m n : Int} {c : UInt8} (hdigit : isDigit c = false) (hsign : c ≠ 45)
    (h : toString64 m ++ c :: u = toString64 n ++ c :: v) : m = n ∧ u = v := by
  have hout (k : Int) : c ∉ toString64 k := by
    intro hmem
    rcases mem_toString64 hmem with hd | hs
    · exact Bool.false_ne_true (hdigit.symm.trans hd)
    · exact hsign hs
  rcases append_stop_inj (hout m) (hout n) h with ⟨hnum, hrest⟩
  exact ⟨toString64_injective hnum, hrest⟩

theorem numberField_inj {m n : Int}
    (h : toString64 m ++ (ascii "," ++ u) = toString64 n ++ (ascii "," ++ v)) : m = n ∧ u = v := by
  have hcomma (w : Bytes) : ascii "," ++ w = 44 :: w := rfl
  rw [hcomma, hcomma] at h
  exact toString64_append_inj (by decide) (by decide) h

theorem timestampField_inj {m n : Int}
    (h : toString64 m ++ (ascii ",\"version\":" ++ u) =
      toString64 n ++ (ascii ",\"version\":" ++ v)) : m = n ∧ u = v := by
  have hcomma (w : Bytes) : ascii ",\"version\":" ++ w = 44 :: (ascii "\"version\":" ++ w) := rfl
  rw [hcomma, hcomma] at h
  obtain ⟨htime, hrest⟩ := toString64_append_inj (by decide) (by decide) h
  exact ⟨htime, append_cancel_left hrest⟩

/-- Fields of equal texts are read one after the other. -/
theorem toJSON_injective : Function.Injective toJSON := by
  intro s t h
  unfold toJSON jsonHead at h
  simp only [append_assoc] at h
  rw [append_cancel_left_eq, append_cancel_left_eq] at h
  -- the numbers in front of the strings
  obtain ⟨hprice, h⟩ := numberField_inj h
  rw [append_cancel_left_eq] at h
  obtain ⟨hrate, h⟩ := numberField_inj h
  rw [append_cancel_left_eq] at h
  obtain ⟨hquota, h⟩ := numberField_inj h
  rw [append_cancel_left_eq] at h
  obtain ⟨hpaid, h⟩ := numberField_inj h
  rw [append_cancel_left_eq] at h
  -- the strings
  obtain ⟨hminer, h⟩ := jsonEscape_append_inj h
  rw [append_cancel_left_eq, append_cancel_left_eq] at h
  obtain ⟨huser, h⟩ := jsonEscape_append_inj h
  rw [append_cancel_left_eq, append_cancel_left_eq] at h
  obtain ⟨hname, h⟩ := jsonEscape_append_inj h
  rw [append_cancel_left_eq, append_cancel_left_eq] at h
  obtain ⟨hhash, h⟩ := jsonEscape_append_inj h
  rw [append_cancel_left_eq, append_cancel_left_eq] at h
  -- time and version
  obtain ⟨htime, h⟩ := timestampField_inj h
  have hversion := toString64_injective (append_cancel_right h)
  cases s
  cases t
  simp only at hprice hrate hquota hpaid hminer huser hname hhash htime hversion
  rw [hprice, hrate, hquota, hpaid, hminer, huser, hname, hhash, htime, hversion]

end PricingSnapshot

/-! ## The quota -/

/-- A quota that a call has recorded for an amount and a rate: in the record of an escrow with a
limit, in the snapshot of a commitment, or in a snapshot that `Validate` accepts. -/
inductive RecordedQuota : (amount rate quota : Int) → Prop where
  | createescrow {terms : PricingTerms} {apiKey suffix : Bytes} {now : Int} {e : SpendingLimit}
      (hcreated : createescrowFor terms apiKey suffix now = .ok e) (hlimited : 0 < terms.amount) :
      RecordedQuota terms.amount terms.rateTokensPerTknc e.quotaTokens
  | commitpricing {terms : PricingTerms} {now : Int} {commitment : PricingCommitment}
      (hcommitted : commitpricing terms now = .ok commitment) :
      RecordedQuota terms.amount terms.rateTokensPerTknc
        (commitpricingSnapshot terms now).quotaTokens
  | validate {s : PricingSnapshot} (hvalid : s.validate = true) :
      RecordedQuota s.totalTkncPaid s.rateTokensPerTknc s.quotaTokens

/-- A quotient of the register is the exact one if the product fits, and only then: otherwise the
register is off by a multiple of its size. -/
theorem i64_tdiv_coin_eq_iff {p : Int} (h : 0 ≤ p) :
    (i64 p).tdiv coin = p / coin ↔ p ≤ int64Max := by
  constructor
  · intro heq
    by_contra hlarge
    simp only [int64Max] at hlarge
    have hregister := i64_eq p
    rcases Int.le_total 0 (i64 p) with hnonneg | hneg
    · rw [Int.tdiv_eq_ediv_of_nonneg hnonneg] at heq
      simp only [coin] at heq
      omega
    · have hquotient := Int.tdiv_le_tdiv (by decide : (0 : Int) < coin) hneg
      rw [Int.zero_tdiv, heq] at hquotient
      simp only [coin] at hquotient
      omega
  · intro hfits
    simp only [int64Max] at hfits
    rw [i64_of_fits (fits64_iff.2 (by omega)), Int.tdiv_eq_ediv_of_nonneg h]

theorem PricingSnapshot.of_validate {s : PricingSnapshot} (h : s.validate = true) :
    0 < s.totalTkncPaid ∧ 0 < s.rateTokensPerTknc ∧
      s.quotaTokens = (i64 (s.totalTkncPaid * s.rateTokensPerTknc)).tdiv coin := by
  -- every test but the last one rejects
  simp only [PricingSnapshot.validate, Bool.if_false_left, Bool.and_eq_true, Bool.not_eq_true',
    decide_eq_false_iff_not, decide_eq_true_eq] at h
  obtain ⟨hrate, _, _, hpaid, _, _, _, _, _, _, hquota⟩ := h
  exact ⟨Int.not_le.1 hpaid, Int.not_le.1 hrate, hquota⟩

theorem RecordedQuota.eq {amount rate quota : Int} (h : RecordedQuota amount rate quota) :
    0 < amount ∧ 0 < rate ∧ quota = (i64 (amount * rate)).tdiv coin := by
  cases h with
  | createescrow hcreated hlimited =>
    have hnew := Lifecycle.created_of_newRecord hcreated
    exact ⟨hlimited, hnew.rate, hnew.quota (Int.ne_of_gt hlimited)⟩
  | @commitpricing terms now commitment hcommitted =>
    have hrate : 0 < terms.rateTokensPerTknc := by
      by_contra hle
      rw [Escrow.commitpricing] at hcommitted
      split at hcommitted
      · cases hcommitted
      · rw [if_pos (Int.not_lt.1 hle)] at hcommitted
        cases hcommitted
    exact ⟨(commitpricing_eq_ok hcommitted).1, hrate, rfl⟩
  | validate hvalid => exact PricingSnapshot.of_validate hvalid

/-- A recorded quota is what the amount buys at the rate if their product fits in 64 bits, and only
then. -/
theorem recordedQuota_exact_iff {amount rate quota : Int} (h : RecordedQuota amount rate quota) :
    quota = amount * rate / coin ↔ amount * rate ≤ int64Max := by
  obtain ⟨hamount, hrate, rfl⟩ := h.eq
  exact i64_tdiv_coin_eq_iff (Int.mul_nonneg (Int.le_of_lt hamount) (Int.le_of_lt hrate))

theorem agreedTerms_exact :
    ∃ e, createescrowFor agreedTerms (ascii "tkn_0") (ascii "0a1b2c3d") 1700000000 = .ok e ∧
      e.quotaTokens = agreedTerms.amount * agreedTerms.rateTokensPerTknc / coin := by
  have hcreated : ∃ e, createescrowFor agreedTerms (ascii "tkn_0") (ascii "0a1b2c3d") 1700000000 =
      .ok e := ⟨_, rfl⟩
  obtain ⟨e, hcreated⟩ := hcreated
  exact ⟨e, hcreated,
    (recordedQuota_exact_iff (.createescrow hcreated (by decide))).2 (by decide)⟩

def largestTerms : PricingTerms :=
  { agreedTerms with amount := maxMoney, rateTokensPerTknc := 1000 }

/-- Both calls accept the terms with a quota of 77662796314 tokens instead of 10 ^ 12. -/
theorem largestTerms_wraps :
    ∃ e commitment,
      createescrowFor largestTerms (ascii "tkn_0") (ascii "0a1b2c3d") 1700000000 = .ok e ∧
      commitpricing largestTerms 1700000000 = .ok commitment ∧
      (commitpricingSnapshot largestTerms 1700000000).validate = true ∧
      e.quotaTokens = 77662796314 ∧
      (commitpricingSnapshot largestTerms 1700000000).quotaTokens = 77662796314 ∧
      largestTerms.amount * largestTerms.rateTokensPerTknc / coin = 1000000000000 :=
  ⟨_, _, rfl, rfl, by decide, by decide, by decide, by decide⟩

end TKNC.Escrow
