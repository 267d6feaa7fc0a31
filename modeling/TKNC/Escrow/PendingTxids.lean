import Mathlib.Data.List.Basic
import TKNC.Lib.Numeral

/-!
# PendingTxids — the text list of unconfirmed transfers

Transfers awaiting confirmation are kept in one string, `txid1:amount1;txid2:amount2;...`.  It is
written by the billing code, but the same parser also reads strings that a client sends in a header,
so every byte string has a meaning: pieces without a colon or without a readable amount are skipped.
-/

namespace TKNC.Escrow

open Lib.MachineInt Lib.Numeral List

/-- A transaction id, as text, with the amount claimed for it. -/
abbrev PendingEntry : Type := Bytes × Int

def semicolon : UInt8 := 59
def colon : UInt8 := 58

def parseEntry (entry : Bytes) : Option PendingEntry :=
  if colon ∈ entry then
    let txid := entry.takeWhile (· ≠ colon)
    let amountStr := (entry.dropWhile (· ≠ colon)).drop 1
    (stoll amountStr).map fun amount => (txid, amount)
  else
    none

def parsePendingTxids (pendingStr : Bytes) : List PendingEntry :=
  (pendingStr.splitOn semicolon).filterMap parseEntry

def serializeEntry (e : PendingEntry) : Bytes :=
  e.1 ++ colon :: toString64 e.2

def serializePendingTxids (txids : List PendingEntry) : Bytes :=
  [semicolon].intercalate (txids.map serializeEntry)

def appendPending (pendingStr : Bytes) (e : PendingEntry) : Bytes :=
  (if pendingStr ≠ [] then pendingStr ++ [semicolon] else pendingStr) ++ serializeEntry e

example : parsePendingTxids (ascii "ab:5;;x;cd: -7z") = [(ascii "ab", 5), (ascii "cd", -7)] := by
  decide

/-- An entry that survives writing and reading. -/
structure WellFormed (e : PendingEntry) : Prop where
  noColon : colon ∉ e.1
  noSemicolon : semicolon ∉ e.1
  fits : Fits 64 e.2

variable {e : PendingEntry}

theorem parseEntry_serializeEntry (h : WellFormed e) :
    parseEntry (serializeEntry e) = some e := by
  -- the id holds no colon, so the first colon is the separator
  have hpass : ∀ b ∈ e.1, decide (b ≠ colon) = true := by
    intro b hb
    simp only [decide_eq_true_eq]
    rintro rfl
    exact h.noColon hb
  have htake : (serializeEntry e).takeWhile (· ≠ colon) = e.1 := by
    rw [serializeEntry, takeWhile_append_of_pos hpass]
    simp
  have hdrop : (serializeEntry e).dropWhile (· ≠ colon) = colon :: toString64 e.2 := by
    rw [serializeEntry, dropWhile_append_of_pos hpass]
    simp
  have hmem : colon ∈ serializeEntry e := by simp [serializeEntry]
  simp only [parseEntry, hmem, if_true, htake, hdrop, drop_succ_cons, drop_zero,
    stoll_toString64 h.fits, Option.map_some]

theorem semicolon_not_mem_serializeEntry (h : WellFormed e) :
    semicolon ∉ serializeEntry e := by
  intro hmem
  rcases mem_append.1 hmem with hmem | hmem
  · exact h.noSemicolon hmem
  · -- behind the id there are a colon, digits and perhaps a minus sign
    rcases mem_cons.1 hmem with heq | hmem
    · exact absurd heq (by decide)
    · rcases mem_toString64 hmem with hdigit | heq
      · exact absurd hdigit (by decide)
      · exact absurd heq (by decide)

variable {s : Bytes}

theorem fits_of_readDigits {negative : Bool} {n : Int} (h : readDigits negative s = some n) :
    Fits 64 n := by
  simp only [readDigits] at h
  generalize (if negative = true then -(digitsValue (s.takeWhile isDigit) : Int)
    else digitsValue (s.takeWhile isDigit)) = value at h
  split at h
  · exact absurd h (by simp)
  · split at h
    · rename_i hfits
      exact Option.some.inj h ▸ hfits
    · exact absurd h (by simp)

theorem fits_of_stoll {n : Int} (h : stoll s = some n) : Fits 64 n := by
  unfold stoll at h
  split at h
  · cases h
  · split at h
    · exact fits_of_readDigits h
    · split at h <;> exact fits_of_readDigits h

theorem wellFormed_of_parseEntry {entry : Bytes} (hsemi : semicolon ∉ entry)
    (h : parseEntry entry = some e) : WellFormed e := by
  unfold parseEntry at h
  split at h
  · rcases Option.map_eq_some_iff.1 h with ⟨amount, hamount, rfl⟩
    refine ⟨?_, ?_, fits_of_stoll hamount⟩
    · intro hmem
      simpa using mem_takeWhile_imp hmem
    · intro hmem
      exact hsemi ((takeWhile_sublist _).subset hmem)
  · cases h

/-! ## Lists -/

theorem semicolon_not_mem_splitOn {s piece : Bytes} (hmem : piece ∈ s.splitOn semicolon) :
    semicolon ∉ piece := by
  unfold splitOn at hmem
  -- a byte either starts a new piece or joins the first piece of the rest
  induction s generalizing piece with
  | nil => simp_all
  | cons b s ih =>
    rw [splitOnP_cons_eq_if_modifyHead] at hmem
    split at hmem
    · rcases mem_cons.1 hmem with rfl | hmem
      · exact not_mem_nil
      · exact ih hmem
    · rename_i hb
      cases hsplit : s.splitOnP (· == semicolon) with
      | nil => simp [hsplit] at hmem
      | cons first rest =>
        rw [hsplit] at hmem
        rcases mem_cons.1 hmem with rfl | hmem
        · have hfirst : semicolon ∉ first := ih (hsplit ▸ mem_cons_self)
          intro hin
          rcases mem_cons.1 hin with heq | hin
          · exact hb (by simp [heq])
          · exact hfirst hin
        · exact ih (hsplit ▸ mem_cons_of_mem _ hmem)

theorem wellFormed_of_mem_parse (hmem : e ∈ parsePendingTxids s) : WellFormed e := by
  rcases mem_filterMap.1 hmem with ⟨piece, hpiece, hparse⟩
  exact wellFormed_of_parseEntry (semicolon_not_mem_splitOn hpiece) hparse

theorem parse_append (s t : Bytes) :
    parsePendingTxids (s ++ semicolon :: t) = parsePendingTxids s ++ parsePendingTxids t := by
  unfold parsePendingTxids splitOn
  rw [splitOnP_append_cons s t (by simp), filterMap_append]

theorem parse_serialize {txids : List PendingEntry} (h : ∀ e ∈ txids, WellFormed e) :
    parsePendingTxids (serializePendingTxids txids) = txids := by
  cases txids with
  | nil => rfl
  | cons e rest =>
    have hsplit : (serializePendingTxids (e :: rest)).splitOn semicolon =
        (e :: rest).map serializeEntry := by
      refine splitOn_intercalate semicolon ?_ (by simp)
      intro piece hpiece
      rcases mem_map.1 hpiece with ⟨e', he', rfl⟩
      exact semicolon_not_mem_serializeEntry (h e' he')
    rw [parsePendingTxids, hsplit, filterMap_map]
    calc
      (e :: rest).filterMap (parseEntry ∘ serializeEntry) = (e :: rest).filterMap some :=
        filterMap_congr fun e' he' => parseEntry_serializeEntry (h e' he')
      _ = e :: rest := filterMap_some

theorem parse_serializeEntry (h : WellFormed e) :
    parsePendingTxids (serializeEntry e) = [e] := by
  have hsingle : serializePendingTxids [e] = serializeEntry e := by
    simp [serializePendingTxids, intercalate]
  rw [← hsingle]
  exact parse_serialize (by simpa using h)

/-- Whatever the string was, billing adds exactly one entry to what it means. -/
theorem parse_appendPending (h : WellFormed e) :
    parsePendingTxids (appendPending s e) = parsePendingTxids s ++ [e] := by
  unfold appendPending
  split
  · rw [append_assoc, singleton_append, parse_append, parse_serializeEntry h]
  · rename_i hnil
    have hs : s = [] := by simpa using hnil
    subst hs
    rw [nil_append, parse_serializeEntry h]
    rfl

end TKNC.Escrow
