import TKNC.Net.MinerRegistry

/-!
# MinerListing — which miners of the list the node sees

The fields that are read behind and in front of a marker, the registrations of a whole list, and the
entries that are left of them.  A list is seen as it is exactly when every name in it is read as it
is written (`ReadAsWritten`) and miners with one wallet agree.
-/

namespace TKNC.Net.MinerLocalRegistry

open Lib Lib.Numeral Lib.TextSearch UniValue Quoting NoStart LiveMinerInfo Option
open List hiding contains

variable {m : LiveMinerInfo}

/-! ## The fields -/

theorem forwardField_eq {u key v : Bytes} (jsonBody : Bytes) (hkey : key ≠ [])
    (hstart : NoStart key u (key ++ v)) (hbefore : 125 ∉ u) (hwithin : 125 ∉ key) :
    forwardField jsonBody (u ++ (key ++ v)) key = readValue jsonBody (key ++ v) := by
  have hfind : find key (u ++ (key ++ v)) = some (key ++ v) := by
    rw [find_append_of_noStart hstart, find_append_self hkey]
  have hend : (objEnd (u ++ (key ++ v))).length ≤ v.length := by
    rw [objEnd, find_append_of_not_mem hbefore, find_append_of_not_mem hwithin]
    cases hbrace : find [125] v with
    | none => exact Nat.zero_le _
    | some r => exact (prefix_of_find hbrace).2.length_le
  have hpos := length_pos_iff.2 hkey
  have hlt : (objEnd (u ++ (key ++ v))).length < (key ++ v).length := by
    rw [length_append]
    omega
  rw [forwardField, hfind]
  exact if_pos hlt

theorem forwardField_eq_nil {u key v : Bytes} (jsonBody : Bytes) (hstart : NoStart key u (125 :: v))
    (hbefore : 125 ∉ u) :
    forwardField jsonBody (u ++ 125 :: v) key = [] := by
  have hend : objEnd (u ++ 125 :: v) = 125 :: v := by
    have hbrace : find [125] (125 :: v) = some (125 :: v) := find_append_self (by simp) v
    rw [objEnd, find_append_of_not_mem hbefore, hbrace, getD_some]
  rw [forwardField, find_append_of_noStart hstart, hend]
  cases hfind : find key (125 :: v) with
  | none => rfl
  | some field => exact if_neg (Nat.not_lt.2 (prefix_of_find hfind).2.length_le)

theorem readValue_eq {key w : Bytes} (jsonBody : Bytes) (hkey : 58 ∉ key)
    (hquote : 34 ∈ w.dropWhile isSkipped) :
    readValue jsonBody (key ++ 58 :: w) = readText w := by
  have hcolon : find [58] (key ++ 58 :: w) = some (58 :: w) := by
    rw [find_append_of_not_mem hkey]
    exact find_append_self (by simp) w
  have hend : contains [34] (w.dropWhile isSkipped) = true := by
    refine contains_iff_infix.2 ?_
    obtain ⟨a, b, hab⟩ := append_of_mem hquote
    exact ⟨a, b, by rw [hab, append_assoc, singleton_append]⟩
  rw [contains] at hend
  obtain ⟨r, hr⟩ := isSome_iff_exists.1 hend
  rw [readValue, hcolon]
  simp only [drop_succ_cons, drop_zero, hr]
  rfl

theorem readValue_literal {key : Bytes} (jsonBody s rest : Bytes) (hkey : 58 ∉ key) :
    readValue jsonBody (key ++ 58 :: 34 :: (jsonQuoting.text s ++ 34 :: 44 :: 34 :: rest)) =
      jsonQuoting.scanned s := by
  have htext : 34 :: (jsonQuoting.text s ++ 34 :: 44 :: 34 :: rest) =
      (34 :: (jsonQuoting.text s ++ [34])) ++ 44 :: 34 :: rest := by
    rw [cons_append, append_assoc, singleton_append]
  rw [readValue_eq jsonBody hkey (htext ▸ quote_mem_dropWhile _ rest),
    readText_literal]

/-! ## The fields of a miner -/

def walletWord : Bytes := ascii "wallet_address"

def modelWord : Bytes := ascii "model_name"

theorem walletKey_eq : walletKey = 34 :: (walletWord ++ [34]) := by
  decide

theorem modelKey_eq : modelKey = 34 :: (modelWord ++ [34]) := by
  decide

section Fields

variable (m) (jsonBody Y : Bytes)

def onlineText : Bytes :=
  onlineMarker ++ (m.gpuMember ++ (m.fromWallet ++ Y))

def beforeGpu : Bytes :=
  onlineMarker ++ 44 :: (gpuKey ++ [58])

theorem onlineText_eq : onlineText m Y = beforeGpu ++
    34 :: (jsonQuoting.text m.gpuName ++ 34 :: (m.numbers ++ (m.fromWallet ++ Y))) := by
  simp only [onlineText, beforeGpu, gpuMember, append_assoc, cons_append,
    nil_append]

theorem forwardField_gpu : forwardField jsonBody (onlineText m Y) gpuKey =
    jsonQuoting.scanned m.gpuName := by
  obtain ⟨rest, hrest⟩ : ∃ rest, m.numbers = 44 :: 34 :: rest := ⟨_, rfl⟩
  have htext : onlineText m Y = (onlineMarker ++ [44]) ++ (gpuKey ++
      58 :: 34 :: (jsonQuoting.text m.gpuName ++
        34 :: 44 :: 34 :: (rest ++ (m.fromWallet ++ Y)))) := by
    simp only [onlineText, gpuMember, hrest, append_assoc, cons_append,
      nil_append]
  rw [htext, forwardField_eq jsonBody (by decide) (of_passes (by decide) _) (by decide)
    (by decide), readValue_literal jsonBody _ _ (by decide)]

theorem brace_not_mem_literal {s : Bytes} (h : 125 ∉ s) : 125 ∉ 34 :: jsonQuoting.text s := by
  rw [mem_cons, not_or, brace_mem_text_iff]
  exact ⟨by decide, h⟩

theorem forwardField_wallet_of_brace (h : 125 ∈ m.gpuName) :
    forwardField jsonBody (onlineText m Y) walletKey = [] := by
  obtain ⟨front, back, hgpu, hfront⟩ := eq_append_cons_of_mem h
  have hbrace : jsonQuoting.text (125 :: back) = 125 :: jsonQuoting.text back := rfl
  have hword : 125 ∉ walletWord := by decide
  -- the reply is cut at the first brace, and no key is in front of it
  have htext : onlineText m Y = (beforeGpu ++ 34 :: jsonQuoting.text front) ++
      125 :: (jsonQuoting.text back ++ 34 :: (m.numbers ++ (m.fromWallet ++ Y))) := by
    rw [onlineText_eq, hgpu, text_append, hbrace]
    simp only [append_assoc, cons_append]
  have hbefore : 125 ∉ beforeGpu ++ 34 :: jsonQuoting.text front := by
    rw [mem_append, not_or]
    exact ⟨by decide, brace_not_mem_literal hfront⟩
  rw [htext]
  apply forwardField_eq_nil jsonBody _ hbefore
  rw [noStart_append, ← cons_append, ← hbrace, walletKey_eq]
  refine ⟨of_passes (by decide) _, noStart_cut_literal (by decide) ?_⟩
  intro z hvalue
  exact hword (hvalue ▸ mem_append_right _ mem_cons_self)

theorem forwardField_wallet (h : 125 ∉ m.gpuName) (hhides : ¬ Quoting.Hides walletWord m.gpuName) :
    forwardField jsonBody (onlineText m Y) walletKey = jsonQuoting.scanned m.walletAddress := by
  -- the reply is cut at the key of the wallet
  have htext : onlineText m Y = (beforeGpu ++ 34 :: (jsonQuoting.text m.gpuName ++
      34 :: m.numbers)) ++ (walletKey ++ 58 :: 34 :: (jsonQuoting.text m.walletAddress ++
        34 :: 44 :: 34 :: (ascii "tokens_per_tknc\":" ++
          (toString64 m.tokensPerTknc.toInt ++ 125 :: Y)))) := by
    have hcomma : ascii ",\"tokens_per_tknc\":" = 44 :: 34 :: ascii "tokens_per_tknc\":" := by
      decide
    rw [onlineText_eq, fromWallet, hcomma]
    simp only [append_assoc, cons_append, nil_append]
  have hbefore : 125 ∉ beforeGpu ++ 34 :: (jsonQuoting.text m.gpuName ++ 34 :: m.numbers) := by
    have hliteral := brace_not_mem_literal h
    have hnumbers := brace_not_mem_numbers m
    have hfixed : 125 ∉ beforeGpu := by decide
    simp only [mem_append, mem_cons, not_or] at hliteral ⊢
    exact ⟨hfixed, hliteral.1, hliteral.2, hliteral.1, hnumbers⟩
  rw [htext, forwardField_eq jsonBody (by decide) _ hbefore (by decide),
    readValue_literal jsonBody _ _ (by decide)]
  rw [noStart_append, walletKey_eq]
  refine ⟨of_passes (by decide) _, noStart_string (by decide) ?_ ?_⟩
  · exact fun hfound => absurd hfound hhides
  · exact noStart_numbers m _ (by decide) (by decide) _

theorem readValue_numbers : readValue jsonBody (walletKey ++ (m.numbers ++ Y)) =
    toString64 m.gpuVramTotalMb.toInt ++ [44] := by
  have htext : walletKey ++ (m.numbers ++ Y) = (walletKey ++ ascii ",\"gpu_vram_total_mb\"") ++
      58 :: (toString64 m.gpuVramTotalMb.toInt ++ 44 :: 34 :: (ascii "hashrate\":" ++
        (m.hashrate.text ++ 44 :: Y))) := by
    have hvram : ascii ",\"gpu_vram_total_mb\":" = ascii ",\"gpu_vram_total_mb\"" ++ [58] := by
      decide
    have hhashrate : ascii ",\"hashrate\":" = 44 :: 34 :: ascii "hashrate\":" := by decide
    rw [numbers, hvram, hhashrate]
    simp only [append_assoc, cons_append, nil_append]
  have hdigits : ∀ b ∈ toString64 m.gpuVramTotalMb.toInt, isSkipped b = false := by
    intro b hb
    have hblank : b ≠ 32 := fun h => not_mem_toString64 (by decide) _ (h ▸ hb)
    have hquote : b ≠ 34 := fun h => not_mem_toString64 (by decide) _ (h ▸ hb)
    simp [isSkipped, hblank, hquote]
  rw [htext, readValue_eq jsonBody (by decide) (quote_mem_dropWhile _ _),
    readText_bare hdigits]

theorem forwardField_wallet_of_hides (h : 125 ∉ m.gpuName)
    (hhides : Quoting.Hides walletWord m.gpuName) :
    forwardField jsonBody (onlineText m Y) walletKey =
      toString64 m.gpuVramTotalMb.toInt ++ [44] := by
  have hword : jsonQuoting.Plain walletWord := by decide
  obtain ⟨front, hfront, hstart⟩ := exists_of_hides hword hhides
  -- the reply is cut in the literal of the GPU, where the word begins
  have htext : onlineText m Y =
      (beforeGpu ++ front) ++ (walletKey ++ (m.numbers ++ (m.fromWallet ++ Y))) := by
    rw [onlineText_eq, ← cons_append, hfront, walletKey_eq]
    simp only [append_assoc, cons_append, nil_append]
  have hbefore : 125 ∉ beforeGpu ++ front := by
    rw [mem_append, not_or]
    refine ⟨by decide, fun hmem => brace_not_mem_literal h ?_⟩
    rw [hfront]
    exact mem_append_left _ hmem
  rw [htext, forwardField_eq jsonBody (by decide) _ hbefore (by decide), readValue_numbers]
  rw [noStart_append, walletKey_eq]
  refine ⟨of_passes (by decide) _, ?_⟩
  rw [cons_append, append_assoc, singleton_append]
  exact hstart _

/-! ## The model in front of the marker -/

theorem not_modelKey_at_marker : ¬ modelKey <+: onlineText m Y := by
  rw [onlineText, modelKey, onlineMarker]
  simp [ascii, cons_prefix_cons]

theorem backwardField_eq {before u : Bytes} {c : UInt8} (online : Bytes)
    (hbody : jsonBody = before ++ c :: (u ++ online)) (hkey : modelKey <+: c :: (u ++ online))
    (honline : ¬ modelKey <+: online) (hstart : NoStart modelKey u online) :
    backwardField jsonBody online modelKey = readValue jsonBody (c :: (u ++ online)) := by
  have hpos : jsonBody.length - online.length = before.length + (u.length + 1) := by
    rw [hbody]
    simp only [length_append, length_cons]
    omega
  have hfind : rfind modelKey jsonBody (jsonBody.length - online.length) =
      some (c :: (u ++ online)) := by
    rw [hpos, hbody]
    exact rfind_of_noStart hkey honline hstart before
  rw [backwardField, hfind]

theorem backwardField_model {before : Bytes}
    (hbody : jsonBody = before ++ (m.modelMember ++ onlineText m Y))
    (hhides : ¬ Quoting.Hides modelWord m.modelName) :
    backwardField jsonBody (onlineText m Y) modelKey = jsonQuoting.scanned m.modelName := by
  obtain ⟨rest, hrest⟩ : ∃ rest, onlineText m Y = 34 :: rest := ⟨_, rfl⟩
  have htext : m.modelMember ++ onlineText m Y = 34 :: ((modelWord ++ [34, 58] ++
      34 :: (jsonQuoting.text m.modelName ++ [34, 44])) ++ onlineText m Y) := by
    rw [modelMember, modelKey_eq]
    simp only [append_assoc, cons_append, nil_append]
  have hfield : 34 :: ((modelWord ++ [34, 58] ++ 34 :: (jsonQuoting.text m.modelName ++
      [34, 44])) ++ onlineText m Y) = modelKey ++ 58 :: 34 :: (jsonQuoting.text m.modelName ++
        34 :: 44 :: 34 :: rest) := by
    rw [hrest, modelKey_eq]
    simp only [append_assoc, cons_append, nil_append]
  rw [htext] at hbody
  rw [backwardField_eq jsonBody _ hbody _ (not_modelKey_at_marker m Y), hfield,
    readValue_literal jsonBody _ _ (by decide)]
  · rw [noStart_append, modelKey_eq]
    refine ⟨of_passes (by decide) _, noStart_string (by decide) ?_ ?_⟩
    · exact fun hfound => absurd hfound hhides
    · exact of_passes (by decide) _
  · rw [hfield]
    exact prefix_append _ _

theorem backwardField_model_of_hides {before : Bytes}
    (hbody : jsonBody = before ++ (m.modelMember ++ onlineText m Y))
    (hhides : Quoting.Hides modelWord m.modelName) :
    backwardField jsonBody (onlineText m Y) modelKey = ascii "online" := by
  have hword : jsonQuoting.Plain modelWord := by decide
  obtain ⟨front, hfront, -⟩ := exists_of_hides hword hhides
  obtain ⟨rest, hrest⟩ : ∃ rest, m.gpuMember = 44 :: 34 :: rest := ⟨_, rfl⟩
  -- the search backward meets the word in the literal before the key
  have htext : before ++ (m.modelMember ++ onlineText m Y) =
      (before ++ (modelKey ++ 58 :: front)) ++
        34 :: ((modelWord ++ [34, 44]) ++ onlineText m Y) := by
    have hliteral : 34 :: (jsonQuoting.text m.modelName ++ [34, 44]) =
        front ++ 34 :: (modelWord ++ [34, 44]) := by
      rw [← cons_append, hfront, append_assoc, cons_append]
    rw [modelMember, hliteral]
    simp only [append_assoc, cons_append]
  have hfield : 34 :: ((modelWord ++ [34, 44]) ++ onlineText m Y) =
      (modelKey ++ ascii ",\"status\"") ++ 58 :: 34 :: (jsonQuoting.text (ascii "online") ++
        34 :: 44 :: 34 :: (rest ++ (m.fromWallet ++ Y))) := by
    have hmarker : 44 :: onlineMarker = ascii ",\"status\"" ++
        58 :: 34 :: (jsonQuoting.text (ascii "online") ++ [34]) := by decide
    rw [onlineText, hrest, modelKey_eq]
    have hboth : ∀ v, 44 :: (onlineMarker ++ v) = ascii ",\"status\"" ++
        58 :: 34 :: (jsonQuoting.text (ascii "online") ++ 34 :: v) := by
      intro v
      rw [← cons_append, hmarker]
      simp only [append_assoc, cons_append, nil_append]
    simp only [append_assoc, cons_append, nil_append, hboth]
  rw [htext] at hbody
  rw [backwardField_eq jsonBody _ hbody _ (not_modelKey_at_marker m Y), hfield,
    readValue_literal jsonBody _ _ (by decide), scanned_eq_iff]
  · decide
  · exact of_passes (by decide) _
  · rw [hfield, append_assoc]
    exact prefix_append _ _

end Fields

/-! ## The registrations of a whole list -/

def readBack (m : LiveMinerInfo) : Option Registration :=
  if 125 ∈ m.gpuName then none
  else some
    { wallet := if Quoting.Hides walletWord m.gpuName then toString64 m.gpuVramTotalMb.toInt ++ [44]
        else jsonQuoting.scanned m.walletAddress
      model := if Quoting.Hides modelWord m.modelName then ascii "online"
        else jsonQuoting.scanned m.modelName
      gpu := jsonQuoting.scanned m.gpuName }

def registered (m : LiveMinerInfo) : Option Registration :=
  if m.status = ascii "online" then readBack m else none

theorem registrationAt_onlineText {jsonBody before : Bytes} (m : LiveMinerInfo) (Y : Bytes)
    (hbody : jsonBody = before ++ (m.modelMember ++ onlineText m Y)) :
    registrationAt jsonBody (onlineText m Y) = readBack m := by
  have hmodel : backwardField jsonBody (onlineText m Y) modelKey =
      if Quoting.Hides modelWord m.modelName then ascii "online"
      else jsonQuoting.scanned m.modelName := by
    split
    · exact backwardField_model_of_hides m jsonBody Y hbody ‹_›
    · exact backwardField_model m jsonBody Y hbody ‹_›
  rw [registrationAt, readBack, hmodel, forwardField_gpu]
  by_cases hbrace : 125 ∈ m.gpuName
  · rw [forwardField_wallet_of_brace m jsonBody Y hbrace, if_pos hbrace]
    exact if_neg (not_not_intro rfl)
  · rw [if_neg hbrace]
    by_cases hhides : Quoting.Hides walletWord m.gpuName
    · rw [forwardField_wallet_of_hides m jsonBody Y hbrace hhides, if_pos hhides]
      exact if_pos (append_ne_nil_of_right_ne_nil _ (cons_ne_nil _ _))
    · rw [forwardField_wallet m jsonBody Y hbrace hhides, if_neg hhides]
      exact if_pos (jsonQuoting.scanned_ne_nil _)

/-- One object: its own registration, and then those of the text behind it. -/
theorem registrationsFrom_minerObj {jsonBody before : Bytes} (m : LiveMinerInfo) (Y : Bytes)
    (hbody : jsonBody = before ++ (minerObj m ++ Y)) :
    registrationsFrom jsonBody (minerObj m ++ Y) =
      (registered m).toList ++ registrationsFrom jsonBody Y := by
  rw [m.minerObj_eq] at hbody ⊢
  simp only [append_assoc] at hbody ⊢
  rw [registrationsFrom_append jsonBody (noStart_marker_beforeModel _),
    registrationsFrom_append jsonBody (noStart_marker_modelMember _), registered]
  by_cases hstatus : m.status = ascii "online"
  · have honline : ascii "\"status\":" ++ (34 :: (jsonQuoting.text m.status ++
        34 :: (m.gpuMember ++ m.fromWallet)) ++ Y) = onlineText m Y := by
      have hmarker : onlineMarker =
          ascii "\"status\":" ++ 34 :: (jsonQuoting.text (ascii "online") ++ [34]) := by decide
      rw [hstatus, onlineText, hmarker]
      simp only [append_assoc, cons_append, nil_append]
    rw [honline, ← append_assoc] at hbody
    rw [honline, if_pos hstatus]
    calc
      registrationsFrom jsonBody (onlineText m Y)
          = (registrationAt jsonBody (onlineText m Y)).toList ++
              registrationsFrom jsonBody (m.gpuMember ++ (m.fromWallet ++ Y)) :=
            registrationsFrom_marker jsonBody _
      _ = (readBack m).toList ++ registrationsFrom jsonBody (m.fromWallet ++ Y) := by
            rw [registrationAt_onlineText m Y hbody,
              registrationsFrom_append jsonBody (noStart_marker_gpuMember _)]
      _ = (readBack m).toList ++ registrationsFrom jsonBody Y := by
            rw [registrationsFrom_append jsonBody (noStart_marker_fromWallet _)]
  · have hrest : NoStart onlineMarker (34 :: (m.gpuMember ++ m.fromWallet)) Y := by
      rw [← cons_append, noStart_append]
      refine ⟨⟨?_, noStart_marker_gpuMember _⟩, noStart_marker_fromWallet _⟩
      simp [onlineMarker, gpuMember, ascii, cons_prefix_cons]
    rw [if_neg hstatus, ← append_assoc,
      registrationsFrom_append jsonBody (noStart_marker_status hstatus rfl hrest)]
    rfl

theorem intercalate_cons (v : Bytes) (vs : List Bytes) :
    [44].intercalate (v :: vs) = v ++ vs.flatMap (44 :: ·) := by
  induction vs generalizing v with
  | nil => simp [intercalate]
  | cons w vs ih =>
    have hstep : [44].intercalate (v :: w :: vs) = v ++ 44 :: [44].intercalate (w :: vs) := by
      simp [intercalate]
    rw [hstep, ih, flatMap_cons, cons_append]

theorem registrationsFrom_objects {jsonBody rest : Bytes} (miners : List LiveMinerInfo)
    (hrest : registrationsFrom jsonBody rest = []) (before : Bytes)
    (hbody : jsonBody = before ++ ((miners.map minerObj).flatMap (44 :: ·) ++ rest)) :
    registrationsFrom jsonBody ((miners.map minerObj).flatMap (44 :: ·) ++ rest) =
      miners.filterMap registered := by
  induction miners generalizing before with
  | nil => exact hrest
  | cons m miners ih =>
    rw [map_cons, flatMap_cons, cons_append, cons_append,
      append_assoc] at hbody ⊢
    have hcomma : NoStart onlineMarker [44] (minerObj m ++
        ((miners.map minerObj).flatMap (44 :: ·) ++ rest)) := of_passes (by decide) _
    have hobject : jsonBody = (before ++ [44]) ++ (minerObj m ++
        ((miners.map minerObj).flatMap (44 :: ·) ++ rest)) := by
      rw [hbody, append_assoc, singleton_append]
    have hlater : jsonBody = (before ++ [44] ++ minerObj m) ++
        ((miners.map minerObj).flatMap (44 :: ·) ++ rest) := by
      rw [hobject, append_assoc _ (minerObj m)]
    rw [← singleton_append, registrationsFrom_append jsonBody hcomma,
      registrationsFrom_minerObj m _ hobject, ih _ hlater, filterMap_cons]
    cases registered m <;> rfl

def replyEnd (miners : List LiveMinerInfo) : Bytes :=
  ascii "],\"count\":" ++ (toString64 miners.length ++ [125])

theorem minersListReply_eq (miners : List LiveMinerInfo) :
    minersListReply miners = ascii "\x7b\"miners\":[" ++
      ([44].intercalate (miners.map minerObj) ++ replyEnd miners) := by
  have hkeys : writeStr (ascii "miners") = ascii "\"miners\"" ∧
      writeStr (ascii "count") = ascii "\"count\"" := by decide
  have hfirst : ascii "\x7b\"miners\":[" = 123 :: (ascii "\"miners\"" ++ [58, 91]) := by decide
  have hcount : ascii "],\"count\":" = 93 :: 44 :: (ascii "\"count\"" ++ [58]) := by decide
  rw [minersListReply, writeObject, replyEnd, hfirst, hcount]
  simp only [map_cons, map_nil, hkeys]
  simp only [writeArray, intercalate, intersperse, flatten_cons, flatten_nil,
    append_assoc, cons_append, nil_append, append_nil]

theorem registrationsFrom_replyEnd (jsonBody : Bytes) (miners : List LiveMinerInfo) :
    registrationsFrom jsonBody (replyEnd miners) = [] := by
  have hstart : NoStart onlineMarker (replyEnd miners) [] := by
    rw [replyEnd, noStart_append, noStart_append]
    refine ⟨of_passes (by decide) _, ?_, of_passes (by decide) _⟩
    rw [onlineMarker_eq]
    exact of_not_mem (not_mem_toString64 (by decide) _) _ _
  have hskip := registrationsFrom_append jsonBody hstart
  rw [append_nil] at hskip
  rw [hskip]
  exact registrationsFrom_of_none rfl

theorem registrations_minersListReply (miners : List LiveMinerInfo) :
    registrations (minersListReply miners) = miners.filterMap registered := by
  have hreply := minersListReply_eq miners
  rw [registrations]
  -- the whole text stays fixed while the loop goes through it
  generalize hbody : minersListReply miners = jsonBody
  rw [hreply] at hbody
  nth_rewrite 2 [← hbody]
  rw [registrationsFrom_append jsonBody (of_passes (by decide) _)]
  cases miners with
  | nil => exact registrationsFrom_replyEnd jsonBody []
  | cons m miners =>
    rw [map_cons, intercalate_cons, append_assoc] at hbody ⊢
    have hlater : jsonBody = (ascii "\x7b\"miners\":[" ++ minerObj m) ++
        ((miners.map minerObj).flatMap (44 :: ·) ++ replyEnd (m :: miners)) := by
      rw [← hbody, append_assoc]
    calc
      registrationsFrom jsonBody (minerObj m ++
          ((miners.map minerObj).flatMap (44 :: ·) ++ replyEnd (m :: miners)))
          = (registered m).toList ++ registrationsFrom jsonBody
              ((miners.map minerObj).flatMap (44 :: ·) ++ replyEnd (m :: miners)) :=
            registrationsFrom_minerObj m _ hbody.symm
      _ = (registered m).toList ++ miners.filterMap registered := by
            rw [registrationsFrom_objects miners (registrationsFrom_replyEnd jsonBody _) _ hlater]
      _ = (m :: miners).filterMap registered := by
            rw [filterMap_cons]
            cases registered m <;> rfl

/-! ## The miners that are seen -/

/-- What should be registered: the miner's own wallet, model and GPU, if it is online and has a
wallet. -/
def expected (m : LiveMinerInfo) : Option Registration :=
  if m.status = ascii "online" ∧ m.walletAddress ≠ [] then
    some ⟨m.walletAddress, m.modelName, m.gpuName⟩
  else none

/-- Equal results of two partial functions come from the same elements when the second is defined
wherever the first is. -/
theorem eq_of_filterMap_eq {α β : Type} {f g : α → Option β} {l : List α}
    (hdefined : ∀ a ∈ l, (f a).isSome = true → (g a).isSome = true)
    (h : l.filterMap f = l.filterMap g) : ∀ a ∈ l, f a = g a := by
  have hlength : ∀ l : List α, (∀ a ∈ l, (f a).isSome = true → (g a).isSome = true) →
      (l.filterMap f).length ≤ (l.filterMap g).length := by
    intro l hl
    rw [length_filterMap_eq_countP, length_filterMap_eq_countP]
    exact countP_mono_left hl
  induction l with
  | nil => exact forall_mem_nil _
  | cons a l ih =>
    rw [forall_mem_cons] at hdefined
    rw [filterMap_cons, filterMap_cons] at h
    cases hf : f a with
    | some x =>
      obtain ⟨y, hy⟩ := isSome_iff_exists.1 (hdefined.1 (by rw [hf]; rfl))
      rw [hf, hy] at h
      obtain ⟨hxy, hrest⟩ := cons.inj h
      refine forall_mem_cons.2 ⟨?_, ih hdefined.2 hrest⟩
      rw [hf, hy, hxy]
    | none =>
      cases hg : g a with
      | none =>
        rw [hf, hg] at h
        exact forall_mem_cons.2 ⟨hf.trans hg.symm, ih hdefined.2 h⟩
      | some y =>
        -- one result too many
        rw [hf, hg] at h
        have hle := hlength l hdefined.2
        have heq : (l.filterMap f).length = (y :: l.filterMap g).length :=
          congrArg length h
        rw [length_cons] at heq
        omega

theorem brace_not_mem_of_registered {m : LiveMinerInfo} {r : Registration}
    (h : registered m = some r) : 125 ∉ r.gpu := by
  rw [registered] at h
  split at h
  · rw [readBack] at h
    split at h
    · cases h
    · rename_i hbrace
      cases h
      exact not_mem_scanned (by decide) brace_not_mem_escapes (by decide) hbrace
  · cases h

theorem registrations_eq_iff (miners : List LiveMinerInfo) :
    registrations (minersListReply miners) = miners.filterMap expected ↔
      ∀ m ∈ miners, registered m = expected m := by
  rw [registrations_minersListReply]
  constructor
  · intro h m hm
    refine (eq_of_filterMap_eq ?_ h.symm m hm).symm
    intro m hm hsome
    -- an expected registration is among those that were made, so no brace is in its way
    obtain ⟨r, hr⟩ := isSome_iff_exists.1 hsome
    have hmem : r ∈ miners.filterMap registered := by
      rw [h]
      exact mem_filterMap.2 ⟨m, hm, hr⟩
    obtain ⟨m', -, hm'⟩ := mem_filterMap.1 hmem
    have hbrace := brace_not_mem_of_registered hm'
    rw [expected] at hr
    split at hr
    · rename_i heligible
      cases hr
      rw [registered, if_pos heligible.1, readBack, if_neg hbrace]
      rfl
    · cases hr
  · intro h
    exact filterMap_congr h

/-- A value that is read from its own literal unless it hides a mark, and as `other` then. -/
theorem read_eq_iff {word other : Bytes} (value : Bytes) (hother : 34 ∉ other)
    (hne : other ≠ word) :
    (if Quoting.Hides word value then other else jsonQuoting.scanned value) = value ↔
      jsonQuoting.Readable value ∧ value ≠ word := by
  by_cases hhides : Quoting.Hides word value
  · rw [if_pos hhides]
    refine iff_of_false ?_ ?_
    · rintro rfl
      rcases hhides with hword | hend
      · exact hne hword
      · exact hother (hend.subset mem_cons_self)
    · rintro ⟨⟨-, -, hplain⟩, hword⟩
      rcases hhides with heq | hend
      · exact hword heq
      · exact (plain_ne (hplain _ (hend.subset mem_cons_self))).1 rfl
  · rw [if_neg hhides, scanned_eq_iff]
    exact (and_iff_left fun hword => hhides (Or.inl hword)).symm

theorem hides_iff_of_plain {word value : Bytes} (h : jsonQuoting.Plain value) :
    Quoting.Hides word value ↔ value = word := by
  refine or_iff_left ?_
  intro hend
  exact (plain_ne (h _ (hend.subset mem_cons_self))).1 rfl

/-- The condition on a miner that is online: without a wallet it is hidden by a brace in the name of
its GPU, and with a wallet every name is read as it is. -/
def ReadAsWritten (m : LiveMinerInfo) : Prop :=
  if m.walletAddress = [] then 125 ∈ m.gpuName
  else
    125 ∉ m.gpuName ∧
      (jsonQuoting.Readable m.modelName ∧ m.modelName ≠ modelWord) ∧
      jsonQuoting.Readable m.gpuName ∧
      if m.gpuName = walletWord then m.walletAddress = toString64 m.gpuVramTotalMb.toInt ++ [44]
      else jsonQuoting.Readable m.walletAddress

instance (m : LiveMinerInfo) : Decidable (ReadAsWritten m) := by
  unfold ReadAsWritten
  infer_instance

theorem registered_eq_expected_iff (m : LiveMinerInfo) :
    registered m = expected m ↔ (m.status = ascii "online" → ReadAsWritten m) := by
  rw [registered, expected, ReadAsWritten]
  by_cases hstatus : m.status = ascii "online"
  · rw [if_pos hstatus, forall_prop_of_true hstatus, readBack]
    by_cases hwallet : m.walletAddress = []
    · have hnone : ¬ (m.status = ascii "online" ∧ m.walletAddress ≠ []) := fun h => h.2 hwallet
      rw [if_neg hnone, if_pos hwallet]
      by_cases hbrace : 125 ∈ m.gpuName
      · rw [if_pos hbrace]
        exact iff_of_true rfl hbrace
      · rw [if_neg hbrace]
        exact iff_of_false (some_ne_none _) hbrace
    · have hsome : m.status = ascii "online" ∧ m.walletAddress ≠ [] := ⟨hstatus, hwallet⟩
      rw [if_pos hsome, if_neg hwallet]
      by_cases hbrace : 125 ∈ m.gpuName
      · rw [if_pos hbrace]
        exact iff_of_false (some_ne_none _).symm (fun h => h.1 hbrace)
      · rw [if_neg hbrace, some.injEq, Registration.mk.injEq, and_iff_right hbrace,
          read_eq_iff m.modelName (by decide) (by decide), scanned_eq_iff, and_comm,
          and_assoc]
        refine and_congr_right fun _ => and_congr_right fun hgpu => ?_
        by_cases hword : m.gpuName = walletWord
        · rw [if_pos hword, if_pos ((hides_iff_of_plain hgpu.2.2).2 hword), eq_comm]
        · rw [if_neg hword, if_neg (mt (hides_iff_of_plain hgpu.2.2).1 hword),
            scanned_eq_iff]
  · have hnone : ¬ (m.status = ascii "online" ∧ m.walletAddress ≠ []) := fun h => hstatus h.1
    rw [if_neg hstatus, if_neg hnone]
    exact iff_of_true rfl (fun h => absurd h hstatus)

/-! ## The registry -/

theorem registerAll_of_forall_ne {port : UInt16} {clock : Nat → Int} {rs : List Registration}
    {wallet : Bytes} (h : ∀ r ∈ rs, r.wallet ≠ wallet) (k : Nat) (registry : Entries) :
    registerAll port clock k rs registry wallet = registry wallet := by
  induction rs generalizing k registry with
  | nil => rfl
  | cons r rs ih =>
    rw [forall_mem_cons] at h
    rw [registerAll, ih h.2, register, Function.update_of_ne (Ne.symm h.1)]

theorem exists_registerAll (port : UInt16) (clock : Nat → Int) {rs : List Registration}
    {wallet : Bytes} (h : ∃ r ∈ rs, r.wallet = wallet) (k : Nat) (registry : Entries) :
    ∃ r ∈ rs, r.wallet = wallet ∧
      ∃ seen, registerAll port clock k rs registry wallet = some (r.entry port seen) := by
  induction rs generalizing k registry with
  | nil =>
    obtain ⟨r, hr, -⟩ := h
    cases hr
  | cons s rs ih =>
    by_cases hlater : ∃ r ∈ rs, r.wallet = wallet
    · obtain ⟨r, hr, hwallet, hentry⟩ := ih hlater (k + 1) (register registry port (clock k) s)
      exact ⟨r, mem_cons_of_mem _ hr, hwallet, hentry⟩
    · -- nothing is written to the wallet any more
      obtain ⟨r, hr, hwallet⟩ := h
      rcases mem_cons.1 hr with rfl | hrest
      · refine ⟨r, mem_cons_self, hwallet, clock k, ?_⟩
        have hnone : ∀ r' ∈ rs, r'.wallet ≠ wallet := fun r' hr' heq => hlater ⟨r', hr', heq⟩
        rw [registerAll, registerAll_of_forall_ne hnone, register, ← hwallet,
          Function.update_self]
      · exact absurd ⟨r, hrest, hwallet⟩ hlater

/-- One registration is made for each miner that is online and has a wallet, with its own wallet,
model and GPU, and none for the others; and its entry is there at the end. -/
def SeesMiners (registry : Entries) (port : UInt16) (clock : Nat → Int)
    (miners : List LiveMinerInfo) : Prop :=
  registrations (minersListReply miners) = miners.filterMap expected ∧
    ∀ m ∈ miners, ∀ r ∈ expected m, ∃ seen,
      parseMinersResponse registry (minersListReply miners) port clock r.wallet =
        some (r.entry port seen)

def AgreeOnWallets (miners : List LiveMinerInfo) : Prop :=
  ∀ m ∈ miners, ∀ n ∈ miners, m.status = ascii "online" → n.status = ascii "online" →
    m.walletAddress ≠ [] → m.walletAddress = n.walletAddress →
      m.modelName = n.modelName ∧ m.gpuName = n.gpuName

theorem expected_eq_some_iff {m : LiveMinerInfo} {r : Registration} :
    expected m = some r ↔ m.status = ascii "online" ∧ m.walletAddress ≠ [] ∧
      r = ⟨m.walletAddress, m.modelName, m.gpuName⟩ := by
  rw [expected]
  split
  · rename_i h
    rw [some.injEq, and_iff_right h.1, and_iff_right h.2, eq_comm]
  · rename_i h
    exact iff_of_false (some_ne_none _).symm fun hr => h ⟨hr.1, hr.2.1⟩

theorem entries_iff_agree {miners : List LiveMinerInfo}
    (h : registrations (minersListReply miners) = miners.filterMap expected) (registry : Entries)
    (port : UInt16) (clock : Nat → Int) :
    (∀ m ∈ miners, ∀ r ∈ expected m, ∃ seen,
      parseMinersResponse registry (minersListReply miners) port clock r.wallet =
        some (r.entry port seen)) ↔ AgreeOnWallets miners := by
  rw [parseMinersResponse, h]
  constructor
  · intro hentries m hm n hn hmonline hnonline hwallet hsame
    have hmr := expected_eq_some_iff.2 ⟨hmonline, hwallet, rfl⟩
    have hnr := expected_eq_some_iff.2 ⟨hnonline, hsame ▸ hwallet, rfl⟩
    obtain ⟨seen, hseen⟩ := hentries m hm _ hmr
    obtain ⟨seen', hseen'⟩ := hentries n hn _ hnr
    rw [hsame] at hseen
    have hentry := some.inj (hseen.symm.trans hseen')
    exact ⟨congrArg LocalMinerEntry.modelName hentry, congrArg LocalMinerEntry.gpuName hentry⟩
  · intro hagree m hm r hr
    have hmem : r ∈ miners.filterMap expected := mem_filterMap.2 ⟨m, hm, hr⟩
    obtain ⟨r', hr', hwallet, seen, hseen⟩ :=
      exists_registerAll port clock ⟨r, hmem, rfl⟩ 0 registry
    obtain ⟨n, hn, hnr⟩ := mem_filterMap.1 hr'
    obtain ⟨hmonline, hmwallet, rfl⟩ := expected_eq_some_iff.1 hr
    obtain ⟨hnonline, -, rfl⟩ := expected_eq_some_iff.1 hnr
    have hkey : n.walletAddress = m.walletAddress := hwallet
    have hsame := hagree m hm n hn hmonline hnonline hmwallet hkey.symm
    refine ⟨seen, ?_⟩
    rw [hseen, hsame.1, hsame.2, hkey]

/-- The node sees the miners of the list exactly when each miner that is online is read as it is
written, and those with one wallet agree. -/
theorem seesMiners_iff (registry : Entries) (port : UInt16) (clock : Nat → Int)
    (miners : List LiveMinerInfo) :
    SeesMiners registry port clock miners ↔
      (∀ m ∈ miners, m.status = ascii "online" → ReadAsWritten m) ∧ AgreeOnWallets miners := by
  have hpointwise : registrations (minersListReply miners) = miners.filterMap expected ↔
      ∀ m ∈ miners, m.status = ascii "online" → ReadAsWritten m := by
    rw [registrations_eq_iff]
    exact forall₂_congr fun m _ => registered_eq_expected_iff m
  rw [SeesMiners, ← hpointwise]
  exact and_congr_right fun h => entries_iff_agree h registry port clock

def minerWithoutWallet : LiveMinerInfo where
  minerId := ascii "m1"
  modelName := ascii "llama"
  status := ascii "online"
  gpuName := ascii "RTX"
  gpuVramTotalMb := 8192
  hashrate := ⟨false, ⟨ascii "0", by simp [ascii, isDigit]⟩, fun _ => rfl, none, none⟩
  walletAddress := []
  tokensPerTknc := 0

/-- With a wallet it is read as it is written. -/
example : ReadAsWritten { minerWithoutWallet with walletAddress := ascii "tkn1q" } := by
  decide

/-- The closing quote of the empty wallet is skipped with the opening one, and the comma behind it
is registered as a wallet. -/
theorem comma_registered_as_wallet :
    registrations (minersListReply [minerWithoutWallet]) =
      [⟨ascii ",", ascii "llama", ascii "RTX"⟩] ∧
    ∀ registry port clock, ¬ SeesMiners registry port clock [minerWithoutWallet] := by
  have hlog : registrations (minersListReply [minerWithoutWallet]) =
      [⟨ascii ",", ascii "llama", ascii "RTX"⟩] := by
    rw [registrations_minersListReply]
    decide
  refine ⟨hlog, ?_⟩
  rintro registry port clock ⟨hexpected, -⟩
  rw [hlog] at hexpected
  revert hexpected
  decide

end TKNC.Net.MinerLocalRegistry
