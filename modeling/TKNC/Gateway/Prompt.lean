import TKNC.Escrow.KeyGate
import TKNC.Gateway.FieldLookup

/-!
# Prompt — from a request body to the prompt of the model, and on to the next hop

`extractPromptFromMessages` renders the objects behind the messages key as ChatML.  A gateway puts
the rendered prompt as the only message into the body of the request it forwards.  A second gateway
renders it again, so what the model sees depends on the number of hops.
-/

namespace TKNC.Gateway

open ApiKey
open List hiding contains
open Escrow.KeyGate (ChatRequest)
open Lib.JsonText Lib.MachineInt Lib.Numeral Lib.TextSearch

/-- Where the scan stands: between objects, or inside one at a depth of braces, outside or inside a
string or behind a backslash in a string.  `seen` is the object so far. -/
inductive ScanState where
  | seeking
  | code (depth : Nat) (seen : Bytes)
  | string (depth : Nat) (seen : Bytes)
  | escape (depth : Nat) (seen : Bytes)
  deriving DecidableEq

structure ObjectScan where
  state : ScanState
  objects : List Bytes
  deriving DecidableEq

def ObjectScan.step (s : ObjectScan) (c : UInt8) : ObjectScan :=
  match s.state with
  -- anything between objects is skipped, the end of the array included
  | .seeking => if c = 123 then ⟨.code 1 [c], s.objects⟩ else s
  | .code depth seen =>
      if c = 123 then ⟨.code (depth + 1) (seen ++ [c]), s.objects⟩
      else if c = 125 then
        if depth = 1 then ⟨.seeking, s.objects ++ [seen ++ [c]]⟩
        else ⟨.code (depth - 1) (seen ++ [c]), s.objects⟩
      else if c = quote then ⟨.string depth (seen ++ [c]), s.objects⟩
      else ⟨.code depth (seen ++ [c]), s.objects⟩
  | .string depth seen =>
      if c = backslash then ⟨.escape depth (seen ++ [c]), s.objects⟩
      else if c = quote then ⟨.code depth (seen ++ [c]), s.objects⟩
      else ⟨.string depth (seen ++ [c]), s.objects⟩
  | .escape depth seen => ⟨.string depth (seen ++ [c]), s.objects⟩

/-- Objects of the text in order; one that is not closed is dropped. -/
def messageObjects (text : Bytes) : List Bytes :=
  (text.foldl ObjectScan.step ⟨.seeking, []⟩).objects

/-! ## Fields of a message -/

/-- Text of the role up to the closing quote; escapes are dropped. -/
def roleText : Bytes → Bytes
  | [] => []
  | c :: rest =>
      if c = quote then []
      else if c = backslash then
        match rest with
        | [] => [c]
        | _ :: rest => roleText rest
      else c :: roleText rest

def decodeEscape (d : UInt8) : Bytes :=
  if d = 110 then [10]
  else if d = 114 then [13]
  else if d = 116 then [9]
  else if d = quote then [quote]
  else if d = backslash then [backslash]
  else [backslash, d]

def contentText : Bytes → Bytes
  | [] => []
  | c :: rest =>
      if c = backslash then
        match rest with
        | [] => [c]
        | d :: rest => decodeEscape d ++ contentText rest
      else if c = quote then []
      else c :: contentText rest

def messageField (key : Bytes) (blank : UInt8 → Bool) (text : Bytes → Bytes) (msgObj : Bytes) :
    Bytes :=
  match find (quoted key) msgObj with
  | none => []
  | some s =>
      match find [colon] (s.drop (quoted key).length) with
      | none => []
      | some s =>
          match (s.drop 1).dropWhile blank with
          | [] => []
          | c :: rest => if c = quote then text rest else []

def messageRole (msgObj : Bytes) : Bytes :=
  messageField (ascii "role") isBlank roleText msgObj

def messageContent (msgObj : Bytes) : Bytes :=
  messageField (ascii "content") isBlankOrBreak contentText msgObj

def chatML (role content : Bytes) : Bytes :=
  if content = [] then []
  else
    ascii "<|im_start|>" ++
      (if role = ascii "system" then ascii "system"
        else if role = ascii "assistant" then ascii "assistant"
        else ascii "user") ++
      ascii "\n" ++ content ++ ascii "<|im_end|>\n"

def renderMessages (msgObjs : List Bytes) : Bytes :=
  msgObjs.flatMap (fun msgObj => chatML (messageRole msgObj) (messageContent msgObj))

def assistantTurn : Bytes :=
  ascii "<|im_start|>assistant\n"

def flatPrompt (raw : Bytes) : Bytes :=
  let p := getString raw (ascii "prompt")
  if p = [] then getString raw (ascii "content") else p

def extractPromptFromMessages (raw : Bytes) : Bytes :=
  match (find (quoted (ascii "messages")) raw).bind (find [91]) with
  | none => flatPrompt raw
  | some s =>
      let prompt := renderMessages (messageObjects (s.drop 1))
      if prompt = [] then flatPrompt raw else prompt ++ assistantTurn

/-! ## The next hop -/

def maxTokensOf (raw : Bytes) : Int :=
  if hasKey raw (ascii "max_tokens") then wrap 32 (getInt raw (ascii "max_tokens") 0)
  else if hasKey raw (ascii "n_predict") then wrap 32 (getInt raw (ascii "n_predict") 0)
  else 0

def messageOpening : Bytes :=
  ascii "\x7b\"role\": \"user\", \"content\": \""

def forwardedMessage (prompt : Bytes) : Bytes :=
  messageOpening ++ jsonEscape prompt ++ ascii "\"\x7d"

def bodyEnding (maxTokens : Int) : Bytes :=
  ascii "],\n  \"stream\": true\n" ++
    (if maxTokens ≠ 0 then ascii ",\n  \"max_tokens\": " ++ toString64 maxTokens else []) ++
    ascii "\x7d"

def minerRequestBody (apiKey prompt : Bytes) (maxTokens : Int) : Bytes :=
  ascii "\x7b\n  \"api_key\": \"" ++ apiKey ++ ascii "\",\n  \"messages\": [" ++
    forwardedMessage prompt ++ bodyEnding maxTokens

def readRequest (authorization skipHeader escrowIdHeader : Option Bytes) (body : Bytes) :
    ChatRequest :=
  { authorization := authorization
    bodyApiKey :=
      if hasKey body (ascii "api_key") then some (getString body (ascii "api_key")) else none
    prompt := extractPromptFromMessages body
    skipHeader := skipHeader
    escrowIdHeader := escrowIdHeader }

def passedOn (r : ChatRequest) : Option Bytes :=
  if r.apiKey = [] then none
  else if validateAPIKeyFormat r.apiKey = false then none
  else if r.prompt = [] then none
  else some r.prompt

/-! ## Escaped text -/

theorem copies_contentText : Copies contentText := by
  intro c s hquote hslash
  cases s <;> simp [contentText, hquote, hslash]

theorem copies_roleText : Copies roleText := by
  intro c s hquote hslash
  cases s <;> simp [roleText, hquote, hslash]

theorem roleText_quote (s : Bytes) : roleText (quote :: s) = [] := by
  cases s <;> simp [roleText]

theorem contentText_escape (d : UInt8) (s : Bytes) :
    contentText (backslash :: d :: s) = decodeEscape d ++ contentText s := by
  rw [contentText, if_pos rfl]

theorem decodeEscape_ne_nil (d : UInt8) : decodeEscape d ≠ [] := by
  unfold decodeEscape
  repeat' split
  all_goals exact cons_ne_nil _ _

def roleLetter : Letter → Bytes
  | .plain b _ => [b]
  | .escape _ => []
  | .unicode digits _ => digits

def contentLetter : Letter → Bytes
  | .plain b _ => [b]
  | .escape e => decodeEscape e.letter
  | .unicode digits _ => 92 :: 117 :: digits

theorem roleText_letter (l : Letter) (v : Bytes) :
    roleText (l.text ++ v) = roleLetter l ++ roleText v := by
  cases l with
  | plain b h => exact copies_roleText b v h.2.1 h.2.2
  | escape e => cases e <;> rfl
  | unicode digits h =>
    exact copies_roleText.append (not_mem_of_hex h.2 rfl) (not_mem_of_hex h.2 rfl) v

theorem contentText_letter (l : Letter) (v : Bytes) :
    contentText (l.text ++ v) = contentLetter l ++ contentText v := by
  cases l with
  | plain b h => exact copies_contentText b v h.2.1 h.2.2
  | escape e => exact contentText_escape e.letter v
  | unicode digits h =>
    refine (contentText_escape 117 (digits ++ v)).trans ?_
    rw [copies_contentText.append (not_mem_of_hex h.2 rfl) (not_mem_of_hex h.2 rfl)]
    rfl

theorem contentText_quote (v : Bytes) : contentText (quote :: v) = [] := by
  cases v <;> rfl

theorem contentLetter_ne_nil (l : Letter) : contentLetter l ≠ [] := by
  cases l with
  | escape e => exact decodeEscape_ne_nil e.letter
  | _ => exact cons_ne_nil _ _

theorem contentText_jsonEscape (p : Bytes) :
    contentText (jsonEscape p) = (p.map letterOf).flatMap contentLetter := by
  have hread := read_letters contentText_letter (p.map letterOf) []
  rwa [append_nil, ← jsonEscape_eq, contentText, append_nil] at hread

theorem contentText_jsonEscape_append (p s : Bytes) :
    contentText (jsonEscape p ++ s) = contentText (jsonEscape p) ++ contentText s := by
  rw [contentText_jsonEscape, jsonEscape_eq, read_letters contentText_letter]

/-- No byte is lost, although some come back as the text of their escape. -/
theorem length_le_contentText_jsonEscape (p : Bytes) :
    p.length ≤ (contentText (jsonEscape p)).length := by
  rw [contentText_jsonEscape]
  induction p with
  | nil => exact Nat.zero_le _
  | cons c p ih =>
    have hpos := length_pos_iff.2 (contentLetter_ne_nil (letterOf c))
    rw [map_cons, flatMap_cons, length_append, length_cons]
    omega

open ObjectScan

theorem foldl_step_plain {u : Bytes} (hquote : quote ∉ u) (hslash : backslash ∉ u) (depth : Nat)
    (seen : Bytes) (objects : List Bytes) :
    u.foldl step ⟨.string depth seen, objects⟩ =
      ⟨.string depth (seen ++ u), objects⟩ := by
  induction u generalizing seen with
  | nil => rw [append_nil, foldl_nil]
  | cons c u ih =>
    rw [mem_cons, not_or] at hquote hslash
    have hstep : step ⟨.string depth seen, objects⟩ c =
        ⟨.string depth (seen ++ [c]), objects⟩ := by
      simp only [step, if_neg (Ne.symm hslash.1), if_neg (Ne.symm hquote.1)]
    rw [foldl_cons, hstep, ih hquote.2 hslash.2, append_assoc, singleton_append]

theorem foldl_step_letters (s : Letters) (depth : Nat) (seen : Bytes) (objects : List Bytes) :
    (lettersText s).foldl step ⟨.string depth seen, objects⟩ =
      ⟨.string depth (seen ++ lettersText s), objects⟩ := by
  induction s generalizing seen with
  | nil => rw [lettersText, flatMap_nil, append_nil, foldl_nil]
  | cons l s ih =>
    have hletter : l.text.foldl step ⟨.string depth seen, objects⟩ =
        ⟨.string depth (seen ++ l.text), objects⟩ := by
      cases l with
      | plain b h =>
        refine foldl_step_plain ?_ ?_ depth seen objects
        · exact fun hmem => h.2.1 (mem_singleton.1 hmem).symm
        · exact fun hmem => h.2.2 (mem_singleton.1 hmem).symm
      | escape e =>
        -- the backslash hides the letter behind it
        refine congrArg (fun seen => mk (.string depth seen) objects) ?_
        exact append_assoc seen [92] [e.letter]
      | unicode digits h =>
        have hplain := foldl_step_plain (not_mem_of_hex h.2 (by rfl : hexValue quote = none))
          (not_mem_of_hex h.2 (by rfl : hexValue backslash = none)) depth
          (seen ++ [92] ++ [117]) objects
        refine Eq.trans hplain ?_
        simp [Letter.text]
    rw [lettersText, flatMap_cons, foldl_append, hletter, ← lettersText, ih, append_assoc]

theorem foldl_step_seeking {u : Bytes} (h : 123 ∉ u) (objects : List Bytes) :
    u.foldl step ⟨.seeking, objects⟩ = ⟨.seeking, objects⟩ := by
  induction u with
  | nil => rfl
  | cons c u ih =>
    rw [mem_cons, not_or] at h
    have hstep : step ⟨.seeking, objects⟩ c = ⟨.seeking, objects⟩ := by
      simp only [step, if_neg (Ne.symm h.1)]
    rw [foldl_cons, hstep, ih h.2]

/-! ## The body read again -/

theorem not_mem_bodyEnding (maxTokens : Int) : 123 ∉ bodyEnding maxTokens := by
  have hnumeral : (123 : UInt8) ∉ toString64 maxTokens := by
    intro hmem
    rcases mem_toString64 hmem with hdigit | hminus
    · exact absurd hdigit (by decide)
    · exact absurd hminus (by decide)
  rw [bodyEnding, mem_append, mem_append, not_or, not_or]
  refine ⟨⟨by decide, ?_⟩, by decide⟩
  split
  · rw [mem_append, not_or]
    exact ⟨by decide, hnumeral⟩
  · exact not_mem_nil

theorem messageObjects_forwarded (prompt : Bytes) (maxTokens : Int) :
    messageObjects (forwardedMessage prompt ++ bodyEnding maxTokens) = [forwardedMessage prompt] := by
  have hopen : messageOpening.foldl step ⟨.seeking, []⟩ =
      ⟨.string 1 messageOpening, []⟩ := by
    decide +kernel
  have hclose (seen : Bytes) : (ascii "\"\x7d").foldl step ⟨.string 1 seen, []⟩ =
      ⟨.seeking, [seen ++ [quote] ++ [125]]⟩ := rfl
  -- the opening leaves the scan in the string of the content, which the escaped prompt does not end
  rw [messageObjects, foldl_append]
  simp only [forwardedMessage, foldl_append]
  rw [hopen, jsonEscape_eq, foldl_step_letters, hclose,
    foldl_step_seeking (not_mem_bodyEnding maxTokens)]
  simp [ascii]

theorem quoted_ne_nil (key : Bytes) : quoted key ≠ [] :=
  cons_ne_nil _ _

theorem find_role (s : Bytes) :
    find (quoted (ascii "role")) (messageOpening ++ s) =
      some (quoted (ascii "role") ++ (ascii ": \"user\", \"content\": \"" ++ s)) := by
  have hsplit : messageOpening = ascii "\x7b" ++ quoted (ascii "role") ++
      ascii ": \"user\", \"content\": \"" := by
    rfl
  rw [hsplit, append_assoc, append_assoc]
  exact find_of_passes (quoted_ne_nil _) (by decide) _

theorem find_content (s : Bytes) :
    find (quoted (ascii "content")) (messageOpening ++ s) =
      some (quoted (ascii "content") ++ (ascii ": \"" ++ s)) := by
  have hsplit : messageOpening = ascii "\x7b\"role\": \"user\", " ++ quoted (ascii "content") ++
      ascii ": \"" := by
    rfl
  rw [hsplit, append_assoc, append_assoc]
  exact find_of_passes (quoted_ne_nil _) (by decide) _

theorem messageField_of_find {key msgObj s : Bytes} {blank : UInt8 → Bool} (text : Bytes → Bytes)
    (hfind : find (quoted key) msgObj = some (quoted key ++ (ascii ": \"" ++ s)))
    (hspace : blank 32 = true) (hquote : blank quote = false) :
    messageField key blank text msgObj = text s := by
  have hcolon : ascii ": \"" = [colon] ++ [32, quote] := rfl
  have hfound := find_append_self (cons_ne_nil colon []) ([32, quote] ++ s)
  simp only [messageField, hfind, drop_left, hcolon, append_assoc, hfound]
  simp [hspace, hquote]

theorem messageRole_forwarded (prompt : Bytes) :
    messageRole (forwardedMessage prompt) = ascii "user" := by
  have hrest : ascii ": \"user\", \"content\": \"" =
      ascii ": \"" ++ (ascii "user" ++ (quote :: ascii ", \"content\": \"")) := by
    rfl
  have hfind := find_role (jsonEscape prompt ++ ascii "\"\x7d")
  rw [hrest, append_assoc, append_assoc] at hfind
  rw [forwardedMessage, append_assoc, messageRole,
    messageField_of_find roleText hfind (by decide) (by decide),
    copies_roleText.append (by decide) (by decide), cons_append,
    roleText_quote, append_nil]

theorem messageContent_forwarded (prompt : Bytes) :
    messageContent (forwardedMessage prompt) = contentText (jsonEscape prompt) := by
  have hend : contentText (ascii "\"\x7d") = [] := rfl
  rw [forwardedMessage, append_assoc, messageContent,
    messageField_of_find contentText (find_content _) (by decide) (by decide),
    contentText_jsonEscape_append, hend, append_nil]

theorem validateAPIKeyFormat_split {apiKey : Bytes} (h : validateAPIKeyFormat apiKey = true) :
    ∃ digits, apiKey = apiKeyPrefix ++ digits ∧ quote ∉ digits ∧ backslash ∉ digits := by
  unfold validateAPIKeyFormat at h
  split at h
  · exact absurd h Bool.false_ne_true
  split at h
  · exact absurd h Bool.false_ne_true
  · rename_i hprefix
    have hdigits := all_eq_true.1 h
    refine ⟨apiKey.drop 5, ?_, ?_, ?_⟩
    · rw [← not_not.1 hprefix, take_append_drop]
    · intro hmem
      exact absurd (hdigits quote hmem) (by decide)
    · intro hmem
      exact absurd (hdigits backslash hmem) (by decide)

variable {apiKey : Bytes}

theorem find_messages (h : validateAPIKeyFormat apiKey = true) (prompt : Bytes) (maxTokens : Int) :
    (find (quoted (ascii "messages")) (minerRequestBody apiKey prompt maxTokens)).bind (find [91]) =
      some ([91] ++ (forwardedMessage prompt ++ bodyEnding maxTokens)) := by
  rcases validateAPIKeyFormat_split h with ⟨digits, rfl, hdigits, _⟩
  have hopen : passes (quoted (ascii "messages"))
      (ascii "\x7b\n  \"api_key\": \"" ++ apiKeyPrefix) = true := by
    decide
  have hsplit : ascii "\",\n  \"messages\": [" =
      ascii "\",\n  " ++ (quoted (ascii "messages") ++ (ascii ": " ++ [91])) := by
    rfl
  rw [minerRequestBody, ← append_assoc, hsplit]
  simp only [append_assoc]
  rw [← append_assoc (ascii _) apiKeyPrefix, find_append_of_passes hopen, quoted,
    cons_append, find_append_of_not_mem hdigits, ← cons_append, ← quoted,
    find_of_passes (quoted_ne_nil _) (by decide), Option.bind_some, ← append_assoc]
  exact find_of_passes (cons_ne_nil _ _) (by decide) _

variable {prompt : Bytes}

theorem contentText_jsonEscape_ne_nil (h : prompt ≠ []) :
    contentText (jsonEscape prompt) ≠ [] := by
  apply ne_nil_of_length_pos
  exact (length_pos_iff.2 h).trans_le (length_le_contentText_jsonEscape prompt)

theorem length_lt_chatML (role : Bytes) {content : Bytes} (h : content ≠ []) :
    content.length < (chatML role content).length := by
  have hend : 0 < (ascii "<|im_end|>\n").length := by decide
  rw [chatML, if_neg h, length_append, length_append]
  omega

/-- What a second gateway makes of a forwarded body: the rendered prompt as a message of the
user. -/
theorem extractPromptFromMessages_forwarded (h : validateAPIKeyFormat apiKey = true)
    (hprompt : prompt ≠ []) (maxTokens : Int) :
    extractPromptFromMessages (minerRequestBody apiKey prompt maxTokens) =
      chatML (ascii "user") (contentText (jsonEscape prompt)) ++ assistantTurn := by
  have hrender : renderMessages [forwardedMessage prompt] =
      chatML (ascii "user") (contentText (jsonEscape prompt)) := by
    rw [renderMessages, flatMap_singleton, messageRole_forwarded, messageContent_forwarded]
  have hne : chatML (ascii "user") (contentText (jsonEscape prompt)) ≠ [] := by
    have hlonger := length_lt_chatML (ascii "user") (contentText_jsonEscape_ne_nil hprompt)
    exact ne_nil_of_length_pos (Nat.zero_lt_of_lt hlonger)
  simp only [extractPromptFromMessages, find_messages h]
  rw [singleton_append, drop_one, tail_cons, messageObjects_forwarded, hrender,
    if_neg hne]

theorem getString_of_find {raw key s : Bytes}
    (hfind : find (quoted key) raw = some (quoted key ++ (ascii ": \"" ++ s)))
    (hkey : passes [colon] (quoted key) = true) : getString raw key = unescape s := by
  have hcolon : ascii ": \"" = [colon] ++ [32, quote] := rfl
  have hvalue : valueOf raw key = some (32 :: quote :: s) := by
    rw [valueOf, hfind, hcolon, append_assoc]
    simp only [find_of_passes (cons_ne_nil _ _) hkey, Option.map_some]
    rfl
  have hskip : (32 :: quote :: s).dropWhile isBlankOrBreak = quote :: s := by
    rw [dropWhile_cons_of_pos (by decide), dropWhile_cons_of_neg (by decide)]
  rw [getString, hvalue, Option.map_some, hskip]
  simp only [if_true]

theorem apiKey_forwarded (h : validateAPIKeyFormat apiKey = true) (prompt : Bytes)
    (maxTokens : Int) (skipHeader escrowIdHeader : Option Bytes) :
    (readRequest none skipHeader escrowIdHeader
      (minerRequestBody apiKey prompt maxTokens)).apiKey = apiKey := by
  rcases validateAPIKeyFormat_split h with ⟨digits, hsplit, hquote, hslash⟩
  have hopen : ascii "\x7b\n  \"api_key\": \"" =
      ascii "\x7b\n  " ++ (quoted (ascii "api_key") ++ ascii ": \"") := by
    rfl
  have hclose : ascii "\",\n  \"messages\": [" =
      quote :: ascii ",\n  \"messages\": [" := by
    rfl
  have hfind : find (quoted (ascii "api_key")) (minerRequestBody apiKey prompt maxTokens) =
      some (quoted (ascii "api_key") ++ (ascii ": \"" ++ (apiKey ++
        (quote :: (ascii ",\n  \"messages\": [" ++
          (forwardedMessage prompt ++ bodyEnding maxTokens)))))) := by
    rw [minerRequestBody, hopen, hclose]
    simp only [append_assoc, cons_append]
    exact find_of_passes (quoted_ne_nil _) (by decide) _
  -- the key is read up to the quote behind it
  have hplain : quote ∉ apiKey ∧ backslash ∉ apiKey := by
    rw [hsplit, mem_append, mem_append, not_or, not_or]
    exact ⟨⟨by decide, hquote⟩, ⟨by decide, hslash⟩⟩
  have hread : getString (minerRequestBody apiKey prompt maxTokens) (ascii "api_key") = apiKey := by
    rw [getString_of_find hfind (by decide),
      copies_unescape.append hplain.1 hplain.2, unescape_quote, append_nil]
  simp only [readRequest, ChatRequest.apiKey, hasKey, contains, hfind, Option.isSome_some, if_true,
    hread, Option.getD_some]

/-! ## Transparency -/

def directPrompt (authorization : Option Bytes) (body : Bytes) : Option Bytes :=
  passedOn (readRequest authorization none none body)

/-- The prompt for the miner when a client gateway forwards the request: the key travels in the
body, next to the headers of the hop. -/
def forwardedPrompt (authorization skipHeader escrowIdHeader : Option Bytes) (body : Bytes) :
    Option Bytes :=
  let r := readRequest authorization none none body
  match passedOn r with
  | none => none
  | some prompt =>
      passedOn (readRequest none skipHeader escrowIdHeader
        (minerRequestBody r.apiKey prompt (maxTokensOf body)))

theorem passedOn_some {r : ChatRequest} (h : passedOn r = some prompt) :
    validateAPIKeyFormat r.apiKey = true ∧ prompt ≠ [] ∧ r.prompt = prompt := by
  unfold passedOn at h
  split at h
  · cases h
  split at h
  · cases h
  split at h
  · cases h
  · rename_i hformat hprompt
    cases h
    exact ⟨Bool.not_eq_false _ ▸ hformat, hprompt, rfl⟩

theorem passedOn_of_valid {r : ChatRequest} (hformat : validateAPIKeyFormat r.apiKey = true)
    (hprompt : r.prompt ≠ []) : passedOn r = some r.prompt := by
  have hkey : r.apiKey ≠ [] := by
    intro hkey
    rw [hkey] at hformat
    cases hformat
  rw [passedOn, if_neg hkey, if_neg (by rw [hformat]; exact Bool.noConfusion), if_neg hprompt]

/-- Behind a client gateway the miner gets the prompt as text of a user, in a second ChatML. -/
theorem forwardedPrompt_eq {authorization : Option Bytes} {body prompt : Bytes}
    (skipHeader escrowIdHeader : Option Bytes) (h : directPrompt authorization body = some prompt) :
    forwardedPrompt authorization skipHeader escrowIdHeader body =
      some (chatML (ascii "user") (contentText (jsonEscape prompt)) ++ assistantTurn) := by
  rcases passedOn_some h with ⟨hformat, hprompt, _⟩
  have hextract := extractPromptFromMessages_forwarded hformat hprompt (maxTokensOf body)
  have hkey := apiKey_forwarded hformat prompt (maxTokensOf body) skipHeader escrowIdHeader
  have hread : passedOn (readRequest none skipHeader escrowIdHeader
      (minerRequestBody (readRequest authorization none none body).apiKey prompt
        (maxTokensOf body))) =
      some (extractPromptFromMessages
        (minerRequestBody (readRequest authorization none none body).apiKey prompt
          (maxTokensOf body))) := by
    apply passedOn_of_valid
    · rw [hkey]
      exact hformat
    · change extractPromptFromMessages _ ≠ []
      rw [hextract]
      exact append_ne_nil_of_right_ne_nil _ (by decide)
  rw [directPrompt] at h
  simp only [forwardedPrompt, h]
  rw [hread, hextract]

theorem forwardedPrompt_ne {authorization : Option Bytes} {body prompt : Bytes}
    (skipHeader escrowIdHeader : Option Bytes) (h : directPrompt authorization body = some prompt) :
    forwardedPrompt authorization skipHeader escrowIdHeader body ≠
      directPrompt authorization body := by
  intro hsame
  rw [forwardedPrompt_eq skipHeader escrowIdHeader h, h] at hsame
  have hlength := congrArg length (Option.some.inj hsame)
  have hne := contentText_jsonEscape_ne_nil (passedOn_some h).2.1
  have hlonger := length_lt_chatML (ascii "user") hne
  have hkept := length_le_contentText_jsonEscape prompt
  rw [length_append] at hlength
  omega

/-! ## Requests that are refused -/

def bodyMessages (raw : Bytes) : List Bytes :=
  match (find (quoted (ascii "messages")) raw).bind (find [91]) with
  | none => []
  | some s => messageObjects (s.drop 1)

/-- The request has no well-formed key, or neither a message nor a field of the body has text. -/
def Refused (authorization : Option Bytes) (body : Bytes) : Prop :=
  validateAPIKeyFormat (readRequest authorization none none body).apiKey = false ∨
    ((∀ msgObj ∈ bodyMessages body, messageContent msgObj = []) ∧ flatPrompt body = [])

theorem chatML_eq_nil_iff (role content : Bytes) : chatML role content = [] ↔ content = [] := by
  constructor
  · intro hnil
    by_contra hne
    have hlonger := length_lt_chatML role hne
    rw [hnil] at hlonger
    exact absurd hlonger (Nat.not_lt_zero _)
  · intro hempty
    rw [chatML, if_pos hempty]

theorem renderMessages_eq_nil_iff {msgObjs : List Bytes} :
    renderMessages msgObjs = [] ↔ ∀ msgObj ∈ msgObjs, messageContent msgObj = [] := by
  simp only [renderMessages, flatMap_eq_nil_iff, chatML_eq_nil_iff]

theorem extractPromptFromMessages_eq_nil_iff (raw : Bytes) :
    extractPromptFromMessages raw = [] ↔
      (∀ msgObj ∈ bodyMessages raw, messageContent msgObj = []) ∧ flatPrompt raw = [] := by
  unfold extractPromptFromMessages bodyMessages
  split
  · rw [and_iff_right (forall_mem_nil _)]
  · rw [← renderMessages_eq_nil_iff]
    dsimp only
    split
    · rename_i hempty
      rw [and_iff_right hempty]
    · -- rendered text is followed by the turn of the assistant
      rename_i htext
      refine iff_of_false ?_ fun hnil => htext hnil.1
      exact append_ne_nil_of_right_ne_nil _ (by decide)

theorem directPrompt_eq_none_iff (authorization : Option Bytes) (body : Bytes) :
    directPrompt authorization body = none ↔ Refused authorization body := by
  rw [Refused, ← extractPromptFromMessages_eq_nil_iff]
  constructor
  · intro hnone
    by_contra hserved
    rw [not_or, Bool.not_eq_false] at hserved
    cases (passedOn_of_valid hserved.1 hserved.2).symm.trans hnone
  · intro hrefused
    cases hdirect : directPrompt authorization body with
    | none => rfl
    | some prompt =>
      rcases passedOn_some hdirect with ⟨hformat, hprompt, hsame⟩
      rcases hrefused with hkey | hempty
      · cases hkey.symm.trans hformat
      · exact absurd (hsame.symm.trans hempty) hprompt

/-- Forwarding is transparent only for requests that are refused. -/
theorem forwardedPrompt_eq_directPrompt_iff
    (authorization skipHeader escrowIdHeader : Option Bytes) (body : Bytes) :
    forwardedPrompt authorization skipHeader escrowIdHeader body =
        directPrompt authorization body ↔
      Refused authorization body := by
  rw [← directPrompt_eq_none_iff]
  constructor
  · intro hsame
    cases hdirect : directPrompt authorization body with
    | none => rfl
    | some prompt => exact absurd hsame (forwardedPrompt_ne skipHeader escrowIdHeader hdirect)
  · intro hrefused
    rw [hrefused]
    rw [directPrompt] at hrefused
    simp only [forwardedPrompt, hrefused]

def helloBody : Bytes :=
  ascii "\x7b\"messages\":[\x7b\"role\":\"user\",\"content\":\"hi\"\x7d]\x7d"

def bearerToken : Option Bytes :=
  some (ascii "Bearer tknc_00112233445566778899aabbccddeeff")

theorem not_transparent_hello :
    directPrompt bearerToken helloBody =
        some (ascii "<|im_start|>user\nhi<|im_end|>\n<|im_start|>assistant\n") ∧
      forwardedPrompt bearerToken none none helloBody =
        some (ascii ("<|im_start|>user\n<|im_start|>user\nhi<|im_end|>\n<|im_start|>assistant\n" ++
          "<|im_end|>\n<|im_start|>assistant\n")) ∧
      forwardedPrompt bearerToken none none helloBody ≠ directPrompt bearerToken helloBody := by
  have hdirect : directPrompt bearerToken helloBody =
      some (ascii "<|im_start|>user\nhi<|im_end|>\n<|im_start|>assistant\n") := by
    decide +kernel
  refine ⟨hdirect, ?_, forwardedPrompt_ne none none hdirect⟩
  rw [forwardedPrompt_eq none none hdirect]
  decide +kernel

end TKNC.Gateway
