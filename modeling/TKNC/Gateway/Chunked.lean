import TKNC.Gateway.Requests
import TKNC.Lib.ChunkedCoding
import TKNC.Lib.Session

/-!
# Chunked — both decoders forward the payloads of a chunked response

The gateway and the proxy decode a response from the segments that the connection delivers.  Each is
compared with a machine that takes the bytes one by one, so that the cuts between the segments, and
the jumps of the loops over them, play no part in the argument about the format.
-/

namespace TKNC.Gateway

open Lib Lib.ChunkedCoding Lib.Numeral Lib.TextSearch Lib.Transducer List

/-! ## The decoder of the gateway -/

def feedGateway : ChunkState → UInt8 → ChunkState × Bytes
  | .headers line, c =>
      (if (crlf ++ crlf).isSuffixOf (line ++ [c]) then
          if isChunkedHeader (line ++ [c]) then .length [] else .raw
        else .headers (line ++ [c]), [])
  | .length line, c =>
      if c = 13 then (.length line, [])
      else if c = 10 then
        match strtoul16 line with
        | 0 => (.done, [])
        | left + 1 => (.data left, [])
      else (.length (line ++ [c]), [])
  | .data 0, c => (.trailer, [c])
  | .data (left + 1), c => (.data left, [c])
  | .raw, c => (.raw, [c])
  | .trailer, c => (if c = 10 then .length [] else .trailer, [])
  | .done, _ => (.done, [])

theorem forwarded_streamForwardToClient (ctx : StreamContext) (data : Bytes) :
    forwarded (streamForwardToClient ctx data).2 = data := by
  unfold streamForwardToClient
  split
  · rename_i hnil
    exact hnil.symm
  · exact append_nil data

theorem chunkState_streamForwardToClient (ctx : StreamContext) (data : Bytes) :
    (streamForwardToClient ctx data).1.chunkState = ctx.chunkState := by
  unfold streamForwardToClient
  split <;> rfl

theorem decodeByte_run (ctx : StreamContext) (c : UInt8) (rest : Bytes) :
    run feedGateway ctx.chunkState ((c :: rest).take ((decodeByte ctx c rest).skip + 1)) =
      ((decodeByte ctx c rest).ctx.chunkState, forwarded (decodeByte ctx c rest).out) := by
  unfold decodeByte
  cases hstate : ctx.chunkState with
  | headers line => exact run_singleton _ c
  | length line =>
    dsimp only
    split_ifs with hcr hlf
    · refine (run_singleton _ c).trans ?_
      rw [feedGateway, if_pos hcr, hstate]
      rfl
    · cases hsize : strtoul16 line <;>
      · refine (run_singleton _ c).trans ?_
        rw [feedGateway, if_neg hcr, if_pos hlf, hsize]
        rfl
    · refine (run_singleton _ c).trans ?_
      rw [feedGateway, if_neg hcr, if_neg hlf]
      rfl
  | data left =>
    dsimp only
    generalize havail : min (rest.length + 1) (left + 1) = avail
    rw [show avail - 1 + 1 = avail by omega, forwarded_streamForwardToClient]
    exact run_countdown_take feedGateway .data .trailer (fun _ => rfl) (fun _ _ => rfl) left c
      rest havail.symm
  | raw =>
    dsimp only
    rw [forwarded_streamForwardToClient, chunkState_streamForwardToClient, hstate,
      take_succ_cons, take_length]
    exact run_of_copying (fun _ => rfl) (c :: rest)
  | trailer =>
    refine (run_singleton _ c).trans ?_
    dsimp only
    rw [feedGateway]
    split
    · rfl
    · rw [hstate]
      rfl
  | done =>
    refine (run_singleton _ c).trans ?_
    dsimp only
    rw [hstate]
    rfl

theorem decode_run (skip : Nat) (ctx : StreamContext) (data : Bytes) :
    run feedGateway ctx.chunkState (data.drop skip) =
      ((decode skip ctx data).1.chunkState, forwarded (decode skip ctx data).2) := by
  -- along the segment; the bytes that a turn has taken are passed over one by one
  induction data generalizing skip ctx with
  | nil => cases skip <;> rfl
  | cons c rest ih =>
    cases skip with
    | succ skip => exact ih skip ctx
    | zero =>
      have hturn := run_trans (decodeByte_run ctx c rest)
        (ih (decodeByte ctx c rest).skip (decodeByte ctx c rest).ctx)
      rw [take_succ_cons, cons_append, take_append_drop] at hturn
      rw [drop_zero, hturn, decode, forwarded_append]

theorem streamMinerRead_run (ctx : StreamContext) (segment : Bytes) :
    run feedGateway ctx.chunkState segment =
      ((streamMinerRead ctx segment).1.chunkState, forwarded (streamMinerRead ctx segment).2) :=
  decode_run 0 { ctx with minerResponseAccumulated := ctx.minerResponseAccumulated ++ segment }
    segment

/-! ## The decoder of the proxy -/

/-- State of the proxy between two bytes.  In `skipLf` the line feed behind a carriage return may
still come. -/
inductive ProxyPhase where
  | headers (headerBuf : Bytes)
  | plain
  | size (line : Bytes)
  | data (left : Nat)
  | expectCrlf
  | skipLf
  | finished

def feedSize (line : Bytes) (c : UInt8) : ProxyPhase × Bytes :=
  if crlf.isSuffixOf (line ++ [c]) then
    match strtoul16 (line ++ [c]) with
    | 0 => (.finished, [])
    | left + 1 => (.data left, [])
  else (.size (line ++ [c]), [])

def feedProxy : ProxyPhase → UInt8 → ProxyPhase × Bytes
  | .headers headerBuf, c =>
      (if (crlf ++ crlf).isSuffixOf (headerBuf ++ [c]) then
          if isChunkedResponse (headerBuf ++ [c]) then .size [] else .plain
        else .headers (headerBuf ++ [c]), [])
  | .plain, c => (.plain, [c])
  | .size line, c => feedSize line c
  | .data 0, c => (.expectCrlf, [c])
  | .data (left + 1), c => (.data left, [c])
  | .expectCrlf, c =>
      (if c = 13 then .skipLf else if c = 10 then .size [] else .expectCrlf, [])
  | .skipLf, c => if c = 10 then (.size [], []) else feedSize [] c
  | .finished, _ => (.finished, [])

/-- A line feed that was cut off its carriage return is taken for the beginning of the next size,
where the conversion of the number skips it. -/
inductive TracksChunk : ProxyChunk → ProxyPhase → Prop
  | size (line : Bytes) : TracksChunk (.size line) (.size line)
  | lfSize (line : Bytes) : TracksChunk (.size (10 :: line)) (.size line)
  | skipLf : TracksChunk (.size []) .skipLf
  | data (left : Nat) : TracksChunk (.data left) (.data left)
  | expectCrlf : TracksChunk .expectCrlf .expectCrlf

inductive Tracks : RespState → ProxyPhase → Prop
  | headers (headerBuf : Bytes) : Tracks (.headers headerBuf) (.headers headerBuf)
  | plain : Tracks .plain .plain
  | chunked {chunk : ProxyChunk} {phase : ProxyPhase} (h : TracksChunk chunk phase) :
      Tracks (.chunked chunk) phase

/-- The decoder has come as far as the machine. -/
def Progress.Follows (p : Progress) (r : ProxyPhase × Bytes) : Prop :=
  forwarded p.out = r.2 ∧ if p.finished then r.1 = .finished else Tracks p.ctx.respState r.1

theorem run_finished (data : Bytes) : run feedProxy .finished data = (.finished, []) :=
  run_of_absorbing (fun _ => rfl) data

/-- What stands behind the first part of the data is read from where that part has led. -/
theorem Progress.Follows.append {out : List Action} {p : Progress} {phase phase' : ProxyPhase}
    {u v : Bytes} (hfirst : run feedProxy phase u = (phase', forwarded out))
    (hrest : p.Follows (run feedProxy phase' v)) :
    Progress.Follows ⟨p.ctx, out ++ p.out, p.finished⟩ (run feedProxy phase (u ++ v)) := by
  rw [run_append, hfirst]
  exact ⟨by rw [forwarded_append, hrest.1], hrest.2⟩

theorem isSuffixOf_crlf_cons (line : Bytes) :
    crlf.isSuffixOf (10 :: line) = crlf.isSuffixOf line := by
  rw [Bool.eq_iff_iff, isSuffixOf_iff_suffix, isSuffixOf_iff_suffix,
    suffix_cons_iff]
  exact or_iff_right (by rintro ⟨⟩)

theorem proxyDecodeByte_size {line line' : Bytes} (hline : line' = line ∨ line' = 10 :: line)
    (ctx : ProxyCtx) (c : UInt8) (rest : Bytes) :
    (proxyDecodeByte ctx (.size line') c rest = none ∧ feedSize line c = (.finished, [])) ∨
      ∃ chunk phase, proxyDecodeByte ctx (.size line') c rest = some ⟨0, (ctx, chunk), []⟩ ∧
        feedSize line c = (phase, []) ∧ TracksChunk chunk phase := by
  have hends : crlf.isSuffixOf (line' ++ [c]) = crlf.isSuffixOf (line ++ [c]) := by
    rcases hline with rfl | rfl
    · rfl
    · exact isSuffixOf_crlf_cons (line ++ [c])
  have hvalue : strtoul16 (line' ++ [c]) = strtoul16 (line ++ [c]) := by
    rcases hline with rfl | rfl
    · rfl
    · exact strtoul16_space rfl (line ++ [c])
  simp only [proxyDecodeByte, feedSize, hends, hvalue]
  by_cases hcomplete : crlf.isSuffixOf (line ++ [c]) = true
  · rw [if_pos hcomplete, if_pos hcomplete]
    cases strtoul16 (line ++ [c]) with
    | zero => exact Or.inl ⟨rfl, rfl⟩
    | succ left => exact Or.inr ⟨_, _, rfl, rfl, .data left⟩
  · rw [if_neg hcomplete, if_neg hcomplete]
    rcases hline with rfl | rfl
    · exact Or.inr ⟨_, _, rfl, rfl, .size _⟩
    · exact Or.inr ⟨_, _, rfl, rfl, .lfSize _⟩

variable {phase : ProxyPhase}

theorem proxyDecodeByte_run {chunk : ProxyChunk} (h : TracksChunk chunk phase) (ctx : ProxyCtx)
    (c : UInt8) (rest : Bytes) :
    (proxyDecodeByte ctx chunk c rest = none ∧ feedProxy phase c = (.finished, [])) ∨
      ∃ turn phase', proxyDecodeByte ctx chunk c rest = some turn ∧
        run feedProxy phase ((c :: rest).take (turn.skip + 1)) = (phase', forwarded turn.out) ∧
        TracksChunk turn.ctx.2 phase' := by
  have hsize {line line' : Bytes} (hline : line' = line ∨ line' = 10 :: line)
      (hfeed : feedProxy phase c = feedSize line c) :
      (proxyDecodeByte ctx (.size line') c rest = none ∧ feedProxy phase c = (.finished, [])) ∨
        ∃ turn phase', proxyDecodeByte ctx (.size line') c rest = some turn ∧
          run feedProxy phase ((c :: rest).take (turn.skip + 1)) = (phase', forwarded turn.out) ∧
          TracksChunk turn.ctx.2 phase' := by
    rw [hfeed]
    rcases proxyDecodeByte_size hline ctx c rest with hlast | ⟨chunk, phase', hturn, hnext, htracks⟩
    · exact Or.inl hlast
    · exact Or.inr ⟨_, phase', hturn, (run_singleton _ c).trans (hfeed.trans hnext), htracks⟩
  cases h with
  | size line => exact hsize (Or.inl rfl) rfl
  | lfSize line => exact hsize (Or.inr rfl) rfl
  | skipLf =>
    by_cases hlf : c = 10
    · subst hlf
      exact Or.inr ⟨_, _, rfl, run_singleton _ 10, .lfSize []⟩
    · exact hsize (Or.inl rfl) (by rw [feedProxy, if_neg hlf])
  | data left =>
    have htaken : min (rest.length + 1) (left + 1) - 1 + 1 = min (rest.length + 1) (left + 1) :=
      by omega
    refine Or.inr ⟨_, if left + 1 - min (rest.length + 1) (left + 1) = 0 then .expectCrlf
      else .data (left - min (rest.length + 1) (left + 1)), rfl, ?_, ?_⟩
    · dsimp only [proxyForward, forwarded]
      rw [append_nil, htaken]
      exact run_countdown_take feedProxy .data .expectCrlf (fun _ => rfl) (fun _ _ => rfl) left c
        rest rfl
    · dsimp only
      split
      · exact .expectCrlf
      · exact .data _
  | expectCrlf =>
    rw [proxyDecodeByte]
    split_ifs with hcr hnext hlf
    · -- the line feed is there already
      obtain ⟨rest', rfl⟩ := head?_eq_some_iff.1 hnext
      subst hcr
      exact Or.inr ⟨_, _, rfl, rfl, .size []⟩
    · subst hcr
      exact Or.inr ⟨_, _, rfl, run_singleton _ 13, .skipLf⟩
    · subst hlf
      exact Or.inr ⟨_, _, rfl, run_singleton _ 10, .size []⟩
    · refine Or.inr ⟨_, _, rfl, (run_singleton _ c).trans ?_, .expectCrlf⟩
      rw [feedProxy, if_neg hcr, if_neg hlf]
      rfl

theorem proxyDecode_follows {chunk : ProxyChunk} (h : TracksChunk chunk phase) (skip : Nat)
    (ctx : ProxyCtx) (data : Bytes) :
    (proxyDecode skip ctx chunk data).Follows (run feedProxy phase (data.drop skip)) := by
  induction data generalizing skip ctx chunk phase with
  | nil => cases skip <;> exact ⟨rfl, .chunked h⟩
  | cons c rest ih =>
    cases skip with
    | succ skip => exact ih h skip ctx
    | zero =>
      rw [drop_zero, proxyDecode]
      rcases proxyDecodeByte_run h ctx c rest with
        ⟨hlast, hfeed⟩ | ⟨turn, phase', hturn, hrun, htracks⟩
      · rw [hlast, run, hfeed, run_finished]
        exact ⟨rfl, rfl⟩
      · rw [hturn]
        have hfollows := (ih htracks turn.skip turn.ctx.1).append hrun
        rw [take_succ_cons, cons_append, take_append_drop] at hfollows
        exact hfollows

variable {ctx : ProxyCtx}

theorem proxyForwardBody_follows (h : Tracks ctx.respState phase)
    (hstarted : ctx.responseStarted = true) (data : Bytes) :
    (proxyForwardBody ctx data).Follows (run feedProxy phase data) := by
  unfold proxyForwardBody
  split
  · rename_i hnil
    subst hnil
    exact ⟨rfl, h⟩
  · generalize hstate : ctx.respState = state at h
    cases h with
    | headers headerBuf =>
      rw [ProxyCtx.responseStarted, hstate] at hstarted
      cases hstarted
    | plain =>
      rw [run_of_copying (fun _ => rfl) data]
      refine ⟨append_nil data, ?_⟩
      change Tracks ctx.respState .plain
      rw [hstate]
      exact .plain
    | chunked htracks => exact proxyDecode_follows htracks 0 ctx data

theorem proxyReadHeaders_follows (ctx : ProxyCtx) (headerBuf data : Bytes) :
    (proxyReadHeaders ctx headerBuf data).Follows (run feedProxy (.headers headerBuf) data) := by
  induction data generalizing headerBuf with
  | nil => exact ⟨rfl, .headers headerBuf⟩
  | cons c rest ih =>
    rw [proxyReadHeaders, run, feedProxy]
    dsimp only
    split
    · -- the block is complete, the rest of the data belongs to the body
      have hbody : (proxyForwardBody (startResponse ctx (headerBuf ++ [c])) rest).Follows
          (run feedProxy (if isChunkedResponse (headerBuf ++ [c]) then .size [] else .plain)
            rest) := by
        refine proxyForwardBody_follows ?_ ?_ rest
        · rw [startResponse]
          split
          · exact .chunked (.size [])
          · exact .plain
        · rw [startResponse, ProxyCtx.responseStarted]
          cases isChunkedResponse (headerBuf ++ [c]) <;> rfl
      exact ⟨hbody.1, hbody.2⟩
    · exact ih _

theorem proxyProcessData_follows (h : Tracks ctx.respState phase) (data : Bytes) :
    (proxyProcessData ctx data).Follows (run feedProxy phase data) := by
  unfold proxyProcessData
  split
  · rename_i headerBuf hstate
    rw [hstate] at h
    cases h
    exact proxyReadHeaders_follows ctx headerBuf data
  · rename_i hbody
    refine proxyForwardBody_follows h ?_ data
    rw [ProxyCtx.responseStarted]
    split
    · rename_i headerBuf hstate
      exact absurd hstate (hbody headerBuf)
    · rfl

theorem proxyReadPieces_follows (h : Tracks ctx.respState phase) (pieces : List Bytes) :
    (proxyReadPieces ctx pieces).Follows (run feedProxy phase pieces.flatten) := by
  induction pieces generalizing ctx phase with
  | nil => exact ⟨rfl, h⟩
  | cons piece pieces ih =>
    obtain ⟨hout, hstate⟩ := proxyProcessData_follows h piece
    rw [proxyReadPieces, flatten_cons]
    dsimp only
    split at hstate
    · -- what comes behind the last chunk is not looked at
      rename_i hfinished
      rw [if_pos hfinished, run_append, hstate, run_finished, append_nil]
      refine ⟨hout, ?_⟩
      rw [if_pos hfinished]
    · rename_i hopen
      rw [if_neg hopen]
      exact (ih hstate).append (Prod.ext rfl hout.symm)

theorem flatten_toChunks {α : Type*} (n : Nat) (xs : List α) : (xs.toChunks n).flatten = xs := by
  have hgo (n : Nat) (xs : List α) (acc : Array α) (pieces : Array (List α)) :
      (toChunks.go n xs acc pieces).flatten = pieces.toList.flatten ++ acc.toList ++ xs := by
    induction xs generalizing acc pieces with
    | nil => simp [toChunks.go]
    | cons x xs ih =>
      rw [toChunks.go]
      split <;> simp [ih]
  cases xs with
  | nil => cases n <;> rfl
  | cons x xs =>
    cases n with
    | zero => simp [toChunks]
    | succ n => simp [toChunks, hgo]

theorem proxyRead_follows (h : Tracks ctx.respState phase) (segment : Bytes) :
    (proxyRead ctx segment).Follows (run feedProxy phase segment) := by
  have hpieces := proxyReadPieces_follows h (segment.toChunks 16384)
  rw [flatten_toChunks] at hpieces
  exact hpieces

/-! ## Sessions -/

def receive (s : Session Context Action) (segment : Bytes) : Session Context Action × Bytes :=
  (Session.step react s (.data segment), forwarded (Session.emitted react s (.data segment)))

theorem run_receive (s : Session Context Action) (segments : List Bytes) :
    forwarded (EventMachine.run (Session.step react) s (segments.map .data)).log =
      forwarded s.log ++ (run receive s segments).2 := by
  induction segments generalizing s with
  | nil => exact (append_nil _).symm
  | cons segment segments ih =>
    rw [map_cons, EventMachine.run, foldl_cons]
    refine (ih _).trans ?_
    rw [Session.log_step, forwarded_append, append_assoc]
    rfl

def ReadingGateway (s : Session Context Action) (state : ChunkState) : Prop :=
  ∃ ctx, s.ctx = some (.gateway ctx) ∧ ctx.chunkState = state

/-- The context is deleted behind the last chunk. -/
def ReadingProxy (s : Session Context Action) (phase : ProxyPhase) : Prop :=
  match s.ctx with
  | some (.proxy ctx) => Tracks ctx.respState phase
  | some _ => False
  | none => phase = .finished

theorem reads_gateway : Reads receive feedGateway ReadingGateway := by
  rintro ⟨_, log⟩ _ segment ⟨ctx, rfl, rfl⟩
  rw [streamMinerRead_run]
  exact ⟨⟨_, rfl, rfl⟩, rfl⟩

theorem reads_proxy : Reads receive feedProxy ReadingProxy := by
  rintro ⟨_ | ctx, log⟩ phase segment h
  · cases h
    rw [run_finished]
    exact ⟨rfl, rfl⟩
  cases ctx with
  | arrived a cost => exact h.elim
  | gateway ctx => exact h.elim
  | proxy ctx =>
    obtain ⟨hout, hstate⟩ := proxyRead_follows h segment
    have hreact : react (.proxy ctx) (.data segment) =
        ((proxyReact ctx (.data segment)).1.map .proxy, (proxyReact ctx (.data segment)).2) := rfl
    simp only [receive, Session.step, Session.emitted, hreact, proxyReact]
    by_cases hfinished : (proxyRead ctx segment).finished = true
    · rw [if_pos hfinished] at hstate ⊢
      refine ⟨hstate, ?_⟩
      rw [forwarded_append, (forwarded_proxyFinish _ false).1, append_nil, hout]
    · rw [if_neg hfinished] at hstate ⊢
      exact ⟨hstate, hout⟩

/-! ## Header blocks -/

def chunkedField : Bytes :=
  crlf ++ ascii "Transfer-Encoding: chunked"

theorem isSuffixOf_crlf_crlf (line : Bytes) :
    (crlf ++ crlf).isSuffixOf line = true ↔ (lineBreak ++ lineBreak) <:+ line :=
  isSuffixOf_iff_suffix

variable {block : HeaderBlock}

theorem run_header_gateway (h : chunkedField <:+: block.bytes) :
    run feedGateway (.headers []) block.bytes = (.length [], []) := by
  have hchunked : isChunkedHeader block.bytes = true := by
    rw [isChunkedHeader, Bool.or_eq_true, contains_iff_infix]
    exact Or.inl ((suffix_append crlf _).isInfix.trans h)
  refine run_header block ?_ ?_
  · intro line b hopen
    rw [feedGateway, if_neg (mt (isSuffixOf_crlf_crlf _).1 hopen)]
  · intro line b hwhole
    rw [feedGateway, hwhole, if_pos ((isSuffixOf_crlf_crlf _).2 block.ends), if_pos hchunked]

theorem splitLines_crlf (line u v : Bytes) :
    splitLines line (u ++ (crlf ++ v)) = splitLines line u ++ splitLines [] v := by
  induction u generalizing line with
  | nil =>
    have hbreak : splitLines line (crlf ++ v) = (line ++ [13]).dropLast :: splitLines [] v := by
      rw [crlf, cons_append, splitLines, if_neg fun hbreak => absurd hbreak.1 (by decide),
        cons_append, splitLines, if_pos ⟨rfl, getLast?_concat⟩]
      rfl
    rw [nil_append, hbreak, dropLast_concat, splitLines, singleton_append]
  | cons c u ih =>
    rw [cons_append, splitLines, splitLines]
    split
    · rw [ih, cons_append]
    · rw [ih]

theorem flatMap_splitLines (line u : Bytes) :
    (splitLines line u).flatMap (· ++ crlf) = line ++ u ++ crlf := by
  induction u generalizing line with
  | nil => simp [splitLines]
  | cons c u ih =>
    rw [splitLines]
    split
    · rename_i hbreak
      obtain ⟨front, rfl⟩ := getLast?_eq_some_iff.1 hbreak.2
      rw [flatMap_cons, ih, hbreak.1, dropLast_concat]
      simp [crlf]
    · rw [ih, append_assoc, append_assoc, append_assoc]
      rfl

/-- A line that was begun with a text keeps it, unless the line break has begun as well. -/
theorem splitLines_head (text : Bytes) (h : text.getLast? ≠ some 13) (more u : Bytes) :
    ∃ tail lines, splitLines (text ++ more) u = (text ++ tail) :: lines := by
  induction u generalizing more with
  | nil => exact ⟨more, [], rfl⟩
  | cons c u ih =>
    rw [splitLines]
    split
    · rename_i hbreak
      have hmore : more ≠ [] := by
        rintro rfl
        rw [append_nil] at hbreak
        exact h hbreak.2
      rw [dropLast_append_of_ne_nil hmore]
      exact ⟨more.dropLast, _, rfl⟩
    · rw [append_assoc]
      exact ih (more ++ [c])

theorem splitLines_append {text : Bytes} (h : 10 ∉ text) (line u : Bytes) :
    splitLines line (text ++ u) = splitLines (line ++ text) u := by
  induction text generalizing line with
  | nil => rw [nil_append, append_nil]
  | cons c text ih =>
    rw [mem_cons, not_or] at h
    rw [cons_append, splitLines, if_neg fun hbreak => h.1 hbreak.1.symm, ih h.2,
      append_assoc]
    rfl

theorem hasHeaderWith_chunked (tail : Bytes) :
    hasHeaderWith (ascii "Transfer-Encoding") (ascii "chunked")
      (ascii "Transfer-Encoding: chunked" ++ tail) = true := by
  have htext : ascii "Transfer-Encoding: chunked" ++ tail =
      ascii "Transfer-Encoding" ++ ([colon] ++ (32 :: (ascii "chunked" ++ tail))) := by
    have hfield : ascii "Transfer-Encoding: chunked" =
        ascii "Transfer-Encoding" ++ ([colon] ++ (32 :: ascii "chunked")) := by decide
    simp only [hfield, append_assoc, cons_append]
  have hcolon : colon ∉ ascii "Transfer-Encoding" := by decide
  have hfind : find [colon] (ascii "Transfer-Encoding: chunked" ++ tail) =
      some (colon :: 32 :: (ascii "chunked" ++ tail)) := by
    rw [htext, find_append_of_not_mem hcolon, find_append_self (cons_ne_nil _ _)]
    rfl
  have hkey : (ascii "Transfer-Encoding: chunked" ++ tail).takeWhile (· ≠ colon) =
      ascii "Transfer-Encoding" := by
    rw [htext, takeWhile_append_of_pos (by simp [ascii, colon]), singleton_append,
      takeWhile_cons, if_neg (by decide), append_nil]
  have hvalue : ((colon :: 32 :: (ascii "chunked" ++ tail)).drop 1).dropWhile isBlank =
      ascii "chunked" ++ tail := rfl
  rw [hasHeaderWith, hfind]
  dsimp only
  rw [hkey, hvalue, Bool.and_eq_true, contains_iff_infix]
  exact ⟨by decide, (prefix_append _ _).isInfix⟩

/-- An empty line behind the first one ends the header block. -/
theorem line_ne_nil_of_open {front : Bytes}
    (h : ∀ p, p <+: front ++ crlf → ¬ (crlf ++ crlf) <:+ p) :
    ∀ line ∈ (splitLines [] front).tail, line ≠ [] := by
  rintro _ hline rfl
  obtain ⟨before, after, htail⟩ := append_of_mem hline
  obtain ⟨status, fields, hfront⟩ := splitLines_head [] (by decide) [] front
  rw [nil_append, nil_append] at hfront
  rw [hfront, tail_cons] at htail
  have hflat : (status :: before).flatMap (· ++ crlf) ++ crlf ++ after.flatMap (· ++ crlf) =
      front ++ crlf := by
    have hlines := flatMap_splitLines [] front
    rw [hfront, htail, ← cons_append, flatMap_append] at hlines
    rw [append_assoc]
    exact hlines
  obtain ⟨text, htext⟩ : crlf <:+ (status :: before).flatMap (· ++ crlf) := by
    rcases eq_nil_or_concat (status :: before) with hnil | ⟨init, last, hconcat⟩
    · cases hnil
    · rw [hconcat, concat_eq_append, flatMap_append, flatMap_singleton]
      exact (suffix_append _ _).trans (suffix_append _ _)
  refine h _ ⟨_, hflat⟩ ⟨text, ?_⟩
  rw [← htext, append_assoc]

theorem isChunkedResponse_of_field (h : chunkedField <:+: block.bytes) :
    isChunkedResponse block.bytes = true := by
  obtain ⟨front, back, hblock⟩ := h
  have hsplit : block.bytes =
      front ++ (crlf ++ (ascii "Transfer-Encoding: chunked" ++ back)) := by
    rw [← hblock, chunkedField, append_assoc, append_assoc]
  have hopen : ∀ p, p <+: front ++ crlf → ¬ (crlf ++ crlf) <:+ p := by
    rintro p hp hends
    have hprefix : p <+: block.bytes := by
      rw [hsplit, ← append_assoc]
      exact hp.trans (prefix_append _ _)
    have hlength := hp.length_le
    rw [block.first p hprefix hends, hsplit] at hlength
    have hfield : (ascii "Transfer-Encoding: chunked").length = 26 := by decide
    simp only [length_append] at hlength
    omega
  obtain ⟨tail, lines, hfield⟩ :=
    splitLines_head (ascii "Transfer-Encoding: chunked") (by decide) [] back
  obtain ⟨status, fields, hfront⟩ := splitLines_head [] (by decide) [] front
  rw [append_nil] at hfield
  rw [nil_append, nil_append] at hfront
  have hne := line_ne_nil_of_open hopen
  rw [hfront, tail_cons] at hne
  have hlines : splitLines [] block.bytes =
      status :: (fields ++ (ascii "Transfer-Encoding: chunked" ++ tail) :: lines) := by
    rw [hsplit, splitLines_crlf, splitLines_append (by decide), nil_append, hfield, hfront]
    rfl
  rw [isChunkedResponse, hlines, any_eq_true]
  refine ⟨_, ?_, hasHeaderWith_chunked tail⟩
  rw [tail_cons,
    takeWhile_append_of_pos fun line hline => decide_eq_true (hne line hline),
    takeWhile_cons, if_pos (by simp [ascii])]
  exact mem_append_right _ (mem_cons_self ..)

theorem run_header_proxy (h : chunkedField <:+: block.bytes) :
    run feedProxy (.headers []) block.bytes = (.size [], []) := by
  refine run_header block ?_ ?_
  · intro line b hopen
    rw [feedProxy, if_neg (mt (isSuffixOf_crlf_crlf _).1 hopen)]
  · intro line b hwhole
    rw [feedProxy, hwhole, if_pos ((isSuffixOf_crlf_crlf _).2 block.ends),
      if_pos (isChunkedResponse_of_field h)]

/-! ## Chunked responses -/

theorem readsChunked_gateway : ReadsChunked feedGateway (.length []) .data .trailer .done := by
  have hline (read text : Bytes) (hplain : ∀ b ∈ text, b ≠ 13 ∧ b ≠ 10) :
      run feedGateway (.length read) text = (.length (read ++ text), []) := by
    induction text generalizing read with
    | nil => rw [append_nil, run]
    | cons b text ih =>
      have hb := hplain b (mem_cons_self ..)
      rw [run, feedGateway, if_neg hb.1, if_neg hb.2,
        ih (read ++ [b]) fun c hc => hplain c (mem_cons_of_mem _ hc), append_assoc]
      rfl
  have hsize {size : Nat} (line : SizeLine size) :
      run feedGateway (.length []) (line.text ++ lineBreak) =
        feedGateway (.length line.text) 10 := by
    rw [run_append, hline [] line.text fun _ hb => line.plain_text hb]
    exact run_singleton _ 10
  refine ⟨?_, ?_, fun _ => rfl, fun _ _ => rfl, rfl, fun _ => rfl⟩
  · intro n line
    rw [hsize line, feedGateway, if_neg (by decide), if_pos rfl, line.strtoul16_text]
  · intro line
    rw [hsize line, feedGateway, if_neg (by decide), if_pos rfl, line.strtoul16_text]

theorem readsChunked_proxy : ReadsChunked feedProxy (.size []) .data .expectCrlf .finished := by
  have hopen (line : Bytes) {b : UInt8} (hb : b ≠ 10) : crlf.isSuffixOf (line ++ [b]) = false := by
    rw [Bool.eq_false_iff, ne_eq, isSuffixOf_iff_suffix]
    rintro ⟨front, heq⟩
    have hlast := congrArg getLast? heq
    rw [getLast?_append, getLast?_concat] at hlast
    exact hb (Option.some.inj hlast).symm
  have hline (read text : Bytes) (hplain : ∀ b ∈ text, b ≠ 10) :
      run feedProxy (.size read) text = (.size (read ++ text), []) := by
    induction text generalizing read with
    | nil => rw [append_nil, run]
    | cons b text ih =>
      rw [run, feedProxy, feedSize, hopen read (hplain b (mem_cons_self ..)),
        if_neg Bool.false_ne_true,
        ih (read ++ [b]) fun c hc => hplain c (mem_cons_of_mem _ hc), append_assoc]
      rfl
  have hsize {size : Nat} (line : SizeLine size) :
      run feedProxy (.size []) (line.text ++ lineBreak) = feedSize (line.text ++ [13]) 10 := by
    have hcr : ∀ b ∈ line.text ++ [13], b ≠ 10 := by
      intro b hb
      rcases mem_append.1 hb with hb | hb
      · exact (line.plain_text hb).2
      · cases mem_singleton.1 hb
        decide
    rw [show line.text ++ lineBreak = line.text ++ [13] ++ [10] by rw [append_assoc]; rfl,
      run_append, hline [] _ hcr]
    exact run_singleton _ 10
  have hfull {size : Nat} (line : SizeLine size) : crlf.isSuffixOf (line.text ++ [13] ++ [10]) := by
    rw [isSuffixOf_iff_suffix, append_assoc]
    exact suffix_append _ _
  have hvalue {size : Nat} (line : SizeLine size) :
      strtoul16 (line.text ++ [13] ++ [10]) = size := by
    rw [append_assoc]
    exact line.strtoul16_text_lineBreak
  refine ⟨?_, ?_, fun _ => rfl, fun _ _ => rfl, rfl, fun _ => rfl⟩
  · intro n line
    rw [hsize line, feedSize, if_pos (hfull line), hvalue line]
  · intro line
    rw [hsize line, feedSize, if_pos (hfull line), hvalue line]

/-- However the response is cut into segments, the client gets the payloads of its chunks from
either decoder. -/
theorem forwarded_chunked (r : Response) (hfield : chunkedField <:+: r.header.bytes)
    (segments : List Bytes) (hsegments : segments.flatten = r.text) (request : GatewayRequest)
    (proxied : ProxyRequest) (cost : Int) :
    forwarded (EventMachine.run (Session.step react) ⟨some (.gateway (request.context cost)), []⟩
        (segments.map .data)).log = r.payload ∧
      forwarded (EventMachine.run (Session.step react) ⟨some (.proxy (proxied.context cost)), []⟩
        (segments.map .data)).log = r.payload := by
  constructor
  · have hstart : ReadingGateway ⟨some (.gateway (request.context cost)), []⟩ (.headers []) :=
      ⟨_, rfl, rfl⟩
    rw [run_receive, (reads_gateway.segments hstart segments).2, hsegments,
      readsChunked_gateway.exact r (run_header_gateway hfield)]
    rfl
  · have hstart : ReadingProxy ⟨some (.proxy (proxied.context cost)), []⟩ (.headers []) :=
      Tracks.headers []
    rw [run_receive, (reads_proxy.segments hstart segments).2, hsegments,
      readsChunked_proxy.exact r (run_header_proxy hfield)]
    rfl

def plainSizeLine (digits : Bytes) {size : Nat} (hne : digits ≠ [])
    (hdigits : digits.all fun b => (hexValue b).isSome) (hvalue : ofHex digits = some size)
    (hfits : size < UInt64.size) : SizeLine size where
  digits := digits
  extension := []
  digits_ne := hne
  digits_hex := List.all_eq_true.1 hdigits
  value := hvalue
  fits := hfits
  stops := nofun
  plain := nofun

def greeting : Response where
  header :=
    { bytes := ascii "HTTP/1.1 200 OK\r\nTransfer-Encoding: chunked\r\n\r\n"
      ends := by decide +kernel
      first := by
        have hfirst : ∀ p ∈ (ascii "HTTP/1.1 200 OK\r\nTransfer-Encoding: chunked\r\n\r\n").inits,
            (lineBreak ++ lineBreak) <:+ p →
              p = ascii "HTTP/1.1 200 OK\r\nTransfer-Encoding: chunked\r\n\r\n" := by
          decide +kernel
        intro p hp
        exact hfirst p ((List.mem_inits p _).2 hp) }
  chunks :=
    [{ payload := ascii "hello "
       payload_ne := by decide
       line := plainSizeLine (ascii "6") (by decide) (by decide) (by decide) (by decide) },
     { payload := ascii "world, again!!\n\n"
       payload_ne := by decide
       line :=
        { plainSizeLine (ascii "010") (by decide) (by decide) (by decide) (by decide) with
          extension := ascii ";name=v"
          stops := by simp [ascii, hexValue]
          plain := by simp [ascii] } }]
  last := plainSizeLine (ascii "0") (by decide) (by decide) (by decide) (by decide)
  trailer := crlf

def greetingRequest : GatewayRequest :=
  ⟨ascii "chatcmpl-1", ascii "m", 1700000000, ascii "POST /", [], ascii "hi", 0, true, none⟩

/-- Every byte in a segment of its own, so that all line breaks are cut. -/
theorem forwarded_greeting :
    forwarded (EventMachine.run (Session.step react)
        ⟨some (.gateway (greetingRequest.context 0)), []⟩
        ((greeting.text.map fun b => [b]).map .data)).log = ascii "hello world, again!!\n\n" ∧
      forwarded (EventMachine.run (Session.step react)
        ⟨some (.proxy (ProxyRequest.context ⟨ascii "POST /", [], ascii "hi"⟩ 0)), []⟩
        ((greeting.text.map fun b => [b]).map .data)).log = ascii "hello world, again!!\n\n" := by
  have hpayload : greeting.payload = ascii "hello world, again!!\n\n" := by decide
  rw [← hpayload]
  exact forwarded_chunked greeting (by decide +kernel) (greeting.text.map fun b => [b])
    (flatMap_singleton' greeting.text) greetingRequest ⟨ascii "POST /", [], ascii "hi"⟩ 0

end TKNC.Gateway
