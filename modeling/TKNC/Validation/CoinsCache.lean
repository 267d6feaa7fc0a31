import TKNC.Index.IndexSync

/-!
# CoinsCache — the cache layers under the coins view

A `CCoinsViewCache` keeps coins over a view that may be a cache itself.  `DIRTY` entries may differ
from the view below; a `FRESH` one has no coin below and is dropped when it is spent, without a
trace.  A wrong flag loses a coin or brings a spent one back at the next flush.

`Sound` is what the flags promise about the view below.  Every call keeps it and does to the coins
of the layer what it does to a map, so a run gets the same answers from the layers and from two maps
(`runs_layers`), and the coins of a block reach the view below (`connectBlock_layers`).  Memory use,
the count of dirty entries and the best block are left out.
-/

namespace TKNC.Validation

open Index Lib Lib.Fallible Primitives Wallet List Option

/-- The coin is absent once it is spent. -/
structure CCoinsCacheEntry where
  coin : Option Coin
  dirty : Bool
  fresh : Bool

/-- `flagged` is the linked list behind the sentinel.  An overlay does not fill the layers below. -/
structure CCoinsViewCache where
  cacheCoins : COutPoint → Option CCoinsCacheEntry
  flagged : List COutPoint
  overlay : Bool

inductive CCoinsView where
  | db (coins : CoinsView)
  | cache (top : CCoinsViewCache) (base : CCoinsView)

def isFlagged (entry : Option CCoinsCacheEntry) : Bool :=
  entry.any fun e => e.dirty || e.fresh

namespace CCoinsViewCache

def entryAt (c : CCoinsViewCache) (o : COutPoint) : CCoinsCacheEntry :=
  (c.cacheCoins o).getD ⟨none, false, false⟩

/-- The first flag links an entry.  An entry that is erased or has its flags cleared is unlinked. -/
def set (c : CCoinsViewCache) (o : COutPoint) (entry : Option CCoinsCacheEntry) :
    CCoinsViewCache :=
  { c with
    cacheCoins := Function.update c.cacheCoins o entry
    flagged :=
      if !isFlagged entry then c.flagged.erase o
      else if isFlagged (c.cacheCoins o) then c.flagged
      else c.flagged ++ [o] }

/-- The coins of a cache over those of the view below. -/
def atop (c : CCoinsViewCache) (below : CoinsView) : CoinsView := fun o =>
  match c.cacheCoins o with
  | some e => e.coin
  | none => below o

end CCoinsViewCache

/-! ## Lookups -/

def CCoinsView.peekCoin : CCoinsView → CoinsView
  | db coins => coins
  | cache c base => c.atop base.peekCoin

/-- A cache with the view that it writes to. -/
structure CoinsLayer where
  cache : CCoinsViewCache
  base : CCoinsView

/-- A view that is made for a block or a transaction, on top of another one. -/
def CoinsLayer.new (base : CCoinsView) (overlay : Bool) : CoinsLayer :=
  ⟨⟨fun _ => none, [], overlay⟩, base⟩

/-- `found` is what the view below answers, and what becomes of that view. -/
def CoinsLayer.fetchFrom (s : CoinsLayer) (o : COutPoint) (found : Option Coin × CCoinsView) :
    CoinsLayer :=
  match s.cache.cacheCoins o, found.1 with
  | some _, _ => s
  | none, some coin => ⟨s.cache.set o (some ⟨some coin, false, false⟩), found.2⟩
  | none, none => ⟨s.cache, found.2⟩

def CCoinsView.getCoin : CCoinsView → COutPoint → Option Coin × CCoinsView
  | db coins, o => (coins o, db coins)
  | cache c base, o =>
      let s := CoinsLayer.fetchFrom ⟨c, base⟩ o
        (if c.overlay then (base.peekCoin o, base) else base.getCoin o)
      ((s.cache.entryAt o).coin, cache s.cache s.base)

namespace CoinsLayer

def fetchCoin (s : CoinsLayer) (o : COutPoint) : CoinsLayer :=
  s.fetchFrom o (if s.cache.overlay then (s.base.peekCoin o, s.base) else s.base.getCoin o)

def addCoin (s : CoinsLayer) (o : COutPoint) (coin : Coin) (possibleOverwrite : Bool) :
    Except BlockError CoinsLayer :=
  if isUnspendable coin.out.scriptPubKey then
    .ok s
  else
    let e := s.cache.entryAt o
    if !possibleOverwrite && e.coin.isSome then
      .error (.exception
        "Attempted to overwrite an unspent coin (when possible_overwrite is false)")
    else
      -- a spent coin that is dirty must still reach the view below
      let fresh := e.fresh || (!possibleOverwrite && !e.dirty)
      .ok { s with cache := s.cache.set o (some ⟨some coin, true, fresh⟩) }

/-- The coin that is moved out; a coin that was spent before is moved out once more, as null. -/
def spendCoin (s : CoinsLayer) (o : COutPoint) : Option (Option Coin) × CoinsLayer :=
  let s := s.fetchCoin o
  match s.cache.cacheCoins o with
  | none => (none, s)
  | some e =>
      let entry := if e.fresh then none else some ⟨none, true, false⟩
      (some e.coin, { s with cache := s.cache.set o entry })

def uncache (s : CoinsLayer) (o : COutPoint) : CoinsLayer :=
  if (s.cache.cacheCoins o).all CCoinsCacheEntry.dirty then s
  else { s with cache := s.cache.set o none }

def reset (s : CoinsLayer) : CoinsLayer :=
  .new s.base s.cache.overlay

end CoinsLayer

/-- One turn of `CCoinsViewCache::BatchWrite`. -/
def CCoinsViewCache.batchEntry (c : CCoinsViewCache) (o : COutPoint) (e : CCoinsCacheEntry) :
    Except BlockError CCoinsViewCache :=
  if !e.dirty then .ok c
  else
    match c.cacheCoins o with
    | none =>
        if e.fresh && e.coin.isNone then .ok c else .ok (c.set o (some ⟨e.coin, true, e.fresh⟩))
    | some us =>
        if e.fresh && us.coin.isSome then
          .error (.exception "FRESH flag misapplied to coin that exists in parent cache")
        else if us.fresh && e.coin.isNone then .ok (c.set o none)
        else .ok (c.set o (some ⟨e.coin, true, us.fresh⟩))

def CCoinsView.batchEntry (view : CCoinsView) (o : COutPoint) (e : CCoinsCacheEntry) :
    Except BlockError CCoinsView :=
  match view with
  | db coins => .ok (db (if e.dirty then Function.update coins o e.coin else coins))
  | cache c base => do
      let c ← c.batchEntry o e
      .ok (cache c base)

/-- Behind the cursor, spent entries are erased and the others have no flags. -/
def CCoinsViewCache.nextAndMaybeErase (c : CCoinsViewCache) (o : COutPoint) : CCoinsViewCache :=
  c.set o ((c.entryAt o).coin.map fun coin => ⟨some coin, false, false⟩)

namespace CoinsLayer

/-- The base view writes the flagged entries in the order of the list. -/
def batchWrite (s : CoinsLayer) : Except BlockError CCoinsView :=
  s.cache.flagged.foldlM (fun base o => base.batchEntry o (s.cache.entryAt o)) s.base

def flush (s : CoinsLayer) : Except BlockError CoinsLayer := do
  let base ← s.batchWrite
  .ok (.new base s.cache.overlay)

def sync (s : CoinsLayer) : Except BlockError CoinsLayer := do
  let base ← s.batchWrite
  let cache := s.cache.flagged.foldl CCoinsViewCache.nextAndMaybeErase s.cache
  if cache.flagged = [] then .ok ⟨cache, base⟩
  else .error (.exception "Not all unspent flagged entries were cleared")

end CoinsLayer

/-! ## What the flags promise -/

/-- `below` is the coin of the view below. -/
structure CCoinsCacheEntry.Sound (e : CCoinsCacheEntry) (below : Option Coin) : Prop where
  spent : e.coin = none → e.dirty = true ∧ e.fresh = false
  fresh : e.fresh = true → e.dirty = true ∧ below = none
  clean : e.dirty = false → e.coin = below

theorem sound_of_clean {below : Option Coin} {coin : Coin} (h : below = some coin) :
    CCoinsCacheEntry.Sound ⟨some coin, false, false⟩ below :=
  ⟨by rintro ⟨⟩, by rintro ⟨⟩, fun _ => h.symm⟩

namespace CCoinsViewCache

/-- With this, `SanityCheck` passes. -/
structure Sound (c : CCoinsViewCache) (below : CoinsView) : Prop where
  entry : ∀ {o e}, c.cacheCoins o = some e → e.Sound (below o)
  nodup : c.flagged.Nodup
  mem_flagged : ∀ {o}, o ∈ c.flagged ↔ isFlagged (c.cacheCoins o) = true

variable {c : CCoinsViewCache} {below : CoinsView} {o : COutPoint} {e : CCoinsCacheEntry}

theorem entryAt_eq (h : c.cacheCoins o = some e) : c.entryAt o = e := by
  rw [entryAt, h, getD_some]

theorem atop_set (c : CCoinsViewCache) (below : CoinsView) (o : COutPoint)
    (entry : Option CCoinsCacheEntry) :
    (c.set o entry).atop below =
      Function.update (c.atop below) o (entry.elim (below o) CCoinsCacheEntry.coin) := by
  funext o'
  by_cases ho : o' = o
  · subst ho
    cases entry <;> simp [atop, set]
  · simp [atop, set, ho]

theorem Sound.set {entry : Option CCoinsCacheEntry} (h : c.Sound below)
    (hentry : ∀ e, entry = some e → e.Sound (below o)) : (c.set o entry).Sound below := by
  refine ⟨?_, ?_, ?_⟩
  · intro o' e' hcache
    by_cases ho : o' = o
    · subst ho
      exact hentry e' (by simpa [CCoinsViewCache.set] using hcache)
    · exact h.entry (by simpa [CCoinsViewCache.set, ho] using hcache)
  · unfold CCoinsViewCache.set
    dsimp only
    split
    · exact h.nodup.erase o
    · split
      · exact h.nodup
      · next hclean =>
        exact nodup_append_comm.1 (nodup_cons.2 ⟨mt h.mem_flagged.1 hclean, h.nodup⟩)
  · intro o'
    by_cases ho : o' = o
    · subst ho
      cases hold : isFlagged (c.cacheCoins o') <;> cases hnew : isFlagged entry <;>
        simp [CCoinsViewCache.set, hold, hnew, h.mem_flagged, h.nodup.mem_erase_iff]
    · cases hold : isFlagged (c.cacheCoins o) <;> cases hnew : isFlagged entry <;>
        simp [CCoinsViewCache.set, hold, hnew, h.mem_flagged, h.nodup.mem_erase_iff, ho]

theorem Sound.batchEntry (h : c.Sound below) (he : e.Sound (c.atop below o))
    (hdirty : e.dirty = true) :
    ∃ c', c.batchEntry o e = .ok c' ∧ c'.Sound below ∧
      c'.atop below = Function.update (c.atop below) o e.coin := by
  rw [CCoinsViewCache.batchEntry, if_neg (by simp [hdirty])]
  cases hentry : c.cacheCoins o with
  | none =>
    have hover : c.atop below o = below o := by rw [atop, hentry]
    have hkept : ¬(e.fresh && e.coin.isNone) = true := by
      rw [Bool.and_eq_true, isNone_iff_eq_none]
      rintro ⟨hfresh, hspent⟩
      rw [(he.spent hspent).2] at hfresh
      cases hfresh
    refine ⟨_, if_neg hkept, h.set ?_, atop_set c below o _⟩
    rintro _ ⟨⟩
    exact ⟨fun hspent => ⟨rfl, (he.spent hspent).2⟩, fun hfresh => ⟨rfl, hover ▸ (he.fresh hfresh).2⟩,
      by rintro ⟨⟩⟩
  | some us =>
    have hover : c.atop below o = us.coin := by rw [atop, hentry]
    have hus := h.entry hentry
    have hmarked : ¬(e.fresh && us.coin.isSome) = true := by
      have := he.fresh
      grind
    dsimp only
    rw [if_neg hmarked]
    split
    · -- spent before it was ever written below: nothing is left of it
      next hdrop =>
      rw [Bool.and_eq_true, isNone_iff_eq_none] at hdrop
      refine ⟨_, rfl, h.set (by rintro _ ⟨⟩), ?_⟩
      rw [atop_set, elim_none, (hus.fresh hdrop.1).2, hdrop.2]
    · next hkept =>
      refine ⟨_, rfl, h.set ?_, atop_set c below o _⟩
      rintro _ ⟨⟩
      refine ⟨fun hspent => ⟨rfl, ?_⟩, fun hfresh => ⟨rfl, (hus.fresh hfresh).2⟩, by rintro ⟨⟩⟩
      simpa [show e.coin = none from hspent] using hkept

end CCoinsViewCache

/-! ## Layers -/

/-- The abstract layer: the coins that it shows and those of the view below. -/
structure CoinMaps where
  top : CoinsView
  below : CoinsView

open CCoinsViewCache

def CCoinsView.Sound : CCoinsView → Prop
  | db _ => True
  | cache c base => c.Sound base.peekCoin ∧ base.Sound

namespace CoinsLayer

def view (s : CoinsLayer) : CoinsView :=
  s.cache.atop s.base.peekCoin

structure Sound (s : CoinsLayer) : Prop where
  cache : s.cache.Sound s.base.peekCoin
  base : s.base.Sound

def Represents (s : CoinsLayer) (m : CoinMaps) : Prop :=
  s.Sound ∧ ⟨s.view, s.base.peekCoin⟩ = m

variable {s : CoinsLayer} {o : COutPoint} {e : CCoinsCacheEntry}

theorem view_of_some (h : s.cache.cacheCoins o = some e) : s.view o = e.coin := by
  rw [view, atop, h]

theorem view_of_none (h : s.cache.cacheCoins o = none) : s.view o = s.base.peekCoin o := by
  rw [view, atop, h]

theorem Sound.fetchFrom (h : s.Sound) {found : Option Coin × CCoinsView}
    (hfound : found.1 = s.base.peekCoin o ∧ found.2.peekCoin = s.base.peekCoin ∧ found.2.Sound) :
    (s.fetchFrom o found).Represents ⟨s.view, s.base.peekCoin⟩ ∧
      ((s.fetchFrom o found).cache.entryAt o).coin = s.view o := by
  obtain ⟨hanswer, hpeek, hbase⟩ := hfound
  unfold CoinsLayer.fetchFrom
  split
  · next e hentry =>
    exact ⟨⟨h, rfl⟩, by rw [entryAt_eq hentry, view_of_some hentry]⟩
  · next coin hentry hcoin =>
    have hbelow : s.base.peekCoin o = some coin := hanswer ▸ hcoin
    refine ⟨⟨⟨hpeek ▸ h.cache.set ?_, hbase⟩, congrArg₂ CoinMaps.mk ?_ hpeek⟩, ?_⟩
    · rintro _ ⟨⟩
      exact sound_of_clean hbelow
    · rw [view, atop_set, hpeek, ← view, elim_some, ← hbelow, ← view_of_none hentry,
        Function.update_eq_self]
    · simp [entryAt, CCoinsViewCache.set, view_of_none hentry, hbelow]
  · next hentry hnone =>
    refine ⟨⟨⟨hpeek ▸ h.cache, hbase⟩, by rw [view, hpeek, view]⟩, ?_⟩
    simp [entryAt, hentry, view_of_none hentry, ← hanswer, hnone]

end CoinsLayer

theorem CCoinsView.Sound.getCoin {view : CCoinsView} (h : view.Sound) (o : COutPoint) :
    (view.getCoin o).1 = view.peekCoin o ∧ (view.getCoin o).2.peekCoin = view.peekCoin ∧
      (view.getCoin o).2.Sound := by
  induction view with
  | db coins => exact ⟨rfl, rfl, trivial⟩
  | cache c base ih =>
    have hlayer : CoinsLayer.Sound ⟨c, base⟩ := ⟨h.1, h.2⟩
    have hfound : ∀ found, found = (if c.overlay then (base.peekCoin o, base) else base.getCoin o) →
        found.1 = base.peekCoin o ∧ found.2.peekCoin = base.peekCoin ∧ found.2.Sound := by
      rintro _ rfl
      split
      · exact ⟨rfl, rfl, h.2⟩
      · exact ih h.2
    obtain ⟨⟨hsound, hmaps⟩, hcoin⟩ := hlayer.fetchFrom (hfound _ rfl)
    exact ⟨hcoin, congrArg CoinMaps.top hmaps, hsound.cache, hsound.base⟩

theorem CCoinsView.Sound.batchEntry {view : CCoinsView} {o : COutPoint} {e : CCoinsCacheEntry}
    (h : view.Sound) (he : e.Sound (view.peekCoin o)) (hdirty : e.dirty = true) :
    ∃ view', view.batchEntry o e = .ok view' ∧ view'.Sound ∧
      view'.peekCoin = Function.update view.peekCoin o e.coin := by
  cases view with
  | db coins => exact ⟨_, rfl, trivial, by rw [if_pos hdirty, peekCoin, peekCoin]⟩
  | cache c base =>
    obtain ⟨c', hwrite, hsound, hover⟩ := h.1.batchEntry he hdirty
    exact ⟨cache c' base, bind_eq_ok.2 ⟨c', hwrite, rfl⟩, ⟨hsound, h.2⟩, hover⟩

namespace CoinsLayer

variable {s : CoinsLayer} {o : COutPoint} {e : CCoinsCacheEntry}

theorem Sound.fetchCoin (h : s.Sound) (o : COutPoint) :
    (s.fetchCoin o).Represents ⟨s.view, s.base.peekCoin⟩ ∧
      ((s.fetchCoin o).cache.entryAt o).coin = s.view o := by
  refine h.fetchFrom ?_
  split
  · exact ⟨rfl, rfl, h.base⟩
  · exact h.base.getCoin o

theorem Sound.addCoin (h : s.Sound) {coin : Coin} {possibleOverwrite : Bool} {view' : CoinsView}
    (hadd : Validation.addCoin s.view o coin possibleOverwrite = .ok view') :
    ∃ s', s.addCoin o coin possibleOverwrite = .ok s' ∧
      s'.Represents ⟨view', s.base.peekCoin⟩ := by
  unfold Validation.addCoin at hadd
  unfold CoinsLayer.addCoin
  split at hadd
  · next hscript =>
    cases hadd
    exact ⟨s, if_pos hscript, h, rfl⟩
  · next hscript =>
    split at hadd
    · cases hadd
    · next hfree =>
      have hspent : possibleOverwrite = false → s.view o = none := by
        intro hpossible
        simpa [hpossible, haveCoin] using hfree
      have hnone : possibleOverwrite = false → (s.cache.entryAt o).coin = none := by
        intro hpossible
        cases hentry : s.cache.cacheCoins o with
        | none => rw [entryAt, hentry, getD_none]
        | some e => rw [entryAt_eq hentry, ← view_of_some hentry, hspent hpossible]
      have hpass : ¬(!possibleOverwrite && (s.cache.entryAt o).coin.isSome) = true := by
        cases possibleOverwrite <;> simp [hnone]
      rw [if_neg hscript]
      cases hadd
      refine ⟨_, if_neg hpass, ⟨h.cache.set ?_, h.base⟩, by rw [view, atop_set]; rfl⟩
      rintro _ ⟨⟩
      refine ⟨by rintro ⟨⟩, fun hfresh => ⟨rfl, ?_⟩, by rintro ⟨⟩⟩
      -- the flag is an old one, or nothing is cached that differs from the view below
      cases hentry : s.cache.cacheCoins o with
      | none =>
        rw [← view_of_none hentry]
        exact hspent (by simpa [entryAt, hentry] using hfresh)
      | some e =>
        rw [entryAt_eq hentry] at hfresh hnone
        have he := h.cache.entry hentry
        cases hold : e.fresh with
        | true => exact (he.fresh hold).2
        | false =>
          simp only [hold, Bool.false_or, Bool.and_eq_true, Bool.not_eq_true'] at hfresh
          rw [← he.clean hfresh.2, hnone hfresh.1]

theorem Sound.spendCoin (h : s.Sound) (o : COutPoint) :
    (s.spendCoin o).2.Represents ⟨Validation.spendCoin s.view o, s.base.peekCoin⟩ ∧
      (s.spendCoin o).1.getD none = s.view o := by
  obtain ⟨⟨hsound, hmaps⟩, hcoin⟩ := h.fetchCoin o
  rw [CoinMaps.mk.injEq] at hmaps
  unfold CoinsLayer.spendCoin Validation.spendCoin
  dsimp only
  rw [← hmaps.1] at hcoin ⊢
  rw [← hmaps.2]
  cases hentry : (s.fetchCoin o).cache.cacheCoins o with
  | none =>
    rw [entryAt, hentry, getD_none] at hcoin
    exact ⟨⟨hsound, by rw [Function.update_eq_self_iff.2 hcoin]⟩, hcoin⟩
  | some e =>
    rw [entryAt_eq hentry] at hcoin
    refine ⟨⟨⟨hsound.cache.set ?_, hsound.base⟩, ?_⟩, hcoin⟩
    · intro e' he'
      split at he'
      · cases he'
      · cases he'
        exact ⟨fun _ => ⟨rfl, rfl⟩, by rintro ⟨⟩, by rintro ⟨⟩⟩
    · rw [view, atop_set, ← view]
      split
      · next hfresh => rw [elim_none, ((hsound.cache.entry hentry).fresh hfresh).2]
      · rfl

theorem Sound.uncache (h : s.Sound) (o : COutPoint) :
    (s.uncache o).Represents ⟨s.view, s.base.peekCoin⟩ := by
  unfold CoinsLayer.uncache
  split
  · exact ⟨h, rfl⟩
  · next hclean =>
    refine ⟨⟨h.cache.set (by rintro _ ⟨⟩), h.base⟩, ?_⟩
    cases hentry : s.cache.cacheCoins o with
    | none => simp [hentry] at hclean
    | some e =>
      have hcoin := (h.cache.entry hentry).clean (by simpa [hentry] using hclean)
      rw [view, atop_set, elim_none, ← hcoin, ← view_of_some hentry, ← view,
        Function.update_eq_self]

/-! ## Writing keeps the coins -/

theorem sound_new {base : CCoinsView} (h : base.Sound) (overlay : Bool) :
    (new base overlay).Sound :=
  ⟨⟨by rintro _ _ ⟨⟩, nodup_nil, by simp [new, isFlagged]⟩, h⟩

theorem Sound.entry_of_mem (h : s.Sound) (hmem : o ∈ s.cache.flagged) :
    ∃ e, s.cache.cacheCoins o = some e ∧ e.dirty = true := by
  have hflag := h.cache.mem_flagged.1 hmem
  cases hentry : s.cache.cacheCoins o with
  | none =>
    rw [hentry] at hflag
    cases hflag
  | some e =>
    rw [hentry, isFlagged, any_some, Bool.or_eq_true] at hflag
    exact ⟨e, rfl, hflag.elim id fun hfresh => ((h.cache.entry hentry).fresh hfresh).1⟩

theorem Sound.entry_of_not_mem (h : s.Sound) (hentry : s.cache.cacheCoins o = some e)
    (hnot : o ∉ s.cache.flagged) :
    ∃ coin, s.base.peekCoin o = some coin ∧ e = ⟨some coin, false, false⟩ := by
  obtain ⟨coin, dirty, fresh⟩ := e
  rw [h.cache.mem_flagged, hentry, isFlagged, any_some, Bool.or_eq_true, not_or,
    Bool.not_eq_true, Bool.not_eq_true] at hnot
  obtain ⟨rfl, rfl⟩ := hnot
  have he := h.cache.entry hentry
  cases coin with
  | none => cases (he.spent rfl).1
  | some coin => exact ⟨coin, (he.clean rfl).symm, rfl⟩

theorem batchEntries {c : CCoinsViewCache} {base : CCoinsView} {l : List COutPoint}
    (h : base.Sound) (hnodup : l.Nodup)
    (hl : ∀ o ∈ l, (c.entryAt o).dirty = true ∧ (c.entryAt o).Sound (base.peekCoin o)) :
    ∃ base', l.foldlM (fun base o => base.batchEntry o (c.entryAt o)) base = .ok base' ∧
      base'.Sound ∧ ∀ o, base'.peekCoin o =
        if o ∈ l then (c.entryAt o).coin else base.peekCoin o := by
  induction l generalizing base with
  | nil => exact ⟨base, rfl, h, fun o => (if_neg not_mem_nil).symm⟩
  | cons o l ih =>
    obtain ⟨hdirty, hentry⟩ := hl o mem_cons_self
    obtain ⟨hnew, hnodup⟩ := nodup_cons.1 hnodup
    obtain ⟨mid, hwrite, hmid, hpeek⟩ := h.batchEntry hentry hdirty
    have hkept : ∀ o' ∈ l, mid.peekCoin o' = base.peekCoin o' := by
      intro o' hmem
      have hne : o' ≠ o := fun heq => hnew (heq ▸ hmem)
      rw [hpeek, Function.update_of_ne hne]
    obtain ⟨base', hrest, hbase', hpeek'⟩ := ih hmid hnodup fun o' hmem => by
      rw [hkept o' hmem]
      exact hl o' (mem_cons_of_mem o hmem)
    refine ⟨base', bind_eq_ok.2 ⟨mid, hwrite, hrest⟩, hbase', fun o' => ?_⟩
    rw [hpeek', hpeek]
    by_cases ho : o' = o
    · simp [ho, hnew]
    · simp [ho]

theorem Sound.batchWrite (h : s.Sound) :
    ∃ base, s.batchWrite = .ok base ∧ base.Sound ∧ base.peekCoin = s.view := by
  obtain ⟨base, hwrite, hbase, hpeek⟩ := batchEntries h.base h.cache.nodup fun o hmem => by
    obtain ⟨e, hentry, hdirty⟩ := h.entry_of_mem hmem
    rw [entryAt_eq hentry]
    exact ⟨hdirty, h.cache.entry hentry⟩
  refine ⟨base, hwrite, hbase, funext fun o => ?_⟩
  rw [hpeek]
  split
  · next hmem =>
    obtain ⟨e, hentry, -⟩ := h.entry_of_mem hmem
    rw [entryAt_eq hentry, view_of_some hentry]
  · next hnot =>
    cases hentry : s.cache.cacheCoins o with
    | none => exact (view_of_none hentry).symm
    | some e =>
      obtain ⟨coin, hbelow, rfl⟩ := h.entry_of_not_mem hentry hnot
      rw [hbelow, view_of_some hentry]

theorem Sound.flush (h : s.Sound) :
    ∃ s', s.flush = .ok s' ∧ s'.Represents ⟨s.view, s.view⟩ := by
  obtain ⟨base, hwrite, hbase, hpeek⟩ := h.batchWrite
  exact ⟨_, bind_eq_ok.2 ⟨base, hwrite, rfl⟩, sound_new hbase _, congrArg₂ CoinMaps.mk hpeek hpeek⟩

theorem foldl_nextAndMaybeErase {c : CCoinsViewCache} {l : List COutPoint} (hnodup : l.Nodup)
    (hl : c.flagged = l) :
    (l.foldl nextAndMaybeErase c).flagged = [] ∧
      ∀ o, (l.foldl nextAndMaybeErase c).cacheCoins o =
        if o ∈ l then (c.entryAt o).coin.map fun coin => ⟨some coin, false, false⟩
        else c.cacheCoins o := by
  induction l generalizing c with
  | nil => exact ⟨hl, fun o => (if_neg not_mem_nil).symm⟩
  | cons o l ih =>
    obtain ⟨hnew, hnodup⟩ := nodup_cons.1 hnodup
    have hnext : (c.nextAndMaybeErase o).flagged = l := by
      cases hcoin : (c.entryAt o).coin <;>
        simp [nextAndMaybeErase, CCoinsViewCache.set, hcoin, isFlagged, hl]
    obtain ⟨hflagged, hentry⟩ := ih hnodup hnext
    refine ⟨hflagged, fun o' => ?_⟩
    rw [foldl_cons, hentry]
    by_cases ho : o' = o
    · simp [ho, hnew, nextAndMaybeErase, CCoinsViewCache.set]
    · simp [ho, nextAndMaybeErase, CCoinsViewCache.set, entryAt]

theorem Sound.sync (h : s.Sound) :
    ∃ s', s.sync = .ok s' ∧ s'.Represents ⟨s.view, s.view⟩ := by
  obtain ⟨base, hwrite, hbase, hpeek⟩ := h.batchWrite
  obtain ⟨hflagged, hcoins⟩ := foldl_nextAndMaybeErase h.cache.nodup rfl
  have hsync : s.sync = .ok ⟨_, base⟩ := bind_eq_ok.2 ⟨base, hwrite, if_pos hflagged⟩
  generalize s.cache.flagged.foldl nextAndMaybeErase s.cache = c at hflagged hcoins hsync
  -- an entry that is left is clean and has the coin that was written
  have hleft : ∀ {o e}, c.cacheCoins o = some e →
      ∃ coin, s.view o = some coin ∧ e = ⟨some coin, false, false⟩ := by
    intro o e hentry
    rw [hcoins] at hentry
    split at hentry
    · next hmem =>
      obtain ⟨old, hold, -⟩ := h.entry_of_mem hmem
      rw [entryAt_eq hold] at hentry
      obtain ⟨coin, hcoin, rfl⟩ := map_eq_some_iff.1 hentry
      exact ⟨coin, (view_of_some hold).trans hcoin, rfl⟩
    · next hnot =>
      obtain ⟨coin, -, rfl⟩ := h.entry_of_not_mem hentry hnot
      exact ⟨coin, view_of_some hentry, rfl⟩
  refine ⟨⟨c, base⟩, hsync, ⟨⟨?_, hflagged ▸ nodup_nil, ?_⟩, hbase⟩,
    congrArg₂ CoinMaps.mk (funext fun o => ?_) hpeek⟩
  · intro o e hentry
    obtain ⟨coin, hview, rfl⟩ := hleft hentry
    exact sound_of_clean (by rw [hpeek, hview])
  · intro o
    rw [hflagged]
    cases hentry : c.cacheCoins o with
    | none => simp [isFlagged]
    | some e =>
      obtain ⟨coin, -, rfl⟩ := hleft hentry
      simp [isFlagged]
  · cases hentry : c.cacheCoins o with
    | none => exact (view_of_none hentry).trans (congrFun hpeek o)
    | some e =>
      obtain ⟨coin, hview, rfl⟩ := hleft hentry
      exact (view_of_some hentry).trans hview.symm

end CoinsLayer

/-! ## Runs -/

inductive CoinsCall where
  | getCoin (o : COutPoint)
  | addCoin (o : COutPoint) (coin : Coin) (possibleOverwrite : Bool)
  | spendCoin (o : COutPoint)
  | uncache (o : COutPoint)
  | flush
  | sync
  | reset

def CoinsLayer.step (s : CoinsLayer) : CoinsCall → Except BlockError (Option Coin × CoinsLayer)
  | .getCoin o => .ok (((s.fetchCoin o).cache.entryAt o).coin, s.fetchCoin o)
  | .addCoin o coin possibleOverwrite => do
      let s ← s.addCoin o coin possibleOverwrite
      .ok (none, s)
  | .spendCoin o => .ok ((s.spendCoin o).1.getD none, (s.spendCoin o).2)
  | .uncache o => .ok (none, s.uncache o)
  | .flush => do
      let s ← s.flush
      .ok (none, s)
  | .sync => do
      let s ← s.sync
      .ok (none, s)
  | .reset => .ok (none, s.reset)

def CoinMaps.step (m : CoinMaps) : CoinsCall → Except BlockError (Option Coin × CoinMaps)
  | .getCoin o => .ok (m.top o, m)
  | .addCoin o coin possibleOverwrite => do
      let top ← Validation.addCoin m.top o coin possibleOverwrite
      .ok (none, ⟨top, m.below⟩)
  | .spendCoin o => .ok (m.top o, ⟨Validation.spendCoin m.top o, m.below⟩)
  | .uncache _ => .ok (none, m)
  | .flush | .sync => .ok (none, ⟨m.top, m.top⟩)
  | .reset => .ok (none, ⟨m.below, m.below⟩)

namespace CoinsLayer

theorem Represents.step {s : CoinsLayer} {m m' : CoinMaps} {call : CoinsCall}
    {answer : Option Coin} (h : s.Represents m) (hcall : m.step call = .ok (answer, m')) :
    ∃ s', s.step call = .ok (answer, s') ∧ s'.Represents m' := by
  obtain ⟨h, rfl⟩ := h
  cases call with
  | getCoin o =>
    obtain ⟨hs, hcoin⟩ := h.fetchCoin o
    cases hcall
    exact ⟨_, congrArg Except.ok (Prod.ext hcoin rfl), hs⟩
  | addCoin o coin possibleOverwrite =>
    obtain ⟨top, hadd, hresult⟩ := bind_eq_ok.1 hcall
    obtain ⟨s', hadd', hs⟩ := h.addCoin hadd
    cases hresult
    exact ⟨s', bind_eq_ok.2 ⟨s', hadd', rfl⟩, hs⟩
  | spendCoin o =>
    obtain ⟨hs, hcoin⟩ := h.spendCoin o
    cases hcall
    exact ⟨_, congrArg Except.ok (Prod.ext hcoin rfl), hs⟩
  | uncache o =>
    cases hcall
    exact ⟨_, rfl, h.uncache o⟩
  | flush =>
    obtain ⟨s', hflush, hs⟩ := h.flush
    cases hcall
    exact ⟨s', bind_eq_ok.2 ⟨s', hflush, rfl⟩, hs⟩
  | sync =>
    obtain ⟨s', hsync, hs⟩ := h.sync
    cases hcall
    exact ⟨s', bind_eq_ok.2 ⟨s', hsync, rfl⟩, hs⟩
  | reset =>
    cases hcall
    exact ⟨_, rfl, sound_new h.base _, rfl⟩

variable {calls : List CoinsCall} {answers : List (Option Coin)} {m m' : CoinMaps}

theorem runs_of_represents {s : CoinsLayer} (h : s.Represents m)
    (hruns : runs CoinMaps.step m calls = .ok (answers, m')) :
    ∃ s', runs step s calls = .ok (answers, s') ∧ s'.Represents m' :=
  runs_simulates Represents.step h hruns

/-- Calls that the maps handle get the same answers from the layers, and have the same effect on
their coins. -/
theorem runs_layers {base : CCoinsView} (hbase : base.Sound) (overlay : Bool)
    (hruns : runs CoinMaps.step ⟨base.peekCoin, base.peekCoin⟩ calls = .ok (answers, m)) :
    ∃ s, runs step (new base overlay) calls = .ok (answers, s) ∧ s.Represents m :=
  runs_of_represents ⟨sound_new hbase overlay, rfl⟩ hruns

/-- A coin is spent before and after it is written to the view below. -/
def spendTwice : List CoinsCall :=
  let o : COutPoint := ⟨7, 0⟩
  let add : CoinsCall := .addCoin o ⟨⟨9, [0x51]⟩, 1, false⟩ false
  [add, .spendCoin o, add, .sync, .spendCoin o, .flush, .getCoin o]

theorem runs_layers_spendTwice :
    ∃ answers m s, runs CoinMaps.step ⟨fun _ => none, fun _ => none⟩ spendTwice = .ok (answers, m) ∧
      runs step (new (.db fun _ => none) true) spendTwice = .ok (answers, s) ∧
      s.Represents m := by
  have hbase : CCoinsView.Sound (.db fun _ => none) := trivial
  have hruns : runs CoinMaps.step ⟨fun _ => none, fun _ => none⟩ spendTwice = .ok (_, _) := rfl
  obtain ⟨s, hs⟩ := runs_layers hbase true hruns
  exact ⟨_, _, s, hruns, hs⟩

end CoinsLayer

/-! ## Blocks -/

/-- The calls of `UpdateCoins`. -/
def updateCalls (nHeight : Int) (tx : CTransaction) : List CoinsCall :=
  (spentBy tx).map .spendCoin ++ tx.vout.zipIdx.map fun output =>
    .addCoin (tx.outPoint output.2) ⟨output.1, nHeight, tx.isCoinBase⟩ tx.isCoinBase

variable {view view' below : CoinsView} {nHeight : Int}

theorem runs_spendCoins (prevouts : List COutPoint) :
    ∃ answers, runs CoinMaps.step ⟨view, below⟩ (prevouts.map .spendCoin) =
      .ok (answers, ⟨prevouts.foldl spendCoin view, below⟩) := by
  induction prevouts generalizing view with
  | nil => exact ⟨[], rfl⟩
  | cons prevout prevouts ih =>
    obtain ⟨answers, hrest⟩ := ih
    exact ⟨_, runs_cons_eq_ok.2 ⟨view prevout, _, answers, rfl, hrest, rfl⟩⟩

theorem runs_addOutputs {tx : CTransaction} {outputs : List (CTxOut × Nat)}
    (h : addOutputs tx nHeight view outputs = .ok view') :
    ∃ answers, runs CoinMaps.step ⟨view, below⟩ (outputs.map fun output =>
        .addCoin (tx.outPoint output.2) ⟨output.1, nHeight, tx.isCoinBase⟩ tx.isCoinBase) =
      .ok (answers, ⟨view', below⟩) := by
  induction outputs generalizing view with
  | nil =>
    cases h
    exact ⟨[], rfl⟩
  | cons output outputs ih =>
    obtain ⟨mid, hadd, hlater⟩ := bind_eq_ok.1 h
    obtain ⟨answers, hrest⟩ := ih hlater
    exact ⟨_, runs_cons_eq_ok.2 ⟨none, ⟨mid, below⟩, answers, bind_eq_ok.2 ⟨mid, hadd, rfl⟩, hrest,
      rfl⟩⟩

theorem runs_updateCalls {tx : CTransaction} (h : updateCoins tx view nHeight = .ok view') :
    ∃ answers, runs CoinMaps.step ⟨view, below⟩ (updateCalls nHeight tx) =
      .ok (answers, ⟨view', below⟩) := by
  refine runs_append (runs_spendCoins (spentBy tx)) (runs_addOutputs ?_)
  unfold updateCoins addCoins at h
  unfold spentBy
  split at h
  · next hcb => simpa [hcb] using h
  · next hcb => simpa [hcb] using h

theorem runs_connectTransactions {rules : Rules} {progress progress' : Progress}
    {vtx : List CTransaction}
    (h : connectTransactions rules nHeight progress vtx = .ok progress') :
    ∃ answers, runs CoinMaps.step ⟨progress.view, below⟩ (vtx.flatMap (updateCalls nHeight)) =
      .ok (answers, ⟨progress'.view, below⟩) := by
  induction vtx generalizing progress with
  | nil =>
    cases h
    exact ⟨[], rfl⟩
  | cons tx vtx ih =>
    obtain ⟨mid, hmid, hrest⟩ := bind_eq_ok.1 h
    exact runs_append (runs_updateCalls (connectTransaction_eq_ok hmid)) (ih hrest)

/-- The updates of a block that is connected, made in a new view over any layers and flushed, leave
the coins of `connectBlock` in the view below. -/
theorem connectBlock_layers {rules : Rules} {block : CBlock} {base : CCoinsView}
    (hbase : base.Sound) (overlay : Bool) (hheight : nHeight ≠ 0)
    (h : connectBlock rules nHeight base.peekCoin block = .ok view') :
    ∃ answers s, runs CoinsLayer.step (.new base overlay)
        (block.vtx.flatMap (updateCalls nHeight) ++ [.flush]) = .ok (answers, s) ∧
      s.Sound ∧ s.base.peekCoin = view' := by
  obtain ⟨-, -, progress, hprogress, rfl⟩ := connectBlock_eq_ok hheight h
  have hflush : ∃ answers, runs CoinMaps.step ⟨progress.view, base.peekCoin⟩ [.flush] =
      .ok (answers, ⟨progress.view, progress.view⟩) := ⟨[none], rfl⟩
  obtain ⟨answers, hruns⟩ := runs_append (runs_connectTransactions hprogress) hflush
  obtain ⟨s, hs, hsound, hmaps⟩ :=
    CoinsLayer.runs_of_represents ⟨CoinsLayer.sound_new hbase overlay, rfl⟩ hruns
  exact ⟨answers, s, hs, hsound, congrArg CoinMaps.below hmaps⟩

theorem connectBlock_layers_moveTwiceBlock :
    ∃ coins answers s, connectBlock openRules 2 rewardCoins moveTwiceBlock = .ok coins ∧
      runs CoinsLayer.step (.new (.db rewardCoins) false)
        (moveTwiceBlock.vtx.flatMap (updateCalls 2) ++ [.flush]) = .ok (answers, s) ∧
      s.Sound ∧ s.base.peekCoin = coins := by
  obtain ⟨coins, hconnect, _⟩ := connect_moveTwiceBlock
  have hbase : CCoinsView.Sound (.db rewardCoins) := trivial
  obtain ⟨answers, s, hall⟩ := connectBlock_layers hbase false (by decide) hconnect
  exact ⟨coins, answers, s, hconnect, hall⟩

end TKNC.Validation
