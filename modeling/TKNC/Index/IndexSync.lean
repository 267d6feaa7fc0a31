import TKNC.Index.AddressIndex
import TKNC.Lib.EventMachine

/-!
# IndexSync — the address index along a chain

Blocks arrive one after the other, the genesis block first.  A block that can be connected changes
the coins and is appended to the index; any other block changes nothing.  After every chain whose
blocks spend none of their own outputs the index lists the coins.

When a block spends an output of its own, `CustomAppend` does not find the output in the store, where
only earlier blocks are, and the entries that it writes for it stay.
-/

namespace TKNC.Index

open Lib Lib.EventMachine Lib.Fallible Lib.MachineInt Primitives Validation Wallet List

structure ChainState where
  nHeight : Nat
  coins : CoinsView
  index : IndexDB

def ChainState.start : ChainState :=
  { nHeight := 0
    coins := fun _ => none
    index := OrderedMap.empty }

def connectTip (rules : Rules) (hash160 : Script → UInt160) (s : ChainState) (block : CBlock) :
    ChainState :=
  match connectBlock rules s.nHeight s.coins block with
  | .ok coins =>
      { nHeight := s.nHeight + 1
        coins := coins
        index := customAppend hash160 s.nHeight block s.index }
  | .error _ => s

theorem connectTip_of_ok {rules : Rules} {hash160 : Script → UInt160} {s : ChainState}
    {block : CBlock} {coins : CoinsView}
    (h : connectBlock rules s.nHeight s.coins block = .ok coins) :
    connectTip rules hash160 s block =
      ⟨s.nHeight + 1, coins, customAppend hash160 s.nHeight block s.index⟩ := by
  rw [connectTip, h]

/-- Every query returns exactly the coins of its script. -/
def IndexExact (hash160 : Script → UInt160) (s : ChainState) : Prop :=
  ∀ scriptHash, ∃ utxos, findAddressUTXOs s.index scriptHash = some utxos ∧
    Lists hash160 s.coins scriptHash utxos

/-- The coins are spendable outputs of blocks after the genesis block. -/
def CoinsSpendable (s : ChainState) : Prop :=
  ∀ outpoint coin, s.coins outpoint = some coin →
    1 ≤ coin.nHeight ∧ isUnspendable coin.out.scriptPubKey = false

/-! ## The invariant -/

section Invariant

variable {rules : Rules} {hash160 : Script → UInt160} {s : ChainState} {block : CBlock}

structure InSync (hash160 : Script → UInt160) (s : ChainState) : Prop where
  mirrors : Mirrors hash160 s.index s.coins
  spendable : CoinsSpendable s

theorem inSync_start : InSync hash160 .start where
  mirrors := mirrors_empty
  spendable := nofun

theorem InSync.connectTip (h : InSync hash160 s) (hown : ¬ SpendsOwn block) :
    InSync hash160 (connectTip rules hash160 s block) := by
  unfold Index.connectTip
  split
  · rename_i coins hconnect
    by_cases hheight : (s.nHeight : Int) = 0
    · -- the genesis block changes neither the coins nor the index
      have hcoins : coins = s.coins := by
        rw [hheight] at hconnect
        rcases bind_eq_ok.1 hconnect with ⟨_, _, hview⟩
        exact (Except.ok.inj hview).symm
      subst hcoins
      rw [customAppend, if_pos hheight]
      exact ⟨h.mirrors, h.spendable⟩
    · have hturn := turnover_connectBlock hheight hconnect hown
      refine ⟨h.mirrors.customAppend hheight hturn ?_, ?_⟩
      · intro outpoint hmem hspent
        rw [map_fst_created] at hmem
        exact hown ⟨outpoint, hmem, hspent⟩
      · apply hturn.forall_after h.spendable
        intro e hmem
        rcases created_spendable hmem with ⟨hcoin, hspendable⟩
        exact ⟨by omega, hspendable⟩
  · exact h

end Invariant

/-! ## Two chains

The reward of a block is moved in the next one, once or twice. -/

def openRules : Rules where
  teamScript := [0x53]
  checkHeader _ := .ok ()
  getLegacySigOpCount _ := 0
  getTransactionSigOpCost _ _ := 0
  sequenceLocks _ _ _ := true
  checkInputScripts _ _ := .ok ()

def firstByte (script : Script) : UInt160 :=
  BitVec.ofNat 160 ((script.head?.map UInt8.toNat).getD 0)

def coinbaseTx (txid : Txid) (minerReward teamReward : Int) : CTransaction where
  hash := txid
  vin := [⟨⟨0, 0xffffffff⟩, [0x51, 0x51]⟩]
  vout := [⟨minerReward, [0x51]⟩, ⟨teamReward, [0x53]⟩]

/-- Moves nine units from the first output of a transaction to a script of one byte.  The scripts
used push a number other than zero, so no signature is needed. -/
def moveTx (txid : Txid) (source : Txid) (script : UInt8) : CTransaction where
  hash := txid
  vin := [⟨⟨source, 0⟩, []⟩]
  vout := [⟨9, [script]⟩]

def genesisBlock : CBlock := ⟨[coinbaseTx 1 0 0]⟩

def rewardBlock : CBlock := ⟨[coinbaseTx 2 9 1]⟩

def moveBlock : CBlock := ⟨[coinbaseTx 3 0 0, moveTx 4 2 0x52]⟩

def moveTwiceBlock : CBlock := ⟨[coinbaseTx 3 0 0, moveTx 4 2 0x52, moveTx 5 4 0x54]⟩

theorem checkCoinbase_zero {nHeight : Int} (hheight : 1 ≤ nHeight) (hint : Fits 32 nHeight)
    (script teamScript : Script) :
    checkCoinbase teamScript nHeight 0 [⟨0, script⟩, ⟨0, teamScript⟩] = some (.ok ()) := by
  rcases Economics.getTKNCBlockSubsidy_bounds hint with ⟨subsidy, hsubsidy, hnonneg, hle⟩
  exact checkCoinbase_split script teamScript hheight hsubsidy (by omega) le_rfl le_rfl (by omega)
    (by decide) nofun

def rewardCoins : CoinsView :=
  Function.update (Function.update (fun _ => none) ⟨2, 0⟩ (some ⟨⟨9, [0x51]⟩, 1, true⟩)) ⟨2, 1⟩
    (some ⟨⟨1, [0x53]⟩, 1, true⟩)

def rewardState : ChainState where
  nHeight := 2
  coins := rewardCoins
  index := customAppend firstByte 1 rewardBlock OrderedMap.empty

theorem run_rewardBlock :
    run (connectTip openRules firstByte) .start [genesisBlock, rewardBlock] = rewardState := by
  have hgenesis : connectTip openRules firstByte .start genesisBlock =
      ⟨1, fun _ => none, OrderedMap.empty⟩ := rfl
  have hreward : connectBlock openRules 1 (fun _ => none) rewardBlock = .ok rewardCoins := by
    have hprogress : connectTransactions openRules 1 ⟨fun _ => none, 0, 0⟩ [coinbaseTx 2 9 1] =
        .ok ⟨rewardCoins, 0, 0⟩ := rfl
    have hcoinbase : checkCoinbase [0x53] 1 0 (coinbaseTx 2 9 1).vout = some (.ok ()) :=
      checkCoinbase_split [0x51] [0x53] le_rfl getBlockSubsidy_one (by decide) (by decide)
        (by decide) (by decide) (by decide) nofun
    exact connectBlock_of_passed (by decide) (by decide) (by decide) hprogress hcoinbase
  rw [run, foldl_cons, hgenesis, foldl_cons, foldl_nil]
  exact connectTip_of_ok hreward

theorem run_thirdBlock {block : CBlock} {coins : CoinsView}
    (h : connectBlock openRules 2 rewardCoins block = .ok coins) :
    run (connectTip openRules firstByte) .start [genesisBlock, rewardBlock, block] =
      ⟨3, coins, customAppend firstByte 2 block rewardState.index⟩ := by
  have hsplit : run (connectTip openRules firstByte) .start ([genesisBlock, rewardBlock] ++ [block]) =
      run (connectTip openRules firstByte) rewardState [block] := by
    rw [run, foldl_append, ← run_rewardBlock, run, run]
  rw [cons_append, cons_append, nil_append] at hsplit
  rw [hsplit, run, foldl_cons, foldl_nil]
  exact connectTip_of_ok h

theorem connect_moveBlock :
    ∃ coins, connectBlock openRules 2 rewardCoins moveBlock = .ok coins := by
  refine ⟨_, connectBlock_of_passed (by decide) (by decide) (by decide) rfl ?_⟩
  exact checkCoinbase_zero (by decide) (by decide) [0x51] [0x53]

theorem connect_moveTwiceBlock :
    ∃ coins, connectBlock openRules 2 rewardCoins moveTwiceBlock = .ok coins ∧
      coins ⟨4, 0⟩ = none := by
  refine ⟨_, connectBlock_of_passed (by decide) (by decide) (by decide) rfl ?_, rfl⟩
  exact checkCoinbase_zero (by decide) (by decide) [0x51] [0x53]

/-! ## Exactness -/

/-- After every chain of blocks that spend none of their own outputs, the index lists the coins. -/
theorem indexExact_of_goodRun (rules : Rules) (hash160 : Script → UInt160) {blocks : List CBlock}
    (h : GoodRun (connectTip rules hash160) (fun _ block => ¬ SpendsOwn block) .start blocks) :
    IndexExact hash160 (run (connectTip rules hash160) .start blocks) ∧
      CoinsSpendable (run (connectTip rules hash160) .start blocks) := by
  have hsync : InSync hash160 (run (connectTip rules hash160) .start blocks) :=
    GoodRun.invariant (fun _ _ hs hown => hs.connectTip hown) inSync_start h
  refine ⟨?_, hsync.spendable⟩
  intro scriptHash
  exact hsync.mirrors.findAddressUTXOs scriptHash

theorem indexExact_of_goodRun_move :
    GoodRun (connectTip openRules firstByte) (fun _ block => ¬ SpendsOwn block) .start
        [genesisBlock, rewardBlock, moveBlock] ∧
      (run (connectTip openRules firstByte) .start
        [genesisBlock, rewardBlock, moveBlock]).nHeight = 3 ∧
      IndexExact firstByte (run (connectTip openRules firstByte) .start
        [genesisBlock, rewardBlock, moveBlock]) := by
  have hgood : GoodRun (connectTip openRules firstByte) (fun _ block => ¬ SpendsOwn block) .start
      [genesisBlock, rewardBlock, moveBlock] :=
    ⟨by decide, by decide, by decide, trivial⟩
  rcases connect_moveBlock with ⟨coins, hconnect⟩
  refine ⟨hgood, ?_, (indexExact_of_goodRun openRules firstByte hgood).1⟩
  rw [run_thirdBlock hconnect]

/-- The output between the two moves is spent, and the index still lists it. -/
theorem not_indexExact_moveTwice :
    SpendsOwn moveTwiceBlock ∧
      ∃ s, run (connectTip openRules firstByte) .start
          [genesisBlock, rewardBlock, moveTwiceBlock] = s ∧
        s.nHeight = 3 ∧ s.coins ⟨4, 0⟩ = none ∧
        findAddressUTXOs s.index (firstByte [0x52]) = some [⟨4, 0, 9, 2, false⟩] ∧
        ¬ IndexExact firstByte s := by
  rcases connect_moveTwiceBlock with ⟨coins, hconnect, hnone⟩
  have hfind : findAddressUTXOs (customAppend firstByte 2 moveTwiceBlock rewardState.index)
      (firstByte [0x52]) = some [⟨4, 0, 9, 2, false⟩] := by
    decide +kernel
  refine ⟨by decide, _, rfl, ?_⟩
  rw [run_thirdBlock hconnect]
  refine ⟨rfl, hnone, hfind, ?_⟩
  intro hexact
  rcases hexact (firstByte [0x52]) with ⟨utxos, hutxos, hlists⟩
  cases Option.some.inj (hfind.symm.trans hutxos)
  rcases (hlists.mem_iff ⟨4, 0, 9, 2, false⟩).1 List.mem_cons_self with ⟨coin, hcoin, _⟩
  exact absurd (hcoin.symm.trans hnone) nofun

end TKNC.Index
