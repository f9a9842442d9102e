import GridcoinWallet.Ledger.Update
import Mathlib.Data.List.Nodup

namespace GridcoinWallet

/-- `std::numeric_limits<int64_t>::max()`, the start value of `coinLowestLarger`. -/
def INT64_MAX : Int := 9223372036854775807

/-- `std::numeric_limits<int64_t>::min()`. -/
def INT64_MIN : Int := -9223372036854775808

/-- CENT, 0.01 GRC in satoshi: the dust/cent unit ε of the spec. -/
def CENT : Int := 1000000

theorem CENT_pos : 0 < CENT := by decide

/-- An int64 sum as the compiled code computes it: the exact value, reduced modulo 2^64 into
[INT64_MIN, INT64_MAX]. -/
def wrapInt64 (x : Int) : Int := x.bmod 18446744073709551616

theorem le_wrapInt64 {x : Int} (h : x ≤ INT64_MAX) : x ≤ wrapInt64 x := by
  unfold wrapInt64 INT64_MAX at *
  rw [Int.bmod_def]
  split <;> omega

theorem wrapInt64_of_le {x : Int} (h₁ : INT64_MIN ≤ x) (h₂ : x ≤ INT64_MAX) : wrapInt64 x = x := by
  unfold wrapInt64 INT64_MIN INT64_MAX at *
  rw [Int.bmod_def]
  split <;> omega

theorem lt_wrapInt64_add_CENT {target : Int} (h : target ≤ INT64_MAX - CENT) : target < wrapInt64 (target + CENT) :=
  lt_of_lt_of_le (lt_add_of_pos_right _ CENT_pos) (le_wrapInt64 (by omega))

theorem min_wrapInt64_add_CENT {target : Int} (h : target ≤ INT64_MAX - CENT) :
    min target (wrapInt64 (target + CENT)) = target :=
  min_eq_left (lt_wrapInt64_add_CENT h).le

/-- What AvailableCoins reads from the block chain about a wallet transaction: GetDepthInMainChain,
IsFinalTx, IsTrusted and GetBlocksToMaturity. -/
structure ChainView where
  depth : WalletTx → Int
  isFinal : WalletTx → Bool
  isTrusted : WalletTx → Bool
  blocksToMaturity : WalletTx → Int

/-- COutput: output `i` of the wallet transaction `tx`, held in mapWallet under `hash`, and its
depth. -/
structure COutput where
  hash : Nat
  tx : WalletTx
  i : Nat
  nDepth : Int
  valid : i < tx.vout.length

namespace COutput

def out (o : COutput) : TxOut := o.tx.vout.get ⟨o.i, o.valid⟩

def value (o : COutput) : Int := o.out.nValue

def point (o : COutput) : OutPoint := ⟨o.hash, o.i⟩

end COutput

def sumValues (coins : List COutput) : Int := (coins.map COutput.value).sum

/-- Modelled from the spec: CCoinControl (coincontrol.h, not under src/): the outputs the user
picked, and the change destination (`none` for CNoDestination). -/
structure CoinControl where
  selected : List OutPoint
  destChange : Option (List UInt8)

def CoinControl.hasSelected (c : CoinControl) : Bool := !c.selected.isEmpty

def CoinControl.isSelected (c : CoinControl) (p : OutPoint) : Bool := c.selected.contains p

/-- A `set<pair<const CWalletTx*, unsigned int>>` of coins: no output is in it twice. -/
structure CoinSet where
  coins : List COutput
  nodup : (coins.map COutput.point).Nodup

namespace CoinSet

def empty : CoinSet := ⟨[], List.nodup_nil⟩

/-- `set::insert`: a coin already in the set is not added again. -/
def insert (s : CoinSet) (o : COutput) : CoinSet :=
  if h : o.point ∈ s.coins.map COutput.point then s
  else ⟨s.coins ++ [o], by
    rw [List.map_append, List.nodup_append]
    exact ⟨s.nodup, List.nodup_singleton _, fun x hx hx' => by
      simp only [List.map_cons, List.map_nil, List.mem_singleton] at hx'
      exact h (hx' ▸ hx)⟩⟩

end CoinSet

/-- One coin taken by a selector: `setCoinsRet.insert(coin); nValueRet += value`. -/
def takeCoin (acc : CoinSet × Int) (o : COutput) : CoinSet × Int :=
  (acc.1.insert o, acc.2 + o.value)

section Select

variable (N : Node)

/-- The outputs of one wallet transaction AvailableCoins offers. -/
def availableOutputs (chain : ChainView) (nMinimumInputValue : Int) (coinControl : Option CoinControl)
    (fIncludeStakedCoins : Bool) (hash : Nat) (pcoin : WalletTx) : List COutput :=
  (List.range pcoin.vout.length).filterMap fun i =>
    if h : i < pcoin.vout.length then
      let out := pcoin.vout[i]
      if (!pcoin.isSpent i && N.isMine out.scriptPubKey && decide (nMinimumInputValue ≤ out.nValue) &&
          coinControl.all fun c => !c.hasSelected || c.isSelected ⟨hash, i⟩) ||
        (fIncludeStakedCoins && N.isCoinStake pcoin.toTx && decide (0 < chain.blocksToMaturity pcoin) &&
          decide (0 < chain.depth pcoin))
      then some ⟨hash, pcoin, i, chain.depth pcoin, h⟩ else none
    else none

/-- Whether AvailableCoins skips a whole wallet transaction. -/
def skipsTx (chain : ChainView) (fOnlyConfirmed fIncludeStakedCoins : Bool) (pcoin : WalletTx) : Bool :=
  if !fIncludeStakedCoins then
    !chain.isFinal pcoin || (fOnlyConfirmed && !chain.isTrusted pcoin) ||
      ((N.isCoinBase pcoin.toTx || N.isCoinStake pcoin.toTx) && decide (0 < chain.blocksToMaturity pcoin)) ||
      decide (chain.depth pcoin < 0)
  else decide (chain.depth pcoin < 1)

/-- CWallet::AvailableCoins, over mapWallet in key order. -/
def availableCoins (L : Ledger) (chain : ChainView) (nMinimumInputValue : Int) (fOnlyConfirmed : Bool)
    (coinControl : Option CoinControl) (fIncludeStakedCoins : Bool) : List COutput :=
  L.mapWallet.entries.flatMap fun e =>
    if skipsTx N chain fOnlyConfirmed fIncludeStakedCoins e.2 then []
    else availableOutputs N chain nMinimumInputValue coinControl fIncludeStakedCoins e.1 e.2

/-- The depth rule (`nConfMine` for a transaction from the wallet, `nConfTheirs` otherwise) and the
timestamp rule both selectors apply before looking at a coin. -/
def eligible (L : Ledger) (nSpendTime : Nat) (nConfMine nConfTheirs : Int) (o : COutput) : Bool :=
  decide ((if L.isFromMe N o.tx.toTx then nConfMine else nConfTheirs) ≤ o.nDepth) &&
    decide (o.tx.nTime ≤ nSpendTime)

/-- The state of one trial of ApproximateBestSubset, and the best subset so far. -/
structure SubsetTrial where
  vfIncluded : List Bool
  nTotal : Int
  fReachedTarget : Bool
  vfBest : List Bool
  nBest : Int

/-- One element of a pass of ApproximateBestSubset. -/
def SubsetTrial.visit (nTargetValue : Int) (take : Bool) (i : Nat) (v : Int) (s : SubsetTrial) :
    SubsetTrial :=
  if take then
    if nTargetValue ≤ s.nTotal + v then
      { vfIncluded := (s.vfIncluded.set i true).set i false, nTotal := s.nTotal + v - v,
        fReachedTarget := true,
        vfBest := if s.nTotal + v < s.nBest then s.vfIncluded.set i true else s.vfBest
        nBest := if s.nTotal + v < s.nBest then s.nTotal + v else s.nBest }
    else { s with vfIncluded := s.vfIncluded.set i true, nTotal := s.nTotal + v }
  else s

/-- One pass over the values from index `i` on: pass 0 takes an element on a random bit, pass 1
takes every element not yet included. -/
def SubsetTrial.pass (nTargetValue : Int) (nPass : Nat) (bit : Nat → Bool) :
    Nat → List Int → SubsetTrial → SubsetTrial
  | _, [], s => s
  | i, v :: vs, s =>
    pass nTargetValue nPass bit (i + 1) vs
      (s.visit nTargetValue (if nPass = 0 then bit i else !s.vfIncluded.getD i false) i v)

/-- The trials of ApproximateBestSubset, `k` of them left from trial `nRep` on, while the best
subset misses the target. -/
def subsetTrials (vValue : List Int) (nTargetValue : Int) (bits : Nat → Bool) :
    Nat → Nat → List Bool × Int → List Bool × Int
  | 0, _, best => best
  | k + 1, nRep, best =>
    if best.2 = nTargetValue then best
    else
      let s₀ : SubsetTrial := ⟨List.replicate vValue.length false, 0, false, best.1, best.2⟩
      let s₁ := s₀.pass nTargetValue 0 (fun i => bits (nRep * vValue.length + i)) 0 vValue
      let s₂ := if s₁.fReachedTarget then s₁ else s₁.pass nTargetValue 1 bits 0 vValue
      subsetTrials vValue nTargetValue bits k (nRep + 1) (s₂.vfBest, s₂.nBest)

/-- ApproximateBestSubset: from the whole set, `iterations` randomized trials for the smallest
subset total that reaches the target. -/
def approximateBestSubset (vValue : List Int) (nTotalLower nTargetValue : Int) (bits : Nat → Bool)
    (iterations : Nat) : List Bool × Int :=
  subsetTrials vValue nTargetValue bits iterations 0 (List.replicate vValue.length true, nTotalLower)

/-- The random choices of one SelectCoinsMinConf call. -/
structure SelectRng where
  shuffle : List COutput → List COutput
  shuffle_perm : ∀ l, (shuffle l).Perm l
  bits₁ : Nat → Bool
  bits₂ : Nat → Bool

/-- The subset SelectCoinsMinConf settles on. -/
def bestSubset (vals : List Int) (nTotalLower nTargetValue : Int) (rng : SelectRng) : List Bool × Int :=
  let best₁ := approximateBestSubset vals nTotalLower nTargetValue rng.bits₁ 1000
  if best₁.2 ≠ nTargetValue ∧ wrapInt64 (nTargetValue + CENT) ≤ nTotalLower then
    approximateBestSubset vals nTotalLower (wrapInt64 (nTargetValue + CENT)) rng.bits₂ 1000
  else best₁

/-- The scan of SelectCoinsMinConf. -/
inductive Scan
  | exact (o : COutput)
  | split (vValue : List (Int × COutput)) (nTotalLower : Int) (coinLowestLarger : Int × Option COutput)

def scanCoins (L : Ledger) (nTargetValue : Int) (nSpendTime : Nat) (nConfMine nConfTheirs : Int) :
    List COutput → List (Int × COutput) → Int → Int × Option COutput → Scan
  | [], vValue, nTotalLower, lowest => .split vValue nTotalLower lowest
  | o :: os, vValue, nTotalLower, lowest =>
    if !eligible N L nSpendTime nConfMine nConfTheirs o then
      scanCoins L nTargetValue nSpendTime nConfMine nConfTheirs os vValue nTotalLower lowest
    else if o.value = nTargetValue then .exact o
    else if o.value < wrapInt64 (nTargetValue + CENT) then
      scanCoins L nTargetValue nSpendTime nConfMine nConfTheirs os (vValue ++ [(o.value, o)])
        (nTotalLower + o.value) lowest
    else if o.value < lowest.1 then
      scanCoins L nTargetValue nSpendTime nConfMine nConfTheirs os vValue nTotalLower (o.value, some o)
    else scanCoins L nTargetValue nSpendTime nConfMine nConfTheirs os vValue nTotalLower lowest

/-- The coins of vValue that vfBest includes, taken in order. -/
def takeChosen : List (Int × COutput) → List Bool → CoinSet × Int → CoinSet × Int
  | (_, o) :: vs, b :: bs, acc => takeChosen vs bs (if b then takeCoin acc o else acc)
  | _, _, acc => acc

/-- CWallet::SelectCoinsMinConf. -/
def selectCoinsMinConf (L : Ledger) (nTargetValue : Int) (nSpendTime : Nat) (nConfMine nConfTheirs : Int)
    (vCoins : List COutput) (rng : SelectRng) : Option (CoinSet × Int) :=
  match scanCoins N L nTargetValue nSpendTime nConfMine nConfTheirs (rng.shuffle vCoins) [] 0
      (INT64_MAX, none) with
  | .exact o => some (takeCoin (CoinSet.empty, 0) o)
  | .split vValue nTotalLower coinLowestLarger =>
    if nTotalLower = nTargetValue then some (vValue.foldl (fun acc c => takeCoin acc c.2) (CoinSet.empty, 0))
    else if nTotalLower < nTargetValue then
      coinLowestLarger.2.map fun o => (CoinSet.empty.insert o, coinLowestLarger.1)
    else
      let sorted := vValue.mergeSort fun a b => decide (b.1 ≤ a.1)
      let best := bestSubset (sorted.map Prod.fst) nTotalLower nTargetValue rng
      match coinLowestLarger.2 with
      | some o =>
        if (best.2 ≠ nTargetValue ∧ best.2 < wrapInt64 (nTargetValue + CENT)) ∨ coinLowestLarger.1 ≤ best.2 then
          some (CoinSet.empty.insert o, coinLowestLarger.1)
        else some (takeChosen sorted best.1 (CoinSet.empty, 0))
      | none => some (takeChosen sorted best.1 (CoinSet.empty, 0))

/-- The loop of SelectSmallestCoins over the coins in ascending order of value. -/
def takeSmallest (L : Ledger) (nTargetValue : Int) (nSpendTime : Nat) (nConfMine nConfTheirs : Int) :
    List COutput → CoinSet × Int → Option (CoinSet × Int)
  | [], _ => none
  | o :: os, acc =>
    if !eligible N L nSpendTime nConfMine nConfTheirs o then
      takeSmallest L nTargetValue nSpendTime nConfMine nConfTheirs os acc
    else if nTargetValue ≤ (takeCoin acc o).2 then some (takeCoin acc o)
    else takeSmallest L nTargetValue nSpendTime nConfMine nConfTheirs os (takeCoin acc o)

/-- CWallet::SelectSmallestCoins. -/
def selectSmallestCoins (L : Ledger) (nTargetValue : Int) (nSpendTime : Nat) (nConfMine nConfTheirs : Int)
    (vCoins : List COutput) : Option (CoinSet × Int) :=
  takeSmallest N L nTargetValue nSpendTime nConfMine nConfTheirs
    (vCoins.mergeSort fun a b => decide (a.value ≤ b.value)) (CoinSet.empty, 0)

/-- CWallet::SelectCoins. -/
def selectCoins (L : Ledger) (chain : ChainView) (nMinimumInputValue nTargetValue : Int) (nSpendTime : Nat)
    (coinControl : Option CoinControl) (contract : Bool) (rng : Nat → SelectRng) :
    Option (CoinSet × Int) :=
  let vCoins := availableCoins N L chain nMinimumInputValue true coinControl false
  if coinControl.any CoinControl.hasSelected then
    let r := vCoins.foldl takeCoin (CoinSet.empty, 0)
    if nTargetValue ≤ r.2 then some r else none
  else if contract then
    (selectSmallestCoins N L nTargetValue nSpendTime 1 10 vCoins).orElse fun _ =>
      (selectSmallestCoins N L nTargetValue nSpendTime 1 1 vCoins).orElse fun _ =>
        selectSmallestCoins N L nTargetValue nSpendTime 0 1 vCoins
  else
    (selectCoinsMinConf N L nTargetValue nSpendTime 1 10 vCoins (rng 0)).orElse fun _ =>
      (selectCoinsMinConf N L nTargetValue nSpendTime 1 1 vCoins (rng 1)).orElse fun _ =>
        selectCoinsMinConf N L nTargetValue nSpendTime 0 1 vCoins (rng 2)

end Select

end GridcoinWallet
