import GridcoinWallet.Select.Sufficiency
import Mathlib.Algebra.BigOperators.Group.List

namespace GridcoinWallet

/-- Modelled from the spec: the constants the staking selection reads (main.h, not under src/):
nStakeMinAge, nCoinbaseMaturity and nMinimumInputValue. -/
structure StakeParams where
  nStakeMinAge : Nat
  nCoinbaseMaturity : Int
  nMinimumInputValue : Int

/-- Modelled from the spec: the GRC::MinerStatus::ErrorFlags values SelectCoinsForStaking sets, and
any other value the flag held before. -/
inductive MinerError
  | noCoins
  | entireBalanceReserved
  | noMatureCoins
  | noUtxosAvailableDueToReserve
  | other (flags : Nat)
  deriving DecidableEq, Repr

/-- Shuffle with a FastRandomContext: some reordering of vCoinsRet. -/
structure StakeShuffle where
  shuffle : List (WalletTx × Nat) → List (WalletTx × Nat)
  perm : ∀ l, (shuffle l).Perm l

section Staking

variable (N : Node) (chain : ChainView) (areDependenciesConfirmed : WalletTx → Bool) (P : StakeParams)

/-- The outputs of a record, in order, as coins at depth `nDepth`. -/
def recordCoins (hash : Nat) (pcoin : WalletTx) (nDepth : Int) : List COutput :=
  (List.range pcoin.vout.length).filterMap fun i =>
    if h : i < pcoin.vout.length then some ⟨hash, pcoin, i, nDepth, h⟩ else none

/-- An output that counts toward the staking balance: unspent, the wallet's and positive. -/
def possibleCoin (o : COutput) : Bool :=
  !o.tx.isSpent o.i && N.isMine o.out.scriptPubKey && decide (0 < o.value)

/-- Whether a record's outputs count toward the balance: it is in the chain, or it is the wallet's
own with its dependencies confirmed or a coinstake. -/
def countsToBalance (pcoin : WalletTx) : Bool :=
  decide (0 < chain.depth pcoin) ||
    (pcoin.fFromMe && (areDependenciesConfirmed pcoin || N.isCoinStake pcoin.toTx))

/-- One record of AvailableCoinsForStaking: possible_vCoins add to balance_out; a record old enough
and mature then offers those worth at least nMinimumInputValue. -/
def stakingRecord (nSpendTime : Nat) (acc : List COutput × Int) (e : Nat × WalletTx) : List COutput × Int :=
  let pcoin := e.2
  let nDepth := chain.depth pcoin
  let possible := if countsToBalance N chain areDependenciesConfirmed pcoin
    then (recordCoins e.1 pcoin nDepth).filter (possibleCoin N) else []
  let balance_out := acc.2 + sumValues possible
  let offered := possible.filter fun o => decide (P.nMinimumInputValue ≤ o.value)
  if possible.isEmpty then (acc.1, balance_out)
  else if nSpendTime < pcoin.nTime + P.nStakeMinAge then (acc.1, balance_out)
  else if N.isCoinBase pcoin.toTx || N.isCoinStake pcoin.toTx then
    if 0 < max 0 (P.nCoinbaseMaturity + 10 - nDepth) then (acc.1, balance_out)
    else (acc.1 ++ offered, balance_out)
  else if nDepth < 1 then (acc.1, balance_out)
  else (acc.1 ++ offered, balance_out)

/-- CWallet::AvailableCoinsForStaking: vCoins over mapWallet in key order, and balance_out added to
the value it came in with. -/
def availableCoinsForStaking (L : Ledger) (nSpendTime : Nat) (balance_out : Int) : List COutput × Int :=
  L.mapWallet.entries.foldl (stakingRecord N chain areDependenciesConfirmed P nSpendTime) ([], balance_out)

/-- The checks of SelectCoinsForStaking. -/
def stakeChecks (vCoins : List COutput) (balance nReserveBalance : Int) (fMiner : Bool) (rng : StakeShuffle)
    (vCoinsRet : List (WalletTx × Nat)) (not_staking_error : MinerError) :
    Bool × List (WalletTx × Nat) × MinerError × Int :=
  let setError (e : MinerError) := if fMiner then e else not_staking_error
  if balance ≤ 0 then (false, vCoinsRet, setError .noCoins, balance)
  else if balance - nReserveBalance ≤ 0 then (false, vCoinsRet, setError .entireBalanceReserved, balance)
  else if vCoins.isEmpty then (false, vCoinsRet, setError .noMatureCoins, balance)
  else
    let ret := (vCoins.filter fun o => decide (o.value ≤ balance - nReserveBalance)).map fun o => (o.tx, o.i)
    if ret.isEmpty then (false, ret, setError .noUtxosAvailableDueToReserve, balance)
    else (true, if fMiner then rng.shuffle ret else ret, not_staking_error, balance)

/-- CWallet::SelectCoinsForStaking. -/
def selectCoinsForStaking (L : Ledger) (nSpendTime : Nat) (nReserveBalance : Int) (fMiner : Bool)
    (rng : StakeShuffle) (vCoinsRet : List (WalletTx × Nat)) (not_staking_error : MinerError)
    (balance_out : Int) : Bool × List (WalletTx × Nat) × MinerError × Int :=
  let r := availableCoinsForStaking N chain areDependenciesConfirmed P L nSpendTime balance_out
  stakeChecks r.1 r.2 nReserveBalance fMiner rng vCoinsRet not_staking_error

/-- The depth rule of staking: a coinbase or coinstake needs nCoinbaseMaturity + 10 confirmations,
any other transaction one. -/
def matureForStaking (pcoin : WalletTx) : Bool :=
  if N.isCoinBase pcoin.toTx || N.isCoinStake pcoin.toTx then
    decide (P.nCoinbaseMaturity + 10 ≤ chain.depth pcoin)
  else decide (1 ≤ chain.depth pcoin)

/-- An output the staking filter accepts, before the reserve: unspent, owned, positive, at least
nMinimumInputValue, old enough at nSpendTime and mature. -/
def stakeable (nSpendTime : Nat) (o : COutput) : Bool :=
  possibleCoin N o && decide (P.nMinimumInputValue ≤ o.value) &&
    decide (o.tx.nTime + P.nStakeMinAge ≤ nSpendTime) && matureForStaking N chain P o.tx

def stakingBalance (L : Ledger) : Int :=
  (L.mapWallet.entries.map fun e =>
    if countsToBalance N chain areDependenciesConfirmed e.2 then
      sumValues ((recordCoins e.1 e.2 (chain.depth e.2)).filter (possibleCoin N))
    else 0).sum

def stakeCandidates (L : Ledger) (nSpendTime : Nat) : List COutput :=
  L.mapWallet.entries.flatMap fun e =>
    (recordCoins e.1 e.2 (chain.depth e.2)).filter (stakeable N chain P nSpendTime)

theorem mem_recordCoins {hash : Nat} {pcoin : WalletTx} {nDepth : Int} {o : COutput}
    (h : o ∈ recordCoins hash pcoin nDepth) : o.hash = hash ∧ o.tx = pcoin ∧ o.nDepth = nDepth := by
  obtain ⟨i, -, hi⟩ := List.mem_filterMap.mp h
  split at hi
  · cases hi
    exact ⟨rfl, rfl, rfl⟩
  · cases hi

theorem countsToBalance_of_mature (hmature : 0 < P.nCoinbaseMaturity + 10) {pcoin : WalletTx}
    (h : matureForStaking N chain P pcoin = true) :
    countsToBalance N chain areDependenciesConfirmed pcoin = true := by
  unfold matureForStaking at h
  have : 0 < chain.depth pcoin := by split at h <;> simp only [decide_eq_true_eq] at h <;> omega
  simp [countsToBalance, this]

theorem stakingRecord_eq (hmature : 0 < P.nCoinbaseMaturity + 10) (nSpendTime : Nat)
    (acc : List COutput × Int) (e : Nat × WalletTx) :
    stakingRecord N chain areDependenciesConfirmed P nSpendTime acc e =
      (acc.1 ++ (recordCoins e.1 e.2 (chain.depth e.2)).filter (stakeable N chain P nSpendTime),
        acc.2 + if countsToBalance N chain areDependenciesConfirmed e.2 then
          sumValues ((recordCoins e.1 e.2 (chain.depth e.2)).filter (possibleCoin N)) else 0) := by
  set coins := recordCoins e.1 e.2 (chain.depth e.2)
  have hgate : ∀ o ∈ coins, stakeable N chain P nSpendTime o =
      ((possibleCoin N o && decide (P.nMinimumInputValue ≤ o.value)) &&
        (decide (e.2.nTime + P.nStakeMinAge ≤ nSpendTime) && matureForStaking N chain P e.2)) := by
    intro o ho
    obtain ⟨-, htx, -⟩ := mem_recordCoins ho
    simp only [stakeable, htx, Bool.and_assoc]
  have hfilter : coins.filter (stakeable N chain P nSpendTime) =
      if decide (e.2.nTime + P.nStakeMinAge ≤ nSpendTime) && matureForStaking N chain P e.2 then
        (coins.filter (possibleCoin N)).filter fun o => decide (P.nMinimumInputValue ≤ o.value)
      else [] := by
    rw [List.filter_congr hgate]
    split <;> rename_i h <;> simp [h, List.filter_filter, Bool.and_comm]
  rw [hfilter]
  unfold stakingRecord
  dsimp only
  by_cases hcount : countsToBalance N chain areDependenciesConfirmed e.2 = true
  · simp only [hcount, if_true]
    unfold matureForStaking
    by_cases hempty : (coins.filter (possibleCoin N)).isEmpty = true
    · rw [List.isEmpty_iff.mp hempty]
      simp
    · simp only [hempty, Bool.false_eq_true, if_false]
      have hmax : 0 < max 0 (P.nCoinbaseMaturity + 10 - chain.depth e.2) ↔
          chain.depth e.2 < P.nCoinbaseMaturity + 10 := by rw [lt_max_iff]; omega
      by_cases hage : nSpendTime < e.2.nTime + P.nStakeMinAge
      · simp [hage, show ¬e.2.nTime + P.nStakeMinAge ≤ nSpendTime by omega]
      rw [if_neg hage, decide_eq_true (by omega : e.2.nTime + P.nStakeMinAge ≤ nSpendTime), Bool.true_and]
      by_cases hcb : (N.isCoinBase e.2.toTx || N.isCoinStake e.2.toTx) = true
      · simp only [hcb, if_true, hmax]
        by_cases hm : chain.depth e.2 < P.nCoinbaseMaturity + 10
        · simp [hm, show ¬P.nCoinbaseMaturity + 10 ≤ chain.depth e.2 by omega]
        · simp [hm, show P.nCoinbaseMaturity + 10 ≤ chain.depth e.2 by omega]
      · simp only [hcb, Bool.false_eq_true, if_false]
        by_cases hd : chain.depth e.2 < 1
        · simp [hd, show ¬1 ≤ chain.depth e.2 by omega]
        · simp [hd, show 1 ≤ chain.depth e.2 by omega]
  · have hnot : matureForStaking N chain P e.2 = false := by
      by_contra hm
      exact hcount (countsToBalance_of_mature N chain areDependenciesConfirmed P hmature
        (Bool.not_eq_false _ ▸ hm))
    simp [hcount, hnot, sumValues]

theorem availableCoinsForStaking_eq (hmature : 0 < P.nCoinbaseMaturity + 10) (L : Ledger)
    (nSpendTime : Nat) (balance_out : Int) :
    availableCoinsForStaking N chain areDependenciesConfirmed P L nSpendTime balance_out =
      (stakeCandidates N chain P L nSpendTime,
        balance_out + stakingBalance N chain areDependenciesConfirmed L) := by
  unfold availableCoinsForStaking stakeCandidates stakingBalance
  suffices h : ∀ (es : List (Nat × WalletTx)) (acc : List COutput × Int),
      es.foldl (stakingRecord N chain areDependenciesConfirmed P nSpendTime) acc =
        (acc.1 ++ es.flatMap fun e => (recordCoins e.1 e.2 (chain.depth e.2)).filter (stakeable N chain P nSpendTime),
          acc.2 + (es.map fun e => if countsToBalance N chain areDependenciesConfirmed e.2 then
            sumValues ((recordCoins e.1 e.2 (chain.depth e.2)).filter (possibleCoin N)) else 0).sum) by
    simpa using h L.mapWallet.entries ([], balance_out)
  intro es
  induction es with
  | nil => simp
  | cons e es ih =>
    intro acc
    rw [List.foldl_cons, ih, stakingRecord_eq N chain areDependenciesConfirmed P hmature]
    simp only [List.flatMap_cons, List.append_assoc, List.map_cons, List.sum_cons, add_assoc]

theorem stakeChecks_spec (vCoins : List COutput) (balance nReserveBalance : Int) (fMiner : Bool)
    (rng : StakeShuffle) (vCoinsRet : List (WalletTx × Nat)) (not_staking_error : MinerError) :
    let r := stakeChecks vCoins balance nReserveBalance fMiner rng vCoinsRet not_staking_error
    let within := vCoins.filter fun o => decide (o.value ≤ balance - nReserveBalance)
    r.2.2.2 = balance ∧
      (r.1 = true ↔ 0 < balance ∧ 0 < balance - nReserveBalance ∧ within ≠ []) ∧
      (r.1 = true → r.2.1.Perm (within.map fun o => (o.tx, o.i))) ∧
      (r.1 = false → r.2.1 = if 0 < balance ∧ 0 < balance - nReserveBalance ∧ vCoins.isEmpty = false then [] else vCoinsRet) ∧
      (vCoinsRet = [] → (r.1 = true ↔ r.2.1 ≠ [])) ∧
      r.2.2.1 = if fMiner = true ∧ r.1 = false then
        (if balance ≤ 0 then .noCoins else if balance - nReserveBalance ≤ 0 then .entireBalanceReserved
          else if vCoins.isEmpty then .noMatureCoins else .noUtxosAvailableDueToReserve)
      else not_staking_error := by
  intro r within
  have hperm : (if fMiner then rng.shuffle (within.map fun o => (o.tx, o.i)) else within.map fun o => (o.tx, o.i)).Perm
      (within.map fun o => (o.tx, o.i)) := by
    split
    · exact rng.perm _
    · exact List.Perm.refl _
  by_cases h₁ : balance ≤ 0
  · have hr : r = (false, vCoinsRet, if fMiner then .noCoins else not_staking_error, balance) := by
      simp only [r, stakeChecks, if_pos h₁]
    rw [hr]
    cases fMiner <;> simp [h₁, not_lt.mpr h₁]
  by_cases h₂ : balance - nReserveBalance ≤ 0
  · have hr : r = (false, vCoinsRet, if fMiner then .entireBalanceReserved else not_staking_error, balance) := by
      simp only [r, stakeChecks, if_neg h₁, if_pos h₂]
    have h₂' : ¬nReserveBalance < balance := by omega
    rw [hr]
    cases fMiner <;> simp [h₁, h₂, h₂']
  by_cases h₃ : vCoins = []
  · have hr : r = (false, vCoinsRet, if fMiner then .noMatureCoins else not_staking_error, balance) := by
      simp only [r, stakeChecks, if_neg h₁, if_neg h₂, h₃, List.isEmpty_nil, if_true]
    rw [hr]
    cases fMiner <;> simp [h₁, h₂, h₃, within]
  by_cases h₄ : within = []
  · have hr : r = (false, [], if fMiner then .noUtxosAvailableDueToReserve else not_staking_error, balance) := by
      simp only [r, stakeChecks, if_neg h₁, if_neg h₂, (List.isEmpty_eq_false_iff_exists_mem.mpr
        (List.exists_mem_of_ne_nil _ h₃)), Bool.false_eq_true, if_false]
      rw [show (vCoins.filter fun o => decide (o.value ≤ balance - nReserveBalance)) = [] from h₄]
      rfl
    have h₂' : nReserveBalance < balance := by omega
    rw [hr]
    cases fMiner <;> simp [h₁, h₂, h₂', h₃, h₄, lt_of_not_le h₁]
  · have hret : ((vCoins.filter fun o => decide (o.value ≤ balance - nReserveBalance)).map
        fun o => (o.tx, o.i)).isEmpty = false := by simpa [within] using h₄
    have hr : r = (true, if fMiner then rng.shuffle (within.map fun o => (o.tx, o.i))
        else within.map fun o => (o.tx, o.i), not_staking_error, balance) := by
      simp only [r, stakeChecks, if_neg h₁, if_neg h₂, (List.isEmpty_eq_false_iff_exists_mem.mpr
        (List.exists_mem_of_ne_nil _ h₃)), hret, Bool.false_eq_true, if_false]
    have hne : (if fMiner then rng.shuffle (within.map fun o => (o.tx, o.i))
        else within.map fun o => (o.tx, o.i)) ≠ [] := fun hnil =>
      h₄ (by simpa [hnil] using hperm.length_eq.symm)
    rw [hr]
    simp only [true_iff, hne, hperm, h₄, Bool.true_eq_false, false_and, and_false, if_false, true_and,
      ne_eq, not_false_eq_true, and_true, forall_const, implies_true, IsEmpty.forall_iff]
    omega

theorem selectCoinsForStaking_spec (hmature : 0 < P.nCoinbaseMaturity + 10) (L : Ledger) (nSpendTime : Nat)
    (nReserveBalance : Int) (fMiner : Bool) (rng : StakeShuffle) (vCoinsRet : List (WalletTx × Nat))
    (not_staking_error : MinerError) (balance_out : Int) :
    let r := selectCoinsForStaking N chain areDependenciesConfirmed P L nSpendTime nReserveBalance fMiner rng
      vCoinsRet not_staking_error balance_out
    let B := balance_out + stakingBalance N chain areDependenciesConfirmed L
    let cands := stakeCandidates N chain P L nSpendTime
    let within := cands.filter fun o => decide (o.value ≤ B - nReserveBalance)
    r.2.2.2 = B ∧
      (r.1 = true ↔ 0 < B ∧ 0 < B - nReserveBalance ∧ within ≠ []) ∧
      (r.1 = true → r.2.1.Perm (within.map fun o => (o.tx, o.i))) ∧
      (r.1 = false → r.2.1 = if 0 < B ∧ 0 < B - nReserveBalance ∧ cands.isEmpty = false then [] else vCoinsRet) ∧
      (vCoinsRet = [] → (r.1 = true ↔ r.2.1 ≠ [])) ∧
      r.2.2.1 = if fMiner = true ∧ r.1 = false then
        (if B ≤ 0 then .noCoins else if B - nReserveBalance ≤ 0 then .entireBalanceReserved
          else if cands.isEmpty then .noMatureCoins else .noUtxosAvailableDueToReserve)
      else not_staking_error := by
  simp only [selectCoinsForStaking, availableCoinsForStaking_eq N chain areDependenciesConfirmed P hmature]
  exact stakeChecks_spec _ _ _ _ _ _ _

end Staking

def stakeParams : StakeParams := ⟨0, 0, 0⟩

def keepOrder : StakeShuffle := ⟨id, List.Perm.refl⟩

def stakeLedger : Ledger := ⟨StdMap.empty.insert 0 (WalletTx.ofTx ⟨1, [], [⟨5, []⟩]⟩), 1, true⟩

theorem selectCoinsForStaking_spec_stakeLedger :
    0 < stakeParams.nCoinbaseMaturity + 10 ∧
      let r := selectCoinsForStaking ownAllNode oneDeepChain (fun _ => true) stakeParams stakeLedger 10 0 true
        keepOrder [] (.other 0) 0
      let B := 0 + stakingBalance ownAllNode oneDeepChain (fun _ => true) stakeLedger
      let cands := stakeCandidates ownAllNode oneDeepChain stakeParams stakeLedger 10
      let within := cands.filter fun o => decide (o.value ≤ B - 0)
      r.2.2.2 = B ∧
        (r.1 = true ↔ 0 < B ∧ 0 < B - 0 ∧ within ≠ []) ∧
        (r.1 = true → r.2.1.Perm (within.map fun o => (o.tx, o.i))) ∧
        (r.1 = false → r.2.1 = if 0 < B ∧ 0 < B - 0 ∧ cands.isEmpty = false then [] else []) ∧
        ([] = ([] : List (WalletTx × Nat)) → (r.1 = true ↔ r.2.1 ≠ [])) ∧
        r.2.2.1 = if true = true ∧ r.1 = false then
          (if B ≤ 0 then .noCoins else if B - 0 ≤ 0 then .entireBalanceReserved
            else if cands.isEmpty then .noMatureCoins else .noUtxosAvailableDueToReserve)
        else .other 0 :=
  ⟨by decide, selectCoinsForStaking_spec ownAllNode oneDeepChain (fun _ => true) stakeParams (by decide) stakeLedger
    10 0 true keepOrder [] (.other 0) 0⟩

/-- A call on a wallet with nothing to stake returns false at the first check, and a vCoinsRet that
came in with a coin still holds it. -/
theorem selectCoinsForStaking_false_keeps_vCoinsRet :
    let stale := [(WalletTx.ofTx ⟨1, [], [⟨5, []⟩]⟩, 0)]
    let r := selectCoinsForStaking ownAllNode oneDeepChain (fun _ => true) stakeParams (Ledger.empty true) 10 0 true
      keepOrder stale (.other 0) 0
    r.1 = false ∧ r.2.1 = stale ∧ r.2.1 ≠ [] ∧ r.2.2.1 = .noCoins :=
  ⟨rfl, rfl, List.cons_ne_nil _ _, rfl⟩

/-- Modelled from the spec: isminetype (script/ismine.h, not under src/). -/
inductive isminetype
  | ISMINE_NO
  | ISMINE_WATCH_ONLY
  | ISMINE_SPENDABLE
  deriving DecidableEq, Repr

def Node.classified (N : Node) (IsMine : List UInt8 → isminetype) : Node :=
  { N with isMine := fun s => IsMine s != .ISMINE_NO }

def watchOnlyKeys : List UInt8 → isminetype := fun _ => .ISMINE_WATCH_ONLY

/-- A watch-only output is offered for spending and for staking. -/
theorem availableCoins_offers_watchOnly :
    (availableCoins (ownAllNode.classified watchOnlyKeys) stakeLedger oneDeepChain 0 true none false).map
        COutput.point = [⟨0, 0⟩] ∧
      (availableCoinsForStaking (ownAllNode.classified watchOnlyKeys) oneDeepChain (fun _ => true) stakeParams
          stakeLedger 10 0).1.map COutput.point = [⟨0, 0⟩] ∧
      (availableCoinsForStaking (ownAllNode.classified watchOnlyKeys) oneDeepChain (fun _ => true) stakeParams
          stakeLedger 10 0).2 = 5 :=
  ⟨by decide, by decide, by decide⟩

end GridcoinWallet
