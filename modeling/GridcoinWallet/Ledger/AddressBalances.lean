import GridcoinWallet.Select.Sufficiency

namespace GridcoinWallet

section Balances

variable (N : Node) (chain : ChainView) (extractDestination : List UInt8 → Option Nat)

/-- Whether GetAddressBalances skips a whole wallet transaction. -/
def balanceSkips (L : Ledger) (pcoin : WalletTx) : Bool :=
  !chain.isFinal pcoin || !chain.isTrusted pcoin ||
    ((N.isCoinBase pcoin.toTx || N.isCoinStake pcoin.toTx) && decide (0 < chain.blocksToMaturity pcoin)) ||
    decide (chain.depth pcoin < if L.isFromMe N pcoin.toTx then 0 else 1)

/-- One pass of the loop over the outputs: an output of the wallet's with an address adds its value,
or 0 once spent, to that address's balance, which starts at 0. -/
def creditOutput (pcoin : WalletTx) (balances : StdMap Nat Int) (i : Nat) : StdMap Nat Int :=
  match pcoin.vout[i]? with
  | some out =>
    if N.isMine out.scriptPubKey then
      match extractDestination out.scriptPubKey with
      | some addr => balances.set addr ((balances.find? addr).getD 0 + if pcoin.isSpent i then 0 else out.nValue)
      | none => balances
    else balances
  | none => balances

/-- CWallet::GetAddressBalances, over mapWallet in key order. -/
def getAddressBalances (L : Ledger) : StdMap Nat Int :=
  L.mapWallet.entries.foldl (fun balances e =>
    if balanceSkips N chain L e.2 then balances
    else (List.range e.2.vout.length).foldl (creditOutput N extractDestination e.2) balances) StdMap.empty

def outputCredit (pcoin : WalletTx) (a i : Nat) : Int :=
  match pcoin.vout[i]? with
  | some out =>
    if N.isMine out.scriptPubKey = true ∧ extractDestination out.scriptPubKey = some a then
      if pcoin.isSpent i then 0 else out.nValue
    else 0
  | none => 0

theorem getD_creditOutput (pcoin : WalletTx) (balances : StdMap Nat Int) (a i : Nat) :
    ((creditOutput N extractDestination pcoin balances i).find? a).getD 0 =
      (balances.find? a).getD 0 + outputCredit N extractDestination pcoin a i := by
  unfold creditOutput outputCredit
  cases pcoin.vout[i]? with
  | none => simp
  | some out =>
    cases hm : N.isMine out.scriptPubKey
    · simp [hm]
    · cases he : extractDestination out.scriptPubKey with
      | none => simp [hm, he]
      | some addr =>
        by_cases ha : a = addr
        · subst ha; simp [hm, he, StdMap.find?_set]
        · simp [hm, he, StdMap.find?_set, ha, Ne.symm ha]

theorem getD_foldl_creditOutput (pcoin : WalletTx) (a : Nat) :
    ∀ (is : List Nat) (balances : StdMap Nat Int),
      ((is.foldl (creditOutput N extractDestination pcoin) balances).find? a).getD 0 =
        (balances.find? a).getD 0 + (is.map (outputCredit N extractDestination pcoin a)).sum
  | [], _ => by simp
  | i :: is, balances => by
    rw [List.foldl_cons, getD_foldl_creditOutput pcoin a is, getD_creditOutput, List.map_cons, List.sum_cons,
      add_assoc]

theorem getD_getAddressBalances (L : Ledger) (a : Nat) :
    ((getAddressBalances N chain extractDestination L).find? a).getD 0 =
      (L.mapWallet.entries.map fun e => if balanceSkips N chain L e.2 then 0
        else ((List.range e.2.vout.length).map (outputCredit N extractDestination e.2 a)).sum).sum := by
  suffices h : ∀ (es : List (Nat × WalletTx)) (balances : StdMap Nat Int),
      ((es.foldl (fun balances e => if balanceSkips N chain L e.2 then balances
        else (List.range e.2.vout.length).foldl (creditOutput N extractDestination e.2) balances) balances).find? a).getD 0 =
        (balances.find? a).getD 0 + (es.map fun e => if balanceSkips N chain L e.2 then 0
          else ((List.range e.2.vout.length).map (outputCredit N extractDestination e.2 a)).sum).sum by
    rw [getAddressBalances, h, StdMap.find?_empty, Option.getD_none, zero_add]
  intro es
  induction es with
  | nil => simp
  | cons e es ih =>
    intro balances
    rw [List.foldl_cons, ih, List.map_cons, List.sum_cons]
    split_ifs
    · rw [zero_add]
    · rw [getD_foldl_creditOutput, add_assoc]

def paysAt (L : Ledger) (a : Nat) (o : COutput) : Bool :=
  extractDestination o.out.scriptPubKey == some a &&
    decide ((if L.isFromMe N o.tx.toTx then 0 else 1) ≤ o.nDepth)

end Balances

theorem sumValues_filter_flatMap {α : Type} (p : COutput → Bool) (g : α → List COutput) :
    ∀ l : List α, sumValues ((l.flatMap g).filter p) = (l.map fun e => sumValues ((g e).filter p)).sum
  | [] => rfl
  | e :: l => by
    rw [List.flatMap_cons, List.filter_append, sumValues_append, sumValues_filter_flatMap p g l, List.map_cons,
      List.sum_cons]

theorem sumValues_filter_filterMap {α : Type} (p : COutput → Bool) (f : α → Option COutput) :
    ∀ l : List α, sumValues ((l.filterMap f).filter p) = (l.map fun i => ((f i).filter p).elim 0 COutput.value).sum
  | [] => rfl
  | i :: l => by
    rw [List.map_cons, List.sum_cons, ← sumValues_filter_filterMap p f l]
    cases hf : f i with
    | none => simp [hf]
    | some o =>
      cases hp : p o
      · simp [hf, hp, Option.filter]
      · simp [hf, hp, Option.filter, List.filter_cons, sumValues_cons]

section Refinement

variable (N : Node) (chain : ChainView) (extractDestination : List UInt8 → Option Nat)

theorem availableOutput_credit {L : Ledger} {minIn : Int} {a hash : Nat} {pcoin : WalletTx}
    (hdepth : (if L.isFromMe N pcoin.toTx then 0 else 1) ≤ chain.depth pcoin)
    (hmin : ∀ out ∈ pcoin.vout, N.isMine out.scriptPubKey = true → minIn ≤ out.nValue) (i : Nat) :
    ((if h : i < pcoin.vout.length then
        if (!pcoin.isSpent i && N.isMine pcoin.vout[i].scriptPubKey && decide (minIn ≤ pcoin.vout[i].nValue) &&
            (none : Option CoinControl).all fun c => !c.hasSelected || c.isSelected ⟨hash, i⟩) ||
          (false && N.isCoinStake pcoin.toTx && decide (0 < chain.blocksToMaturity pcoin) &&
            decide (0 < chain.depth pcoin))
        then some (⟨hash, pcoin, i, chain.depth pcoin, h⟩ : COutput) else none
      else none).filter (paysAt N extractDestination L a)).elim 0 COutput.value =
      outputCredit N extractDestination pcoin a i := by
  unfold outputCredit
  by_cases hi : i < pcoin.vout.length
  · have hmin' := hmin _ (List.getElem_mem hi)
    rw [dif_pos hi, List.getElem?_eq_getElem hi]
    cases hm : N.isMine pcoin.vout[i].scriptPubKey
    · cases hs : pcoin.isSpent i <;> simp [hs, hm]
    · have hv := hmin' hm
      cases hs : pcoin.isSpent i <;> by_cases he : extractDestination pcoin.vout[i].scriptPubKey = some a <;>
        simp [hs, hm, he, hv, Option.filter, paysAt, COutput.out, COutput.value, hdepth]
  · rw [dif_neg hi, List.getElem?_eq_none (not_lt.mp hi)]
    rfl

theorem balanceSkips_iff (L : Ledger) (pcoin : WalletTx) :
    balanceSkips N chain L pcoin = true ↔
      skipsTx N chain true false pcoin = true ∨ chain.depth pcoin < if L.isFromMe N pcoin.toTx then 0 else 1 := by
  have hrule : chain.depth pcoin < 0 → chain.depth pcoin < if L.isFromMe N pcoin.toTx then 0 else 1 := by
    split_ifs <;> omega
  show _ ↔ (!chain.isFinal pcoin || !chain.isTrusted pcoin ||
      ((N.isCoinBase pcoin.toTx || N.isCoinStake pcoin.toTx) && decide (0 < chain.blocksToMaturity pcoin)) ||
      decide (chain.depth pcoin < 0)) = true ∨ _
  simp only [balanceSkips, Bool.or_eq_true, decide_eq_true_eq]
  tauto

/-- The balance GetAddressBalances gives an address is the value of the coins AvailableCoins offers
there. -/
theorem getAddressBalances_availableCoins (L : Ledger) (minIn : Int) (a : Nat)
    (hmin : ∀ e ∈ L.mapWallet.entries, ∀ out ∈ e.2.vout, N.isMine out.scriptPubKey = true → minIn ≤ out.nValue) :
    ((getAddressBalances N chain extractDestination L).find? a).getD 0 =
      sumValues ((availableCoins N L chain minIn true none false).filter (paysAt N extractDestination L a)) := by
  rw [getD_getAddressBalances, availableCoins, sumValues_filter_flatMap]
  refine congrArg List.sum (List.map_congr_left fun e he => ?_)
  by_cases hskip : skipsTx N chain true false e.2 = true
  · rw [if_pos ((balanceSkips_iff N chain L e.2).mpr (Or.inl hskip)), if_pos hskip]
    rfl
  rw [if_neg hskip]
  by_cases hdepth : (if L.isFromMe N e.2.toTx then 0 else 1) ≤ chain.depth e.2
  · have hb : ¬balanceSkips N chain L e.2 = true := fun hb =>
      ((balanceSkips_iff N chain L e.2).mp hb).elim hskip fun h => absurd hdepth (not_le.mpr h)
    rw [if_neg hb, availableOutputs, sumValues_filter_filterMap]
    exact congrArg List.sum (List.map_congr_left fun i _ =>
      (availableOutput_credit N chain extractDestination hdepth (hmin e he) i).symm)
  · rw [if_pos ((balanceSkips_iff N chain L e.2).mpr (Or.inr (lt_of_not_le hdepth))),
      List.filter_eq_nil_iff.mpr fun o ho => ?_]
    · rfl
    obtain ⟨-, htx, hdep, -⟩ := mem_availableOutputs N ho
    simp [paysAt, htx, hdep, hdepth]

def twoAddressLedger : Ledger := ⟨StdMap.empty.insert 1 (WalletTx.ofTx ⟨1, [], [⟨5, []⟩, ⟨2, [1]⟩]⟩), 1, true⟩

theorem getAddressBalances_availableCoins_twoAddress :
    ((getAddressBalances ownAllNode oneDeepChain (fun s => some s.length) twoAddressLedger).find? 1).getD 0 = 2 ∧
      ((getAddressBalances ownAllNode oneDeepChain (fun s => some s.length) twoAddressLedger).find? 1).getD 0 =
        sumValues ((availableCoins ownAllNode twoAddressLedger oneDeepChain 0 true none false).filter
          (paysAt ownAllNode (fun s => some s.length) twoAddressLedger 1)) :=
  ⟨rfl, getAddressBalances_availableCoins ownAllNode oneDeepChain (fun s => some s.length) twoAddressLedger 0 1
    (by decide)⟩

end Refinement

end GridcoinWallet
