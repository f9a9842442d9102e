import GridcoinWallet.Builder.CreateTransaction

namespace GridcoinWallet

def Ledger.prevoutValue (L : Ledger) (p : OutPoint) : Int :=
  match L.mapWallet.find? p.hash with
  | some w => (w.vout[p.n]?.map TxOut.nValue).getD 0
  | none => 0

namespace CreateRequest

/-- nValueOut after the value loop: the amounts and the message fee. -/
def nValueOut (req : CreateRequest) : Int := (sendTotal 0 req.vecSend).getD 0 + req.messageFee

def drawable (N : Node) (L : Ledger) (chain : ChainView) (minIn : Int) (req : CreateRequest) : Int :=
  if req.provided then sumValues req.setCoins_in.coins
  else posValues (availableCoins N L chain minIn true req.coinControl false)

end CreateRequest

section Loop

variable (N : Node) (L : Ledger) (chain : ChainView) (minIn : Int) (env : BuildEnv) (req : CreateRequest)

/-- The fee loop from pass `k` on, with at most `fuel` passes (`none`: out of passes). -/
def createLoop (nValueOut : Int) : Nat → Nat → Int → Option (Except CreateError Built)
  | 0, _, _ => none
  | fuel + 1, k, nFeeRet =>
    match createPass N L chain minIn env req nValueOut k nFeeRet with
    | .done b => some (.ok b)
    | .fail e => some (.error e)
    | .retry nFeeRet' => createLoop nValueOut fuel (k + 1) nFeeRet'

/-- CWallet::CreateTransaction, with at most `fuel` passes of its fee loop. -/
def createTransaction (fuel : Nat) : Option (Except CreateError Built) :=
  match sendTotal 0 req.vecSend with
  | none => some (.error .invalidOutputValue)
  | some nValueOut =>
    if req.vecSend.isEmpty || decide (nValueOut < 0) then some (.error .invalidOutputValue)
    else createLoop N L chain minIn env req (nValueOut + req.messageFee) fuel 0 env.nTransactionFee

theorem inputCoins_spec {k : Nat} {nTotalValue : Int} {coins : CoinSet} {nValueIn : Int}
    (h : inputCoins N L chain minIn env req k nTotalValue = some (coins, nValueIn)) :
    nValueIn = sumValues coins.coins ∧ nValueIn ≤ req.drawable N L chain minIn ∧
      ∀ o ∈ coins.coins, o ∈ req.setCoins_in.coins ∨ o ∈ availableCoins N L chain minIn true req.coinControl false := by
  unfold inputCoins at h
  unfold CreateRequest.drawable
  split_ifs at h ⊢
  · cases h
    exact ⟨rfl, le_refl _, fun o ho => Or.inl ho⟩
  · obtain ⟨hc, hv, -⟩ := (selectCoins_sound N L chain minIn _ _ _ _ _ h).coins
    simp only at hv
    exact ⟨hv, hv ▸ sumValues_le_posValues (nodup_of_nodup_points coins.nodup) fun o ho => (hc o ho).1,
      fun o ho => Or.inr (hc o ho).1⟩

theorem inputCoins_covers {k : Nat} {nTotalValue : Int} {coins : CoinSet} {nValueIn : Int}
    (hp : req.provided = false) (hfit : nTotalValue ≤ INT64_MAX - CENT)
    (h : inputCoins N L chain minIn env req k nTotalValue = some (coins, nValueIn)) : nTotalValue ≤ nValueIn := by
  rw [inputCoins, if_neg (by simp [hp])] at h
  exact (selectCoins_covers N L chain minIn _ _ _ _ _ (fun _ => hfit) h).coins.2.2

theorem createLoop_ok {nValueOut : Int} :
    ∀ {fuel k : Nat} {nFeeRet : Int} {b : Built},
      createLoop N L chain minIn env req nValueOut fuel k nFeeRet = some (.ok b) →
      ∃ k' nFeeRet', createPass N L chain minIn env req nValueOut k' nFeeRet' = .done b
  | 0, _, _, _, h => by cases h
  | fuel + 1, k, nFeeRet, b, h => by
    unfold createLoop at h
    split at h
    · cases h; exact ⟨k, nFeeRet, by assumption⟩
    · cases h
    · exact createLoop_ok h

end Loop

section Sound

variable {N : Node} {L : Ledger}

theorem getHash_of_keyed (hkeyed : L.KeyedByHash N) {o : COutput} (hfind : L.mapWallet.find? o.hash = some o.tx) :
    N.getHash o.tx.toTx = o.hash :=
  (hkeyed _ _ hfind).resolve_right fun ⟨_, hvout⟩ => by
    have := o.valid
    rw [hvout] at this
    cases this

theorem prevoutValue_coin (hkeyed : L.KeyedByHash N) {o : COutput} (hfind : L.mapWallet.find? o.hash = some o.tx) :
    L.prevoutValue ⟨N.getHash o.tx.toTx, o.i⟩ = o.value := by
  simp only [Ledger.prevoutValue, getHash_of_keyed hkeyed hfind, hfind, List.getElem?_eq_getElem o.valid]
  rfl

theorem coinInputs_spec (hkeyed : L.KeyedByHash N) {coins : CoinSet}
    (hheld : ∀ o ∈ coins.coins, L.mapWallet.find? o.hash = some o.tx) :
    coinInputs N coins = coins.coins.map COutput.point ∧
      ((coinInputs N coins).map L.prevoutValue).sum = sumValues coins.coins := by
  constructor
  · exact List.map_congr_left fun o ho => by rw [getHash_of_keyed hkeyed (hheld o ho)]; rfl
  · rw [coinInputs, List.map_map, sumValues]
    congr 1
    exact List.map_congr_left fun o ho => prevoutValue_coin hkeyed (hheld o ho)

end Sound

section Properties

variable (N : Node) (L : Ledger) (chain : ChainView) (minIn : Int) (env : BuildEnv) (req : CreateRequest)

theorem createTransaction_sound (hkeyed : L.KeyedByHash N)
    (hprovided : ∀ o ∈ req.setCoins_in.coins, L.mapWallet.find? o.hash = some o.tx)
    {fuel : Nat} {b : Built} (h : createTransaction N L chain minIn env req fuel = some (.ok b))
    (hfit : req.nValueOut + b.nFeeRet ≤ INT64_MAX - CENT) :
    b.tx.vin.Nodup ∧
      (b.tx.vin.map L.prevoutValue).sum = (b.tx.vout.map TxOut.nValue).sum + b.nFeeRet ∧
      req.payeeOutputs.Sublist b.tx.vout ∧
      b.nBytes = env.getSerializeSize b.tx ∧ b.nBytes < env.maxStandardTxSize ∧
      max (env.nTransactionFee * (1 + (b.nBytes / 1000 : Nat))) (env.getMinFee b.tx b.nBytes) ≤ b.nFeeRet := by
  unfold createTransaction at h
  split at h
  · cases h
  rename_i nSend hsend
  split_ifs at h
  · cases h
  obtain ⟨k, nFeeRet, hp⟩ := createLoop_ok N L chain minIn env req h
  rcases createPass_cases N L chain minIn env req hp with ⟨e, he⟩ | ⟨coins, nValueIn, vout, hin, hcover, hvout, hfin⟩
  · cases he
  obtain ⟨rfl, hsize, hfee⟩ := finishPass_done env hfin.symm
  obtain ⟨hval, -, hfrom⟩ := inputCoins_spec N L chain minIn env req hin
  have hheld : ∀ o ∈ coins.coins, L.mapWallet.find? o.hash = some o.tx := fun o ho =>
    (hfrom o ho).elim (hprovided o) fun hav => (mem_availableCoins N hav).1
  obtain ⟨hpoints, hspent⟩ := coinInputs_spec hkeyed hheld
  obtain ⟨hsub, hsum⟩ := changeOutputs_spec env req hvout
  have hmove := nMoveToFee_bounds nFeeRet (env.getBaseFee ⟨req.nTime, [], req.payeeOutputs⟩)
    (nValueIn - (nSend + req.messageFee) - nFeeRet)
  have hpay := sum_payeeOutputs req
  have hsent := sendTotal_eq hsend
  -- the coins cover the payees and the fee guess: provided ones by the check, selected ones
  -- because the target + CENT stays within int64
  have hcover' : 0 ≤ nValueIn - (nSend + req.messageFee) - nFeeRet := by
    cases hprov : req.provided
    · rw [CreateRequest.nValueOut, hsend, Option.getD_some] at hfit
      have := inputCoins_covers N L chain minIn env req hprov (by simp only at hfit; omega) hin
      omega
    · exact hcover hprov
  refine ⟨by simpa only [hpoints] using coins.nodup, ?_, hsub, rfl, hsize, hfee⟩
  simp only [hspent, hsum, hpay, ← hval]
  split_ifs <;> omega

def parentLedger : Ledger :=
  runCalls ownAllNode [.addToWallet (WalletTx.ofTx parentTx) 0 true] (Ledger.empty true)

def flatFeeEnv : BuildEnv :=
  ⟨1, fun _ => 0, fun _ _ => 0, fun _ => 200, fun _ _ => true, 100000, fun _ => none,
    fun _ => some [], fun _ _ => 0, fun _ _ => fixedRng⟩

def payFourRequest : CreateRequest := ⟨[([7], 4)], CoinSet.empty, 10, none, none, false⟩

theorem createTransaction_sound_payFour :
    ∃ b, createTransaction ownAllNode parentLedger oneDeepChain 0 flatFeeEnv payFourRequest 1 = some (.ok b) ∧
      payFourRequest.nValueOut + b.nFeeRet ≤ INT64_MAX - CENT ∧ b.tx.vin.Nodup ∧
      (b.tx.vin.map parentLedger.prevoutValue).sum = (b.tx.vout.map TxOut.nValue).sum + b.nFeeRet := by
  obtain ⟨b, hb, hfee⟩ : ∃ b, createTransaction ownAllNode parentLedger oneDeepChain 0 flatFeeEnv payFourRequest 1 =
      some (.ok b) ∧ b.nFeeRet = 1 := ⟨_, rfl, rfl⟩
  have hfit : payFourRequest.nValueOut + b.nFeeRet ≤ INT64_MAX - CENT := by rw [hfee]; decide
  have hsound := createTransaction_sound ownAllNode parentLedger oneDeepChain 0 flatFeeEnv payFourRequest
    (Ledger.keyedByHash_runCalls ownAllNode true _) (fun _ ho => absurd ho (List.not_mem_nil _)) hb hfit
  exact ⟨b, hb, hfit, hsound.1, hsound.2.1⟩

end Properties

end GridcoinWallet
