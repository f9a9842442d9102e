import GridcoinWallet.Builder.FeeLoop

namespace GridcoinWallet

theorem nMoveToFee_raises {nFeeRet baseFee nChange : Int}
    (hpos : 0 < nChange - nMoveToFee nFeeRet baseFee nChange)
    (hcent : nChange - nMoveToFee nFeeRet baseFee nChange < CENT) :
    baseFee ≤ nFeeRet + nMoveToFee nFeeRet baseFee nChange := by
  unfold nMoveToFee at *
  split_ifs at * with hc
  · rcases min_cases nChange (baseFee - nFeeRet) with ⟨hm, -⟩ | ⟨hm, -⟩ <;> rw [hm] at * <;> omega
  · simp only [sub_zero, add_zero] at *
    omega

section Done

variable (N : Node) (L : Ledger) (chain : ChainView) (minIn : Int) (env : BuildEnv) (req : CreateRequest)

theorem createPass_done {nValueOut : Int} {k : Nat} {nFeeRet : Int} {b : Built}
    (h : createPass N L chain minIn env req nValueOut k nFeeRet = .done b) :
    ∃ nValueIn, inputCoins N L chain minIn env req k (nValueOut + nFeeRet) = some (b.coins, nValueIn) ∧
      let nMove := nMoveToFee nFeeRet (env.getBaseFee ⟨req.nTime, [], req.payeeOutputs⟩)
        (nValueIn - nValueOut - nFeeRet)
      b.nChange = nValueIn - nValueOut - nFeeRet - nMove ∧ b.nFeeRet = nFeeRet + nMove ∧
        changeOutputs env req k (if req.provided then [] else b.coins.coins) b.nChange = some b.tx.vout := by
  rcases createPass_cases N L chain minIn env req h with ⟨e, he⟩ | ⟨coins, nValueIn, vout, hin, -, hvout, hfin⟩
  · cases he
  obtain ⟨rfl, -, -⟩ := finishPass_done env hfin.symm
  exact ⟨nValueIn, hin, rfl, rfl, hvout⟩

theorem createTransaction_done {fuel : Nat} {b : Built}
    (h : createTransaction N L chain minIn env req fuel = some (.ok b)) :
    ∃ nValueOut k nFeeRet, createPass N L chain minIn env req nValueOut k nFeeRet = .done b := by
  unfold createTransaction at h
  split at h
  · cases h
  split_ifs at h
  · cases h
  exact ⟨_, createLoop_ok N L chain minIn env req h⟩

/-- The change output the builder inserts, and the fee the sub-cent rule leaves. -/
theorem createTransaction_change {fuel : Nat} {b : Built}
    (h : createTransaction N L chain minIn env req fuel = some (.ok b)) :
    (b.nChange ≤ 0 → b.tx.vout = req.payeeOutputs) ∧
      (0 < b.nChange → ∃ pos s, b.tx.vout = insertChange req.payeeOutputs pos ⟨b.nChange, s⟩) ∧
      (0 < b.nChange → b.nChange < CENT →
        env.getBaseFee ⟨req.nTime, [], req.payeeOutputs⟩ ≤ b.nFeeRet) := by
  obtain ⟨nValueOut, k, nFeeRet, hp⟩ := createTransaction_done N L chain minIn env req h
  obtain ⟨nValueIn, -, hchange, hfee, hvout⟩ := createPass_done N L chain minIn env req hp
  unfold changeOutputs at hvout
  refine ⟨fun hle => ?_, fun hpos => ?_, fun hpos hcent => ?_⟩
  · rw [if_neg (not_lt.mpr hle)] at hvout
    exact (Option.some.inj hvout).symm
  · rw [if_pos hpos] at hvout
    obtain ⟨s, -, hs⟩ := Option.map_eq_some'.mp hvout
    exact ⟨_, s, hs.symm⟩
  · rw [hchange] at hpos hcent
    rw [hfee]
    exact nMoveToFee_raises hpos hcent

end Done

def negativeSendRequest : CreateRequest := ⟨[([7], 8), ([8], -4)], CoinSet.empty, 10, none, none, false⟩

/-- The amount check looks only at the running total before each addition, so a negative amount that
follows a larger positive one passes, and wtxNew pays -4. -/
theorem createTransaction_emits_negative_output :
    (∃ s ∈ negativeSendRequest.vecSend, s.2 < 0) ∧
      ∃ b, createTransaction ownAllNode parentLedger oneDeepChain 0 flatFeeEnv negativeSendRequest 1 =
          some (.ok b) ∧ b.tx.vout.map TxOut.nValue = [8, -4] :=
  ⟨⟨([8], -4), List.mem_cons_of_mem _ (List.mem_singleton_self _), by decide⟩, _, rfl, rfl⟩

def parentCoin : COutput := ⟨1, { WalletTx.ofTx parentTx with nOrderPos := 0 }, 0, 1, by decide⟩

def keyedEnv : BuildEnv := { flatFeeEnv with extractDestination := fun _ => some [9], reservedKey := fun _ => some [9] }

def providedRequest (change_back_to_input_address : Bool) : CreateRequest :=
  ⟨[([7], 2)], ⟨[parentCoin], List.nodup_singleton _⟩, 10, none, none, change_back_to_input_address⟩

theorem createTransaction_change_providedRequest :
    ∃ b, createTransaction ownAllNode parentLedger oneDeepChain 0 keyedEnv (providedRequest false) 1 = some (.ok b) ∧
      (b.nChange ≤ 0 → b.tx.vout = (providedRequest false).payeeOutputs) ∧
      (0 < b.nChange → ∃ pos s, b.tx.vout = insertChange (providedRequest false).payeeOutputs pos ⟨b.nChange, s⟩) ∧
      (0 < b.nChange → b.nChange < CENT →
        keyedEnv.getBaseFee ⟨(providedRequest false).nTime, [], (providedRequest false).payeeOutputs⟩ ≤ b.nFeeRet) := by
  obtain ⟨b, hb⟩ : ∃ b, createTransaction ownAllNode parentLedger oneDeepChain 0 keyedEnv (providedRequest false) 1 =
      some (.ok b) := ⟨_, rfl⟩
  exact ⟨b, hb, createTransaction_change ownAllNode parentLedger oneDeepChain 0 keyedEnv (providedRequest false) hb⟩

/-- With provided coins the change-back-to-input branch reads the empty setCoins_out and pays the
empty script. -/
theorem createTransaction_change_to_empty_script :
    parentLedger.mapWallet.find? parentCoin.hash = some parentCoin.tx ∧
      ∃ b, createTransaction ownAllNode parentLedger oneDeepChain 0 keyedEnv (providedRequest true) 1 =
          some (.ok b) ∧ b.tx.vout = [⟨2, []⟩, ⟨2, [7]⟩] :=
  ⟨rfl, _, rfl, rfl⟩

/-- With no base fee the sub-cent rule moves nothing, and change worth 2, below CENT, stays an
output of its own. -/
theorem createTransaction_keeps_subCent_change :
    ∃ b, createTransaction ownAllNode parentLedger oneDeepChain 0 keyedEnv (providedRequest false) 1 =
        some (.ok b) ∧ b.nChange = 2 ∧ 0 < b.nChange ∧ b.nChange < CENT ∧ ⟨2, [9]⟩ ∈ b.tx.vout :=
  ⟨_, rfl, rfl, by decide, by decide, List.mem_cons_self _ _⟩

end GridcoinWallet
