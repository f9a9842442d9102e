import GridcoinWallet.Select.Sufficiency

namespace GridcoinWallet

section Quality

variable (N : Node) (L : Ledger) (target : Int) (nSpendTime : Nat) (nConfMine nConfTheirs : Int)

theorem scanCoins_split_bounds : ∀ {os : List COutput} {vValue vValue' : List (Int × COutput)} {tot tot' : Int}
    {lowest lowest' : Int × Option COutput},
    scanCoins N L target nSpendTime nConfMine nConfTheirs os vValue tot lowest = .split vValue' tot' lowest' →
    lowest'.1 ≤ lowest.1 ∧ ∀ o ∈ os, eligible N L nSpendTime nConfMine nConfTheirs o = true →
      o.value ≠ target ∧ (wrapInt64 (target + CENT) ≤ o.value → lowest'.1 ≤ o.value)
  | [], _, _, _, _, _, _, h => by
    cases h
    exact ⟨le_rfl, fun _ h => by cases h⟩
  | o :: os, vValue, vValue', tot, tot', lowest, lowest', h => by
    simp only [scanCoins] at h
    split_ifs at h with he hx hs hl <;> obtain ⟨hlow, hall⟩ := scanCoins_split_bounds h
    · refine ⟨hlow, fun o' ho' he' => ?_⟩
      rcases List.mem_cons.mp ho' with rfl | ho'
      · simp [he'] at he
      · exact hall o' ho' he'
    · refine ⟨hlow, fun o' ho' he' => ?_⟩
      rcases List.mem_cons.mp ho' with rfl | ho'
      · exact ⟨hx, fun hc => absurd hs (not_lt.mpr hc)⟩
      · exact hall o' ho' he'
    · refine ⟨hlow.trans (le_of_lt hl), fun o' ho' he' => ?_⟩
      rcases List.mem_cons.mp ho' with rfl | ho'
      · exact ⟨hx, fun _ => hlow⟩
      · exact hall o' ho' he'
    · refine ⟨hlow, fun o' ho' he' => ?_⟩
      rcases List.mem_cons.mp ho' with rfl | ho'
      · exact ⟨hx, fun _ => hlow.trans (not_lt.mp hl)⟩
      · exact hall o' ho' he'

theorem takeChosen_snd {vs : List (Int × COutput)} (bs : List Bool) (hfst : ∀ p ∈ vs, p.1 = p.2.value) :
    (takeChosen vs bs (CoinSet.empty, 0)).2 = chosenSum (vs.map Prod.fst) bs := by
  rw [takeChosen_eq, foldl_takeCoin_snd, sumValues_chosenCoins _ _ hfst]
  exact zero_add _

theorem scanCoins_split_eligible {vCoins : List COutput} (rng : SelectRng)
    (hmax : ∀ o ∈ vCoins, eligible N L nSpendTime nConfMine nConfTheirs o = true → o.value < INT64_MAX)
    {vValue : List (Int × COutput)} {nTotalLower : Int} {lowest : Int × Option COutput}
    (hscan : scanCoins N L target nSpendTime nConfMine nConfTheirs (rng.shuffle vCoins) [] 0 (INT64_MAX, none) =
      .split vValue nTotalLower lowest) :
    let el := vCoins.filter (eligible N L nSpendTime nConfMine nConfTheirs)
    (¬∃ o ∈ el, o.value = target) ∧
      sumValues (el.filter fun o => decide (o.value < wrapInt64 (target + CENT))) = nTotalLower ∧
      (lowest.2.isSome → wrapInt64 (target + CENT) ≤ lowest.1) ∧
      (∀ o ∈ el, wrapInt64 (target + CENT) ≤ o.value → lowest.1 ≤ o.value) ∧
      (lowest.2 = none → ∀ o ∈ el, o.value < wrapInt64 (target + CENT)) := by
  intro el
  have hperm := rng.shuffle_perm vCoins
  have hel : ∀ {o}, o ∈ el ↔ o ∈ rng.shuffle vCoins ∧ eligible N L nSpendTime nConfMine nConfTheirs o = true :=
    fun {o} => by rw [List.mem_filter, hperm.mem_iff]
  obtain ⟨-, htot, hlow, -, hlarge⟩ := scanCoins_split N L target nSpendTime nConfMine nConfTheirs hscan
  obtain ⟨-, hall⟩ := scanCoins_split_bounds N L target nSpendTime nConfMine nConfTheirs hscan
  refine ⟨fun ⟨o, ho, hv⟩ => (hall o (hel.mp ho).1 (hel.mp ho).2).1 hv, ?_, fun hl => ?_,
    fun o ho => (hall o (hel.mp ho).1 (hel.mp ho).2).2, fun hl o ho => lt_of_not_le fun hc => ?_⟩
  · rw [zero_add] at htot
    rw [htot, List.filter_filter, ← sumValues_perm (hperm.filter _)]
    exact congrArg sumValues (List.filter_congr fun o _ => Bool.and_comm _ _)
  · rcases hlow with rfl | ⟨o', -, -, ht', rfl⟩
    · cases hl
    · exact ht'
  · have := hlarge o (hel.mp ho).1 (hel.mp ho).2 hc (hmax o (List.mem_filter.mp ho).1 (hel.mp ho).2)
    simp [hl] at this

theorem selectCoinsMinConf_quality {vCoins : List COutput} (rng : SelectRng)
    (hlo : INT64_MIN - CENT ≤ target) (hhi : target ≤ INT64_MAX - CENT)
    (hmax : ∀ o ∈ vCoins, eligible N L nSpendTime nConfMine nConfTheirs o = true → o.value < INT64_MAX)
    {r : CoinSet × Int} (h : selectCoinsMinConf N L target nSpendTime nConfMine nConfTheirs vCoins rng = some r) :
    let el := vCoins.filter (eligible N L nSpendTime nConfMine nConfTheirs)
    ((∃ o ∈ el, o.value = target) ∨ sumValues (el.filter fun o => decide (o.value < target + CENT)) = target →
        r.2 = target) ∧
      (∀ o ∈ el, target + CENT ≤ o.value → r.2 ≤ o.value) ∧
      (target < r.2 → r.2 < target + CENT → ∀ o ∈ el, o.value < target + CENT) := by
  intro el
  have hcent := CENT_pos
  have hw : wrapInt64 (target + CENT) = target + CENT := wrapInt64_of_le (by omega) (by omega)
  unfold selectCoinsMinConf at h
  rw [hw] at h
  split at h
  next o hscan =>
    -- an exact coin: the answer is the target itself
    cases h
    obtain ⟨-, -, hv⟩ := scanCoins_exact N L target nSpendTime nConfMine nConfTheirs hscan
    have ht : (takeCoin (CoinSet.empty, 0) o).2 = target := by simp [takeCoin, hv]
    exact ⟨fun _ => ht, fun _ _ ho => by omega, fun hlt => absurd hlt (by omega)⟩
  next vValue nTotalLower lowest hscan =>
    obtain ⟨hv, htot, -⟩ := scanCoins_split N L target nSpendTime nConfMine nConfTheirs hscan
    obtain ⟨hnoexact, hsmall, hrec, hbelow, hnone⟩ :=
      scanCoins_split_eligible N L target nSpendTime nConfMine nConfTheirs rng hmax hscan
    rw [hw] at hsmall hrec hbelow hnone
    simp only [List.nil_append, zero_add] at hv htot
    -- off the small coins' exact total, the first bound has no case to meet
    have hno_i : target ≠ nTotalLower → ¬((∃ o ∈ el, o.value = target) ∨
        sumValues (el.filter fun o => decide (o.value < target + CENT)) = target) := fun hne hcase =>
      hcase.elim hnoexact fun hs => hne (hs.symm.trans hsmall)
    split_ifs at h with heq hlt
    · -- the small coins add up to the target
      cases h
      have hfold : (vValue.foldl (fun acc c => takeCoin acc c.2) (CoinSet.empty, 0)).2 = target := by
        rw [hv, List.foldl_map, foldl_takeCoin_snd, ← htot, heq]
        exact zero_add _
      exact ⟨fun _ => hfold, fun _ _ ho => by omega, fun hlt => absurd hlt (by omega)⟩
    · -- the small coins fall short: the lowest larger coin
      obtain ⟨o, hl, rfl⟩ := Option.map_eq_some'.mp h
      have := hrec (by simp [hl])
      exact ⟨fun hcase => absurd hcase (hno_i (by omega)), hbelow, fun _ hlt => absurd hlt (by omega)⟩
    · -- the subset search, against the lowest larger coin when there is one
      obtain ⟨hfst, hvals, -⟩ := sorted_small hv
      obtain ⟨hs, ht⟩ := bestSubset_valid rng (hvals.trans htot.symm) (show target ≤ nTotalLower by omega)
      rw [min_wrapInt64_add_CENT hhi] at ht
      dsimp only at h
      split at h
      next o hl =>
        have := hrec (by simp [hl])
        split_ifs at h with hc
        · cases h
          exact ⟨fun hcase => absurd hcase (hno_i (by omega)), hbelow, fun _ hlt => absurd hlt (by omega)⟩
        · cases h
          rw [takeChosen_snd _ hfst, hs]
          refine ⟨fun hcase => absurd hcase (hno_i (by omega)), fun o' ho' hc' => ?_,
            fun h₁ h₂ => absurd (Or.inl ⟨by omega, h₂⟩) hc⟩
          have := hbelow o' ho' hc'
          omega
      next hl =>
        cases h
        rw [takeChosen_snd _ hfst, hs]
        exact ⟨fun hcase => absurd hcase (hno_i (by omega)),
          fun o' ho' hc' => absurd hc' (not_le.mpr (hnone hl o' ho')), fun _ _ => hnone hl⟩

end Quality

def twoCoinTx : WalletTx := WalletTx.ofTx ⟨0, [], [⟨2, []⟩, ⟨INT64_MAX, []⟩]⟩

def twoCoinLedger : Ledger := ⟨StdMap.empty.insert 0 twoCoinTx, 1, true⟩

def twoCoin : COutput := ⟨0, twoCoinTx, 0, 1, by decide⟩

def maxCoin : COutput := ⟨0, twoCoinTx, 1, 1, by decide⟩

theorem selectCoinsMinConf_quality_twoCoin :
    INT64_MIN - CENT ≤ 2 ∧ 2 ≤ INT64_MAX - CENT ∧
      (∀ o ∈ [twoCoin], eligible ownAllNode twoCoinLedger 0 0 1 o = true → o.value < INT64_MAX) ∧
      ∃ r, selectCoinsMinConf ownAllNode twoCoinLedger 2 0 0 1 [twoCoin] fixedRng = some r ∧
        let el := [twoCoin].filter (eligible ownAllNode twoCoinLedger 0 0 1)
        ((∃ o ∈ el, o.value = 2) ∨ sumValues (el.filter fun o => decide (o.value < 2 + CENT)) = 2 → r.2 = 2) ∧
          (∀ o ∈ el, 2 + CENT ≤ o.value → r.2 ≤ o.value) ∧
          (2 < r.2 → r.2 < 2 + CENT → ∀ o ∈ el, o.value < 2 + CENT) := by
  have hmax : ∀ o ∈ [twoCoin], eligible ownAllNode twoCoinLedger 0 0 1 o = true → o.value < INT64_MAX := by
    simp only [List.mem_singleton, forall_eq]
    exact fun _ => by decide
  obtain ⟨r, hr⟩ : ∃ r, selectCoinsMinConf ownAllNode twoCoinLedger 2 0 0 1 [twoCoin] fixedRng = some r :=
    ⟨_, rfl⟩
  exact ⟨by decide, by decide, hmax, r, hr,
    selectCoinsMinConf_quality ownAllNode twoCoinLedger 2 0 0 1 fixedRng (by decide) (by decide) hmax hr⟩

def wrapPairTx : WalletTx := WalletTx.ofTx ⟨0, [], [⟨1, []⟩, ⟨INT64_MAX - 2, []⟩]⟩

def wrapPairLedger : Ledger := ⟨StdMap.empty.insert 0 wrapPairTx, 1, true⟩

def wrapPair : List COutput := [⟨0, wrapPairTx, 0, 1, by decide⟩, ⟨0, wrapPairTx, 1, 1, by decide⟩]

/-- The quality bounds fail at both ends of int64. -/
theorem selectCoinsMinConf_quality_fails_at_int64_bounds :
    (∃ r, selectCoinsMinConf ownAllNode twoCoinLedger 1 0 0 1 [twoCoin, maxCoin] fixedRng = some r ∧
      1 < r.2 ∧ r.2 < 1 + CENT ∧
      ∃ o ∈ [twoCoin, maxCoin].filter (eligible ownAllNode twoCoinLedger 0 0 1), 1 + CENT ≤ o.value) ∧
    (∃ r, selectCoinsMinConf ownAllNode wrapPairLedger (INT64_MAX - 1) 0 0 1 wrapPair fixedRng = some r ∧
      r.2 = 1 ∧
      sumValues ((wrapPair.filter (eligible ownAllNode wrapPairLedger 0 0 1)).filter
        fun o => decide (o.value < INT64_MAX - 1 + CENT)) = INT64_MAX - 1) := by
  have hscan : scanCoins ownAllNode twoCoinLedger 1 0 0 1 (fixedRng.shuffle [twoCoin, maxCoin]) [] 0
      (INT64_MAX, none) = .split [(2, twoCoin)] 2 (INT64_MAX, none) := rfl
  obtain ⟨hs, ht⟩ := @bestSubset_valid [2] 2 1 fixedRng rfl (by decide)
  rw [min_wrapInt64_add_CENT (by decide)] at ht
  have hbest : (bestSubset [2] 2 1 fixedRng).2 = 2 := by
    revert hs ht
    generalize bestSubset [2] 2 1 fixedRng = best
    rcases best with ⟨_ | ⟨b, bs⟩, v⟩
    · simp [chosenSum]
      omega
    · cases b <;> simp [chosenSum] <;> omega
  refine ⟨⟨takeChosen [(2, twoCoin)] (bestSubset [2] 2 1 fixedRng).1 (CoinSet.empty, 0), ?_, ?_⟩,
    _, rfl, rfl, by decide⟩
  · simp only [selectCoinsMinConf, hscan]
    simp [List.mergeSort_singleton]
  · rw [takeChosen_snd _ (by simp; rfl), List.map_singleton, hs, hbest]
    exact ⟨by decide, by decide, maxCoin,
      List.mem_filter.mpr ⟨List.mem_cons_of_mem _ (List.mem_singleton_self _), by decide⟩, by decide⟩

end GridcoinWallet
