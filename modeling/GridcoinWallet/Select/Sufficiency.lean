import GridcoinWallet.Select.Spec

namespace GridcoinWallet

section Sufficiency

variable (N : Node) (L : Ledger) (chain : ChainView) (minIn : Int) (nSpendTime : Nat)

def candidates : List COutput :=
  (availableCoins N L chain minIn true none false).filter (eligible N L nSpendTime 0 1)

theorem mem_candidates {o : COutput} :
    o ∈ candidates N L chain minIn nSpendTime ↔
      o ∈ availableCoins N L chain minIn true none false ∧ eligible N L nSpendTime 0 1 o = true :=
  List.mem_filter

theorem selectCoins_candidates {target : Int} {contract : Bool} {rng : Nat → SelectRng} {r : CoinSet × Int}
    (hfit : contract = false → target ≤ INT64_MAX - CENT)
    (h : selectCoins N L chain minIn target nSpendTime none contract rng = some r) :
    (∀ o ∈ r.1.coins, o ∈ candidates N L chain minIn nSpendTime) ∧ r.2 = sumValues r.1.coins ∧
      target ≤ r.2 := by
  obtain ⟨hc, hv, ht⟩ := (selectCoins_covers N L chain minIn target nSpendTime none contract rng hfit h).coins
  refine ⟨fun o ho => ?_, hv, ht⟩
  obtain ⟨hav, hel⟩ := hc o ho
  exact (mem_candidates N L chain minIn nSpendTime).mpr ⟨hav, hel.resolve_left Bool.false_ne_true⟩

theorem selectCoins_iff_sufficient (contract : Bool) (rng : Nat → SelectRng) (target : Int)
    (hmin : 0 ≤ minIn) (hpos : 0 < target) (hfit : contract = false → target ≤ INT64_MAX - CENT)
    (hmax : contract = false → ∀ o ∈ candidates N L chain minIn nSpendTime, o.value < INT64_MAX) :
    ((selectCoins N L chain minIn target nSpendTime none contract rng).isSome ↔
        target ≤ sumValues (candidates N L chain minIn nSpendTime)) ∧
      ∀ r, selectCoins N L chain minIn target nSpendTime none contract rng = some r →
        (∀ o ∈ r.1.coins, o ∈ candidates N L chain minIn nSpendTime ∧ o.tx.isSpent o.i = false ∧
          N.isMine o.out.scriptPubKey = true ∧ minIn ≤ o.value) ∧
        r.2 = sumValues r.1.coins ∧ target ≤ r.2 := by
  have offered : ∀ {o}, o ∈ candidates N L chain minIn nSpendTime →
      o.tx.isSpent o.i = false ∧ N.isMine o.out.scriptPubKey = true ∧ minIn ≤ o.value := fun ho => by
    obtain ⟨-, -, -, hsp, hmine, hmin', -⟩ :=
      mem_availableCoins N ((mem_candidates N L chain minIn nSpendTime).mp ho).1
    exact ⟨hsp, hmine, hmin'⟩
  refine ⟨⟨fun h => ?_, fun h => ?_⟩, fun r h => ?_⟩
  · obtain ⟨r, hr⟩ := Option.isSome_iff_exists.mp h
    obtain ⟨hc, hv, ht⟩ := selectCoins_candidates N L chain minIn nSpendTime hfit hr
    calc target ≤ r.2 := ht
      _ = sumValues r.1.coins := hv
      _ ≤ sumValues (candidates N L chain minIn nSpendTime) :=
        sumValues_le_of_subset (nodup_of_nodup_points r.1.nodup) hc
          fun o ho => le_trans hmin (offered ho).2.2
  · exact selectCoins_complete N L chain minIn target nSpendTime contract rng hpos
      (fun hc o ho he => hmax hc o ((mem_candidates N L chain minIn nSpendTime).mpr ⟨ho, he⟩)) h
  · obtain ⟨hc, hv, ht⟩ := selectCoins_candidates N L chain minIn nSpendTime hfit h
    exact ⟨fun o ho => ⟨hc o ho, offered (hc o ho)⟩, hv, ht⟩

end Sufficiency

def ownAllNode : Node := ⟨Tx.nTime, fun _ => true, fun _ => false, fun _ => false⟩

def oneDeepChain : ChainView := ⟨fun _ => 1, fun _ => true, fun _ => true, fun _ => 0⟩

def fixedRng : SelectRng := ⟨id, List.Perm.refl, fun _ => false, fun _ => false⟩

def oneCoinLedger (v : Int) : Ledger :=
  ⟨StdMap.empty.insert 0 (WalletTx.ofTx ⟨0, [], [⟨v, []⟩]⟩), 1, true⟩

theorem selectCoins_iff_sufficient_contract :
    (0 : Int) ≤ 0 ∧ (0 : Int) < 1 ∧
      ((selectCoins ownAllNode (oneCoinLedger INT64_MAX) oneDeepChain 0 1 0 none true fun _ => fixedRng).isSome ↔
        1 ≤ sumValues (candidates ownAllNode (oneCoinLedger INT64_MAX) oneDeepChain 0 0)) :=
  ⟨le_refl 0, by decide,
    (selectCoins_iff_sufficient ownAllNode (oneCoinLedger INT64_MAX) oneDeepChain 0 0 true (fun _ => fixedRng) 1
      (le_refl 0) (by decide) (fun h => absurd h (by decide)) (fun h => absurd h (by decide))).1⟩

/-- The general selector fails at both ends of int64. -/
theorem selectCoins_general_fails_at_int64_bounds :
    (sumValues (candidates ownAllNode (oneCoinLedger INT64_MAX) oneDeepChain 0 0) = INT64_MAX ∧
      selectCoins ownAllNode (oneCoinLedger INT64_MAX) oneDeepChain 0 1 0 none false (fun _ => fixedRng) = none) ∧
    (sumValues (candidates ownAllNode (oneCoinLedger 1) oneDeepChain 0 0) = 1 ∧
      ∃ r, selectCoins ownAllNode (oneCoinLedger 1) oneDeepChain 0 (INT64_MAX - CENT + 1) 0 none false
        (fun _ => fixedRng) = some r ∧ r.2 = 1) :=
  ⟨⟨by decide, rfl⟩, by decide, _, rfl, rfl⟩

end GridcoinWallet
