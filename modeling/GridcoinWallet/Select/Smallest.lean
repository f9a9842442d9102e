import GridcoinWallet.Select.Sufficiency

namespace GridcoinWallet

theorem takeCoin_points (acc : CoinSet × Int) (o : COutput) (p : OutPoint) :
    p ∈ (takeCoin acc o).1.coins.map COutput.point ↔ p ∈ acc.1.coins.map COutput.point ∨ p = o.point := by
  unfold takeCoin CoinSet.insert
  split_ifs with h
  · exact ⟨Or.inl, fun h' => h'.elim id fun e => e ▸ h⟩
  · simp

theorem foldl_takeCoin_points : ∀ (ts : List COutput) (acc : CoinSet × Int) (p : OutPoint),
    p ∈ (ts.foldl takeCoin acc).1.coins.map COutput.point ↔
      p ∈ acc.1.coins.map COutput.point ∨ p ∈ ts.map COutput.point
  | [], _, _ => by simp
  | o :: ts, acc, p => by
    rw [List.foldl_cons, foldl_takeCoin_points ts, takeCoin_points, List.map_cons, List.mem_cons]
    tauto

/-- The shortest prefix of `E` whose total reaches the target, with that total. -/
def ShortestPrefix (target : Int) (E : List COutput) : Option (CoinSet × Int) → Prop
  | some r => ∃ n, (∀ p, p ∈ r.1.coins.map COutput.point ↔ p ∈ (E.take n).map COutput.point) ∧
      r.2 = sumValues (E.take n) ∧ target ≤ r.2 ∧ ∀ m < n, sumValues (E.take m) < target
  | none => sumValues E < target

section Smallest

variable (N : Node) (L : Ledger) (target : Int) (nSpendTime : Nat) (nConfMine nConfTheirs : Int)

theorem takeSmallest_eq_some : ∀ (os : List COutput) (acc r : CoinSet × Int), acc.2 < target →
    takeSmallest N L target nSpendTime nConfMine nConfTheirs os acc = some r →
    ∃ n, r = ((os.filter (eligible N L nSpendTime nConfMine nConfTheirs)).take n).foldl takeCoin acc ∧
      target ≤ r.2 ∧ ∀ m < n, acc.2 + sumValues ((os.filter (eligible N L nSpendTime nConfMine nConfTheirs)).take m) < target
  | [], _, _, _, h => by cases h
  | o :: os, acc, r, hacc, h => by
    simp only [takeSmallest] at h
    split_ifs at h with he hr
    · simp only [Bool.not_eq_true'] at he
      simpa [List.filter_cons, he] using takeSmallest_eq_some os acc r hacc h
    · cases h
      simp only [Bool.not_eq_true', Bool.not_eq_false] at he
      refine ⟨1, by simp [List.filter_cons, he], hr, fun m hm => ?_⟩
      obtain rfl : m = 0 := by omega
      simpa [sumValues] using hacc
    · simp only [Bool.not_eq_true', Bool.not_eq_false] at he
      obtain ⟨n, rfl, hr', hm⟩ := takeSmallest_eq_some os _ r (lt_of_not_le hr) h
      refine ⟨n + 1, by simp [List.filter_cons, he], hr', fun m hm' => ?_⟩
      rw [List.filter_cons_of_pos he]
      cases m with
      | zero => simpa [sumValues] using hacc
      | succ m =>
        have := hm m (by omega)
        rw [List.take_succ_cons, sumValues_cons, ← add_assoc]
        exact this

theorem takeSmallest_eq_none : ∀ (os : List COutput) (acc : CoinSet × Int), acc.2 < target →
    takeSmallest N L target nSpendTime nConfMine nConfTheirs os acc = none →
    acc.2 + sumValues (os.filter (eligible N L nSpendTime nConfMine nConfTheirs)) < target
  | [], _, hacc, _ => by simpa [sumValues] using hacc
  | o :: os, acc, hacc, h => by
    simp only [takeSmallest] at h
    split_ifs at h with he hr
    · simp only [Bool.not_eq_true'] at he
      simpa [List.filter_cons, he] using takeSmallest_eq_none os acc hacc h
    · simp only [Bool.not_eq_true', Bool.not_eq_false] at he
      rw [List.filter_cons_of_pos he, sumValues_cons, ← add_assoc]
      exact takeSmallest_eq_none os _ (lt_of_not_le hr) h

theorem takeSmallest_shortestPrefix (htarget : 0 < target) (os : List COutput) :
    ShortestPrefix target (os.filter (eligible N L nSpendTime nConfMine nConfTheirs))
      (takeSmallest N L target nSpendTime nConfMine nConfTheirs os (CoinSet.empty, 0)) := by
  cases h : takeSmallest N L target nSpendTime nConfMine nConfTheirs os (CoinSet.empty, 0) with
  | none => simpa using takeSmallest_eq_none N L target nSpendTime nConfMine nConfTheirs os _ htarget h
  | some r =>
    obtain ⟨n, rfl, hr, hm⟩ := takeSmallest_eq_some N L target nSpendTime nConfMine nConfTheirs os _ r htarget h
    refine ⟨n, fun p => ?_, ?_, hr, fun m hlt => by simpa using hm m hlt⟩
    · rw [foldl_takeCoin_points]
      simp [CoinSet.empty]
    · simp [foldl_takeCoin_snd]

/-- SelectSmallestCoins returns the shortest prefix of its ascending scan that reaches the target.
 -/
theorem selectSmallestCoins_shortestPrefix (htarget : 0 < target) (vCoins : List COutput) :
    (∃ order : List COutput, order.Perm vCoins ∧ order.Pairwise (fun a b => a.value ≤ b.value) ∧
      selectSmallestCoins N L target nSpendTime nConfMine nConfTheirs vCoins =
        takeSmallest N L target nSpendTime nConfMine nConfTheirs order (CoinSet.empty, 0)) ∧
    ∀ order : List COutput, order.Perm vCoins → order.Pairwise (fun a b => a.value ≤ b.value) →
      ShortestPrefix target (order.filter (eligible N L nSpendTime nConfMine nConfTheirs))
        (takeSmallest N L target nSpendTime nConfMine nConfTheirs order (CoinSet.empty, 0)) := by
  refine ⟨⟨_, List.mergeSort_perm _ _, ?_, rfl⟩, fun order _ _ =>
    takeSmallest_shortestPrefix N L target nSpendTime nConfMine nConfTheirs htarget order⟩
  have hsorted := @List.sorted_mergeSort _ (fun a b : COutput => decide (a.value ≤ b.value))
    (fun a b c hab hbc => by simp only [decide_eq_true_eq] at *; omega)
    (fun a b => by simp only [Bool.or_eq_true, decide_eq_true_eq]; omega) vCoins
  simpa using hsorted

end Smallest

def threeCoinTx : WalletTx := WalletTx.ofTx ⟨0, [], [⟨5, []⟩, ⟨2, []⟩, ⟨9, []⟩]⟩

def threeCoinLedger : Ledger := ⟨StdMap.empty.insert 0 threeCoinTx, 1, true⟩

def threeCoins : List COutput :=
  [⟨0, threeCoinTx, 0, 1, by decide⟩, ⟨0, threeCoinTx, 1, 1, by decide⟩, ⟨0, threeCoinTx, 2, 1, by decide⟩]

def threeAscending : List COutput :=
  [⟨0, threeCoinTx, 1, 1, by decide⟩, ⟨0, threeCoinTx, 0, 1, by decide⟩, ⟨0, threeCoinTx, 2, 1, by decide⟩]

theorem selectSmallestCoins_shortestPrefix_threeCoins :
    (0 : Int) < 6 ∧
      (takeSmallest ownAllNode threeCoinLedger 6 0 0 1 threeAscending (CoinSet.empty, 0)).map Prod.snd = some 7 ∧
      (∃ order : List COutput, order.Perm threeCoins ∧ order.Pairwise (fun a b => a.value ≤ b.value) ∧
        selectSmallestCoins ownAllNode threeCoinLedger 6 0 0 1 threeCoins =
          takeSmallest ownAllNode threeCoinLedger 6 0 0 1 order (CoinSet.empty, 0)) ∧
      ∀ order : List COutput, order.Perm threeCoins → order.Pairwise (fun a b => a.value ≤ b.value) →
        ShortestPrefix 6 (order.filter (eligible ownAllNode threeCoinLedger 0 0 1))
          (takeSmallest ownAllNode threeCoinLedger 6 0 0 1 order (CoinSet.empty, 0)) :=
  ⟨by decide, rfl, selectSmallestCoins_shortestPrefix ownAllNode threeCoinLedger 6 0 0 1 (by decide) threeCoins⟩

/-- At a zero target an empty candidate list already reaches the target, yet SelectSmallestCoins
fails. -/
theorem selectSmallestCoins_zeroTarget_empty :
    selectSmallestCoins ownAllNode (Ledger.empty true) 0 0 1 10 [] = none ∧
      ¬ShortestPrefix 0 (([] : List COutput).filter (eligible ownAllNode (Ledger.empty true) 0 1 10))
        (takeSmallest ownAllNode (Ledger.empty true) 0 0 1 10 [] (CoinSet.empty, 0)) :=
  ⟨by simp [selectSmallestCoins, takeSmallest], by simp [ShortestPrefix, takeSmallest, sumValues]⟩

end GridcoinWallet
