import GridcoinWallet.Select.Subset
import Mathlib.Algebra.Order.BigOperators.Group.List

namespace GridcoinWallet

theorem sumValues_append (l₁ l₂ : List COutput) : sumValues (l₁ ++ l₂) = sumValues l₁ + sumValues l₂ := by
  simp [sumValues]

theorem sumValues_cons (o : COutput) (l : List COutput) : sumValues (o :: l) = o.value + sumValues l := by
  simp [sumValues]

theorem sumValues_perm {l₁ l₂ : List COutput} (h : l₁.Perm l₂) : sumValues l₁ = sumValues l₂ :=
  (h.map _).sum_eq

theorem sumValues_filter_split (p q : COutput → Bool) (l : List COutput) :
    sumValues (l.filter p) = sumValues (l.filter fun o => p o && q o) + sumValues (l.filter fun o => p o && !q o) := by
  induction l with
  | nil => rfl
  | cons o l ih =>
    by_cases hp : p o <;> by_cases hq : q o <;> simp [List.filter_cons, hp, hq, sumValues_cons, ih] <;> omega

theorem sumValues_le_of_subset {ts pool : List COutput} (hnd : ts.Nodup) (hsub : ts ⊆ pool)
    (hpos : ∀ o ∈ pool, 0 ≤ o.value) : sumValues ts ≤ sumValues pool := by
  obtain ⟨l, hperm, hl⟩ := List.subperm_of_subset hnd hsub
  rw [← sumValues_perm hperm]
  exact (hl.map COutput.value).sum_le_sum fun x hx => by
    obtain ⟨o, ho, rfl⟩ := List.mem_map.mp hx
    exact hpos o ho

def posValues (coins : List COutput) : Int := (coins.map fun o => max o.value 0).sum

theorem posValues_perm {l₁ l₂ : List COutput} (h : l₁.Perm l₂) : posValues l₁ = posValues l₂ :=
  (h.map _).sum_eq

theorem sumValues_le_posValues_self (l : List COutput) : sumValues l ≤ posValues l :=
  List.sum_le_sum fun _ _ => le_max_left _ _

theorem posValues_le_of_sublist {l₁ l₂ : List COutput} (h : l₁.Sublist l₂) : posValues l₁ ≤ posValues l₂ :=
  (h.map _).sum_le_sum fun x hx => by
    obtain ⟨o, -, rfl⟩ := List.mem_map.mp hx
    exact le_max_right _ _

theorem sumValues_le_posValues {ts pool : List COutput} (hnd : ts.Nodup) (hsub : ts ⊆ pool) :
    sumValues ts ≤ posValues pool := by
  obtain ⟨l, hperm, hl⟩ := List.subperm_of_subset hnd hsub
  calc sumValues ts ≤ posValues ts := sumValues_le_posValues_self ts
    _ = posValues l := posValues_perm hperm.symm
    _ ≤ posValues pool := posValues_le_of_sublist hl

theorem nodup_of_nodup_points {ts : List COutput} (h : (ts.map COutput.point).Nodup) : ts.Nodup :=
  List.Nodup.of_map _ h

theorem takeCoin_fresh {acc : CoinSet × Int} {o : COutput} (h : o.point ∉ acc.1.coins.map COutput.point) :
    (takeCoin acc o).1.coins = acc.1.coins ++ [o] := by
  simp [takeCoin, CoinSet.insert, h]

theorem foldl_takeCoin_snd : ∀ (ts : List COutput) (acc : CoinSet × Int),
    (ts.foldl takeCoin acc).2 = acc.2 + sumValues ts
  | [], _ => by simp [sumValues]
  | o :: ts, acc => by
    rw [List.foldl_cons, foldl_takeCoin_snd ts, sumValues_cons, takeCoin, add_assoc]

theorem foldl_takeCoin_coins (ts : List COutput) (acc : CoinSet × Int)
    (h : ((acc.1.coins ++ ts).map COutput.point).Nodup) :
    (ts.foldl takeCoin acc).1.coins = acc.1.coins ++ ts := by
  induction ts generalizing acc with
  | nil => simp
  | cons o ts ih =>
    have hfresh : o.point ∉ acc.1.coins.map COutput.point := by
      rw [List.map_append, List.nodup_append] at h
      exact fun hm => h.2.2 hm (List.mem_map_of_mem _ (List.mem_cons_self o ts))
    have hc := takeCoin_fresh hfresh
    rw [List.foldl_cons, ih (takeCoin acc o) (by rw [hc, List.append_assoc]; exact h), hc]
    simp

/-- What a selector returns: distinct coins from `pool` meeting `P`, with a total that reaches the
target. -/
def Selects (pool : List COutput) (P : COutput → Prop) (target : Int) (r : CoinSet × Int) : Prop :=
  ∃ ts : List COutput, (∀ o ∈ ts, o ∈ pool ∧ P o) ∧ (ts.map COutput.point).Nodup ∧
    r = ts.foldl takeCoin (CoinSet.empty, 0) ∧ target ≤ r.2

theorem Selects.coins {pool : List COutput} {P : COutput → Prop} {target : Int} {r : CoinSet × Int}
    (h : Selects pool P target r) :
    (∀ o ∈ r.1.coins, o ∈ pool ∧ P o) ∧ r.2 = sumValues r.1.coins ∧ target ≤ r.2 := by
  obtain ⟨ts, hts, hnd, hr, ht⟩ := h
  have hc := foldl_takeCoin_coins ts (CoinSet.empty, 0) (by simpa [CoinSet.empty] using hnd)
  have hv := foldl_takeCoin_snd ts (CoinSet.empty, 0)
  rw [← hr] at hc hv
  simp only [CoinSet.empty, List.nil_append, zero_add] at hc hv
  rw [hc]
  exact ⟨hts, hv, ht⟩

theorem Selects.of_le {pool : List COutput} {P : COutput → Prop} {target target' : Int} {r : CoinSet × Int}
    (h : Selects pool P target r) (ht : target' ≤ target) : Selects pool P target' r := by
  obtain ⟨ts, hts, hnd, hr, h⟩ := h
  exact ⟨ts, hts, hnd, hr, ht.trans h⟩

theorem Selects.mono {pool pool' : List COutput} {P P' : COutput → Prop} {target : Int} {r : CoinSet × Int}
    (h : Selects pool P target r) (hpool : ∀ o ∈ pool, P o → o ∈ pool' ∧ P' o) : Selects pool' P' target r := by
  obtain ⟨ts, hts, hnd, hr, ht⟩ := h
  exact ⟨ts, fun o ho => hpool o (hts o ho).1 (hts o ho).2, hnd, hr, ht⟩

section Selectors

variable (N : Node) (L : Ledger) (target : Int) (nSpendTime : Nat) (nConfMine nConfTheirs : Int)

theorem takeSmallest_sound : ∀ (os : List COutput) (acc r : CoinSet × Int),
    takeSmallest N L target nSpendTime nConfMine nConfTheirs os acc = some r →
    ∃ ts : List COutput, ts.Sublist (os.filter (eligible N L nSpendTime nConfMine nConfTheirs)) ∧
      r = ts.foldl takeCoin acc ∧ target ≤ r.2
  | [], _, _, h => by cases h
  | o :: os, acc, r, h => by
    simp only [takeSmallest] at h
    split_ifs at h with he hr
    · obtain ⟨ts, hts, hr, ht⟩ := takeSmallest_sound os acc r h
      simp only [Bool.not_eq_true'] at he
      exact ⟨ts, by simpa [List.filter_cons, he] using hts, hr, ht⟩
    · cases h
      simp only [Bool.not_eq_true', Bool.not_eq_false] at he
      exact ⟨[o], by simp [List.filter_cons, he], rfl, hr⟩
    · obtain ⟨ts, hts, hr, ht⟩ := takeSmallest_sound os _ r h
      simp only [Bool.not_eq_true', Bool.not_eq_false] at he
      exact ⟨o :: ts, by simpa [List.filter_cons, he] using hts, hr, ht⟩

theorem takeSmallest_complete : ∀ (os : List COutput) (acc : CoinSet × Int), acc.2 < target →
    target ≤ acc.2 + sumValues (os.filter (eligible N L nSpendTime nConfMine nConfTheirs)) →
    (takeSmallest N L target nSpendTime nConfMine nConfTheirs os acc).isSome
  | [], acc, hlt, hle => by
    simp only [List.filter_nil, sumValues, List.map_nil, List.sum_nil, add_zero] at hle; omega
  | o :: os, acc, hlt, hle => by
    simp only [takeSmallest]
    split_ifs with he hr
    · simp only [Bool.not_eq_true'] at he
      exact takeSmallest_complete os acc hlt (by simpa [List.filter_cons, he] using hle)
    · rfl
    · simp only [Bool.not_eq_true', Bool.not_eq_false] at he
      refine takeSmallest_complete os _ (lt_of_not_le hr) ?_
      simp only [List.filter_cons, he, if_true, sumValues_cons] at hle
      simp only [takeCoin]
      omega

theorem selectSmallestCoins_sound {vCoins : List COutput} (hnd : (vCoins.map COutput.point).Nodup)
    {r : CoinSet × Int} (h : selectSmallestCoins N L target nSpendTime nConfMine nConfTheirs vCoins = some r) :
    Selects vCoins (fun o => eligible N L nSpendTime nConfMine nConfTheirs o = true) target r := by
  obtain ⟨ts, hts, rfl, ht⟩ := takeSmallest_sound N L target nSpendTime nConfMine nConfTheirs _ _ _ h
  have hperm := List.mergeSort_perm vCoins fun a b => decide (a.value ≤ b.value)
  have hsub : ts.Sublist (vCoins.mergeSort fun a b => decide (a.value ≤ b.value)) :=
    hts.trans (List.filter_sublist _)
  refine ⟨ts, fun o ho => ?_, ?_, rfl, ht⟩
  · have := hts.subset ho
    rw [List.mem_filter] at this
    exact ⟨hperm.subset this.1, this.2⟩
  · exact (hsub.map _).nodup ((hperm.map _).nodup_iff.mpr hnd)

theorem selectSmallestCoins_complete {vCoins : List COutput} (hpos : 0 < target)
    (h : target ≤ sumValues (vCoins.filter (eligible N L nSpendTime nConfMine nConfTheirs))) :
    (selectSmallestCoins N L target nSpendTime nConfMine nConfTheirs vCoins).isSome := by
  refine takeSmallest_complete N L target nSpendTime nConfMine nConfTheirs _ _ hpos ?_
  rw [sumValues_perm ((List.mergeSort_perm _ _).filter _)]
  simpa using h

def smallCoin (o : COutput) : Bool :=
  eligible N L nSpendTime nConfMine nConfTheirs o && decide (o.value < wrapInt64 (target + CENT))

theorem scanCoins_exact : ∀ {os : List COutput} {vValue : List (Int × COutput)} {tot : Int}
    {lowest : Int × Option COutput} {o : COutput},
    scanCoins N L target nSpendTime nConfMine nConfTheirs os vValue tot lowest = .exact o →
    o ∈ os ∧ eligible N L nSpendTime nConfMine nConfTheirs o = true ∧ o.value = target
  | [], _, _, _, _, h => by cases h
  | o' :: os, vValue, tot, lowest, o, h => by
    simp only [scanCoins] at h
    split_ifs at h with he hx hs hl
    all_goals first
      | (cases h; simp only [Bool.not_eq_true', Bool.not_eq_false] at he
         exact ⟨List.mem_cons_self _ _, he, hx⟩)
      | exact (scanCoins_exact h).imp_left (List.mem_cons_of_mem _)

theorem scanCoins_split : ∀ {os : List COutput} {vValue vValue' : List (Int × COutput)} {tot tot' : Int}
    {lowest lowest' : Int × Option COutput},
    scanCoins N L target nSpendTime nConfMine nConfTheirs os vValue tot lowest = .split vValue' tot' lowest' →
    vValue' = vValue ++ (os.filter (smallCoin N L target nSpendTime nConfMine nConfTheirs)).map
        (fun o => (o.value, o)) ∧
      tot' = tot + sumValues (os.filter (smallCoin N L target nSpendTime nConfMine nConfTheirs)) ∧
      (lowest' = lowest ∨ ∃ o ∈ os, eligible N L nSpendTime nConfMine nConfTheirs o = true ∧
        wrapInt64 (target + CENT) ≤ o.value ∧ lowest' = (o.value, some o)) ∧
      (lowest.2.isSome → lowest'.2.isSome) ∧
      (∀ o ∈ os, eligible N L nSpendTime nConfMine nConfTheirs o = true → wrapInt64 (target + CENT) ≤ o.value →
        o.value < lowest.1 → lowest'.2.isSome)
  | [], _, _, _, _, _, _, h => by
    cases h; exact ⟨by simp, by simp [sumValues], Or.inl rfl, id, fun _ h => by cases h⟩
  | o :: os, vValue, vValue', tot, tot', lowest, lowest', h => by
    simp only [scanCoins] at h
    split_ifs at h with he hx hs hl <;> simp only [Bool.not_eq_true', Bool.not_eq_false] at he <;>
      obtain ⟨h₁, h₂, h₃, h₄, h₅⟩ := scanCoins_split h
    · refine ⟨by simpa [List.filter_cons, smallCoin, he] using h₁,
        by simpa [List.filter_cons, smallCoin, he] using h₂,
        h₃.imp_right fun ⟨o', ho', h⟩ => ⟨o', List.mem_cons_of_mem _ ho', h⟩, h₄, fun o' ho' => ?_⟩
      rcases List.mem_cons.mp ho' with rfl | ho'
      · intro he'; rw [he] at he'; cases he'
      · exact h₅ o' ho'
    · refine ⟨by simp [h₁, List.filter_cons, smallCoin, he, hs],
        by simp [h₂, List.filter_cons, smallCoin, he, hs, sumValues_cons]; omega,
        h₃.imp_right fun ⟨o', ho', h⟩ => ⟨o', List.mem_cons_of_mem _ ho', h⟩, h₄, fun o' ho' => ?_⟩
      rcases List.mem_cons.mp ho' with rfl | ho'
      · exact fun _ hc => absurd hs (not_lt.mpr hc)
      · exact h₅ o' ho'
    · refine ⟨by simp [h₁, List.filter_cons, smallCoin, he, hs],
        by simp [h₂, List.filter_cons, smallCoin, he, hs],
        Or.inr ?_, fun _ => h₄ rfl, fun o' _ _ _ _ => h₄ rfl⟩
      rcases h₃ with rfl | ⟨o', ho', h⟩
      · exact ⟨o, List.mem_cons_self _ _, he, not_lt.mp hs, rfl⟩
      · exact ⟨o', List.mem_cons_of_mem _ ho', h⟩
    · refine ⟨by simp [h₁, List.filter_cons, smallCoin, he, hs],
        by simp [h₂, List.filter_cons, smallCoin, he, hs],
        h₃.imp_right fun ⟨o', ho', h⟩ => ⟨o', List.mem_cons_of_mem _ ho', h⟩, h₄, fun o' ho' => ?_⟩
      rcases List.mem_cons.mp ho' with rfl | ho'
      · intro _ _ hc; exact absurd hc hl
      · exact h₅ o' ho'

def chosenCoins : List (Int × COutput) → List Bool → List COutput
  | (_, o) :: vs, b :: bs => if b then o :: chosenCoins vs bs else chosenCoins vs bs
  | _, _ => []

theorem takeChosen_eq : ∀ (vs : List (Int × COutput)) (bs : List Bool) (acc : CoinSet × Int),
    takeChosen vs bs acc = (chosenCoins vs bs).foldl takeCoin acc
  | (_, o) :: vs, b :: bs, acc => by
    cases b <;> exact takeChosen_eq vs bs _
  | [], _, _ => rfl
  | _ :: _, [], _ => rfl

theorem chosenCoins_sublist : ∀ (vs : List (Int × COutput)) (bs : List Bool),
    (chosenCoins vs bs).Sublist (vs.map Prod.snd)
  | (_, o) :: vs, b :: bs => by
    cases b
    · exact (chosenCoins_sublist vs bs).cons _
    · exact (chosenCoins_sublist vs bs).cons₂ _
  | [], _ => List.Sublist.slnil
  | _ :: _, [] => List.nil_sublist _

theorem sumValues_chosenCoins : ∀ (vs : List (Int × COutput)) (bs : List Bool),
    (∀ p ∈ vs, p.1 = p.2.value) → sumValues (chosenCoins vs bs) = chosenSum (vs.map Prod.fst) bs
  | (v, o) :: vs, b :: bs, h => by
    have hv : v = o.value := h (v, o) (List.mem_cons_self _ _)
    have ih := sumValues_chosenCoins vs bs fun p hp => h p (List.mem_cons_of_mem _ hp)
    cases b
    · simp only [chosenCoins, chosenSum, List.map_cons, Bool.false_eq_true, if_false, ih, zero_add]
    · simp only [chosenCoins, chosenSum, List.map_cons, if_true, sumValues_cons, ih, hv]
  | [], _, _ => rfl
  | _ :: _, [], _ => rfl

theorem sorted_small {vValue : List (Int × COutput)} {small : List COutput}
    (hv : vValue = small.map fun o => (o.value, o)) :
    let sorted := vValue.mergeSort fun a b => decide (b.1 ≤ a.1)
    (∀ p ∈ sorted, p.1 = p.2.value) ∧ (sorted.map Prod.fst).sum = sumValues small ∧
      (sorted.map Prod.snd).Perm small := by
  intro sorted
  have hsorted : sorted.Perm (small.map fun o => (o.value, o)) := hv ▸ List.mergeSort_perm _ _
  refine ⟨fun p hp => ?_, ?_, ?_⟩
  · obtain ⟨o, -, rfl⟩ := List.mem_map.mp (hsorted.mem_iff.mp hp)
    rfl
  · rw [(hsorted.map _).sum_eq, List.map_map]
    rfl
  · simpa [List.map_map, Function.comp_def] using hsorted.map Prod.snd

theorem selectCoinsMinConf_sound {vCoins : List COutput} (hnd : (vCoins.map COutput.point).Nodup)
    (rng : SelectRng) {r : CoinSet × Int}
    (h : selectCoinsMinConf N L target nSpendTime nConfMine nConfTheirs vCoins rng = some r) :
    Selects vCoins (fun o => eligible N L nSpendTime nConfMine nConfTheirs o = true)
      (min target (wrapInt64 (target + CENT))) r := by
  have hperm := rng.shuffle_perm vCoins
  set small := (rng.shuffle vCoins).filter (smallCoin N L target nSpendTime nConfMine nConfTheirs)
    with hsmall_def
  have hsmall : ∀ o ∈ small, o ∈ vCoins ∧ eligible N L nSpendTime nConfMine nConfTheirs o = true :=
    fun o ho => by
      rw [hsmall_def, List.mem_filter, smallCoin, Bool.and_eq_true] at ho
      exact ⟨hperm.subset ho.1, ho.2.1⟩
  have hsmall_nd : (small.map COutput.point).Nodup :=
    ((List.filter_sublist _).map _).nodup ((hperm.map _).nodup_iff.mpr hnd)
  have single : ∀ o ∈ rng.shuffle vCoins, eligible N L nSpendTime nConfMine nConfTheirs o = true →
      min target (wrapInt64 (target + CENT)) ≤ o.value →
      Selects vCoins (fun o => eligible N L nSpendTime nConfMine nConfTheirs o = true)
        (min target (wrapInt64 (target + CENT))) (takeCoin (CoinSet.empty, 0) o) := fun o ho he ht =>
    ⟨[o], by simpa using ⟨hperm.subset ho, he⟩, by simp, rfl, by simpa [takeCoin] using ht⟩
  unfold selectCoinsMinConf at h
  split at h
  next o hscan =>
    cases h
    obtain ⟨ho, he, hv⟩ := scanCoins_exact N L target nSpendTime nConfMine nConfTheirs hscan
    exact single o ho he (min_le_of_left_le hv.ge)
  next vValue nTotalLower lowest hscan =>
    obtain ⟨hv, htot, hlow, -, -⟩ := scanCoins_split N L target nSpendTime nConfMine nConfTheirs hscan
    simp only [List.nil_append, zero_add] at hv htot
    -- the lowest larger coin lies at the int64 target + CENT or above
    have hlowest : ∀ o, lowest.2 = some o → Selects vCoins
        (fun o => eligible N L nSpendTime nConfMine nConfTheirs o = true) (min target (wrapInt64 (target + CENT)))
        (CoinSet.empty.insert o, lowest.1) := fun o hl => by
      rcases hlow with rfl | ⟨o', ho', he', ht', rfl⟩
      · cases hl
      · cases hl
        simpa [takeCoin] using single o ho' he' (min_le_of_right_le ht')
    -- the coins below the int64 target + CENT, sorted by decreasing value
    obtain ⟨hfst, hvals, hsorted⟩ := sorted_small hv
    set sorted := vValue.mergeSort fun a b => decide (b.1 ≤ a.1)
    have hnd' : ((sorted.map Prod.snd).map COutput.point).Nodup := (hsorted.map _).nodup_iff.mpr hsmall_nd
    have hbest : ∀ best : List Bool × Int, min target (wrapInt64 (target + CENT)) ≤ best.2 →
        chosenSum (sorted.map Prod.fst) best.1 = best.2 →
        Selects vCoins (fun o => eligible N L nSpendTime nConfMine nConfTheirs o = true)
          (min target (wrapInt64 (target + CENT))) (takeChosen sorted best.1 (CoinSet.empty, 0)) := by
      intro best ht hsum
      have hsub := chosenCoins_sublist sorted best.1
      refine ⟨_, fun o ho => hsmall o (hsorted.subset (hsub.subset ho)), (hsub.map _).nodup hnd',
        takeChosen_eq _ _ _, ?_⟩
      rw [takeChosen_eq, foldl_takeCoin_snd, sumValues_chosenCoins _ _ hfst, hsum]; simpa using ht
    split_ifs at h with heq hlt
    · cases h
      refine ⟨small, hsmall, hsmall_nd, by simp [hv, List.foldl_map], ?_⟩
      rw [hv, List.foldl_map, foldl_takeCoin_snd, ← htot, heq, zero_add]
      exact min_le_left _ _
    · obtain ⟨o, hl, rfl⟩ := Option.map_eq_some'.mp h
      exact hlowest o hl
    · obtain ⟨hs, ht⟩ := bestSubset_valid rng (hvals.trans htot.symm) (show target ≤ nTotalLower by omega)
      dsimp only at h
      split at h
      next o hl =>
        split_ifs at h
        · cases h; exact hlowest o hl
        · cases h; exact hbest _ ht hs
      next => cases h; exact hbest _ ht hs

theorem selectCoinsMinConf_complete {vCoins : List COutput} (rng : SelectRng)
    (hmax : ∀ o ∈ vCoins, eligible N L nSpendTime nConfMine nConfTheirs o = true → o.value < INT64_MAX)
    (h : target ≤ sumValues (vCoins.filter (eligible N L nSpendTime nConfMine nConfTheirs))) :
    (selectCoinsMinConf N L target nSpendTime nConfMine nConfTheirs vCoins rng).isSome := by
  have hperm := rng.shuffle_perm vCoins
  unfold selectCoinsMinConf
  split
  next => rfl
  next vValue nTotalLower lowest hscan =>
    obtain ⟨-, htot, -, -, hlarge⟩ := scanCoins_split N L target nSpendTime nConfMine nConfTheirs hscan
    simp only [zero_add] at htot
    split_ifs with heq hlt
    · rfl
    · -- a coin at the int64 target + CENT or above exists, and the lowest of them is recorded
      rw [← sumValues_perm (hperm.filter _),
        sumValues_filter_split _ fun o => decide (o.value < wrapInt64 (target + CENT))] at h
      have hpos : 0 < sumValues ((rng.shuffle vCoins).filter fun o =>
          eligible N L nSpendTime nConfMine nConfTheirs o && !decide (o.value < wrapInt64 (target + CENT))) := by
        have : sumValues ((rng.shuffle vCoins).filter (smallCoin N L target nSpendTime nConfMine nConfTheirs))
            = nTotalLower := htot.symm
        unfold smallCoin at this
        omega
      obtain ⟨o, ho⟩ : ∃ o, o ∈ (rng.shuffle vCoins).filter fun o =>
          eligible N L nSpendTime nConfMine nConfTheirs o && !decide (o.value < wrapInt64 (target + CENT)) := by
        by_contra hnone
        push_neg at hnone
        rw [List.eq_nil_iff_forall_not_mem.mpr hnone] at hpos
        simp [sumValues] at hpos
      rw [List.mem_filter, Bool.and_eq_true, Bool.not_eq_true', decide_eq_false_iff_not, not_lt] at ho
      simpa using hlarge o ho.1 ho.2.1 ho.2.2 (hmax o (hperm.subset ho.1) ho.2.1)
    · dsimp only
      split
      · split_ifs <;> rfl
      · rfl

end Selectors

section Available

variable (N : Node)

theorem mem_availableOutputs {chain : ChainView} {minIn : Int} {cc : Option CoinControl} {hash : Nat}
    {pcoin : WalletTx} {o : COutput} (h : o ∈ availableOutputs N chain minIn cc false hash pcoin) :
    o.hash = hash ∧ o.tx = pcoin ∧ o.nDepth = chain.depth pcoin ∧ pcoin.isSpent o.i = false ∧
      N.isMine o.out.scriptPubKey = true ∧ minIn ≤ o.value ∧
      (cc.all fun c => !c.hasSelected || c.isSelected o.point) = true := by
  obtain ⟨i, -, hi⟩ := List.mem_filterMap.mp h
  split at hi
  · rename_i hlt
    dsimp only at hi
    split at hi
    · rename_i hc
      cases hi
      simp only [Bool.and_false, Bool.false_and, Bool.or_false, Bool.and_eq_true, Bool.not_eq_true',
        decide_eq_true_eq] at hc
      exact ⟨rfl, rfl, rfl, hc.1.1.1, hc.1.1.2, hc.1.2, hc.2⟩
    · cases hi
  · cases hi

theorem mem_availableCoins {L : Ledger} {chain : ChainView} {minIn : Int} {fOnlyConfirmed : Bool}
    {cc : Option CoinControl} {o : COutput} (h : o ∈ availableCoins N L chain minIn fOnlyConfirmed cc false) :
    L.mapWallet.find? o.hash = some o.tx ∧ skipsTx N chain fOnlyConfirmed false o.tx = false ∧
      o.nDepth = chain.depth o.tx ∧ o.tx.isSpent o.i = false ∧ N.isMine o.out.scriptPubKey = true ∧
      minIn ≤ o.value ∧ (cc.all fun c => !c.hasSelected || c.isSelected o.point) = true := by
  obtain ⟨⟨k, w⟩, he, ho⟩ := List.mem_flatMap.mp h
  split at ho
  · cases ho
  · rename_i hskip
    obtain ⟨h1, h2, h3, h4, h5, h6, h7⟩ := mem_availableOutputs N ho
    rw [h1, h2]
    exact ⟨(StdMap.find?_iff_mem _).mpr he, by simpa using hskip, h3, h4, h5, h6, h7⟩

theorem availableCoins_nodup (L : Ledger) (chain : ChainView) (minIn : Int) (fOnlyConfirmed : Bool)
    (cc : Option CoinControl) (staked : Bool) :
    ((availableCoins N L chain minIn fOnlyConfirmed cc staked).map COutput.point).Nodup := by
  have hpoint : ∀ e : Nat × WalletTx, ∀ o ∈ availableOutputs N chain minIn cc staked e.1 e.2,
      o.hash = e.1 ∧ o.tx = e.2 ∧ o.nDepth = chain.depth e.2 := fun e o ho => by
    obtain ⟨i, -, hi⟩ := List.mem_filterMap.mp ho
    split at hi
    · dsimp only at hi
      split at hi
      · cases hi; exact ⟨rfl, rfl, rfl⟩
      · cases hi
    · cases hi
  have hrec : ∀ e : Nat × WalletTx, ((availableOutputs N chain minIn cc staked e.1 e.2).map COutput.point).Nodup := by
    intro e
    refine List.Nodup.map_on (fun x hx y hy hxy => ?_) ?_
    · obtain ⟨hx1, hx2, hx3⟩ := hpoint e x hx
      obtain ⟨hy1, hy2, hy3⟩ := hpoint e y hy
      have hi : x.i = y.i := congrArg OutPoint.n hxy
      cases x; cases y
      simp only at hx1 hx2 hx3 hy1 hy2 hy3 hi
      subst hx1 hx2 hx3 hy1 hy2 hy3 hi
      rfl
    · refine List.Nodup.filterMap (fun a a' b hb hb' => ?_) (List.nodup_range _)
      simp only [Option.mem_def] at hb hb'
      split at hb
      · split at hb
        · cases hb
          split at hb'
          · split at hb'
            · cases hb'; rfl
            · cases hb'
          · cases hb'
        · cases hb
      · cases hb
  rw [availableCoins, List.map_flatMap, List.nodup_flatMap]
  refine ⟨fun e _ => ?_, ?_⟩
  · split
    · exact List.nodup_nil
    · exact hrec e
  · refine L.mapWallet.sorted.imp fun {e₁ e₂} hlt => ?_
    intro p hp₁ hp₂
    simp only [Function.onFun] at hp₁ hp₂
    split at hp₁
    · cases hp₁
    split at hp₂
    · cases hp₂
    obtain ⟨o₁, ho₁, rfl⟩ := List.mem_map.mp hp₁
    obtain ⟨o₂, ho₂, he⟩ := List.mem_map.mp hp₂
    have h₁ := (hpoint e₁ o₁ ho₁).1
    have h₂ := (hpoint e₂ o₂ ho₂).1
    have : o₂.hash = o₁.hash := congrArg OutPoint.hash he
    omega

end Available

theorem eligible_mono {N : Node} {L : Ledger} {nSpendTime : Nat} {cm ct cm' ct' : Int} {o : COutput}
    (hm : cm' ≤ cm) (ht : ct' ≤ ct) (h : eligible N L nSpendTime cm ct o = true) :
    eligible N L nSpendTime cm' ct' o = true := by
  simp only [eligible, Bool.and_eq_true, decide_eq_true_eq] at h ⊢
  refine ⟨?_, h.2⟩
  split_ifs at h ⊢ <;> omega

theorem isSome_orElse {α : Type} (a : Option α) (b : Unit → Option α) :
    (a.orElse b).isSome = (a.isSome || (b ()).isSome) := by
  cases a <;> rfl

section SelectCoins

variable (N : Node) (L : Ledger) (chain : ChainView) (minIn target : Int) (nSpendTime : Nat)

theorem orElse_eq_some₃ {α : Type} {a b c : Option α} {r : α}
    (h : (a.orElse fun _ => b.orElse fun _ => c) = some r) : a = some r ∨ b = some r ∨ c = some r := by
  cases a with
  | some x => exact Or.inl h
  | none =>
    cases b with
    | some x => exact Or.inr (Or.inl h)
    | none => exact Or.inr (Or.inr h)

theorem selectCoins_sound (cc : Option CoinControl) (contract : Bool) (rng : Nat → SelectRng)
    {r : CoinSet × Int} (h : selectCoins N L chain minIn target nSpendTime cc contract rng = some r) :
    Selects (availableCoins N L chain minIn true cc false)
      (fun o => cc.any CoinControl.hasSelected = true ∨ eligible N L nSpendTime 0 1 o = true)
      (if contract then target else min target (wrapInt64 (target + CENT))) r := by
  have hnd := availableCoins_nodup N L chain minIn true cc false
  have hfloor : (if contract then target else min target (wrapInt64 (target + CENT))) ≤ target := by
    split_ifs
    exacts [le_refl _, min_le_left _ _]
  have weaken : ∀ {cm ct t : Int}, 0 ≤ cm → 1 ≤ ct → ∀ {r}, Selects (availableCoins N L chain minIn true cc false)
      (fun o => eligible N L nSpendTime cm ct o = true) t r →
      Selects (availableCoins N L chain minIn true cc false)
        (fun o => cc.any CoinControl.hasSelected = true ∨ eligible N L nSpendTime 0 1 o = true) t r :=
    fun hm ht _ hs => hs.mono fun o ho he => ⟨ho, Or.inr (eligible_mono hm ht he)⟩
  unfold selectCoins at h
  dsimp only at h
  split_ifs at h with hcc hle hcon
  · cases h
    exact Selects.of_le ⟨_, fun o ho => ⟨ho, Or.inl hcc⟩, hnd, rfl, hle⟩ hfloor
  · rw [if_pos hcon]
    rcases orElse_eq_some₃ h with h | h | h <;>
      exact weaken (by decide) (by decide) (selectSmallestCoins_sound N L target nSpendTime _ _ hnd h)
  · rw [if_neg hcon]
    rcases orElse_eq_some₃ h with h | h | h <;>
      exact weaken (by decide) (by decide) (selectCoinsMinConf_sound N L target nSpendTime _ _ hnd _ h)

theorem selectCoins_covers (cc : Option CoinControl) (contract : Bool) (rng : Nat → SelectRng)
    (hfit : contract = false → target ≤ INT64_MAX - CENT)
    {r : CoinSet × Int} (h : selectCoins N L chain minIn target nSpendTime cc contract rng = some r) :
    Selects (availableCoins N L chain minIn true cc false)
      (fun o => cc.any CoinControl.hasSelected = true ∨ eligible N L nSpendTime 0 1 o = true) target r := by
  have hs := selectCoins_sound N L chain minIn target nSpendTime cc contract rng h
  cases contract
  · rwa [if_neg Bool.false_ne_true, min_wrapInt64_add_CENT (hfit rfl)] at hs
  · exact hs

theorem selectCoins_complete (contract : Bool) (rng : Nat → SelectRng) (hpos : 0 < target)
    (hmax : contract = false → ∀ o ∈ availableCoins N L chain minIn true none false,
      eligible N L nSpendTime 0 1 o = true → o.value < INT64_MAX)
    (h : target ≤ sumValues ((availableCoins N L chain minIn true none false).filter (eligible N L nSpendTime 0 1))) :
    (selectCoins N L chain minIn target nSpendTime none contract rng).isSome := by
  unfold selectCoins
  dsimp only
  rw [if_neg (by decide)]
  split_ifs with hcon
  · simp only [isSome_orElse, selectSmallestCoins_complete N L target nSpendTime 0 1 hpos h, Bool.or_true]
  · simp only [isSome_orElse, Bool.or_true,
      selectCoinsMinConf_complete N L target nSpendTime 0 1 (rng 2) (hmax (by simpa using hcon)) h]

end SelectCoins

end GridcoinWallet
