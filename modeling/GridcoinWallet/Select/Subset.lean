import GridcoinWallet.Select.Coins
import Mathlib.Data.List.Chain

namespace GridcoinWallet

def chosenSum : List Int → List Bool → Int
  | v :: vs, b :: bs => (if b then v else 0) + chosenSum vs bs
  | _, _ => 0

theorem chosenSum_replicate_true (vs : List Int) : chosenSum vs (List.replicate vs.length true) = vs.sum := by
  induction vs with
  | nil => rfl
  | cons v vs ih => simp [chosenSum, List.replicate_succ, ih]

theorem chosenSum_replicate_false (vs : List Int) (n : Nat) : chosenSum vs (List.replicate n false) = 0 := by
  induction vs generalizing n with
  | nil => cases n <;> rfl
  | cons v vs ih => cases n <;> simp [chosenSum, List.replicate_succ, ih]

theorem chosenSum_set {vs : List Int} {bs : List Bool} {i : Nat} (hi : i < vs.length)
    (hb : i < bs.length) (b : Bool) :
    chosenSum vs (bs.set i b) =
      chosenSum vs bs - (if bs.getD i false then vs.getD i 0 else 0) + (if b then vs.getD i 0 else 0) := by
  induction vs generalizing bs i with
  | nil => cases hi
  | cons v vs ih =>
    cases bs with
    | nil => cases hb
    | cons c bs =>
      cases i with
      | zero =>
        simp only [List.set_cons_zero, chosenSum, List.getD_cons_zero]
        omega
      | succ i =>
        simp only [List.set_cons_succ, chosenSum, List.getD_cons_succ]
        rw [ih (Nat.lt_of_succ_lt_succ hi) (Nat.lt_of_succ_lt_succ hb)]
        omega

theorem getD_set_ne {bs : List Bool} {i j : Nat} (hne : i ≠ j) (b d : Bool) :
    (bs.set i b).getD j d = bs.getD j d := by
  rw [List.getD_eq_getElem?_getD, List.getElem?_set_ne hne, ← List.getD_eq_getElem?_getD]

theorem getD_set_self {bs : List Bool} {i : Nat} (hi : i < bs.length) (b d : Bool) :
    (bs.set i b).getD i d = b := by
  rw [List.getD_eq_getElem?_getD, List.getElem?_set_self hi]; rfl

namespace SubsetTrial

/-- A trial state whose running total and best total are the totals of their flag vectors, with the
best reaching the target. -/
structure Valid (vals : List Int) (target : Int) (s : SubsetTrial) : Prop where
  included_length : s.vfIncluded.length = vals.length
  total : chosenSum vals s.vfIncluded = s.nTotal
  best_length : s.vfBest.length = vals.length
  best : chosenSum vals s.vfBest = s.nBest
  reaches : target ≤ s.nBest

variable {vals : List Int} {target : Int}

theorem Valid.visit {s : SubsetTrial} (hs : s.Valid vals target) {take : Bool} {i : Nat}
    (hi : i < vals.length) (hfree : take = true → s.vfIncluded.getD i false = false) :
    (s.visit target take i (vals.getD i 0)).Valid vals target := by
  have hb : i < s.vfIncluded.length := hs.included_length ▸ hi
  unfold SubsetTrial.visit
  split_ifs with ht hr
  all_goals first | exact hs | skip
  all_goals
    have hf := hfree ht
    have hset : chosenSum vals (s.vfIncluded.set i true) = s.nTotal + vals.getD i 0 := by
      rw [chosenSum_set hi hb true, hf, hs.total]; simp
    have hunset : chosenSum vals ((s.vfIncluded.set i true).set i false) = s.nTotal := by
      rw [chosenSum_set hi (by simpa using hb) false, getD_set_self hb, hset]; simp
  · exact ⟨by simp [hs.included_length], by dsimp only; rw [hunset]; omega,
      by simp [hs.included_length], hset, hr⟩
  · exact ⟨by simp [hs.included_length], by dsimp only; rw [hunset]; omega, hs.best_length, hs.best,
      hs.reaches⟩
  · exact ⟨by simp [hs.included_length], hset, hs.best_length, hs.best, hs.reaches⟩

/-- In a random pass every flag from the current index on is still clear. -/
def FreeFrom (s : SubsetTrial) (i : Nat) : Prop := ∀ j, i ≤ j → s.vfIncluded.getD j false = false

theorem FreeFrom.visit {s : SubsetTrial} {i : Nat} (h : s.FreeFrom i) (take : Bool) (v : Int) :
    (s.visit target take i v).FreeFrom (i + 1) := by
  intro j hj
  have hne : i ≠ j := by omega
  unfold SubsetTrial.visit
  split_ifs <;> simp only [getD_set_ne hne, h j (by omega)]

theorem visit_nBest_le (s : SubsetTrial) (target : Int) (take : Bool) (i : Nat) (v : Int) :
    (s.visit target take i v).nBest ≤ s.nBest := by
  unfold SubsetTrial.visit
  split_ifs <;> (try dsimp only) <;> omega

def passTrace (nTargetValue : Int) (nPass : Nat) (bit : Nat → Bool) :
    Nat → List Int → SubsetTrial → List SubsetTrial
  | _, [], _ => []
  | i, v :: vs, s =>
    let s' := s.visit nTargetValue (if nPass = 0 then bit i else !s.vfIncluded.getD i false) i v
    s' :: passTrace nTargetValue nPass bit (i + 1) vs s'

theorem pass_mem_passTrace (nPass : Nat) (bit : Nat → Bool) :
    ∀ (i : Nat) (vs : List Int) (s : SubsetTrial),
      s.pass target nPass bit i vs ∈ s :: s.passTrace target nPass bit i vs
  | _, [], s => List.mem_singleton_self s
  | i, _ :: vs, _ => List.mem_cons_of_mem _ (pass_mem_passTrace nPass bit (i + 1) vs _)

theorem passTrace_chain (nPass : Nat) (bit : Nat → Bool) :
    ∀ (i : Nat) (vs : List Int) (s : SubsetTrial) (l : List Int),
      List.Chain (· ≥ ·) (s.pass target nPass bit i vs).nBest l →
        List.Chain (· ≥ ·) s.nBest ((s.passTrace target nPass bit i vs).map nBest ++ l)
  | _, [], _, _, h => h
  | i, _ :: vs, s, l, h => .cons (visit_nBest_le s _ _ _ _) (passTrace_chain nPass bit (i + 1) vs _ l h)

theorem Valid.trace (nPass : Nat) (bit : Nat → Bool) :
    ∀ (vs : List Int) (i : Nat) (s : SubsetTrial), s.Valid vals target → vs = vals.drop i →
      (nPass = 0 → s.FreeFrom i) → ∀ t ∈ s :: s.passTrace target nPass bit i vs, t.Valid vals target
  | [], _, _, hs, _, _, _, ht => by rw [List.mem_singleton.mp ht]; exact hs
  | v :: vs, i, s, hs, hd, hfree, t, ht => by
    have hi : i < vals.length := by
      by_contra hc
      rw [List.drop_eq_nil_of_le (by omega)] at hd
      cases hd
    have hv : v = vals.getD i 0 := by
      rw [List.drop_eq_getElem_cons hi] at hd
      simp [List.getD_eq_getElem?_getD, (List.cons.inj hd).1, List.getElem?_eq_getElem hi]
    have htl : vs = vals.drop (i + 1) := by
      rw [List.drop_eq_getElem_cons hi] at hd
      exact (List.cons.inj hd).2
    subst hv
    rcases List.mem_cons.mp ht with rfl | ht
    · exact hs
    refine Valid.trace nPass bit vs (i + 1) _ (hs.visit hi fun ht => ?_) htl (fun h0 => (hfree h0).visit _ _) t ht
    split_ifs at ht with h0
    · exact hfree h0 i (Nat.le_refl i)
    · simpa using ht

end SubsetTrial

theorem SubsetTrial.trial_valid {vals : List Int} {target : Int} {s₀ : SubsetTrial}
    (h₀ : s₀.Valid vals target) (hfree : s₀.FreeFrom 0) (bit bits : Nat → Bool) :
    (if (s₀.pass target 0 bit 0 vals).fReachedTarget then s₀.pass target 0 bit 0 vals
      else (s₀.pass target 0 bit 0 vals).pass target 1 bits 0 vals).Valid vals target := by
  have h₁ := h₀.trace 0 bit vals 0 s₀ rfl (fun _ => hfree) _ (pass_mem_passTrace 0 bit 0 vals s₀)
  split_ifs
  · exact h₁
  · exact h₁.trace 1 bits vals 0 _ rfl (fun h => absurd h (by decide)) _ (pass_mem_passTrace 1 bits 0 vals _)

theorem subsetTrials_valid {vals : List Int} {target : Int} (bits : Nat → Bool) :
    ∀ (k nRep : Nat) (best : List Bool × Int), best.1.length = vals.length →
      chosenSum vals best.1 = best.2 → target ≤ best.2 →
      let r := subsetTrials vals target bits k nRep best
      r.1.length = vals.length ∧ chosenSum vals r.1 = r.2 ∧ target ≤ r.2
  | 0, _, _, hl, hs, ht => ⟨hl, hs, ht⟩
  | k + 1, nRep, best, hl, hs, ht => by
    by_cases hb : best.2 = target
    · simp only [subsetTrials, if_pos hb]; exact ⟨hl, hs, ht⟩
    · simp only [subsetTrials, if_neg hb]
      have h₂ := @SubsetTrial.trial_valid vals target ⟨List.replicate vals.length false, 0, false, best.1, best.2⟩
        ⟨List.length_replicate _ _, chosenSum_replicate_false _ _, hl, hs, ht⟩
        (fun j _ => by rw [List.getD_eq_getElem?_getD, List.getElem?_replicate]; split <;> rfl)
        (fun i => bits (nRep * vals.length + i)) bits
      exact subsetTrials_valid bits k (nRep + 1) _ h₂.best_length h₂.best h₂.reaches

theorem approximateBestSubset_valid {vals : List Int} {nTotalLower target : Int} (bits : Nat → Bool)
    (iterations : Nat) (hsum : vals.sum = nTotalLower) (ht : target ≤ nTotalLower) :
    let r := approximateBestSubset vals nTotalLower target bits iterations
    r.1.length = vals.length ∧ chosenSum vals r.1 = r.2 ∧ target ≤ r.2 :=
  subsetTrials_valid bits iterations 0 _ (List.length_replicate _ _)
    (by rw [chosenSum_replicate_true, hsum]) ht

def subsetTrialsTrace (vValue : List Int) (nTargetValue : Int) (bits : Nat → Bool) :
    Nat → Nat → List Bool × Int → List SubsetTrial
  | 0, _, _ => []
  | k + 1, nRep, best =>
    if best.2 = nTargetValue then []
    else
      let s₀ : SubsetTrial := ⟨List.replicate vValue.length false, 0, false, best.1, best.2⟩
      let bit := fun i => bits (nRep * vValue.length + i)
      let s₁ := s₀.pass nTargetValue 0 bit 0 vValue
      let s₂ := if s₁.fReachedTarget then s₁ else s₁.pass nTargetValue 1 bits 0 vValue
      s₀ :: s₀.passTrace nTargetValue 0 bit 0 vValue ++
        (if s₁.fReachedTarget then [] else s₁.passTrace nTargetValue 1 bits 0 vValue) ++
        subsetTrialsTrace vValue nTargetValue bits k (nRep + 1) (s₂.vfBest, s₂.nBest)

section Trials

variable {vals : List Int} {target : Int} (bits : Nat → Bool)

theorem trialStart_valid {best : List Bool × Int} (hl : best.1.length = vals.length)
    (hs : chosenSum vals best.1 = best.2) (ht : target ≤ best.2) :
    SubsetTrial.Valid vals target ⟨List.replicate vals.length false, 0, false, best.1, best.2⟩ ∧
      SubsetTrial.FreeFrom ⟨List.replicate vals.length false, 0, false, best.1, best.2⟩ 0 :=
  ⟨⟨List.length_replicate _ _, chosenSum_replicate_false _ _, hl, hs, ht⟩,
    fun j _ => by rw [List.getD_eq_getElem?_getD, List.getElem?_replicate]; split <;> rfl⟩

theorem subsetTrialsTrace_valid : ∀ (k nRep : Nat) (best : List Bool × Int), best.1.length = vals.length →
    chosenSum vals best.1 = best.2 → target ≤ best.2 →
      ∀ t ∈ subsetTrialsTrace vals target bits k nRep best, t.Valid vals target
  | 0, _, _, _, _, _, _, ht => by cases ht
  | k + 1, nRep, best, hl, hs, ht, t, hmem => by
    by_cases hb : best.2 = target
    · simp [subsetTrialsTrace, hb] at hmem
    simp only [subsetTrialsTrace, if_neg hb] at hmem
    obtain ⟨h₀, hfree⟩ := trialStart_valid hl hs ht
    have h₁ := h₀.trace 0 (fun i => bits (nRep * vals.length + i)) vals 0 _ rfl (fun _ => hfree)
    have h₂ := SubsetTrial.trial_valid h₀ hfree (fun i => bits (nRep * vals.length + i)) bits
    rcases List.mem_append.mp hmem with hmem | hmem
    · rcases List.mem_append.mp hmem with hmem | hmem
      · exact h₁ t hmem
      · split_ifs at hmem
        · cases hmem
        · exact (h₁ _ (SubsetTrial.pass_mem_passTrace 0 _ 0 vals _)).trace 1 bits vals 0 _ rfl
            (fun h => absurd h (by decide)) t (List.mem_cons_of_mem _ hmem)
    · exact subsetTrialsTrace_valid k (nRep + 1) _ h₂.best_length h₂.best h₂.reaches t hmem

theorem subsetTrialsTrace_chain : ∀ (k nRep : Nat) (best : List Bool × Int) (l : List Int),
    List.Chain (· ≥ ·) (subsetTrials vals target bits k nRep best).2 l →
      List.Chain (· ≥ ·) best.2 ((subsetTrialsTrace vals target bits k nRep best).map SubsetTrial.nBest ++ l)
  | 0, _, _, _, h => h
  | k + 1, nRep, best, l, h => by
    by_cases hb : best.2 = target
    · simpa [subsetTrials, subsetTrialsTrace, hb] using h
    simp only [subsetTrials, if_neg hb] at h
    simp only [subsetTrialsTrace, if_neg hb, List.map_append, List.map_cons, List.cons_append,
      List.append_assoc]
    refine .cons (le_refl _) (SubsetTrial.passTrace_chain 0 _ 0 vals
      ⟨List.replicate vals.length false, 0, false, best.1, best.2⟩ _ ?_)
    have ih := subsetTrialsTrace_chain k (nRep + 1) _ l h
    split_ifs at ih ⊢
    · simpa using ih
    · exact SubsetTrial.passTrace_chain 1 bits 0 vals _ _ ih

/-- The loop invariant of ApproximateBestSubset: the totals track the flags, and nBest never
increases. -/
theorem approximateBestSubset_invariant {nTotalLower : Int} (iterations : Nat)
    (hsum : vals.sum = nTotalLower) (ht : target ≤ nTotalLower) :
    (∀ t ∈ subsetTrialsTrace vals target bits iterations 0 (List.replicate vals.length true, nTotalLower),
      t.Valid vals target ∧ t.nBest ≤ nTotalLower) ∧
    List.Chain (· ≥ ·) nTotalLower
      ((subsetTrialsTrace vals target bits iterations 0 (List.replicate vals.length true, nTotalLower)).map
        SubsetTrial.nBest ++ [(approximateBestSubset vals nTotalLower target bits iterations).2]) := by
  have hchain := @subsetTrialsTrace_chain vals target bits iterations 0 (List.replicate vals.length true, nTotalLower)
    _ (.cons (le_refl _) .nil)
  refine ⟨fun t hmem => ⟨subsetTrialsTrace_valid bits iterations 0 _ (List.length_replicate _ _)
    (by rw [chosenSum_replicate_true, hsum]) ht t hmem, ?_⟩, hchain⟩
  have hpw := List.pairwise_cons.mp (List.chain_iff_pairwise.mp hchain)
  exact hpw.1 _ (List.mem_append_left _ (List.mem_map_of_mem _ hmem))

end Trials

theorem approximateBestSubset_invariant_threeOne :
    ([3, 1] : List Int).sum = 4 ∧ (2 : Int) ≤ 4 ∧
      ((∀ t ∈ subsetTrialsTrace [3, 1] 2 (fun _ => true) 1000 0 (List.replicate 2 true, 4),
        t.Valid [3, 1] 2 ∧ t.nBest ≤ 4) ∧
      List.Chain (· ≥ ·) 4
        ((subsetTrialsTrace [3, 1] 2 (fun _ => true) 1000 0 (List.replicate 2 true, 4)).map SubsetTrial.nBest ++
          [(approximateBestSubset [3, 1] 4 2 (fun _ => true) 1000).2])) :=
  ⟨by decide, by decide, approximateBestSubset_invariant (fun _ => true) 1000 (by decide) (by decide)⟩

theorem bestSubset_valid {vals : List Int} {nTotalLower target : Int} (rng : SelectRng)
    (hsum : vals.sum = nTotalLower) (ht : target ≤ nTotalLower) :
    let r := bestSubset vals nTotalLower target rng
    chosenSum vals r.1 = r.2 ∧ min target (wrapInt64 (target + CENT)) ≤ r.2 := by
  unfold bestSubset
  dsimp only
  split_ifs with hsecond
  · obtain ⟨-, hs, ht'⟩ := approximateBestSubset_valid rng.bits₂ 1000 hsum hsecond.2
    exact ⟨hs, min_le_of_right_le ht'⟩
  · obtain ⟨-, hs, ht'⟩ := approximateBestSubset_valid rng.bits₁ 1000 hsum ht
    exact ⟨hs, min_le_of_left_le ht'⟩

end GridcoinWallet
