import GridcoinWallet.Ledger.Update
import Mathlib.Algebra.BigOperators.Group.List

namespace GridcoinWallet

/-- Modelled from the spec: the index's verdict on output `n`, read from CTxIndex::vSpent. -/
def indexSpent (vSpent : List Bool) (n : Nat) : Bool := vSpent.getD n false

section Outputs

variable (N : Node) (vSpent : List Bool) (fCheckOnly : Bool)

/-- The loop of FixSpentCoins over the outputs of one record `pcoin`, from output `n` on. -/
def fixOutputs : WalletTx → Nat → List TxOut → Nat → Int → WalletTx × Nat × Int
  | pcoin, _, [], nMismatchFound, nBalanceInQuestion => (pcoin, nMismatchFound, nBalanceInQuestion)
  | pcoin, n, out :: outs, nMismatchFound, nBalanceInQuestion =>
    if N.isMine out.scriptPubKey && pcoin.isSpent n && !indexSpent vSpent n then
      fixOutputs (if fCheckOnly then pcoin else pcoin.setSpent n false) (n + 1) outs
        (nMismatchFound + 1) (nBalanceInQuestion + out.nValue)
    else if N.isMine out.scriptPubKey && !pcoin.isSpent n && indexSpent vSpent n then
      fixOutputs (if fCheckOnly then pcoin else pcoin.setSpent n true) (n + 1) outs
        (nMismatchFound + 1) (nBalanceInQuestion + out.nValue)
    else fixOutputs pcoin (n + 1) outs nMismatchFound nBalanceInQuestion

def mismatchesFrom (w : WalletTx) (n : Nat) (outs : List TxOut) : List (Nat × TxOut) :=
  (outs.enumFrom n).filter fun p => N.isMine p.2.scriptPubKey && (w.isSpent p.1 != indexSpent vSpent p.1)

theorem fixOutputs_cons (pcoin : WalletTx) (n : Nat) (out : TxOut) (outs : List TxOut) (m : Nat) (b : Int) :
    fixOutputs N vSpent fCheckOnly pcoin n (out :: outs) m b =
      if N.isMine out.scriptPubKey && (pcoin.isSpent n != indexSpent vSpent n) then
        fixOutputs N vSpent fCheckOnly (if fCheckOnly then pcoin else pcoin.setSpent n (indexSpent vSpent n))
          (n + 1) outs (m + 1) (b + out.nValue)
      else fixOutputs N vSpent fCheckOnly pcoin (n + 1) outs m b := by
  simp only [fixOutputs]
  cases N.isMine out.scriptPubKey <;> cases pcoin.isSpent n <;> cases indexSpent vSpent n <;> rfl

theorem vout_ite_setSpent (pcoin : WalletTx) (n : Nat) (v : Bool) :
    (if fCheckOnly then pcoin else pcoin.setSpent n v).vout = pcoin.vout := by
  split <;> rfl

theorem isSpent_ite_setSpent {pcoin : WalletTx} {n j : Nat} (v : Bool) (hj : j < pcoin.vout.length) :
    (if fCheckOnly then pcoin else pcoin.setSpent n v).isSpent j =
      if fCheckOnly = false ∧ j = n then v else pcoin.isSpent j := by
  cases fCheckOnly
  · simp [WalletTx.isSpent_setSpent v hj]
  · simp

theorem fixOutputs_counts {w : WalletTx} :
    ∀ {outs : List TxOut} {pcoin : WalletTx} {n m : Nat} {b : Int},
      n + outs.length ≤ pcoin.vout.length →
      (∀ j, n ≤ j → j < n + outs.length → pcoin.isSpent j = w.isSpent j) →
      (fixOutputs N vSpent fCheckOnly pcoin n outs m b).2 =
        (m + (mismatchesFrom N vSpent w n outs).length,
          b + ((mismatchesFrom N vSpent w n outs).map fun p => p.2.nValue).sum)
  | [], _, _, _, _, _, _ => by simp [fixOutputs, mismatchesFrom]
  | out :: outs, pcoin, n, m, b, hlen, hagree => by
    have hn := hagree n le_rfl (by simp)
    have hlen' : n + 1 + outs.length ≤ (if fCheckOnly then pcoin else pcoin.setSpent n (indexSpent vSpent n)).vout.length := by
      rw [vout_ite_setSpent]; simp only [List.length_cons] at hlen; omega
    have hagree' : ∀ j, n + 1 ≤ j → j < n + 1 + outs.length →
        (if fCheckOnly then pcoin else pcoin.setSpent n (indexSpent vSpent n)).isSpent j = w.isSpent j := by
      intro j hj hj'
      rw [isSpent_ite_setSpent fCheckOnly _ (by simp only [List.length_cons] at hlen; omega), if_neg (by omega)]
      exact hagree j (by omega) (by simp only [List.length_cons]; omega)
    have hrest := @fixOutputs_counts w outs pcoin (n + 1)
    simp only [mismatchesFrom, List.enumFrom_cons, List.filter_cons, fixOutputs_cons, hn] at hrest ⊢
    by_cases hc : (N.isMine out.scriptPubKey && (w.isSpent n != indexSpent vSpent n)) = true
    · simp only [hc, ↓reduceIte, fixOutputs_counts hlen' hagree', mismatchesFrom, List.length_cons, List.map_cons,
        List.sum_cons, Prod.mk.injEq]
      exact ⟨by omega, by omega⟩
    · simp only [hc, Bool.false_eq_true, ↓reduceIte]
      exact hrest (by simp only [List.length_cons] at hlen; omega)
        fun j hj hj' => hagree j (by omega) (by simp only [List.length_cons]; omega)

theorem fixOutputs_fst : ∀ {outs : List TxOut} {pcoin : WalletTx} {n m : Nat} {b : Int},
    (fixOutputs N vSpent fCheckOnly pcoin n outs m b).1 = (fixOutputs N vSpent fCheckOnly pcoin n outs 0 0).1
  | [], _, _, _, _ => rfl
  | out :: outs, pcoin, n, m, b => by
    simp only [fixOutputs_cons]
    split_ifs <;> exact (fixOutputs_fst).trans fixOutputs_fst.symm

theorem owns_of_drop {w : WalletTx} {n : Nat} {out : TxOut} {outs : List TxOut}
    (h : w.vout.drop n = out :: outs) :
    w.owns N n = N.isMine out.scriptPubKey ∧ n < w.vout.length ∧ w.vout.drop (n + 1) = outs := by
  have hn : n < w.vout.length := by
    refine Nat.lt_of_not_le fun hge => ?_
    rw [List.drop_eq_nil_of_le hge] at h
    cases h
  rw [List.drop_eq_getElem_cons hn] at h
  obtain ⟨rfl, rfl⟩ := List.cons.inj h
  exact ⟨by simp [WalletTx.owns, List.getElem?_eq_getElem hn], hn, rfl⟩

theorem fixOutputs_record {w : WalletTx} :
    ∀ {outs : List TxOut} {pcoin : WalletTx} {n m : Nat} {b : Int},
      w.vout.drop n = outs → { pcoin with vfSpent := w.vfSpent } = w →
      (∀ j, n ≤ j → j < w.vout.length → pcoin.isSpent j = w.isSpent j) →
      let r := (fixOutputs N vSpent fCheckOnly pcoin n outs m b).1
      { r with vfSpent := w.vfSpent } = w ∧
        ((fCheckOnly = true ∨ mismatchesFrom N vSpent w n outs = []) → r = pcoin) ∧
        ∀ j < w.vout.length, r.isSpent j =
          if fCheckOnly = false ∧ n ≤ j ∧ w.owns N j = true then indexSpent vSpent j else pcoin.isSpent j
  | [], pcoin, n, _, _, houts, hframe, _ => by
    refine ⟨hframe, fun _ => rfl, fun j hj => ?_⟩
    have : w.vout.length ≤ n := List.drop_eq_nil_iff.mp houts
    rw [if_neg (by omega)]
    rfl
  | out :: outs, pcoin, n, m, b, houts, hframe, hagree => by
    obtain ⟨hown, hn, hdrop⟩ := owns_of_drop N houts
    have hvout : pcoin.vout = w.vout := by rw [← hframe]
    have hspent := hagree n le_rfl hn
    dsimp only
    rw [fixOutputs_cons, hspent]
    by_cases hc : (N.isMine out.scriptPubKey && (w.isSpent n != indexSpent vSpent n)) = true
    · rw [if_pos hc]
      have hframe' : { (if fCheckOnly then pcoin else pcoin.setSpent n (indexSpent vSpent n)) with
          vfSpent := w.vfSpent } = w := by split <;> exact hframe
      have hagree' : ∀ j, n + 1 ≤ j → j < w.vout.length →
          (if fCheckOnly then pcoin else pcoin.setSpent n (indexSpent vSpent n)).isSpent j = w.isSpent j := by
        intro j hj hj'
        rw [isSpent_ite_setSpent fCheckOnly _ (hvout ▸ hj'), if_neg (by omega)]
        exact hagree j (by omega) hj'
      obtain ⟨hf, hsame, hflags⟩ := fixOutputs_record (m := m + 1) (b := b + out.nValue) hdrop hframe' hagree'
      refine ⟨hf, fun hcase => ?_, fun j hj => ?_⟩
      · rcases hcase with hcheck | hnil
        · rw [hsame (Or.inl hcheck), hcheck, if_pos rfl]
        · simp only [mismatchesFrom, List.enumFrom_cons, List.filter_cons, hc, if_true, reduceCtorEq] at hnil
      · rw [hflags j hj, isSpent_ite_setSpent fCheckOnly _ (hvout ▸ hj)]
        simp only [Bool.and_eq_true, bne_iff_ne] at hc
        by_cases hjn : j = n
        · subst hjn
          cases fCheckOnly <;> simp [hown, hc.1]
        · by_cases hle : n + 1 ≤ j <;> simp [hjn, hle, show n ≤ j ↔ n + 1 ≤ j by omega]
    · rw [if_neg hc]
      obtain ⟨hf, hsame, hflags⟩ := fixOutputs_record (m := m) (b := b) hdrop hframe
        fun j hj hj' => hagree j (by omega) hj'
      refine ⟨hf, fun hcase => hsame ?_, fun j hj => ?_⟩
      · simpa only [mismatchesFrom, List.enumFrom_cons, List.filter_cons, hc, if_false] using hcase
      · rw [hflags j hj]
        by_cases hjn : j = n
        · subst hjn
          simp only [Bool.and_eq_true, bne_iff_ne, not_and, ne_eq, not_not] at hc
          by_cases hmine : N.isMine out.scriptPubKey = true
          · simp [hown, hmine, ← hc hmine, hspent]
          · simp [hown, hmine]
        · simp [hjn, show n ≤ j ↔ n + 1 ≤ j by omega]

end Outputs

section Records

variable (N : Node) (index : Nat → Option (List Bool)) (fCheckOnly : Bool)

/-- One record of FixSpentCoins: skipped when ReadTxIndex finds no entry for its hash, else the loop
over its outputs against that entry. -/
def fixRecord (pcoin : WalletTx) (nMismatchFound : Nat) (nBalanceInQuestion : Int) : WalletTx × Nat × Int :=
  match index (N.getHash pcoin.toTx) with
  | none => (pcoin, nMismatchFound, nBalanceInQuestion)
  | some vSpent => fixOutputs N vSpent fCheckOnly pcoin 0 pcoin.vout nMismatchFound nBalanceInQuestion

def recordMismatches (w : WalletTx) : List (Nat × TxOut) :=
  match index (N.getHash w.toTx) with
  | none => []
  | some vSpent => mismatchesFrom N vSpent w 0 w.vout

def indexedFlag (w : WalletTx) (j : Nat) : Bool :=
  match index (N.getHash w.toTx) with
  | some vSpent => if w.owns N j then indexSpent vSpent j else w.isSpent j
  | none => w.isSpent j

theorem fixRecord_spec (w : WalletTx) (m : Nat) (b : Int) :
    let r := fixRecord N index fCheckOnly w m b
    r.2 = (m + (recordMismatches N index w).length,
        b + ((recordMismatches N index w).map fun p => p.2.nValue).sum) ∧
      r.1 = (fixRecord N index fCheckOnly w 0 0).1 ∧
      { r.1 with vfSpent := w.vfSpent } = w ∧
      ((fCheckOnly = true ∨ recordMismatches N index w = []) → r.1 = w) ∧
      (fCheckOnly = false → ∀ j < w.vout.length, r.1.isSpent j = indexedFlag N index w j) := by
  cases hidx : index (N.getHash w.toTx) with
  | none =>
    simp [fixRecord, recordMismatches, indexedFlag, hidx]
  | some vSpent =>
    simp only [fixRecord, recordMismatches, indexedFlag, hidx]
    obtain ⟨hf, hsame, hflags⟩ :=
      @fixOutputs_record N vSpent fCheckOnly w w.vout w 0 m b (List.drop_zero _) rfl fun _ _ _ => rfl
    refine ⟨@fixOutputs_counts N vSpent fCheckOnly w w.vout w 0 m b (by simp) fun _ _ _ => rfl,
      fixOutputs_fst N vSpent fCheckOnly, hf, hsame, fun hc j hj => ?_⟩
    rw [hflags j hj, hc]
    simp

theorem recordMismatches_fixRecord (w : WalletTx) :
    recordMismatches N index (fixRecord N index false w 0 0).1 = [] := by
  obtain ⟨-, -, hframe, -, hflags⟩ := fixRecord_spec N index false w 0 0
  set r := (fixRecord N index false w 0 0).1
  have htx : r.toTx = w.toTx := by rw [← hframe]
  have hvout : r.vout = w.vout := by rw [← hframe]
  unfold recordMismatches
  rw [htx]
  split
  · rfl
  · rename_i vSpent hidx
    refine List.filter_eq_nil_iff.mpr fun p hmem => ?_
    obtain ⟨j, o⟩ := p
    obtain ⟨-, hj, ho⟩ := List.mem_enumFrom hmem
    simp only [Nat.zero_add, Nat.sub_zero] at hj ho
    have hown : w.owns N j = N.isMine o.scriptPubKey := by
      simp [WalletTx.owns, ho, List.getElem?_eq_getElem hj]
    rw [hflags rfl j hj]
    simp only [indexedFlag, hidx, hown]
    cases N.isMine o.scriptPubKey <;> simp

/-- The loop of FixSpentCoins over the records of mapWallet, in map order. -/
def fixEntries : List (Nat × WalletTx) → Nat → Int → List (Nat × WalletTx) × Nat × Int
  | [], nMismatchFound, nBalanceInQuestion => ([], nMismatchFound, nBalanceInQuestion)
  | (k, pcoin) :: es, nMismatchFound, nBalanceInQuestion =>
    let f := fixRecord N index fCheckOnly pcoin nMismatchFound nBalanceInQuestion
    let r := fixEntries es f.2.1 f.2.2
    ((k, f.1) :: r.1, r.2)

def entryMismatches (es : List (Nat × WalletTx)) : List (Nat × Nat × TxOut) :=
  es.flatMap fun e => (recordMismatches N index e.2).map fun p => (e.1, p)

theorem fixEntries_spec : ∀ (es : List (Nat × WalletTx)) (m : Nat) (b : Int),
    (fixEntries N index fCheckOnly es m b).1 = es.map (fun e => (e.1, (fixRecord N index fCheckOnly e.2 0 0).1)) ∧
      (fixEntries N index fCheckOnly es m b).2 = (m + (entryMismatches N index es).length,
        b + ((entryMismatches N index es).map fun x => x.2.2.nValue).sum)
  | [], m, b => by simp [fixEntries, entryMismatches]
  | (k, w) :: es, m, b => by
    obtain ⟨hc, hfst, -⟩ := fixRecord_spec N index fCheckOnly w m b
    obtain ⟨ih₁, ih₂⟩ := fixEntries_spec es (m + (recordMismatches N index w).length)
      (b + ((recordMismatches N index w).map fun p => p.2.nValue).sum)
    simp only [fixEntries, ih₁, ih₂, hc, hfst, List.map_cons, entryMismatches, List.flatMap_cons,
      List.length_append, List.length_map, List.map_append, List.map_map, List.sum_append, true_and]
    simp only [Prod.mk.injEq, Function.comp_def]
    exact ⟨by omega, by omega⟩

/-- CWallet::FixSpentCoins: the ledger after the loop, nMismatchFound and nBalanceInQuestion. -/
def fixSpentCoins (L : Ledger) : Ledger × Nat × Int :=
  let r := fixEntries N index fCheckOnly L.mapWallet.entries 0 0
  ({ L with mapWallet := ⟨r.1, by
      rw [(fixEntries_spec N index fCheckOnly _ 0 0).1]
      exact (L.mapWallet.map fun w => (fixRecord N index fCheckOnly w 0 0).1).sorted⟩ }, r.2)

def Ledger.mismatches (L : Ledger) : List (Nat × Nat × TxOut) := entryMismatches N index L.mapWallet.entries

theorem fixSpentCoins_counts (L : Ledger) :
    (fixSpentCoins N index fCheckOnly L).2 =
      ((L.mismatches N index).length, ((L.mismatches N index).map fun x => x.2.2.nValue).sum) := by
  simp [fixSpentCoins, Ledger.mismatches, (fixEntries_spec N index fCheckOnly _ 0 0).2]

theorem fixSpentCoins_ledger (L : Ledger) :
    (fixSpentCoins N index fCheckOnly L).1 =
      { L with mapWallet := L.mapWallet.map fun w => (fixRecord N index fCheckOnly w 0 0).1 } := by
  simp only [fixSpentCoins]
  congr 1
  exact StdMap.ext (fixEntries_spec N index fCheckOnly _ 0 0).1

end Records

section Reconcile

variable (N : Node) (index : Nat → Option (List Bool))

theorem fixSpentCoins_checkOnly (L : Ledger) : (fixSpentCoins N index true L).1 = L := by
  have hsame : L.mapWallet.map (fun w => (fixRecord N index true w 0 0).1) = L.mapWallet := by
    refine StdMap.ext ?_
    conv_rhs => rw [← List.map_id L.mapWallet.entries]
    exact List.map_congr_left fun e _ => by
      simp only [id, (fixRecord_spec N index true e.2 0 0).2.2.2.1 (Or.inl rfl)]
  rw [fixSpentCoins_ledger, hsame]

theorem fixSpentCoins_repairs (L : Ledger) {k : Nat} {w : WalletTx} (h : L.mapWallet.find? k = some w) :
    ∃ w', (fixSpentCoins N index false L).1.mapWallet.find? k = some w' ∧
      { w' with vfSpent := w.vfSpent } = w ∧ (recordMismatches N index w = [] → w' = w) ∧
      ∀ j < w.vout.length, w'.isSpent j = indexedFlag N index w j := by
  obtain ⟨-, -, hframe, hsame, hflags⟩ := fixRecord_spec N index false w 0 0
  refine ⟨_, ?_, hframe, fun hnil => hsame (Or.inr hnil), hflags rfl⟩
  rw [fixSpentCoins_ledger]
  simp [h]

theorem mismatches_fixSpentCoins (L : Ledger) :
    ((fixSpentCoins N index false L).1).mismatches N index = [] := by
  rw [fixSpentCoins_ledger]
  refine List.flatMap_eq_nil_iff.mpr fun e he => ?_
  obtain ⟨e, -, rfl⟩ := List.mem_map.mp he
  simp [recordMismatches_fixRecord]

theorem fixSpentCoins_exact (L : Ledger) :
    let mis := L.mismatches N index
    let L' := (fixSpentCoins N index false L).1
    (∀ fCheckOnly, (fixSpentCoins N index fCheckOnly L).2 = (mis.length, (mis.map fun x => x.2.2.nValue).sum)) ∧
      (∀ k w, L.mapWallet.find? k = some w → ∃ w', L'.mapWallet.find? k = some w' ∧
        { w' with vfSpent := w.vfSpent } = w ∧ (recordMismatches N index w = [] → w' = w) ∧
        ∀ j < w.vout.length, w'.isSpent j = indexedFlag N index w j) ∧
      (∀ k, (L'.mapWallet.find? k).isSome = (L.mapWallet.find? k).isSome) ∧
      L'.nOrderPosNext = L.nOrderPosNext ∧ L'.fFileBacked = L.fFileBacked ∧
      (fixSpentCoins N index true L).1 = L ∧
      ∀ fCheckOnly, (fixSpentCoins N index fCheckOnly L').2 = (0, 0) := by
  refine ⟨fun c => fixSpentCoins_counts N index c L, fun k w h => fixSpentCoins_repairs N index L h,
    fun k => ?_, ?_, ?_, fixSpentCoins_checkOnly N index L, fun c => ?_⟩
  · rw [fixSpentCoins_ledger]
    cases h : L.mapWallet.find? k <;> simp [h]
  · rw [fixSpentCoins_ledger]
  · rw [fixSpentCoins_ledger]
  · rw [fixSpentCoins_counts, mismatches_fixSpentCoins]
    rfl

end Reconcile

end GridcoinWallet
