import GridcoinWallet.Ledger.Update

namespace GridcoinWallet

/-- The empty record at order position -1 that CommitTransaction's `mapWallet[hash]` leaves. -/
def WalletTx.IsPlaceholder (w : WalletTx) : Prop := w.nOrderPos = -1 ∧ w.vin = [] ∧ w.vout = []

namespace Ledger

/-- CWallet::IncOrderPosNext: the position handed out, and the ledger with the counter moved past
it. -/
def incOrderPosNext (L : Ledger) : Int × Ledger :=
  (L.nOrderPosNext, { L with nOrderPosNext := L.nOrderPosNext + 1 })

@[simp] theorem nOrderPosNext_setRecord (L : Ledger) (k : Nat) (w : WalletTx) :
    (L.setRecord k w).nOrderPosNext = L.nOrderPosNext := rfl

variable (N : Node)

theorem storeRecord_of_none {L : Ledger} {wtxIn : WalletTx} (nNow : Int)
    (h : L.mapWallet.find? (N.getHash wtxIn.toTx) = none) :
    storeRecord N L wtxIn nNow = (incOrderPosNext L).2.setRecord (N.getHash wtxIn.toTx)
      { wtxIn with nTimeReceived := nNow, nOrderPos := (incOrderPosNext L).1 } := by
  simp only [storeRecord, storedRecord_of_none N nNow h, h, if_true]
  rfl

/-- Every record of L' is a record of L under the same key, with the same transaction and order
position, or a placeholder; the order counter is unchanged. -/
def KeepsOrder (L L' : Ledger) : Prop :=
  L'.nOrderPosNext = L.nOrderPosNext ∧ ∀ k w', L'.mapWallet.find? k = some w' →
    w'.IsPlaceholder ∨ ∃ w, L.mapWallet.find? k = some w ∧ w'.toTx = w.toTx ∧ w'.nOrderPos = w.nOrderPos

theorem KeepsOrder.refl (L : Ledger) : KeepsOrder L L :=
  ⟨rfl, fun _ w hw => Or.inr ⟨w, hw, rfl, rfl⟩⟩

theorem KeepsOrder.trans {L₁ L₂ L₃ : Ledger} (h₁ : KeepsOrder L₁ L₂) (h₂ : KeepsOrder L₂ L₃) :
    KeepsOrder L₁ L₃ := by
  refine ⟨h₂.1.trans h₁.1, fun k w₃ hw₃ => ?_⟩
  rcases h₂.2 k w₃ hw₃ with hp | ⟨w₂, hw₂, ht₂, hp₂⟩
  · exact Or.inl hp
  rcases h₁.2 k w₂ hw₂ with ⟨hp, hi, ho⟩ | ⟨w₁, hw₁, ht₁, hp₁⟩
  · exact Or.inl ⟨hp₂.trans hp, (congrArg Tx.vin ht₂).trans hi, (congrArg Tx.vout ht₂).trans ho⟩
  · exact Or.inr ⟨w₁, hw₁, ht₂.trans ht₁, hp₂.trans hp₁⟩

theorem keepsOrder_setRecord {L : Ledger} {k : Nat} {w w' : WalletTx} (hw : L.mapWallet.find? k = some w)
    (ht : w'.toTx = w.toTx) (hp : w'.nOrderPos = w.nOrderPos) : KeepsOrder L (L.setRecord k w') := by
  refine ⟨rfl, fun k' w₁ hw₁ => Or.inr ?_⟩
  rw [find?_setRecord] at hw₁
  split_ifs at hw₁ with hk
  · cases hw₁; subst hk; exact ⟨w, hw, ht, hp⟩
  · exact ⟨w₁, hw₁, rfl, rfl⟩

theorem keepsOrder_setPlaceholder {L : Ledger} {k : Nat} {w : WalletTx} (hw : w.IsPlaceholder) :
    KeepsOrder L (L.setRecord k w) := by
  refine ⟨rfl, fun k' w₁ hw₁ => ?_⟩
  rw [find?_setRecord] at hw₁
  split_ifs at hw₁
  · cases hw₁; exact Or.inl hw
  · exact Or.inr ⟨w₁, hw₁, rfl, rfl⟩

theorem keepsOrder_markSpentInput (L : Ledger) (txin : OutPoint) : KeepsOrder L (markSpentInput N L txin) := by
  unfold markSpentInput
  split
  next wtx hw =>
    split
    · split_ifs
      · exact keepsOrder_setRecord hw rfl rfl
      · exact KeepsOrder.refl L
    · exact KeepsOrder.refl L
  next => exact KeepsOrder.refl L

theorem keepsOrder_markSpentInputs (vin : List OutPoint) (L : Ledger) :
    KeepsOrder L (markSpentInputs N vin L) := by
  induction vin generalizing L with
  | nil => exact KeepsOrder.refl L
  | cons txin vin ih => exact (keepsOrder_markSpentInput N L txin).trans (ih _)

theorem nOrderPos_markUnspentOwned (wtx : WalletTx) (j : Nat) (outs : List TxOut) :
    (markUnspentOwned N wtx j outs).1.nOrderPos = wtx.nOrderPos := by
  induction outs generalizing wtx j with
  | nil => rfl
  | cons out outs ih =>
    simp only [markUnspentOwned]
    split_ifs
    · exact ih _ _
    · rfl
    · exact ih _ _

theorem keepsOrder_walletUpdateSpent (tx : Tx) (fBlock : Bool) (L : Ledger) :
    KeepsOrder L (walletUpdateSpent N tx fBlock L).ledger := by
  have h₁ := keepsOrder_markSpentInputs N tx.vin L
  unfold walletUpdateSpent
  dsimp only
  split
  · split
    next wtx hw =>
      exact h₁.trans (keepsOrder_setRecord hw (markUnspentOwned_spec N wtx 0 tx.vout).1
        (nOrderPos_markUnspentOwned N wtx 0 tx.vout))
    next => exact h₁
  · exact h₁

theorem keepsOrder_storeRecord {L : Ledger} {wtxIn wtx : WalletTx} (nNow : Int)
    (h : L.mapWallet.find? (N.getHash wtxIn.toTx) = some wtx) :
    KeepsOrder L (storeRecord N L wtxIn nNow) := by
  have hs : storeRecord N L wtxIn nNow = L.setRecord (N.getHash wtxIn.toTx) (mergeRecord wtx wtxIn).1 := by
    simp only [storeRecord, storedRecord_of_some N nNow h, h, reduceCtorEq, if_false]
    rfl
  rw [hs]
  exact keepsOrder_setRecord h rfl rfl

theorem keepsOrder_markCoinsSpent (nNow : Int) (vin : List OutPoint) (L : Ledger) :
    KeepsOrder L (markCoinsSpent nNow vin L).ledger := by
  induction vin generalizing L with
  | nil => exact KeepsOrder.refl L
  | cons txin vin ih =>
    simp only [markCoinsSpent]
    cases hc : L.mapWallet.find? txin.hash with
    | none =>
      have hlen : ¬ txin.n < (WalletTx.ofTx ⟨nNow.toNat, [], []⟩).vout.length := Nat.not_lt_zero _
      simp only [Option.getD_none, hlen, if_false]
      exact keepsOrder_setPlaceholder ⟨rfl, rfl, rfl⟩
    | some w =>
      simp only [Option.getD_some]
      split_ifs
      · exact (keepsOrder_setRecord hc (w.toTx_setSpent txin.n true) rfl).trans (ih _)
      · exact keepsOrder_setRecord hc rfl rfl

theorem keepsOrder_markUnspentInput (L : Ledger) (txin : OutPoint) :
    KeepsOrder L (markUnspentInput N L txin) := by
  unfold markUnspentInput
  split
  next prev hw =>
    split
    · split_ifs
      · exact keepsOrder_setRecord hw rfl rfl
      · exact KeepsOrder.refl L
    · exact KeepsOrder.refl L
  next => exact KeepsOrder.refl L

theorem keepsOrder_disableTransaction (tx : Tx) (L : Ledger) : KeepsOrder L (disableTransaction N tx L) := by
  unfold disableTransaction
  split_ifs
  · exact KeepsOrder.refl L
  · rename_i hc; clear hc
    generalize tx.vin = vin
    induction vin generalizing L with
    | nil => exact KeepsOrder.refl L
    | cons txin vin ih => exact (keepsOrder_markUnspentInput N L txin).trans (ih _)

theorem keepsOrder_eraseFromWallet (hash : Nat) (dbOk : Bool) (L : Ledger) :
    KeepsOrder L (eraseFromWallet hash dbOk L).ledger := by
  refine ⟨?_, fun _ w hw => Or.inr ⟨w, eraseFromWallet_back hw, rfl, rfl⟩⟩
  unfold eraseFromWallet
  split_ifs <;> rfl

theorem keepsOrder_eraseAll (ws : List WalletTx) (L : Ledger) :
    KeepsOrder L (ws.foldl (fun L w => (eraseFromWallet (N.getHash w.toTx) true L).ledger) L) := by
  induction ws generalizing L with
  | nil => exact KeepsOrder.refl L
  | cons w ws ih => exact (keepsOrder_eraseFromWallet _ true L).trans (ih _)

theorem keepsOrder_resendWalletTransactions (fForce due : Bool) (nTimeBestReceived : Int)
    (valid : WalletTx → Bool) (L : Ledger) :
    KeepsOrder L (resendWalletTransactions N fForce due nTimeBestReceived valid L) := by
  unfold resendWalletTransactions
  split_ifs
  · exact KeepsOrder.refl L
  · exact keepsOrder_eraseAll N _ L

/-- Every record AddToWallet made holds its own order position, below the counter; every other
record is a placeholder. -/
structure OrderPosInv (L : Ledger) : Prop where
  next_nonneg : 0 ≤ L.nOrderPosNext
  placed : ∀ k w, L.mapWallet.find? k = some w →
    w.IsPlaceholder ∨ (0 ≤ w.nOrderPos ∧ w.nOrderPos < L.nOrderPosNext)
  unique : ∀ k k' w w', L.mapWallet.find? k = some w → L.mapWallet.find? k' = some w' →
    0 ≤ w.nOrderPos → w'.nOrderPos = w.nOrderPos → k' = k

theorem orderPosInv_empty (fFileBacked : Bool) : OrderPosInv (Ledger.empty fFileBacked) :=
  ⟨le_refl 0, (fun _ _ h => by cases h), fun _ _ _ _ h => by cases h⟩

theorem OrderPosInv.keep {L L' : Ledger} (hi : OrderPosInv L) (h : KeepsOrder L L') : OrderPosInv L' := by
  refine ⟨h.1 ▸ hi.next_nonneg, fun k w' hw' => ?_, fun k k' w₁ w₂ hw₁ hw₂ hpos hp => ?_⟩
  · rcases h.2 k w' hw' with hp | ⟨w, hw, ht, hp⟩
    · exact Or.inl hp
    rcases hi.placed k w hw with ⟨hq, hv, ho⟩ | hb
    · exact Or.inl ⟨hp.trans hq, (congrArg Tx.vin ht).trans hv, (congrArg Tx.vout ht).trans ho⟩
    · rw [hp, h.1]; exact Or.inr hb
  · rcases h.2 k w₁ hw₁ with ⟨hq, -⟩ | ⟨v₁, hv₁, -, hp₁⟩
    · omega
    rcases h.2 k' w₂ hw₂ with ⟨hq, -⟩ | ⟨v₂, hv₂, -, hp₂⟩
    · omega
    exact hi.unique k k' v₁ v₂ hv₁ hv₂ (hp₁ ▸ hpos) (by rw [← hp₁, ← hp₂, hp])

theorem OrderPosInv.storeRecord {L : Ledger} (hi : OrderPosInv L) (wtxIn : WalletTx) (nNow : Int) :
    OrderPosInv (storeRecord N L wtxIn nNow) := by
  cases h : L.mapWallet.find? (N.getHash wtxIn.toTx) with
  | some wtx => exact hi.keep (keepsOrder_storeRecord N nNow h)
  | none =>
    rw [storeRecord_of_none N nNow h]
    have below : ∀ k w, L.mapWallet.find? k = some w → w.nOrderPos ≠ L.nOrderPosNext := by
      intro k w hw
      have := hi.next_nonneg
      rcases hi.placed k w hw with hq | ⟨-, hb⟩
      · have := hq.1; omega
      · omega
    refine ⟨Int.le_add_one hi.next_nonneg, fun k w hw => ?_,
      fun k k' w w' hw hw' hpos hp => ?_⟩
    · simp only [find?_setRecord, nOrderPosNext_setRecord, incOrderPosNext] at hw ⊢
      split_ifs at hw
      · cases hw; exact Or.inr ⟨hi.next_nonneg, Int.lt_add_one_iff.mpr le_rfl⟩
      · exact (hi.placed k w hw).imp_right fun hb => ⟨hb.1, by omega⟩
    · simp only [find?_setRecord, incOrderPosNext] at hw hw'
      split_ifs at hw hw' with hk hk'
      · rw [hk, hk']
      · cases hw; exact absurd hp (below k' w' hw')
      · cases hw'; exact absurd hp.symm (below k w hw)
      · exact hi.unique k k' w w' hw hw' hpos hp

theorem OrderPosInv.addToWallet {L : Ledger} (hi : OrderPosInv L) (wtxIn : WalletTx) (nNow : Int)
    (writeOk : Bool) : OrderPosInv (addToWallet N wtxIn nNow writeOk L).ledger := by
  have h₁ := hi.storeRecord N wtxIn nNow
  rw [addToWallet_ledger]
  split_ifs
  · exact h₁
  · exact h₁.keep (keepsOrder_walletUpdateSpent N _ _ _)

theorem OrderPosInv.run {L : Ledger} (hi : OrderPosInv L) (c : LedgerCall) : OrderPosInv (c.run N L) := by
  cases c with
  | addToWallet wtxIn nNow writeOk => exact hi.addToWallet N wtxIn nNow writeOk
  | addToWalletIfInvolvingMe tx pblock fUpdate nNow writeOk =>
    rcases addToWalletIfInvolvingMe_ledger N tx pblock fUpdate nNow writeOk L with h | ⟨-, h⟩ | ⟨-, h⟩ <;>
      simp only [LedgerCall.run, h]
    · exact hi
    · exact hi.addToWallet N _ nNow writeOk
    · exact hi.keep (keepsOrder_walletUpdateSpent N tx false L)
  | commitTransaction fDevbuildCripple wtxNew nNow writeOk accepted =>
    have ha := hi.addToWallet N wtxNew nNow writeOk
    rcases commitTransaction_ledger N fDevbuildCripple wtxNew nNow writeOk accepted L with h | ⟨-, h⟩ | ⟨-, h⟩ <;>
      simp only [LedgerCall.run, h]
    · exact hi
    · exact ha
    · exact ha.keep (keepsOrder_markCoinsSpent nNow _ _)
  | disableTransaction tx => exact hi.keep (keepsOrder_disableTransaction N tx L)
  | eraseFromWallet hash dbOk => exact hi.keep (keepsOrder_eraseFromWallet hash dbOk L)
  | resendWalletTransactions fForce due nTimeBestReceived valid =>
    exact hi.keep (keepsOrder_resendWalletTransactions N fForce due nTimeBestReceived valid L)

theorem OrderPosInv.runCalls {L : Ledger} (hi : OrderPosInv L) (calls : List LedgerCall) :
    OrderPosInv (runCalls N calls L) := by
  induction calls generalizing L with
  | nil => exact hi
  | cons c cs ih => exact ih (hi.run N c)

end Ledger

/-- Modelled from the spec: CAccountingEntry (walletdb.h, not under src/), with the order position
OrderedTxItems files it under. -/
structure AccountingEntry where
  nOrderPos : Int
  deriving DecidableEq, Repr

/-- CWallet::TxPair: a wallet record (with the hash it is held under) or an accounting entry. -/
inductive TxPair
  | wtx (hash : Nat) (w : WalletTx)
  | acentry (e : AccountingEntry)
  deriving DecidableEq, Repr

/-- `std::multimap<int64_t, TxPair>::insert`: the item goes after every item whose key is not
greater. -/
def insertTxItem (item : Int × TxPair) : List (Int × TxPair) → List (Int × TxPair)
  | [] => [item]
  | x :: xs => if item.1 < x.1 then item :: x :: xs else x :: insertTxItem item xs

/-- CWallet::OrderedTxItems, with the accounting entries as an input. -/
def orderedTxItems (L : Ledger) (acentries : List AccountingEntry) : List (Int × TxPair) :=
  let txOrdered := L.mapWallet.entries.foldl (fun m e => insertTxItem (e.2.nOrderPos, .wtx e.1 e.2) m) []
  acentries.foldl (fun m e => insertTxItem (e.nOrderPos, .acentry e) m) txOrdered

def txItemsInserted (L : Ledger) (acentries : List AccountingEntry) : List (Int × TxPair) :=
  L.mapWallet.entries.map (fun e => (e.2.nOrderPos, .wtx e.1 e.2)) ++
    acentries.map fun e => (e.nOrderPos, .acentry e)

/-- Keys in non-decreasing order. -/
def KeySorted (m : List (Int × TxPair)) : Prop := m.Pairwise fun a b => a.1 ≤ b.1

theorem mem_insertTxItem {item x : Int × TxPair} {xs : List (Int × TxPair)} :
    x ∈ insertTxItem item xs ↔ x = item ∨ x ∈ xs := by
  induction xs with
  | nil => simp [insertTxItem]
  | cons y ys ih =>
    simp only [insertTxItem]
    split_ifs <;> simp only [List.mem_cons, ih]
    tauto

theorem keySorted_insertTxItem (item : Int × TxPair) {xs : List (Int × TxPair)} (h : KeySorted xs) :
    KeySorted (insertTxItem item xs) := by
  induction xs with
  | nil => exact List.pairwise_singleton _ _
  | cons x xs ih =>
    obtain ⟨hx, hxs⟩ := List.pairwise_cons.mp h
    simp only [insertTxItem]
    split_ifs with hlt
    · refine List.Pairwise.cons (fun a ha => ?_) h
      rcases List.mem_cons.mp ha with rfl | ha
      · exact le_of_lt hlt
      · exact le_trans (le_of_lt hlt) (hx a ha)
    · refine List.Pairwise.cons (fun a ha => ?_) (ih hxs)
      rcases mem_insertTxItem.mp ha with rfl | ha
      · exact not_lt.mp hlt
      · exact hx a ha

theorem filter_insertTxItem (item : Int × TxPair) (c : Int) {xs : List (Int × TxPair)}
    (h : KeySorted xs) :
    (insertTxItem item xs).filter (fun x => x.1 = c) =
      xs.filter (fun x => x.1 = c) ++ [item].filter (fun x => x.1 = c) := by
  induction xs with
  | nil => rfl
  | cons x xs ih =>
    obtain ⟨hx, hxs⟩ := List.pairwise_cons.mp h
    simp only [insertTxItem]
    split_ifs with hlt
    · by_cases hc : item.1 = c
      · have hnone : (x :: xs).filter (fun x => x.1 = c) = [] :=
          List.filter_eq_nil_iff.mpr fun a ha => by
            have : x.1 ≤ a.1 := (List.mem_cons.mp ha).elim (fun h => h ▸ le_rfl) (hx a)
            simp only [decide_eq_true_eq]; omega
        rw [List.filter_cons_of_pos (by simpa using hc), hnone]
        simp [hc]
      · rw [List.filter_cons_of_neg (by simpa using hc)]
        simp [hc]
    · rw [List.filter_cons, List.filter_cons, ih hxs]
      split_ifs <;> rfl

theorem foldl_insertTxItem (items m : List (Int × TxPair)) (h : KeySorted m) :
    KeySorted (items.foldl (fun m i => insertTxItem i m) m) ∧
      ∀ c, (items.foldl (fun m i => insertTxItem i m) m).filter (fun x => x.1 = c) =
        m.filter (fun x => x.1 = c) ++ items.filter (fun x => x.1 = c) := by
  induction items generalizing m with
  | nil => exact ⟨h, fun c => by simp⟩
  | cons i items ih =>
    obtain ⟨hs, hf⟩ := ih (insertTxItem i m) (keySorted_insertTxItem i h)
    refine ⟨hs, fun c => ?_⟩
    rw [List.foldl_cons, hf, filter_insertTxItem i c h, List.append_assoc, ← List.filter_append]
    rfl

theorem orderedTxItems_eq (L : Ledger) (acentries : List AccountingEntry) :
    orderedTxItems L acentries = (txItemsInserted L acentries).foldl (fun m i => insertTxItem i m) [] := by
  simp only [orderedTxItems, txItemsInserted, List.foldl_append, List.foldl_map]

/-- OrderedTxItems is the stable sort of what it inserts. -/
theorem orderedTxItems_stable (L : Ledger) (acentries : List AccountingEntry) :
    KeySorted (orderedTxItems L acentries) ∧ ∀ c, (orderedTxItems L acentries).filter (fun x => x.1 = c) =
      (txItemsInserted L acentries).filter (fun x => x.1 = c) := by
  obtain ⟨hs, hf⟩ := foldl_insertTxItem (txItemsInserted L acentries) [] List.Pairwise.nil
  rw [orderedTxItems_eq]
  exact ⟨hs, fun c => hf c⟩

/-- Every ledger a run reaches from an empty wallet keeps its order positions valid. -/
theorem runCalls_orderPosInv (N : Node) (fFileBacked : Bool) (calls : List LedgerCall) :
    (runCalls N calls (Ledger.empty fFileBacked)).OrderPosInv :=
  (Ledger.orderPosInv_empty fFileBacked).runCalls N calls

end GridcoinWallet
