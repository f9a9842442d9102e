import GridcoinWallet.Ledger.Wallet

namespace GridcoinWallet

/-- What a wallet call leaves: the ledger, and what it returned (`none`: it threw). -/
structure Outcome (α : Type) where
  ledger : Ledger
  result : Option α

/-- The record's output `n` exists and is the wallet's. -/
def WalletTx.owns (N : Node) (w : WalletTx) (n : Nat) : Bool :=
  match w.vout[n]? with
  | some o => N.isMine o.scriptPubKey
  | none => false

theorem WalletTx.lt_of_owns {N : Node} {w : WalletTx} {n : Nat} (h : w.owns N n = true) :
    n < w.vout.length := by
  unfold owns at h
  split at h
  · rename_i o ho; exact (List.getElem?_eq_some_iff.mp ho).1
  · cases h

namespace Ledger

/-- `mapWallet[k] = w`. -/
def setRecord (L : Ledger) (k : Nat) (w : WalletTx) : Ledger :=
  { L with mapWallet := L.mapWallet.set k w }

@[simp] theorem find?_setRecord (L : Ledger) (k k' : Nat) (w : WalletTx) :
    (L.setRecord k w).mapWallet.find? k' = if k' = k then some w else L.mapWallet.find? k' :=
  StdMap.find?_set _ _ _ _

@[simp] theorem fFileBacked_setRecord (L : Ledger) (k : Nat) (w : WalletTx) :
    (L.setRecord k w).fFileBacked = L.fFileBacked := rfl

/-- L' holds the same transactions as L under the same hashes; only spent flags may differ. -/
def SameTxs (L L' : Ledger) : Prop :=
  ∀ k, (L'.mapWallet.find? k).map (·.toTx) = (L.mapWallet.find? k).map (·.toTx)

theorem SameTxs.refl (L : Ledger) : SameTxs L L := fun _ => rfl

theorem SameTxs.trans {L₁ L₂ L₃ : Ledger} (h₁ : SameTxs L₁ L₂) (h₂ : SameTxs L₂ L₃) :
    SameTxs L₁ L₃ := fun k => (h₂ k).trans (h₁ k)

theorem SameTxs.setRecord {L : Ledger} {k : Nat} {w w' : WalletTx}
    (hw : L.mapWallet.find? k = some w) (h : w'.toTx = w.toTx) : SameTxs L (L.setRecord k w') := by
  intro k'
  by_cases hk : k' = k
  · subst hk; simp [hw, h]
  · simp [hk]

theorem SameTxs.back {L L' : Ledger} (h : SameTxs L L') {k : Nat} {w' : WalletTx}
    (hw : L'.mapWallet.find? k = some w') : ∃ w, L.mapWallet.find? k = some w ∧ w'.toTx = w.toTx := by
  have := h k
  rw [hw] at this
  cases hk : L.mapWallet.find? k with
  | none => simp [hk] at this
  | some w => exact ⟨w, rfl, by simpa [hk] using this⟩

theorem SameTxs.forth {L L' : Ledger} (h : SameTxs L L') {k : Nat} {w : WalletTx}
    (hw : L.mapWallet.find? k = some w) : ∃ w', L'.mapWallet.find? k = some w' ∧ w'.toTx = w.toTx := by
  have := h k
  rw [hw] at this
  cases hk : L'.mapWallet.find? k with
  | none => simp [hk] at this
  | some w' => exact ⟨w', rfl, by simpa [hk] using this⟩

variable (N : Node)

/-- One input of the first loop of WalletUpdateSpent: it marks the output it spends when the wallet
holds that output, owns it and has it unspent. -/
def markSpentInput (L : Ledger) (txin : OutPoint) : Ledger :=
  match L.mapWallet.find? txin.hash with
  | some wtx =>
    match wtx.vout[txin.n]? with
    | some out =>
      if !wtx.isSpent txin.n && N.isMine out.scriptPubKey then
        L.setRecord txin.hash (wtx.setSpent txin.n true)
      else L
    | none => L
  | none => L

/-- The first loop of WalletUpdateSpent, over the inputs of the transaction. -/
def markSpentInputs (vin : List OutPoint) (L : Ledger) : Ledger :=
  vin.foldl (markSpentInput N) L

theorem markSpentInput_spec (L : Ledger) (txin : OutPoint) :
    SameTxs L (markSpentInput N L txin) ∧
    ∀ k w w', L.mapWallet.find? k = some w → (markSpentInput N L txin).mapWallet.find? k = some w' →
      ∀ n < w.vout.length,
        (w'.isSpent n = true ↔ w.isSpent n = true ∨ (txin = ⟨k, n⟩ ∧ w.owns N n = true)) := by
  unfold markSpentInput
  split
  next P hf =>
    split
    next out ho =>
      split_ifs with hc
      · refine ⟨SameTxs.setRecord hf rfl, fun k w w' hw hw' n hn => ?_⟩
        by_cases hk : k = txin.hash
        · subst hk; rw [hw] at hf; cases hf
          simp only [find?_setRecord, if_true, Option.some.injEq] at hw'; subst hw'
          rw [WalletTx.isSpent_setSpent true hn]
          by_cases hnn : n = txin.n
          · subst hnn
            simp only [Bool.and_eq_true, Bool.not_eq_true'] at hc
            simp [WalletTx.owns, ho, hc.2]
          · have : txin ≠ ⟨txin.hash, n⟩ := fun h => hnn (by rw [h])
            simp [hnn, this]
        · simp only [find?_setRecord, hk, if_false, hw, Option.some.injEq] at hw'; subst hw'
          exact ⟨Or.inl, fun h => h.resolve_right fun ⟨he, _⟩ => hk (by rw [he])⟩
      · refine ⟨SameTxs.refl L, fun k w w' hw hw' n hn => ?_⟩
        rw [hw] at hw'; cases hw'
        refine ⟨Or.inl, fun h => h.elim id fun ⟨he, hown⟩ => ?_⟩
        subst he; rw [hw] at hf; cases hf
        simp only [WalletTx.owns, ho] at hown
        simp only [hown, Bool.and_true, Bool.not_eq_true', Bool.not_eq_false] at hc
        exact hc
    next ho =>
      refine ⟨SameTxs.refl L, fun k w w' hw hw' n hn => ?_⟩
      rw [hw] at hw'; cases hw'
      refine ⟨Or.inl, fun h => h.resolve_right fun ⟨he, hown⟩ => ?_⟩
      subst he; rw [hw] at hf; cases hf
      simp [WalletTx.owns, ho] at hown
  next hf =>
    refine ⟨SameTxs.refl L, fun k w w' hw hw' n _ => ?_⟩
    rw [hw] at hw'; cases hw'
    have hk : k ≠ txin.hash := fun hk => by rw [← hk, hw] at hf; cases hf
    exact ⟨Or.inl, fun h => h.resolve_right fun ⟨he, _⟩ => hk (by rw [he])⟩

theorem markSpentInputs_spec (vin : List OutPoint) (L : Ledger) :
    SameTxs L (markSpentInputs N vin L) ∧
    ∀ k w w', L.mapWallet.find? k = some w → (markSpentInputs N vin L).mapWallet.find? k = some w' →
      ∀ n < w.vout.length,
        (w'.isSpent n = true ↔ w.isSpent n = true ∨ (⟨k, n⟩ ∈ vin ∧ w.owns N n = true)) := by
  induction vin generalizing L with
  | nil =>
    refine ⟨SameTxs.refl L, fun k w w' hw hw' n _ => ?_⟩
    simp only [markSpentInputs, List.foldl_nil, hw, Option.some.injEq] at hw'; subst hw'
    simp
  | cons txin vin ih =>
    obtain ⟨hs₁, hf₁⟩ := markSpentInput_spec N L txin
    obtain ⟨hs₂, hf₂⟩ := ih (markSpentInput N L txin)
    refine ⟨hs₁.trans hs₂, fun k w w' hw hw' n hn => ?_⟩
    obtain ⟨w₁, hw₁, ht₁⟩ := hs₁.forth hw
    have hn₁ : n < w₁.vout.length := by rw [show w₁.vout = w.vout from congrArg Tx.vout ht₁]; exact hn
    have hown : w₁.owns N n = w.owns N n := by
      simp only [WalletTx.owns, show w₁.vout = w.vout from congrArg Tx.vout ht₁]
    rw [hf₂ k w₁ w' hw₁ hw' n hn₁, hf₁ k w w₁ hw hw₁ n hn, hown]
    simp only [List.mem_cons]
    constructor
    · rintro ((h | ⟨h, ho⟩) | ⟨h, ho⟩) <;> tauto
    · rintro (h | ⟨h | h, ho⟩) <;> tauto

/-- The fBlock loop of WalletUpdateSpent: MarkUnspent on each owned output of the transaction, in
the record found under its hash. -/
def markUnspentOwned : WalletTx → Nat → List TxOut → WalletTx × Bool
  | wtx, _, [] => (wtx, true)
  | wtx, j, out :: outs =>
    if N.isMine out.scriptPubKey then
      if j < wtx.vout.length then markUnspentOwned (wtx.setSpent j false) (j + 1) outs
      else (wtx, false)
    else markUnspentOwned wtx (j + 1) outs

theorem markUnspentOwned_spec (wtx : WalletTx) (j : Nat) (outs : List TxOut) :
    (markUnspentOwned N wtx j outs).1.toTx = wtx.toTx ∧
    ∀ n < wtx.vout.length, (markUnspentOwned N wtx j outs).1.isSpent n = true → wtx.isSpent n = true := by
  induction outs generalizing wtx j with
  | nil => exact ⟨rfl, fun _ _ h => h⟩
  | cons out outs ih =>
    simp only [markUnspentOwned]
    split_ifs with hm hj
    · obtain ⟨ht, hf⟩ := ih (wtx.setSpent j false) (j + 1)
      refine ⟨ht, fun n hn h => ?_⟩
      have := hf n hn h
      rw [WalletTx.isSpent_setSpent false hn] at this
      split_ifs at this
      exact this
    · exact ⟨rfl, fun _ _ h => h⟩
    · exact ih wtx (j + 1)

/-- CWallet::WalletUpdateSpent. -/
def walletUpdateSpent (tx : Tx) (fBlock : Bool) (L : Ledger) : Outcome Unit :=
  let L₁ := markSpentInputs N tx.vin L
  if fBlock then
    match L₁.mapWallet.find? (N.getHash tx) with
    | some wtx =>
      let r := markUnspentOwned N wtx 0 tx.vout
      ⟨L₁.setRecord (N.getHash tx) r.1, if r.2 then some () else none⟩
    | none => ⟨L₁, some ()⟩
  else ⟨L₁, some ()⟩

theorem find?_walletUpdateSpent (tx : Tx) (fBlock : Bool) (L : Ledger) (k : Nat) :
    (walletUpdateSpent N tx fBlock L).ledger.mapWallet.find? k =
      ((markSpentInputs N tx.vin L).mapWallet.find? k).map fun w =>
        if fBlock = true ∧ k = N.getHash tx then (markUnspentOwned N w 0 tx.vout).1 else w := by
  unfold walletUpdateSpent
  cases fBlock
  · simp
  · rw [if_pos rfl]
    split
    next wtx hwtx =>
      by_cases hk : k = N.getHash tx
      · subst hk; simp [hwtx]
      · simp [hk]
    next hnone =>
      by_cases hk : k = N.getHash tx
      · subst hk; simp [hnone]
      · simp [hk]

theorem walletUpdateSpent_sameTxs (tx : Tx) (fBlock : Bool) (L : Ledger) :
    SameTxs L (walletUpdateSpent N tx fBlock L).ledger := by
  refine (markSpentInputs_spec N tx.vin L).1.trans fun k => ?_
  rw [find?_walletUpdateSpent, Option.map_map]
  congr 1
  funext w
  split_ifs
  · exact (markUnspentOwned_spec N w 0 tx.vout).1
  · rfl

theorem isSpent_walletUpdateSpent {tx : Tx} {fBlock : Bool} {L : Ledger} {k : Nat}
    (hk : fBlock = false ∨ k ≠ N.getHash tx ∨ tx.vout = []) {w w' : WalletTx}
    (hw : L.mapWallet.find? k = some w)
    (hw' : (walletUpdateSpent N tx fBlock L).ledger.mapWallet.find? k = some w')
    {n : Nat} (hn : n < w.vout.length) :
    w'.isSpent n = true ↔ w.isSpent n = true ∨ (⟨k, n⟩ ∈ tx.vin ∧ w.owns N n = true) := by
  rw [find?_walletUpdateSpent] at hw'
  obtain ⟨w₁, hw₁, rfl⟩ := Option.map_eq_some'.mp hw'
  have hkeep : (if fBlock = true ∧ k = N.getHash tx then (markUnspentOwned N w₁ 0 tx.vout).1
      else w₁) = w₁ := by
    rcases hk with hk | hk | hk <;> simp [hk, markUnspentOwned]
  rw [hkeep]
  exact (markSpentInputs_spec N tx.vin L).2 k w w₁ hw hw₁ n hn

theorem isSpent_walletUpdateSpent_le {tx : Tx} {fBlock : Bool} {L : Ledger} {k : Nat}
    {w w' : WalletTx} (hw : L.mapWallet.find? k = some w)
    (hw' : (walletUpdateSpent N tx fBlock L).ledger.mapWallet.find? k = some w')
    {n : Nat} (hn : n < w.vout.length) (h : w'.isSpent n = true) :
    w.isSpent n = true ∨ (⟨k, n⟩ ∈ tx.vin ∧ w.owns N n = true) := by
  obtain ⟨hs, hf⟩ := markSpentInputs_spec N tx.vin L
  rw [find?_walletUpdateSpent] at hw'
  obtain ⟨w₁, hw₁, rfl⟩ := Option.map_eq_some'.mp hw'
  obtain ⟨-, -, ht₁⟩ : ∃ w₂, (markSpentInputs N tx.vin L).mapWallet.find? k = some w₂ ∧
      w₂.toTx = w.toTx := hs.forth hw |>.imp fun _ h => h
  refine (hf k w w₁ hw hw₁ n hn).mp ?_
  split_ifs at h
  · have ht : w₁.vout = w.vout := by
      obtain ⟨w₂, hw₂, ht₂⟩ := hs.forth hw
      rw [hw₁] at hw₂; cases hw₂; exact congrArg Tx.vout ht₂
    exact (markUnspentOwned_spec N w₁ 0 tx.vout).2 n (ht ▸ hn) h
  · exact h

/-- The merge branch of AddToWallet, and whether anything changed. -/
def mergeRecord (wtx wtxIn : WalletTx) : WalletTx × Bool :=
  let upBlock := wtxIn.hashBlock.isSome && wtxIn.hashBlock != wtx.hashBlock
  let upIndex := wtxIn.nIndex != -1 && wtxIn.nIndex != wtx.nIndex
  let upFromMe := wtxIn.fFromMe && wtxIn.fFromMe != wtx.fFromMe
  let spent := updateSpentList wtx.vfSpent wtxIn.vfSpent
  ({ wtx with
      hashBlock := if upBlock then wtxIn.hashBlock else wtx.hashBlock
      nIndex := if upIndex then wtxIn.nIndex else wtx.nIndex
      fFromMe := if upFromMe then wtxIn.fFromMe else wtx.fFromMe
      vfSpent := spent.1 },
    upBlock || upIndex || upFromMe || spent.2)

@[simp] theorem toTx_mergeRecord (wtx wtxIn : WalletTx) : (mergeRecord wtx wtxIn).1.toTx = wtx.toTx :=
  rfl

theorem isSpent_mergeRecord {wtx wtxIn : WalletTx} {n : Nat} (h : wtx.isSpent n = true) :
    (mergeRecord wtx wtxIn).1.isSpent n = true :=
  getD_updateSpentList_of_true h

theorem isSpent_mergeRecord_of_unspent {wtx wtxIn : WalletTx} (h : ∀ b ∈ wtxIn.vfSpent, b = false)
    (n : Nat) : (mergeRecord wtx wtxIn).1.isSpent n = wtx.isSpent n := by
  simp [mergeRecord, WalletTx.isSpent, updateSpentList_of_unspent h]

/-- The record AddToWallet keeps under the hash, and whether it is new or changed (either of which
makes AddToWallet write it). -/
def storedRecord (L : Ledger) (wtxIn : WalletTx) (nNow : Int) : WalletTx × Bool :=
  match L.mapWallet.find? (N.getHash wtxIn.toTx) with
  | none => ({ wtxIn with nTimeReceived := nNow, nOrderPos := L.nOrderPosNext }, true)
  | some wtx => mergeRecord wtx wtxIn

theorem storedRecord_of_none {L : Ledger} {wtxIn : WalletTx} (nNow : Int)
    (h : L.mapWallet.find? (N.getHash wtxIn.toTx) = none) :
    storedRecord N L wtxIn nNow = ({ wtxIn with nTimeReceived := nNow, nOrderPos := L.nOrderPosNext }, true) := by
  unfold storedRecord; rw [h]

theorem storedRecord_of_some {L : Ledger} {wtxIn wtx : WalletTx} (nNow : Int)
    (h : L.mapWallet.find? (N.getHash wtxIn.toTx) = some wtx) :
    storedRecord N L wtxIn nNow = mergeRecord wtx wtxIn := by
  unfold storedRecord; rw [h]

/-- The ledger AddToWallet has built when it writes: the stored record under the hash, and the order
position taken by a new record. -/
def storeRecord (L : Ledger) (wtxIn : WalletTx) (nNow : Int) : Ledger :=
  { L.setRecord (N.getHash wtxIn.toTx) (storedRecord N L wtxIn nNow).1 with
    nOrderPosNext := if L.mapWallet.find? (N.getHash wtxIn.toTx) = none then L.nOrderPosNext + 1
      else L.nOrderPosNext }

@[simp] theorem find?_storeRecord (L : Ledger) (wtxIn : WalletTx) (nNow : Int) (k : Nat) :
    (storeRecord N L wtxIn nNow).mapWallet.find? k =
      if k = N.getHash wtxIn.toTx then some (storedRecord N L wtxIn nNow).1 else L.mapWallet.find? k :=
  find?_setRecord _ _ _ _

/-- CWallet::AddToWallet. -/
def addToWallet (wtxIn : WalletTx) (nNow : Int) (writeOk : Bool) (L : Ledger) : Outcome Bool :=
  let r := storedRecord N L wtxIn nNow
  let L₁ := storeRecord N L wtxIn nNow
  if r.2 && !writeOk then ⟨L₁, some false⟩
  else
    let u := walletUpdateSpent N r.1.toTx wtxIn.hashBlock.isSome L₁
    ⟨u.ledger, u.result.map fun _ => true⟩

theorem addToWallet_ledger (wtxIn : WalletTx) (nNow : Int) (writeOk : Bool) (L : Ledger) :
    (addToWallet N wtxIn nNow writeOk L).ledger =
      if (storedRecord N L wtxIn nNow).2 && !writeOk then storeRecord N L wtxIn nNow
      else (walletUpdateSpent N (storedRecord N L wtxIn nNow).1.toTx wtxIn.hashBlock.isSome
        (storeRecord N L wtxIn nNow)).ledger := by
  unfold addToWallet; dsimp only; split_ifs <;> rfl

/-- A block as SetMerkleBranch reads it: its hash and the hashes of its transactions. -/
structure Block where
  hash : Nat
  vtx : List Nat

/-- Modelled from the spec: CMerkleTx::SetMerkleBranch(pblock) (main.cpp, not under src/): the
block's hash, and the transaction's position in the block or -1. -/
def setMerkleBranch (wtx : WalletTx) (pblock : Block) : WalletTx :=
  let i := pblock.vtx.indexOf (N.getHash wtx.toTx)
  { wtx with hashBlock := some pblock.hash, nIndex := if i < pblock.vtx.length then i else -1 }

@[simp] theorem toTx_setMerkleBranch (wtx : WalletTx) (pblock : Block) :
    (setMerkleBranch N wtx pblock).toTx = wtx.toTx := rfl

/-- The record AddToWalletIfInvolvingMe hands to AddToWallet. -/
def involvingRecord (tx : Tx) (pblock : Option Block) : WalletTx :=
  match pblock with
  | some b => setMerkleBranch N (WalletTx.ofTx tx) b
  | none => WalletTx.ofTx tx

/-- CWallet::AddToWalletIfInvolvingMe. -/
def addToWalletIfInvolvingMe (tx : Tx) (pblock : Option Block) (fUpdate : Bool) (nNow : Int)
    (writeOk : Bool) (L : Ledger) : Outcome Bool :=
  let fExisted := (L.mapWallet.find? (N.getHash tx)).isSome
  if fExisted && !fUpdate then ⟨L, some false⟩
  else if fExisted || isMineTx N tx || L.isFromMe N tx then
    addToWallet N (involvingRecord N tx pblock) nNow writeOk L
  else
    let u := walletUpdateSpent N tx false L
    ⟨u.ledger, u.result.map fun _ => false⟩

/-- Whether AddToWalletIfInvolvingMe goes on to AddToWallet. -/
def goesToAddToWallet (L : Ledger) (tx : Tx) (fUpdate : Bool) : Bool :=
  let fExisted := (L.mapWallet.find? (N.getHash tx)).isSome
  !(fExisted && !fUpdate) && (fExisted || isMineTx N tx || L.isFromMe N tx)

theorem addToWalletIfInvolvingMe_ledger (tx : Tx) (pblock : Option Block) (fUpdate : Bool) (nNow : Int)
    (writeOk : Bool) (L : Ledger) :
    (addToWalletIfInvolvingMe N tx pblock fUpdate nNow writeOk L).ledger = L ∨
      (L.goesToAddToWallet N tx fUpdate = true ∧ (addToWalletIfInvolvingMe N tx pblock fUpdate nNow writeOk L).ledger =
        (addToWallet N (involvingRecord N tx pblock) nNow writeOk L).ledger) ∨
      (L.isFromMe N tx = false ∧
        (addToWalletIfInvolvingMe N tx pblock fUpdate nNow writeOk L).ledger = (walletUpdateSpent N tx false L).ledger) := by
  unfold addToWalletIfInvolvingMe goesToAddToWallet
  dsimp only
  split_ifs with h₁ h₂
  · exact Or.inl rfl
  · exact Or.inr (Or.inl ⟨by rw [Bool.eq_false_iff.mpr h₁, h₂]; rfl, rfl⟩)
  · simp only [Bool.or_eq_true, not_or] at h₂
    exact Or.inr (Or.inr ⟨by simpa using h₂.2, rfl⟩)

@[simp] theorem vfSpent_involvingRecord (tx : Tx) (pblock : Option Block) :
    (involvingRecord N tx pblock).vfSpent = [] := by
  cases pblock <;> rfl

/-- The loop of CommitTransaction that marks the coins the new transaction spends. -/
def markCoinsSpent (nNow : Int) : List OutPoint → Ledger → Outcome Unit
  | [], L => ⟨L, some ()⟩
  | txin :: vin, L =>
    let coin := (L.mapWallet.find? txin.hash).getD (WalletTx.ofTx ⟨nNow.toNat, [], []⟩)
    if txin.n < coin.vout.length then
      markCoinsSpent nNow vin (L.setRecord txin.hash (coin.setSpent txin.n true))
    else ⟨L.setRecord txin.hash coin, none⟩

theorem markCoinsSpent_back (nNow : Int) (vin : List OutPoint) (L : Ledger) {k : Nat} {w' : WalletTx}
    (hw' : (markCoinsSpent nNow vin L).ledger.mapWallet.find? k = some w') :
    (w'.vin = [] ∧ w'.vout = []) ∨ ∃ w, L.mapWallet.find? k = some w ∧ w'.toTx = w.toTx ∧
      ∀ n < w.vout.length, w'.isSpent n = true → w.isSpent n = true ∨ ⟨k, n⟩ ∈ vin := by
  induction vin generalizing L with
  | nil => exact Or.inr ⟨w', hw', rfl, fun _ _ h => Or.inl h⟩
  | cons txin vin ih =>
    simp only [markCoinsSpent] at hw'
    split_ifs at hw' with hn
    · rcases ih _ hw' with h | ⟨w₁, hw₁, ht, hf⟩
      · exact Or.inl h
      · simp only [find?_setRecord] at hw₁
        split_ifs at hw₁ with hk
        · subst hk
          cases hc : L.mapWallet.find? txin.hash with
          | none => simp [hc, WalletTx.ofTx] at hn
          | some w =>
            simp only [hc, Option.getD_some, Option.some.injEq] at hw₁; subst hw₁
            refine Or.inr ⟨w, rfl, ht, fun n hnw h => ?_⟩
            rcases hf n hnw h with h | h
            · rw [WalletTx.isSpent_setSpent true hnw] at h
              split_ifs at h with he
              · exact Or.inr (by subst he; exact List.mem_cons_self _ _)
              · exact Or.inl h
            · exact Or.inr (List.mem_cons_of_mem _ h)
        · exact Or.inr ⟨w₁, hw₁, ht, fun n hnw h => (hf n hnw h).imp_right (List.mem_cons_of_mem _)⟩
    · simp only [find?_setRecord] at hw'
      split_ifs at hw' with hk
      · subst hk
        cases hc : L.mapWallet.find? txin.hash with
        | none =>
          simp only [hc, Option.getD_none, Option.some.injEq] at hw'
          exact Or.inl ⟨by rw [← hw']; rfl, by rw [← hw']; rfl⟩
        | some w =>
          simp only [hc, Option.getD_some, Option.some.injEq] at hw'; subst hw'
          exact Or.inr ⟨_, rfl, rfl, fun _ _ h => Or.inl h⟩
      · exact Or.inr ⟨w', hw', rfl, fun _ _ h => Or.inl h⟩

theorem markCoinsSpent_forth (nNow : Int) (vin : List OutPoint) (L : Ledger) {k : Nat} {w : WalletTx}
    (hw : L.mapWallet.find? k = some w) :
    ∃ w', (markCoinsSpent nNow vin L).ledger.mapWallet.find? k = some w' ∧ w'.toTx = w.toTx ∧
      ∀ n < w.vout.length, w.isSpent n = true → w'.isSpent n = true := by
  induction vin generalizing L w with
  | nil => exact ⟨w, hw, rfl, fun _ _ h => h⟩
  | cons txin vin ih =>
    by_cases hk : k = txin.hash
    · subst hk
      simp only [markCoinsSpent, hw, Option.getD_some]
      split_ifs with hn
      · have hs : (L.setRecord txin.hash (w.setSpent txin.n true)).mapWallet.find? txin.hash =
            some (w.setSpent txin.n true) := by simp
        obtain ⟨w', hw', ht, hf⟩ := ih _ hs
        exact ⟨w', hw', ht, fun n hnw h => hf n hnw (WalletTx.isSpent_setSpent_true hnw h)⟩
      · exact ⟨w, by simp, rfl, fun _ _ h => h⟩
    · simp only [markCoinsSpent]
      split_ifs
      · exact ih _ (by simp [hk, hw])
      · exact ⟨w, by simp [hk, hw], rfl, fun _ _ h => h⟩

/-- CWallet::CommitTransaction, its ledger part: a development build (fDevbuildCripple) refuses at
once; otherwise AddToWallet, then every coin spent is marked. -/
def commitTransaction (fDevbuildCripple : Bool) (wtxNew : WalletTx) (nNow : Int) (writeOk accepted : Bool)
    (L : Ledger) : Outcome Bool :=
  if fDevbuildCripple then ⟨L, some false⟩
  else
    let a := addToWallet N wtxNew nNow writeOk L
    match a.result with
    | none => ⟨a.ledger, none⟩
    | some _ =>
      let m := markCoinsSpent nNow wtxNew.vin a.ledger
      ⟨m.ledger, m.result.map fun _ => accepted⟩

theorem commitTransaction_ledger (fDevbuildCripple : Bool) (wtxNew : WalletTx) (nNow : Int) (writeOk accepted : Bool)
    (L : Ledger) :
    (commitTransaction N fDevbuildCripple wtxNew nNow writeOk accepted L).ledger = L ∨
      (fDevbuildCripple = false ∧
        (commitTransaction N fDevbuildCripple wtxNew nNow writeOk accepted L).ledger =
          (addToWallet N wtxNew nNow writeOk L).ledger) ∨
      (fDevbuildCripple = false ∧
        (commitTransaction N fDevbuildCripple wtxNew nNow writeOk accepted L).ledger =
          (markCoinsSpent nNow wtxNew.vin (addToWallet N wtxNew nNow writeOk L).ledger).ledger) := by
  unfold commitTransaction
  cases fDevbuildCripple
  · rw [if_neg Bool.false_ne_true]
    dsimp only
    split
    · exact Or.inr (Or.inl ⟨rfl, rfl⟩)
    · exact Or.inr (Or.inr ⟨rfl, rfl⟩)
  · exact Or.inl rfl

/-- CWallet::EraseFromWallet: a file-backed wallet drops the record. -/
def eraseFromWallet (hash : Nat) (dbOk : Bool) (L : Ledger) : Outcome Bool :=
  if L.fFileBacked then
    ⟨{ L with mapWallet := L.mapWallet.erase hash },
      some ((L.mapWallet.find? hash).isSome && dbOk)⟩
  else ⟨L, some false⟩

/-- One input of DisableTransaction: the wallet's output it spends is marked unspent. -/
def markUnspentInput (L : Ledger) (txin : OutPoint) : Ledger :=
  match L.mapWallet.find? txin.hash with
  | some prev =>
    match prev.vout[txin.n]? with
    | some out => if N.isMine out.scriptPubKey then L.setRecord txin.hash (prev.setSpent txin.n false) else L
    | none => L
  | none => L

/-- CWallet::DisableTransaction: for a coinstake from the wallet, the outputs its inputs spend are
marked unspent again. -/
def disableTransaction (tx : Tx) (L : Ledger) : Ledger :=
  if !N.isCoinStake tx || !L.isFromMe N tx then L else tx.vin.foldl (markUnspentInput N) L

theorem disableTransaction_spec (tx : Tx) (L : Ledger) :
    SameTxs L (disableTransaction N tx L) ∧
    ∀ k w w', L.mapWallet.find? k = some w → (disableTransaction N tx L).mapWallet.find? k = some w' →
      ∀ n < w.vout.length, w'.isSpent n = true → w.isSpent n = true := by
  unfold disableTransaction
  split_ifs
  · exact ⟨SameTxs.refl L, fun k w w' hw hw' n _ h => by rw [hw] at hw'; cases hw'; exact h⟩
  · rename_i hc; clear hc
    generalize tx.vin = vin
    induction vin generalizing L with
    | nil => exact ⟨SameTxs.refl L, fun k w w' hw hw' n _ h => by
        simp only [List.foldl_nil, hw, Option.some.injEq] at hw'; rw [hw']; exact h⟩
    | cons txin vin ih =>
      have step : SameTxs L (markUnspentInput N L txin) ∧
          ∀ k w w', L.mapWallet.find? k = some w → (markUnspentInput N L txin).mapWallet.find? k = some w' →
            ∀ n < w.vout.length, w'.isSpent n = true → w.isSpent n = true := by
        unfold markUnspentInput
        split
        next P hf =>
          split
          next out ho =>
            split_ifs
            · refine ⟨SameTxs.setRecord hf rfl, fun k w w' hw hw' n hn h => ?_⟩
              by_cases hk : k = txin.hash
              · subst hk; rw [hw] at hf; cases hf
                simp only [find?_setRecord, if_true, Option.some.injEq] at hw'; subst hw'
                rw [WalletTx.isSpent_setSpent false hn] at h
                split_ifs at h; exact h
              · simp only [find?_setRecord, hk, if_false, hw, Option.some.injEq] at hw'
                subst hw'; exact h
            · exact ⟨SameTxs.refl L, fun k w w' hw hw' n _ h => by rw [hw] at hw'; cases hw'; exact h⟩
          next => exact ⟨SameTxs.refl L, fun k w w' hw hw' n _ h => by rw [hw] at hw'; cases hw'; exact h⟩
        next => exact ⟨SameTxs.refl L, fun k w w' hw hw' n _ h => by rw [hw] at hw'; cases hw'; exact h⟩
      obtain ⟨hs₁, hf₁⟩ := step
      obtain ⟨hs₂, hf₂⟩ := ih (markUnspentInput N L txin)
      refine ⟨hs₁.trans hs₂, fun k w w' hw hw' n hn h => ?_⟩
      obtain ⟨w₁, hw₁, ht₁⟩ := hs₁.forth hw
      have hn₁ : n < w₁.vout.length := by rw [show w₁.vout = w.vout from congrArg Tx.vout ht₁]; exact hn
      exact hf₁ k w w₁ hw hw₁ n hn (hf₂ k w₁ w' hw₁ hw' n hn₁ h)

theorem eraseFromWallet_back {hash : Nat} {dbOk : Bool} {L : Ledger} {k : Nat} {w : WalletTx}
    (h : (eraseFromWallet hash dbOk L).ledger.mapWallet.find? k = some w) : L.mapWallet.find? k = some w := by
  unfold eraseFromWallet at h
  split_ifs at h
  · simp only [StdMap.find?_erase] at h
    split_ifs at h; exact h
  · exact h

/-- CWallet::ResendWalletTransactions, its ledger part. -/
def resendWalletTransactions (fForce due : Bool) (nTimeBestReceived : Int) (valid : WalletTx → Bool)
    (L : Ledger) : Ledger :=
  if !fForce && !due then L
  else
    let sorted := ((L.mapWallet.entries.map Prod.snd).filter fun w =>
      fForce || decide (5 * 60 < nTimeBestReceived - w.nTimeReceived)).mergeSort
        fun a b => decide (a.nTimeReceived ≤ b.nTimeReceived)
    (sorted.filter fun w => !valid w).foldl
      (fun L w => (eraseFromWallet (N.getHash w.toTx) true L).ledger) L

theorem resendWalletTransactions_back (fForce due : Bool) (nTimeBestReceived : Int)
    (valid : WalletTx → Bool) {L : Ledger} {k : Nat} {w : WalletTx}
    (h : (resendWalletTransactions N fForce due nTimeBestReceived valid L).mapWallet.find? k = some w) :
    L.mapWallet.find? k = some w := by
  have erase_back : ∀ (ws : List WalletTx) (L : Ledger),
      (ws.foldl (fun L w => (eraseFromWallet (N.getHash w.toTx) true L).ledger) L).mapWallet.find? k
        = some w → L.mapWallet.find? k = some w := by
    intro ws
    induction ws with
    | nil => exact fun _ h => h
    | cons x ws ih => exact fun L h => eraseFromWallet_back (ih _ h)
  unfold resendWalletTransactions at h
  split_ifs at h
  · exact h
  · exact erase_back _ L h

end Ledger

/-- The calls on the ledger, with the outcomes of what they read from outside the wallet. -/
inductive LedgerCall
  | addToWallet (wtxIn : WalletTx) (nNow : Int) (writeOk : Bool)
  | addToWalletIfInvolvingMe (tx : Tx) (pblock : Option Ledger.Block) (fUpdate : Bool) (nNow : Int)
      (writeOk : Bool)
  | commitTransaction (fDevbuildCripple : Bool) (wtxNew : WalletTx) (nNow : Int) (writeOk accepted : Bool)
  | disableTransaction (tx : Tx)
  | eraseFromWallet (hash : Nat) (dbOk : Bool)
  | resendWalletTransactions (fForce due : Bool) (nTimeBestReceived : Int) (valid : WalletTx → Bool)

namespace LedgerCall

variable (N : Node)

/-- The ledger a call leaves, whether it returned or threw. -/
def run : LedgerCall → Ledger → Ledger
  | addToWallet wtxIn nNow writeOk, L => (L.addToWallet N wtxIn nNow writeOk).ledger
  | addToWalletIfInvolvingMe tx pblock fUpdate nNow writeOk, L =>
    (L.addToWalletIfInvolvingMe N tx pblock fUpdate nNow writeOk).ledger
  | commitTransaction fDevbuildCripple wtxNew nNow writeOk accepted, L =>
    (L.commitTransaction N fDevbuildCripple wtxNew nNow writeOk accepted).ledger
  | disableTransaction tx, L => L.disableTransaction N tx
  | eraseFromWallet hash dbOk, L => (L.eraseFromWallet hash dbOk).ledger
  | resendWalletTransactions fForce due nTimeBestReceived valid, L =>
    L.resendWalletTransactions N fForce due nTimeBestReceived valid

end LedgerCall

/-- The ledger after a sequence of calls. -/
def runCalls (N : Node) (calls : List LedgerCall) (L : Ledger) : Ledger :=
  calls.foldl (fun L c => c.run N L) L

/-- Every call of the sequence meets `P` in the ledger it is made on. -/
def CallsMeet (N : Node) (P : Ledger → LedgerCall → Prop) : Ledger → List LedgerCall → Prop
  | _, [] => True
  | L, c :: cs => P L c ∧ CallsMeet N P (c.run N L) cs

theorem runCalls_invariant {N : Node} {P : Ledger → LedgerCall → Prop} {I : Ledger → Prop}
    (step : ∀ L c, I L → P L c → I (c.run N L)) :
    ∀ (calls : List LedgerCall) (L : Ledger), I L → CallsMeet N P L calls → I (runCalls N calls L)
  | [], _, hI, _ => hI
  | c :: cs, L, hI, ⟨hc, hcs⟩ => runCalls_invariant step cs (c.run N L) (step L c hI hc) hcs

end GridcoinWallet
