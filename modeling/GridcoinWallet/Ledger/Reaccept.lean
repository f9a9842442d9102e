import GridcoinWallet.Ledger.Update
import Mathlib.Data.List.Dedup

namespace GridcoinWallet

namespace Ledger

/-- A block of the chain as ScanForWalletTransactions reads it: its time, the block SetMerkleBranch
sees, and its transactions. -/
structure ChainBlock where
  nTime : Int
  block : Block
  vtx : List Tx

/-- The ledger keeps every hash it holds: records may change, none goes away. -/
def KeepsKeys (L L' : Ledger) : Prop := ∀ k, (L.mapWallet.find? k).isSome → (L'.mapWallet.find? k).isSome

namespace KeepsKeys

theorem refl (L : Ledger) : L.KeepsKeys L := fun _ h => h

theorem trans {L₁ L₂ L₃ : Ledger} (h₁ : L₁.KeepsKeys L₂) (h₂ : L₂.KeepsKeys L₃) : L₁.KeepsKeys L₃ :=
  fun k h => h₂ k (h₁ k h)

theorem of_sameTxs {L L' : Ledger} (h : SameTxs L L') : L.KeepsKeys L' := fun k hk => by
  obtain ⟨w, hw⟩ := Option.isSome_iff_exists.mp hk
  obtain ⟨w', hw', -⟩ := h.forth hw
  simp [hw']

theorem isNone {L L' : Ledger} (h : L.KeepsKeys L') {k : Nat} (hk : (L'.mapWallet.find? k).isNone) :
    (L.mapWallet.find? k).isNone := by
  cases hL : L.mapWallet.find? k with
  | none => rfl
  | some w =>
    have := h k (by simp [hL])
    rw [Option.isNone_iff_eq_none.mp hk] at this
    cases this

theorem setRecord (L : Ledger) (k : Nat) (w : WalletTx) : L.KeepsKeys (L.setRecord k w) := fun k' hk => by
  rw [find?_setRecord]
  split_ifs <;> simp [hk]

end KeepsKeys

section Reaccept

variable (N : Node)

theorem keepsKeys_storeRecord (L : Ledger) (wtxIn : WalletTx) (nNow : Int) : L.KeepsKeys (storeRecord N L wtxIn nNow) :=
  fun k hk => by
    rw [find?_storeRecord]
    split_ifs <;> simp [hk]

theorem keepsKeys_addToWallet (wtxIn : WalletTx) (nNow : Int) (writeOk : Bool) (L : Ledger) :
    L.KeepsKeys (addToWallet N wtxIn nNow writeOk L).ledger := by
  rw [addToWallet_ledger]
  split_ifs
  · exact keepsKeys_storeRecord N L wtxIn nNow
  · exact (keepsKeys_storeRecord N L wtxIn nNow).trans (.of_sameTxs (walletUpdateSpent_sameTxs N _ _ _))

theorem keepsKeys_addToWalletIfInvolvingMe (tx : Tx) (pblock : Option Block) (fUpdate : Bool) (nNow : Int)
    (writeOk : Bool) (L : Ledger) : L.KeepsKeys (addToWalletIfInvolvingMe N tx pblock fUpdate nNow writeOk L).ledger := by
  rcases addToWalletIfInvolvingMe_ledger N tx pblock fUpdate nNow writeOk L with h | ⟨-, h⟩ | ⟨-, h⟩ <;> rw [h]
  · exact .refl L
  · exact keepsKeys_addToWallet N _ nNow writeOk L
  · exact .of_sameTxs (walletUpdateSpent_sameTxs N tx false L)

theorem addToWalletIfInvolvingMe_true (tx : Tx) (pblock : Option Block) (nNow : Int) (writeOk : Bool) (L : Ledger)
    (h : (addToWalletIfInvolvingMe N tx pblock false nNow writeOk L).result = some true) :
    (L.mapWallet.find? (N.getHash tx)).isNone ∧
      ((addToWalletIfInvolvingMe N tx pblock false nNow writeOk L).ledger.mapWallet.find? (N.getHash tx)).isSome := by
  have htx : (involvingRecord N tx pblock).toTx = tx := by
    cases pblock <;> rfl
  unfold addToWalletIfInvolvingMe at h ⊢
  dsimp only at h ⊢
  split_ifs at h ⊢ with h₁ h₂
  · cases h
  · refine ⟨by simpa using h₁, ?_⟩
    unfold addToWallet at h ⊢
    dsimp only at h ⊢
    split_ifs at h ⊢
    · simp [htx]
    · have hs := Ledger.KeepsKeys.of_sameTxs (walletUpdateSpent_sameTxs N (storedRecord N L (involvingRecord N tx pblock) nNow).1.toTx
        (involvingRecord N tx pblock).hashBlock.isSome (storeRecord N L (involvingRecord N tx pblock) nNow))
      exact hs _ (by simp [htx])
  · simp only [Option.map_eq_some', Bool.false_eq_true, and_false, exists_false] at h

/-- The transactions of one block ScanForWalletTransactions reads, the count `ret` so far carried
along (`none`: AddToWalletIfInvolvingMe threw). -/
def scanTxs (pblock : Block) (fUpdate : Bool) (nNow : Int) (writeOk : Ledger → Tx → Bool) :
    List Tx → Ledger → Nat → Outcome Nat
  | [], L, ret => ⟨L, some ret⟩
  | tx :: txs, L, ret =>
    let r := addToWalletIfInvolvingMe N tx (some pblock) fUpdate nNow (writeOk L tx) L
    match r.result with
    | some b => scanTxs pblock fUpdate nNow writeOk txs r.ledger (if b then ret + 1 else ret)
    | none => ⟨r.ledger, none⟩

/-- The blocks ScanForWalletTransactions walks along `pnext`: one older than the wallet birthday
(nTimeFirstKey - 7200) is not read. -/
def scanBlocks (nTimeFirstKey : Int) (fUpdate : Bool) (nNow : Int) (writeOk : Ledger → Tx → Bool) :
    List ChainBlock → Ledger → Nat → Outcome Nat
  | [], L, ret => ⟨L, some ret⟩
  | pindex :: chain, L, ret =>
    if nTimeFirstKey ≠ 0 ∧ pindex.nTime < nTimeFirstKey - 7200 then
      scanBlocks nTimeFirstKey fUpdate nNow writeOk chain L ret
    else
      let r := scanTxs N pindex.block fUpdate nNow writeOk pindex.vtx L ret
      match r.result with
      | some ret => scanBlocks nTimeFirstKey fUpdate nNow writeOk chain r.ledger ret
      | none => r

/-- CWallet::ScanForWalletTransactions from the first block of `chain`: how many transactions
AddToWalletIfInvolvingMe returned true for. -/
def scanForWalletTransactions (chain : List ChainBlock) (nTimeFirstKey : Int) (fUpdate : Bool) (nNow : Int)
    (writeOk : Ledger → Tx → Bool) (L : Ledger) : Outcome Nat :=
  scanBlocks N nTimeFirstKey fUpdate nNow writeOk chain L 0

def chainHashes (chain : List ChainBlock) : List Nat := chain.flatMap fun b => b.vtx.map N.getHash

def missingChainTxs (chain : List ChainBlock) (L : Ledger) : Nat :=
  ((chainHashes N chain).dedup.filter fun h => (L.mapWallet.find? h).isNone).length

/-- The spent marks ReacceptWalletTransactions takes from a transaction's index entry. -/
def markFromIndex (wtx : WalletTx) (vSpent : List (Option Nat)) : WalletTx × List Nat :=
  (List.range vSpent.length).foldl (fun acc i =>
    if acc.1.isSpent i then acc
    else match vSpent[i]?, wtx.vout[i]? with
      | some (some pos), some out => if N.isMine out.scriptPubKey then (acc.1.setSpent i true, acc.2 ++ [pos]) else acc
      | _, _ => acc) (wtx, [])

/-- One record of the loop over mapWallet. -/
def reacceptRecord (txdb : Nat → Option (List (Option Nat))) (acc : Ledger × List Nat) (e : Nat × WalletTx) :
    Ledger × List Nat :=
  let wtx := e.2
  if (N.isCoinBase wtx.toTx && wtx.isSpent 0) || (N.isCoinStake wtx.toTx && wtx.isSpent 1) then acc
  else match txdb (N.getHash wtx.toTx) with
    | some vSpent =>
      if vSpent.length ≠ wtx.vout.length then acc
      else
        let r := markFromIndex N wtx vSpent
        if r.2 = [] then acc else (acc.1.setRecord e.1 r.1, acc.2 ++ r.2)
    | none => acc

/-- The loop over mapWallet of one round: the ledger after the marks, and vMissingTx. -/
def reacceptMarks (txdb : Nat → Option (List (Option Nat))) (L : Ledger) : Ledger × List Nat :=
  L.mapWallet.entries.foldl (reacceptRecord N txdb) (L, [])

/-- One round of the while(fRepeat) loop: the ledger after it and fRepeat (`none`: the rescan
threw). -/
def reacceptRound (txdb : Nat → Option (List (Option Nat))) (chain : List ChainBlock) (nTimeFirstKey nNow : Int)
    (writeOk : Ledger → Tx → Bool) (L : Ledger) : Outcome Bool :=
  let r := reacceptMarks N txdb L
  if r.2.isEmpty then ⟨r.1, some false⟩
  else
    let s := scanForWalletTransactions N chain nTimeFirstKey false nNow writeOk r.1
    ⟨s.ledger, s.result.map fun ret => decide (0 < ret)⟩

/-- CWallet::ReacceptWalletTransactions with at most `fuel` rounds (`none`: still repeating). -/
def reacceptLoop (txdb : Nat → Option (List (Option Nat))) (chain : List ChainBlock) (nTimeFirstKey nNow : Int)
    (writeOk : Ledger → Tx → Bool) : Nat → Ledger → Option (Outcome Unit)
  | 0, _ => none
  | fuel + 1, L =>
    let r := reacceptRound N txdb chain nTimeFirstKey nNow writeOk L
    match r.result with
    | some true => reacceptLoop txdb chain nTimeFirstKey nNow writeOk fuel r.ledger
    | some false => some ⟨r.ledger, some ()⟩
    | none => some ⟨r.ledger, none⟩

variable (nTimeFirstKey nNow : Int) (writeOk : Ledger → Tx → Bool)

theorem keepsKeys_scanTxs (pblock : Block) : ∀ (txs : List Tx) (L : Ledger) (ret : Nat),
    L.KeepsKeys (scanTxs N pblock false nNow writeOk txs L ret).ledger
  | [], L, _ => .refl L
  | tx :: txs, L, ret => by
    have hg := keepsKeys_addToWalletIfInvolvingMe N tx (some pblock) false nNow (writeOk L tx) L
    simp only [scanTxs]
    split
    · exact hg.trans (keepsKeys_scanTxs pblock txs _ _)
    · exact hg

theorem scanTxs_new (pblock : Block) : ∀ (txs : List Tx) (L : Ledger) (ret ret' : Nat),
    (scanTxs N pblock false nNow writeOk txs L ret).result = some ret' → ret < ret' →
      ∃ tx ∈ txs, (L.mapWallet.find? (N.getHash tx)).isNone ∧
        ((scanTxs N pblock false nNow writeOk txs L ret).ledger.mapWallet.find? (N.getHash tx)).isSome
  | [], _, ret, ret', h, hlt => by
    simp only [scanTxs, Option.some.injEq] at h
    omega
  | tx :: txs, L, ret, ret', h, hlt => by
    simp only [scanTxs] at h ⊢
    split at h
    next b hb =>
      cases b
      · obtain ⟨tx', htx', hnone, hsome⟩ := scanTxs_new pblock txs _ _ ret' h hlt
        refine ⟨tx', List.mem_cons_of_mem tx htx', ?_, hsome⟩
        exact (keepsKeys_addToWalletIfInvolvingMe N tx (some pblock) false nNow (writeOk L tx) L).isNone hnone
      · obtain ⟨hnone, hsome⟩ := addToWalletIfInvolvingMe_true N tx (some pblock) nNow (writeOk L tx) L hb
        exact ⟨tx, List.mem_cons_self tx txs, hnone, keepsKeys_scanTxs N nNow writeOk pblock txs _ _ _ hsome⟩
    next => cases h

theorem keepsKeys_scanBlocks : ∀ (chain : List ChainBlock) (L : Ledger) (ret : Nat),
    L.KeepsKeys (scanBlocks N nTimeFirstKey false nNow writeOk chain L ret).ledger
  | [], L, _ => .refl L
  | pindex :: chain, L, ret => by
    simp only [scanBlocks]
    split_ifs
    · exact keepsKeys_scanBlocks chain L ret
    · have hg := keepsKeys_scanTxs N nNow writeOk pindex.block pindex.vtx L ret
      split
      · exact hg.trans (keepsKeys_scanBlocks chain _ _)
      · exact hg

theorem scanBlocks_new : ∀ (chain : List ChainBlock) (L : Ledger) (ret ret' : Nat),
    (scanBlocks N nTimeFirstKey false nNow writeOk chain L ret).result = some ret' → ret < ret' →
      ∃ h ∈ chainHashes N chain, (L.mapWallet.find? h).isNone ∧
        ((scanBlocks N nTimeFirstKey false nNow writeOk chain L ret).ledger.mapWallet.find? h).isSome
  | [], _, ret, ret', h, hlt => by
    simp only [scanBlocks, Option.some.injEq] at h
    omega
  | pindex :: chain, L, ret, ret', h, hlt => by
    have hsub : ∀ h ∈ chainHashes N chain, h ∈ chainHashes N (pindex :: chain) := fun h hh => by
      simp only [chainHashes, List.flatMap_cons, List.mem_append] at hh ⊢
      exact Or.inr hh
    simp only [scanBlocks] at h ⊢
    split_ifs at h ⊢
    · obtain ⟨k, hk, hnone, hsome⟩ := scanBlocks_new chain L ret ret' h hlt
      exact ⟨k, hsub k hk, hnone, hsome⟩
    · split at h
      next r1 hr1 =>
        rcases Nat.lt_or_ge ret r1 with hlt1 | hge1
        · obtain ⟨tx, htx, hnone, hsome⟩ := scanTxs_new N nNow writeOk pindex.block pindex.vtx L ret r1 hr1 hlt1
          refine ⟨N.getHash tx, ?_, hnone, keepsKeys_scanBlocks N nTimeFirstKey nNow writeOk chain _ r1 _ hsome⟩
          simp only [chainHashes, List.flatMap_cons, List.mem_append, List.mem_map]
          exact Or.inl ⟨tx, htx, rfl⟩
        · obtain ⟨k, hk, hnone, hsome⟩ := scanBlocks_new chain _ r1 ret' h (by omega)
          exact ⟨k, hsub k hk, (keepsKeys_scanTxs N nNow writeOk pindex.block pindex.vtx L ret).isNone hnone, hsome⟩
      next hr1 => simp [hr1] at h

theorem keepsKeys_reacceptMarks (txdb : Nat → Option (List (Option Nat))) (L : Ledger) :
    L.KeepsKeys (reacceptMarks N txdb L).1 := by
  refine List.foldlRecOn (motive := fun acc : Ledger × List Nat => L.KeepsKeys acc.1) _ _ (L, []) (.refl L)
    fun acc hacc e _ => ?_
  unfold reacceptRecord
  dsimp only
  split_ifs
  · exact hacc
  · split
    · split_ifs
      · exact hacc
      · exact hacc
      · exact hacc.trans (.setRecord _ _ _)
    · exact hacc

theorem missingChainTxs_lt (chain : List ChainBlock) {L L' : Ledger} (hg : L.KeepsKeys L') {k : Nat}
    (hk : k ∈ chainHashes N chain) (hnone : (L.mapWallet.find? k).isNone) (hsome : (L'.mapWallet.find? k).isSome) :
    missingChainTxs N chain L' < missingChainTxs N chain L := by
  unfold missingChainTxs
  set m := (chainHashes N chain).dedup.filter fun h => (L.mapWallet.find? h).isNone
  have hfilter : ((chainHashes N chain).dedup.filter fun h => (L'.mapWallet.find? h).isNone) =
      m.filter fun h => (L'.mapWallet.find? h).isNone := by
    rw [List.filter_filter]
    refine List.filter_congr fun h _ => ?_
    cases hh : (L'.mapWallet.find? h).isNone
    · rfl
    · simp [hg.isNone hh]
  have hkm : k ∈ m := List.mem_filter.mpr ⟨List.mem_dedup.mpr hk, hnone⟩
  rw [hfilter]
  refine lt_of_le_of_ne (List.length_filter_le _ _) fun heq => ?_
  have := List.filter_length_eq_length.mp heq k hkm
  simp [Option.isSome_iff_ne_none.mp hsome] at this

theorem reacceptRound_repeat (txdb : Nat → Option (List (Option Nat))) (chain : List ChainBlock) (L : Ledger)
    (h : (reacceptRound N txdb chain nTimeFirstKey nNow writeOk L).result = some true) :
    (reacceptMarks N txdb L).2 ≠ [] ∧
      (∃ k ∈ chainHashes N chain, ((reacceptMarks N txdb L).1.mapWallet.find? k).isNone ∧
        ((reacceptRound N txdb chain nTimeFirstKey nNow writeOk L).ledger.mapWallet.find? k).isSome) ∧
      missingChainTxs N chain (reacceptRound N txdb chain nTimeFirstKey nNow writeOk L).ledger <
        missingChainTxs N chain L := by
  unfold reacceptRound at h ⊢
  dsimp only at h ⊢
  split_ifs at h ⊢ with hempty
  · cases h
  obtain ⟨ret, hret, hpos⟩ := Option.map_eq_some'.mp h
  obtain ⟨k, hk, hnone, hsome⟩ := scanBlocks_new N nTimeFirstKey nNow writeOk chain _ 0 ret hret (by simpa using hpos)
  have hmarks := keepsKeys_reacceptMarks N txdb L
  refine ⟨fun hnil => hempty (by rw [hnil]; rfl), ⟨k, hk, hnone, hsome⟩, ?_⟩
  exact missingChainTxs_lt N chain (hmarks.trans (keepsKeys_scanBlocks N nTimeFirstKey nNow writeOk chain _ 0)) hk
    (hmarks.isNone hnone) hsome

theorem reacceptLoop_isSome (txdb : Nat → Option (List (Option Nat))) (chain : List ChainBlock) :
    ∀ fuel (L : Ledger), missingChainTxs N chain L < fuel →
      (reacceptLoop N txdb chain nTimeFirstKey nNow writeOk fuel L).isSome
  | 0, _, h => absurd h (Nat.not_lt_zero _)
  | fuel + 1, L, h => by
    simp only [reacceptLoop]
    split
    next hr =>
      have := (reacceptRound_repeat N nTimeFirstKey nNow writeOk txdb chain L hr).2.2
      exact reacceptLoop_isSome txdb chain fuel _ (by omega)
    all_goals rfl

/-- ReacceptWalletTransactions ends whatever each write returns: more rounds than missing chain
transactions suffice. -/
theorem reacceptWalletTransactions_terminates (txdb : Nat → Option (List (Option Nat))) (chain : List ChainBlock) :
    (∀ (L : Ledger) fuel, missingChainTxs N chain L < fuel →
      (reacceptLoop N txdb chain nTimeFirstKey nNow writeOk fuel L).isSome) ∧
    ∀ L : Ledger, (reacceptRound N txdb chain nTimeFirstKey nNow writeOk L).result = some true →
      (reacceptMarks N txdb L).2 ≠ [] ∧
        (∃ k ∈ chainHashes N chain, ((reacceptMarks N txdb L).1.mapWallet.find? k).isNone ∧
          ((reacceptRound N txdb chain nTimeFirstKey nNow writeOk L).ledger.mapWallet.find? k).isSome) ∧
        missingChainTxs N chain (reacceptRound N txdb chain nTimeFirstKey nNow writeOk L).ledger <
          missingChainTxs N chain L :=
  ⟨fun L fuel h => reacceptLoop_isSome N nTimeFirstKey nNow writeOk txdb chain fuel L h,
    fun L h => reacceptRound_repeat N nTimeFirstKey nNow writeOk txdb chain L h⟩

end Reaccept

end Ledger

end GridcoinWallet
