import GridcoinWallet.Ledger.SpentFlags
import Mathlib.Algebra.Order.Group.Int

namespace GridcoinWallet

theorem WalletTx.isSpent_of_unflagged {w : WalletTx} (h : ∀ b ∈ w.vfSpent, b = false) (n : Nat) :
    w.isSpent n = false := by
  unfold isSpent
  rw [List.getD_eq_getElem?_getD]
  cases hn : w.vfSpent[n]? with
  | none => rfl
  | some b =>
    obtain ⟨hlt, rfl⟩ := List.getElem?_eq_some_iff.mp hn
    exact h _ (List.getElem_mem hlt)

namespace Ledger

variable (N : Node)

/-- Every spent flag on an output the wallet owns is accounted for by an input of a record the
wallet holds. -/
def NoPhantomSpent (L : Ledger) : Prop :=
  ∀ k P, L.mapWallet.find? k = some P → ∀ n, P.owns N n = true → P.isSpent n = true →
    ∃ k' W, L.mapWallet.find? k' = some W ∧ (⟨k, n⟩ : OutPoint) ∈ W.vin

/-- Every owned spent flag of L' is one of the outputs `V` or an owned spent flag of L. -/
def FlagsFrom (L L' : Ledger) (V : List OutPoint) : Prop :=
  ∀ k P', L'.mapWallet.find? k = some P' → ∀ n, P'.owns N n = true → P'.isSpent n = true →
    ⟨k, n⟩ ∈ V ∨ ∃ P, L.mapWallet.find? k = some P ∧ P.owns N n = true ∧ P.isSpent n = true

/-- Every record of L is still in L', with the same inputs. -/
def KeepsInputs (L L' : Ledger) : Prop :=
  ∀ k W, L.mapWallet.find? k = some W → ∃ W', L'.mapWallet.find? k = some W' ∧ W'.vin = W.vin

theorem SameTxs.keepsInputs {L L' : Ledger} (h : SameTxs L L') : KeepsInputs L L' :=
  fun _ _ hW => (h.forth hW).imp fun _ ⟨h₁, h₂⟩ => ⟨h₁, congrArg Tx.vin h₂⟩

theorem NoPhantomSpent.transfer {L L' : Ledger} {V : List OutPoint} (h : L.NoPhantomSpent N)
    (flags : FlagsFrom N L L' V) (keeps : KeepsInputs L L')
    (covers : ∀ p ∈ V, ∃ k W', L'.mapWallet.find? k = some W' ∧ p ∈ W'.vin) : L'.NoPhantomSpent N := by
  intro k P' hP' n hown hspent
  rcases flags k P' hP' n hown hspent with hV | ⟨P, hP, hown', hspent'⟩
  · exact covers _ hV
  · obtain ⟨k', W, hW, hin⟩ := h k P hP n hown' hspent'
    obtain ⟨W', hW', hvin⟩ := keeps k' W hW
    exact ⟨k', W', hW', hvin ▸ hin⟩

theorem flagsFrom_walletUpdateSpent (tx : Tx) (fBlock : Bool) (L : Ledger) :
    FlagsFrom N L (walletUpdateSpent N tx fBlock L).ledger tx.vin := by
  intro k P' hP' n hown hs
  obtain ⟨P, hP, hPt⟩ := (walletUpdateSpent_sameTxs N tx fBlock L).back hP'
  rw [WalletTx.owns_congr hPt] at hown
  rcases isSpent_walletUpdateSpent_le N hP hP' (WalletTx.lt_of_owns hown) hs with h | ⟨h, -⟩
  · exact Or.inr ⟨P, hP, hown, h⟩
  · exact Or.inl h

theorem NoPhantomSpent.walletUpdateSpent {L : Ledger} (h : L.NoPhantomSpent N) {tx : Tx} {fBlock : Bool}
    {k : Nat} {w : WalletTx} (hw : L.mapWallet.find? k = some w) (hwt : w.toTx = tx) :
    (walletUpdateSpent N tx fBlock L).ledger.NoPhantomSpent N := by
  have hs := walletUpdateSpent_sameTxs N tx fBlock L
  refine h.transfer N (flagsFrom_walletUpdateSpent N tx fBlock L) hs.keepsInputs fun p hp => ?_
  obtain ⟨W', hW', hvin⟩ := hs.keepsInputs k w hw
  exact ⟨k, W', hW', by rw [hvin, hwt]; exact hp⟩

theorem NoPhantomSpent.storeRecord {L : Ledger} (h : L.NoPhantomSpent N) {wtxIn : WalletTx} (nNow : Int)
    (hflags : ∀ b ∈ wtxIn.vfSpent, b = false) : (storeRecord N L wtxIn nNow).NoPhantomSpent N := by
  refine h.transfer N (V := []) (fun k P' hP' n hown hs => ?_) (fun k W hW => ?_) (by simp)
  · rw [find?_storeRecord] at hP'
    split_ifs at hP' with hk
    · cases hL : L.mapWallet.find? (N.getHash wtxIn.toTx) with
      | none =>
        rw [storedRecord_of_none N nNow hL] at hP'
        cases hP'
        have hfree : ({ wtxIn with nTimeReceived := nNow, nOrderPos := L.nOrderPosNext } : WalletTx).isSpent n =
            false := WalletTx.isSpent_of_unflagged hflags n
        exact absurd (hs.symm.trans hfree) (by decide)
      | some wtx =>
        rw [storedRecord_of_some N nNow hL] at hP'
        cases hP'
        rw [isSpent_mergeRecord_of_unspent hflags] at hs
        exact Or.inr ⟨wtx, hk ▸ hL, hown, hs⟩
    · exact Or.inr ⟨P', hP', hown, hs⟩
  · by_cases hk : k = N.getHash wtxIn.toTx
    · subst hk
      rw [find?_storeRecord, if_pos rfl, storedRecord_of_some N nNow hW]
      exact ⟨_, rfl, rfl⟩
    · exact ⟨W, by rw [find?_storeRecord, if_neg hk]; exact hW, rfl⟩

theorem NoPhantomSpent.addToWallet {L : Ledger} (h : L.NoPhantomSpent N) {wtxIn : WalletTx} {nNow : Int}
    {writeOk : Bool} (hflags : ∀ b ∈ wtxIn.vfSpent, b = false) :
    (addToWallet N wtxIn nNow writeOk L).ledger.NoPhantomSpent N := by
  have h₁ := h.storeRecord N nNow hflags
  rw [addToWallet_ledger]
  split_ifs
  · exact h₁
  · exact h₁.walletUpdateSpent N (by rw [find?_storeRecord, if_pos rfl]) rfl

theorem addToWallet_holds {L : Ledger} {wtxIn : WalletTx} (nNow : Int) (writeOk : Bool)
    (hnew : L.mapWallet.find? (N.getHash wtxIn.toTx) = none) :
    ∃ w, (addToWallet N wtxIn nNow writeOk L).ledger.mapWallet.find? (N.getHash wtxIn.toTx) = some w ∧
      w.vin = wtxIn.vin := by
  have hs : (storeRecord N L wtxIn nNow).mapWallet.find? (N.getHash wtxIn.toTx) =
      some { wtxIn with nTimeReceived := nNow, nOrderPos := L.nOrderPosNext } := by
    rw [find?_storeRecord, if_pos rfl, storedRecord_of_none N nNow hnew]
  rw [addToWallet_ledger]
  split_ifs
  · exact ⟨_, hs, rfl⟩
  · obtain ⟨W', hW', hv⟩ := (walletUpdateSpent_sameTxs N _ _ _).keepsInputs _ _ hs
    exact ⟨W', hW', hv⟩

theorem NoPhantomSpent.commitTransaction {L : Ledger} (h : L.NoPhantomSpent N) {fDevbuildCripple : Bool}
    {wtxNew : WalletTx} {nNow : Int} {writeOk accepted : Bool} (hflags : ∀ b ∈ wtxNew.vfSpent, b = false)
    (hnew : L.mapWallet.find? (N.getHash wtxNew.toTx) = none) :
    (commitTransaction N fDevbuildCripple wtxNew nNow writeOk accepted L).ledger.NoPhantomSpent N := by
  have ha : (Ledger.addToWallet N wtxNew nNow writeOk L).ledger.NoPhantomSpent N := h.addToWallet N hflags
  rcases commitTransaction_ledger N fDevbuildCripple wtxNew nNow writeOk accepted L with hc | ⟨-, hc⟩ | ⟨-, hc⟩ <;>
    rw [hc]
  · exact h
  · exact ha
  obtain ⟨w, hw, hvin⟩ := addToWallet_holds N nNow writeOk hnew
  refine ha.transfer N (V := wtxNew.vin) (fun k P' hP' n hown hs => ?_) (fun k W hW => ?_) fun p hp => ?_
  · rcases markCoinsSpent_back nNow _ _ hP' with ⟨-, hvout⟩ | ⟨P, hP, hPt, hf⟩
    · simp [WalletTx.owns, hvout] at hown
    · rw [WalletTx.owns_congr hPt] at hown
      exact (hf n (WalletTx.lt_of_owns hown) hs).symm.imp id fun h => ⟨P, hP, hown, h⟩
  · obtain ⟨W', hW', hWt, -⟩ := markCoinsSpent_forth nNow wtxNew.vin _ hW
    exact ⟨W', hW', congrArg Tx.vin hWt⟩
  · obtain ⟨W', hW', hWt, -⟩ := markCoinsSpent_forth nNow wtxNew.vin _ hw
    exact ⟨_, W', hW', by rw [congrArg Tx.vin hWt, hvin]; exact hp⟩

theorem NoPhantomSpent.disableTransaction {L : Ledger} (h : L.NoPhantomSpent N) (tx : Tx) :
    (disableTransaction N tx L).NoPhantomSpent N := by
  obtain ⟨hs, hf⟩ := disableTransaction_spec N tx L
  refine h.transfer N (V := []) (fun k P' hP' n hown hspent => Or.inr ?_) hs.keepsInputs (by simp)
  obtain ⟨P, hP, hPt⟩ := hs.back hP'
  rw [WalletTx.owns_congr hPt] at hown
  exact ⟨P, hP, hown, hf k P P' hP hP' n (WalletTx.lt_of_owns hown) hspent⟩

/-- Every output the wallet owns is worth something. -/
def OwnedPositive (L : Ledger) : Prop :=
  ∀ e ∈ L.mapWallet.entries, ∀ o ∈ e.2.vout, N.isMine o.scriptPubKey = true → 0 < o.nValue

instance (L : Ledger) : Decidable (L.OwnedPositive N) :=
  inferInstanceAs (Decidable (∀ e ∈ L.mapWallet.entries, ∀ o ∈ e.2.vout, N.isMine o.scriptPubKey = true → 0 < o.nValue))

theorem getDebitIn_nonneg {L : Ledger} (hpos : L.OwnedPositive N) (p : OutPoint) : 0 ≤ L.getDebitIn N p := by
  unfold getDebitIn
  split
  · rename_i P hP
    split
    · rename_i o ho
      split_ifs with hm
      · obtain ⟨hlt, rfl⟩ := List.getElem?_eq_some_iff.mp ho
        exact le_of_lt (hpos _ ((StdMap.find?_iff_mem _).mp hP) _ (List.getElem_mem hlt) hm)
      · exact le_refl 0
    · exact le_refl 0
  · exact le_refl 0

theorem isFromMe_of_spends {L : Ledger} (hpos : L.OwnedPositive N) {tx : Tx} {p : OutPoint}
    (hp : p ∈ tx.vin) {P : WalletTx} (hP : L.mapWallet.find? p.hash = some P) (hown : P.owns N p.n = true) :
    L.isFromMe N tx = true := by
  have hdebit : 0 < L.getDebitIn N p := by
    unfold WalletTx.owns at hown
    split at hown
    · rename_i o ho
      obtain ⟨hlt, rfl⟩ := List.getElem?_eq_some_iff.mp ho
      have := hpos _ ((StdMap.find?_iff_mem _).mp hP) _ (List.getElem_mem hlt) hown
      simpa [getDebitIn, hP, List.getElem?_eq_getElem hlt, hown] using this
    · cases hown
  have hle : L.getDebitIn N p ≤ (tx.vin.map (L.getDebitIn N)).sum :=
    @List.single_le_sum Int _ _ (fun x hx => by
      obtain ⟨q, -, rfl⟩ := List.mem_map.mp hx
      exact getDebitIn_nonneg N hpos q) _ (List.mem_map_of_mem _ hp)
  exact decide_eq_true (lt_of_lt_of_le hdebit hle)

theorem NoPhantomSpent.addToWalletIfInvolvingMe {L : Ledger} (h : L.NoPhantomSpent N) (hpos : L.OwnedPositive N)
    {tx : Tx} {pblock : Option Block} {fUpdate : Bool} {nNow : Int} {writeOk : Bool} :
    (addToWalletIfInvolvingMe N tx pblock fUpdate nNow writeOk L).ledger.NoPhantomSpent N := by
  rcases addToWalletIfInvolvingMe_ledger N tx pblock fUpdate nNow writeOk L with hl | ⟨-, hl⟩ | ⟨hfrom, hl⟩ <;> rw [hl]
  · exact h
  · exact h.addToWallet N (by simp)
  · have hs := walletUpdateSpent_sameTxs N tx false L
    refine h.transfer N (V := []) (fun k P' hP' n hown hspent => Or.inr ?_) hs.keepsInputs (by simp)
    obtain ⟨P, hP, hPt⟩ := hs.back hP'
    rw [WalletTx.owns_congr hPt] at hown
    rcases isSpent_walletUpdateSpent_le N hP hP' (WalletTx.lt_of_owns hown) hspent with hs' | ⟨hin, -⟩
    · exact ⟨P, hP, hown, hs'⟩
    · exact absurd (isFromMe_of_spends N hpos hin hP hown) (by rw [hfrom]; decide)

/-- The calls of a run that adds no phantom spent flag. -/
def AddsNoPhantom : Ledger → LedgerCall → Prop
  | _, .addToWallet wtxIn _ _ => ∀ b ∈ wtxIn.vfSpent, b = false
  | L, .addToWalletIfInvolvingMe _ _ _ _ _ => L.OwnedPositive N
  | L, .commitTransaction _ wtxNew _ _ _ =>
    (∀ b ∈ wtxNew.vfSpent, b = false) ∧ L.mapWallet.find? (N.getHash wtxNew.toTx) = none
  | _, .disableTransaction _ => True
  | _, .eraseFromWallet _ _ => False
  | _, .resendWalletTransactions _ _ _ _ => False

instance : ∀ (L : Ledger) (c : LedgerCall), Decidable (AddsNoPhantom N L c)
  | _, .addToWallet wtxIn _ _ => inferInstanceAs (Decidable (∀ b ∈ wtxIn.vfSpent, b = false))
  | L, .addToWalletIfInvolvingMe _ _ _ _ _ => inferInstanceAs (Decidable (L.OwnedPositive N))
  | L, .commitTransaction _ wtxNew _ _ _ => inferInstanceAs
    (Decidable ((∀ b ∈ wtxNew.vfSpent, b = false) ∧ L.mapWallet.find? (N.getHash wtxNew.toTx) = none))
  | _, .disableTransaction _ => isTrue trivial
  | _, .eraseFromWallet _ _ => isFalse id
  | _, .resendWalletTransactions _ _ _ _ => isFalse id

theorem NoPhantomSpent.run {L : Ledger} (h : L.NoPhantomSpent N) {c : LedgerCall} (hadm : AddsNoPhantom N L c) :
    (c.run N L).NoPhantomSpent N := by
  cases c with
  | addToWallet => exact h.addToWallet N hadm
  | addToWalletIfInvolvingMe => exact h.addToWalletIfInvolvingMe N hadm
  | commitTransaction => exact h.commitTransaction N hadm.1 hadm.2
  | disableTransaction tx => exact h.disableTransaction N tx
  | eraseFromWallet => exact hadm.elim
  | resendWalletTransactions => exact hadm.elim

end Ledger

theorem runCalls_noPhantomSpent (N : Node) (fFileBacked : Bool) (calls : List LedgerCall)
    (hadm : CallsMeet N (Ledger.AddsNoPhantom N) (Ledger.empty fFileBacked) calls) :
    (runCalls N calls (Ledger.empty fFileBacked)).NoPhantomSpent N ∧
      (∀ (L : Ledger) hash dbOk k w, (L.eraseFromWallet hash dbOk).ledger.mapWallet.find? k = some w →
        L.mapWallet.find? k = some w) ∧
      (∀ (L : Ledger) fForce due nTimeBestReceived valid k w,
        (L.resendWalletTransactions N fForce due nTimeBestReceived valid).mapWallet.find? k = some w →
        L.mapWallet.find? k = some w) :=
  ⟨runCalls_invariant (fun _ _ h hc => h.run N hc) calls _
      (fun _ _ hP => by simp [Ledger.empty] at hP) hadm,
    fun _ _ _ _ _ h => Ledger.eraseFromWallet_back h,
    fun _ fForce due t valid _ _ h => Ledger.resendWalletTransactions_back N fForce due t valid h⟩

def parentChildCalls : List LedgerCall :=
  [.addToWallet (WalletTx.ofTx parentTx) 0 true, .commitTransaction false (WalletTx.ofTx childTx) 0 true true,
    .disableTransaction parentTx]

theorem runCalls_noPhantomSpent_parentChild :
    CallsMeet ownAllNode (Ledger.AddsNoPhantom ownAllNode) (Ledger.empty true) parentChildCalls ∧
      (runCalls ownAllNode parentChildCalls (Ledger.empty true)).NoPhantomSpent ownAllNode :=
  have hadm : CallsMeet ownAllNode (Ledger.AddsNoPhantom ownAllNode) (Ledger.empty true) parentChildCalls :=
    ⟨by decide, by decide, trivial, trivial⟩
  ⟨hadm, (runCalls_noPhantomSpent ownAllNode true parentChildCalls hadm).1⟩

def rejectedCommitCalls : List LedgerCall :=
  [.addToWallet (WalletTx.ofTx parentTx) 0 true, .commitTransaction false (WalletTx.ofTx childTx) 0 true false,
    .eraseFromWallet 2 true]

/-- Erasing the only record that spends an owned output leaves the output marked spent. -/
theorem rejectedCommit_leaves_phantom :
    ¬ (runCalls ownAllNode rejectedCommitCalls (Ledger.empty true)).NoPhantomSpent ownAllNode := fun h => by
  obtain ⟨k, W, hW, hin⟩ := h 1 _ rfl 0 rfl rfl
  have hnone : ∀ e ∈ (runCalls ownAllNode rejectedCommitCalls (Ledger.empty true)).mapWallet.entries,
      (⟨1, 0⟩ : OutPoint) ∉ e.2.vin := by decide
  exact hnone _ ((StdMap.find?_iff_mem _).mp hW) hin

end GridcoinWallet
