import GridcoinWallet.Select.Sufficiency

namespace GridcoinWallet

theorem WalletTx.owns_congr {N : Node} {w w' : WalletTx} (h : w'.toTx = w.toTx) (n : Nat) :
    w'.owns N n = w.owns N n := by
  simp only [owns, congrArg Tx.vout h]

theorem COutput.owns (N : Node) (o : COutput) : o.tx.owns N o.i = N.isMine o.out.scriptPubKey := by
  simp only [WalletTx.owns, List.getElem?_eq_getElem o.valid]
  rfl

namespace Ledger

variable (N : Node)

/-- Every input of a record spends an output that, when the wallet holds and owns it, is marked
spent. -/
def SpentConsistent (L : Ledger) : Prop :=
  ∀ k w, L.mapWallet.find? k = some w → ∀ p ∈ w.vin, ∀ P, L.mapWallet.find? p.hash = some P →
    P.owns N p.n = true → P.isSpent p.n = true

/-- Every record sits under its transaction's hash, except the empty records CommitTransaction makes
for coins it does not hold. -/
def KeyedByHash (L : Ledger) : Prop :=
  ∀ k w, L.mapWallet.find? k = some w → N.getHash w.toTx = k ∨ (w.vin = [] ∧ w.vout = [])

/-- Every record of L' is a record of L under the same key with the same transaction, or an empty
record. -/
def RecordsFrom (L L' : Ledger) : Prop :=
  ∀ k w', L'.mapWallet.find? k = some w' →
    (w'.vin = [] ∧ w'.vout = []) ∨ ∃ w, L.mapWallet.find? k = some w ∧ w'.toTx = w.toTx

theorem SameTxs.recordsFrom {L L' : Ledger} (h : SameTxs L L') : RecordsFrom L L' :=
  fun _ _ hw' => Or.inr (h.back hw')

theorem KeyedByHash.of_recordsFrom {L L' : Ledger} (hk : L.KeyedByHash N) (h : RecordsFrom L L') :
    L'.KeyedByHash N := fun k w' hw' => by
  rcases h k w' hw' with he | ⟨w, hw, ht⟩
  · exact Or.inr he
  · rcases hk k w hw with hh | ⟨hi, ho⟩
    · exact Or.inl (by rw [ht]; exact hh)
    · exact Or.inr ⟨(congrArg Tx.vin ht).trans hi, (congrArg Tx.vout ht).trans ho⟩

/-- L' holds the records of L with the same transactions and at least their spent flags, and besides
them only empty records. -/
structure Grows (L L' : Ledger) : Prop where
  back : RecordsFrom L L'
  forth : ∀ k w, L.mapWallet.find? k = some w → ∃ w', L'.mapWallet.find? k = some w' ∧
    ∀ n < w.vout.length, w.isSpent n = true → w'.isSpent n = true

theorem SpentConsistent.grows {L L' : Ledger} (hc : L.SpentConsistent N) (hg : Grows L L') :
    L'.SpentConsistent N := by
  intro k w' hw' p hp P' hP' hown
  rcases hg.back k w' hw' with ⟨hvin, -⟩ | ⟨w, hw, hwt⟩
  · rw [hvin] at hp; cases hp
  rcases hg.back p.hash P' hP' with ⟨-, hvout⟩ | ⟨P, hP, hPt⟩
  · simp [WalletTx.owns, hvout] at hown
  rw [WalletTx.owns_congr hPt] at hown
  obtain ⟨P'', hP'', hflags⟩ := hg.forth p.hash P hP
  rw [hP'] at hP''
  cases hP''
  exact hflags p.n (WalletTx.lt_of_owns hown) (hc k w hw p (congrArg Tx.vin hwt ▸ hp) P hP hown)

theorem grows_markCoinsSpent (nNow : Int) (vin : List OutPoint) (L : Ledger) :
    Grows L (markCoinsSpent nNow vin L).ledger :=
  ⟨fun _ _ hw' => (markCoinsSpent_back nNow vin L hw').imp_right fun ⟨w, hw, ht, _⟩ => ⟨w, hw, ht⟩,
    fun _ _ hw => (markCoinsSpent_forth nNow vin L hw).imp fun _ ⟨h₁, _, h₃⟩ => ⟨h₁, h₃⟩⟩

theorem grows_storeRecord {L : Ledger} {wtxIn wtx : WalletTx} (nNow : Int)
    (h : L.mapWallet.find? (N.getHash wtxIn.toTx) = some wtx) : Grows L (storeRecord N L wtxIn nNow) := by
  refine ⟨fun k w' hw' => ?_, fun k w hw => ?_⟩
  · rw [find?_storeRecord, storedRecord_of_some N nNow h] at hw'
    split_ifs at hw' with hk
    · cases hw'
      exact Or.inr ⟨wtx, hk ▸ h, toTx_mergeRecord wtx wtxIn⟩
    · exact Or.inr ⟨w', hw', rfl⟩
  · by_cases hk : k = N.getHash wtxIn.toTx
    · subst hk
      rw [h] at hw
      cases hw
      exact ⟨_, by rw [find?_storeRecord, if_pos rfl, storedRecord_of_some N nNow h],
        fun _ _ hs => isSpent_mergeRecord hs⟩
    · exact ⟨w, by rw [find?_storeRecord, if_neg hk]; exact hw, fun _ _ hs => hs⟩

theorem spentConsistent_walletUpdateSpent {tx : Tx} {fBlock : Bool} {L : Ledger}
    (hcons : ∀ k w, L.mapWallet.find? k = some w → ∀ p ∈ w.vin, ∀ P, L.mapWallet.find? p.hash = some P →
      P.owns N p.n = true → P.isSpent p.n = true ∨ p ∈ tx.vin)
    (hblock : fBlock = true →
      tx.vout = [] ∨ ∀ k w, L.mapWallet.find? k = some w → ∀ p ∈ w.vin, p.hash ≠ N.getHash tx) :
    (walletUpdateSpent N tx fBlock L).ledger.SpentConsistent N := by
  have hs := walletUpdateSpent_sameTxs N tx fBlock L
  intro k w' hw' p hp P' hP' hown
  obtain ⟨w, hw, hwt⟩ := hs.back hw'
  obtain ⟨P, hP, hPt⟩ := hs.back hP'
  have hp' : p ∈ w.vin := congrArg Tx.vin hwt ▸ hp
  rw [WalletTx.owns_congr hPt] at hown
  have hk : fBlock = false ∨ p.hash ≠ N.getHash tx ∨ tx.vout = [] := by
    cases fBlock
    · exact Or.inl rfl
    · rcases hblock rfl with h | h
      · exact Or.inr (Or.inr h)
      · exact Or.inr (Or.inl (h k w hw p hp'))
  rw [isSpent_walletUpdateSpent N hk hP hP' (WalletTx.lt_of_owns hown)]
  exact (hcons k w hw p hp' P hP hown).imp_right fun h => ⟨h, hown⟩

/-- No record of the wallet spends an output of the transaction with hash `h`. -/
def SpendsNone (L : Ledger) (h : Nat) : Prop :=
  ∀ e ∈ L.mapWallet.entries, ∀ p ∈ e.2.vin, p.hash ≠ h

instance (L : Ledger) (h : Nat) : Decidable (L.SpendsNone h) :=
  inferInstanceAs (Decidable (∀ e ∈ L.mapWallet.entries, ∀ p ∈ e.2.vin, p.hash ≠ h))

theorem SpendsNone.hash_ne {L : Ledger} {h k : Nat} {w : WalletTx} (hs : L.SpendsNone h)
    (hw : L.mapWallet.find? k = some w) {p : OutPoint} (hp : p ∈ w.vin) : p.hash ≠ h :=
  hs (k, w) ((StdMap.find?_iff_mem _).mp hw) p hp

/-- What keeps the spent flags consistent when `wtxIn` is added. -/
def AddsSafely (L : Ledger) (wtxIn : WalletTx) (writeOk : Bool) : Prop :=
  (L.mapWallet.find? (N.getHash wtxIn.toTx) = none → writeOk = true) ∧
    (L.mapWallet.find? (N.getHash wtxIn.toTx) = none ∨ wtxIn.hashBlock.isSome = true →
      L.SpendsNone (N.getHash wtxIn.toTx) ∧ ∀ p ∈ wtxIn.vin, p.hash ≠ N.getHash wtxIn.toTx)

instance (L : Ledger) (wtxIn : WalletTx) (writeOk : Bool) : Decidable (L.AddsSafely N wtxIn writeOk) :=
  inferInstanceAs (Decidable ((L.mapWallet.find? (N.getHash wtxIn.toTx) = none → writeOk = true) ∧
    (L.mapWallet.find? (N.getHash wtxIn.toTx) = none ∨ wtxIn.hashBlock.isSome = true →
      L.SpendsNone (N.getHash wtxIn.toTx) ∧ ∀ p ∈ wtxIn.vin, p.hash ≠ N.getHash wtxIn.toTx)))

/-- The invariant of the ledger runs: consistent spent flags, and records under their hashes. -/
structure Consistent (L : Ledger) : Prop where
  spent : L.SpentConsistent N
  keyed : L.KeyedByHash N

theorem Consistent.grows {L L' : Ledger} (hc : L.Consistent N) (hg : Grows L L') : L'.Consistent N :=
  ⟨hc.spent.grows N hg, hc.keyed.of_recordsFrom N hg.back⟩

theorem consistent_empty (fFileBacked : Bool) : (Ledger.empty fFileBacked).Consistent N :=
  ⟨fun _ _ hw => by simp [Ledger.empty] at hw, fun _ _ hw => by simp [Ledger.empty] at hw⟩

theorem Consistent.addToWallet_new {L : Ledger} (hc : L.Consistent N) {wtxIn : WalletTx} {nNow : Int}
    (hnew : L.mapWallet.find? (N.getHash wtxIn.toTx) = none) (hnone : L.SpendsNone (N.getHash wtxIn.toTx))
    (hself : ∀ p ∈ wtxIn.vin, p.hash ≠ N.getHash wtxIn.toTx) :
    (walletUpdateSpent N wtxIn.toTx wtxIn.hashBlock.isSome (storeRecord N L wtxIn nNow)).ledger.Consistent N := by
  have hfind : ∀ k w, (storeRecord N L wtxIn nNow).mapWallet.find? k = some w →
      (k = N.getHash wtxIn.toTx ∧ w.toTx = wtxIn.toTx) ∨ (k ≠ N.getHash wtxIn.toTx ∧ L.mapWallet.find? k = some w) := by
    intro k w hw
    rw [find?_storeRecord, storedRecord_of_none N nNow hnew] at hw
    split_ifs at hw with hk
    · cases hw; exact Or.inl ⟨hk, rfl⟩
    · exact Or.inr ⟨hk, hw⟩
  refine ⟨spentConsistent_walletUpdateSpent N (fun k w hw p hp P hP hown => ?_) fun _ => Or.inr ?_,
    KeyedByHash.of_recordsFrom N (fun k w hw => ?_) (walletUpdateSpent_sameTxs N _ _ _).recordsFrom⟩
  · rcases hfind k w hw with ⟨-, hwt⟩ | ⟨-, hw⟩
    · exact Or.inr (congrArg Tx.vin hwt ▸ hp)
    · have hne := hnone.hash_ne hw hp
      rw [find?_storeRecord, if_neg hne] at hP
      exact Or.inl (hc.spent k w hw p hp P hP hown)
  · intro k w hw p hp
    rcases hfind k w hw with ⟨-, hwt⟩ | ⟨-, hw⟩
    · exact hself p (congrArg Tx.vin hwt ▸ hp)
    · exact hnone.hash_ne hw hp
  · rcases hfind k w hw with ⟨hk, hwt⟩ | ⟨-, hw⟩
    · exact Or.inl (by rw [hwt, hk])
    · exact hc.keyed k w hw

theorem Consistent.addToWallet {L : Ledger} (hc : L.Consistent N) {wtxIn : WalletTx} {nNow : Int}
    {writeOk : Bool} (hadm : L.AddsSafely N wtxIn writeOk) :
    (addToWallet N wtxIn nNow writeOk L).ledger.Consistent N := by
  obtain ⟨hwrite, hspends⟩ := hadm
  rw [addToWallet_ledger]
  cases hL : L.mapWallet.find? (N.getHash wtxIn.toTx) with
  | none =>
    obtain ⟨hnone, hself⟩ := hspends (Or.inl hL)
    rw [storedRecord_of_none N nNow hL, hwrite hL]
    exact hc.addToWallet_new N hL hnone hself
  | some wtx =>
    have h₁ := hc.grows N (grows_storeRecord N nNow hL)
    split_ifs
    · exact h₁
    refine ⟨spentConsistent_walletUpdateSpent N
      (fun k w hw p hp P hP hown => Or.inl (h₁.spent k w hw p hp P hP hown)) fun hb => ?_,
      h₁.keyed.of_recordsFrom N (walletUpdateSpent_sameTxs N _ _ _).recordsFrom⟩
    obtain ⟨hnone, -⟩ := hspends (Or.inr hb)
    rw [storedRecord_of_some N nNow hL, toTx_mergeRecord]
    rcases hc.keyed _ wtx hL with hkey | ⟨-, hvout⟩
    · refine Or.inr fun k w hw p hp => ?_
      rw [hkey]
      rw [find?_storeRecord, storedRecord_of_some N nNow hL] at hw
      split_ifs at hw
      · cases hw; exact hnone.hash_ne hL hp
      · exact hnone.hash_ne hw hp
    · exact Or.inl hvout

theorem Consistent.commitTransaction {L : Ledger} (hc : L.Consistent N) {fDevbuildCripple : Bool}
    {wtxNew : WalletTx} {nNow : Int} {writeOk accepted : Bool}
    (hadm : fDevbuildCripple = false → L.AddsSafely N wtxNew writeOk) :
    (commitTransaction N fDevbuildCripple wtxNew nNow writeOk accepted L).ledger.Consistent N := by
  rcases commitTransaction_ledger N fDevbuildCripple wtxNew nNow writeOk accepted L with h | ⟨hd, h⟩ | ⟨hd, h⟩ <;>
    rw [h]
  · exact hc
  · exact hc.addToWallet N (hadm hd)
  · exact (hc.addToWallet N (hadm hd)).grows N (grows_markCoinsSpent nNow _ _)

theorem Consistent.addToWalletIfInvolvingMe {L : Ledger} (hc : L.Consistent N) {tx : Tx}
    {pblock : Option Block} {fUpdate : Bool} {nNow : Int} {writeOk : Bool}
    (hadm : L.goesToAddToWallet N tx fUpdate = true → L.AddsSafely N (involvingRecord N tx pblock) writeOk) :
    (addToWalletIfInvolvingMe N tx pblock fUpdate nNow writeOk L).ledger.Consistent N := by
  rcases addToWalletIfInvolvingMe_ledger N tx pblock fUpdate nNow writeOk L with h | ⟨hg, h⟩ | ⟨-, h⟩ <;> rw [h]
  · exact hc
  · exact hc.addToWallet N (hadm hg)
  · exact ⟨spentConsistent_walletUpdateSpent N
      (fun k w hw p hp P hP hown => Or.inl (hc.spent k w hw p hp P hP hown)) fun h => absurd h (by decide),
      hc.keyed.of_recordsFrom N (walletUpdateSpent_sameTxs N tx false L).recordsFrom⟩

/-- The calls of a run that keeps the spent flags consistent: additions and commits, each adding
safely when it reaches AddToWallet. -/
def AddsConsistently : Ledger → LedgerCall → Prop
  | L, .addToWallet wtxIn _ writeOk => L.AddsSafely N wtxIn writeOk
  | L, .addToWalletIfInvolvingMe tx pblock fUpdate _ writeOk =>
    L.goesToAddToWallet N tx fUpdate = true → L.AddsSafely N (involvingRecord N tx pblock) writeOk
  | L, .commitTransaction fDevbuildCripple wtxNew _ writeOk _ =>
    fDevbuildCripple = false → L.AddsSafely N wtxNew writeOk
  | _, .disableTransaction _ => False
  | _, .eraseFromWallet _ _ => False
  | _, .resendWalletTransactions _ _ _ _ => False

instance : ∀ (L : Ledger) (c : LedgerCall), Decidable (AddsConsistently N L c)
  | L, .addToWallet wtxIn _ writeOk => inferInstanceAs (Decidable (L.AddsSafely N wtxIn writeOk))
  | L, .addToWalletIfInvolvingMe tx pblock fUpdate _ writeOk =>
    inferInstanceAs (Decidable (L.goesToAddToWallet N tx fUpdate = true →
      L.AddsSafely N (involvingRecord N tx pblock) writeOk))
  | L, .commitTransaction fDevbuildCripple wtxNew _ writeOk _ =>
    inferInstanceAs (Decidable (fDevbuildCripple = false → L.AddsSafely N wtxNew writeOk))
  | _, .disableTransaction _ => isFalse id
  | _, .eraseFromWallet _ _ => isFalse id
  | _, .resendWalletTransactions _ _ _ _ => isFalse id

theorem Consistent.run {L : Ledger} (hc : L.Consistent N) {c : LedgerCall} (hadm : AddsConsistently N L c) :
    (c.run N L).Consistent N := by
  cases c with
  | addToWallet => exact hc.addToWallet N hadm
  | addToWalletIfInvolvingMe => exact hc.addToWalletIfInvolvingMe N hadm
  | commitTransaction => exact hc.commitTransaction N hadm
  | disableTransaction => exact hadm.elim
  | eraseFromWallet => exact hadm.elim
  | resendWalletTransactions => exact hadm.elim

theorem KeyedByHash.storeRecord {L : Ledger} (hk : L.KeyedByHash N) (wtxIn : WalletTx) (nNow : Int) :
    (storeRecord N L wtxIn nNow).KeyedByHash N := fun k w hw => by
  rw [find?_storeRecord] at hw
  split_ifs at hw with hkH
  · cases hw
    cases hL : L.mapWallet.find? (N.getHash wtxIn.toTx) with
    | none => rw [storedRecord_of_none N nNow hL]; exact Or.inl hkH.symm
    | some wtx =>
      rw [storedRecord_of_some N nNow hL, toTx_mergeRecord]
      exact (hk _ wtx hL).imp (fun h => h.trans hkH.symm) id
  · exact hk k w hw

theorem KeyedByHash.addToWallet {L : Ledger} (hk : L.KeyedByHash N) (wtxIn : WalletTx) (nNow : Int)
    (writeOk : Bool) : (addToWallet N wtxIn nNow writeOk L).ledger.KeyedByHash N := by
  have h₁ := hk.storeRecord N wtxIn nNow
  rw [addToWallet_ledger]
  split_ifs
  · exact h₁
  · exact h₁.of_recordsFrom N (walletUpdateSpent_sameTxs N _ _ _).recordsFrom

theorem KeyedByHash.run {L : Ledger} (hk : L.KeyedByHash N) (c : LedgerCall) : (c.run N L).KeyedByHash N := by
  cases c with
  | addToWallet wtxIn nNow writeOk => exact hk.addToWallet N wtxIn nNow writeOk
  | addToWalletIfInvolvingMe tx pblock fUpdate nNow writeOk =>
    rcases addToWalletIfInvolvingMe_ledger N tx pblock fUpdate nNow writeOk L with h | ⟨-, h⟩ | ⟨-, h⟩ <;>
      simp only [LedgerCall.run, h]
    · exact hk
    · exact hk.addToWallet N _ nNow writeOk
    · exact hk.of_recordsFrom N (walletUpdateSpent_sameTxs N tx false L).recordsFrom
  | commitTransaction fDevbuildCripple wtxNew nNow writeOk accepted =>
    have ha := hk.addToWallet N wtxNew nNow writeOk
    rcases commitTransaction_ledger N fDevbuildCripple wtxNew nNow writeOk accepted L with h | ⟨-, h⟩ | ⟨-, h⟩ <;>
      simp only [LedgerCall.run, h]
    · exact hk
    · exact ha
    · exact ha.of_recordsFrom N (grows_markCoinsSpent nNow _ _).back
  | disableTransaction tx => exact hk.of_recordsFrom N (disableTransaction_spec N tx L).1.recordsFrom
  | eraseFromWallet hash dbOk => exact hk.of_recordsFrom N fun _ _ hw => Or.inr ⟨_, eraseFromWallet_back hw, rfl⟩
  | resendWalletTransactions fForce due nTimeBestReceived valid =>
    exact hk.of_recordsFrom N fun _ _ hw =>
      Or.inr ⟨_, resendWalletTransactions_back N fForce due nTimeBestReceived valid hw, rfl⟩

theorem callsMeet_true (calls : List LedgerCall) (L : Ledger) : CallsMeet N (fun _ _ => True) L calls := by
  induction calls generalizing L with
  | nil => trivial
  | cons c cs ih => exact ⟨trivial, ih _⟩

theorem keyedByHash_runCalls (fFileBacked : Bool) (calls : List LedgerCall) :
    (runCalls N calls (Ledger.empty fFileBacked)).KeyedByHash N :=
  runCalls_invariant (fun _ c hk _ => hk.run N c) calls _ (consistent_empty N fFileBacked).keyed
    (callsMeet_true N calls _)

theorem availableCoins_unconsumed {L : Ledger} (hs : L.SpentConsistent N) {chain : ChainView}
    {minIn : Int} {fOnlyConfirmed : Bool} {cc : Option CoinControl} {o : COutput}
    (ho : o ∈ availableCoins N L chain minIn fOnlyConfirmed cc false) {k : Nat} {w : WalletTx}
    (hw : L.mapWallet.find? k = some w) : o.point ∉ w.vin := fun hp => by
  obtain ⟨hfind, -, -, hunspent, hmine, -, -⟩ := mem_availableCoins N ho
  have hspent := hs k w hw o.point hp o.tx hfind ((COutput.owns N o).trans hmine)
  exact absurd (hspent.symm.trans hunspent) (by decide)

end Ledger

theorem runCalls_spentConsistent (N : Node) (fFileBacked : Bool) (calls : List LedgerCall)
    (hadm : CallsMeet N (Ledger.AddsConsistently N) (Ledger.empty fFileBacked) calls) :
    let L := runCalls N calls (Ledger.empty fFileBacked)
    L.SpentConsistent N ∧
      (∀ chain minIn fOnlyConfirmed cc, ∀ o ∈ availableCoins N L chain minIn fOnlyConfirmed cc false,
        ∀ k w, L.mapWallet.find? k = some w → o.point ∉ w.vin) ∧
      (∀ chain minIn target nSpendTime cc contract rng r,
        selectCoins N L chain minIn target nSpendTime cc contract rng = some r →
        ∀ o ∈ r.1.coins, ∀ k w, L.mapWallet.find? k = some w → o.point ∉ w.vin) := by
  intro L
  have hc : L.Consistent N := runCalls_invariant (fun _ _ hc h => hc.run N h) calls _
    (Ledger.consistent_empty N fFileBacked) hadm
  refine ⟨hc.spent, fun _ _ _ _ o ho k w hw => Ledger.availableCoins_unconsumed N hc.spent ho hw,
    fun chain minIn target nSpendTime cc contract rng r hr o ho k w hw => ?_⟩
  obtain ⟨hcoins, -⟩ := (selectCoins_sound N L chain minIn target nSpendTime cc contract rng hr).coins
  exact Ledger.availableCoins_unconsumed N hc.spent (hcoins o ho).1 hw

def parentTx : Tx := ⟨1, [], [⟨5, []⟩]⟩

def childTx : Tx := ⟨2, [⟨1, 0⟩], [⟨4, []⟩]⟩

def parentFirstCalls : List LedgerCall :=
  [.addToWalletIfInvolvingMe parentTx (some ⟨7, [1]⟩) false 0 true,
    .commitTransaction false (WalletTx.ofTx childTx) 0 true true,
    .addToWalletIfInvolvingMe parentTx (some ⟨7, [1]⟩) false 0 false]

theorem runCalls_spentConsistent_parentFirst :
    CallsMeet ownAllNode (Ledger.AddsConsistently ownAllNode) (Ledger.empty true) parentFirstCalls ∧
      (runCalls ownAllNode parentFirstCalls (Ledger.empty true)).SpentConsistent ownAllNode :=
  have hadm : CallsMeet ownAllNode (Ledger.AddsConsistently ownAllNode) (Ledger.empty true) parentFirstCalls :=
    ⟨by decide, by decide, by decide, trivial⟩
  ⟨hadm, (runCalls_spentConsistent ownAllNode true parentFirstCalls hadm).1⟩

def childFirstCalls : List LedgerCall :=
  [.addToWallet (WalletTx.ofTx childTx) 0 true, .addToWallet (WalletTx.ofTx parentTx) 0 true]

/-- Adding a parent checks none of the records that already spend it. -/
theorem childFirst_breaks_spentConsistent :
    ¬ (runCalls ownAllNode childFirstCalls (Ledger.empty true)).SpentConsistent ownAllNode :=
  fun h => absurd (h 2 _ rfl ⟨1, 0⟩ (by decide) _ rfl rfl) (by decide)

end GridcoinWallet
