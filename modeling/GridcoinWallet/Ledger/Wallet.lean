import GridcoinWallet.StdMap

namespace GridcoinWallet

/-- COutPoint: the hash of the transaction an input spends and the index of its output. -/
structure OutPoint where
  hash : Nat
  n : Nat
  deriving DecidableEq, Repr

/-- CTxOut: an amount and the locking script, as bytes. -/
structure TxOut where
  nValue : Int
  scriptPubKey : List UInt8
  deriving DecidableEq, Repr

/-- CTransaction as wallet.cpp reads it: the timestamp, the outpoints the inputs spend (scriptSig
and nSequence are never read here) and the outputs. -/
structure Tx where
  nTime : Nat
  vin : List OutPoint
  vout : List TxOut
  deriving DecidableEq, Repr

/-- CMerkleTx: the block the transaction was found in (`none` for the null hash) and its position
there. -/
structure MerkleTx extends Tx where
  hashBlock : Option Nat
  nIndex : Int
  deriving DecidableEq, Repr

/-- CWalletTx, with the fields the modelled functions read. -/
structure WalletTx extends MerkleTx where
  fFromMe : Bool
  vfSpent : List Bool
  nTimeReceived : Int
  nOrderPos : Int
  deriving DecidableEq, Repr

/-- What wallet.cpp reads from the rest of the node. -/
structure Node where
  getHash : Tx → Nat
  isMine : List UInt8 → Bool
  isCoinBase : Tx → Bool
  isCoinStake : Tx → Bool

/-- `vfSpent.resize(n)`: cut to `n` flags, or pad with unspent ones. -/
def resizeSpent : List Bool → Nat → List Bool
  | _, 0 => []
  | [], n + 1 => false :: resizeSpent [] n
  | b :: bs, n + 1 => b :: resizeSpent bs n

theorem length_resizeSpent (bs : List Bool) (n : Nat) : (resizeSpent bs n).length = n := by
  induction n generalizing bs with
  | zero => cases bs <;> rfl
  | succ n ih => cases bs <;> simp [resizeSpent, ih]

theorem getD_resizeSpent {bs : List Bool} {n m : Nat} (h : m < n) :
    (resizeSpent bs n).getD m false = bs.getD m false := by
  induction n generalizing bs m with
  | zero => omega
  | succ n ih =>
    cases m with
    | zero => cases bs <;> rfl
    | succ m => cases bs <;> exact ih (Nat.lt_of_succ_lt_succ h)

/-- Modelled from the spec: CWalletTx::UpdateSpent (wallet.h, not under src/), the "spent-bitmap
union" of a merge. -/
def updateSpentList : List Bool → List Bool → List Bool × Bool
  | s :: ss, b :: bs => ((s || b) :: (updateSpentList ss bs).1, (b && !s) || (updateSpentList ss bs).2)
  | ss, _ => (ss, false)

theorem getD_updateSpentList_of_true {ss bs : List Bool} {n : Nat} (h : ss.getD n false = true) :
    (updateSpentList ss bs).1.getD n false = true := by
  induction ss generalizing bs n with
  | nil => simp at h
  | cons s ss ih =>
    cases bs with
    | nil => exact h
    | cons b bs =>
      cases n with
      | zero =>
        show (s || b) = true
        simp [show s = true by simpa using h]
      | succ n => exact ih h

theorem updateSpentList_of_unspent {ss bs : List Bool} (h : ∀ b ∈ bs, b = false) :
    updateSpentList ss bs = (ss, false) := by
  induction ss generalizing bs with
  | nil => cases bs <;> rfl
  | cons s ss ih =>
    cases bs with
    | nil => rfl
    | cons b bs =>
      have hb : b = false := h b (List.mem_cons_self b bs)
      simp [updateSpentList, hb, ih (fun x hx => h x (List.mem_cons_of_mem b hx))]

namespace WalletTx

/-- Modelled from the spec: the CWalletTx(pwallet, tx) constructor: a record with no block, position
-1, no spent flags and order position -1. -/
def ofTx (tx : Tx) : WalletTx :=
  { tx with
    hashBlock := none, nIndex := -1, fFromMe := false, vfSpent := [], nTimeReceived := 0
    nOrderPos := -1 }

/-- Modelled from the spec: CWalletTx::IsSpent; an index past the bitmap reads unspent. -/
def isSpent (w : WalletTx) (n : Nat) : Bool := w.vfSpent.getD n false

/-- Modelled from the spec: MarkSpent and MarkUnspent at an index below `vout.size()`. -/
def setSpent (w : WalletTx) (n : Nat) (b : Bool) : WalletTx :=
  { w with vfSpent := (resizeSpent w.vfSpent w.vout.length).set n b }

@[simp] theorem toTx_setSpent (w : WalletTx) (n : Nat) (b : Bool) :
    (w.setSpent n b).toTx = w.toTx := rfl

@[simp] theorem vin_setSpent (w : WalletTx) (n : Nat) (b : Bool) :
    (w.setSpent n b).vin = w.vin := rfl

@[simp] theorem vout_setSpent (w : WalletTx) (n : Nat) (b : Bool) :
    (w.setSpent n b).vout = w.vout := rfl

theorem isSpent_setSpent {w : WalletTx} {n m : Nat} (b : Bool) (hm : m < w.vout.length) :
    (w.setSpent n b).isSpent m = if m = n then b else w.isSpent m := by
  have hl : m < (resizeSpent w.vfSpent w.vout.length).length := by
    rwa [length_resizeSpent]
  simp only [isSpent, setSpent]
  split_ifs with h
  · subst h; simp [List.getD_eq_getElem?_getD, List.getElem?_set_self hl]
  · rw [List.getD_eq_getElem?_getD, List.getElem?_set_ne (Ne.symm h),
      ← List.getD_eq_getElem?_getD, getD_resizeSpent hm]

theorem isSpent_setSpent_true {w : WalletTx} {n m : Nat} (hm : m < w.vout.length)
    (h : w.isSpent m = true) : (w.setSpent n true).isSpent m = true := by
  rw [isSpent_setSpent true hm]; split_ifs <;> simp [h]

end WalletTx

/-- The ledger part of CWallet: mapWallet, the next order position, and whether the wallet has a
file behind it. -/
structure Ledger where
  mapWallet : StdMap Nat WalletTx
  nOrderPosNext : Int
  fFileBacked : Bool

/-- A wallet with no transactions. -/
def Ledger.empty (fFileBacked : Bool) : Ledger := ⟨StdMap.empty, 0, fFileBacked⟩

section Debit

variable (N : Node)

/-- CWallet::GetDebit(txin, ISMINE_ALL): the value of the wallet's output the input spends. -/
def Ledger.getDebitIn (L : Ledger) (txin : OutPoint) : Int :=
  match L.mapWallet.find? txin.hash with
  | some prev =>
    match prev.vout[txin.n]? with
    | some o => if N.isMine o.scriptPubKey then o.nValue else 0
    | none => 0
  | none => 0

/-- Modelled from the spec: CWallet::GetDebit(tx) (wallet.h): the debits of the inputs. -/
def Ledger.getDebit (L : Ledger) (tx : Tx) : Int := (tx.vin.map (L.getDebitIn N)).sum

/-- Modelled from the spec: CWallet::IsFromMe(tx), a positive debit. -/
def Ledger.isFromMe (L : Ledger) (tx : Tx) : Bool := decide (0 < L.getDebit N tx)

/-- Modelled from the spec: CWallet::IsMine(tx), some output is the wallet's. -/
def isMineTx (tx : Tx) : Bool := tx.vout.any fun o => N.isMine o.scriptPubKey

end Debit

end GridcoinWallet
