import GridcoinWallet.Ledger.AddressGroupings
import GridcoinWallet.Builder.CreateTransaction

namespace GridcoinWallet

def MAX_SCRIPT_SIZE : Nat := 10000

/-- CScript::IsUnspendable: a script that starts with OP_RETURN or is longer than MAX_SCRIPT_SIZE. -/
def isUnspendable (script : List UInt8) : Bool :=
  (script.head? == some OP_RETURN) || decide (MAX_SCRIPT_SIZE < script.length)

/-- What IsChange and GetAmounts read of the wallet's addresses. -/
structure Addresses where
  extractDestination : List UInt8 → Option Nat
  isMineAddress : Nat → Bool
  mapAddressBook : StdMap Nat String

namespace Addresses

/-- CWallet::IsChange: the output pays an address of the wallet that has no address-book entry. -/
def isChange (D : Addresses) (txout : TxOut) : Bool :=
  match D.extractDestination txout.scriptPubKey with
  | some address => D.isMineAddress address && (D.mapAddressBook.find? address).isNone
  | none => false

/-- What GetAddressGroupings reads, with IsChange as the wallet computes it. -/
def destinations (D : Addresses) : Destinations := ⟨D.extractDestination, D.isChange⟩

end Addresses

/-- COutputEntry: a destination (`none` for CNoDestination), an amount and an output index. -/
structure COutputEntry where
  destination : Option Nat
  amount : Int
  vout : Int
  deriving DecidableEq, Repr

def sumAmounts (es : List COutputEntry) : Int := (es.map COutputEntry.amount).sum

@[simp] theorem sumAmounts_nil : sumAmounts [] = 0 := rfl

@[simp] theorem sumAmounts_append (a b : List COutputEntry) :
    sumAmounts (a ++ b) = sumAmounts a + sumAmounts b := by
  simp [sumAmounts]

@[simp] theorem sumAmounts_singleton (e : COutputEntry) : sumAmounts [e] = e.amount := by
  simp [sumAmounts]

theorem sumAmounts_filter_cons (p : COutputEntry → Bool) (r : COutputEntry) (rs : List COutputEntry) :
    sumAmounts ((r :: rs).filter p) = (if p r then r.amount else 0) + sumAmounts (rs.filter p) := by
  rw [List.filter_cons]
  split_ifs <;> simp [sumAmounts]

@[simp] theorem sumAmounts_ite (b : Bool) (e : COutputEntry) :
    sumAmounts (if b then [e] else []) = if b then e.amount else 0 := by
  cases b <;> simp

/-- Modelled from the spec: CWallet::GetCredit(tx) (wallet.h), the values of the wallet's outputs. -/
def getCredit (N : Node) (tx : Tx) : Int :=
  (tx.vout.map fun o => if N.isMine o.scriptPubKey then o.nValue else 0).sum

/-- What GetAmounts computes before its loop. -/
structure AmountsCtx where
  fIsFromMe : Bool
  fIsAllToMe : Bool
  fIsCoinStake : Bool
  fIsCoinStakeMine : Bool
  nDebit : Int

/-- The two lists the loop of GetAmounts fills, and the running total of the coinstake roll-up. -/
structure AmountsAcc where
  listReceived : List COutputEntry
  listSent : List COutputEntry
  amount : Int

/-- What CWalletTx::GetAmounts hands back: listReceived, listSent, nFee and strSentAccount. -/
structure Amounts where
  listReceived : List COutputEntry
  listSent : List COutputEntry
  nFee : Int
  strSentAccount : String

section GetAmounts

variable (N : Node) (D : Addresses)

/-- The flags and the debit of GetAmounts, with the filter ISMINE_ALL. -/
def amountsCtx (L : Ledger) (wtx : WalletTx) : AmountsCtx where
  fIsFromMe := L.isFromMe N wtx.toTx
  fIsAllToMe := wtx.vout.all fun o => N.isMine o.scriptPubKey
  fIsCoinStake := N.isCoinStake wtx.toTx
  fIsCoinStakeMine := N.isCoinStake wtx.toTx && (wtx.vout[1]?).any fun o => N.isMine o.scriptPubKey
  nDebit := L.getDebit N wtx.toTx

namespace AmountsCtx

variable (c : AmountsCtx)

/-- The `continue` of the loop: a change output of a send that is not a coinstake, or an output that
is not the wallet's in a transaction the wallet did not send. -/
def skips (txout : TxOut) : Bool :=
  if c.fIsFromMe then !c.fIsCoinStake && D.isChange txout else !N.isMine txout.scriptPubKey

/-- Output `i` is a "sent" entry: not the wallet's, and past output 1 of the wallet's coinstake or
in a send that is not a coinstake. -/
def sends (i : Nat) (txout : TxOut) : Bool :=
  !N.isMine txout.scriptPubKey &&
    ((decide (1 < i) && c.fIsCoinStakeMine) || (!c.fIsCoinStake && c.fIsFromMe))

/-- A "received" entry: the wallet's output in a transaction the wallet did not send. -/
def receives (txout : TxOut) : Bool := N.isMine txout.scriptPubKey && !c.fIsFromMe

/-- A self-transaction: the wallet sent it and every output is the wallet's. -/
def isSelf : Bool := c.fIsFromMe && c.fIsAllToMe

/-- What output `i` adds to the amounts of listSent. -/
def sentValue (i : Nat) (txout : TxOut) : Int :=
  if c.skips N D txout then 0
  else (if c.sends N i txout then txout.nValue else 0) + (if c.isSelf then txout.nValue else 0)

/-- What an output adds to the amounts of listReceived, the roll-up apart. -/
def receivedValue (txout : TxOut) : Int :=
  if c.skips N D txout then 0
  else (if c.receives N txout then txout.nValue else 0) + (if c.isSelf then txout.nValue else 0)

/-- What an output adds to the roll-up total. -/
def stakeValue (txout : TxOut) : Int :=
  if c.skips N D txout || !c.fIsCoinStakeMine then 0 else txout.nValue

end AmountsCtx

/-- One pass of the loop of GetAmounts, over output `i`. -/
def amountsStep (vout : List TxOut) (c : AmountsCtx) (acc : AmountsAcc) (i : Nat) (txout : TxOut) :
    AmountsAcc :=
  if c.skips N D txout then acc
  else
    let dest := D.extractDestination txout.scriptPubKey
    let address := if c.sends N i txout then dest else none
    let amount := if c.fIsCoinStakeMine then acc.amount + txout.nValue else acc.amount
    let fRollUp := c.fIsCoinStakeMine && decide (i = vout.length - 1)
    let address := if fRollUp then
        ((vout[1]?).bind fun o => D.extractDestination o.scriptPubKey).orElse fun _ => address
      else address
    let received := dest.orElse fun _ => if isUnspendable txout.scriptPubKey then address else none
    { listReceived := acc.listReceived ++ (if fRollUp then [⟨address, amount - c.nDebit, 1⟩] else []) ++
        (if c.receives N txout then [⟨received, txout.nValue, i⟩] else []) ++
        (if c.isSelf then [⟨dest, txout.nValue, i⟩] else [])
      listSent := acc.listSent ++ (if c.sends N i txout then [⟨dest, txout.nValue, i⟩] else []) ++
        (if c.isSelf then [⟨dest, txout.nValue, i⟩] else [])
      amount }

/-- The loop of GetAmounts over the outputs from index `i` on. -/
def amountsLoop (vout : List TxOut) (c : AmountsCtx) : Nat → List TxOut → AmountsAcc → AmountsAcc
  | _, [], acc => acc
  | i, txout :: rest, acc => amountsLoop vout c (i + 1) rest (amountsStep N D vout c acc i txout)

/-- CWalletTx::GetAmounts with the filter ISMINE_ALL. -/
def getAmounts (L : Ledger) (wtx : WalletTx) (strFromAccount : String) : Amounts :=
  let c := amountsCtx N L wtx
  let acc := amountsLoop N D wtx.vout c 0 wtx.vout ⟨[], [], 0⟩
  { listReceived := acc.listReceived
    listSent := acc.listSent
    nFee := if c.fIsFromMe && !c.fIsCoinStake then c.nDebit - (wtx.vout.map TxOut.nValue).sum else 0
    strSentAccount := strFromAccount }

theorem amountsStep_sums (vout : List TxOut) (c : AmountsCtx) (acc : AmountsAcc) (i : Nat) (txout : TxOut) :
    sumAmounts (amountsStep N D vout c acc i txout).listSent = sumAmounts acc.listSent + c.sentValue N D i txout ∧
    sumAmounts (amountsStep N D vout c acc i txout).listReceived = sumAmounts acc.listReceived +
      c.receivedValue N D txout + (if c.fIsCoinStakeMine && !c.skips N D txout && decide (i = vout.length - 1)
        then acc.amount + c.stakeValue N D txout - c.nDebit else 0) ∧
    (amountsStep N D vout c acc i txout).amount = acc.amount + c.stakeValue N D txout := by
  unfold amountsStep AmountsCtx.sentValue AmountsCtx.receivedValue AmountsCtx.stakeValue
  by_cases hs : c.skips N D txout
  · simp [hs]
  · simp only [hs, Bool.false_eq_true, ↓reduceIte, Bool.not_false, Bool.and_true, Bool.false_or,
      sumAmounts_append, sumAmounts_ite]
    refine ⟨by ring, ?_, ?_⟩ <;> cases c.fIsCoinStakeMine <;> simp <;> ring

theorem amountsLoop_sums (vout : List TxOut) (c : AmountsCtx) :
    ∀ (os : List TxOut) (i : Nat) (acc : AmountsAcc), i + os.length = vout.length →
      sumAmounts (amountsLoop N D vout c i os acc).listSent =
        sumAmounts acc.listSent + ((os.enumFrom i).map fun p => c.sentValue N D p.1 p.2).sum ∧
      sumAmounts (amountsLoop N D vout c i os acc).listReceived =
        sumAmounts acc.listReceived + (os.map (c.receivedValue N D)).sum +
          (match os.getLast? with
            | some last => if c.fIsCoinStakeMine && !c.skips N D last
                then acc.amount + (os.map (c.stakeValue N D)).sum - c.nDebit else 0
            | none => 0) ∧
      (amountsLoop N D vout c i os acc).amount = acc.amount + (os.map (c.stakeValue N D)).sum
  | [], _, acc, _ => by simp [amountsLoop]
  | txout :: rest, i, acc, hlen => by
    obtain ⟨hs, hr, ha⟩ := amountsStep_sums N D vout c acc i txout
    obtain ⟨ihs, ihr, iha⟩ := amountsLoop_sums vout c rest (i + 1) (amountsStep N D vout c acc i txout)
      (by simp only [List.length_cons] at hlen; omega)
    simp only [amountsLoop, List.enumFrom_cons, List.map_cons, List.sum_cons]
    refine ⟨by rw [ihs, hs]; ring, ?_, by rw [iha, ha]; ring⟩
    rw [ihr, hr, ha]
    cases rest with
    | nil =>
      have hi : i = vout.length - 1 := by simp only [List.length_cons, List.length_nil] at hlen; omega
      simp [hi]
    | cons o rest =>
      have hi : ¬ i = vout.length - 1 := by simp only [List.length_cons] at hlen; omega
      simp only [hi, decide_False, Bool.and_false, Bool.false_eq_true, ↓reduceIte, List.getLast?_cons_cons, List.map_cons,
        List.sum_cons]
      split
      · split_ifs <;> ring
      · ring

theorem sum_enumFrom_snd {α : Type} (f : α → Int) (l : List α) (i : Nat) :
    ((l.enumFrom i).map fun p => f p.2).sum = (l.map f).sum := by
  conv_rhs => rw [← List.enumFrom_map_snd i l]
  rw [List.map_map]
  rfl

theorem sum_map_sub_add {α : Type} (l : List α) (f g h : α → Int) :
    (l.map f).sum - (l.map g).sum + (l.map h).sum = (l.map fun x => f x - g x + h x).sum := by
  induction l with
  | nil => simp
  | cons x l ih => simp only [List.map_cons, List.sum_cons, ← ih]; ring

theorem AmountsCtx.sentValue_index (c : AmountsCtx) (hM : c.fIsCoinStakeMine = false) (i : Nat) (o : TxOut) :
    c.sentValue N D i o = c.sentValue N D 0 o := by
  simp [AmountsCtx.sentValue, AmountsCtx.sends, hM]

/-- A send that is not a coinstake nets out against the debit. -/
theorem getAmounts_send_net (L : Ledger) (wtx : WalletTx) (strFromAccount : String)
    (hstake : N.isCoinStake wtx.toTx = false) (hfrom : L.isFromMe N wtx.toTx = true) :
    sumAmounts (getAmounts N D L wtx strFromAccount).listReceived -
        sumAmounts (getAmounts N D L wtx strFromAccount).listSent -
        (getAmounts N D L wtx strFromAccount).nFee =
      (wtx.vout.map fun o => if N.isMine o.scriptPubKey || D.isChange o then o.nValue else 0).sum -
        L.getDebit N wtx.toTx := by
  set c := amountsCtx N L wtx with hc
  have hF : c.fIsFromMe = true := hfrom
  have hS : c.fIsCoinStake = false := hstake
  have hM : c.fIsCoinStakeMine = false := by simp only [hc, amountsCtx, hstake, Bool.false_and]
  obtain ⟨hs, hr, -⟩ := amountsLoop_sums N D wtx.vout c wtx.vout 0 ⟨[], [], 0⟩ (Nat.zero_add _)
  have hsent : ((wtx.vout.enumFrom 0).map fun p => c.sentValue N D p.1 p.2).sum =
      (wtx.vout.map (c.sentValue N D 0)).sum := by
    simp only [c.sentValue_index N D hM _, sum_enumFrom_snd]
  have hpoint : ∀ o : TxOut, c.receivedValue N D o - c.sentValue N D 0 o + o.nValue =
      if N.isMine o.scriptPubKey || D.isChange o then o.nValue else 0 := fun o => by
    simp only [AmountsCtx.receivedValue, AmountsCtx.sentValue, AmountsCtx.skips, AmountsCtx.sends,
      AmountsCtx.receives, AmountsCtx.isSelf, hF, hS, hM]
    cases D.isChange o <;> cases N.isMine o.scriptPubKey <;> cases c.fIsAllToMe <;> simp
  have hfee : (getAmounts N D L wtx strFromAccount).nFee = c.nDebit - (wtx.vout.map TxOut.nValue).sum := by
    simp only [getAmounts, ← hc, hF, hS, Bool.not_false, Bool.and_self, if_true]
  rw [hfee]
  simp only [getAmounts, ← hc, hs, hr, hM, hsent, Bool.false_and, Bool.false_eq_true, if_false]
  rw [List.map_congr_left fun o _ => (hpoint o).symm, ← sum_map_sub_add, show c.nDebit = L.getDebit N wtx.toTx from rfl]
  split <;> simp only [sumAmounts_nil] <;> ring

def amountsNode : Node := ⟨Tx.nTime, fun s => s == [1], fun _ => false, fun tx => tx.nTime == 7⟩

def amountsAddresses : Addresses :=
  ⟨fun s => s.head?.map UInt8.toNat, fun a => a == 1, StdMap.empty.set 1 "savings"⟩

def fundedLedger : Ledger := ⟨StdMap.empty.set 1 (WalletTx.ofTx ⟨1, [], [⟨50, [1]⟩]⟩), 1, true⟩

def paymentTx : WalletTx := WalletTx.ofTx ⟨2, [⟨1, 0⟩], [⟨30, [2]⟩, ⟨19, [1]⟩]⟩

def paymentAmounts : Amounts := getAmounts amountsNode amountsAddresses fundedLedger paymentTx ""

theorem getAmounts_send_net_payment :
    amountsNode.isCoinStake paymentTx.toTx = false ∧ fundedLedger.isFromMe amountsNode paymentTx.toTx = true ∧
      sumAmounts paymentAmounts.listReceived - sumAmounts paymentAmounts.listSent - paymentAmounts.nFee =
        (paymentTx.vout.map fun o =>
          if amountsNode.isMine o.scriptPubKey || amountsAddresses.isChange o then o.nValue else 0).sum -
          fundedLedger.getDebit amountsNode paymentTx.toTx :=
  ⟨rfl, rfl, getAmounts_send_net amountsNode amountsAddresses fundedLedger paymentTx "" rfl rfl⟩

theorem sum_enumFrom_drop {α : Type} (f : α → Int) : ∀ (l : List α) (i : Nat),
    ((l.enumFrom i).map fun p => if 1 < p.1 then f p.2 else 0).sum = ((l.drop (2 - i)).map f).sum
  | [], _ => by simp
  | a :: l, i => by
    rw [List.enumFrom_cons, List.map_cons, List.sum_cons, sum_enumFrom_drop f l (i + 1)]
    rcases i with _ | _ | i
    · simp
    · simp
    · simp [show 1 < i + 2 by omega, show 2 - (i + 2) = 0 by omega, show 2 - (i + 2 + 1) = 0 by omega]

/-- The wallet's coinstake nets out against the debit with no fee, the sidestakes apart. -/
theorem getAmounts_stake_net (L : Ledger) (wtx : WalletTx) (strFromAccount : String)
    (hstake : N.isCoinStake wtx.toTx = true)
    (hmine : (wtx.vout[1]?).any (fun o => N.isMine o.scriptPubKey) = true)
    (hfrom : L.isFromMe N wtx.toTx = true) :
    (getAmounts N D L wtx strFromAccount).nFee = 0 ∧
      sumAmounts (getAmounts N D L wtx strFromAccount).listReceived -
          sumAmounts (getAmounts N D L wtx strFromAccount).listSent =
        (wtx.vout.map TxOut.nValue).sum -
          ((wtx.vout.drop 2).map fun o => if N.isMine o.scriptPubKey then 0 else o.nValue).sum -
          L.getDebit N wtx.toTx := by
  set c := amountsCtx N L wtx with hc
  have hF : c.fIsFromMe = true := hfrom
  have hS : c.fIsCoinStake = true := hstake
  have hM : c.fIsCoinStakeMine = true := by simp only [hc, amountsCtx, hstake, hmine, Bool.true_and]
  have hskip : ∀ o, c.skips N D o = false := fun o => by simp [AmountsCtx.skips, hF, hS]
  obtain ⟨last, hlast⟩ : ∃ last, wtx.vout.getLast? = some last := by
    cases h : wtx.vout.getLast? with
    | none => simp [List.getLast?_eq_none_iff.mp h] at hmine
    | some last => exact ⟨last, rfl⟩
  obtain ⟨hs, hr, -⟩ := amountsLoop_sums N D wtx.vout c wtx.vout 0 ⟨[], [], 0⟩ (Nat.zero_add _)
  have hpoint : ∀ p : Nat × TxOut, c.sentValue N D p.1 p.2 =
      (if 1 < p.1 then (if N.isMine p.2.scriptPubKey then 0 else p.2.nValue) else 0) +
        c.receivedValue N D p.2 := fun p => by
    simp only [AmountsCtx.sentValue, AmountsCtx.receivedValue, AmountsCtx.sends, AmountsCtx.receives,
      AmountsCtx.isSelf, hskip, hF, hS, hM]
    by_cases h1 : 1 < p.1 <;> cases N.isMine p.2.scriptPubKey <;> simp [h1]
  have hsent : ((wtx.vout.enumFrom 0).map fun p => c.sentValue N D p.1 p.2).sum =
      ((wtx.vout.drop 2).map fun o => if N.isMine o.scriptPubKey then 0 else o.nValue).sum +
        (wtx.vout.map (c.receivedValue N D)).sum := by
    simp only [hpoint, List.sum_map_add, sum_enumFrom_snd (c.receivedValue N D)]
    rw [sum_enumFrom_drop (fun o : TxOut => if N.isMine o.scriptPubKey then 0 else o.nValue) wtx.vout 0]
  have hstakes : wtx.vout.map (c.stakeValue N D) = wtx.vout.map TxOut.nValue :=
    List.map_congr_left fun o _ => by simp [AmountsCtx.stakeValue, hskip, hM]
  refine ⟨by simp only [getAmounts, ← hc, hS, Bool.not_true, Bool.and_false, Bool.false_eq_true, if_false], ?_⟩
  simp only [getAmounts, ← hc, hs, hr, hlast, hM, hskip, hsent, hstakes, sumAmounts_nil, Bool.not_false,
    Bool.and_self, if_true, show c.nDebit = L.getDebit N wtx.toTx from rfl]
  ring

def stakeTx : WalletTx := WalletTx.ofTx ⟨7, [⟨1, 0⟩], [⟨0, []⟩, ⟨55, [1]⟩, ⟨5, [3]⟩]⟩

def stakeAmounts : Amounts := getAmounts amountsNode amountsAddresses fundedLedger stakeTx ""

theorem getAmounts_stake_net_sidestake :
    amountsNode.isCoinStake stakeTx.toTx = true ∧
      (stakeTx.vout[1]?).any (fun o => amountsNode.isMine o.scriptPubKey) = true ∧
      fundedLedger.isFromMe amountsNode stakeTx.toTx = true ∧
      stakeAmounts.nFee = 0 ∧ sumAmounts stakeAmounts.listReceived - sumAmounts stakeAmounts.listSent =
        (stakeTx.vout.map TxOut.nValue).sum -
          ((stakeTx.vout.drop 2).map fun o => if amountsNode.isMine o.scriptPubKey then 0 else o.nValue).sum -
          fundedLedger.getDebit amountsNode stakeTx.toTx :=
  ⟨rfl, rfl, rfl, getAmounts_stake_net amountsNode amountsAddresses fundedLedger stakeTx "" rfl rfl rfl⟩

theorem amountsLoop_listSent_of_not_fromMe (vout : List TxOut) (c : AmountsCtx) (hF : c.fIsFromMe = false) :
    ∀ (os : List TxOut) (i : Nat) (acc : AmountsAcc), (amountsLoop N D vout c i os acc).listSent = acc.listSent
  | [], _, _ => rfl
  | o :: os, i, acc => by
    rw [amountsLoop, amountsLoop_listSent_of_not_fromMe vout c hF os]
    by_cases hs : c.skips N D o
    · simp only [amountsStep, hs, if_true]
    · have hm : N.isMine o.scriptPubKey = true := by simpa [AmountsCtx.skips, hF] using hs
      simp [amountsStep, hs, AmountsCtx.sends, AmountsCtx.isSelf, hF, hm]

/-- A received transaction has no fee or sent entry, and its received entries add up to the credit.
 -/
theorem getAmounts_receive (L : Ledger) (wtx : WalletTx) (strFromAccount : String)
    (hfrom : L.isFromMe N wtx.toTx = false) :
    (getAmounts N D L wtx strFromAccount).nFee = 0 ∧ (getAmounts N D L wtx strFromAccount).listSent = [] ∧
      sumAmounts (getAmounts N D L wtx strFromAccount).listReceived = getCredit N wtx.toTx +
        if N.isCoinStake wtx.toTx && (wtx.vout[1]?).any (fun o => N.isMine o.scriptPubKey) &&
            (wtx.vout.getLast?).any (fun o => N.isMine o.scriptPubKey)
        then getCredit N wtx.toTx - L.getDebit N wtx.toTx else 0 := by
  set c := amountsCtx N L wtx with hc
  have hF : c.fIsFromMe = false := hfrom
  obtain ⟨-, hr, -⟩ := amountsLoop_sums N D wtx.vout c wtx.vout 0 ⟨[], [], 0⟩ (Nat.zero_add _)
  have hrecv : wtx.vout.map (c.receivedValue N D) = wtx.vout.map fun o =>
      if N.isMine o.scriptPubKey then o.nValue else 0 :=
    List.map_congr_left fun o _ => by
      cases hm : N.isMine o.scriptPubKey <;>
        simp [AmountsCtx.receivedValue, AmountsCtx.skips, AmountsCtx.receives, AmountsCtx.isSelf, hF, hm]
  have hstakes : c.fIsCoinStakeMine = true → wtx.vout.map (c.stakeValue N D) = wtx.vout.map fun o =>
      if N.isMine o.scriptPubKey then o.nValue else 0 := fun hM =>
    List.map_congr_left fun o _ => by
      cases hm : N.isMine o.scriptPubKey <;> simp [AmountsCtx.stakeValue, AmountsCtx.skips, hF, hM, hm]
  refine ⟨by simp only [getAmounts, ← hc, hF, Bool.false_and, Bool.false_eq_true, if_false],
    amountsLoop_listSent_of_not_fromMe N D wtx.vout c hF wtx.vout 0 _, ?_⟩
  have hcs : (N.isCoinStake wtx.toTx && (wtx.vout[1]?).any fun o => N.isMine o.scriptPubKey) =
      c.fIsCoinStakeMine := rfl
  simp only [getAmounts, ← hc, hr, hrecv, sumAmounts_nil, zero_add, hcs]
  rw [show getCredit N wtx.toTx = (wtx.vout.map fun o => if N.isMine o.scriptPubKey then o.nValue else 0).sum
    from rfl, show L.getDebit N wtx.toTx = c.nDebit from rfl]
  cases hlast : wtx.vout.getLast? with
  | none => simp
  | some last =>
    cases hM : c.fIsCoinStakeMine
    · simp
    · simp [hstakes hM, AmountsCtx.skips, hF]

def incomingTx : WalletTx := WalletTx.ofTx ⟨3, [⟨9, 0⟩], [⟨10, [1]⟩, ⟨4, [2]⟩]⟩

def incomingAmounts : Amounts := getAmounts amountsNode amountsAddresses fundedLedger incomingTx ""

theorem getAmounts_receive_incoming :
    fundedLedger.isFromMe amountsNode incomingTx.toTx = false ∧
      incomingAmounts.nFee = 0 ∧ incomingAmounts.listSent = [] ∧
      sumAmounts incomingAmounts.listReceived = getCredit amountsNode incomingTx.toTx +
        if amountsNode.isCoinStake incomingTx.toTx &&
            (incomingTx.vout[1]?).any (fun o => amountsNode.isMine o.scriptPubKey) &&
            (incomingTx.vout.getLast?).any (fun o => amountsNode.isMine o.scriptPubKey)
        then getCredit amountsNode incomingTx.toTx - fundedLedger.getDebit amountsNode incomingTx.toTx else 0 :=
  ⟨rfl, getAmounts_receive amountsNode amountsAddresses fundedLedger incomingTx "" rfl⟩

/-- The account GetAccountAmounts credits a received entry to: the label of its address, or the
empty account for an address with no address-book entry. -/
def Addresses.accountOf (D : Addresses) (r : COutputEntry) : String :=
  (r.destination.bind D.mapAddressBook.find?).getD ""

/-- CWalletTx::GetAccountAmounts, as (nReceived, nSent, nFee). -/
def getAccountAmounts (L : Ledger) (wtx : WalletTx) (strFromAccount strAccount : String) : Int × Int × Int :=
  let a := getAmounts N D L wtx strFromAccount
  let nReceived := sumAmounts (a.listReceived.filter fun r =>
    match r.destination.bind D.mapAddressBook.find? with
    | some label => label == strAccount
    | none => strAccount.isEmpty)
  if strAccount = a.strSentAccount then (nReceived, sumAmounts a.listSent, a.nFee) else (nReceived, 0, 0)

theorem getAccountAmounts_received (L : Ledger) (wtx : WalletTx) (strFromAccount strAccount : String) :
    (getAccountAmounts N D L wtx strFromAccount strAccount).1 =
      sumAmounts ((getAmounts N D L wtx strFromAccount).listReceived.filter fun r =>
        D.accountOf r = strAccount) := by
  have hpred : ∀ r : COutputEntry, (match r.destination.bind D.mapAddressBook.find? with
      | some label => label == strAccount
      | none => strAccount.isEmpty) = decide (D.accountOf r = strAccount) := fun r => by
    unfold Addresses.accountOf
    cases r.destination.bind D.mapAddressBook.find? with
    | some label =>
      show (label == strAccount) = decide (label = strAccount)
      exact Bool.eq_iff_iff.mpr (by rw [beq_iff_eq, decide_eq_true_iff])
    | none =>
      show strAccount.isEmpty = decide ("" = strAccount)
      exact Bool.eq_iff_iff.mpr (by rw [String.isEmpty_iff, decide_eq_true_iff, eq_comm])
  unfold getAccountAmounts
  dsimp only
  split_ifs <;> simp only [hpred]

theorem sum_map_ite_eq_of_mem {α : Type} [DecidableEq α] (f : α → Int) (x : α) :
    ∀ {l : List α}, l.Nodup → x ∈ l → (l.map fun y => if x = y then f y else 0).sum = f x
  | y :: l, hnd, hx => by
    obtain ⟨hy, hl⟩ := List.nodup_cons.mp hnd
    rw [List.map_cons, List.sum_cons]
    by_cases h : x = y
    · subst h
      rw [if_pos rfl, List.map_congr_left fun z hz => if_neg fun e => hy (by rw [e]; exact hz)]
      simp
    · rw [if_neg h, sum_map_ite_eq_of_mem f x hl ((List.mem_cons.mp hx).resolve_left h), zero_add]

/-- GetAccountAmounts splits GetAmounts among the accounts. -/
theorem getAccountAmounts_partition (L : Ledger) (wtx : WalletTx) (strFromAccount : String)
    (accounts : List String) (hnodup : accounts.Nodup) (hempty : "" ∈ accounts)
    (hlabels : ∀ a label, D.mapAddressBook.find? a = some label → label ∈ accounts)
    (hfrom : strFromAccount ∈ accounts) :
    (accounts.map fun acct => (getAccountAmounts N D L wtx strFromAccount acct).1).sum =
        sumAmounts (getAmounts N D L wtx strFromAccount).listReceived ∧
      (accounts.map fun acct => (getAccountAmounts N D L wtx strFromAccount acct).2.1).sum =
        sumAmounts (getAmounts N D L wtx strFromAccount).listSent ∧
      (accounts.map fun acct => (getAccountAmounts N D L wtx strFromAccount acct).2.2).sum =
        (getAmounts N D L wtx strFromAccount).nFee := by
  have hacct : ∀ r, D.accountOf r ∈ accounts := fun r => by
    unfold Addresses.accountOf
    cases h : r.destination.bind D.mapAddressBook.find? with
    | none => exact hempty
    | some label =>
      obtain ⟨a, -, ha⟩ := Option.bind_eq_some.mp h
      exact hlabels a label ha
  have hsent : ∀ acct, (getAccountAmounts N D L wtx strFromAccount acct).2 =
      if strFromAccount = acct then (sumAmounts (getAmounts N D L wtx strFromAccount).listSent,
        (getAmounts N D L wtx strFromAccount).nFee) else (0, 0) := fun acct => by
    unfold getAccountAmounts
    by_cases h : strFromAccount = acct
    · subst h; simp [getAmounts]
    · simp [getAmounts, Ne.symm h, h]
  refine ⟨?_, ?_, ?_⟩
  · simp only [getAccountAmounts_received]
    generalize (getAmounts N D L wtx strFromAccount).listReceived = rs
    induction rs with
    | nil => simp
    | cons r rs ih =>
      simp only [sumAmounts_filter_cons, List.sum_map_add, ih, decide_eq_true_eq]
      rw [sum_map_ite_eq_of_mem (fun _ => r.amount) (D.accountOf r) hnodup (hacct r)]
      simp [sumAmounts]
  · simp only [hsent, apply_ite Prod.fst]
    exact sum_map_ite_eq_of_mem (fun _ => _) strFromAccount hnodup hfrom
  · simp only [hsent, apply_ite Prod.snd]
    exact sum_map_ite_eq_of_mem (fun _ => _) strFromAccount hnodup hfrom

theorem getAccountAmounts_partition_payment :
    ["", "savings"].Nodup ∧ "" ∈ ["", "savings"] ∧
      (∀ a label, amountsAddresses.mapAddressBook.find? a = some label → label ∈ ["", "savings"]) ∧
      "" ∈ ["", "savings"] ∧
      (["", "savings"].map fun acct =>
          (getAccountAmounts amountsNode amountsAddresses fundedLedger paymentTx "" acct).1).sum =
        sumAmounts paymentAmounts.listReceived ∧
      (["", "savings"].map fun acct =>
          (getAccountAmounts amountsNode amountsAddresses fundedLedger paymentTx "" acct).2.1).sum =
        sumAmounts paymentAmounts.listSent ∧
      (["", "savings"].map fun acct =>
          (getAccountAmounts amountsNode amountsAddresses fundedLedger paymentTx "" acct).2.2).sum =
        paymentAmounts.nFee := by
  have hlabels : ∀ a label, amountsAddresses.mapAddressBook.find? a = some label →
      label ∈ ["", "savings"] := fun a label h => by
    simp only [amountsAddresses, StdMap.find?_set, StdMap.find?_empty] at h
    split_ifs at h
    cases h
    simp
  exact ⟨by decide, by simp, hlabels, by simp,
    getAccountAmounts_partition amountsNode amountsAddresses fundedLedger paymentTx "" ["", "savings"]
      (by decide) (by simp) hlabels (by simp)⟩

end GetAmounts

end GridcoinWallet
