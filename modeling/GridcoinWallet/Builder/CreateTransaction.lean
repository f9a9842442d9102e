import GridcoinWallet.Ledger.SpentFlags
import Mathlib.Algebra.Order.Group.Int

namespace GridcoinWallet

/-- OP_RETURN, the one opcode of the burn output's script. -/
def OP_RETURN : UInt8 := 0x6a

/-- Modelled from the spec: the first contract of wtxNew, a message with its burn amount or another
contract. -/
inductive FirstContract
  | message (burn : Nat)
  | other
  deriving DecidableEq, Repr

/-- The arguments of CreateTransaction. -/
structure CreateRequest where
  vecSend : List (List UInt8 × Int)
  setCoins_in : CoinSet
  nTime : Nat
  contract : Option FirstContract
  coinControl : Option CoinControl
  change_back_to_input_address : Bool

/-- What CreateTransaction reads from the rest of the node and from chance, fixed during the call.
 -/
structure BuildEnv where
  nTransactionFee : Int
  getBaseFee : Tx → Int
  getMinFee : Tx → Nat → Int
  getSerializeSize : Tx → Nat
  signSignature : Tx → Nat → Bool
  maxStandardTxSize : Nat
  extractDestination : List UInt8 → Option (List UInt8)
  reservedKey : Nat → Option (List UInt8)
  randInt : Nat → Nat → Nat
  rng : Nat → Nat → SelectRng

/-- Why CreateTransaction returns false. -/
inductive CreateError
  | invalidOutputValue
  | selectCoinsFailed
  | inputsTooSmall
  | keypoolRanOut
  | signFailed
  | tooLarge
  deriving DecidableEq, Repr

/-- What a successful pass leaves: wtxNew's inputs and outputs, the coins spent, their value, the
change and the fee. -/
structure Built where
  tx : Tx
  coins : CoinSet
  nValueIn : Int
  nChange : Int
  nFeeRet : Int
  nBytes : Nat

/-- The end of one pass of the fee loop: the transaction, a retry with a higher fee (`continue`), or
a failure. -/
inductive Pass
  | done (b : Built)
  | retry (nFeeRet : Int)
  | fail (e : CreateError)

namespace CreateRequest

/-- message_fee: the burn of a leading message contract. -/
def messageFee (req : CreateRequest) : Int :=
  match req.contract with
  | some (.message burn) => burn
  | _ => 0

theorem messageFee_nonneg (req : CreateRequest) : 0 ≤ req.messageFee := by
  unfold messageFee
  split
  · exact Int.ofNat_nonneg _
  · exact le_refl 0

/-- Whether SelectCoins takes the smallest coins: no coin control picking coins, and a leading
contract that is not a message. -/
def isContract (req : CreateRequest) : Bool :=
  (req.coinControl.all fun c => !c.hasSelected) && req.contract == some .other

def provided (req : CreateRequest) : Bool := !req.setCoins_in.coins.isEmpty

/-- The payee outputs, then the burn output when a message fee applies. -/
def payeeOutputs (req : CreateRequest) : List TxOut :=
  req.vecSend.map (fun s => ⟨s.2, s.1⟩) ++
    if 0 < req.messageFee then [⟨req.messageFee, [OP_RETURN]⟩] else []

end CreateRequest

/-- The first loop of CreateTransaction: the amounts added up, failing at a negative running total
before an addition. -/
def sendTotal : Int → List (List UInt8 × Int) → Option Int
  | acc, [] => some acc
  | acc, s :: ss => if acc < 0 then none else sendTotal (acc + s.2) ss

theorem sendTotal_eq : ∀ {acc v : Int} {ss : List (List UInt8 × Int)}, sendTotal acc ss = some v →
    v = acc + (ss.map Prod.snd).sum
  | _, _, [], h => by cases h; simp
  | acc, v, s :: ss, h => by
    simp only [sendTotal] at h
    split_ifs at h
    rw [sendTotal_eq h, List.map_cons, List.sum_cons]
    omega

theorem sum_payeeOutputs (req : CreateRequest) :
    (req.payeeOutputs.map TxOut.nValue).sum = (req.vecSend.map Prod.snd).sum + req.messageFee := by
  have := req.messageFee_nonneg
  unfold CreateRequest.payeeOutputs
  split_ifs <;> simp [Function.comp_def]; omega

/-- `vout.insert(vout.begin() + pos, out)`. -/
def insertChange (vout : List TxOut) (pos : Nat) (out : TxOut) : List TxOut :=
  vout.take pos ++ out :: vout.drop pos

theorem sublist_insertChange (vout : List TxOut) (pos : Nat) (out : TxOut) :
    vout.Sublist (insertChange vout pos out) := by
  conv_lhs => rw [← List.take_append_drop pos vout]
  exact List.Sublist.append_left (List.sublist_cons_self _ _) _

theorem sum_insertChange (vout : List TxOut) (pos : Nat) (out : TxOut) :
    ((insertChange vout pos out).map TxOut.nValue).sum = (vout.map TxOut.nValue).sum + out.nValue := by
  conv_rhs => rw [← List.take_append_drop pos vout]
  simp only [insertChange, List.map_append, List.map_cons, List.sum_append, List.sum_cons]
  omega

/-- The sub-cent rule: positive change below CENT moves into the fee, up to GetBaseFee. -/
def nMoveToFee (nFeeRet baseFee nChange : Int) : Int :=
  if nFeeRet < baseFee ∧ 0 < nChange ∧ nChange < CENT then min nChange (baseFee - nFeeRet) else 0

theorem nMoveToFee_bounds (nFeeRet baseFee nChange : Int) :
    0 ≤ nMoveToFee nFeeRet baseFee nChange ∧ nMoveToFee nFeeRet baseFee nChange ≤ max nChange 0 := by
  unfold nMoveToFee
  split_ifs with hc
  · exact ⟨le_min (le_of_lt hc.2.1) (by omega), (min_le_left _ _).trans (le_max_left _ _)⟩
  · exact ⟨le_refl 0, le_max_right _ _⟩

section Build

variable (N : Node) (L : Ledger) (chain : ChainView) (minIn : Int) (env : BuildEnv) (req : CreateRequest)

/-- The coins of pass `k` and their value: the provided set, or SelectCoins for the target. -/
def inputCoins (k : Nat) (nTotalValue : Int) : Option (CoinSet × Int) :=
  if req.provided then some (req.setCoins_in, sumValues req.setCoins_in.coins)
  else selectCoins N L chain minIn nTotalValue req.nTime req.coinControl req.isContract (env.rng k)

/-- The change destination: coin control's, else an input's address (the first that has one), else a
key reserved from the pool. -/
def changeScript (k : Nat) (coinsOut : List COutput) : Option (List UInt8) :=
  match req.coinControl.bind CoinControl.destChange with
  | some s => some s
  | none =>
    if req.change_back_to_input_address then
      some ((coinsOut.findSome? fun o => env.extractDestination o.out.scriptPubKey).getD [])
    else env.reservedKey k

/-- The outputs of pass `k`: the payees, with the change at a random position when there is any
(`none`: no key for it). -/
def changeOutputs (k : Nat) (coinsOut : List COutput) (nChange : Int) : Option (List TxOut) :=
  if 0 < nChange then
    (changeScript env req k coinsOut).map fun s =>
      insertChange req.payeeOutputs (env.randInt k req.payeeOutputs.length) ⟨nChange, s⟩
  else some req.payeeOutputs

theorem changeOutputs_spec {k : Nat} {coinsOut : List COutput} {nChange : Int} {vout : List TxOut}
    (h : changeOutputs env req k coinsOut nChange = some vout) :
    req.payeeOutputs.Sublist vout ∧
      (vout.map TxOut.nValue).sum = (req.payeeOutputs.map TxOut.nValue).sum + if 0 < nChange then nChange else 0 := by
  unfold changeOutputs at h
  split_ifs at h with hc
  · obtain ⟨s, -, rfl⟩ := Option.map_eq_some'.mp h
    exact ⟨sublist_insertChange _ _ _, by rw [sum_insertChange, if_pos hc]⟩
  · cases h
    exact ⟨List.Sublist.refl _, by rw [if_neg hc, add_zero]⟩

/-- The end of a pass: signing, the size limit and the fee check. -/
def finishPass (tx : Tx) (coins : CoinSet) (nValueIn nChange nFeeRet : Int) : Pass :=
  if !(List.range coins.coins.length).all (env.signSignature tx) then .fail .signFailed
  else if env.maxStandardTxSize ≤ env.getSerializeSize tx then .fail .tooLarge
  else
    let nBytes := env.getSerializeSize tx
    let nFeeNeeded := max (env.nTransactionFee * (1 + (nBytes / 1000 : Nat))) (env.getMinFee tx nBytes)
    if nFeeRet < nFeeNeeded then .retry nFeeNeeded
    else .done ⟨tx, coins, nValueIn, nChange, nFeeRet, nBytes⟩

theorem finishPass_done {tx : Tx} {coins : CoinSet} {nValueIn nChange nFeeRet : Int} {b : Built}
    (h : finishPass env tx coins nValueIn nChange nFeeRet = .done b) :
    b = ⟨tx, coins, nValueIn, nChange, nFeeRet, env.getSerializeSize tx⟩ ∧
      env.getSerializeSize tx < env.maxStandardTxSize ∧
      max (env.nTransactionFee * (1 + (env.getSerializeSize tx / 1000 : Nat)))
        (env.getMinFee tx (env.getSerializeSize tx)) ≤ nFeeRet := by
  unfold finishPass at h
  dsimp only at h
  split_ifs at h with h₁ h₂ h₃
  cases h
  exact ⟨rfl, by omega, le_of_not_lt h₃⟩

/-- The inputs of wtxNew: each coin as the hash of its transaction and the index. -/
def coinInputs (coins : CoinSet) : List OutPoint := coins.coins.map fun o => ⟨N.getHash o.tx.toTx, o.i⟩

/-- One pass of the fee loop of CreateTransaction, with the fee guess `nFeeRet`. -/
def createPass (nValueOut : Int) (k : Nat) (nFeeRet : Int) : Pass :=
  match inputCoins N L chain minIn env req k (nValueOut + nFeeRet) with
  | none => .fail .selectCoinsFailed
  | some (coins, nValueIn) =>
    if req.provided ∧ nValueIn - nValueOut - nFeeRet < 0 then .fail .inputsTooSmall
    else
      let nChange := nValueIn - nValueOut - nFeeRet
      let nMove := nMoveToFee nFeeRet (env.getBaseFee ⟨req.nTime, [], req.payeeOutputs⟩) nChange
      match changeOutputs env req k (if req.provided then [] else coins.coins) (nChange - nMove) with
      | none => .fail .keypoolRanOut
      | some vout =>
        finishPass env ⟨req.nTime, coinInputs N coins, vout⟩ coins nValueIn (nChange - nMove) (nFeeRet + nMove)

theorem createPass_cases {nValueOut : Int} {k : Nat} {nFeeRet : Int} {p : Pass}
    (h : createPass N L chain minIn env req nValueOut k nFeeRet = p) :
    (∃ e, p = .fail e) ∨
      ∃ coins nValueIn vout, inputCoins N L chain minIn env req k (nValueOut + nFeeRet) = some (coins, nValueIn) ∧
        (req.provided = true → 0 ≤ nValueIn - nValueOut - nFeeRet) ∧
        let nMove := nMoveToFee nFeeRet (env.getBaseFee ⟨req.nTime, [], req.payeeOutputs⟩)
          (nValueIn - nValueOut - nFeeRet)
        changeOutputs env req k (if req.provided then [] else coins.coins)
            (nValueIn - nValueOut - nFeeRet - nMove) = some vout ∧
          p = finishPass env ⟨req.nTime, coinInputs N coins, vout⟩ coins nValueIn
            (nValueIn - nValueOut - nFeeRet - nMove) (nFeeRet + nMove) := by
  subst h
  unfold createPass
  split
  · exact Or.inl ⟨_, rfl⟩
  · rename_i coins nValueIn hin
    by_cases hshort : req.provided = true ∧ nValueIn - nValueOut - nFeeRet < 0
    · rw [if_pos hshort]
      exact Or.inl ⟨_, rfl⟩
    · rw [if_neg hshort]
      dsimp only
      split
      · exact Or.inl ⟨_, rfl⟩
      · rename_i vout hvout
        exact Or.inr ⟨coins, nValueIn, vout, hin, fun hp => le_of_not_lt fun hlt => hshort ⟨hp, hlt⟩, hvout, rfl⟩

end Build

end GridcoinWallet
