import GridcoinWallet.Builder.Outputs

namespace GridcoinWallet

namespace Ledger

def marksSpent (L : Ledger) (p : OutPoint) : Bool :=
  match L.mapWallet.find? p.hash with
  | some w => decide (p.n < w.vout.length) && w.isSpent p.n
  | none => false

theorem marksSpent_eq_true {L : Ledger} {p : OutPoint} :
    L.marksSpent p = true ↔ ∃ w, L.mapWallet.find? p.hash = some w ∧ p.n < w.vout.length ∧ w.isSpent p.n = true := by
  cases h : L.mapWallet.find? p.hash <;> simp [marksSpent, h]

/-- Every record of L is still in L', with its transaction and at least its spent flags. -/
def KeepsSpent (L L' : Ledger) : Prop :=
  ∀ k w, L.mapWallet.find? k = some w → ∃ w', L'.mapWallet.find? k = some w' ∧ w'.toTx = w.toTx ∧
    ∀ n < w.vout.length, w.isSpent n = true → w'.isSpent n = true

theorem KeepsSpent.refl (L : Ledger) : KeepsSpent L L := fun _ w hw => ⟨w, hw, rfl, fun _ _ h => h⟩

theorem KeepsSpent.trans {L₁ L₂ L₃ : Ledger} (h₁ : KeepsSpent L₁ L₂) (h₂ : KeepsSpent L₂ L₃) :
    KeepsSpent L₁ L₃ := fun k w hw => by
  obtain ⟨w₂, hw₂, ht₂, hf₂⟩ := h₁ k w hw
  obtain ⟨w₃, hw₃, ht₃, hf₃⟩ := h₂ k w₂ hw₂
  exact ⟨w₃, hw₃, ht₃.trans ht₂, fun n hn h => hf₃ n (by rwa [congrArg Tx.vout ht₂]) (hf₂ n hn h)⟩

theorem KeepsSpent.marksSpent {L L' : Ledger} (h : KeepsSpent L L') {p : OutPoint} (hp : L.marksSpent p = true) :
    L'.marksSpent p = true := by
  obtain ⟨w, hw, hn, hs⟩ := marksSpent_eq_true.mp hp
  obtain ⟨w', hw', ht, hf⟩ := h _ w hw
  exact marksSpent_eq_true.mpr ⟨w', hw', by rwa [congrArg Tx.vout ht], hf _ hn hs⟩

section Commit

variable (N : Node)

end Commit

end Ledger

section Send

variable (N : Node) (L : Ledger) (chain : ChainView) (minIn : Int) (env : BuildEnv) (S : SendEnv)

variable {fuel : Nat} {scriptPubKey : List UInt8} {nValue : Int} {wtxNew : WalletTx}
  {contract : Option FirstContract} {fAskFee : Bool}

end Send

section Run

variable (N : Node) (minIn : Int)

end Run

end GridcoinWallet
