import GridcoinWallet.StdMap
import GridcoinWallet.Serialize.CompactSize
import GridcoinWallet.Serialize.VarInt
import GridcoinWallet.Serialize.Containers
import GridcoinWallet.Serialize.CustomUint
import GridcoinWallet.Ledger.Wallet
import GridcoinWallet.Ledger.Update
import GridcoinWallet.Ledger.Reconcile
import GridcoinWallet.Ledger.AddressGroupings
import GridcoinWallet.Ledger.Reaccept
import GridcoinWallet.Select.Coins
import GridcoinWallet.Select.Subset
import GridcoinWallet.Select.Spec
import GridcoinWallet.Select.Sufficiency
import GridcoinWallet.Select.Staking
import GridcoinWallet.Select.Quality
import GridcoinWallet.Select.Smallest
import GridcoinWallet.Ledger.SpentFlags
import GridcoinWallet.Ledger.PhantomSpent
import GridcoinWallet.Ledger.SupportingTxs
import GridcoinWallet.Ledger.OrderPos
import GridcoinWallet.Builder.CreateTransaction
import GridcoinWallet.Builder.FeeLoop
import GridcoinWallet.Builder.Outputs
import GridcoinWallet.Builder.SendMoney
import GridcoinWallet.Ledger.Amounts
import GridcoinWallet.Ledger.AddressBalances
import GridcoinWallet.Ledger.KeyBirth
import GridcoinWallet.Vault.MasterKeys
import GridcoinWallet.Vault.Unlock
import GridcoinWallet.Vault.GenerateNewKey
import GridcoinWallet.KeyPool.Reserve
import GridcoinWallet.KeyPool.Indices
import GridcoinWallet.Script.GetOp
import GridcoinWallet.Script.Loops
import GridcoinWallet.Script.FindAndDelete
import GridcoinWallet.Rpc.DumpWallet
