import GridcoinWallet.StdMap

namespace GridcoinWallet

/-- Modelled from the spec: the key an ideal CCrypter::SetKeyFromPassphrase derives; distinct
passphrases, salts or iteration counts give distinct keys. -/
structure DerivedKey where
  passphrase : String
  vchSalt : Nat
  nDeriveIterations : Nat
  deriving DecidableEq, Repr

/-- Modelled from the spec: a ciphertext of an ideal cipher: the key it was made under and the
keying material it hides (a master key). -/
structure Ciphertext where
  key : DerivedKey
  plain : Nat
  deriving DecidableEq, Repr

/-- Modelled from the spec: CCrypter::Encrypt under an ideal cipher. -/
def encrypt (k : DerivedKey) (m : Nat) : Ciphertext := ⟨k, m⟩

/-- Modelled from the spec: CCrypter::Decrypt succeeds exactly on what Encrypt made under the same
key. -/
def decrypt (k : DerivedKey) (c : Ciphertext) : Option Nat := if c.key = k then some c.plain else none

@[simp] theorem decrypt_encrypt (k k' : DerivedKey) (m : Nat) :
    decrypt k' (encrypt k m) = if k = k' then some m else none := rfl

/-- CMasterKey: the encrypted master key, its salt and its iteration count. -/
structure MasterKey where
  vchCryptedKey : Ciphertext
  vchSalt : Nat
  nDeriveIterations : Nat
  deriving DecidableEq, Repr

/-- The master key `m` encrypted under `pass` with the record's salt and iterations. -/
def MasterKey.seal (pass : String) (salt n m : Nat) : MasterKey := ⟨encrypt ⟨pass, salt, n⟩ m, salt, n⟩

/-- The key-encryption state of CWallet and its CCryptoKeyStore. -/
structure Vault where
  mapMasterKeys : StdMap Nat MasterKey
  nMasterKeyMaxID : Nat
  fUseCrypto : Bool
  storeKey : Option Nat
  vMasterKey : Option Nat
  fFileBacked : Bool
  exited : Bool

namespace Vault

/-- A file-backed wallet that was never encrypted. -/
def init : Vault := ⟨StdMap.empty, 0, false, none, none, true, false⟩

def isLocked (V : Vault) : Bool := V.fUseCrypto && V.vMasterKey.isNone

/-- CCryptoKeyStore::Lock. -/
def lock (V : Vault) : Vault := if V.fUseCrypto then { V with vMasterKey := none } else V

/-- The loop of Unlock over the master-key records. -/
def unlockLoop (q : String) (V : Vault) : List (Nat × MasterKey) → Vault × Bool
  | [] => (V, false)
  | (_, km) :: rest =>
    match decrypt ⟨q, km.vchSalt, km.nDeriveIterations⟩ km.vchCryptedKey with
    | none => (V, false)
    | some m => if V.storeKey = some m then ({ V with vMasterKey := some m }, true) else unlockLoop q V rest

/-- CWallet::Unlock. -/
def unlock (q : String) (V : Vault) : Vault × Bool :=
  if !V.isLocked then (V, false) else unlockLoop q V V.mapMasterKeys.entries

/-- The loop of ChangeWalletPassphrase over the master-key records. -/
def changeLoop (old new : String) (nDeriveIterations : Nat) (fWasLocked : Bool) (V : Vault) :
    List (Nat × MasterKey) → Vault × Bool
  | [] => (V, false)
  | (id, km) :: rest =>
    match decrypt ⟨old, km.vchSalt, km.nDeriveIterations⟩ km.vchCryptedKey with
    | none => (V, false)
    | some m =>
      if V.storeKey = some m then
        let V' := { V with
          vMasterKey := some m
          mapMasterKeys := V.mapMasterKeys.set id (.seal new km.vchSalt (max nDeriveIterations 25000) m) }
        (if fWasLocked then V'.lock else V', true)
      else changeLoop old new nDeriveIterations fWasLocked V rest

/-- CWallet::ChangeWalletPassphrase. -/
def changeWalletPassphrase (old new : String) (nDeriveIterations : Nat) (V : Vault) : Vault × Bool :=
  changeLoop old new nDeriveIterations V.isLocked V.lock V.lock.mapMasterKeys.entries

end Vault

/-- What EncryptWallet draws and what it calls outside the vault. -/
structure EncryptChance where
  vMasterKey : Nat
  vchSalt : Nat
  nDeriveIterations : Nat
  txnBegin : Bool
  encryptKeys : Bool
  txnCommit : Bool
  hdOk : Bool
  deriving DecidableEq, Repr

/-- CWallet::EncryptWallet. -/
def Vault.encryptWallet (p : String) (c : EncryptChance) (V : Vault) : Vault × Bool :=
  if V.fUseCrypto then (V, false)
  else
    let id := V.nMasterKeyMaxID + 1
    let V₁ := { V with
      nMasterKeyMaxID := id
      mapMasterKeys := V.mapMasterKeys.set id (.seal p c.vchSalt (max c.nDeriveIterations 25000) c.vMasterKey) }
    if V.fFileBacked && !c.txnBegin then (V₁, false)
    else if !c.encryptKeys then ({ V₁ with exited := true }, false)
    else
      let V₂ := { V₁ with fUseCrypto := true, storeKey := some c.vMasterKey }
      if V.fFileBacked && !c.txnCommit then ({ V₂ with exited := true }, false)
      else
        let V₃ := (V₂.lock.unlock p).1
        if !c.hdOk then (V₃, false) else (V₃.lock, true)

def beginFails : EncryptChance := ⟨1, 7, 30000, false, true, true, true⟩

def hdFails : EncryptChance := ⟨1, 7, 30000, true, true, true, false⟩

/-- EncryptWallet can return false on a fresh wallet after changing the vault. -/
theorem encryptWallet_false_changes_vault :
    (Vault.encryptWallet "a" beginFails Vault.init).2 = false ∧
      (Vault.encryptWallet "a" beginFails Vault.init).1.exited = false ∧
      Vault.init.mapMasterKeys.find? 1 = none ∧
      (Vault.encryptWallet "a" beginFails Vault.init).1.mapMasterKeys.find? 1 = some (MasterKey.seal "a" 7 30000 1) ∧
      Vault.init.nMasterKeyMaxID = 0 ∧ (Vault.encryptWallet "a" beginFails Vault.init).1.nMasterKeyMaxID = 1 ∧
      (Vault.encryptWallet "a" hdFails Vault.init).2 = false ∧
      (Vault.encryptWallet "a" hdFails Vault.init).1.exited = false ∧
      Vault.init.fUseCrypto = false ∧ (Vault.encryptWallet "a" hdFails Vault.init).1.fUseCrypto = true :=
  ⟨rfl, rfl, rfl, rfl, rfl, rfl, rfl, rfl, rfl, rfl⟩

/-- The calls on the vault, with what they draw from outside. -/
inductive VaultCall
  | encryptWallet (p : String) (c : EncryptChance)
  | lock
  | unlock (q : String)
  | changeWalletPassphrase (old new : String) (nDeriveIterations : Nat)
  deriving DecidableEq, Repr

namespace VaultCall

/-- The vault a call leaves and what it returns; a call on a vault whose process has exited does
nothing. -/
def run (c : VaultCall) (V : Vault) : Vault × Bool :=
  if V.exited then (V, false)
  else
    match c with
    | encryptWallet p c => V.encryptWallet p c
    | lock => (V.lock, V.fUseCrypto)
    | unlock q => V.unlock q
    | changeWalletPassphrase old new n => V.changeWalletPassphrase old new n

def newPassphrase : VaultCall → Option String
  | encryptWallet p _ => some p
  | changeWalletPassphrase _ new _ => some new
  | _ => none

def beginsOk : VaultCall → Bool
  | encryptWallet _ c => c.txnBegin
  | _ => true

def isEncrypt : VaultCall → Bool
  | encryptWallet _ _ => true
  | _ => false

end VaultCall

/-- A vault with the passphrase set by the last successful EncryptWallet or ChangeWalletPassphrase,
and whether an EncryptWallet has returned true. -/
structure VaultRun where
  vault : Vault
  passphrase : Option String
  encrypted : Bool

namespace VaultRun

def init : VaultRun := ⟨Vault.init, none, false⟩

def step (R : VaultRun) (c : VaultCall) : VaultRun :=
  let r := c.run R.vault
  ⟨r.1, if r.2 then c.newPassphrase.orElse fun _ => R.passphrase else R.passphrase,
    R.encrypted || (c.isEncrypt && r.2)⟩

end VaultRun

def runVault (calls : List VaultCall) (R : VaultRun) : VaultRun := calls.foldl VaultRun.step R

end GridcoinWallet
