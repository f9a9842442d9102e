import GridcoinWallet.Vault.MasterKeys

namespace GridcoinWallet

theorem StdMap.set_head {V : Type} {m : StdMap Nat V} {k : Nat} {v₀ : V} {rest : List (Nat × V)}
    (h : m.entries = (k, v₀) :: rest) (v : V) : (m.set k v).entries = (k, v) :: rest := by
  simp [StdMap.set, h, StdMap.setList]

namespace Vault

/-- The first master-key record seals the key store's master key under `pass`. -/
def SealedBy (V : Vault) (pass : String) : Prop :=
  ∃ key id salt n rest, V.storeKey = some key ∧
    V.mapMasterKeys.entries = (id, .seal pass salt n key) :: rest

theorem lock_fields (V : Vault) : V.lock.exited = V.exited ∧ V.lock.fUseCrypto = V.fUseCrypto := by
  unfold lock; split_ifs <;> exact ⟨rfl, rfl⟩

theorem unlock_fields (q : String) (V : Vault) :
    (V.unlock q).1.exited = V.exited ∧ (V.unlock q).1.fUseCrypto = V.fUseCrypto := by
  unfold unlock
  split
  · exact ⟨rfl, rfl⟩
  · generalize V.mapMasterKeys.entries = l
    induction l with
    | nil => exact ⟨rfl, rfl⟩
    | cons e l ih =>
      simp only [unlockLoop]
      split
      · exact ⟨rfl, rfl⟩
      · split_ifs
        · exact ⟨rfl, rfl⟩
        · exact ih

theorem changeWalletPassphrase_fields (old new : String) (n : Nat) (V : Vault) :
    (V.changeWalletPassphrase old new n).1.exited = V.exited ∧
      (V.changeWalletPassphrase old new n).1.fUseCrypto = V.fUseCrypto := by
  unfold changeWalletPassphrase
  rw [← (lock_fields V).1, ← (lock_fields V).2]
  generalize V.lock = W
  generalize W.mapMasterKeys.entries = l
  induction l with
  | nil => exact ⟨rfl, rfl⟩
  | cons e l ih =>
    simp only [changeLoop]
    split
    · exact ⟨rfl, rfl⟩
    · split_ifs
      · exact lock_fields _
      · exact ⟨rfl, rfl⟩
      · exact ih

@[simp] theorem lock_exited (V : Vault) : V.lock.exited = V.exited := (lock_fields V).1

@[simp] theorem lock_fUseCrypto (V : Vault) : V.lock.fUseCrypto = V.fUseCrypto := (lock_fields V).2

@[simp] theorem unlock_exited (q : String) (V : Vault) : (V.unlock q).1.exited = V.exited :=
  (unlock_fields q V).1

@[simp] theorem unlock_fUseCrypto (q : String) (V : Vault) : (V.unlock q).1.fUseCrypto = V.fUseCrypto :=
  (unlock_fields q V).2

theorem SealedBy.lock {V : Vault} {pass : String} (h : V.SealedBy pass) : V.lock.SealedBy pass := by
  unfold Vault.lock
  split_ifs <;> exact h

theorem unlock_sealed {V : Vault} {key id salt n : Nat} {pass : String} {rest : List (Nat × MasterKey)}
    (hlocked : V.isLocked = true) (hkey : V.storeKey = some key)
    (hhead : V.mapMasterKeys.entries = (id, .seal pass salt n key) :: rest) (q : String) :
    V.unlock q = if q = pass then ({ V with vMasterKey := some key }, true) else (V, false) := by
  by_cases hq : q = pass
  · subst hq
    simp [unlock, hlocked, hhead, unlockLoop, MasterKey.seal, hkey]
  · simp [unlock, hlocked, hhead, unlockLoop, MasterKey.seal, hq, Ne.symm hq]

theorem unlock_of_unlocked {V : Vault} (h : V.isLocked = false) (q : String) : V.unlock q = (V, false) := by
  simp [unlock, h]

theorem SealedBy.unlock {V : Vault} {pass : String} (h : V.SealedBy pass) (q : String) :
    (V.unlock q).1.SealedBy pass := by
  cases hl : V.isLocked
  · rw [unlock_of_unlocked hl]; exact h
  · obtain ⟨key, id, salt, n, rest, hkey, hhead⟩ := h
    rw [unlock_sealed hl hkey hhead]
    split_ifs <;> exact ⟨key, id, salt, n, rest, hkey, hhead⟩

theorem changeWalletPassphrase_sealed {V : Vault} {pass : String} (h : V.SealedBy pass) (hcrypt : V.fUseCrypto = true)
    (old new : String) (n : Nat) :
    if old = pass then (V.changeWalletPassphrase old new n).1.SealedBy new ∧ (V.changeWalletPassphrase old new n).2 = true
    else V.changeWalletPassphrase old new n = (V.lock, false) := by
  obtain ⟨key, id, salt, n₀, rest, hkey, hhead⟩ := h
  have hlock : V.lock = { V with vMasterKey := none } := by simp [Vault.lock, hcrypt]
  have hsealed : SealedBy
      { V with
        vMasterKey := some key
        storeKey := some key
        mapMasterKeys := V.mapMasterKeys.set id (.seal new salt (max n 25000) key) } new :=
    ⟨key, id, salt, _, rest, rfl, StdMap.set_head hhead _⟩
  have hunf : V.changeWalletPassphrase old new n =
      changeLoop old new n V.isLocked { V with vMasterKey := none } ((id, .seal pass salt n₀ key) :: rest) := by
    rw [changeWalletPassphrase, hlock, ← hhead]
  rw [hunf]
  split_ifs with hq
  · subst hq
    simp only [changeLoop, MasterKey.seal, decrypt_encrypt, if_true, hkey]
    split_ifs
    · exact ⟨hsealed.lock, trivial⟩
    · exact ⟨hsealed, trivial⟩
  · simp [changeLoop, MasterKey.seal, Ne.symm hq, hlock]

theorem run_sealed {V : Vault} {pass : String} (hexit : V.exited = false) (hcrypt : V.fUseCrypto = true)
    (hs : V.SealedBy pass) (c : VaultCall) :
    (c.run V).1.exited = false ∧ (c.run V).1.fUseCrypto = true ∧
      (c.run V).1.SealedBy (if (c.run V).2 then c.newPassphrase.getD pass else pass) ∧
      (c.isEncrypt = true → (c.run V).2 = false) := by
  cases c with
  | encryptWallet p c =>
    simp only [VaultCall.run, hexit, Vault.encryptWallet, hcrypt, if_true, if_false]
    exact ⟨hexit, hcrypt, hs, fun _ => rfl⟩
  | lock =>
    simp only [VaultCall.run, hexit, Bool.false_eq_true, if_false, hcrypt, if_true, VaultCall.newPassphrase, Option.getD_none]
    exact ⟨(lock_fields V).1.trans hexit, (lock_fields V).2.trans hcrypt, hs.lock, fun h => by cases h⟩
  | unlock q =>
    simp only [VaultCall.run, hexit, Bool.false_eq_true, if_false, VaultCall.newPassphrase, Option.getD_none, ite_self]
    exact ⟨(unlock_fields q V).1.trans hexit, (unlock_fields q V).2.trans hcrypt, hs.unlock q,
      fun h => by cases h⟩
  | changeWalletPassphrase old new n =>
    have hchange := changeWalletPassphrase_sealed hs hcrypt old new n
    have hfields := changeWalletPassphrase_fields old new n V
    simp only [VaultCall.run, hexit, Bool.false_eq_true, if_false, VaultCall.newPassphrase, Option.getD_some]
    refine ⟨hfields.1.trans hexit, hfields.2.trans hcrypt, ?_, fun h => by cases h⟩
    split_ifs at hchange with hold
    · rw [if_pos hchange.2]; exact hchange.1
    · rw [hchange]; exact hs.lock

theorem run_plain {V : Vault} (hexit : V.exited = false) (hcrypt : V.fUseCrypto = false)
    (hnone : V.mapMasterKeys.entries = []) {c : VaultCall} (hc : c.isEncrypt = false) : c.run V = (V, false) := by
  have hlock : V.lock = V := by simp [Vault.lock, hcrypt]
  cases c with
  | encryptWallet => cases hc
  | lock => simp [VaultCall.run, hexit, hlock, hcrypt]
  | unlock q => simp [VaultCall.run, hexit, Vault.unlock, Vault.isLocked, hcrypt]
  | changeWalletPassphrase old new n =>
    simp [VaultCall.run, hexit, Vault.changeWalletPassphrase, hlock, hnone, changeLoop]

theorem encryptWallet_plain {V : Vault} (hexit : V.exited = false) (hcrypt : V.fUseCrypto = false)
    (hnone : V.mapMasterKeys.entries = []) (p : String) {c : EncryptChance} (hbegin : c.txnBegin = true) :
    ((V.encryptWallet p c).1.exited = true ∧ (V.encryptWallet p c).2 = false) ∨
      ((V.encryptWallet p c).1.exited = false ∧ (V.encryptWallet p c).1.fUseCrypto = true ∧
        (V.encryptWallet p c).1.SealedBy p) := by
  have hentries : (V.mapMasterKeys.set (V.nMasterKeyMaxID + 1)
      (.seal p c.vchSalt (max c.nDeriveIterations 25000) c.vMasterKey)).entries =
      [(V.nMasterKeyMaxID + 1, .seal p c.vchSalt (max c.nDeriveIterations 25000) c.vMasterKey)] := by
    simp [StdMap.set, hnone, StdMap.setList]
  have hs₂ : SealedBy
      ({ V with
        nMasterKeyMaxID := V.nMasterKeyMaxID + 1
        mapMasterKeys := V.mapMasterKeys.set (V.nMasterKeyMaxID + 1)
          (.seal p c.vchSalt (max c.nDeriveIterations 25000) c.vMasterKey)
        fUseCrypto := true
        storeKey := some c.vMasterKey } : Vault) p :=
    ⟨c.vMasterKey, _, _, _, [], rfl, hentries⟩
  have hsealed := hs₂.lock
  unfold encryptWallet
  simp only [hcrypt, hbegin, Bool.not_true, Bool.and_false, Bool.false_eq_true, if_false]
  split_ifs
  · exact Or.inl ⟨rfl, rfl⟩
  · exact Or.inl ⟨rfl, rfl⟩
  · exact Or.inr ⟨by simp [hexit], by simp, hsealed.unlock p⟩
  · exact Or.inr ⟨by simp [hexit], by simp, (hsealed.unlock p).lock⟩

theorem SealedBy.unlock_iff {V : Vault} {pass : String} (h : V.SealedBy pass) (q : String) :
    (V.unlock q).2 = true ↔ V.isLocked = true ∧ q = pass := by
  obtain ⟨key, id, salt, n, rest, hkey, hhead⟩ := h
  cases hl : V.isLocked
  · simp [unlock_of_unlocked hl]
  · rw [unlock_sealed hl hkey hhead]
    split_ifs with hq <;> simp [hq]

end Vault

namespace VaultRun

/-- The invariant of vault runs without a failed TxnBegin. -/
structure Sound (R : VaultRun) : Prop where
  alive : R.encrypted = true → R.vault.exited = false
  plain : R.vault.exited = false → R.vault.fUseCrypto = false →
    R.vault.mapMasterKeys.entries = [] ∧ R.encrypted = false
  sealed : R.vault.exited = false → R.vault.fUseCrypto = true →
    ∃ pass, R.vault.SealedBy pass ∧ (R.encrypted = true → R.passphrase = some pass)

theorem sound_init : init.Sound :=
  ⟨fun h => (by cases h), fun _ _ => ⟨rfl, rfl⟩, fun _ h => (by cases h)⟩

theorem Sound.step {R : VaultRun} (hR : R.Sound) (c : VaultCall) (hbegin : c.beginsOk = true) :
    (R.step c).Sound := by
  by_cases hexit : R.vault.exited = true
  · have hrun : c.run R.vault = (R.vault, false) := by simp [VaultCall.run, hexit]
    simp only [VaultRun.step, hrun, if_false, Bool.and_false, Bool.or_false]
    exact ⟨hR.alive, hR.plain, hR.sealed⟩
  rw [Bool.not_eq_true] at hexit
  cases hcrypt : R.vault.fUseCrypto
  · obtain ⟨hnone, henc⟩ := hR.plain hexit hcrypt
    cases hc : c.isEncrypt
    · simp only [VaultRun.step, Vault.run_plain hexit hcrypt hnone hc, if_false, Bool.and_false, Bool.or_false]
      exact ⟨hR.alive, hR.plain, hR.sealed⟩
    · cases c with
      | encryptWallet p c =>
        simp only [VaultRun.step, VaultCall.run, hexit, Bool.false_eq_true, if_false, VaultCall.newPassphrase, VaultCall.isEncrypt,
          henc, Bool.true_and, Bool.false_or]
        rcases Vault.encryptWallet_plain hexit hcrypt hnone p hbegin with ⟨hx, hb⟩ | ⟨hx, hy, hs⟩
        · rw [hb]
          exact ⟨fun h => (by cases h), fun h => (by simp [hx] at h), fun h => (by simp [hx] at h)⟩
        · exact ⟨fun _ => hx, fun _ h => (by simp [hy] at h),
            fun _ _ => ⟨p, hs, fun h => by dsimp only at h; simp [h, Option.orElse]⟩⟩
      | _ => cases hc
  · obtain ⟨pass, hs, hpass⟩ := hR.sealed hexit hcrypt
    obtain ⟨hx, hy, hs', henc⟩ := Vault.run_sealed hexit hcrypt hs c
    refine ⟨fun _ => hx, fun _ h => (by simp [VaultRun.step, hy] at h), fun _ _ => ⟨_, hs', fun h => ?_⟩⟩
    simp only [VaultRun.step] at h ⊢
    have hR' : R.encrypted = true := by
      cases hc : c.isEncrypt
      · simpa [hc] using h
      · simpa [hc, henc hc] using h
    rw [hpass hR']
    split_ifs
    · cases c.newPassphrase <;> rfl
    · rfl

end VaultRun

theorem runVault_sound (calls : List VaultCall) (hbegin : ∀ c ∈ calls, c.beginsOk = true) {R : VaultRun}
    (hR : R.Sound) : (runVault calls R).Sound := by
  induction calls generalizing R with
  | nil => exact hR
  | cons c calls ih =>
    exact ih (fun c' hc' => hbegin c' (List.mem_cons_of_mem c hc'))
      (hR.step c (hbegin c (List.mem_cons_self c calls)))

/-- After a successful EncryptWallet, Unlock succeeds exactly with the passphrase last set. -/
theorem runVault_unlock_iff (calls : List VaultCall) (hbegin : ∀ c ∈ calls, c.beginsOk = true) :
    let R := runVault calls VaultRun.init
    R.encrypted = true →
      ∃ p, R.passphrase = some p ∧ ∀ q, (R.vault.unlock q).2 = true ↔ R.vault.isLocked = true ∧ q = p := by
  intro R henc
  have hR : R.Sound := runVault_sound calls hbegin VaultRun.sound_init
  have hexit := hR.alive henc
  cases hcrypt : R.vault.fUseCrypto
  · rw [(hR.plain hexit hcrypt).2] at henc; cases henc
  · obtain ⟨pass, hs, hpass⟩ := hR.sealed hexit hcrypt
    exact ⟨pass, hpass henc, hs.unlock_iff⟩

def passphraseCalls : List VaultCall :=
  [.encryptWallet "a" ⟨1, 7, 30000, true, true, true, true⟩, .unlock "a", .lock,
    .changeWalletPassphrase "a" "b" 30000]

theorem runVault_unlock_iff_passphraseCalls :
    (∀ c ∈ passphraseCalls, c.beginsOk = true) ∧ (runVault passphraseCalls VaultRun.init).encrypted = true ∧
      ∃ p, (runVault passphraseCalls VaultRun.init).passphrase = some p ∧
        ∀ q, ((runVault passphraseCalls VaultRun.init).vault.unlock q).2 = true ↔
          (runVault passphraseCalls VaultRun.init).vault.isLocked = true ∧ q = p :=
  have hbegin : ∀ c ∈ passphraseCalls, c.beginsOk = true := by decide
  have henc : (runVault passphraseCalls VaultRun.init).encrypted = true := rfl
  ⟨hbegin, henc, runVault_unlock_iff passphraseCalls hbegin henc⟩

def strayRecordCalls : List VaultCall :=
  [.encryptWallet "a" ⟨1, 7, 30000, false, true, true, true⟩,
    .encryptWallet "b" ⟨2, 8, 30000, true, true, true, true⟩]

/-- The record a failed EncryptWallet left comes first, and Unlock gives up on it. -/
theorem strayRecord_blocks_unlock :
    (runVault strayRecordCalls VaultRun.init).encrypted = true ∧
      (runVault strayRecordCalls VaultRun.init).passphrase = some "b" ∧
      (runVault strayRecordCalls VaultRun.init).vault.isLocked = true ∧
      ((runVault strayRecordCalls VaultRun.init).vault.unlock "b").2 = false :=
  ⟨rfl, rfl, rfl, rfl⟩

end GridcoinWallet
