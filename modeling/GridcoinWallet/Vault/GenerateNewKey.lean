import GridcoinWallet.StdMap

namespace GridcoinWallet

/-- BIP32_HARDENED_KEY_LIMIT: the first hardened child index, 2^31. -/
def BIP32_HARDENED_KEY_LIMIT : Nat := 0x80000000

/-- Modelled from the spec: CHDChain (not under src/): the uint32_t counter of the external chain
and the id of the HD master key, 0 for a null CKeyID. -/
structure CHDChain where
  nExternalChainCounter : Nat
  masterKeyID : Nat
  counter_lt : nExternalChainCounter < 2 ^ 32

/-- Modelled from the spec: the fields of CKeyMetadata GenerateNewKey sets. -/
structure CKeyMetadata where
  nCreateTime : Int
  hdKeypath : String
  hdMasterKeyID : Nat
  deriving DecidableEq, Repr

/-- What GenerateNewKey reads from the key code. -/
structure KeyOps where
  setSeed : Nat → Nat
  derive : Nat → Nat → Nat
  keyID : Nat → Nat
  makeNewKey : Nat

/-- The key at m/0'/0'/index (a raw index) from the master secret `key`. -/
def hdChild (ops : KeyOps) (key index : Nat) : Nat :=
  ops.derive (ops.derive (ops.derive (ops.setSeed key) BIP32_HARDENED_KEY_LIMIT) BIP32_HARDENED_KEY_LIMIT) index

/-- The keypath GenerateNewKey records for counter `n`: m/0'/0'/n' (\x27 is the apostrophe). -/
def hdKeypath (n : Nat) : String := "m/0\x27/0\x27/" ++ toString n ++ "\x27"

/-- The wallet state GenerateNewKey reads and writes: hdChain, the key store (a key's id to the
key), mapKeyMetadata and nTimeFirstKey. -/
structure KeyStore where
  hdChain : CHDChain
  mapKeys : StdMap Nat Nat
  mapKeyMetadata : StdMap Nat CKeyMetadata
  nTimeFirstKey : Int

namespace KeyStore

def haveKey (W : KeyStore) (id : Nat) : Bool := (W.mapKeys.find? id).isSome

def isHDEnabled (W : KeyStore) : Bool := W.hdChain.masterKeyID != 0

/-- The do-while of GenerateNewKey from counter `n`, `fuel` rounds left. -/
def deriveLoop (ops : KeyOps) (W : KeyStore) (externalChainChildKey : Nat) : Nat → Nat → Option (Nat × Nat)
  | 0, _ => none
  | fuel + 1, n =>
    let childKey := ops.derive externalChainChildKey (n ||| BIP32_HARDENED_KEY_LIMIT)
    if W.haveKey (ops.keyID childKey) then deriveLoop ops W externalChainChildKey fuel ((n + 1) % 2 ^ 32)
    else some (childKey, n)

/-- The end of GenerateNewKey: the new key's metadata, nTimeFirstKey, and AddKey. -/
def storeNewKey (ops : KeyOps) (nCreationTime : Int) (addKeyOk : Bool) (secret : Nat)
    (metadata : CKeyMetadata) (W : KeyStore) : KeyStore × Except String Nat :=
  let pubkey := ops.keyID secret
  let W' := { W with
    mapKeyMetadata := W.mapKeyMetadata.set pubkey metadata
    nTimeFirstKey := if W.nTimeFirstKey = 0 ∨ nCreationTime < W.nTimeFirstKey then nCreationTime
      else W.nTimeFirstKey }
  if addKeyOk then ({ W' with mapKeys := W'.mapKeys.set pubkey secret }, .ok pubkey)
  else (W', .error "CWallet::GenerateNewKey() : AddKey failed")

/-- CWallet::GenerateNewKey, given whether WriteHDChain and AddKey succeed. -/
def generateNewKey (ops : KeyOps) (nCreationTime : Int) (writeHDChainOk addKeyOk : Bool) (W : KeyStore) :
    Option (KeyStore × Except String Nat) :=
  if W.isHDEnabled then
    match W.mapKeys.find? W.hdChain.masterKeyID with
    | none => some (W, .error "CWallet::GenerateNewKey(): Master key not found")
    | some key =>
      let masterKey := ops.setSeed key
      let accountKey := ops.derive masterKey BIP32_HARDENED_KEY_LIMIT
      let externalChainChildKey := ops.derive accountKey BIP32_HARDENED_KEY_LIMIT
      (deriveLoop ops W externalChainChildKey (2 ^ 32) W.hdChain.nExternalChainCounter).map fun r =>
        let W' := { W with hdChain := ⟨(r.2 + 1) % 2 ^ 32, W.hdChain.masterKeyID, Nat.mod_lt _ (by decide)⟩ }
        if writeHDChainOk then storeNewKey ops nCreationTime addKeyOk r.1 ⟨nCreationTime, hdKeypath r.2, W.hdChain.masterKeyID⟩ W'
        else (W', .error "CWallet::GenerateNewKey(): Writing HD chain model failed")
  else some (storeNewKey ops nCreationTime addKeyOk ops.makeNewKey ⟨nCreationTime, "", 0⟩ W)

theorem lor_hardened {c : Nat} (hc : c < 2 ^ 32) :
    c ||| BIP32_HARDENED_KEY_LIMIT = if c < 2 ^ 31 then c + 2 ^ 31 else c := by
  have hL : BIP32_HARDENED_KEY_LIMIT = 2 ^ 31 * 1 := rfl
  rw [hL]
  split_ifs with h
  · rw [Nat.or_comm, ← Nat.mul_add_lt_is_or h, Nat.mul_one, Nat.add_comm]
  · obtain ⟨b, rfl⟩ : ∃ b, c = 2 ^ 31 * 1 + b := ⟨c - 2 ^ 31, by omega⟩
    rw [Nat.mul_add_lt_is_or (by omega : b < 2 ^ 31), Nat.or_assoc, Nat.or_comm b, ← Nat.or_assoc, Nat.or_self]

theorem deriveLoop_least (ops : KeyOps) (W : KeyStore) (ext : Nat) {c : Nat} (hc : c < 2 ^ 32)
    (hfree : W.haveKey (ops.keyID (ops.derive ext (c ||| BIP32_HARDENED_KEY_LIMIT))) = false) :
    ∀ fuel n, n ≤ c → c - n < fuel →
      (∀ c', n ≤ c' → c' < c → W.haveKey (ops.keyID (ops.derive ext (c' ||| BIP32_HARDENED_KEY_LIMIT))) = true) →
      deriveLoop ops W ext fuel n = some (ops.derive ext (c ||| BIP32_HARDENED_KEY_LIMIT), c)
  | 0, _, _, h, _ => absurd h (Nat.not_lt_zero _)
  | fuel + 1, n, hn, hfuel, hheld => by
    simp only [deriveLoop]
    rcases Nat.eq_or_lt_of_le hn with rfl | hlt
    · simp [hfree]
    · rw [if_pos (hheld n le_rfl hlt), Nat.mod_eq_of_lt (by omega)]
      exact deriveLoop_least ops W ext hc hfree fuel (n + 1) (by omega) (by omega)
        fun c' h1 h2 => hheld c' (by omega) h2

/-- GenerateNewKey on an HD wallet derives the first child it lacks and records its keypath. -/
theorem generateNewKey_hd (ops : KeyOps) (nCreationTime : Int) (W : KeyStore) {key c : Nat}
    (hHD : W.isHDEnabled = true) (hmaster : W.mapKeys.find? W.hdChain.masterKeyID = some key)
    (hc : W.hdChain.nExternalChainCounter ≤ c) (hc32 : c < 2 ^ 32)
    (hfree : W.haveKey (ops.keyID (hdChild ops key (c ||| BIP32_HARDENED_KEY_LIMIT))) = false)
    (hheld : ∀ c', W.hdChain.nExternalChainCounter ≤ c' → c' < c →
      W.haveKey (ops.keyID (hdChild ops key (c' ||| BIP32_HARDENED_KEY_LIMIT))) = true) :
    ∃ W', generateNewKey ops nCreationTime true true W =
        some (W', .ok (ops.keyID (hdChild ops key (c ||| BIP32_HARDENED_KEY_LIMIT)))) ∧
      W'.hdChain.nExternalChainCounter = (c + 1) % 2 ^ 32 ∧ W'.hdChain.masterKeyID = W.hdChain.masterKeyID ∧
      W'.mapKeyMetadata.find? (ops.keyID (hdChild ops key (c ||| BIP32_HARDENED_KEY_LIMIT))) =
        some ⟨nCreationTime, hdKeypath c, W.hdChain.masterKeyID⟩ ∧
      W'.mapKeys.find? (ops.keyID (hdChild ops key (c ||| BIP32_HARDENED_KEY_LIMIT))) =
        some (hdChild ops key (c ||| BIP32_HARDENED_KEY_LIMIT)) ∧
      (c ||| BIP32_HARDENED_KEY_LIMIT = c + 2 ^ 31 ↔ c < 2 ^ 31) := by
  have hloop := deriveLoop_least ops W _ hc32 hfree (2 ^ 32) _ hc (by omega) hheld
  refine ⟨(storeNewKey ops nCreationTime true (hdChild ops key (c ||| BIP32_HARDENED_KEY_LIMIT))
    ⟨nCreationTime, hdKeypath c, W.hdChain.masterKeyID⟩
    { W with hdChain := ⟨(c + 1) % 2 ^ 32, W.hdChain.masterKeyID, Nat.mod_lt _ (by decide)⟩ }).1,
    ?_, rfl, rfl, by simp [storeNewKey], by simp [storeNewKey], ?_⟩
  · simp only [generateNewKey, hHD, ↓reduceIte, hmaster, hloop, Option.map_some']
    rfl
  · rw [lor_hardened hc32]
    split_ifs with h <;> omega

end KeyStore

def indexOps : KeyOps := ⟨id, fun _ i => i, id, 0⟩

def highCounterWallet : KeyStore :=
  ⟨⟨2 ^ 31, 1, by decide⟩, StdMap.empty.set 1 7, StdMap.empty, 0⟩

theorem generateNewKey_hd_highCounter :
    highCounterWallet.isHDEnabled = true ∧ highCounterWallet.mapKeys.find? highCounterWallet.hdChain.masterKeyID = some 7 ∧
      highCounterWallet.hdChain.nExternalChainCounter ≤ 2 ^ 31 ∧ 2 ^ 31 < 2 ^ 32 ∧
      highCounterWallet.haveKey (indexOps.keyID (hdChild indexOps 7 (2 ^ 31 ||| BIP32_HARDENED_KEY_LIMIT))) = false ∧
      ∃ W', KeyStore.generateNewKey indexOps 0 true true highCounterWallet =
          some (W', .ok (indexOps.keyID (hdChild indexOps 7 (2 ^ 31 ||| BIP32_HARDENED_KEY_LIMIT)))) ∧
        W'.hdChain.nExternalChainCounter = (2 ^ 31 + 1) % 2 ^ 32 ∧
        W'.hdChain.masterKeyID = highCounterWallet.hdChain.masterKeyID ∧
        W'.mapKeyMetadata.find? (indexOps.keyID (hdChild indexOps 7 (2 ^ 31 ||| BIP32_HARDENED_KEY_LIMIT))) =
          some ⟨0, hdKeypath (2 ^ 31), highCounterWallet.hdChain.masterKeyID⟩ ∧
        W'.mapKeys.find? (indexOps.keyID (hdChild indexOps 7 (2 ^ 31 ||| BIP32_HARDENED_KEY_LIMIT))) =
          some (hdChild indexOps 7 (2 ^ 31 ||| BIP32_HARDENED_KEY_LIMIT)) ∧
        (2 ^ 31 ||| BIP32_HARDENED_KEY_LIMIT = 2 ^ 31 + 2 ^ 31 ↔ 2 ^ 31 < 2 ^ 31) :=
  ⟨rfl, rfl, le_rfl, by decide, rfl, KeyStore.generateNewKey_hd indexOps 0 highCounterWallet rfl rfl le_rfl
    (by decide) rfl fun c' h1 h2 => absurd (lt_of_le_of_lt h1 h2) (lt_irrefl _)⟩

/-- From the counter 2^31 the keypath GenerateNewKey records names another index than the one it
derives at. -/
theorem generateNewKey_keypath_mismatch :
    (KeyStore.generateNewKey indexOps 0 true true highCounterWallet).map (·.2.toOption) = some (some (2 ^ 31)) ∧
      (KeyStore.generateNewKey indexOps 0 true true highCounterWallet).bind
          (fun r => r.1.mapKeyMetadata.find? (2 ^ 31)) = some ⟨0, hdKeypath (2 ^ 31), 1⟩ ∧
      hdChild indexOps 7 (2 ^ 31 ||| BIP32_HARDENED_KEY_LIMIT) = hdChild indexOps 7 (0 + 2 ^ 31) ∧
      hdChild indexOps 7 (2 ^ 31 + 2 ^ 31) ≠ hdChild indexOps 7 (2 ^ 31 ||| BIP32_HARDENED_KEY_LIMIT) :=
  ⟨rfl, rfl, rfl, by decide⟩

end GridcoinWallet
