import GridcoinWallet.KeyPool.Reserve

namespace GridcoinWallet

namespace KeyPool

@[simp] theorem writeKey_reserved (i : Nat) (S : KeyPool) : (S.writeKey i).reserved = S.reserved := rfl

@[simp] theorem writeKey_locked (i : Nat) (S : KeyPool) : (S.writeKey i).locked = S.locked := rfl

theorem mem_writeKey {i x : Nat} {S : KeyPool} :
    x ∈ (S.writeKey i).setKeyPool.keys ↔ x = i ∨ x ∈ S.setKeyPool.keys :=
  StdSet.mem_insert

/-- Index `i` has a pool record, and the record's key is in the key store. -/
def Recorded (S : KeyPool) (i : Nat) : Prop := ∃ k, S.pool.find? i = some k ∧ k < S.nKeys

theorem Recorded.writeKey {S : KeyPool} {i : Nat} (h : S.Recorded i) (j : Nat) : (S.writeKey j).Recorded i := by
  obtain ⟨k, hk, hlt⟩ := h
  by_cases hij : i = j
  · exact ⟨S.nKeys, by simp [KeyPool.writeKey, hij], Nat.lt_succ_self _⟩
  · exact ⟨k, by simp [KeyPool.writeKey, hij, hk], Nat.lt_succ_of_lt hlt⟩

theorem recorded_writeKey (S : KeyPool) (j : Nat) : (S.writeKey j).Recorded j :=
  ⟨S.nKeys, by simp [KeyPool.writeKey], Nat.lt_succ_self _⟩

/-- The invariant of key-pool runs on an unlocked wallet. -/
structure Sound (S : KeyPool) : Prop where
  unlocked : S.locked = false
  recordedPool : ∀ i ∈ S.setKeyPool.keys, S.Recorded i
  recordedHeld : ∀ h i, S.reserved.find? h = some i → S.Recorded i
  heldApart : ∀ h i, S.reserved.find? h = some i → i ∉ S.setKeyPool.keys
  heldUnique : ∀ h h' i, S.reserved.find? h = some i → S.reserved.find? h' = some i → h = h'
  heldBelow : ∀ h i, S.reserved.find? h = some i → ∃ j ∈ S.setKeyPool.keys, i < j

variable {S : KeyPool}

theorem sound_of_empty (hl : S.locked = false) (hk : S.setKeyPool.keys = [])
    (hnone : ∀ h, S.reserved.find? h = none) : S.Sound :=
  have hno : ∀ h i, S.reserved.find? h = some i → False := fun h i hi => by rw [hnone h] at hi; cases hi
  ⟨hl, fun i hi => absurd (hk ▸ hi) (List.not_mem_nil i), fun h i hi => (hno h i hi).elim,
    fun h i hi => (hno h i hi).elim, fun h _ i hi => (hno h i hi).elim, fun h i hi => (hno h i hi).elim⟩

theorem Sound.free_of_mem (hS : S.Sound) {i : Nat} (hi : i ∈ S.setKeyPool.keys) (h : Nat) :
    S.reserved.find? h ≠ some i :=
  fun hh => hS.heldApart h i hh hi

theorem Sound.writeKey (hS : S.Sound) {j : Nat} (hfree : ∀ h, S.reserved.find? h ≠ some j) :
    (S.writeKey j).Sound where
  unlocked := hS.unlocked
  recordedPool x hx := by
    rcases mem_writeKey.mp hx with rfl | hx
    · exact recorded_writeKey S x
    · exact (hS.recordedPool x hx).writeKey j
  recordedHeld h i hi := (hS.recordedHeld h i hi).writeKey j
  heldApart h i hi hmem := by
    rcases mem_writeKey.mp hmem with rfl | hmem
    · exact hfree h hi
    · exact hS.heldApart h i hi hmem
  heldUnique := hS.heldUnique
  heldBelow h i hi := by
    obtain ⟨x, hx, hlt⟩ := hS.heldBelow h i hi
    exact ⟨x, mem_writeKey.mpr (Or.inr hx), hlt⟩

theorem lt_nEnd {x : Nat} (hx : x ∈ S.setKeyPool.keys) : x < S.nEnd := by
  unfold nEnd
  cases hm : S.setKeyPool.keys.getLast? with
  | none => rw [List.getLast?_eq_none_iff.mp hm] at hx; cases hx
  | some m => exact Nat.lt_succ_of_le (StdSet.le_of_getLast? S.setKeyPool.sorted hm hx)

theorem Sound.nEnd_free (hS : S.Sound) (h : Nat) : S.reserved.find? h ≠ some S.nEnd := fun hh =>
  let ⟨_, hj, hlt⟩ := hS.heldBelow h _ hh
  absurd (lt_trans hlt (lt_nEnd hj)) (lt_irrefl _)

theorem length_writeKey_nEnd (S : KeyPool) :
    (S.writeKey S.nEnd).setKeyPool.keys.length = S.setKeyPool.keys.length + 1 := by
  show (StdSet.insertList S.nEnd S.setKeyPool.keys).length = _
  rw [StdSet.insertList_of_lt (fun x hx => lt_nEnd hx), List.length_append, List.length_singleton]

theorem length_topUpLoop (nBound : Nat) : ∀ (fuel : Nat) (S : KeyPool),
    min nBound (S.setKeyPool.keys.length + fuel) ≤ (topUpLoop nBound fuel S).setKeyPool.keys.length
  | 0, _ => Nat.min_le_right _ _
  | n + 1, S => by
    simp only [KeyPool.topUpLoop]
    split_ifs with hlt
    · have h := length_topUpLoop nBound n (S.writeKey S.nEnd)
      rw [length_writeKey_nEnd] at h
      omega
    · omega

theorem topUpLoop_fuel (nBound : Nat) : ∀ (fuel fuel' : Nat) (S : KeyPool),
    nBound ≤ S.setKeyPool.keys.length + fuel → fuel ≤ fuel' →
      topUpLoop nBound fuel' S = topUpLoop nBound fuel S
  | 0, fuel', S, h, _ => by
    have hfull : ¬ S.setKeyPool.keys.length < nBound := by omega
    cases fuel' <;> simp [KeyPool.topUpLoop, hfull]
  | _ + 1, 0, _, _, h' => absurd h' (Nat.not_succ_le_zero _)
  | n + 1, m + 1, S, h, h' => by
    simp only [KeyPool.topUpLoop]
    split_ifs
    · exact topUpLoop_fuel nBound n m _ (by rw [length_writeKey_nEnd]; omega) (by omega)
    · rfl

theorem Sound.topUpLoop (nBound fuel : Nat) (hS : S.Sound) :
    (topUpLoop nBound fuel S).Sound ∧ (topUpLoop nBound fuel S).reserved = S.reserved := by
  induction fuel generalizing S with
  | zero => exact ⟨hS, rfl⟩
  | succ n ih =>
    simp only [KeyPool.topUpLoop]
    split_ifs
    · exact ih (hS.writeKey hS.nEnd_free)
    · exact ⟨hS, rfl⟩

theorem Sound.eraseMin (hS : S.Sound) {i j : Nat} {rest : List Nat} (hkeys : S.setKeyPool.keys = i :: j :: rest) :
    ({ S with setKeyPool := S.setKeyPool.eraseMin } : KeyPool).Sound := by
  have htail : S.setKeyPool.eraseMin.keys = j :: rest := by simp [StdSet.eraseMin, hkeys]
  have hij : i < j := List.rel_of_pairwise_cons (hkeys ▸ S.setKeyPool.sorted) (List.mem_cons_self j rest)
  have hsub : ∀ x ∈ j :: rest, x ∈ S.setKeyPool.keys := fun x hx => hkeys ▸ List.mem_cons_of_mem i hx
  refine ⟨hS.unlocked, fun x hx => hS.recordedPool x (hsub x (htail ▸ hx)), hS.recordedHeld,
    fun h x hx hmem => hS.heldApart h x hx (hsub x (htail ▸ hmem)), hS.heldUnique, fun h x hx => ?_⟩
  obtain ⟨y, hy, hlt⟩ := hS.heldBelow h x hx
  rw [hkeys] at hy
  rw [htail]
  rcases List.mem_cons.mp hy with rfl | hy
  · exact ⟨j, List.mem_cons_self j rest, lt_trans hlt hij⟩
  · exact ⟨y, hy, hlt⟩

theorem Sound.reserve {nKeypool : Nat} (hS : S.Sound) (hk : 1 ≤ nKeypool) (hk' : nKeypool < 4294967295) :
    ∃ S₂ i k, S.reserveKeyFromKeyPool nKeypool = (S₂, some (i, .ok k)) ∧ S₂.Sound ∧
      S₂.reserved = S.reserved ∧ i ∉ S₂.setKeyPool.keys ∧ S₂.Recorded i ∧
      (∀ h, S₂.reserved.find? h ≠ some i) ∧ ∃ j ∈ S₂.setKeyPool.keys, i < j := by
  -- below UINT_MAX neither unsigned int conversion wraps: the bound is -keypool + 1
  have hbound : (nKeypool % UInt32.size + 1) % UInt32.size = nKeypool + 1 := by
    unfold UInt32.size; omega
  have h0 : ¬((0 : UInt32) > 0) := by decide
  obtain ⟨hT, hres⟩ := hS.topUpLoop (nKeypool + 1) (nKeypool + 1)
  have hlen := length_topUpLoop (nKeypool + 1) (nKeypool + 1) S
  generalize hTdef : KeyPool.topUpLoop (nKeypool + 1) (nKeypool + 1) S = T at hT hlen hres
  have hlen2 : 2 ≤ T.setKeyPool.keys.length := by omega
  match hkeys : T.setKeyPool.keys, hlen2 with
  | i :: j :: rest, _ =>
    obtain ⟨k, hrec, hlt⟩ := hT.recordedPool i (hkeys ▸ List.mem_cons_self i _)
    have hsorted := hkeys ▸ T.setKeyPool.sorted
    have htail : T.setKeyPool.eraseMin.keys = j :: rest := by simp [StdSet.eraseMin, hkeys]
    have hreserve : KeyPool.reserveKeyFromKeyPool nKeypool S =
        ({ T with setKeyPool := T.setKeyPool.eraseMin }, some (i, .ok k)) := by
      simp only [KeyPool.reserveKeyFromKeyPool, KeyPool.topUpKeyPool, hS.unlocked, Bool.not_false,
        Bool.false_eq_true, if_false, if_true, h0, hbound, hTdef, hkeys, hrec, hlt]
    refine ⟨_, i, k, hreserve, hT.eraseMin hkeys,
      hres, ?_, ⟨k, hrec, hlt⟩, fun h => hT.free_of_mem (hkeys ▸ List.mem_cons_self i _) h,
      j, htail ▸ List.mem_cons_self j rest, List.rel_of_pairwise_cons hsorted (List.mem_cons_self j rest)⟩
    show i ∉ T.setKeyPool.eraseMin.keys
    rw [htail]
    exact fun hmem => lt_irrefl i (List.rel_of_pairwise_cons hsorted hmem)

theorem Sound.hold (hS : S.Sound) {i : Nat} (hi : i ∉ S.setKeyPool.keys) (hr : S.Recorded i)
    (hfree : ∀ h, S.reserved.find? h ≠ some i) (hbelow : ∃ j ∈ S.setKeyPool.keys, i < j) (holder : Nat) :
    ({ S with reserved := S.reserved.set holder i } : KeyPool).Sound where
  unlocked := hS.unlocked
  recordedPool := hS.recordedPool
  recordedHeld h x hx := (StdMap.find?_set_eq_some hx).elim (fun ⟨_, he⟩ => he ▸ hr) (hS.recordedHeld h x)
  heldApart h x hx := (StdMap.find?_set_eq_some hx).elim (fun ⟨_, he⟩ => he ▸ hi) (hS.heldApart h x)
  heldUnique h h' x hx hx' := by
    rcases StdMap.find?_set_eq_some hx with ⟨rfl, rfl⟩ | hold <;>
      rcases StdMap.find?_set_eq_some hx' with ⟨rfl, he⟩ | hold'
    · rfl
    · exact absurd hold' (hfree h')
    · exact absurd (he ▸ hold) (hfree h)
    · exact hS.heldUnique h h' x hold hold'
  heldBelow h x hx := (StdMap.find?_set_eq_some hx).elim (fun ⟨_, he⟩ => he ▸ hbelow) (hS.heldBelow h x)

theorem Sound.keepKey (hS : S.Sound) {i : Nat} (hi : i ∉ S.setKeyPool.keys)
    (hfree : ∀ h, S.reserved.find? h ≠ some i) : (keepKey i S).Sound := by
  unfold KeyPool.keepKey
  split_ifs
  · have hrec : ∀ x, x ≠ i → S.Recorded x → ({ S with pool := S.pool.erase i } : KeyPool).Recorded x :=
      fun x hx ⟨k, hk, hlt⟩ => ⟨k, by simp [hx, hk], hlt⟩
    exact ⟨hS.unlocked, fun x hx => hrec x (fun h => hi (h ▸ hx)) (hS.recordedPool x hx),
      fun h x hx => hrec x (fun he => hfree h (he ▸ hx)) (hS.recordedHeld h x hx),
      hS.heldApart, hS.heldUnique, hS.heldBelow⟩
  · exact hS

theorem Sound.returnKey (hS : S.Sound) {i : Nat} (hr : S.Recorded i) (hfree : ∀ h, S.reserved.find? h ≠ some i) :
    (returnKey i S).Sound where
  unlocked := hS.unlocked
  recordedPool x hx := by
    rcases StdSet.mem_insert.mp hx with rfl | hx
    · exact hr
    · exact hS.recordedPool x hx
  recordedHeld := hS.recordedHeld
  heldApart h x hx hmem := by
    rcases StdSet.mem_insert.mp hmem with rfl | hmem
    · exact hfree h hx
    · exact hS.heldApart h x hx hmem
  heldUnique := hS.heldUnique
  heldBelow h x hx := by
    obtain ⟨y, hy, hlt⟩ := hS.heldBelow h x hx
    exact ⟨y, StdSet.mem_insert.mpr (Or.inr hy), hlt⟩

theorem Sound.release (hS : S.Sound) {holder i : Nat} (hh : S.reserved.find? holder = some i) :
    ({ S with reserved := S.reserved.erase holder } : KeyPool).Sound ∧ i ∉ S.setKeyPool.keys ∧ S.Recorded i ∧
      ∀ h, (S.reserved.erase holder).find? h ≠ some i := by
  have hfree : ∀ h, (S.reserved.erase holder).find? h ≠ some i := fun h hx =>
    let ⟨he, hx⟩ := StdMap.find?_erase_eq_some hx
    he (hS.heldUnique h holder i hx hh)
  have hsub : ∀ h x, (S.reserved.erase holder).find? h = some x → S.reserved.find? h = some x :=
    fun _ _ hx => (StdMap.find?_erase_eq_some hx).2
  refine ⟨⟨hS.unlocked, hS.recordedPool, fun h x hx => hS.recordedHeld h x (hsub h x hx),
    fun h x hx => hS.heldApart h x (hsub h x hx), fun h h' x hx hx' => hS.heldUnique h h' x (hsub h x hx) (hsub h' x hx'),
    fun h x hx => hS.heldBelow h x (hsub h x hx)⟩, hS.heldApart holder i hh, hS.recordedHeld holder i hh, hfree⟩

theorem Sound.foldl_writeKey (l : List Nat) (hS : S.Sound) (hnone : ∀ h, S.reserved.find? h = none) :
    (l.foldl (fun S i => S.writeKey (i + 1)) S).Sound := by
  induction l generalizing S with
  | nil => exact hS
  | cons i l ih => exact ih (hS.writeKey fun h hh => by rw [hnone h] at hh; cases hh) hnone

end KeyPool

namespace KeyPoolCall

/-- The calls the key pool stays sound under: the wallet is not locked, and NewKeyPool is made only
with no reservation outstanding. -/
def Allowed (S : KeyPool) : KeyPoolCall → Prop
  | newKeyPool => S.reserved.entries = []
  | setLocked fLocked => fLocked = false
  | _ => True

instance (S : KeyPool) (c : KeyPoolCall) : Decidable (c.Allowed S) :=
  match c with
  | newKeyPool => inferInstanceAs (Decidable (S.reserved.entries = []))
  | setLocked fLocked => inferInstanceAs (Decidable (fLocked = false))
  | topUpKeyPool _ | getKeyFromPool _ | getReservedKey _ | keepKey _ | returnKey _ => isTrue trivial

/-- Every call of the sequence is allowed in the state it is made in. -/
def AllAllowed (nKeypool : Nat) (hasDefaultKey : Bool) : KeyPool → List KeyPoolCall → Prop
  | _, [] => True
  | S, c :: cs => c.Allowed S ∧ AllAllowed nKeypool hasDefaultKey (c.run nKeypool hasDefaultKey S).1 cs

instance (nKeypool : Nat) (hasDefaultKey : Bool) : ∀ S calls, Decidable (AllAllowed nKeypool hasDefaultKey S calls)
  | _, [] => isTrue trivial
  | S, c :: cs =>
    have := instDecidableAllowed S c
    have := instDecidableAllAllowed nKeypool hasDefaultKey (c.run nKeypool hasDefaultKey S).1 cs
    inferInstanceAs (Decidable (_ ∧ _))

theorem run_sound {nKeypool : Nat} (hk : 1 ≤ nKeypool) (hk' : nKeypool < 4294967295) (hasDefaultKey : Bool)
    {S : KeyPool} (hS : S.Sound)
    (c : KeyPoolCall) (hc : c.Allowed S) :
    (c.run nKeypool hasDefaultKey S).1.Sound ∧ ∃ b, (c.run nKeypool hasDefaultKey S).2 = .ok b := by
  cases c with
  | topUpKeyPool nSize =>
    simp only [run, KeyPool.topUpKeyPool, hS.unlocked, Bool.false_eq_true, if_false]
    exact ⟨(hS.topUpLoop _ _).1, _, rfl⟩
  | newKeyPool =>
    have hempty : S.reserved.entries = [] := hc
    have hnone : ∀ h, S.reserved.find? h = none := fun h => by
      simp [StdMap.find?, hempty, StdMap.findList]
    simp only [run, KeyPool.newKeyPool, hS.unlocked, Bool.false_eq_true, if_false]
    exact ⟨KeyPool.Sound.foldl_writeKey _ (KeyPool.sound_of_empty rfl rfl hnone) hnone, _, rfl⟩
  | getKeyFromPool fAllowReuse =>
    obtain ⟨S₂, i, k, hres, hS₂, -, hi, -, hfree, -⟩ := hS.reserve hk hk'
    simp only [run, KeyPool.getKeyFromPool, hres]
    exact ⟨hS₂.keepKey hi hfree, _, rfl⟩
  | getReservedKey holder =>
    simp only [run, KeyPool.getReservedKey]
    split
    · exact ⟨hS, _, rfl⟩
    · obtain ⟨S₂, i, k, hres, hS₂, -, hi, hr, hfree, hbelow⟩ := hS.reserve hk hk'
      simp only [hres]
      exact ⟨hS₂.hold hi hr hfree hbelow holder, _, rfl⟩
  | keepKey holder =>
    simp only [run, KeyPool.reserveKeepKey]
    split
    · exact ⟨hS, _, rfl⟩
    · next i hh =>
      obtain ⟨hS', hi, -, hfree⟩ := hS.release hh
      have heq : ({ KeyPool.keepKey i S with reserved := S.reserved.erase holder } : KeyPool) =
          KeyPool.keepKey i { S with reserved := S.reserved.erase holder } := by
        unfold KeyPool.keepKey; split_ifs <;> rfl
      exact ⟨heq ▸ hS'.keepKey hi hfree, _, rfl⟩
  | returnKey holder =>
    simp only [run, KeyPool.reserveReturnKey]
    split
    · exact ⟨hS, _, rfl⟩
    · next i hh =>
      obtain ⟨hS', -, hr, hfree⟩ := hS.release hh
      exact ⟨hS'.returnKey hr hfree, _, rfl⟩
  | setLocked fLocked =>
    cases hc
    exact ⟨⟨rfl, hS.recordedPool, hS.recordedHeld, hS.heldApart, hS.heldUnique, hS.heldBelow⟩, _, rfl⟩

end KeyPoolCall

theorem runKeyPool_sound_of {nKeypool : Nat} (hk : 1 ≤ nKeypool) (hk' : nKeypool < 4294967295) (hasDefaultKey : Bool) :
    ∀ (calls : List KeyPoolCall) {S : KeyPool}, S.Sound → KeyPoolCall.AllAllowed nKeypool hasDefaultKey S calls →
      (runKeyPool nKeypool hasDefaultKey calls S).Sound
  | [], _, hS, _ => hS
  | c :: cs, _, hS, ⟨hc, hcs⟩ =>
    runKeyPool_sound_of hk hk' hasDefaultKey cs (KeyPoolCall.run_sound hk hk' hasDefaultKey hS c hc).1 hcs

/-- On an unlocked wallet the pool's indices stay distinct with records, and no allowed call throws.
 -/
theorem runKeyPool_sound (nKeypool : Nat) (hk : 1 ≤ nKeypool) (hk' : nKeypool < 4294967295) (hasDefaultKey : Bool)
    (calls : List KeyPoolCall) (hadm : KeyPoolCall.AllAllowed nKeypool hasDefaultKey KeyPool.init calls) :
    let S := runKeyPool nKeypool hasDefaultKey calls KeyPool.init
    S.Sound ∧ ∀ c : KeyPoolCall, c.Allowed S → ∃ b, (c.run nKeypool hasDefaultKey S).2 = .ok b := by
  intro S
  have hS : S.Sound := runKeyPool_sound_of hk hk' hasDefaultKey calls
    (KeyPool.sound_of_empty rfl rfl fun _ => rfl) hadm
  exact ⟨hS, fun c hc => (KeyPoolCall.run_sound hk hk' hasDefaultKey hS c hc).2⟩

def keyPoolCalls : List KeyPoolCall :=
  [.getReservedKey 0, .getKeyFromPool false, .getReservedKey 1, .keepKey 0, .topUpKeyPool 3, .returnKey 1,
    .newKeyPool, .getReservedKey 2]

theorem runKeyPool_sound_keyPoolCalls :
    1 ≤ 1 ∧ 1 < 4294967295 ∧ KeyPoolCall.AllAllowed 1 false KeyPool.init keyPoolCalls ∧
      (runKeyPool 1 false keyPoolCalls KeyPool.init).Sound :=
  have hadm : KeyPoolCall.AllAllowed 1 false KeyPool.init keyPoolCalls := by decide
  ⟨le_refl 1, by decide, hadm, (runKeyPool_sound 1 (le_refl 1) (by decide) false keyPoolCalls hadm).1⟩

def lockedDrainCalls : List KeyPoolCall :=
  [.newKeyPool, .setLocked true, .getReservedKey 0, .setLocked false, .getReservedKey 1]

/-- Once setKeyPool is empty TopUpKeyPool restarts at index 1 and hands out an index a holder still
holds. -/
theorem keyPool_reissues_reserved_index :
    (runKeyPool 1 false lockedDrainCalls KeyPool.init).reserved.find? 0 = some 1 ∧
      (runKeyPool 1 false lockedDrainCalls KeyPool.init).reserved.find? 1 = some 1 ∧
      ((KeyPoolCall.getReservedKey 2).run 1 false
        (runKeyPool 1 false (lockedDrainCalls ++ [.keepKey 0, .returnKey 1]) KeyPool.init)).2 =
        .error "ReserveKeyFromKeyPool() : read failed" :=
  ⟨rfl, rfl, rfl⟩

end GridcoinWallet
