import GridcoinWallet.Ledger.Wallet

namespace GridcoinWallet

/-- Modelled from the spec: what GetKeyBirthTimes reads from a CBlockIndex (not under src/): its
height and its block time. -/
structure BlockRef where
  nHeight : Int
  nTime : Int
  deriving DecidableEq, Repr

/-- What GetKeyBirthTimes reads besides mapWallet. -/
structure KeyBirthEnv where
  mapKeyMetadata : StdMap Nat Int
  setKeys : StdSet Nat
  pindexMax : BlockRef
  mainChainBlock : Nat → Option BlockRef
  extractAffectedKeys : List UInt8 → List Nat

/-- One affected key of the scan: a block lower than the key's first block so far replaces it; a key
the scan does not track is left alone. -/
def lowerFirstBlock (blk : BlockRef) (mapKeyFirstBlock : StdMap Nat BlockRef) (keyid : Nat) :
    StdMap Nat BlockRef :=
  match mapKeyFirstBlock.find? keyid with
  | some b => if blk.nHeight < b.nHeight then mapKeyFirstBlock.set keyid blk else mapKeyFirstBlock
  | none => mapKeyFirstBlock

namespace KeyBirthEnv

variable (E : KeyBirthEnv)

/-- The first loop of GetKeyBirthTimes: the keys whose metadata has a creation time. -/
def metadataBirths : StdMap Nat Int :=
  E.mapKeyMetadata.entries.foldl (fun m e => if e.2 ≠ 0 then m.set e.1 e.2 else m) StdMap.empty

/-- mapKeyFirstBlock before the scan: every key without a birth time, at the block at nBestHeight. -/
def firstBlocks (births : StdMap Nat Int) : StdMap Nat BlockRef :=
  E.setKeys.keys.foldl (fun m keyid => if (births.find? keyid).isNone then m.set keyid E.pindexMax else m)
    StdMap.empty

/-- One wallet transaction of the scan: when it is in a block of the main chain, every key each of
its outputs affects meets that block. -/
def scanRecord (mapKeyFirstBlock : StdMap Nat BlockRef) (wtx : WalletTx) : StdMap Nat BlockRef :=
  match wtx.hashBlock.bind E.mainChainBlock with
  | some blk =>
    wtx.vout.foldl (fun m txout => (E.extractAffectedKeys txout.scriptPubKey).foldl (lowerFirstBlock blk) m)
      mapKeyFirstBlock
  | none => mapKeyFirstBlock

end KeyBirthEnv

/-- CWallet::GetKeyBirthTimes: a key's creation time when its metadata has one; otherwise, for a key
of the keystore, the time of its first block, two hours early. -/
def Ledger.getKeyBirthTimes (L : Ledger) (E : KeyBirthEnv) : StdMap Nat Int :=
  let births := E.metadataBirths
  let mapKeyFirstBlock := E.firstBlocks births
  if mapKeyFirstBlock.entries.isEmpty then births
  else
    let scanned := L.mapWallet.entries.foldl (fun m e => E.scanRecord m e.2) mapKeyFirstBlock
    scanned.entries.foldl (fun m e => m.set e.1 (e.2.nTime - 7200)) births

def lowestBlock (b : BlockRef) (bs : List BlockRef) : BlockRef :=
  bs.foldl (fun b blk => if blk.nHeight < b.nHeight then blk else b) b

theorem lowestBlock_mem : ∀ (b : BlockRef) (bs : List BlockRef), lowestBlock b bs = b ∨ lowestBlock b bs ∈ bs
  | _, [] => Or.inl rfl
  | b, blk :: bs => by
    rcases lowestBlock_mem (if blk.nHeight < b.nHeight then blk else b) bs with h | h
    · rw [lowestBlock, List.foldl_cons, ← lowestBlock, h]
      split_ifs
      · exact Or.inr (List.mem_cons_self _ _)
      · exact Or.inl rfl
    · exact Or.inr (List.mem_cons_of_mem _ h)

theorem lowestBlock_le : ∀ (b : BlockRef) (bs : List BlockRef), ∀ x ∈ b :: bs, (lowestBlock b bs).nHeight ≤ x.nHeight
  | _, [], x, hx => by rw [List.mem_singleton.mp hx]; exact le_refl _
  | b, blk :: bs, x, hx => by
    have ih := lowestBlock_le (if blk.nHeight < b.nHeight then blk else b) bs
    have hhead : (if blk.nHeight < b.nHeight then blk else b).nHeight ≤ min b.nHeight blk.nHeight := by
      split_ifs with h <;> simp only [le_min_iff] <;> omega
    rw [lowestBlock, List.foldl_cons, ← lowestBlock]
    rcases List.mem_cons.mp hx with rfl | hx
    · exact (ih _ (List.mem_cons_self _ _)).trans (hhead.trans (min_le_left _ _))
    rcases List.mem_cons.mp hx with rfl | hx
    · exact (ih _ (List.mem_cons_self _ _)).trans (hhead.trans (min_le_right _ _))
    · exact ih x (List.mem_cons_of_mem _ hx)

section Loops

variable {V W : Type}

theorem find?_foldl_setIf (p : V → Prop) [DecidablePred p] (f : V → W) :
    ∀ {es : List (Nat × V)}, es.Pairwise (fun a b => a.1 < b.1) → ∀ (m : StdMap Nat W) (k : Nat),
      (es.foldl (fun m e => if p e.2 then m.set e.1 (f e.2) else m) m).find? k =
        match StdMap.findList k es with
        | some v => if p v then some (f v) else m.find? k
        | none => m.find? k
  | [], _, _, _ => rfl
  | e :: es, hs, m, k => by
    obtain ⟨hhead, htail⟩ := List.pairwise_cons.mp hs
    rw [List.foldl_cons, find?_foldl_setIf p f htail, StdMap.findList]
    by_cases hk : e.1 = k
    · have hnone : StdMap.findList k es = none := by
        cases hf : StdMap.findList k es with
        | none => rfl
        | some v => exact absurd (hk ▸ hhead _ (StdMap.mem_of_findList hf)) (lt_irrefl _)
      rw [if_pos hk, hnone]
      by_cases hp : p e.2 <;> simp [hk, hp]
    · rw [if_neg hk]
      cases StdMap.findList k es <;> split_ifs <;> simp [Ne.symm hk]

theorem find?_foldl_set_entries (f : V → W) (src : StdMap Nat V) (m : StdMap Nat W) (k : Nat) :
    (src.entries.foldl (fun m e => m.set e.1 (f e.2)) m).find? k =
      match src.find? k with
      | some v => some (f v)
      | none => m.find? k := by
  simpa only [if_true] using find?_foldl_setIf (fun _ : V => True) f src.sorted m k

theorem find?_foldl_setConst (q : Nat → Prop) [DecidablePred q] (v : W) :
    ∀ (keys : List Nat) (m : StdMap Nat W) (k : Nat),
      (keys.foldl (fun m keyid => if q keyid then m.set keyid v else m) m).find? k =
        if k ∈ keys ∧ q k then some v else m.find? k
  | [], _, _ => by simp
  | keyid :: keys, m, k => by
    rw [List.foldl_cons, find?_foldl_setConst q v keys]
    by_cases hk : k = keyid
    · subst hk; split_ifs <;> simp_all
    · split_ifs <;> simp_all

end Loops

theorem find?_lowerFirstBlock (blk : BlockRef) (m : StdMap Nat BlockRef) (keyid k : Nat) :
    (lowerFirstBlock blk m keyid).find? k =
      if k = keyid then (m.find? k).map (fun b => if blk.nHeight < b.nHeight then blk else b) else m.find? k := by
  unfold lowerFirstBlock
  by_cases hk : k = keyid
  · subst hk
    cases hm : m.find? k with
    | none => simp [hm]
    | some b => by_cases hlt : blk.nHeight < b.nHeight <;> simp [hm, hlt]
  · cases m.find? keyid with
    | none => simp [hk]
    | some b => by_cases hlt : blk.nHeight < b.nHeight <;> simp [hk, hlt]

theorem find?_foldl_lowerFirstBlock :
    ∀ (ps : List (BlockRef × Nat)) (m : StdMap Nat BlockRef) (k : Nat),
      (ps.foldl (fun m p => lowerFirstBlock p.1 m p.2) m).find? k =
        (m.find? k).map fun b => lowestBlock b ((ps.filter fun p => p.2 == k).map Prod.fst)
  | [], m, k => by simp [lowestBlock]
  | p :: ps, m, k => by
    rw [List.foldl_cons, find?_foldl_lowerFirstBlock ps, find?_lowerFirstBlock]
    by_cases hk : k = p.2
    · subst hk
      rw [if_pos rfl, Option.map_map, List.filter_cons, if_pos (beq_self_eq_true _), List.map_cons]
      rfl
    · rw [if_neg hk, List.filter_cons, if_neg fun h => hk (beq_iff_eq.mp h).symm]

namespace KeyBirthEnv

variable (E : KeyBirthEnv)

def scanPairs (wtx : WalletTx) : List (BlockRef × Nat) :=
  match wtx.hashBlock.bind E.mainChainBlock with
  | some blk => wtx.vout.flatMap fun txout => (E.extractAffectedKeys txout.scriptPubKey).map fun keyid => (blk, keyid)
  | none => []

def affectingBlocks (L : Ledger) (k : Nat) : List BlockRef :=
  ((L.mapWallet.entries.flatMap fun e => E.scanPairs e.2).filter fun p => p.2 == k).map Prod.fst

theorem scanRecord_eq (m : StdMap Nat BlockRef) (wtx : WalletTx) :
    E.scanRecord m wtx = (E.scanPairs wtx).foldl (fun m p => lowerFirstBlock p.1 m p.2) m := by
  unfold scanRecord scanPairs
  cases wtx.hashBlock.bind E.mainChainBlock with
  | none => rfl
  | some blk =>
    dsimp only
    induction wtx.vout generalizing m with
    | nil => rfl
    | cons txout vout ih => rw [List.foldl_cons, ih, List.flatMap_cons, List.foldl_append, List.foldl_map]

theorem foldl_scanRecord (m : StdMap Nat BlockRef) :
    ∀ es : List (Nat × WalletTx), es.foldl (fun m e => E.scanRecord m e.2) m =
      (es.flatMap fun e => E.scanPairs e.2).foldl (fun m p => lowerFirstBlock p.1 m p.2) m
  | [] => rfl
  | e :: es => by
    rw [List.foldl_cons, foldl_scanRecord _ es, scanRecord_eq, List.flatMap_cons, List.foldl_append]

theorem find?_metadataBirths (k : Nat) :
    E.metadataBirths.find? k = (E.mapKeyMetadata.find? k).filter (· ≠ 0) := by
  have h := find?_foldl_setIf (fun t : Int => t ≠ 0) (fun t => t) E.mapKeyMetadata.sorted StdMap.empty k
  beta_reduce at h
  rw [metadataBirths, h]
  show _ = (StdMap.findList k E.mapKeyMetadata.entries).filter _
  cases StdMap.findList k E.mapKeyMetadata.entries with
  | none => rfl
  | some t => by_cases ht : t = 0 <;> simp [ht, Option.filter, StdMap.find?_empty]

theorem find?_firstBlocks (births : StdMap Nat Int) (k : Nat) :
    (E.firstBlocks births).find? k = if k ∈ E.setKeys.keys ∧ births.find? k = none then some E.pindexMax else none := by
  rw [firstBlocks, find?_foldl_setConst (fun keyid => (births.find? keyid).isNone = true) E.pindexMax]
  simp [StdMap.find?_empty]

end KeyBirthEnv

theorem find?_getKeyBirthTimes (L : Ledger) (E : KeyBirthEnv) (k : Nat) :
    (L.getKeyBirthTimes E).find? k =
      match E.metadataBirths.find? k with
      | some t => some t
      | none => if k ∈ E.setKeys.keys then some ((lowestBlock E.pindexMax (E.affectingBlocks L k)).nTime - 7200)
        else none := by
  have hfirst := E.find?_firstBlocks E.metadataBirths k
  unfold Ledger.getKeyBirthTimes
  dsimp only
  by_cases hempty : (E.firstBlocks E.metadataBirths).entries.isEmpty = true
  · rw [if_pos hempty]
    have hnone : (E.firstBlocks E.metadataBirths).find? k = none := by
      unfold StdMap.find?
      rw [List.isEmpty_iff.mp hempty]
      rfl
    cases hb : E.metadataBirths.find? k with
    | some t => rfl
    | none =>
      have hnot : k ∉ E.setKeys.keys := fun hk => by
        rw [if_pos ⟨hk, hb⟩, hnone] at hfirst
        cases hfirst
      simp [hnot]
  · rw [if_neg hempty]
    have h := find?_foldl_set_entries (fun b : BlockRef => b.nTime - 7200)
      (L.mapWallet.entries.foldl (fun m e => E.scanRecord m e.2) (E.firstBlocks E.metadataBirths)) E.metadataBirths k
    beta_reduce at h
    rw [h, E.foldl_scanRecord, find?_foldl_lowerFirstBlock, hfirst]
    cases hb : E.metadataBirths.find? k with
    | some t => simp [hb]
    | none => by_cases hk : k ∈ E.setKeys.keys <;> simp [hk, hb, KeyBirthEnv.affectingBlocks]

/-- GetKeyBirthTimes gives a key its creation time, or two hours before the lowest block affecting
it. -/
theorem getKeyBirthTimes_lowest (L : Ledger) (E : KeyBirthEnv) (k : Nat) :
    (∀ t, E.mapKeyMetadata.find? k = some t → t ≠ 0 → (L.getKeyBirthTimes E).find? k = some t) ∧
      ((∀ t, E.mapKeyMetadata.find? k = some t → t = 0) → k ∈ E.setKeys.keys →
        ∃ b, (L.getKeyBirthTimes E).find? k = some (b.nTime - 7200) ∧
          (b = E.pindexMax ∨ b ∈ E.affectingBlocks L k) ∧
          ∀ b' ∈ E.pindexMax :: E.affectingBlocks L k, b.nHeight ≤ b'.nHeight) ∧
      ((∀ t, E.mapKeyMetadata.find? k = some t → t = 0) → k ∉ E.setKeys.keys →
        (L.getKeyBirthTimes E).find? k = none) := by
  rw [find?_getKeyBirthTimes, E.find?_metadataBirths]
  have hnone : (∀ t, E.mapKeyMetadata.find? k = some t → t = 0) →
      (E.mapKeyMetadata.find? k).filter (· ≠ 0) = none := fun hz => by
    cases h : E.mapKeyMetadata.find? k with
    | none => rfl
    | some t => simp [Option.filter, hz t h]
  refine ⟨fun t ht h0 => by simp [ht, Option.filter, h0], fun hz hk => ?_, fun hz hk => ?_⟩
  · rw [hnone hz, if_pos hk]
    exact ⟨_, rfl, lowestBlock_mem _ _, lowestBlock_le _ _⟩
  · rw [hnone hz, if_neg hk]

end GridcoinWallet
