import GridcoinWallet.Ledger.SpentFlags

namespace GridcoinWallet

/-- The depth from which AddSupportingTransactions stops copying a transaction's inputs. -/
def COPY_DEPTH : Int := 3

/-- What AddSupportingTransactions reads besides mapWallet. -/
structure SupportEnv where
  vtxPrevOf : Nat → List Tx
  txdb : List Tx
  depth : Nat → Int

namespace SupportEnv

variable (N : Node) (E : SupportEnv)

/-- `txdb.ReadDiskTx(hash, tx)`: the transaction the database holds under `hash`. -/
def readDiskTx (hash : Nat) : Option Tx := E.txdb.find? fun t => N.getHash t = hash

/-- The depth `tx.SetMerkleBranch()` returns. -/
def setMerkleBranch (tx : Tx) : Int := E.depth (N.getHash tx)

theorem readDiskTx_eq_some {hash : Nat} {t : Tx} (h : E.readDiskTx N hash = some t) :
    t ∈ E.txdb ∧ N.getHash t = hash := by
  unfold readDiskTx at h
  exact ⟨List.mem_of_find?_eq_some h, by simpa using List.find?_some h⟩

end SupportEnv

def spentHashes (ts : List Tx) : List Nat := ts.flatMap fun t => t.vin.map OutPoint.hash

@[simp] theorem spentHashes_append (ts us : List Tx) :
    spentHashes (ts ++ us) = spentHashes ts ++ spentHashes us := List.flatMap_append _ _ _

theorem vin_length_le_spentHashes {t : Tx} : ∀ {ts : List Tx}, t ∈ ts → t.vin.length ≤ (spentHashes ts).length
  | t' :: ts, h => by
    simp only [spentHashes, List.flatMap_cons, List.length_append, List.length_map] at *
    rcases List.mem_cons.mp h with rfl | h
    · omega
    · have := vin_length_le_spentHashes h
      simp only [spentHashes] at this
      omega

/-- The loop of AddSupportingTransactions. -/
structure SupportState where
  vWorkQueue : List Nat
  mapWalletPrev : StdMap Nat Tx
  setAlreadyDone : StdSet Nat
  vtxPrev : List Tx

section Loop

variable (N : Node) (L : Ledger) (E : SupportEnv)

/-- `mapWalletPrev[txWalletPrev.GetHash()] = &txWalletPrev`. -/
def addWalletPrev (m : StdMap Nat Tx) (t : Tx) : StdMap Nat Tx := m.set (N.getHash t) t

/-- The lookup of one hash: the wallet's record, whose own vtxPrev then joins mapWalletPrev; else
mapWalletPrev; else the database. -/
def findSupport (mapWalletPrev : StdMap Nat Tx) (hash : Nat) : Option (Tx × StdMap Nat Tx) :=
  match L.mapWallet.find? hash with
  | some w => some (w.toTx, (E.vtxPrevOf hash).foldl (addWalletPrev N) mapWalletPrev)
  | none =>
    match mapWalletPrev.find? hash with
    | some t => some (t, mapWalletPrev)
    | none => (E.readDiskTx N hash).map fun t => (t, mapWalletPrev)

/-- The hashes the loop pushes for a transaction it has found. -/
def pushedInputs (tx : Tx) : List Nat :=
  if E.setMerkleBranch N tx < COPY_DEPTH then tx.vin.map OutPoint.hash else []

/-- One round of the loop on the entry `hash`, with `rest` the entries after it. -/
def supportStep (s : SupportState) (hash : Nat) (rest : List Nat) : SupportState :=
  if hash ∈ s.setAlreadyDone.keys then { s with vWorkQueue := rest }
  else
    match findSupport N L E s.mapWalletPrev hash with
    | none => { s with vWorkQueue := rest, setAlreadyDone := s.setAlreadyDone.insert hash }
    | some (tx, mapWalletPrev) =>
      ⟨rest ++ pushedInputs N E tx, mapWalletPrev, s.setAlreadyDone.insert hash, s.vtxPrev ++ [tx]⟩

/-- The loop `for (i = 0; i < vWorkQueue.size(); i++)`, on fuel. -/
def supportLoop : Nat → SupportState → Option SupportState
  | 0, _ => none
  | fuel + 1, s =>
    match s.vWorkQueue with
    | [] => some s
    | hash :: rest => supportLoop fuel (supportStep N L E s hash rest)

/-- The state before the loop: wtx's inputs queued, nothing found yet. -/
def SupportState.init (wtx : Tx) : SupportState :=
  ⟨wtx.vin.map OutPoint.hash, StdMap.empty, StdSet.empty, []⟩

/-- CWalletTx::AddSupportingTransactions: the vtxPrev it leaves, on `fuel` rounds of the loop. -/
def addSupportingTransactions (wtx : Tx) (fuel : Nat) : Option (List Tx) :=
  if E.setMerkleBranch N wtx < COPY_DEPTH then
    (supportLoop N L E fuel (SupportState.init wtx)).map fun s => s.vtxPrev.reverse
  else some []

theorem find?_foldl_addWalletPrev_eq_some : ∀ {ts : List Tx} {m : StdMap Nat Tx} {k : Nat} {t : Tx},
    (ts.foldl (addWalletPrev N) m).find? k = some t → (t ∈ ts ∧ N.getHash t = k) ∨ m.find? k = some t
  | [], _, _, _, h => Or.inr h
  | t' :: ts, m, k, t, h => by
    rw [List.foldl_cons] at h
    rcases find?_foldl_addWalletPrev_eq_some h with ⟨ht, hk⟩ | h
    · exact Or.inl ⟨List.mem_cons_of_mem _ ht, hk⟩
    · rcases StdMap.find?_set_eq_some h with ⟨rfl, rfl⟩ | h
      · exact Or.inl ⟨List.mem_cons_self _ _, rfl⟩
      · exact Or.inr h

theorem find?_foldl_addWalletPrev_isSome : ∀ {ts : List Tx} {m : StdMap Nat Tx} {k : Nat},
    (m.find? k).isSome ∨ k ∈ ts.map N.getHash → ((ts.foldl (addWalletPrev N) m).find? k).isSome
  | [], _, _, h => by simpa using h
  | t :: ts, m, k, h => by
    rw [List.foldl_cons]
    refine find?_foldl_addWalletPrev_isSome ?_
    by_cases hk : k = N.getHash t
    · simp [addWalletPrev, hk]
    · simpa [addWalletPrev, hk] using h

theorem findSupport_eq_some {m m' : StdMap Nat Tx} {hash : Nat} {tx : Tx}
    (h : findSupport N L E m hash = some (tx, m')) :
    (∃ w, L.mapWallet.find? hash = some w ∧ tx = w.toTx ∧ m' = (E.vtxPrevOf hash).foldl (addWalletPrev N) m) ∨
      (L.mapWallet.find? hash = none ∧ m.find? hash = some tx ∧ m' = m) ∨
      (L.mapWallet.find? hash = none ∧ E.readDiskTx N hash = some tx ∧ m' = m) := by
  unfold findSupport at h
  split at h
  · cases h; exact Or.inl ⟨_, ‹_›, rfl, rfl⟩
  · split at h
    · cases h; exact Or.inr (Or.inl ⟨‹_›, ‹_›, rfl⟩)
    · obtain ⟨t, ht, he⟩ := Option.map_eq_some'.mp h
      cases he
      exact Or.inr (Or.inr ⟨‹_›, ht, rfl⟩)

theorem findSupport_eq_none {m : StdMap Nat Tx} {hash : Nat} (h : findSupport N L E m hash = none) :
    L.mapWallet.find? hash = none ∧ m.find? hash = none ∧ E.readDiskTx N hash = none := by
  unfold findSupport at h
  split at h
  · cases h
  · split at h
    · cases h
    · exact ⟨‹_›, ‹_›, Option.map_eq_none'.mp h⟩

theorem supportLoop_mono : ∀ {fuel fuel' : Nat} {s r : SupportState}, fuel ≤ fuel' →
    supportLoop N L E fuel s = some r → supportLoop N L E fuel' s = some r
  | 0, _, _, _, _, h => by cases h
  | fuel + 1, fuel' + 1, s, r, hle, h => by
    simp only [supportLoop] at h ⊢
    split at h
    · exact h
    · exact supportLoop_mono (by omega) h

end Loop

section Termination

variable (N : Node) (L : Ledger) (E : SupportEnv) (wtx : Tx)

def supportPool : List Tx :=
  L.mapWallet.entries.map (fun e => e.2.toTx) ++ L.mapWallet.entries.flatMap (fun e => E.vtxPrevOf e.1) ++
    E.txdb

def supportHashes : List Nat := wtx.vin.map OutPoint.hash ++ spentHashes (supportPool L E)

def supportMeasure (s : SupportState) : Nat :=
  s.vWorkQueue.length +
    ((spentHashes (supportPool L E)).length + 1) *
      ((supportHashes L E wtx).filter fun h => h ∉ s.setAlreadyDone.keys).length

def supportFuel : Nat := supportMeasure L E wtx (SupportState.init wtx) + 1

/-- The queue stays inside the queueable hashes, and mapWalletPrev inside the pool. -/
structure SupportBounded (s : SupportState) : Prop where
  queue : ∀ h ∈ s.vWorkQueue, h ∈ supportHashes L E wtx
  prev : ∀ k t, s.mapWalletPrev.find? k = some t → t ∈ supportPool L E

theorem findSupport_mem_pool {m m' : StdMap Nat Tx} {hash : Nat} {tx : Tx}
    (hm : ∀ k t, m.find? k = some t → t ∈ supportPool L E) (h : findSupport N L E m hash = some (tx, m')) :
    tx ∈ supportPool L E ∧ ∀ k t, m'.find? k = some t → t ∈ supportPool L E := by
  rcases findSupport_eq_some N L E h with ⟨w, hw, rfl, rfl⟩ | ⟨-, hf, rfl⟩ | ⟨-, hd, rfl⟩
  · have he := (StdMap.find?_iff_mem _).mp hw
    refine ⟨List.mem_append_left _ (List.mem_append_left _ (List.mem_map_of_mem (fun e => e.2.toTx) he)),
      fun k t ht => ?_⟩
    rcases find?_foldl_addWalletPrev_eq_some N ht with ⟨ht, -⟩ | ht
    · exact List.mem_append_left _ (List.mem_append_right _ (List.mem_flatMap.mpr ⟨_, he, ht⟩))
    · exact hm k t ht
  · exact ⟨hm _ _ hf, hm⟩
  · exact ⟨List.mem_append_right _ (E.readDiskTx_eq_some N hd).1, hm⟩

theorem filter_not_mem_insert_lt {U : List Nat} {done : StdSet Nat} {h : Nat} (hU : h ∈ U)
    (hd : h ∉ done.keys) :
    (U.filter fun x => x ∉ (done.insert h).keys).length < (U.filter fun x => x ∉ done.keys).length := by
  have : (U.filter fun x => x ∉ (done.insert h).keys) =
      (U.filter fun x => x ∉ done.keys).filter fun x => x ≠ h := by
    rw [List.filter_filter]
    exact List.filter_congr fun x _ => by simp [and_comm]
  rw [this, List.length_filter_lt_length_iff_exists]
  exact ⟨h, List.mem_filter.mpr ⟨hU, by simpa using hd⟩, by simp⟩

theorem supportStep_bounded {s : SupportState} {hash : Nat} {rest : List Nat}
    (hq : s.vWorkQueue = hash :: rest) (hb : SupportBounded L E wtx s) :
    SupportBounded L E wtx (supportStep N L E s hash rest) ∧
      supportMeasure L E wtx (supportStep N L E s hash rest) < supportMeasure L E wtx s := by
  have hU : hash ∈ supportHashes L E wtx := hb.queue _ (by simp [hq])
  have hrest : ∀ h ∈ rest, h ∈ supportHashes L E wtx := fun h hh => hb.queue _ (by simp [hq, hh])
  unfold supportStep supportMeasure
  split_ifs with hd
  · exact ⟨⟨hrest, hb.prev⟩, by simp [hq]⟩
  · have hlt := filter_not_mem_insert_lt hU hd
    split
    · refine ⟨⟨hrest, hb.prev⟩, ?_⟩
      simp only [hq, List.length_cons]
      have := Nat.mul_le_mul_left ((spentHashes (supportPool L E)).length + 1) hlt
      rw [Nat.mul_succ] at this
      omega
    · rename_i tx m' hf
      obtain ⟨hpool, hm'⟩ := findSupport_mem_pool N L E hb.prev hf
      have hpush : (pushedInputs N E tx).length ≤ (spentHashes (supportPool L E)).length := by
        unfold pushedInputs
        split_ifs
        · simpa using vin_length_le_spentHashes hpool
        · simp
      refine ⟨⟨fun h hh => ?_, hm'⟩, ?_⟩
      · rcases List.mem_append.mp hh with hh | hh
        · exact hrest h hh
        · unfold pushedInputs at hh
          split_ifs at hh
          · simp only [supportHashes, spentHashes, List.mem_append, List.mem_flatMap]
            exact Or.inr ⟨tx, hpool, hh⟩
          · cases hh
      · simp only [hq, List.length_cons, List.length_append]
        have := Nat.mul_le_mul_left ((spentHashes (supportPool L E)).length + 1) hlt
        rw [Nat.mul_succ] at this
        omega

theorem supportLoop_isSome : ∀ {fuel : Nat} {s : SupportState}, SupportBounded L E wtx s →
    supportMeasure L E wtx s < fuel → (supportLoop N L E fuel s).isSome
  | 0, _, _, h => absurd h (Nat.not_lt_zero _)
  | fuel + 1, s, hb, hlt => by
    simp only [supportLoop]
    split
    · rfl
    · rename_i hash rest hq
      obtain ⟨hb', hdec⟩ := supportStep_bounded N L E wtx hq hb
      exact supportLoop_isSome hb' (by omega)

theorem supportBounded_init : SupportBounded L E wtx (SupportState.init wtx) :=
  ⟨fun h hh => List.mem_append_left _ hh, fun _ _ h => by simp [SupportState.init] at h⟩

end Termination

section Closure

variable (N : Node) (L : Ledger) (E : SupportEnv) (wtx : Tx)

def workQueue (R : List Tx) : List Nat := wtx.vin.map OutPoint.hash ++ (R.flatMap (pushedInputs N E))

theorem workQueue_snoc (R : List Tx) (tx : Tx) :
    workQueue N E wtx (R ++ [tx]) = workQueue N E wtx R ++ pushedInputs N E tx := by
  simp [workQueue]

/-- The hashes wtx's inputs reach when inputs are followed through the transactions of `R` below
COPY_DEPTH. -/
inductive Reaches (R : List Tx) : Nat → Prop
  | input {h : Nat} : h ∈ wtx.vin.map OutPoint.hash → Reaches R h
  | spent {t : Tx} {h : Nat} : Reaches R (N.getHash t) → t ∈ R → h ∈ pushedInputs N E t → Reaches R h

/-- Where the loop finds a transaction of vtxPrev: the wallet's record under its hash, the vtxPrev
of a wallet record the loop has visited, or the database. -/
def FoundIn (R : List Tx) (t : Tx) : Prop :=
  (L.mapWallet.find? (N.getHash t)).map (fun w => w.toTx) = some t ∨
    (∃ r ∈ R.map N.getHash, (L.mapWallet.find? r).isSome ∧ t ∈ E.vtxPrevOf r) ∨
    E.readDiskTx N (N.getHash t) = some t

/-- A hash the loop can resolve when it reaches it in `order`: mapWallet or the database holds it,
or the vtxPrev of a wallet record visited before it does. -/
def ResolvedAt (order : List Nat) (R : List Tx) (h : Nat) : Prop :=
  (L.mapWallet.find? h).isSome ∨ (E.readDiskTx N h).isSome ∨
    ∃ r ∈ R.map N.getHash, (L.mapWallet.find? r).isSome ∧ h ∈ (E.vtxPrevOf r).map N.getHash ∧
      order.indexOf r < order.indexOf h

theorem Reaches.mono {R R' : List Tx} (hR : ∀ t ∈ R, t ∈ R') {h : Nat} (hr : Reaches N E wtx R h) :
    Reaches N E wtx R' h := by
  induction hr with
  | input hh => exact .input hh
  | spent _ ht hh ih => exact .spent ih (hR _ ht) hh

theorem Reaches.mem_workQueue {R : List Tx} {h : Nat} (hr : Reaches N E wtx R h) : h ∈ workQueue N E wtx R := by
  cases hr with
  | input hh => exact List.mem_append_left _ hh
  | spent _ ht hh => exact List.mem_append_right _ (List.mem_flatMap.mpr ⟨_, ht, hh⟩)

theorem Reaches.of_mem_workQueue {R : List Tx} (hR : ∀ t ∈ R, Reaches N E wtx R (N.getHash t)) {h : Nat}
    (hh : h ∈ workQueue N E wtx R) : Reaches N E wtx R h := by
  rcases List.mem_append.mp hh with hh | hh
  · exact .input hh
  · obtain ⟨t, ht, hp⟩ := List.mem_flatMap.mp hh
    exact .spent (hR t ht) ht hp

theorem FoundIn.mono {R R' : List Tx} (hR : ∀ t ∈ R, t ∈ R') {t : Tx} (hf : FoundIn N L E R t) :
    FoundIn N L E R' t := by
  rcases hf with hf | ⟨r, hr, hf⟩ | hf
  · exact .inl hf
  · obtain ⟨u, hu, rfl⟩ := List.mem_map.mp hr
    exact .inr (.inl ⟨_, List.mem_map_of_mem _ (hR u hu), hf⟩)
  · exact .inr (.inr hf)

theorem resolvedAt_append {p q : List Nat} {R T : List Tx} {x : Nat} (hx : x ∈ p)
    (hR : ∀ t ∈ R, N.getHash t ∈ p) (hT : ∀ t ∈ T, N.getHash t ∉ p) :
    ResolvedAt N L E (p ++ q) (R ++ T) x ↔ ResolvedAt N L E p R x := by
  have hlt : (p ++ q).indexOf x < p.length := by
    rw [List.indexOf_append_of_mem hx]; exact List.indexOf_lt_length.mpr hx
  unfold ResolvedAt
  refine or_congr_right (or_congr_right ⟨fun ⟨r, hr, hm, hv, ho⟩ => ?_, fun ⟨r, hr, hm, hv, ho⟩ => ?_⟩)
  · obtain ⟨t, ht, rfl⟩ := List.mem_map.mp hr
    rcases List.mem_append.mp ht with ht | ht
    · refine ⟨_, List.mem_map_of_mem _ ht, hm, hv, ?_⟩
      rwa [List.indexOf_append_of_mem (hR t ht), List.indexOf_append_of_mem hx] at ho
    · rw [List.indexOf_append_of_not_mem (hT t ht)] at ho
      omega
  · obtain ⟨t, ht, rfl⟩ := List.mem_map.mp hr
    refine ⟨_, List.mem_map_of_mem _ (List.mem_append_left _ ht), hm, hv, ?_⟩
    rwa [List.indexOf_append_of_mem (hR t ht), List.indexOf_append_of_mem hx]

/-- What the loop keeps, with `p` the entries of vWorkQueue it has passed, in order. -/
structure SupportInv (p : List Nat) (s : SupportState) : Prop where
  queue : workQueue N E wtx s.vtxPrev = p ++ s.vWorkQueue
  done : ∀ h, h ∈ s.setAlreadyDone.keys ↔ h ∈ p
  visited : ∀ t ∈ s.vtxPrev, N.getHash t ∈ p
  nodup : (s.vtxPrev.map N.getHash).Nodup
  prev : ∀ k t, s.mapWalletPrev.find? k = some t →
    N.getHash t = k ∧ ∃ r ∈ s.vtxPrev.map N.getHash, (L.mapWallet.find? r).isSome ∧ t ∈ E.vtxPrevOf r
  prevAll : ∀ r ∈ s.vtxPrev.map N.getHash, (L.mapWallet.find? r).isSome →
    ∀ t ∈ E.vtxPrevOf r, (s.mapWalletPrev.find? (N.getHash t)).isSome
  found : ∀ t ∈ s.vtxPrev, FoundIn N L E s.vtxPrev t
  reaches : ∀ t ∈ s.vtxPrev, Reaches N E wtx s.vtxPrev (N.getHash t)
  exact : ∀ h ∈ p, h ∈ s.vtxPrev.map N.getHash ↔ ResolvedAt N L E p s.vtxPrev h

theorem supportInv_init : SupportInv N L E wtx [] (SupportState.init wtx) where
  queue := by simp [workQueue, SupportState.init]
  done := by simp [SupportState.init, StdSet.empty]
  visited := by simp [SupportState.init]
  nodup := by simp [SupportState.init]
  prev := by simp [SupportState.init]
  prevAll := by simp [SupportState.init]
  found := by simp [SupportState.init]
  reaches := by simp [SupportState.init]
  exact := by simp

/-- Every record of the wallet sits under its own transaction's hash. -/
def Ledger.KeyedByTxHash (L : Ledger) : Prop := ∀ k w, L.mapWallet.find? k = some w → N.getHash w.toTx = k

theorem findSupport_prev {m m' : StdMap Nat Tx} {hash : Nat} {tx : Tx}
    (hf : findSupport N L E m hash = some (tx, m')) :
    (∀ k t, m'.find? k = some t → m.find? k = some t ∨
      ((L.mapWallet.find? hash).isSome ∧ t ∈ E.vtxPrevOf hash ∧ N.getHash t = k)) ∧
    (∀ k, (m.find? k).isSome → (m'.find? k).isSome) ∧
    ((L.mapWallet.find? hash).isSome → ∀ t ∈ E.vtxPrevOf hash, (m'.find? (N.getHash t)).isSome) := by
  rcases findSupport_eq_some N L E hf with ⟨w, hw, -, rfl⟩ | ⟨hw, -, rfl⟩ | ⟨hw, -, rfl⟩
  · refine ⟨fun k t ht => ?_, fun k hk => find?_foldl_addWalletPrev_isSome N (.inl hk),
      fun _ t ht => find?_foldl_addWalletPrev_isSome N (.inr (List.mem_map_of_mem _ ht))⟩
    rcases find?_foldl_addWalletPrev_eq_some N ht with ⟨ht, hk⟩ | ht
    · exact .inr ⟨by simp [hw], ht, hk⟩
    · exact .inl ht
  all_goals exact ⟨fun _ _ ht => .inl ht, fun _ hk => hk, fun h => by simp [hw] at h⟩

theorem findSupport_found (hkeyed : L.KeyedByTxHash N) {p : List Nat} {s : SupportState}
    (hi : SupportInv N L E wtx p s) {hash : Nat} (hp : hash ∉ p) {tx : Tx} {m' : StdMap Nat Tx}
    (hf : findSupport N L E s.mapWalletPrev hash = some (tx, m')) :
    N.getHash tx = hash ∧ FoundIn N L E (s.vtxPrev ++ [tx]) tx ∧
      ResolvedAt N L E (p ++ [hash]) (s.vtxPrev ++ [tx]) hash := by
  rcases findSupport_eq_some N L E hf with ⟨w, hw, rfl, -⟩ | ⟨-, hm, -⟩ | ⟨-, hd, -⟩
  · have hk := hkeyed _ _ hw
    exact ⟨hk, .inl (by simp [hk, hw]), .inl (by simp [hw])⟩
  · obtain ⟨hk, r, hr, hrm, ht⟩ := hi.prev _ _ hm
    obtain ⟨u, hu, rfl⟩ := List.mem_map.mp hr
    have hu' := List.mem_map_of_mem N.getHash (List.mem_append_left [tx] hu)
    refine ⟨hk, .inr (.inl ⟨_, hu', hrm, ht⟩), .inr (.inr ⟨_, hu', hrm, hk ▸ List.mem_map_of_mem _ ht, ?_⟩)⟩
    rw [List.indexOf_append_of_mem (hi.visited u hu), List.indexOf_append_of_not_mem hp]
    exact Nat.lt_of_lt_of_le (List.indexOf_lt_length.mpr (hi.visited u hu)) (Nat.le_add_right _ _)
  · have hk := (E.readDiskTx_eq_some N hd).2
    exact ⟨hk, .inr (.inr (by rw [hk]; exact hd)), .inr (.inl (by simp [hd]))⟩

theorem SupportInv.exact_passed {p : List Nat} {s : SupportState} (hi : SupportInv N L E wtx p s)
    (hash : Nat) {h : Nat} (hh : h ∈ p) :
    h ∈ s.vtxPrev.map N.getHash ↔ ResolvedAt N L E (p ++ [hash]) s.vtxPrev h := by
  have key := @resolvedAt_append N L E p [hash] s.vtxPrev [] h hh hi.visited (by simp)
  rw [List.append_nil] at key
  rw [key, hi.exact h hh]

theorem SupportInv.skip {p : List Nat} {s : SupportState} {hash : Nat} {rest : List Nat}
    (hi : SupportInv N L E wtx p s) (hq : s.vWorkQueue = hash :: rest) (hd : hash ∈ p) :
    SupportInv N L E wtx (p ++ [hash]) { s with vWorkQueue := rest } where
  __ := hi
  queue := by simp [hi.queue, hq]
  done h := by
    rw [hi.done, List.mem_append, List.mem_singleton]
    exact ⟨.inl, fun h' => h'.elim id fun e => e ▸ hd⟩
  visited t ht := List.mem_append_left _ (hi.visited t ht)
  exact h hh := hi.exact_passed N L E wtx hash <| (List.mem_append.mp hh).elim id fun hh =>
    List.mem_singleton.mp hh ▸ hd

theorem SupportInv.unresolved {p : List Nat} {s : SupportState} {hash : Nat} {rest : List Nat}
    (hi : SupportInv N L E wtx p s) (hq : s.vWorkQueue = hash :: rest) (hd : hash ∉ p)
    (hf : findSupport N L E s.mapWalletPrev hash = none) :
    SupportInv N L E wtx (p ++ [hash])
      { s with vWorkQueue := rest, setAlreadyDone := s.setAlreadyDone.insert hash } where
  __ := hi
  queue := by simp [hi.queue, hq]
  done h := by simp [hi.done, or_comm]
  visited t ht := List.mem_append_left _ (hi.visited t ht)
  exact h hh := by
    rcases List.mem_append.mp hh with hh | hh
    · exact hi.exact_passed N L E wtx hash hh
    · obtain rfl := List.mem_singleton.mp hh
      obtain ⟨hw, hm, hdb⟩ := findSupport_eq_none N L E hf
      refine ⟨fun hv => absurd (?_ : h ∈ p) hd, fun hr => ?_⟩
      · obtain ⟨t, ht, rfl⟩ := List.mem_map.mp hv
        exact hi.visited t ht
      · rcases hr with hr | hr | ⟨r, hr, hrm, hv, -⟩
        · simp [hw] at hr
        · simp [hdb] at hr
        · obtain ⟨t, ht, rfl⟩ := List.mem_map.mp hv
          have := hi.prevAll r hr hrm t ht
          simp [hm] at this

theorem SupportInv.visit (hkeyed : L.KeyedByTxHash N) {p : List Nat} {s : SupportState} {hash : Nat}
    {rest : List Nat} (hi : SupportInv N L E wtx p s) (hq : s.vWorkQueue = hash :: rest) (hd : hash ∉ p)
    {tx : Tx} {m' : StdMap Nat Tx} (hf : findSupport N L E s.mapWalletPrev hash = some (tx, m')) :
    SupportInv N L E wtx (p ++ [hash])
      ⟨rest ++ pushedInputs N E tx, m', s.setAlreadyDone.insert hash, s.vtxPrev ++ [tx]⟩ := by
  obtain ⟨hk, hfound, hres⟩ := findSupport_found N L E wtx hkeyed hi hd hf
  obtain ⟨hnew, hkeep, hall⟩ := findSupport_prev N L E hf
  have hsub : ∀ t ∈ s.vtxPrev, t ∈ s.vtxPrev ++ [tx] := fun t ht => List.mem_append_left _ ht
  have hfresh : hash ∉ s.vtxPrev.map N.getHash := fun hv => by
    obtain ⟨t, ht, rfl⟩ := List.mem_map.mp hv
    exact hd (hi.visited t ht)
  have hmap : (s.vtxPrev ++ [tx]).map N.getHash = s.vtxPrev.map N.getHash ++ [hash] := by simp [hk]
  have hreach : Reaches N E wtx s.vtxPrev hash :=
    Reaches.of_mem_workQueue N E wtx hi.reaches (by simp [hi.queue, hq])
  refine ⟨by simp [workQueue_snoc, hi.queue, hq], fun h => by simp [hi.done, or_comm], fun t ht => ?_,
    by simpa [hmap, List.nodup_append] using
      ⟨hi.nodup, fun x hx he => hfresh (he ▸ List.mem_map_of_mem _ hx)⟩, fun k t ht => ?_, fun r hr hrm t ht => ?_,
    fun t ht => ?_, fun t ht => ?_, fun h hh => ?_⟩
  · rcases List.mem_append.mp ht with ht | ht
    · exact List.mem_append_left _ (hi.visited t ht)
    · simp [List.mem_singleton.mp ht, hk]
  · rcases hnew k t ht with ht | ⟨hrm, ht, hkt⟩
    · obtain ⟨hkt, r, hr, hrm, ht⟩ := hi.prev k t ht
      exact ⟨hkt, r, by rw [hmap]; exact List.mem_append_left _ hr, hrm, ht⟩
    · exact ⟨hkt, hash, by simp [hmap], hrm, ht⟩
  · rw [hmap, List.mem_append, List.mem_singleton] at hr
    rcases hr with hr | rfl
    · exact hkeep _ (hi.prevAll r hr hrm t ht)
    · exact hall hrm t ht
  · rcases List.mem_append.mp ht with ht | ht
    · exact (hi.found t ht).mono N L E hsub
    · exact List.mem_singleton.mp ht ▸ hfound
  · rcases List.mem_append.mp ht with ht | ht
    · exact (hi.reaches t ht).mono N E wtx hsub
    · rw [List.mem_singleton.mp ht, hk]
      exact hreach.mono N E wtx hsub
  · rw [hmap]
    rcases List.mem_append.mp hh with hh | hh
    · have hne : h ≠ hash := fun e => hd (e ▸ hh)
      have key := @resolvedAt_append N L E p [hash] s.vtxPrev [tx] h hh hi.visited (by simpa [hk] using hd)
      rw [key, ← hi.exact h hh]
      simp [hne]
    · obtain rfl := List.mem_singleton.mp hh
      simpa using hres

theorem supportStep_inv (hkeyed : L.KeyedByTxHash N) {p : List Nat} {s : SupportState} {hash : Nat}
    {rest : List Nat} (hq : s.vWorkQueue = hash :: rest) (hi : SupportInv N L E wtx p s) :
    SupportInv N L E wtx (p ++ [hash]) (supportStep N L E s hash rest) := by
  unfold supportStep
  split_ifs with hd
  · exact hi.skip N L E wtx hq ((hi.done hash).mp hd)
  · have hp : hash ∉ p := fun h => hd ((hi.done hash).mpr h)
    split
    · exact hi.unresolved N L E wtx hq hp ‹_›
    · exact hi.visit N L E wtx hkeyed hq hp ‹_›

theorem supportLoop_inv (hkeyed : L.KeyedByTxHash N) : ∀ {fuel : Nat} {p : List Nat} {s r : SupportState},
    SupportInv N L E wtx p s → supportLoop N L E fuel s = some r →
      r.vWorkQueue = [] ∧ ∃ p', SupportInv N L E wtx p' r
  | 0, _, _, _, _, h => by cases h
  | fuel + 1, p, s, r, hi, h => by
    simp only [supportLoop] at h
    split at h
    · cases h
      exact ⟨‹_›, p, hi⟩
    · exact supportLoop_inv hkeyed (supportStep_inv N L E wtx hkeyed ‹_› hi) h

end Closure

section Result

variable (N : Node) (L : Ledger) (E : SupportEnv)

/-- AddSupportingTransactions for a transaction below COPY_DEPTH. -/
theorem addSupportingTransactions_closure (wtx : Tx) (hdepth : E.setMerkleBranch N wtx < COPY_DEPTH) :
    ∃ vtxPrev : List Tx,
      (∀ fuel, supportFuel L E wtx ≤ fuel → addSupportingTransactions N L E wtx fuel = some vtxPrev) ∧
      (L.KeyedByTxHash N →
        (vtxPrev.map N.getHash).Nodup ∧ (∀ t ∈ vtxPrev, FoundIn N L E vtxPrev t) ∧
        ∀ h, h ∈ vtxPrev.map N.getHash ↔
          Reaches N E wtx vtxPrev h ∧ ResolvedAt N L E (workQueue N E wtx vtxPrev.reverse) vtxPrev h) := by
  obtain ⟨r, hr⟩ := Option.isSome_iff_exists.mp
    (supportLoop_isSome N L E wtx (supportBounded_init L E wtx) (Nat.lt_succ_self _))
  refine ⟨r.vtxPrev.reverse, fun fuel hfuel => ?_, fun hkeyed => ?_⟩
  · simp [addSupportingTransactions, hdepth, supportLoop_mono N L E hfuel hr]
  obtain ⟨hq, p, hi⟩ := supportLoop_inv N L E wtx hkeyed (supportInv_init N L E wtx) hr
  have hp : workQueue N E wtx r.vtxPrev = p := by simpa [hq] using hi.queue
  have hrev : ∀ t ∈ r.vtxPrev, t ∈ r.vtxPrev.reverse := fun t => List.mem_reverse.mpr
  have hrev' : ∀ t ∈ r.vtxPrev.reverse, t ∈ r.vtxPrev := fun t => List.mem_reverse.mp
  refine ⟨by simpa [List.map_reverse] using hi.nodup,
    fun t ht => (hi.found t (hrev' t ht)).mono N L E hrev, fun h => ?_⟩
  rw [List.reverse_reverse, hp]
  have hres : ResolvedAt N L E p r.vtxPrev.reverse h ↔ ResolvedAt N L E p r.vtxPrev h := by
    simp only [ResolvedAt, List.map_reverse, List.mem_reverse]
  rw [hres, List.map_reverse, List.mem_reverse]
  constructor
  · intro hv
    obtain ⟨t, ht, rfl⟩ := List.mem_map.mp hv
    exact ⟨(hi.reaches t ht).mono N E wtx hrev, (hi.exact _ (hi.visited t ht)).mp hv⟩
  · rintro ⟨hreach, hres⟩
    have hw := (hreach.mono N E wtx hrev').mem_workQueue
    rw [hp] at hw
    exact (hi.exact h hw).mpr hres

end Result

def childLedger : Ledger :=
  ⟨StdMap.empty.insert 2 (WalletTx.ofTx ⟨2, [⟨1, 0⟩], []⟩), 0, true⟩

def childEnv : SupportEnv := ⟨fun h => if h = 2 then [⟨1, [], []⟩] else [], [], fun _ => 0⟩

def spendParentChild : Tx := ⟨3, [⟨1, 0⟩, ⟨2, 0⟩], []⟩

theorem addSupportingTransactions_closure_parentChild :
    childEnv.setMerkleBranch ownAllNode spendParentChild < COPY_DEPTH ∧
    ∃ vtxPrev : List Tx,
      (∀ fuel, supportFuel childLedger childEnv spendParentChild ≤ fuel →
        addSupportingTransactions ownAllNode childLedger childEnv spendParentChild fuel = some vtxPrev) ∧
      (childLedger.KeyedByTxHash ownAllNode →
        (vtxPrev.map ownAllNode.getHash).Nodup ∧ (∀ t ∈ vtxPrev, FoundIn ownAllNode childLedger childEnv vtxPrev t) ∧
        ∀ h, h ∈ vtxPrev.map ownAllNode.getHash ↔
          Reaches ownAllNode childEnv spendParentChild vtxPrev h ∧
            ResolvedAt ownAllNode childLedger childEnv
              (workQueue ownAllNode childEnv spendParentChild vtxPrev.reverse) vtxPrev h) :=
  ⟨by decide, addSupportingTransactions_closure ownAllNode childLedger childEnv spendParentChild (by decide)⟩

/- The parent's hash comes first in the queue and is looked up before the child's record puts
the parent into mapWalletPrev; it is done by then and never looked up again. -/
example : addSupportingTransactions ownAllNode childLedger childEnv spendParentChild 10 =
    some [⟨2, [⟨1, 0⟩], []⟩] := by decide

def emptyRecordsLedger : Ledger :=
  ⟨(StdMap.empty.insert 1 (WalletTx.ofTx ⟨5, [], []⟩)).insert 2 (WalletTx.ofTx ⟨5, [], []⟩), 0, true⟩

def noSupportEnv : SupportEnv := ⟨fun _ => [], [], fun _ => 0⟩

/-- On a wallet of the shape every run of the ledger keeps, the two empty records are found under
different hashes and vtxPrev holds their one transaction twice. -/
theorem addSupportingTransactions_emptyRecords_dup :
    emptyRecordsLedger.KeyedByHash ownAllNode ∧
      addSupportingTransactions ownAllNode emptyRecordsLedger noSupportEnv ⟨6, [⟨1, 0⟩, ⟨2, 0⟩], []⟩ 10 =
        some [⟨5, [], []⟩, ⟨5, [], []⟩] ∧
      ¬(([⟨5, [], []⟩, ⟨5, [], []⟩] : List Tx).map ownAllNode.getHash).Nodup := by
  refine ⟨fun k w hw => .inr ?_, by decide, by decide⟩
  have he := (StdMap.find?_iff_mem _).mp hw
  have hentries : emptyRecordsLedger.mapWallet.entries =
      [(1, WalletTx.ofTx ⟨5, [], []⟩), (2, WalletTx.ofTx ⟨5, [], []⟩)] := rfl
  rw [hentries] at he
  simp only [List.mem_cons, Prod.mk.injEq, List.mem_singleton, List.not_mem_nil, or_false] at he
  rcases he with ⟨-, rfl⟩ | ⟨-, rfl⟩ <;> exact ⟨rfl, rfl⟩

end GridcoinWallet
