import GridcoinWallet.Serialize.CompactSize
import GridcoinWallet.StdMap

namespace GridcoinWallet

/-- How `Serialize`, `Unserialize` and the size computer treat an element type. -/
structure ElemCodec (α : Type) where
  ser : α → List UInt8
  unser : List UInt8 → Except String (α × List UInt8)
  serSize : α → Nat

/-- `sizeof(T)` of a vector's element type, below the 5,000,000-byte batch. -/
structure ElemSize where
  sizeofT : Nat
  pos : 0 < sizeofT
  lt : sizeofT < 5000000

def ElemCodec.RoundTrips {α : Type} (c : ElemCodec α) : Prop :=
  ∀ x rest, c.unser (c.ser x ++ rest) = .ok (x, rest)

def ElemCodec.SizeAgrees {α : Type} (c : ElemCodec α) : Prop :=
  ∀ x, c.serSize x = (c.ser x).length

/-- `Serialize(std::pair)`: first, then second. -/
def ElemCodec.pair {K V : Type} (ck : ElemCodec K) (cv : ElemCodec V) : ElemCodec (K × V) where
  ser e := ck.ser e.1 ++ cv.ser e.2
  unser s := ck.unser s >>= fun r => cv.unser r.2 >>= fun q => .ok ((r.1, q.1), q.2)
  serSize e := ck.serSize e.1 + cv.serSize e.2

/-- The writer shared by `std::string`, the byte vectors and `LimitedString`: the length, then the
bytes unless there are none. -/
def serializeBlob (v : List UInt8) : List UInt8 :=
  writeCompactSize (UInt64.ofNat v.length) ++ if v.isEmpty then [] else v

/-- `Unserialize(std::basic_string)`: one read of `nSize` bytes. -/
def unserializeString (s : List UInt8) : Except String (List UInt8 × List UInt8) :=
  readCompactSize s >>= fun r =>
    let nSize := r.1.toUInt32.toNat
    if nSize ≠ 0 then streamRead nSize r.2 else .ok ([], r.2)

/-- `LimitedString<Limit>::Unserialize`. -/
def unserializeLimitedString (Limit : Nat) (s : List UInt8) :
    Except String (List UInt8 × List UInt8) :=
  readCompactSize s >>= fun r =>
    let size := r.1.toNat
    if size > Limit then .error "String length limit exceeded"
    else if size ≠ 0 then streamRead size r.2 else .ok ([], r.2)

/-- `1 + 4999999 / sizeof(T)` for the one-byte element types. -/
def byteChunk : Nat := 1 + 4999999 / 1

/-- The block loop of `Unserialize_impl` for `std::vector<unsigned char>`, `std::vector<std::byte>`
and `prevector<N, unsigned char>`. -/
def readByteChunks (nSize i : Nat) (v s : List UInt8) : Except String (List UInt8 × List UInt8) :=
  if _h : i < nSize then
    streamRead (min (nSize - i) byteChunk) s >>= fun r =>
      readByteChunks nSize (i + min (nSize - i) byteChunk) (v ++ r.1) r.2
  else .ok (v, s)
termination_by nSize - i
decreasing_by simp only [byteChunk]; omega

def unserializeBytes (s : List UInt8) : Except String (List UInt8 × List UInt8) :=
  readCompactSize s >>= fun r => readByteChunks r.1.toUInt32.toNat 0 [] r.2

/-- `k` element reads in a row, appended to `v`. -/
def readElems {α : Type} (c : ElemCodec α) : Nat → List α → List UInt8 →
    Except String (List α × List UInt8)
  | 0, v, s => .ok (v, s)
  | k + 1, v, s => c.unser s >>= fun r => readElems c k (v ++ [r.1]) r.2

theorem batch_pos (T : ElemSize) : 0 < 5000000 / T.sizeofT :=
  Nat.div_pos (Nat.le_of_lt T.lt) T.pos

/-- The batch loop of the generic `Unserialize_impl` for `std::vector<T>` and `prevector<N, T>`. -/
def readBatches {α : Type} (c : ElemCodec α) (T : ElemSize) (nSize nMid : Nat) (v : List α)
    (s : List UInt8) : Except String (List α × List UInt8) :=
  if _h : nMid < nSize then
    let next := nMid + 5000000 / T.sizeofT
    let next := if next > nSize then nSize else next
    readElems c (next - nMid) v s >>= fun r => readBatches c T nSize next r.1 r.2
  else .ok (v, s)
termination_by nSize - nMid
decreasing_by have := batch_pos T; split <;> omega

def serializeVector {α : Type} (c : ElemCodec α) (v : List α) : List UInt8 :=
  writeCompactSize (UInt64.ofNat v.length) ++ (v.map c.ser).flatten

def unserializeVector {α : Type} (c : ElemCodec α) (T : ElemSize) (s : List UInt8) :
    Except String (List α × List UInt8) :=
  readCompactSize s >>= fun r => readBatches c T r.1.toUInt32.toNat 0 [] r.2

def serializeMap {K V : Type} [LinearOrder K] (ck : ElemCodec K) (cv : ElemCodec V)
    (m : StdMap K V) : List UInt8 :=
  writeCompactSize (UInt64.ofNat m.entries.length) ++ (m.entries.map (ck.pair cv).ser).flatten

/-- The loop of `Unserialize(std::map)`: each pair is read and inserted. -/
def readMapEntries {K V : Type} [LinearOrder K] (ck : ElemCodec K) (cv : ElemCodec V) :
    Nat → StdMap K V → List UInt8 → Except String (StdMap K V × List UInt8)
  | 0, m, s => .ok (m, s)
  | i + 1, m, s => (ck.pair cv).unser s >>= fun r => readMapEntries ck cv i (m.insert r.1.1 r.1.2) r.2

def unserializeMap {K V : Type} [LinearOrder K] (ck : ElemCodec K) (cv : ElemCodec V)
    (s : List UInt8) : Except String (StdMap K V × List UInt8) :=
  readCompactSize s >>= fun r => readMapEntries ck cv r.1.toUInt32.toNat StdMap.empty r.2

def serializeSet {K : Type} [LinearOrder K] (ck : ElemCodec K) (m : StdSet K) : List UInt8 :=
  writeCompactSize (UInt64.ofNat m.keys.length) ++ (m.keys.map ck.ser).flatten

/-- The loop of `Unserialize(std::set)`. -/
def readSetKeys {K : Type} [LinearOrder K] (ck : ElemCodec K) :
    Nat → StdSet K → List UInt8 → Except String (StdSet K × List UInt8)
  | 0, m, s => .ok (m, s)
  | i + 1, m, s => ck.unser s >>= fun r => readSetKeys ck i (m.insert r.1) r.2

def unserializeSet {K : Type} [LinearOrder K] (ck : ElemCodec K) (s : List UInt8) :
    Except String (StdSet K × List UInt8) :=
  readCompactSize s >>= fun r => readSetKeys ck r.1.toUInt32.toNat StdSet.empty r.2

/-- `GetSerializeSize` of a blob: the size computer's compact-size overload, then the bytes. -/
def sizeBlob (v : List UInt8) : Nat :=
  (((⟨0⟩ : CSizeComputer).writeCompactSize (UInt64.ofNat v.length)).write
    (if v.isEmpty then [] else v)).nSize

/-- `GetSerializeSize` of a sequence whose elements the size computer measures one by one. -/
def sizeElems {α : Type} (c : ElemCodec α) (xs : List α) : Nat :=
  (xs.foldl (fun s x => s.seek (c.serSize x))
    ((⟨0⟩ : CSizeComputer).writeCompactSize (UInt64.ofNat xs.length))).nSize

theorem toNat_ofNat_length {n : Nat} (h : n ≤ maxSize) : (UInt64.ofNat n).toNat = n :=
  UInt64.toNat_ofNat_of_lt (by unfold maxSize at h; change n < 2 ^ 64; omega)

theorem readCompactSize_length {n : Nat} (h : n ≤ maxSize) (rest : List UInt8) :
    readCompactSize (writeCompactSize (UInt64.ofNat n) ++ rest) = .ok (UInt64.ofNat n, rest) := by
  rw [readCompactSize_writeCompactSize, toNat_ofNat_length h, if_neg (by omega)]

theorem toUInt32_ofNat_length {n : Nat} (h : n ≤ maxSize) : (UInt64.ofNat n).toUInt32.toNat = n := by
  rw [toNat_toUInt32, toNat_ofNat_length h]
  unfold maxSize at h
  omega

theorem streamRead_add (a b : Nat) (s : List UInt8) :
    streamRead (a + b) s = streamRead a s >>= fun r =>
      (streamRead b r.2).map fun q => (r.1 ++ q.1, q.2) := by
  unfold streamRead
  by_cases ha : a ≤ s.length
  · by_cases hb : a + b ≤ s.length
    · simp [ha, hb, show b ≤ s.length - a by omega, List.take_add, List.drop_drop, bind,
        Except.bind, Except.map, Nat.add_comm]
    · simp [ha, hb, show ¬ b ≤ s.length - a by omega, bind, Except.bind, Except.map]
  · simp [ha, show ¬ a + b ≤ s.length by omega, bind, Except.bind]

theorem readByteChunks_eq (nSize i : Nat) (v s : List UInt8) :
    readByteChunks nSize i v s = (streamRead (nSize - i) s).map fun r => (v ++ r.1, r.2) := by
  generalize h : nSize - i = n
  induction n using Nat.strong_induction_on generalizing i v s with
  | _ n ih =>
    rw [readByteChunks]
    split
    · next hi =>
      have hblk : 0 < min (nSize - i) byteChunk := by simp only [byteChunk]; omega
      rw [show n = min (nSize - i) byteChunk + (nSize - (i + min (nSize - i) byteChunk)) by omega,
        streamRead_add]
      cases streamRead (min (nSize - i) byteChunk) s with
      | error e => rfl
      | ok r =>
        simp only [bind, Except.bind]
        rw [ih _ (by omega) _ _ _ rfl]
        cases streamRead (nSize - (i + min (nSize - i) byteChunk)) r.2 <;>
          simp [Except.map, List.append_assoc]
    · next hi =>
      rw [show n = 0 by omega]
      simp [streamRead, Except.map]

theorem readElems_add {α : Type} (c : ElemCodec α) (a b : Nat) (v : List α) (s : List UInt8) :
    readElems c (a + b) v s = readElems c a v s >>= fun r => readElems c b r.1 r.2 := by
  induction a generalizing v s with
  | zero => simp [readElems, bind, Except.bind]
  | succ a ih =>
    rw [show a + 1 + b = (a + b) + 1 by omega, readElems, readElems]
    cases c.unser s with
    | error e => rfl
    | ok r => simp only [bind, Except.bind]; rw [ih]; rfl

theorem readBatches_eq {α : Type} (c : ElemCodec α) (T : ElemSize) (nSize nMid : Nat)
    (v : List α) (s : List UInt8) :
    readBatches c T nSize nMid v s = readElems c (nSize - nMid) v s := by
  generalize h : nSize - nMid = n
  induction n using Nat.strong_induction_on generalizing nMid v s with
  | _ n ih =>
    have hstep := batch_pos T
    rw [readBatches]
    split
    · next hm =>
      dsimp only
      split
      · next hover =>
        rw [show n = (nSize - nMid) + 0 by omega, readElems_add]
        cases readElems c (nSize - nMid) v s with
        | error e => rfl
        | ok r =>
          simp only [bind, Except.bind]
          rw [ih _ (by omega) _ _ _ rfl, Nat.sub_self]
      · next hover =>
        rw [show n = (nMid + 5000000 / T.sizeofT - nMid) +
          (nSize - (nMid + 5000000 / T.sizeofT)) by omega, readElems_add]
        cases readElems c (nMid + 5000000 / T.sizeofT - nMid) v s with
        | error e => rfl
        | ok r =>
          simp only [bind, Except.bind]
          rw [ih _ (by omega) _ _ _ rfl]
    · next hm =>
      rw [show n = 0 by omega]
      rfl

theorem readElems_ser {α : Type} {c : ElemCodec α} (hc : c.RoundTrips) (xs : List α)
    (v : List α) (rest : List UInt8) :
    readElems c xs.length v ((xs.map c.ser).flatten ++ rest) = .ok (v ++ xs, rest) := by
  induction xs generalizing v with
  | nil => simp [readElems]
  | cons x xs ih =>
    simp only [List.length_cons, readElems, List.map_cons, List.flatten_cons, List.append_assoc,
      hc x, bind, Except.bind]
    rw [ih]
    simp

theorem ElemCodec.pair_roundTrips {K V : Type} {ck : ElemCodec K} {cv : ElemCodec V}
    (hk : ck.RoundTrips) (hv : cv.RoundTrips) : (ck.pair cv).RoundTrips := by
  intro e rest
  simp [ElemCodec.pair, List.append_assoc, hk e.1, hv e.2, bind, Except.bind]

theorem ElemCodec.pair_sizeAgrees {K V : Type} {ck : ElemCodec K} {cv : ElemCodec V}
    (hk : ck.SizeAgrees) (hv : cv.SizeAgrees) : (ck.pair cv).SizeAgrees := by
  intro e
  simp [ElemCodec.pair, hk e.1, hv e.2]

theorem readMapEntries_ser {K V : Type} [LinearOrder K] {ck : ElemCodec K} {cv : ElemCodec V}
    (hk : ck.RoundTrips) (hv : cv.RoundTrips) (es : List (K × V)) (m : StdMap K V)
    (sorted : (m.entries ++ es).Pairwise (fun a b => a.1 < b.1)) (rest : List UInt8) :
    readMapEntries ck cv es.length m ((es.map (ck.pair cv).ser).flatten ++ rest) =
      .ok (⟨m.entries ++ es, sorted⟩, rest) := by
  induction es generalizing m with
  | nil => simp only [List.append_nil]; rfl
  | cons e es ih =>
    have above : ∀ a ∈ m.entries, a.1 < e.1 :=
      fun a ha => (List.pairwise_append.mp sorted).2.2 a ha e (by simp)
    have hins : (m.insert e.1 e.2).entries = m.entries ++ [e] := StdMap.insertList_of_lt e.2 above
    have sorted' : ((m.insert e.1 e.2).entries ++ es).Pairwise (fun a b => a.1 < b.1) := by
      simpa [hins] using sorted
    simp only [List.length_cons, readMapEntries, List.map_cons, List.flatten_cons,
      List.append_assoc, ElemCodec.pair_roundTrips hk hv e, bind, Except.bind]
    rw [ih _ sorted']
    congr 2
    exact StdMap.ext (by simp [hins])

theorem readSetKeys_ser {K : Type} [LinearOrder K] {ck : ElemCodec K} (hk : ck.RoundTrips)
    (xs : List K) (m : StdSet K) (sorted : (m.keys ++ xs).Pairwise (· < ·)) (rest : List UInt8) :
    readSetKeys ck xs.length m ((xs.map ck.ser).flatten ++ rest) =
      .ok (⟨m.keys ++ xs, sorted⟩, rest) := by
  induction xs generalizing m with
  | nil => simp only [List.append_nil]; rfl
  | cons x xs ih =>
    have above : ∀ a ∈ m.keys, a < x :=
      fun a ha => (List.pairwise_append.mp sorted).2.2 a ha x (by simp)
    have hins : (m.insert x).keys = m.keys ++ [x] := StdSet.insertList_of_lt above
    have sorted' : ((m.insert x).keys ++ xs).Pairwise (· < ·) := by simpa [hins] using sorted
    simp only [List.length_cons, readSetKeys, List.map_cons, List.flatten_cons,
      List.append_assoc, hk x, bind, Except.bind]
    rw [ih _ sorted']
    congr 2
    exact StdSet.ext (by simp [hins])

theorem foldl_seek {α : Type} (f : α → Nat) (xs : List α) (s : CSizeComputer) :
    (xs.foldl (fun s x => s.seek (f x)) s).nSize = s.nSize + (xs.map f).sum := by
  induction xs generalizing s with
  | nil => simp
  | cons x xs ih =>
    simp only [List.foldl_cons, List.map_cons, List.sum_cons, ih]
    simp only [CSizeComputer.seek]
    omega

theorem sizeBlob_eq (v : List UInt8) : sizeBlob v = (serializeBlob v).length := by
  simp [sizeBlob, serializeBlob, CSizeComputer.writeCompactSize_eq_write, CSizeComputer.write]

theorem sizeElems_eq {α : Type} {c : ElemCodec α} (hc : c.SizeAgrees) (xs : List α) :
    sizeElems c xs = (serializeVector c xs).length := by
  have sizes : xs.map c.serSize = xs.map (fun x => (c.ser x).length) :=
    List.map_congr_left (fun x _ => hc x)
  simp [sizeElems, foldl_seek, CSizeComputer.writeCompactSize_eq_write, CSizeComputer.write,
    serializeVector, List.length_flatten, sizes, Function.comp_def]

theorem unserializeString_serializeBlob {str : List UInt8} (h : str.length ≤ maxSize)
    (rest : List UInt8) : unserializeString (serializeBlob str ++ rest) = .ok (str, rest) := by
  rw [unserializeString, serializeBlob, List.append_assoc, readCompactSize_length h]
  simp only [bind, Except.bind, toUInt32_ofNat_length h]
  cases str with
  | nil => rfl
  | cons b bs =>
    have hr := streamRead_append (b :: bs) rest
    simp only [List.length_cons, List.cons_append] at hr
    simp [hr]

theorem unserializeBytes_serializeBlob {v : List UInt8} (h : v.length ≤ maxSize)
    (rest : List UInt8) : unserializeBytes (serializeBlob v ++ rest) = .ok (v, rest) := by
  rw [unserializeBytes, serializeBlob, List.append_assoc, readCompactSize_length h]
  simp only [bind, Except.bind, toUInt32_ofNat_length h, readByteChunks_eq, Nat.sub_zero]
  cases v with
  | nil => simp [streamRead, Except.map]
  | cons b bs =>
    have hr := streamRead_append (b :: bs) rest
    simp only [List.length_cons, List.cons_append] at hr
    simp [hr, Except.map]

theorem unserializeVector_serializeVector {α : Type} {c : ElemCodec α} (hc : c.RoundTrips)
    (T : ElemSize) {xs : List α} (h : xs.length ≤ maxSize) (rest : List UInt8) :
    unserializeVector c T (serializeVector c xs ++ rest) = .ok (xs, rest) := by
  rw [unserializeVector, serializeVector, List.append_assoc, readCompactSize_length h]
  simp only [bind, Except.bind, toUInt32_ofNat_length h, readBatches_eq, Nat.sub_zero]
  simpa using readElems_ser hc xs [] rest

theorem unserializeMap_serializeMap {K V : Type} [LinearOrder K] {ck : ElemCodec K}
    {cv : ElemCodec V} (hk : ck.RoundTrips) (hv : cv.RoundTrips) {m : StdMap K V}
    (h : m.entries.length ≤ maxSize) (rest : List UInt8) :
    unserializeMap ck cv (serializeMap ck cv m ++ rest) = .ok (m, rest) := by
  rw [unserializeMap, serializeMap, List.append_assoc, readCompactSize_length h]
  simp only [bind, Except.bind, toUInt32_ofNat_length h]
  rw [readMapEntries_ser hk hv m.entries StdMap.empty (by simpa [StdMap.empty] using m.sorted)]
  congr 2

theorem unserializeSet_serializeSet {K : Type} [LinearOrder K] {ck : ElemCodec K}
    (hk : ck.RoundTrips) {m : StdSet K} (h : m.keys.length ≤ maxSize) (rest : List UInt8) :
    unserializeSet ck (serializeSet ck m ++ rest) = .ok (m, rest) := by
  rw [unserializeSet, serializeSet, List.append_assoc, readCompactSize_length h]
  simp only [bind, Except.bind, toUInt32_ofNat_length h]
  rw [readSetKeys_ser hk m.keys StdSet.empty (by simpa [StdSet.empty] using m.sorted)]
  congr 2

theorem unserializeLimitedString_serializeBlob {Limit : Nat} {str : List UInt8}
    (hl : str.length ≤ Limit) (h : str.length ≤ maxSize) (rest : List UInt8) :
    unserializeLimitedString Limit (serializeBlob str ++ rest) = .ok (str, rest) := by
  rw [unserializeLimitedString, serializeBlob, List.append_assoc, readCompactSize_length h]
  simp only [bind, Except.bind, toNat_ofNat_length h, gt_iff_lt, not_lt.mpr hl, if_false]
  cases str with
  | nil => rfl
  | cons b bs =>
    have hr := streamRead_append (b :: bs) rest
    simp only [List.length_cons, List.cons_append] at hr
    simp [hr]

theorem unserializeLimitedString_limit (Limit : Nat) {s rest : List UInt8} {d : UInt64}
    (h : readCompactSize s = .ok (d, rest)) :
    unserializeLimitedString Limit s = .error "String length limit exceeded" ↔ Limit < d.toNat := by
  rw [unserializeLimitedString, h]
  simp only [bind, Except.bind, gt_iff_lt]
  split_ifs with hlim hz
  · simp [hlim]
  · simp only [hlim, iff_false]
    unfold streamRead
    split <;> simp
  · simp [hlim]

/-- `Serialize(uint32_t)` and `Unserialize(uint32_t&)`: `ser_writedata32`, `ser_readdata32`. -/
def uint32Codec : ElemCodec UInt32 where
  ser := serWritedata32
  unser s := (serReaddata32 s).map fun r => (UInt32.ofNat r.1, r.2)
  serSize _ := 4

theorem uint32Codec_roundTrips : uint32Codec.RoundTrips := by
  intro x rest
  have hx : x.toNat % 256 ^ 4 = x.toNat := Nat.mod_eq_of_lt x.toNat_lt_size
  have hof : UInt32.ofNat x.toNat = x := by cases x; simp [UInt32.ofNat, UInt32.toNat]
  simp only [uint32Codec, serWritedata32, serReaddata32, serReaddata_leBytes, hx, Except.map, hof]

theorem uint32Codec_sizeAgrees : uint32Codec.SizeAgrees := fun x => by
  simp [uint32Codec, serWritedata32]

/-- The container codecs round-trip within `MAX_SIZE`, and the chunked readers agree with one-pass
reads. -/
theorem container_codecs :
    (∀ str rest : List UInt8, str.length ≤ maxSize →
      unserializeString (serializeBlob str ++ rest) = .ok (str, rest) ∧
      unserializeBytes (serializeBlob str ++ rest) = .ok (str, rest) ∧
      sizeBlob str = (serializeBlob str).length) ∧
    (∀ (nSize : Nat) (s : List UInt8), readByteChunks nSize 0 [] s = streamRead nSize s) ∧
    (∀ (α : Type) (c : ElemCodec α) (T : ElemSize), c.RoundTrips → c.SizeAgrees →
      (∀ (xs : List α) (rest : List UInt8), xs.length ≤ maxSize →
        unserializeVector c T (serializeVector c xs ++ rest) = .ok (xs, rest) ∧
        sizeElems c xs = (serializeVector c xs).length) ∧
      ∀ (nSize : Nat) (s : List UInt8), readBatches c T nSize 0 [] s = readElems c nSize [] s) ∧
    (∀ (K V : Type) [LinearOrder K] (ck : ElemCodec K) (cv : ElemCodec V),
      ck.RoundTrips → cv.RoundTrips → ck.SizeAgrees → cv.SizeAgrees →
      ∀ (m : StdMap K V) (rest : List UInt8), m.entries.length ≤ maxSize →
        unserializeMap ck cv (serializeMap ck cv m ++ rest) = .ok (m, rest) ∧
        sizeElems (ck.pair cv) m.entries = (serializeMap ck cv m).length) ∧
    (∀ (K : Type) [LinearOrder K] (ck : ElemCodec K), ck.RoundTrips → ck.SizeAgrees →
      ∀ (m : StdSet K) (rest : List UInt8), m.keys.length ≤ maxSize →
        unserializeSet ck (serializeSet ck m ++ rest) = .ok (m, rest) ∧
        sizeElems ck m.keys = (serializeSet ck m).length) ∧
    (∀ (Limit : Nat) (str rest : List UInt8), str.length ≤ Limit → str.length ≤ maxSize →
      unserializeLimitedString Limit (serializeBlob str ++ rest) = .ok (str, rest)) ∧
    (∀ (Limit : Nat) (s rest : List UInt8) (d : UInt64), readCompactSize s = .ok (d, rest) →
      (unserializeLimitedString Limit s = .error "String length limit exceeded" ↔
        Limit < d.toNat)) := by
  refine ⟨fun str rest h => ⟨unserializeString_serializeBlob h rest,
      unserializeBytes_serializeBlob h rest, sizeBlob_eq str⟩,
    fun nSize s => ?_,
    fun α c T hc hs => ⟨fun xs rest h => ⟨unserializeVector_serializeVector hc T h rest,
      sizeElems_eq hs xs⟩, fun nSize s => readBatches_eq c T nSize 0 [] s⟩,
    fun K V _ ck cv hk hv hks hvs m rest h => ⟨unserializeMap_serializeMap hk hv h rest,
      sizeElems_eq (ElemCodec.pair_sizeAgrees hks hvs) m.entries⟩,
    fun K _ ck hk hks m rest h => ⟨unserializeSet_serializeSet hk h rest, sizeElems_eq hks m.keys⟩,
    fun Limit str rest hl h => unserializeLimitedString_serializeBlob hl h rest,
    fun Limit s rest d h => unserializeLimitedString_limit Limit h⟩
  rw [readByteChunks_eq, Nat.sub_zero]
  cases streamRead nSize s <;> rfl

theorem container_codecs_uint32_vector :
    unserializeVector uint32Codec ⟨4, by decide, by decide⟩
        (serializeVector uint32Codec [7, 0xFFFFFFFF] ++ [1]) = .ok ([7, 0xFFFFFFFF], [1]) ∧
      unserializeLimitedString 2 (serializeBlob [5, 6] ++ []) = .ok ([5, 6], []) :=
  ⟨((container_codecs.2.2.1 UInt32 uint32Codec ⟨4, by decide, by decide⟩ uint32Codec_roundTrips
      uint32Codec_sizeAgrees).1 [7, 0xFFFFFFFF] [1] (by decide)).1,
    container_codecs.2.2.2.2.2.1 2 [5, 6] [] (by decide) (by decide)⟩

end GridcoinWallet
