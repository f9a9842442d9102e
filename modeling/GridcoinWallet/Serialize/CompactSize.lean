import Mathlib.Data.List.Basic
import Mathlib.Data.UInt

namespace GridcoinWallet

/-- `MAX_SIZE`, the largest length a reader accepts. -/
def maxSize : Nat := 0x02000000

/-- The `n` low-order bytes of `x`, least significant first: what `ser_writedata*` emits after
`htole*`. -/
def leBytes : Nat → Nat → List UInt8
  | 0, _ => []
  | n + 1, x => UInt8.ofNat (x % 256) :: leBytes n (x / 256)

/-- The number whose little-endian bytes are `bs`, as `le*toh` reads it. -/
def leValue : List UInt8 → Nat
  | [] => 0
  | b :: bs => b.toNat + 256 * leValue bs

def serWritedata8 (obj : UInt8) : List UInt8 := leBytes 1 obj.toNat

def serWritedata16 (obj : UInt16) : List UInt8 := leBytes 2 obj.toNat

def serWritedata32 (obj : UInt32) : List UInt8 := leBytes 4 obj.toNat

def serWritedata64 (obj : UInt64) : List UInt8 := leBytes 8 obj.toNat

/-- Modelled from the spec: the stream classes are not under src/. -/
def streamRead (n : Nat) (s : List UInt8) : Except String (List UInt8 × List UInt8) :=
  if n ≤ s.length then .ok (s.take n, s.drop n) else .error "end of data"

/-- `ser_readdata*`: read `n` bytes and decode them little-endian. -/
def serReaddata (n : Nat) (s : List UInt8) : Except String (Nat × List UInt8) :=
  (streamRead n s).map fun r => (leValue r.1, r.2)

def serReaddata8 (s : List UInt8) : Except String (Nat × List UInt8) := serReaddata 1 s

def serReaddata16 (s : List UInt8) : Except String (Nat × List UInt8) := serReaddata 2 s

def serReaddata32 (s : List UInt8) : Except String (Nat × List UInt8) := serReaddata 4 s

def serReaddata64 (s : List UInt8) : Except String (Nat × List UInt8) := serReaddata 8 s

def getSizeOfCompactSize (nSize : UInt64) : Nat :=
  if nSize.toNat < 253 then 1
  else if nSize.toNat ≤ 0xFFFF then 1 + 2
  else if nSize.toNat ≤ 0xFFFFFFFF then 1 + 4
  else 1 + 8

def writeCompactSize (nSize : UInt64) : List UInt8 :=
  if nSize.toNat < 253 then serWritedata8 nSize.toUInt8
  else if nSize.toNat ≤ 0xFFFF then serWritedata8 253 ++ serWritedata16 nSize.toUInt16
  else if nSize.toNat ≤ 0xFFFFFFFF then serWritedata8 254 ++ serWritedata32 nSize.toUInt32
  else serWritedata8 255 ++ serWritedata64 nSize

/-- The branch of `ReadCompactSize` after its first byte `chSize`, with its canonicity checks. -/
def compactSizeValue (chSize : Nat) (s : List UInt8) : Except String (Nat × List UInt8) :=
  if chSize < 253 then .ok (chSize, s)
  else if chSize = 253 then serReaddata16 s >>= fun r =>
    if r.1 < 253 then .error "non-canonical ReadCompactSize()" else .ok r
  else if chSize = 254 then serReaddata32 s >>= fun r =>
    if r.1 < 0x10000 then .error "non-canonical ReadCompactSize()" else .ok r
  else serReaddata64 s >>= fun r =>
    if r.1 < 0x100000000 then .error "non-canonical ReadCompactSize()" else .ok r

def readCompactSize (s : List UInt8) : Except String (UInt64 × List UInt8) :=
  serReaddata8 s >>= fun r => compactSizeValue r.1 r.2 >>= fun v =>
    if maxSize < v.1 then .error "ReadCompactSize(): size too large"
    else .ok (UInt64.ofNat v.1, v.2)

/-- `CSizeComputer`: a stream that only counts the bytes written to it. -/
structure CSizeComputer where
  nSize : Nat

def CSizeComputer.write (s : CSizeComputer) (src : List UInt8) : CSizeComputer :=
  ⟨s.nSize + src.length⟩

def CSizeComputer.seek (s : CSizeComputer) (n : Nat) : CSizeComputer := ⟨s.nSize + n⟩

/-- The `WriteCompactSize(CSizeComputer&, uint64_t)` overload. -/
def CSizeComputer.writeCompactSize (s : CSizeComputer) (nSize : UInt64) : CSizeComputer :=
  s.seek (getSizeOfCompactSize nSize)

@[simp] theorem length_leBytes (n x : Nat) : (leBytes n x).length = n := by
  induction n generalizing x <;> simp [leBytes, *]

theorem leValue_leBytes (n x : Nat) : leValue (leBytes n x) = x % 256 ^ n := by
  induction n generalizing x with
  | zero => simp [leBytes, leValue, Nat.mod_one]
  | succ n ih =>
    have hb : (UInt8.ofNat (x % 256)).toNat = x % 256 :=
      UInt8.toNat_ofNat_of_lt (Nat.mod_lt x (by decide))
    rw [leBytes, leValue, hb, ih, pow_succ', Nat.mod_mul]

theorem leValue_lt (bs : List UInt8) : leValue bs < 256 ^ bs.length := by
  induction bs with
  | nil => simp [leValue]
  | cons b bs ih =>
    have hb := b.toNat_lt_size
    simp only [leValue, List.length_cons, pow_succ']
    change b.toNat < 256 at hb
    omega

theorem leBytes_leValue (bs : List UInt8) : leBytes bs.length (leValue bs) = bs := by
  induction bs with
  | nil => rfl
  | cons b bs ih =>
    have hb := b.toNat_lt_size
    change b.toNat < 256 at hb
    have hmod : (b.toNat + 256 * leValue bs) % 256 = b.toNat := by omega
    have hdiv : (b.toNat + 256 * leValue bs) / 256 = leValue bs := by omega
    simp only [List.length_cons, leBytes, leValue, hmod, hdiv, ih, List.cons.injEq, and_true]
    cases b
    simp [UInt8.ofNat, UInt8.toNat]

theorem streamRead_append (bs rest : List UInt8) :
    streamRead bs.length (bs ++ rest) = .ok (bs, rest) := by
  simp [streamRead]

theorem serReaddata_leBytes (n x : Nat) (rest : List UInt8) :
    serReaddata n (leBytes n x ++ rest) = .ok (x % 256 ^ n, rest) := by
  have h := streamRead_append (leBytes n x) rest
  rw [length_leBytes] at h
  simp [serReaddata, h, Except.map, leValue_leBytes]

theorem serReaddata_ok {n v : Nat} {s rest : List UInt8} (h : serReaddata n s = .ok (v, rest)) :
    v < 256 ^ n ∧ s = leBytes n v ++ rest := by
  unfold serReaddata streamRead at h
  split at h
  · next hn =>
    simp only [Except.map, Except.ok.injEq, Prod.mk.injEq] at h
    obtain ⟨rfl, rfl⟩ := h
    have hl : (s.take n).length = n := List.length_take_of_le hn
    refine ⟨?_, ?_⟩
    · simpa only [hl] using leValue_lt (s.take n)
    conv_lhs => rw [← List.take_append_drop n s, ← leBytes_leValue (s.take n)]
    rw [hl]
  · simp [Except.map] at h

theorem except_bind_eq_ok {ε α β : Type} {x : Except ε α} {f : α → Except ε β} {b : β} :
    x >>= f = .ok b ↔ ∃ a, x = .ok a ∧ f a = .ok b := by
  cases x <;> simp [bind, Except.bind]

theorem toNat_toUInt8 (n : UInt64) : n.toUInt8.toNat = n.toNat % 256 := by
  simp [UInt64.toUInt8, Nat.toUInt8, UInt8.ofNat, UInt8.toNat, UInt64.toNat]

theorem toNat_toUInt16 (n : UInt64) : n.toUInt16.toNat = n.toNat % 65536 := by
  simp [UInt64.toUInt16, Nat.toUInt16, UInt16.ofNat, UInt16.toNat, UInt64.toNat]

theorem toNat_toUInt32 (n : UInt64) : n.toUInt32.toNat = n.toNat % 4294967296 := by
  simp [UInt64.toUInt32, Nat.toUInt32, UInt32.ofNat, UInt32.toNat, UInt64.toNat]

theorem ofNat_toNat (n : UInt64) : UInt64.ofNat n.toNat = n := by
  cases n; simp [UInt64.ofNat, UInt64.toNat]

theorem writeCompactSize_eq (n : UInt64) :
    writeCompactSize n =
      if n.toNat < 253 then leBytes 1 n.toNat
      else if n.toNat ≤ 0xFFFF then leBytes 1 253 ++ leBytes 2 n.toNat
      else if n.toNat ≤ 0xFFFFFFFF then leBytes 1 254 ++ leBytes 4 n.toNat
      else leBytes 1 255 ++ leBytes 8 n.toNat := by
  unfold writeCompactSize serWritedata8 serWritedata16 serWritedata32 serWritedata64
  simp only [toNat_toUInt8, toNat_toUInt16, toNat_toUInt32]
  split_ifs <;> first | rfl | (congr 2; omega)

theorem length_writeCompactSize (n : UInt64) :
    (writeCompactSize n).length = getSizeOfCompactSize n := by
  rw [writeCompactSize_eq, getSizeOfCompactSize]
  split_ifs <;> simp

theorem CSizeComputer.writeCompactSize_eq_write (s : CSizeComputer) (n : UInt64) :
    s.writeCompactSize n = s.write (GridcoinWallet.writeCompactSize n) := by
  simp [CSizeComputer.writeCompactSize, CSizeComputer.write, CSizeComputer.seek,
    length_writeCompactSize]

theorem readCompactSize_leBytes {c : Nat} (hc : c < 256) (t : List UInt8) :
    readCompactSize (leBytes 1 c ++ t) = compactSizeValue c t >>= fun v =>
      if maxSize < v.1 then .error "ReadCompactSize(): size too large"
      else .ok (UInt64.ofNat v.1, v.2) := by
  simp [readCompactSize, serReaddata8, serReaddata_leBytes, Nat.mod_eq_of_lt hc, bind,
    Except.bind]

theorem writeCompactSize_split (n : UInt64) (rest : List UInt8) :
    ∃ c t, writeCompactSize n ++ rest = leBytes 1 c ++ t ∧ c < 256 ∧
      compactSizeValue c t = .ok (n.toNat, rest) := by
  have hn := n.toNat_lt_size
  change n.toNat < 2 ^ 64 at hn
  have payload : ∀ k, n.toNat < 256 ^ k →
      serReaddata k (leBytes k n.toNat ++ rest) = .ok (n.toNat, rest) := fun k hk => by
    rw [serReaddata_leBytes, Nat.mod_eq_of_lt hk]
  rw [writeCompactSize_eq]
  split_ifs with h1 h2 h3
  · exact ⟨n.toNat, rest, rfl, by omega, by simp [compactSizeValue, h1]⟩
  · refine ⟨253, leBytes 2 n.toNat ++ rest, List.append_assoc _ _ _, by omega, ?_⟩
    simp [compactSizeValue, serReaddata16, payload 2 (by change n.toNat < 65536; omega), bind, Except.bind, h1]
  · refine ⟨254, leBytes 4 n.toNat ++ rest, List.append_assoc _ _ _, by omega, ?_⟩
    simp [compactSizeValue, serReaddata32, payload 4 (by change n.toNat < 4294967296; omega), bind, Except.bind]
    omega
  · refine ⟨255, leBytes 8 n.toNat ++ rest, List.append_assoc _ _ _, by omega, ?_⟩
    simp [compactSizeValue, serReaddata64, payload 8 hn, bind, Except.bind]
    omega

theorem readCompactSize_writeCompactSize (n : UInt64) (rest : List UInt8) :
    readCompactSize (writeCompactSize n ++ rest) =
      if maxSize < n.toNat then .error "ReadCompactSize(): size too large" else .ok (n, rest) := by
  obtain ⟨c, t, he, hc, hv⟩ := writeCompactSize_split n rest
  rw [he, readCompactSize_leBytes hc, hv]
  simp [bind, Except.bind, ofNat_toNat]

theorem compactSizeValue_payload {n low v : Nat} {t rest : List UInt8}
    (h : (serReaddata n t >>= fun r =>
      if r.1 < low then (.error "non-canonical ReadCompactSize()" : Except String _)
      else .ok r) = .ok (v, rest)) :
    low ≤ v ∧ v < 256 ^ n ∧ t = leBytes n v ++ rest := by
  obtain ⟨⟨w, r⟩, hw, h⟩ := except_bind_eq_ok.mp h
  split at h
  · cases h
  obtain ⟨rfl, rfl⟩ := Prod.mk.inj (Except.ok.inj h)
  obtain ⟨hb, rfl⟩ := serReaddata_ok hw
  exact ⟨by omega, hb, rfl⟩

theorem readCompactSize_canonical {s rest : List UInt8} {m : UInt64}
    (h : readCompactSize s = .ok (m, rest)) : s = writeCompactSize m ++ rest := by
  obtain ⟨⟨c, t⟩, h8, hrest⟩ := except_bind_eq_ok.mp h
  obtain ⟨⟨v, rest'⟩, hv, hout⟩ := except_bind_eq_ok.mp hrest
  obtain ⟨hc, rfl⟩ := serReaddata_ok h8
  dsimp only at hout hv
  split at hout
  · cases hout
  next hmax =>
  obtain ⟨rfl, rfl⟩ := Prod.mk.inj (Except.ok.inj hout)
  have hm : (UInt64.ofNat v).toNat = v :=
    UInt64.toNat_ofNat_of_lt (by unfold maxSize at hmax; change v < 2 ^ 64; omega)
  rw [writeCompactSize_eq, hm]
  unfold compactSizeValue at hv
  split_ifs at hv with h1 h2 h3
  · obtain ⟨rfl, rfl⟩ := Prod.mk.inj (Except.ok.inj hv)
    simp [h1]
  · obtain ⟨hl, hb, rfl⟩ := compactSizeValue_payload hv
    simp [show ¬ v < 253 by omega, show v ≤ 65535 by omega, h2]
  · obtain ⟨hl, hb, rfl⟩ := compactSizeValue_payload hv
    simp [show ¬ v < 253 by omega, show ¬ v ≤ 65535 by omega, show v ≤ 4294967295 by omega, h3]
  · obtain ⟨hl, hb, rfl⟩ := compactSizeValue_payload hv
    have hc' : c = 255 := by change c < 256 at hc; omega
    simp [show ¬ v < 253 by omega, show ¬ v ≤ 65535 by omega, show ¬ v ≤ 4294967295 by omega, hc']

/-- The compact-size codec round-trips up to `MAX_SIZE` and reads only canonical encodings. -/
theorem compactSize_codec :
    (∀ n : UInt64, (writeCompactSize n).length = getSizeOfCompactSize n ∧
      ∀ s : CSizeComputer, s.writeCompactSize n = s.write (writeCompactSize n)) ∧
    (∀ (n : UInt64) (rest : List UInt8), n.toNat ≤ maxSize →
      readCompactSize (writeCompactSize n ++ rest) = .ok (n, rest)) ∧
    (∀ (n : UInt64) (rest : List UInt8), maxSize < n.toNat →
      readCompactSize (writeCompactSize n ++ rest) = .error "ReadCompactSize(): size too large") ∧
    (∀ (s rest : List UInt8) (m : UInt64), readCompactSize s = .ok (m, rest) →
      s = writeCompactSize m ++ rest) := by
  refine ⟨fun n => ⟨length_writeCompactSize n, fun s => s.writeCompactSize_eq_write n⟩,
    fun n rest h => ?_, fun n rest h => ?_, fun s rest m h => readCompactSize_canonical h⟩
  · simp [readCompactSize_writeCompactSize, show ¬ maxSize < n.toNat by omega]
  · simp [readCompactSize_writeCompactSize, h]

theorem compactSize_codec_boundaries :
    (readCompactSize (writeCompactSize 0xFFFF ++ [7]) = .ok (0xFFFF, [7]) ∧
      readCompactSize (writeCompactSize 0x02000001 ++ []) =
        .error "ReadCompactSize(): size too large") :=
  ⟨compactSize_codec.2.1 0xFFFF [7] (by decide),
    compactSize_codec.2.2.1 0x02000001 [] (by decide)⟩

example : writeCompactSize 0xFFFF = [253, 255, 255] := by decide

end GridcoinWallet
