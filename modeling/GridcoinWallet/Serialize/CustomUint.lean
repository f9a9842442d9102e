import GridcoinWallet.Serialize.CompactSize

namespace GridcoinWallet

theorem leBytes_add (m n x : Nat) : leBytes (m + n) x = leBytes m x ++ leBytes n (x / 256 ^ m) := by
  induction m generalizing x with
  | zero => simp [leBytes]
  | succ m ih =>
    rw [Nat.add_right_comm, leBytes, ih, leBytes, List.cons_append, Nat.div_div_eq_div_mul, pow_succ']

theorem leValue_append (a b : List UInt8) : leValue (a ++ b) = leValue a + 256 ^ a.length * leValue b := by
  induction a with
  | nil => simp [leValue]
  | cons c a ih =>
    rw [List.cons_append, leValue, ih, leValue, List.length_cons, pow_succ', Nat.mul_add, Nat.mul_assoc,
      Nat.add_assoc]

theorem leValue_replicate_zero (n : Nat) : leValue (List.replicate n 0) = 0 := by
  induction n with
  | zero => rfl
  | succ n ih => simp [List.replicate_succ, leValue, ih]

/-- A CustomUintFormatter<Bytes, BigEndian> instance, with the width its static_assert admits. -/
structure CustomUintFormatter where
  Bytes : Nat
  BigEndian : Bool
  bytes_pos : 0 < Bytes
  bytes_le : Bytes ≤ 8

namespace CustomUintFormatter

variable (F : CustomUintFormatter)

/-- MAX: all ones shifted right by the unused bytes of a uint64_t. -/
def MAX : Nat := 0xffffffffffffffff >>> (8 * (8 - F.Bytes))

/-- Ser: the range check, then the bytes of the 8-byte buffer htobe64 or htole64 fills: its last
`Bytes` bytes for big endian, its first `Bytes` for little endian. -/
def ser (v : Int) : Except String (List UInt8) :=
  if v < 0 ∨ (F.MAX : Int) < v then .error "CustomUintFormatter value out of range"
  else if F.BigEndian then .ok ((leBytes 8 v.toNat).reverse.drop (8 - F.Bytes))
  else .ok ((leBytes 8 v.toNat).take F.Bytes)

/-- Unser: `Bytes` bytes read into a zeroed 8-byte buffer, at its end for big endian and at its
start for little endian, then be64toh or le64toh. -/
def unser (s : List UInt8) : Except String (Nat × List UInt8) :=
  (streamRead F.Bytes s).map fun r =>
    if F.BigEndian then (leValue (List.replicate (8 - F.Bytes) 0 ++ r.1).reverse, r.2)
    else (leValue (r.1 ++ List.replicate (8 - F.Bytes) 0), r.2)

theorem MAX_eq : F.MAX = 2 ^ (8 * F.Bytes) - 1 := by
  obtain ⟨B, _, h1, h8⟩ := F
  unfold MAX
  dsimp only
  rcases (by omega : B = 1 ∨ B = 2 ∨ B = 3 ∨ B = 4 ∨ B = 5 ∨ B = 6 ∨ B = 7 ∨ B = 8) with
    rfl | rfl | rfl | rfl | rfl | rfl | rfl | rfl <;> rfl

theorem pow_bytes : 2 ^ (8 * F.Bytes) = 256 ^ F.Bytes := by
  rw [pow_mul]
  rfl

theorem ser_ok {n : Nat} (h : n ≤ F.MAX) :
    F.ser n = .ok (if F.BigEndian then (leBytes F.Bytes n).reverse else leBytes F.Bytes n) := by
  have hsplit := leBytes_add F.Bytes (8 - F.Bytes) n
  rw [Nat.add_sub_cancel' F.bytes_le] at hsplit
  have hrange : ¬((n : Int) < 0 ∨ (F.MAX : Int) < n) := by omega
  unfold ser
  rw [if_neg hrange, Int.toNat_ofNat, hsplit]
  split_ifs
  · rw [List.reverse_append, List.drop_left' (by simp)]
  · rw [List.take_left' (length_leBytes _ _)]

theorem unser_append {r : List UInt8} (hr : r.length = F.Bytes) (rest : List UInt8) :
    F.unser (r ++ rest) = .ok (if F.BigEndian then leValue r.reverse else leValue r, rest) := by
  have hread := streamRead_append r rest
  rw [hr] at hread
  unfold unser
  rw [hread]
  split_ifs <;> simp [Except.map, List.reverse_append, leValue_append, leValue_replicate_zero]

/-- CustomUintFormatter round-trips for every width and byte order. -/
theorem customUint_codec :
    F.MAX = 2 ^ (8 * F.Bytes) - 1 ∧
      (∀ v : Int, (∃ e, F.ser v = .error e) ↔ v < 0 ∨ ((2 ^ (8 * F.Bytes) - 1 : Nat) : Int) < v) ∧
      (∀ v : Int, 0 ≤ v → v ≤ ((2 ^ (8 * F.Bytes) - 1 : Nat) : Int) →
        ∃ bs, F.ser v = .ok bs ∧ bs.length = F.Bytes ∧ ∀ rest, F.unser (bs ++ rest) = .ok (v.toNat, rest)) ∧
      (∀ s : List UInt8, s.length = F.Bytes → ∃ v, F.unser s = .ok (v, []) ∧ F.ser v = .ok s) := by
  have hmax := F.MAX_eq
  have hmax' : F.MAX = 256 ^ F.Bytes - 1 := by rw [hmax, F.pow_bytes]
  have hpos : 0 < 256 ^ F.Bytes := Nat.pos_pow_of_pos _ (by decide)
  refine ⟨hmax, fun v => ?_, fun v h0 hv => ?_, fun s hs => ?_⟩
  · rw [← hmax]
    refine ⟨fun ⟨e, he⟩ => by_contra fun h => ?_, fun h => ⟨_, if_pos h⟩⟩
    unfold ser at he
    rw [if_neg h] at he
    split_ifs at he
  · obtain ⟨n, rfl⟩ := Int.eq_ofNat_of_zero_le h0
    rw [← hmax] at hv
    have hn : n ≤ F.MAX := by omega
    have hlt : n < 256 ^ F.Bytes := by omega
    refine ⟨_, F.ser_ok hn, by split_ifs <;> simp, fun rest => ?_⟩
    rw [F.unser_append (by split_ifs <;> simp) rest, Int.toNat_ofNat]
    split_ifs <;> simp [leValue_leBytes, Nat.mod_eq_of_lt hlt]
  · have hval : (if F.BigEndian then leValue s.reverse else leValue s) ≤ F.MAX := by
      have h1 := leValue_lt s
      have h2 := leValue_lt s.reverse
      rw [List.length_reverse, hs] at h2
      rw [hs] at h1
      split_ifs <;> omega
    refine ⟨_, by simpa using F.unser_append hs [], ?_⟩
    rw [F.ser_ok hval]
    split_ifs
    · rw [← hs, ← List.length_reverse, leBytes_leValue, List.reverse_reverse]
    · rw [← hs, leBytes_leValue]

end CustomUintFormatter

end GridcoinWallet
