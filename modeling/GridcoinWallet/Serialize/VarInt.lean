import GridcoinWallet.Serialize.CompactSize

namespace GridcoinWallet

/-- The integer type `I` of a `VarInt`: `sizeof(I)` and its signedness. -/
structure IntType where
  size : Nat
  signed : Bool
  size_pos : 0 < size

/-- `std::numeric_limits<I>::max()`. -/
def IntType.max (I : IntType) : Nat :=
  if I.signed then 2 ^ (8 * I.size - 1) - 1 else 2 ^ (8 * I.size) - 1

def getSizeOfVarInt (n : Nat) : Nat :=
  if n ≤ 0x7F then 1 else getSizeOfVarInt ((n >>> 7) - 1) + 1
termination_by n
decreasing_by rw [Nat.shiftRight_eq_div_pow]; omega

/-- `tmp[len] = (n & 0x7F) | (len ? 0x80 : 0x00)` in `WriteVarInt`. -/
def tmpDigit (n len : Nat) : UInt8 :=
  UInt8.ofNat ((n &&& 0x7F) ||| (if len ≠ 0 then 0x80 else 0x00))

/-- The first loop of `WriteVarInt`: the digits `tmp[len], tmp[len+1], ...` it stores from `n` on,
lowest digit first. -/
def writeVarIntTmp (n len : Nat) : List UInt8 :=
  if n ≤ 0x7F then [tmpDigit n len] else tmpDigit n len :: writeVarIntTmp ((n >>> 7) - 1) (len + 1)
termination_by n
decreasing_by rw [Nat.shiftRight_eq_div_pow]; omega

/-- `WriteVarInt`: the second loop emits `tmp[len]` down to `tmp[0]`. -/
def writeVarInt (n : Nat) : List UInt8 := (writeVarIntTmp n 0).reverse

/-- The loop of `ReadVarInt` with accumulator `n`; the first byte is `ser_readdata8`'s, and an empty
stream is the stream's end-of-data failure. -/
def readVarIntLoop (max : Nat) : Nat → List UInt8 → Except String (Nat × List UInt8)
  | _, [] => .error "end of data"
  | n, chData :: s =>
    if max >>> 7 < n then .error "ReadVarInt(): size too large"
    else
      let n := (n <<< 7) ||| (chData.toNat &&& 0x7F)
      if chData.toNat &&& 0x80 ≠ 0 then
        if n = max then .error "ReadVarInt(): size too large" else readVarIntLoop max (n + 1) s
      else .ok (n, s)

def readVarInt (I : IntType) (s : List UInt8) : Except String (Nat × List UInt8) :=
  readVarIntLoop I.max 0 s

def varIntValue : Nat → List UInt8 → Option (Nat × List UInt8)
  | _, [] => none
  | acc, b :: s =>
    if 128 ≤ b.toNat then varIntValue (acc * 128 + b.toNat % 128 + 1) s
    else some (acc * 128 + b.toNat, s)

theorem IntType.max_mod (I : IntType) : I.max % 128 = 127 := by
  have hs := I.size_pos
  have pow_mod : ∀ k, 7 ≤ k → (2 ^ k - 1) % 128 = 127 := fun k hk => by
    obtain ⟨j, rfl⟩ := Nat.exists_eq_add_of_le hk
    have hp : 0 < 2 ^ j := Nat.two_pow_pos j
    rw [pow_add]
    change (128 * 2 ^ j - 1) % 128 = 127
    omega
  unfold IntType.max
  split <;> exact pow_mod _ (by omega)

theorem tmpDigit_zero (n : Nat) : tmpDigit n 0 = UInt8.ofNat (n % 128) := by
  simp only [tmpDigit, ne_eq, not_true_eq_false, ite_false, Nat.or_zero]
  exact congrArg UInt8.ofNat (Nat.and_pow_two_sub_one_eq_mod n 7)

theorem tmpDigit_succ (n len : Nat) : tmpDigit n (len + 1) = UInt8.ofNat (n % 128 + 128) := by
  simp only [tmpDigit, ne_eq, Nat.add_one_ne_zero, not_false_eq_true, ite_true]
  have hand : n &&& 0x7F = n % 128 := Nat.and_pow_two_sub_one_eq_mod n 7
  have hor : 1 * 2 ^ 7 + n % 2 ^ 7 = 1 <<< 7 ||| n % 2 ^ 7 :=
    Nat.mul_add_lt_is_or (Nat.mod_lt n (Nat.two_pow_pos 7)) 1
  rw [hand, Nat.or_comm]
  exact congrArg UInt8.ofNat (by simpa [Nat.add_comm] using hor.symm)

theorem toNat_ofNat_byte {x : Nat} (h : x < 256) : (UInt8.ofNat x).toNat = x :=
  UInt8.toNat_ofNat_of_lt h

theorem readDigit (acc c : Nat) : (acc <<< 7) ||| (c &&& 0x7F) = acc * 128 + c % 128 := by
  rw [Nat.shiftLeft_eq, Nat.and_pow_two_sub_one_eq_mod c 7, Nat.mul_comm]
  exact (Nat.mul_add_lt_is_or (Nat.mod_lt c (by decide)) acc).symm

set_option maxRecDepth 4000 in
theorem continuation_iff (b : UInt8) : b.toNat &&& 0x80 ≠ 0 ↔ 128 ≤ b.toNat := by
  have all : ∀ c < 256, (c &&& 128 ≠ 0 ↔ 128 ≤ c) := by decide
  exact all _ b.toNat_lt_size

theorem writeVarIntTmp_eq (n len : Nat) :
    writeVarIntTmp n len = tmpDigit n len ::
      if n ≤ 0x7F then [] else writeVarIntTmp (n / 128 - 1) (len + 1) := by
  rw [writeVarIntTmp, Nat.shiftRight_eq_div_pow]
  split <;> rfl

theorem writeVarIntTmp_succ (n len : Nat) : writeVarIntTmp n (len + 1) = writeVarIntTmp n 1 := by
  induction n using Nat.strong_induction_on generalizing len with
  | _ n ih =>
    rw [writeVarIntTmp_eq, writeVarIntTmp_eq n 1, tmpDigit_succ, tmpDigit_succ]
    split
    · rfl
    · rw [ih _ (by omega) (len + 1), ih _ (by omega) 1]

def contBytes (m : Nat) : List UInt8 := (writeVarIntTmp m 1).reverse

theorem contBytes_eq (m : Nat) :
    contBytes m = if m ≤ 0x7F then [UInt8.ofNat (m % 128 + 128)]
      else contBytes (m / 128 - 1) ++ [UInt8.ofNat (m % 128 + 128)] := by
  rw [contBytes, writeVarIntTmp_eq, tmpDigit_succ]
  split <;> simp [contBytes, writeVarIntTmp_succ]

theorem writeVarInt_eq (n : Nat) :
    writeVarInt n = if n ≤ 0x7F then [UInt8.ofNat n]
      else contBytes (n / 128 - 1) ++ [UInt8.ofNat (n % 128)] := by
  rw [writeVarInt, writeVarIntTmp_eq, tmpDigit_zero]
  split
  · next h => simp [Nat.mod_eq_of_lt (show n < 128 by omega)]
  · simp [contBytes, writeVarIntTmp_succ]

theorem getSizeOfVarInt_eq (n : Nat) :
    getSizeOfVarInt n = if n ≤ 0x7F then 1 else getSizeOfVarInt (n / 128 - 1) + 1 := by
  rw [getSizeOfVarInt, Nat.shiftRight_eq_div_pow]

theorem length_writeVarIntTmp (n len : Nat) :
    (writeVarIntTmp n len).length = getSizeOfVarInt n := by
  induction n using Nat.strong_induction_on generalizing len with
  | _ n ih =>
    rw [writeVarIntTmp_eq, getSizeOfVarInt_eq]
    split
    · rfl
    · rw [List.length_cons, ih (n / 128 - 1) (by omega) (len + 1)]

theorem length_writeVarInt (n : Nat) : (writeVarInt n).length = getSizeOfVarInt n := by
  simp [writeVarInt, length_writeVarIntTmp]

theorem getSizeOfVarInt_le {k : Nat} (hk : 0 < k) {n : Nat} (h : n < 2 ^ (7 * k)) :
    getSizeOfVarInt n ≤ k := by
  induction k generalizing n with
  | zero => omega
  | succ k ih =>
    rw [getSizeOfVarInt_eq]
    split
    · omega
    · have hk' : 0 < k := by
        rcases Nat.eq_zero_or_pos k with rfl | hk'
        · simp at h; omega
        · exact hk'
      have hq : n / 128 - 1 < 2 ^ (7 * k) := by
        rw [Nat.mul_succ, pow_add] at h
        change n < 2 ^ (7 * k) * 128 at h
        omega
      have := ih hk' hq
      omega

theorem getSizeOfVarInt_le_buffer (I : IntType) {n : Nat} (h : n ≤ I.max) :
    getSizeOfVarInt n ≤ (8 * I.size + 6) / 7 := by
  have hs := I.size_pos
  apply getSizeOfVarInt_le (by omega)
  have hmax : I.max < 2 ^ (8 * I.size) := by
    have hp : 0 < 2 ^ (8 * I.size - 1) := Nat.two_pow_pos _
    have hq : 2 ^ (8 * I.size - 1) ≤ 2 ^ (8 * I.size) := Nat.pow_le_pow_right (by decide) (by omega)
    unfold IntType.max
    split <;> omega
  calc n ≤ I.max := h
    _ < 2 ^ (8 * I.size) := hmax
    _ ≤ 2 ^ (7 * ((8 * I.size + 6) / 7)) := Nat.pow_le_pow_right (by decide) (by omega)

theorem varIntValue_contBytes (m : Nat) (tail : List UInt8) :
    varIntValue 0 (contBytes m ++ tail) = varIntValue (m + 1) tail := by
  induction m using Nat.strong_induction_on generalizing tail with
  | _ m ih =>
    rw [contBytes_eq]
    split
    · next h =>
      have hb := toNat_ofNat_byte (show m % 128 + 128 < 256 by omega)
      simp only [List.singleton_append, varIntValue, hb]
      rw [if_pos (by omega)]
      congr 1
      omega
    · next h =>
      have hb := toNat_ofNat_byte (show m % 128 + 128 < 256 by omega)
      rw [List.append_assoc, ih _ (by omega)]
      simp only [List.singleton_append, varIntValue, hb]
      rw [if_pos (by omega)]
      congr 1
      omega

theorem varIntValue_writeVarInt (n : Nat) (rest : List UInt8) :
    varIntValue 0 (writeVarInt n ++ rest) = some (n, rest) := by
  rw [writeVarInt_eq]
  split
  · next h =>
    have hb := toNat_ofNat_byte (show n < 256 by omega)
    simp [varIntValue, hb, show ¬ 128 ≤ n by omega]
  · next h =>
    have hb := toNat_ofNat_byte (show n % 128 < 256 by omega)
    rw [List.append_assoc, varIntValue_contBytes]
    simp only [List.singleton_append, varIntValue, hb]
    rw [if_neg (by omega)]
    congr 2
    omega

theorem varIntValue_ge {acc : Nat} {s rest : List UInt8} {v : Nat}
    (h : varIntValue acc s = some (v, rest)) : acc * 128 ≤ v := by
  induction s generalizing acc with
  | nil => simp [varIntValue] at h
  | cons b s ih =>
    simp only [varIntValue] at h
    split at h
    · have := ih h
      omega
    · simp only [Option.some.injEq, Prod.mk.injEq] at h
      omega

theorem readVarIntLoop_of_value {max : Nat} (hmax : max % 128 = 127) {acc : Nat}
    {s rest : List UInt8} {v : Nat} (h : varIntValue acc s = some (v, rest)) :
    readVarIntLoop max acc s =
      if v ≤ max then .ok (v, rest) else .error "ReadVarInt(): size too large" := by
  induction s generalizing acc with
  | nil => simp [varIntValue] at h
  | cons b s ih =>
    have hge := varIntValue_ge h
    have hb := b.toNat_lt_size
    change b.toNat < 256 at hb
    simp only [varIntValue] at h
    simp only [readVarIntLoop, readDigit, continuation_iff, Nat.shiftRight_eq_div_pow]
    by_cases hover : max / 2 ^ 7 < acc
    · change max / 128 < acc at hover
      rw [if_pos (by exact hover), if_neg (by omega)]
    · change ¬ max / 128 < acc at hover
      rw [if_neg (by exact hover)]
      split at h
      · next hc =>
        rw [if_pos hc]
        have hnext := varIntValue_ge h
        by_cases heq : acc * 128 + b.toNat % 128 = max
        · rw [if_pos heq, if_neg (by omega)]
        · rw [if_neg heq, ih h]
      · next hc =>
        simp only [Option.some.injEq, Prod.mk.injEq] at h
        obtain ⟨rfl, rfl⟩ := h
        rw [if_neg hc, Nat.mod_eq_of_lt (show b.toNat < 128 by omega), if_pos (by omega)]

theorem readVarIntLoop_of_none {max acc : Nat} {s : List UInt8} (h : varIntValue acc s = none) :
    ∃ e, readVarIntLoop max acc s = .error e := by
  induction s generalizing acc with
  | nil => exact ⟨_, rfl⟩
  | cons b s ih =>
    simp only [varIntValue] at h
    simp only [readVarIntLoop, readDigit, continuation_iff]
    split
    · exact ⟨_, rfl⟩
    split at h
    · next hc =>
      rw [if_pos hc]
      split
      · exact ⟨_, rfl⟩
      · exact ih h
    · cases h

def readPrefix (acc : Nat) : List UInt8 := if acc = 0 then [] else contBytes (acc - 1)

theorem ofNat_toNat_byte (b : UInt8) : UInt8.ofNat b.toNat = b := by
  cases b; simp [UInt8.ofNat, UInt8.toNat]

theorem readPrefix_append_digit (acc : Nat) {b : UInt8} (hc : 128 ≤ b.toNat) :
    readPrefix acc ++ [b] = contBytes (acc * 128 + b.toNat % 128) := by
  have hb := b.toNat_lt_size
  change b.toNat < 256 at hb
  have hbyte : UInt8.ofNat ((acc * 128 + b.toNat % 128) % 128 + 128) = b := by
    rw [show (acc * 128 + b.toNat % 128) % 128 + 128 = b.toNat by omega, ofNat_toNat_byte]
  rw [contBytes_eq, hbyte, readPrefix]
  by_cases h0 : acc = 0
  · simp [h0, show b.toNat % 128 ≤ 127 by omega]
  · rw [if_neg h0, if_neg (by omega), show (acc * 128 + b.toNat % 128) / 128 = acc by omega]

theorem varIntValue_canonical {acc : Nat} {s rest : List UInt8} {v : Nat}
    (h : varIntValue acc s = some (v, rest)) : readPrefix acc ++ s = writeVarInt v ++ rest := by
  induction s generalizing acc with
  | nil => simp [varIntValue] at h
  | cons b s ih =>
    simp only [varIntValue] at h
    split at h
    · next hc =>
      have step : readPrefix (acc * 128 + b.toNat % 128 + 1) = readPrefix acc ++ [b] := by
        rw [readPrefix_append_digit acc hc, readPrefix, if_neg (by omega), Nat.add_sub_cancel]
      rw [← ih h, step, List.append_assoc, List.singleton_append]
    · next hc =>
      simp only [Option.some.injEq, Prod.mk.injEq] at h
      obtain ⟨rfl, rfl⟩ := h
      have hbyte : UInt8.ofNat ((acc * 128 + b.toNat) % 128) = b := by
        rw [show (acc * 128 + b.toNat) % 128 = b.toNat by omega, ofNat_toNat_byte]
      rw [writeVarInt_eq, readPrefix]
      by_cases h0 : acc = 0
      · simp [h0, show b.toNat ≤ 127 by omega, ofNat_toNat_byte]
      · rw [if_neg h0, if_neg (by omega), hbyte, List.append_assoc,
          show (acc * 128 + b.toNat) / 128 = acc by omega, List.singleton_append]

/-- The `VarInt` codec round-trips for every integer type and reads only canonical encodings. -/
theorem varInt_codec (I : IntType) :
    (∀ n, n ≤ I.max →
      (writeVarInt n).length = getSizeOfVarInt n ∧ getSizeOfVarInt n ≤ (8 * I.size + 6) / 7 ∧
      ∀ rest, readVarInt I (writeVarInt n ++ rest) = .ok (n, rest)) ∧
    (∀ s : List UInt8,
      (∀ v rest, varIntValue 0 s = some (v, rest) →
        readVarInt I s = if v ≤ I.max then .ok (v, rest)
          else .error "ReadVarInt(): size too large") ∧
      (varIntValue 0 s = none → ∃ e, readVarInt I s = .error e)) ∧
    (∀ s rest m, readVarInt I s = .ok (m, rest) → s = writeVarInt m ++ rest) := by
  refine ⟨fun n hn => ⟨length_writeVarInt n, getSizeOfVarInt_le_buffer I hn, fun rest => ?_⟩,
    fun s => ⟨fun v rest h => readVarIntLoop_of_value I.max_mod h,
      fun h => readVarIntLoop_of_none h⟩, fun s rest m h => ?_⟩
  · rw [readVarInt, readVarIntLoop_of_value I.max_mod (varIntValue_writeVarInt n rest), if_pos hn]
  · cases hv : varIntValue 0 s with
    | none =>
      obtain ⟨e, he⟩ := @readVarIntLoop_of_none I.max _ _ hv
      rw [readVarInt, he] at h
      cases h
    | some r =>
      obtain ⟨v, r⟩ := r
      rw [readVarInt, readVarIntLoop_of_value I.max_mod hv] at h
      split at h
      · obtain ⟨rfl, rfl⟩ := Prod.mk.inj (Except.ok.inj h)
        simpa [readPrefix] using varIntValue_canonical hv
      · cases h

theorem varInt_codec_uint64_max :
    readVarInt ⟨8, false, by decide⟩ (writeVarInt (2 ^ 64 - 1) ++ []) = .ok (2 ^ 64 - 1, []) :=
  ((varInt_codec ⟨8, false, by decide⟩).1 (2 ^ 64 - 1) (by decide)).2.2 []

end GridcoinWallet
