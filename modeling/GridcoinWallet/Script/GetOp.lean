import GridcoinWallet.Serialize.CompactSize

namespace GridcoinWallet

/-- The opcodetype values the script code tests against. -/
def OP_PUSHDATA1 : Nat := 0x4c
def OP_PUSHDATA2 : Nat := 0x4d
def OP_PUSHDATA4 : Nat := 0x4e
def OP_16 : Nat := 0x60
def OP_INVALIDOPCODE : Nat := 0xff

/-- The `n` bytes of `S` from `pc` on: the range [pc, pc + n) the code copies. -/
def slice (S : List UInt8) (pc n : Nat) : List UInt8 := (S.drop pc).take n

theorem slice_append_length (pre x : List UInt8) (n : Nat) : slice (pre ++ x) pre.length n = x.take n := by
  simp [slice, List.drop_left]

/-- What GetOp2 leaves: its return value, the iterator `pc`, opcodeRet and *pvchRet; and, as ghost
state, the positions of the script the call dereferenced. -/
structure GetOpResult where
  ok : Bool
  pc : Nat
  opcodeRet : Nat
  vchRet : List UInt8
  reads : List Nat

/-- The length of the length field after an opcode: 1, 2 and 4 for the PUSHDATA opcodes, none
otherwise. -/
def headerLen (opcode : Nat) : Nat :=
  if opcode = OP_PUSHDATA1 then 1 else if opcode = OP_PUSHDATA2 then 2 else if opcode = OP_PUSHDATA4 then 4 else 0

/-- The length-class opcode of a push of `n` bytes, read off the size thresholds (the bytes
themselves are `CScript.pushHeader`). -/
def lengthClass (n : Nat) : Nat :=
  if n < OP_PUSHDATA1 then n else if n ≤ 0xff then OP_PUSHDATA1 else if n ≤ 0xffff then OP_PUSHDATA2 else OP_PUSHDATA4

theorem lengthClass_cases (n : Nat) :
    (n < OP_PUSHDATA1 ∧ lengthClass n = n ∧ headerLen n = 0) ∨
      (OP_PUSHDATA1 ≤ n ∧ n ≤ 0xff ∧ lengthClass n = OP_PUSHDATA1) ∨
      (0xff < n ∧ n ≤ 0xffff ∧ lengthClass n = OP_PUSHDATA2) ∨ (0xffff < n ∧ lengthClass n = OP_PUSHDATA4) := by
  unfold lengthClass headerLen
  simp only [OP_PUSHDATA1, OP_PUSHDATA2, OP_PUSHDATA4]
  split_ifs <;> omega

theorem lengthClass_le (n : Nat) : lengthClass n ≤ OP_PUSHDATA4 := by
  rcases lengthClass_cases n with ⟨h, hc, -⟩ | ⟨-, -, hc⟩ | ⟨-, -, hc⟩ | ⟨-, hc⟩ <;> rw [hc] <;>
    simp only [OP_PUSHDATA1, OP_PUSHDATA2, OP_PUSHDATA4] at * <;> omega

namespace CScript

/-- The length-class header CScript::operator<< writes before a byte vector of length `n`. -/
def pushHeader (n : Nat) : List UInt8 :=
  if n < OP_PUSHDATA1 then [UInt8.ofNat n]
  else if n ≤ 0xff then [UInt8.ofNat OP_PUSHDATA1, UInt8.ofNat n]
  else if n ≤ 0xffff then UInt8.ofNat OP_PUSHDATA2 :: leBytes 2 n
  else UInt8.ofNat OP_PUSHDATA4 :: leBytes 4 n

/-- CScript::operator<<(const std::vector<unsigned char>&). -/
def pushData (S b : List UInt8) : List UInt8 := S ++ (pushHeader b.length ++ b)

/-- CScript::operator<<(opcodetype): the opcode's byte, or the exception past 0xff. -/
def pushOpcode (S : List UInt8) (opcode : Nat) : Except String (List UInt8) :=
  if 0xff < opcode then .error "CScript::operator<<() : invalid opcode" else .ok (S ++ [UInt8.ofNat opcode])

/-- The operand length a push opcode announces and the length of its length field, read from `pc` on
(`none`: the field runs past the end). -/
def operandSize (S : List UInt8) (opcode pc : Nat) : Option (Nat × Nat) :=
  let field (k : Nat) : Option (Nat × Nat) :=
    if S.length - pc < k then none else some (leValue (slice S pc k), k)
  if opcode < OP_PUSHDATA1 then some (opcode, 0)
  else if opcode = OP_PUSHDATA1 then field 1
  else if opcode = OP_PUSHDATA2 then field 2
  else field 4

/-- CScript::GetOp2 at position `pc` of the script `S`. -/
def getOp2 (S : List UInt8) (pc : Nat) : GetOpResult :=
  if S.length ≤ pc then ⟨false, pc, OP_INVALIDOPCODE, [], []⟩
  else
    let opcode := (S.getD pc 0).toNat
    if opcode ≤ OP_PUSHDATA4 then
      match operandSize S opcode (pc + 1) with
      | none => ⟨false, pc + 1, OP_INVALIDOPCODE, [], [pc]⟩
      | some (nSize, k) =>
        let reads := pc :: List.range' (pc + 1) k
        if S.length - (pc + 1 + k) < nSize then ⟨false, pc + 1 + k, OP_INVALIDOPCODE, [], reads⟩
        else ⟨true, pc + 1 + k + nSize, opcode, slice S (pc + 1 + k) nSize,
          reads ++ List.range' (pc + 1 + k) nSize⟩
    else ⟨true, pc + 1, opcode, [], [pc]⟩

theorem operandSize_spec {S : List UInt8} {opcode pc nSize k : Nat}
    (h : operandSize S opcode pc = some (nSize, k)) (hop : opcode ≤ OP_PUSHDATA4) :
    k = headerLen opcode ∧ k ≤ S.length - pc ∧ (opcode < OP_PUSHDATA1 → nSize = opcode) := by
  unfold operandSize at h
  unfold headerLen
  simp only [OP_PUSHDATA1, OP_PUSHDATA2, OP_PUSHDATA4] at *
  split_ifs at h ⊢ <;> simp only [Option.some.injEq, Prod.mk.injEq, reduceCtorEq] at h <;> omega

theorem getOp2_bounds {S : List UInt8} {pc : Nat} (h : pc ≤ S.length) :
    (getOp2 S pc).pc ≤ S.length ∧ ∀ i ∈ (getOp2 S pc).reads, pc ≤ i ∧ i < S.length := by
  unfold getOp2
  by_cases hend : S.length ≤ pc
  · simp [hend, h]
  rw [if_neg hend]
  dsimp only
  by_cases hop : (S.getD pc 0).toNat ≤ OP_PUSHDATA4
  · rw [if_pos hop]
    rcases hsize : operandSize S (S.getD pc 0).toNat (pc + 1) with _ | ⟨nSize, k⟩
    · simp only [hsize, List.mem_singleton]
      exact ⟨by omega, fun i hi => by omega⟩
    · obtain ⟨-, hk, -⟩ := operandSize_spec hsize hop
      simp only [hsize]
      split_ifs <;> refine ⟨by dsimp only; omega, fun i hi => ?_⟩ <;>
        simp only [List.mem_cons, List.mem_append, List.mem_range'_1] at hi <;> omega
  · rw [if_neg hop]
    simp only [List.mem_singleton]
    exact ⟨by omega, fun i hi => by omega⟩

theorem lt_length_of_getOp2_ok {S : List UInt8} {pc : Nat} (hok : (getOp2 S pc).ok = true) :
    pc < S.length := by
  by_contra hend
  simp [getOp2, not_lt.mp hend] at hok

theorem getOp2_progress {S : List UInt8} {pc : Nat} (hok : (getOp2 S pc).ok = true) :
    pc < (getOp2 S pc).pc ∧ pc + 1 + headerLen (getOp2 S pc).opcodeRet ≤ (getOp2 S pc).pc ∧
      (getOp2 S pc).vchRet = slice S (pc + 1 + headerLen (getOp2 S pc).opcodeRet)
        ((getOp2 S pc).pc - (pc + 1 + headerLen (getOp2 S pc).opcodeRet)) := by
  have hend := lt_length_of_getOp2_ok hok
  unfold getOp2 at hok ⊢
  rw [if_neg (not_le.mpr hend)] at hok ⊢
  dsimp only at hok ⊢
  by_cases hop : (S.getD pc 0).toNat ≤ OP_PUSHDATA4
  · rw [if_pos hop] at hok ⊢
    rcases hsize : operandSize S (S.getD pc 0).toNat (pc + 1) with _ | ⟨nSize, k⟩
    · simp only [hsize, Bool.false_eq_true] at hok
    · obtain ⟨rfl, -, -⟩ := operandSize_spec hsize hop
      simp only [hsize] at hok ⊢
      split_ifs at hok ⊢
      dsimp only
      exact ⟨by omega, by omega, by rw [Nat.add_sub_cancel_left]⟩
  · rw [if_neg hop]
    have : headerLen (S.getD pc 0).toNat = 0 := by
      unfold headerLen
      simp only [OP_PUSHDATA1, OP_PUSHDATA2, OP_PUSHDATA4] at hop ⊢
      split_ifs <;> omega
    dsimp only
    simp only [this]
    exact ⟨by omega, le_rfl, by simp [slice]⟩

theorem operandSize_pushdata {S : List UInt8} {opcode pc : Nat} (h1 : OP_PUSHDATA1 ≤ opcode)
    (h4 : opcode ≤ OP_PUSHDATA4) :
    operandSize S opcode pc =
      if S.length - pc < headerLen opcode then none else some (leValue (slice S pc (headerLen opcode)), headerLen opcode) := by
  simp only [OP_PUSHDATA1, OP_PUSHDATA4] at h1 h4
  rcases (by omega : opcode = 76 ∨ opcode = 77 ∨ opcode = 78) with rfl | rfl | rfl <;> rfl

theorem pushHeader_eq {n : Nat} (hn : n < 2 ^ 32) :
    pushHeader n = UInt8.ofNat (lengthClass n) :: leBytes (headerLen (lengthClass n)) n := by
  unfold pushHeader
  rcases lengthClass_cases n with ⟨h1, hc, hk⟩ | ⟨h1, h2, hc⟩ | ⟨h1, h2, hc⟩ | ⟨h1, hc⟩ <;> rw [hc] <;>
    simp only [OP_PUSHDATA1, OP_PUSHDATA2, OP_PUSHDATA4] at *
  · simp [h1, hk, leBytes]
  · rw [if_neg (by omega), if_pos h2]
    simp [headerLen, OP_PUSHDATA1, leBytes, Nat.mod_eq_of_lt (by omega : n < 256)]
  · rw [if_neg (by omega), if_neg (by omega), if_pos h2]
    rfl
  · rw [if_neg (by omega), if_neg (by omega), if_neg (by omega)]
    rfl

theorem operandSize_leBytes (pre rest : List UInt8) {n : Nat} (hn : n < 2 ^ 32) :
    operandSize (pre ++ (leBytes (headerLen (lengthClass n)) n ++ rest)) (lengthClass n) pre.length =
      some (n, headerLen (lengthClass n)) := by
  rcases lengthClass_cases n with ⟨h1, hc, hk⟩ | hbig
  · rw [hc, hk]
    simp [operandSize, h1]
  have h1 : OP_PUSHDATA1 ≤ lengthClass n := by
    rcases hbig with ⟨-, -, hc⟩ | ⟨-, -, hc⟩ | ⟨-, hc⟩ <;> simp [hc, OP_PUSHDATA1, OP_PUSHDATA2, OP_PUSHDATA4]
  have hlt : n < 256 ^ headerLen (lengthClass n) := by
    rcases hbig with ⟨-, h2, hc⟩ | ⟨-, h2, hc⟩ | ⟨-, hc⟩ <;> simp [hc, headerLen, OP_PUSHDATA1, OP_PUSHDATA2, OP_PUSHDATA4] <;> omega
  rw [operandSize_pushdata h1 (lengthClass_le n), if_neg (by simp), slice_append_length,
    List.take_left' (length_leBytes _ n), leValue_leBytes, Nat.mod_eq_of_lt hlt]

theorem getOp2_pushData (pre b post : List UInt8) (hb : b.length < 2 ^ 32) :
    (getOp2 (pre ++ (pushHeader b.length ++ b ++ post)) pre.length).ok = true ∧
      (getOp2 (pre ++ (pushHeader b.length ++ b ++ post)) pre.length).pc =
        pre.length + (pushHeader b.length ++ b).length ∧
      (getOp2 (pre ++ (pushHeader b.length ++ b ++ post)) pre.length).opcodeRet = lengthClass b.length ∧
      (getOp2 (pre ++ (pushHeader b.length ++ b ++ post)) pre.length).vchRet = b := by
  have hc := lengthClass_le b.length
  have hc8 : (UInt8.ofNat (lengthClass b.length)).toNat = lengthClass b.length :=
    UInt8.toNat_ofNat_of_lt (by simp only [OP_PUSHDATA4] at hc; simp only [UInt8.size]; omega)
  have hS : pre ++ (pushHeader b.length ++ b ++ post) = pre ++ [UInt8.ofNat (lengthClass b.length)] ++
      (leBytes (headerLen (lengthClass b.length)) b.length ++ (b ++ post)) := by
    simp [pushHeader_eq hb]
  have hsize := operandSize_leBytes (pre ++ [UInt8.ofNat (lengthClass b.length)]) (b ++ post) hb
  have hlen : (pushHeader b.length ++ b).length = 1 + headerLen (lengthClass b.length) + b.length := by
    simp [pushHeader_eq hb]; omega
  rw [List.length_append, List.length_singleton] at hsize
  rw [hlen, hS]
  generalize UInt8.ofNat (lengthClass b.length) = x at hc8 hsize ⊢
  generalize lengthClass b.length = c at hc hc8 hsize ⊢
  generalize headerLen c = k at hsize ⊢
  have hget : (pre ++ [x] ++ (leBytes k b.length ++ (b ++ post))).getD pre.length 0 = x := by
    rw [List.append_assoc, List.getD_eq_getElem?_getD, List.getElem?_append_right le_rfl, Nat.sub_self]
    simp
  unfold getOp2
  rw [if_neg (by simp), hget, hc8, if_pos hc]
  dsimp only
  rw [hsize]
  dsimp only
  rw [if_neg (by simp; omega)]
  dsimp only
  have hpos : pre.length + 1 + k = (pre ++ [x] ++ leBytes k b.length).length := by simp; omega
  refine ⟨rfl, by omega, rfl, ?_⟩
  rw [hpos, ← List.append_assoc, slice_append_length, List.take_left' rfl]

theorem getOp2_opcode (pre post : List UInt8) {op : Nat} (h4 : OP_PUSHDATA4 < op) (hff : op ≤ 0xff) :
    getOp2 (pre ++ (UInt8.ofNat op :: post)) pre.length = ⟨true, pre.length + 1, op, [], [pre.length]⟩ := by
  have h8 : (UInt8.ofNat op).toNat = op := UInt8.toNat_ofNat_of_lt (by simp only [UInt8.size]; omega)
  have hget : (pre ++ (UInt8.ofNat op :: post)).getD pre.length 0 = UInt8.ofNat op := by
    rw [List.getD_eq_getElem?_getD, List.getElem?_append_right le_rfl, Nat.sub_self]
    simp
  unfold getOp2
  rw [if_neg (by simp), hget, h8, if_neg (not_le.mpr h4)]

theorem getOp2_end (S : List UInt8) : getOp2 S S.length = ⟨false, S.length, OP_INVALIDOPCODE, [], []⟩ := by
  simp [getOp2]

end CScript

/-- One piece a script is built from: a byte vector pushed with operator<<, or an opcode. -/
inductive ScriptItem
  | data (b : List UInt8)
  | opcode (op : Nat)

namespace ScriptItem

/-- The items the round trip covers: vectors shorter than 2^32 bytes, and opcodes past OP_PUSHDATA4
that fit a byte. -/
def Valid : ScriptItem → Prop
  | data b => b.length < 2 ^ 32
  | opcode op => OP_PUSHDATA4 < op ∧ op ≤ 0xff

instance : DecidablePred Valid
  | data b => inferInstanceAs (Decidable (b.length < 2 ^ 32))
  | opcode op => inferInstanceAs (Decidable (OP_PUSHDATA4 < op ∧ op ≤ 0xff))

def parsed : ScriptItem → Nat × List UInt8
  | data b => (lengthClass b.length, b)
  | opcode op => (op, [])

end ScriptItem

namespace CScript

def appendItem (S : List UInt8) : ScriptItem → Except String (List UInt8)
  | .data b => .ok (pushData S b)
  | .opcode op => pushOpcode S op

theorem appendItem_parse (S : List UInt8) {it : ScriptItem} (h : it.Valid) :
    ∃ enc, appendItem S it = .ok (S ++ enc) ∧ ∀ post,
      (getOp2 (S ++ (enc ++ post)) S.length).ok = true ∧
        (getOp2 (S ++ (enc ++ post)) S.length).pc = S.length + enc.length ∧
        ((getOp2 (S ++ (enc ++ post)) S.length).opcodeRet, (getOp2 (S ++ (enc ++ post)) S.length).vchRet) =
          it.parsed := by
  cases it with
  | data b =>
    refine ⟨pushHeader b.length ++ b, rfl, fun post => ?_⟩
    obtain ⟨hok, hpc, hop, hvch⟩ := getOp2_pushData S b post h
    exact ⟨hok, hpc, by rw [hop, hvch]; rfl⟩
  | opcode op =>
    refine ⟨[UInt8.ofNat op], if_neg (not_lt.mpr h.2), fun post => ?_⟩
    rw [List.singleton_append, getOp2_opcode S post h.1 h.2]
    exact ⟨rfl, rfl, rfl⟩

end CScript

end GridcoinWallet
