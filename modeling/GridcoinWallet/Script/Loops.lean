import GridcoinWallet.Script.GetOp

namespace GridcoinWallet

namespace CScript

/-- The loop every reader of a script runs, while (GetOp(pc, opcode, vch)). -/
def getOps (S : List UInt8) : (fuel pc : Nat) → Option (List (Nat × List UInt8) × Nat)
  | 0, _ => none
  | fuel + 1, pc =>
    let r := getOp2 S pc
    if r.ok then (getOps S fuel r.pc).map fun p => ((r.opcodeRet, r.vchRet) :: p.1, p.2)
    else some ([], r.pc)

/-- The loop of CScript::IsPushOnly from `pc` on (`none`: out of fuel). -/
def isPushOnlyLoop (S : List UInt8) : (fuel pc : Nat) → Option Bool
  | 0, _ => none
  | fuel + 1, pc =>
    if pc < S.length then
      let r := getOp2 S pc
      if !r.ok then some false
      else if OP_16 < r.opcodeRet then some false
      else isPushOnlyLoop S fuel r.pc
    else some true

/-- CScript::IsPushOnly, with one pass of fuel per byte. -/
def isPushOnly (S : List UInt8) : Option Bool := isPushOnlyLoop S (S.length + 1) 0

/-- The loop of CScript::ToString from `pc` on, given ValueString and GetOpName, which src/ declares
but does not define (`none`: out of fuel). -/
def toStringLoop (valueString : List UInt8 → String) (getOpName : Nat → String) (S : List UInt8)
    (fShort : Bool) : (fuel pc : Nat) → String → Option String
  | 0, _, _ => none
  | fuel + 1, pc, str =>
    if pc < S.length then
      let str := if str.isEmpty then str else str ++ " "
      let r := getOp2 S pc
      if !r.ok then some (str ++ "[error]")
      else
        let str := str ++ if r.opcodeRet ≤ OP_PUSHDATA4 then
          (if fShort then (valueString r.vchRet).take 10 else valueString r.vchRet) else getOpName r.opcodeRet
        toStringLoop valueString getOpName S fShort fuel r.pc str
    else some str

/-- CScript::ToString, with one pass of fuel per byte. -/
def toString (valueString : List UInt8 → String) (getOpName : Nat → String) (S : List UInt8)
    (fShort : Bool) : Option String :=
  toStringLoop valueString getOpName S fShort (S.length + 1) 0 ""

/-- The do-while loop of CScript::FindAndDelete from `pc` on. -/
def findAndDeleteLoop (S b : List UInt8) : (fuel pc : Nat) → List UInt8 → Nat → Option (Nat × List UInt8 × Nat)
  | 0, _, _, _ => none
  | fuel + 1, pc, result, nFound =>
    if b.length ≤ S.length - pc ∧ slice S pc b.length = b then
      findAndDeleteLoop S b fuel (pc + b.length) result (nFound + 1)
    else
      let r := getOp2 S pc
      if r.ok then findAndDeleteLoop S b fuel r.pc (result ++ slice S pc (r.pc - pc)) nFound
      else some (pc, result, nFound)

/-- CScript::FindAndDelete: the script after the call and the count it returns. -/
def findAndDelete (S b : List UInt8) : Option (List UInt8 × Nat) :=
  if b.isEmpty then some (S, 0)
  else (findAndDeleteLoop S b (S.length + 1) 0 [] 0).map fun r =>
    if 0 < r.2.2 then (r.2.1 ++ S.drop r.1, r.2.2) else (S, r.2.2)

theorem getOp2_ok_advances {S : List UInt8} {pc : Nat} (hok : (getOp2 S pc).ok = true) :
    pc < (getOp2 S pc).pc ∧ (getOp2 S pc).pc ≤ S.length :=
  ⟨(getOp2_progress hok).1, (getOp2_bounds (lt_length_of_getOp2_ok hok).le).1⟩

theorem isPushOnlyLoop_isSome (S : List UInt8) :
    ∀ fuel pc, S.length - pc < fuel → (isPushOnlyLoop S fuel pc).isSome
  | 0, _, h => absurd h (Nat.not_lt_zero _)
  | fuel + 1, pc, h => by
    unfold isPushOnlyLoop
    split_ifs with hlt
    · dsimp only
      by_cases hok : (getOp2 S pc).ok
      · have := getOp2_ok_advances hok
        simp only [hok, Bool.not_true, Bool.false_eq_true, ↓reduceIte]
        split_ifs
        · rfl
        · exact isPushOnlyLoop_isSome S fuel _ (by omega)
      · simp [hok]
    · rfl

theorem toStringLoop_isSome (valueString : List UInt8 → String) (getOpName : Nat → String)
    (S : List UInt8) (fShort : Bool) :
    ∀ fuel pc str, S.length - pc < fuel → (toStringLoop valueString getOpName S fShort fuel pc str).isSome
  | 0, _, _, h => absurd h (Nat.not_lt_zero _)
  | fuel + 1, pc, str, h => by
    unfold toStringLoop
    by_cases hlt : pc < S.length
    · rw [if_pos hlt]
      dsimp only
      by_cases hok : (getOp2 S pc).ok
      · have := getOp2_ok_advances hok
        simp only [hok, Bool.not_true, Bool.false_eq_true, ↓reduceIte]
        exact toStringLoop_isSome valueString getOpName S fShort fuel _ _ (by omega)
      · simp [hok]
    · rw [if_neg hlt]
      rfl

theorem findAndDeleteLoop_isSome (S b : List UInt8) (hb : b ≠ []) :
    ∀ fuel pc result nFound, pc ≤ S.length → S.length - pc < fuel →
      (findAndDeleteLoop S b fuel pc result nFound).isSome
  | 0, _, _, _, _, h => absurd h (Nat.not_lt_zero _)
  | fuel + 1, pc, result, nFound, hpc, h => by
    have hlen : 0 < b.length := List.length_pos.mpr hb
    unfold findAndDeleteLoop
    split_ifs with hmatch
    · exact findAndDeleteLoop_isSome S b hb fuel _ _ _ (by omega) (by omega)
    · dsimp only
      split_ifs with hok
      · have := getOp2_ok_advances hok
        exact findAndDeleteLoop_isSome S b hb fuel _ _ _ this.2 (by omega)
      · rfl

theorem foldlM_appendItem_parse : ∀ (items : List ScriptItem) (S : List UInt8), (∀ it ∈ items, it.Valid) →
    ∃ rest, items.foldlM appendItem S = .ok (S ++ rest) ∧ items.length ≤ rest.length ∧
      ∀ fuel, items.length < fuel →
        getOps (S ++ rest) fuel S.length = some (items.map ScriptItem.parsed, (S ++ rest).length) ∧
        isPushOnlyLoop (S ++ rest) fuel S.length = some (items.all fun it => decide (it.parsed.1 ≤ OP_16))
  | [], S, _ => by
    refine ⟨[], by rw [List.append_nil]; rfl, le_rfl, fun fuel hf => ?_⟩
    obtain ⟨fuel, rfl⟩ : ∃ f, fuel = f + 1 := ⟨fuel - 1, by simp at hf; omega⟩
    rw [List.append_nil]
    simp [getOps, isPushOnlyLoop, getOp2_end]
  | it :: items, S, h => by
    obtain ⟨enc, happ, hparse⟩ := appendItem_parse S (h it (List.mem_cons_self _ _))
    obtain ⟨rest, hfold, hlen, hloop⟩ :=
      foldlM_appendItem_parse items (S ++ enc) fun i hi => h i (List.mem_cons_of_mem _ hi)
    obtain ⟨hok, hpc, hval⟩ := hparse rest
    have henc : 0 < enc.length := by have := (getOp2_progress hok).1; omega
    have hS : S ++ enc ++ rest = S ++ (enc ++ rest) := List.append_assoc ..
    refine ⟨enc ++ rest, ?_, by simp; omega, fun fuel hf => ?_⟩
    · rw [List.foldlM_cons, happ, ← hS]
      exact hfold
    obtain ⟨fuel, rfl⟩ : ∃ f, fuel = f + 1 := ⟨fuel - 1, by simp at hf; omega⟩
    obtain ⟨hops, hpush⟩ := hloop fuel (by simp at hf; omega)
    rw [hS] at hops hpush
    have hpc' : (getOp2 (S ++ (enc ++ rest)) S.length).pc = (S ++ enc).length := by simp [hpc]
    have hop : (getOp2 (S ++ (enc ++ rest)) S.length).opcodeRet = it.parsed.1 := by rw [← hval]
    constructor
    · simp only [getOps, hok, ↓reduceIte, hpc', hops, Option.map_some', hval, List.map_cons]
    · unfold isPushOnlyLoop
      rw [if_pos (by simp; omega)]
      simp only [hok, hop, Bool.not_true, Bool.false_eq_true, ↓reduceIte, hpc', hpush, List.all_cons]
      by_cases h16 : OP_16 < it.parsed.1
      · simp [h16]
      · simp [h16, not_lt.mp h16]

theorem findAndDelete_isSome (S b : List UInt8) : (findAndDelete S b).isSome := by
  unfold findAndDelete
  split_ifs with hb
  · rfl
  · simpa using findAndDeleteLoop_isSome S b (by simpa using hb) _ 0 [] 0 (Nat.zero_le _) (by omega)

/-- Items written with operator<< read back through GetOp2; IsPushOnly holds when no opcode is past
OP_16. -/
theorem appendItems_roundTrip (items : List ScriptItem) (h : ∀ it ∈ items, it.Valid) :
    ∃ S, items.foldlM appendItem [] = .ok S ∧
      (∀ fuel, items.length < fuel → getOps S fuel 0 = some (items.map ScriptItem.parsed, S.length)) ∧
      (isPushOnly S).isSome ∧ (isPushOnly S = some true ↔ ∀ op, ScriptItem.opcode op ∈ items → op ≤ OP_16) := by
  obtain ⟨S, hfold, hlen, hloop⟩ := foldlM_appendItem_parse items [] h
  rw [List.nil_append] at hfold hloop
  have hpush : isPushOnly S = some (items.all fun it => decide (it.parsed.1 ≤ OP_16)) :=
    (hloop (S.length + 1) (by omega)).2
  refine ⟨S, hfold, fun fuel hf => (hloop fuel hf).1, by rw [hpush]; rfl, ?_⟩
  rw [hpush, Option.some.injEq, List.all_eq_true]
  constructor
  · intro hall op hop
    simpa [ScriptItem.parsed] using hall _ hop
  · intro hops it hit
    cases it with
    | data b =>
      have := lengthClass_le b.length
      simp only [ScriptItem.parsed, decide_eq_true_eq, OP_16, OP_PUSHDATA4] at this ⊢
      omega
    | opcode op => simpa [ScriptItem.parsed] using hops op hit

theorem appendItems_roundTrip_pushAndChecksig :
    (∀ it ∈ [ScriptItem.data [1, 2], ScriptItem.opcode 0xac], it.Valid) ∧
      ∃ S, [ScriptItem.data [1, 2], ScriptItem.opcode 0xac].foldlM appendItem [] = .ok S ∧
        (∀ fuel, [ScriptItem.data [1, 2], ScriptItem.opcode 0xac].length < fuel →
          getOps S fuel 0 = some ([ScriptItem.data [1, 2], ScriptItem.opcode 0xac].map ScriptItem.parsed, S.length)) ∧
        (isPushOnly S).isSome ∧
        (isPushOnly S = some true ↔ ∀ op, ScriptItem.opcode op ∈ [ScriptItem.data [1, 2], ScriptItem.opcode 0xac] →
          op ≤ OP_16) :=
  ⟨by decide, appendItems_roundTrip _ (by decide)⟩

/-- GetOp2 stays inside the script and moves forward whenever it succeeds, so the loops of
IsPushOnly, ToString and FindAndDelete end on every script. -/
theorem getOp2_safe (S : List UInt8) (pc : Nat) (h : pc ≤ S.length) :
    ((getOp2 S pc).pc ≤ S.length ∧ ∀ i ∈ (getOp2 S pc).reads, pc ≤ i ∧ i < S.length) ∧
      ((getOp2 S pc).ok = true → pc < (getOp2 S pc).pc ∧
        pc + 1 + headerLen (getOp2 S pc).opcodeRet ≤ (getOp2 S pc).pc ∧
        (getOp2 S pc).vchRet = slice S (pc + 1 + headerLen (getOp2 S pc).opcodeRet)
          ((getOp2 S pc).pc - (pc + 1 + headerLen (getOp2 S pc).opcodeRet))) ∧
      (isPushOnly S).isSome ∧
      (∀ valueString getOpName fShort, (toString valueString getOpName S fShort).isSome) ∧
      ∀ b, (findAndDelete S b).isSome :=
  ⟨getOp2_bounds h, getOp2_progress, isPushOnlyLoop_isSome S _ 0 (by omega),
    fun _ _ _ => toStringLoop_isSome _ _ S _ _ 0 "" (by omega), findAndDelete_isSome S⟩

theorem getOp2_safe_truncatedPush :
    0 ≤ [(0x4d : UInt8), 1].length ∧
      ((getOp2 [0x4d, 1] 0).pc ≤ [(0x4d : UInt8), 1].length ∧
        ∀ i ∈ (getOp2 [0x4d, 1] 0).reads, 0 ≤ i ∧ i < [(0x4d : UInt8), 1].length) ∧
      ((getOp2 [0x4d, 1] 0).ok = true → 0 < (getOp2 [0x4d, 1] 0).pc ∧
        0 + 1 + headerLen (getOp2 [0x4d, 1] 0).opcodeRet ≤ (getOp2 [0x4d, 1] 0).pc ∧
        (getOp2 [0x4d, 1] 0).vchRet = slice [0x4d, 1] (0 + 1 + headerLen (getOp2 [0x4d, 1] 0).opcodeRet)
          ((getOp2 [0x4d, 1] 0).pc - (0 + 1 + headerLen (getOp2 [0x4d, 1] 0).opcodeRet))) ∧
      (isPushOnly [0x4d, 1]).isSome ∧
      (∀ valueString getOpName fShort, (toString valueString getOpName [0x4d, 1] fShort).isSome) ∧
      ∀ b, (findAndDelete [0x4d, 1] b).isSome :=
  ⟨Nat.zero_le _, getOp2_safe [0x4d, 1] 0 (Nat.zero_le _)⟩

end CScript

end GridcoinWallet
