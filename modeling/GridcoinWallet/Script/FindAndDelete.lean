import GridcoinWallet.Script.Loops

namespace GridcoinWallet

namespace CScript

/-- The positions where FindAndDelete's scan looks for `b`: the start, the end of a deleted copy,
and the end of an opcode GetOp read where no copy started. -/
inductive ScanPos (S b : List UInt8) : Nat → Prop
  | start : ScanPos S b 0
  | deleted {pc : Nat} : ScanPos S b pc → b.length ≤ S.length - pc → slice S pc b.length = b →
      ScanPos S b (pc + b.length)
  | opcode {pc : Nat} : ScanPos S b pc → ¬(b.length ≤ S.length - pc ∧ slice S pc b.length = b) →
      (getOp2 S pc).ok = true → ScanPos S b (getOp2 S pc).pc

def occurrenceStarts (b : List UInt8) : List (List UInt8) → Nat → List Nat
  | [], _ => []
  | seg :: segs, base => (base + seg.length) :: occurrenceStarts b segs (base + seg.length + b.length)

theorem occurrenceStarts_append (b cur : List UInt8) :
    ∀ (segs : List (List UInt8)) (base : Nat), occurrenceStarts b (segs ++ [cur]) base =
      occurrenceStarts b segs base ++ [base + (segs.flatMap fun seg => seg ++ b).length + cur.length]
  | [], base => by simp [occurrenceStarts]
  | seg :: segs, base => by
    rw [List.cons_append, occurrenceStarts, occurrenceStarts_append b cur segs, occurrenceStarts, List.cons_append,
      List.flatMap_cons, List.length_append, List.length_append, Nat.add_assoc base, Nat.add_assoc base]

theorem length_flatMap_append (b : List UInt8) :
    ∀ segs : List (List UInt8), (segs.flatMap fun seg => seg ++ b).length = segs.flatten.length + segs.length * b.length
  | [] => by simp
  | seg :: segs => by
    simp only [List.flatMap_cons, List.length_append, length_flatMap_append b segs, List.flatten_cons,
      List.length_cons, Nat.succ_mul]
    omega

/-- The state of FindAndDelete's loop at a check of the inner while. -/
structure Deletion (S b : List UInt8) (pc : Nat) (result : List UInt8) (nFound : Nat) : Prop where
  scan : ScanPos S b pc
  le : pc ≤ S.length
  split : ∃ segs cur, segs.length = nFound ∧ S.take pc = (segs.flatMap fun seg => seg ++ b) ++ cur ∧
    result = segs.flatten ++ cur ∧ ∀ p ∈ occurrenceStarts b segs 0, ScanPos S b p

section Steps

variable {S b : List UInt8} {pc : Nat} {result : List UInt8} {nFound : Nat}

theorem Deletion.init : Deletion S b 0 [] 0 :=
  ⟨.start, Nat.zero_le _, [], [], rfl, by simp, rfl, by simp [occurrenceStarts]⟩

theorem take_add_slice (S : List UInt8) (pc n : Nat) : S.take (pc + n) = S.take pc ++ slice S pc n :=
  List.take_add S pc n

theorem Deletion.skip (h : Deletion S b pc result nFound)
    (hm : b.length ≤ S.length - pc ∧ slice S pc b.length = b) :
    Deletion S b (pc + b.length) result (nFound + 1) := by
  obtain ⟨segs, cur, hlen, htake, hres, hocc⟩ := h.split
  have hpc : ((segs.flatMap fun seg => seg ++ b) ++ cur).length = pc := by
    rw [← htake, List.length_take, min_eq_left h.le]
  have hroom : pc + b.length ≤ S.length := by have := h.le; have := hm.1; omega
  refine ⟨.deleted h.scan hm.1 hm.2, hroom, segs ++ [cur], [], by simp [hlen], ?_, by simp [hres], ?_⟩
  · rw [take_add_slice, htake, hm.2]
    simp
  · rw [occurrenceStarts_append]
    intro p hp
    rcases List.mem_append.mp hp with hp | hp
    · exact hocc p hp
    · rw [List.mem_singleton.mp hp, Nat.zero_add, ← List.length_append, hpc]
      exact h.scan

theorem Deletion.copy (h : Deletion S b pc result nFound)
    (hm : ¬(b.length ≤ S.length - pc ∧ slice S pc b.length = b)) (hok : (getOp2 S pc).ok = true) :
    Deletion S b (getOp2 S pc).pc (result ++ slice S pc ((getOp2 S pc).pc - pc)) nFound := by
  obtain ⟨segs, cur, hlen, htake, hres, hocc⟩ := h.split
  have hadv := getOp2_ok_advances hok
  refine ⟨.opcode h.scan hm hok, hadv.2, segs, cur ++ slice S pc ((getOp2 S pc).pc - pc), hlen, ?_,
    by simp [hres], hocc⟩
  rw [← Nat.add_sub_cancel' hadv.1.le, take_add_slice, htake, Nat.add_sub_cancel' hadv.1.le]
  simp

end Steps

theorem findAndDeleteLoop_deletion (S b : List UInt8) :
    ∀ fuel pc result nFound, Deletion S b pc result nFound → ∀ {pc2 result' k},
      findAndDeleteLoop S b fuel pc result nFound = some (pc2, result', k) → Deletion S b pc2 result' k
  | 0, _, _, _, _, _, _, _, h => by cases h
  | fuel + 1, pc, result, nFound, hd, pc2, result', k, h => by
    unfold findAndDeleteLoop at h
    split_ifs at h with hm
    · exact findAndDeleteLoop_deletion S b fuel _ _ _ (hd.skip hm) h
    · dsimp only at h
      split_ifs at h with hok
      · exact findAndDeleteLoop_deletion S b fuel _ _ _ (hd.copy hm hok) h
      · cases h
        exact hd

/-- FindAndDelete with a non-empty pattern ends, leaving the script with `k` copies of `b` taken
out. -/
theorem findAndDelete_exact (S b : List UInt8) (hb : b ≠ []) :
    ∃ S' k, findAndDelete S b = some (S', k) ∧ S'.length = S.length - k * b.length ∧
      (∃ segs tail, segs.length = k ∧ S = (segs.flatMap fun seg => seg ++ b) ++ tail ∧
        S' = segs.flatten ++ tail ∧ ∀ p ∈ occurrenceStarts b segs 0, ScanPos S b p) ∧
      (k = 0 → S' = S) := by
  obtain ⟨⟨pc2, result, k⟩, hloop⟩ := Option.isSome_iff_exists.mp
    (findAndDeleteLoop_isSome S b hb (S.length + 1) 0 [] 0 (Nat.zero_le _) (by omega))
  obtain ⟨segs, cur, hlen, htake, hres, hocc⟩ :=
    (findAndDeleteLoop_deletion S b _ _ _ _ Deletion.init hloop).split
  have hS : S = (segs.flatMap fun seg => seg ++ b) ++ (cur ++ S.drop pc2) := by
    rw [← List.append_assoc, ← htake, List.take_append_drop]
  have hfd : findAndDelete S b = some (if 0 < k then result ++ S.drop pc2 else S, k) := by
    simp only [findAndDelete, List.isEmpty_iff, hb, ↓reduceIte, hloop, Option.map_some']
    split_ifs <;> rfl
  have hS' : (if 0 < k then result ++ S.drop pc2 else S) = segs.flatten ++ (cur ++ S.drop pc2) := by
    split_ifs with hk
    · rw [hres, List.append_assoc]
    · obtain rfl : segs = [] := List.length_eq_zero.mp (by omega)
      simpa using hS
  refine ⟨_, k, hfd, ?_, ⟨segs, _, hlen, hS, hS', hocc⟩, fun hk => by simp [hk]⟩
  have h1 := congrArg List.length hS
  rw [hS']
  simp only [List.length_append, length_flatMap_append] at h1 ⊢
  subst hlen
  omega

theorem findAndDelete_exact_twoCopies :
    ([1, 7] : List UInt8) ≠ [] ∧
      ∃ S' k, findAndDelete [1, 7, 0xac, 1, 7] [1, 7] = some (S', k) ∧
        S'.length = [(1 : UInt8), 7, 0xac, 1, 7].length - k * [(1 : UInt8), 7].length ∧
        (∃ segs tail, segs.length = k ∧
          [1, 7, 0xac, 1, 7] = (segs.flatMap fun seg => seg ++ [1, 7]) ++ tail ∧
          S' = segs.flatten ++ tail ∧ ∀ p ∈ occurrenceStarts [1, 7] segs 0, ScanPos [1, 7, 0xac, 1, 7] [1, 7] p) ∧
        (k = 0 → S' = [1, 7, 0xac, 1, 7]) :=
  ⟨by decide, findAndDelete_exact _ _ (by decide)⟩

end CScript

end GridcoinWallet
