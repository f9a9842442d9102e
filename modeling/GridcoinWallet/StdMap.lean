import Mathlib

namespace GridcoinWallet

/-- `std::map<K, V>`: its entries in strictly increasing key order. -/
structure StdMap (K V : Type) [LinearOrder K] where
  entries : List (K × V)
  sorted : entries.Pairwise (fun a b => a.1 < b.1)

/-- `std::set<K>`: its keys in strictly increasing order. -/
structure StdSet (K : Type) [LinearOrder K] where
  keys : List K
  sorted : keys.Pairwise (· < ·)

namespace StdMap

variable {K V : Type} [LinearOrder K]

theorem ext {m m' : StdMap K V} (h : m.entries = m'.entries) : m = m' := by
  cases m; cases m'; cases h; rfl

def empty : StdMap K V := ⟨[], .nil⟩

def findList (k : K) : List (K × V) → Option V
  | [] => none
  | e :: es => if e.1 = k then some e.2 else findList k es

def find? (m : StdMap K V) (k : K) : Option V := findList k m.entries

/-- `std::map::insert`: add the entry at its place, or keep the entry already there. -/
def insertList (k : K) (v : V) : List (K × V) → List (K × V)
  | [] => [(k, v)]
  | e :: es =>
    if k < e.1 then (k, v) :: e :: es else if k = e.1 then e :: es else e :: insertList k v es

theorem mem_insertList {k : K} {v : V} {es : List (K × V)} {e : K × V}
    (h : e ∈ insertList k v es) : e = (k, v) ∨ e ∈ es := by
  induction es with
  | nil => simpa [insertList] using h
  | cons e' es ih =>
    simp only [insertList] at h
    split_ifs at h <;> simp only [List.mem_cons] at h ⊢ <;> tauto

theorem insertList_sorted (k : K) (v : V) {es : List (K × V)}
    (h : es.Pairwise (fun a b => a.1 < b.1)) :
    (insertList k v es).Pairwise (fun a b => a.1 < b.1) := by
  induction es with
  | nil => simp [insertList]
  | cons e es ih =>
    obtain ⟨head, tail⟩ := List.pairwise_cons.mp h
    simp only [insertList]
    split_ifs with hlt heq
    · exact List.Pairwise.cons (fun a ha => by
        rcases List.mem_cons.mp ha with rfl | ha
        · exact hlt
        · exact lt_trans hlt (head a ha)) h
    · exact h
    · refine List.Pairwise.cons (fun a ha => ?_) (ih tail)
      rcases mem_insertList ha with rfl | ha
      · exact lt_of_le_of_ne (not_lt.mp hlt) (Ne.symm heq)
      · exact head a ha

def insert (m : StdMap K V) (k : K) (v : V) : StdMap K V :=
  ⟨insertList k v m.entries, insertList_sorted k v m.sorted⟩

theorem insertList_of_lt {k : K} (v : V) {es : List (K × V)} (h : ∀ e ∈ es, e.1 < k) :
    insertList k v es = es ++ [(k, v)] := by
  induction es with
  | nil => rfl
  | cons e es ih =>
    have he := h e (by simp)
    simp only [insertList, not_lt_of_gt he, if_false, ne_of_gt he, List.cons_append]
    rw [ih (fun a ha => h a (by simp [ha]))]

theorem findList_of_mem {es : List (K × V)} (hs : es.Pairwise (fun a b => a.1 < b.1))
    {e : K × V} (he : e ∈ es) : findList e.1 es = some e.2 := by
  induction es with
  | nil => cases he
  | cons e' es ih =>
    obtain ⟨head, tail⟩ := List.pairwise_cons.mp hs
    rcases List.mem_cons.mp he with rfl | he
    · simp [findList]
    · simp only [findList, ne_of_lt (head e he), if_false]
      exact ih tail he

theorem mem_of_findList {k : K} {v : V} {es : List (K × V)} (h : findList k es = some v) :
    (k, v) ∈ es := by
  induction es with
  | nil => cases h
  | cons e es ih =>
    simp only [findList] at h
    split_ifs at h with he
    · cases h; subst he; simp
    · exact List.mem_cons_of_mem _ (ih h)

theorem find?_iff_mem (m : StdMap K V) {k : K} {v : V} : m.find? k = some v ↔ (k, v) ∈ m.entries :=
  ⟨mem_of_findList, fun h => findList_of_mem m.sorted h⟩

/-- The map with every value sent through `f`, under the same keys. -/
def map {W : Type} (f : V → W) (m : StdMap K V) : StdMap K W :=
  ⟨m.entries.map fun e => (e.1, f e.2), List.pairwise_map.mpr m.sorted⟩

theorem findList_map {W : Type} (f : V → W) (k : K) (es : List (K × V)) :
    findList k (es.map fun e => (e.1, f e.2)) = (findList k es).map f := by
  induction es with
  | nil => rfl
  | cons e es ih => simp only [List.map_cons, findList]; split_ifs <;> simp [ih]

@[simp] theorem find?_map {W : Type} (f : V → W) (m : StdMap K V) (k : K) :
    (m.map f).find? k = (m.find? k).map f :=
  findList_map f k m.entries

/-- `m[k] = v`: overwrite the entry of `k`, or add it at its place. -/
def setList (k : K) (v : V) : List (K × V) → List (K × V)
  | [] => [(k, v)]
  | e :: es =>
    if k < e.1 then (k, v) :: e :: es else if k = e.1 then (k, v) :: es else e :: setList k v es

theorem mem_setList {k : K} {v : V} {es : List (K × V)} {e : K × V}
    (h : e ∈ setList k v es) : e = (k, v) ∨ e ∈ es := by
  induction es with
  | nil => simpa [setList] using h
  | cons e' es ih =>
    simp only [setList] at h
    split_ifs at h <;> simp only [List.mem_cons] at h ⊢ <;> tauto

theorem setList_sorted (k : K) (v : V) {es : List (K × V)}
    (h : es.Pairwise (fun a b => a.1 < b.1)) :
    (setList k v es).Pairwise (fun a b => a.1 < b.1) := by
  induction es with
  | nil => simp [setList]
  | cons e es ih =>
    obtain ⟨head, tail⟩ := List.pairwise_cons.mp h
    simp only [setList]
    split_ifs with hlt heq
    · exact List.Pairwise.cons (fun a ha => by
        rcases List.mem_cons.mp ha with rfl | ha
        · exact hlt
        · exact lt_trans hlt (head a ha)) h
    · exact List.Pairwise.cons (fun a ha => heq ▸ head a ha) tail
    · refine List.Pairwise.cons (fun a ha => ?_) (ih tail)
      rcases mem_setList ha with rfl | ha
      · exact lt_of_le_of_ne (not_lt.mp hlt) (Ne.symm heq)
      · exact head a ha

theorem findList_setList (k k' : K) (v : V) (es : List (K × V)) :
    findList k' (setList k v es) = if k' = k then some v else findList k' es := by
  induction es with
  | nil => by_cases h : k' = k <;> simp [setList, findList, h, Ne.symm]
  | cons e es ih =>
    simp only [setList]
    split_ifs with hlt heq hk <;> simp_all [findList, eq_comm]

def set (m : StdMap K V) (k : K) (v : V) : StdMap K V :=
  ⟨setList k v m.entries, setList_sorted k v m.sorted⟩

@[simp] theorem find?_set (m : StdMap K V) (k k' : K) (v : V) :
    (m.set k v).find? k' = if k' = k then some v else m.find? k' :=
  findList_setList k k' v m.entries

/-- `std::map::erase(k)`. -/
def eraseList (k : K) : List (K × V) → List (K × V)
  | [] => []
  | e :: es => if e.1 = k then es else e :: eraseList k es

theorem eraseList_sublist (k : K) (es : List (K × V)) : List.Sublist (eraseList k es) es := by
  induction es with
  | nil => exact List.Sublist.slnil
  | cons e es ih =>
    simp only [eraseList]
    split_ifs
    · exact List.sublist_cons_self e es
    · exact ih.cons₂ e

theorem findList_eraseList (k k' : K) {es : List (K × V)}
    (hs : es.Pairwise (fun a b => a.1 < b.1)) :
    findList k' (eraseList k es) = if k' = k then none else findList k' es := by
  induction es with
  | nil => simp [eraseList, findList]
  | cons e es ih =>
    obtain ⟨head, tail⟩ := List.pairwise_cons.mp hs
    by_cases he : e.1 = k
    · simp only [eraseList, he, if_true, findList]
      by_cases hk : k' = k
      · subst hk
        cases hf : findList k' es with
        | none => simp
        | some w => exact absurd (he ▸ head _ (mem_of_findList hf)) (lt_irrefl _)
      · simp [hk, Ne.symm hk]
    · simp only [eraseList, he, if_false, findList, ih tail]
      by_cases hk : k' = k
      · subst hk; simp [he]
      · simp [hk]

def erase (m : StdMap K V) (k : K) : StdMap K V :=
  ⟨eraseList k m.entries, m.sorted.sublist (eraseList_sublist k m.entries)⟩

@[simp] theorem find?_erase (m : StdMap K V) (k k' : K) :
    (m.erase k).find? k' = if k' = k then none else m.find? k' :=
  findList_eraseList k k' m.sorted

@[simp] theorem find?_empty (k : K) : (empty : StdMap K V).find? k = none := rfl

theorem find?_set_eq_some {m : StdMap K V} {k k' : K} {v x : V} (h : (m.set k v).find? k' = some x) :
    (k' = k ∧ x = v) ∨ m.find? k' = some x := by
  rw [find?_set] at h
  split_ifs at h with hk
  · exact Or.inl ⟨hk, (Option.some.inj h).symm⟩
  · exact Or.inr h

theorem find?_erase_eq_some {m : StdMap K V} {k k' : K} {x : V} (h : (m.erase k).find? k' = some x) :
    k' ≠ k ∧ m.find? k' = some x := by
  rw [find?_erase] at h
  split_ifs at h with hk
  exact ⟨hk, h⟩

end StdMap

namespace StdSet

variable {K : Type} [LinearOrder K]

theorem ext {s s' : StdSet K} (h : s.keys = s'.keys) : s = s' := by
  cases s; cases s'; cases h; rfl

def empty : StdSet K := ⟨[], .nil⟩

/-- `std::set::insert`. -/
def insertList (k : K) : List K → List K
  | [] => [k]
  | x :: xs => if k < x then k :: x :: xs else if k = x then x :: xs else x :: insertList k xs

theorem mem_insertList {k x : K} {xs : List K} : x ∈ insertList k xs ↔ x = k ∨ x ∈ xs := by
  induction xs with
  | nil => simp [insertList]
  | cons y xs ih =>
    simp only [insertList]
    split_ifs with hlt heq
    · simp
    · subst heq; simp
    · simp only [List.mem_cons, ih]; exact or_left_comm

theorem insertList_sorted (k : K) {xs : List K} (h : xs.Pairwise (· < ·)) :
    (insertList k xs).Pairwise (· < ·) := by
  induction xs with
  | nil => simp [insertList]
  | cons x xs ih =>
    obtain ⟨head, tail⟩ := List.pairwise_cons.mp h
    simp only [insertList]
    split_ifs with hlt heq
    · exact List.Pairwise.cons (fun a ha => by
        rcases List.mem_cons.mp ha with rfl | ha
        · exact hlt
        · exact lt_trans hlt (head a ha)) h
    · exact h
    · refine List.Pairwise.cons (fun a ha => ?_) (ih tail)
      rcases mem_insertList.mp ha with rfl | ha
      · exact lt_of_le_of_ne (not_lt.mp hlt) (Ne.symm heq)
      · exact head a ha

def insert (s : StdSet K) (k : K) : StdSet K := ⟨insertList k s.keys, insertList_sorted k s.sorted⟩

theorem insertList_of_lt {k : K} {xs : List K} (h : ∀ x ∈ xs, x < k) :
    insertList k xs = xs ++ [k] := by
  induction xs with
  | nil => rfl
  | cons x xs ih =>
    have hx := h x (by simp)
    simp only [insertList, not_lt_of_gt hx, if_false, ne_of_gt hx, List.cons_append]
    rw [ih (fun a ha => h a (by simp [ha]))]

@[simp] theorem mem_insert {s : StdSet K} {k x : K} : x ∈ (s.insert k).keys ↔ x = k ∨ x ∈ s.keys :=
  mem_insertList

/-- `std::set::erase(begin())`. -/
def eraseMin (s : StdSet K) : StdSet K := ⟨s.keys.tail, s.sorted.sublist (List.tail_sublist _)⟩

theorem le_of_getLast? {xs : List K} {m x : K} (hs : xs.Pairwise (· < ·)) (hm : xs.getLast? = some m)
    (hx : x ∈ xs) : x ≤ m := by
  obtain ⟨ys, rfl⟩ := List.getLast?_eq_some_iff.mp hm
  rcases List.mem_append.mp hx with hx | hx
  · exact le_of_lt ((List.pairwise_append.mp hs).2.2 x hx m (List.mem_singleton_self m))
  · exact le_of_eq (List.mem_singleton.mp hx)

end StdSet

end GridcoinWallet
