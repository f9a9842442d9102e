import GridcoinWallet.Ledger.Wallet
import Mathlib.Data.List.Nodup

namespace GridcoinWallet

theorem mem_foldl_insert (l : List Nat) (s : StdSet Nat) (x : Nat) :
    x ∈ (l.foldl StdSet.insert s).keys ↔ x ∈ s.keys ∨ x ∈ l := by
  induction l generalizing s with
  | nil => simp
  | cons y l ih =>
    rw [List.foldl_cons, ih, StdSet.mem_insert, List.mem_cons]
    tauto

theorem find?_foldl_set (l : List Nat) (v : Nat) (m : StdMap Nat Nat) (x : Nat) :
    (l.foldl (fun m a => m.set a v) m).find? x = if x ∈ l then some v else m.find? x := by
  induction l generalizing m with
  | nil => simp
  | cons y l ih =>
    rw [List.foldl_cons, ih, StdMap.find?_set]
    by_cases hx : x ∈ l <;> by_cases hy : x = y <;> simp [hx, hy]

theorem lookup_of_mem {β : Type} : ∀ {l : List (Nat × β)} {p : Nat} {g : β}, (l.map Prod.fst).Nodup →
    (p, g) ∈ l → l.lookup p = some g
  | (q, h) :: l, p, g, hnd, hm => by
    rw [List.map_cons, List.nodup_cons] at hnd
    rcases List.mem_cons.mp hm with he | hm
    · obtain ⟨rfl, rfl⟩ := Prod.mk.inj he
      simp [List.lookup]
    · have hne : p ≠ q := fun e => hnd.1 (List.mem_map.mpr ⟨(p, g), hm, e⟩)
      rw [List.lookup, beq_false_of_ne hne]
      exact lookup_of_mem hnd.2 hm

section FirstLoop

variable (N : Node)

/-- CWallet::IsMine(txin) != ISMINE_NO: the input spends an output, held in mapWallet, that the
wallet owns. -/
def Ledger.isMineIn (L : Ledger) (txin : OutPoint) : Bool :=
  match L.mapWallet.find? txin.hash with
  | some prev =>
    match prev.vout[txin.n]? with
    | some o => N.isMine o.scriptPubKey
    | none => false
  | none => false

/-- What GetAddressGroupings reads besides the ledger and the ownership test. -/
structure Destinations where
  extractDestination : List UInt8 → Option Nat
  isChange : TxOut → Bool

/-- The address of `mapWallet[txin.prevout.hash].vout[txin.prevout.n].scriptPubKey`. -/
def Ledger.inputAddress (L : Ledger) (D : Destinations) (txin : OutPoint) : Option Nat :=
  ((L.mapWallet.find? txin.hash).bind fun prev => prev.vout[txin.n]?).bind fun o =>
    D.extractDestination o.scriptPubKey

/-- The loop over the inputs: the address of each of the wallet's inputs joins the grouping and sets
any_mine. -/
def groupInputs (L : Ledger) (D : Destinations) (vin : List OutPoint) (acc : StdSet Nat × Bool) :
    StdSet Nat × Bool :=
  vin.foldl (fun acc txin =>
    if L.isMineIn N txin then
      match L.inputAddress D txin with
      | some address => (acc.1.insert address, true)
      | none => acc
    else acc) acc

/-- The loop over the outputs grouping change with the inputs. -/
def groupChange (D : Destinations) (vout : List TxOut) (grouping : StdSet Nat) : StdSet Nat :=
  vout.foldl (fun g txout =>
    if D.isChange txout then
      match D.extractDestination txout.scriptPubKey with
      | some txoutAddr => g.insert txoutAddr
      | none => g
    else g) grouping

/-- The loop grouping lone addresses by themselves: the pending grouping with the address of one of
the wallet's outputs is inserted, and cleared. -/
def groupLone (D : Destinations) (vout : List TxOut) (acc : List (StdSet Nat) × StdSet Nat) :
    List (StdSet Nat) × StdSet Nat :=
  vout.foldl (fun acc o =>
    if N.isMine o.scriptPubKey then
      match D.extractDestination o.scriptPubKey with
      | some address => (acc.1 ++ [acc.2.insert address], StdSet.empty)
      | none => acc
    else acc) acc

/-- One wallet transaction of GetAddressGroupings' first loop, on the groupings so far and the
pending grouping. -/
def groupTx (L : Ledger) (D : Destinations) (acc : List (StdSet Nat) × StdSet Nat) (pcoin : WalletTx) :
    List (StdSet Nat) × StdSet Nat :=
  let acc := match pcoin.vin with
    | [] => acc
    | vin0 :: _ =>
      if L.isMineIn N vin0 then
        let r := groupInputs N L D pcoin.vin (acc.2, false)
        let grouping := if r.2 then groupChange D pcoin.vout r.1 else r.1
        if grouping.keys ≠ [] then (acc.1 ++ [grouping], StdSet.empty) else (acc.1, grouping)
      else acc
  groupLone N D pcoin.vout acc

/-- The groupings GetAddressGroupings' first loop builds, in the order it inserts them. -/
def rawGroupings (L : Ledger) (D : Destinations) : List (StdSet Nat) :=
  (L.mapWallet.entries.foldl (fun acc e => groupTx N L D acc e.2) ([], StdSet.empty)).1

theorem groupLone_nonempty (D : Destinations) (vout : List TxOut) (acc : List (StdSet Nat) × StdSet Nat)
    (h : ∀ g ∈ acc.1, g.keys ≠ []) : ∀ g ∈ (groupLone N D vout acc).1, g.keys ≠ [] := by
  refine List.foldlRecOn (motive := fun acc : List (StdSet Nat) × StdSet Nat => ∀ g ∈ acc.1, g.keys ≠ [])
    vout _ acc h fun acc hacc o _ => ?_
  split
  · split
    · intro g hg
      rcases List.mem_append.mp hg with hg | hg
      · exact hacc g hg
      · rw [List.mem_singleton.mp hg]
        exact List.ne_nil_of_mem (StdSet.mem_insert.mpr (Or.inl rfl))
    · exact hacc
  · exact hacc

theorem insertGrouping_nonempty {gs : List (StdSet Nat)} (h : ∀ g ∈ gs, g.keys ≠ []) (grouping : StdSet Nat) :
    ∀ g ∈ (if grouping.keys ≠ [] then (gs ++ [grouping], StdSet.empty) else (gs, grouping)).1, g.keys ≠ [] := by
  split_ifs with hk
  · intro g hg
    rcases List.mem_append.mp hg with hg | hg
    · exact h g hg
    · rwa [List.mem_singleton.mp hg]
  · exact h

theorem rawGroupings_nonempty (L : Ledger) (D : Destinations) : ∀ g ∈ rawGroupings N L D, g.keys ≠ [] := by
  refine List.foldlRecOn (motive := fun acc : List (StdSet Nat) × StdSet Nat => ∀ g ∈ acc.1, g.keys ≠ [])
    _ _ ([], StdSet.empty) (by simp) fun acc hacc e _ => ?_
  refine groupLone_nonempty N D _ _ ?_
  split
  · exact hacc
  · split
    · exact insertGrouping_nonempty hacc _
    · exact hacc

end FirstLoop

/-- A chain of groupings of `raw` from `a` to `b`, consecutive groupings sharing an address. -/
inductive Linked (raw : List (StdSet Nat)) : Nat → Nat → Prop
  | here {g : StdSet Nat} {a b : Nat} : g ∈ raw → a ∈ g.keys → b ∈ g.keys → Linked raw a b
  | step {g : StdSet Nat} {a b c : Nat} : Linked raw a b → g ∈ raw → b ∈ g.keys → c ∈ g.keys → Linked raw a c

namespace Linked

variable {raw : List (StdSet Nat)}

theorem trans {a b c : Nat} (h₁ : Linked raw a b) (h₂ : Linked raw b c) : Linked raw a c := by
  induction h₂ with
  | here hg hb hc => exact .step h₁ hg hb hc
  | step _ hg hb hc ih => exact .step (ih h₁) hg hb hc

theorem symm {a b : Nat} (h : Linked raw a b) : Linked raw b a := by
  induction h with
  | here hg ha hb => exact .here hg hb ha
  | step _ hg hb hc ih => exact (Linked.here hg hc hb).trans ih

theorem mono {raw' : List (StdSet Nat)} (hsub : ∀ g ∈ raw, g ∈ raw') {a b : Nat} (h : Linked raw a b) :
    Linked raw' a b := by
  induction h with
  | here hg ha hb => exact .here (hsub _ hg) ha hb
  | step _ hg hb hc ih => exact .step ih (hsub _ hg) hb hc

theorem left_mem {a b : Nat} (h : Linked raw a b) : ∃ g ∈ raw, a ∈ g.keys := by
  induction h with
  | here hg ha _ => exact ⟨_, hg, ha⟩
  | step _ _ _ _ ih => exact ih

theorem closed (S : Nat → Prop) (hS : ∀ g ∈ raw, ∀ x ∈ g.keys, S x → ∀ y ∈ g.keys, S y) {a b : Nat}
    (h : Linked raw a b) (ha : S a) : S b := by
  induction h with
  | here hg ha' hb => exact hS _ hg _ ha' ha _ hb
  | step _ hg hb hc ih => exact hS _ hg _ hb (ih ha) _ hc

end Linked

/-- The state of GetAddressGroupings' merge loop: uniqueGroupings, setmap and the next pointer. -/
structure MergeState where
  uniqueGroupings : List (Nat × StdSet Nat)
  setmap : StdMap Nat Nat
  next : Nat

namespace MergeState

def init : MergeState := ⟨[], StdMap.empty, 0⟩

/-- `hits`: the pointers setmap holds for the addresses of a grouping. -/
def hits (s : MergeState) (grouping : StdSet Nat) : StdSet Nat :=
  grouping.keys.foldl (fun hits address =>
    match s.setmap.find? address with
    | some p => hits.insert p
    | none => hits) StdSet.empty

/-- The group a pointer of uniqueGroupings points to. -/
def group (s : MergeState) (p : Nat) : StdSet Nat := (s.uniqueGroupings.lookup p).getD StdSet.empty

/-- `merged`: the grouping with the addresses of every hit group inserted. -/
def merged (s : MergeState) (grouping : StdSet Nat) : StdSet Nat :=
  (s.hits grouping).keys.foldl (fun m hit => (s.group hit).keys.foldl StdSet.insert m) grouping

/-- One grouping of the merge loop: the hit groups leave uniqueGroupings, `merged` joins it under a
new pointer, and setmap sends each of its addresses there. -/
def mergeGrouping (s : MergeState) (grouping : StdSet Nat) : MergeState :=
  ⟨s.uniqueGroupings.filter (fun e => e.1 ∉ (s.hits grouping).keys) ++ [(s.next, s.merged grouping)],
    (s.merged grouping).keys.foldl (fun m element => m.set element s.next) s.setmap, s.next + 1⟩

theorem mem_hits (s : MergeState) (grouping : StdSet Nat) (p : Nat) :
    p ∈ (s.hits grouping).keys ↔ ∃ a ∈ grouping.keys, s.setmap.find? a = some p := by
  suffices h : ∀ (l : List Nat) (acc : StdSet Nat), p ∈ (l.foldl (fun hits address =>
      match s.setmap.find? address with
      | some p => hits.insert p
      | none => hits) acc).keys ↔ p ∈ acc.keys ∨ ∃ a ∈ l, s.setmap.find? a = some p by
    simpa [hits, StdSet.empty] using h grouping.keys StdSet.empty
  intro l
  induction l with
  | nil => simp
  | cons a l ih =>
    intro acc
    rw [List.foldl_cons, ih]
    cases ha : s.setmap.find? a with
    | none => simp [ha]
    | some q =>
      simp only [StdSet.mem_insert, List.mem_cons, exists_eq_or_imp, ha, Option.some.injEq]
      tauto

theorem mem_merged (s : MergeState) (grouping : StdSet Nat) (x : Nat) :
    x ∈ (s.merged grouping).keys ↔ x ∈ grouping.keys ∨ ∃ p ∈ (s.hits grouping).keys, x ∈ (s.group p).keys := by
  suffices h : ∀ (l : List Nat) (m : StdSet Nat),
      x ∈ (l.foldl (fun m hit => (s.group hit).keys.foldl StdSet.insert m) m).keys ↔
        x ∈ m.keys ∨ ∃ p ∈ l, x ∈ (s.group p).keys from h _ _
  intro l
  induction l with
  | nil => simp
  | cons p l ih =>
    intro m
    rw [List.foldl_cons, ih, mem_foldl_insert]
    simp only [List.mem_cons, exists_eq_or_imp]
    tauto

theorem mem_mergeGrouping {s : MergeState} {grouping : StdSet Nat} {e : Nat × StdSet Nat} :
    e ∈ (s.mergeGrouping grouping).uniqueGroupings ↔
      (e ∈ s.uniqueGroupings ∧ e.1 ∉ (s.hits grouping).keys) ∨ e = (s.next, s.merged grouping) := by
  simp [mergeGrouping, List.mem_filter]

theorem find?_mergeGrouping (s : MergeState) (grouping : StdSet Nat) (a : Nat) :
    (s.mergeGrouping grouping).setmap.find? a =
      if a ∈ (s.merged grouping).keys then some s.next else s.setmap.find? a :=
  find?_foldl_set _ _ _ _

end MergeState

/-- What the merge loop keeps after the groupings `done`: its groups are the linked classes of
`done`. -/
structure MergeInv (done : List (StdSet Nat)) (s : MergeState) : Prop where
  nodup : (s.uniqueGroupings.map Prod.fst).Nodup
  lt_next : ∀ e ∈ s.uniqueGroupings, e.1 < s.next
  setmap : ∀ a p, s.setmap.find? a = some p ↔ ∃ g, (p, g) ∈ s.uniqueGroupings ∧ a ∈ g.keys
  nonempty : ∀ e ∈ s.uniqueGroupings, e.2.keys ≠ []
  component : ∀ e ∈ s.uniqueGroupings, ∀ a ∈ e.2.keys, ∀ b, b ∈ e.2.keys ↔ Linked done a b
  cover : ∀ a, (∃ e ∈ s.uniqueGroupings, a ∈ e.2.keys) ↔ ∃ g ∈ done, a ∈ g.keys

theorem MergeInv.init : MergeInv [] MergeState.init :=
  ⟨List.nodup_nil, fun _ h => absurd h (List.not_mem_nil _),
    fun _ _ => ⟨fun h => Option.noConfusion h, fun ⟨_, h, _⟩ => absurd h (List.not_mem_nil _)⟩,
    fun _ h => absurd h (List.not_mem_nil _), fun _ h => absurd h (List.not_mem_nil _),
    fun _ => ⟨fun ⟨_, h, _⟩ => absurd h (List.not_mem_nil _), fun ⟨_, h, _⟩ => absurd h (List.not_mem_nil _)⟩⟩

namespace MergeInv

open MergeState

variable {done : List (StdSet Nat)} {s : MergeState} {G : StdSet Nat}

theorem group_eq (h : MergeInv done s) {e : Nat × StdSet Nat} (he : e ∈ s.uniqueGroupings) : s.group e.1 = e.2 := by
  rw [group, lookup_of_mem h.nodup he]
  rfl

theorem of_hit (h : MergeInv done s) {p : Nat} (hp : p ∈ (s.hits G).keys) :
    (p, s.group p) ∈ s.uniqueGroupings ∧ ∃ a ∈ G.keys, a ∈ (s.group p).keys := by
  obtain ⟨a, haG, hap⟩ := (mem_hits s G p).mp hp
  obtain ⟨g, hpg, hag⟩ := (h.setmap a p).mp hap
  have hg : s.group p = g := h.group_eq hpg
  rw [hg]
  exact ⟨hpg, a, haG, hag⟩

theorem hit_sub (h : MergeInv done s) {e : Nat × StdSet Nat} (he : e ∈ s.uniqueGroupings)
    (hp : e.1 ∈ (s.hits G).keys) {x : Nat} (hx : x ∈ e.2.keys) : x ∈ (s.merged G).keys :=
  (mem_merged s G x).mpr (Or.inr ⟨e.1, hp, by rw [h.group_eq he]; exact hx⟩)

theorem unhit_apart (h : MergeInv done s) {e : Nat × StdSet Nat} (he : e ∈ s.uniqueGroupings)
    (hp : e.1 ∉ (s.hits G).keys) {x : Nat} (hx : x ∈ e.2.keys) : x ∉ (s.merged G).keys := by
  have hxe : s.setmap.find? x = some e.1 := (h.setmap x e.1).mpr ⟨e.2, he, hx⟩
  intro hm
  rcases (mem_merged s G x).mp hm with hG | ⟨q, hq, hxq⟩
  · exact hp ((mem_hits s G e.1).mpr ⟨x, hG, hxe⟩)
  · have hxq' : s.setmap.find? x = some q := (h.setmap x q).mpr ⟨_, (h.of_hit hq).1, hxq⟩
    rw [hxe, Option.some.injEq] at hxq'
    exact hp (hxq' ▸ hq)

theorem merged_linked (h : MergeInv done s) {x : Nat} (hx : x ∈ (s.merged G).keys) :
    ∃ y ∈ G.keys, Linked (done ++ [G]) x y := by
  have hG : G ∈ done ++ [G] := List.mem_append_right _ (List.mem_singleton_self G)
  rcases (mem_merged s G x).mp hx with hxG | ⟨p, hp, hxp⟩
  · exact ⟨x, hxG, .here hG hxG hxG⟩
  · obtain ⟨hlive, a, haG, hap⟩ := h.of_hit hp
    have hlink := ((h.component _ hlive x hxp) a).mp hap
    exact ⟨a, haG, hlink.mono fun g hg => List.mem_append_left _ hg⟩

theorem merged_closed (h : MergeInv done s) : ∀ g ∈ done ++ [G], ∀ x ∈ g.keys, x ∈ (s.merged G).keys →
    ∀ y ∈ g.keys, y ∈ (s.merged G).keys := by
  intro g hg x hxg hx y hyg
  rcases List.mem_append.mp hg with hg | hg
  · have hxy : Linked done x y := .here hg hxg hyg
    rcases (mem_merged s G x).mp hx with hxG | ⟨p, hp, hxp⟩
    · obtain ⟨e, he, hxe⟩ := (h.cover x).mpr ⟨g, hg, hxg⟩
      have hhit : e.1 ∈ (s.hits G).keys := (mem_hits s G e.1).mpr ⟨x, hxG, (h.setmap x e.1).mpr ⟨e.2, he, hxe⟩⟩
      exact h.hit_sub he hhit (((h.component e he x hxe) y).mpr hxy)
    · have hlive := (h.of_hit hp).1
      exact (mem_merged s G y).mpr (Or.inr ⟨p, hp, ((h.component _ hlive x hxp) y).mpr hxy⟩)
  · rw [List.mem_singleton.mp hg] at hyg
    exact (mem_merged s G y).mpr (Or.inl hyg)

theorem unhit_closed (h : MergeInv done s) {e : Nat × StdSet Nat} (he : e ∈ s.uniqueGroupings)
    (hp : e.1 ∉ (s.hits G).keys) : ∀ g ∈ done ++ [G], ∀ x ∈ g.keys, x ∈ e.2.keys → ∀ y ∈ g.keys, y ∈ e.2.keys := by
  intro g hg x hxg hx y hyg
  rcases List.mem_append.mp hg with hg | hg
  · exact ((h.component e he x hx) y).mpr (.here hg hxg hyg)
  · rw [List.mem_singleton.mp hg] at hxg
    exact absurd ((mem_hits s G e.1).mpr ⟨x, hxg, (h.setmap x e.1).mpr ⟨e.2, he, hx⟩⟩) hp

theorem setmap_merge (h : MergeInv done s) (a p : Nat) :
    (s.mergeGrouping G).setmap.find? a = some p ↔
      ∃ g, (p, g) ∈ (s.mergeGrouping G).uniqueGroupings ∧ a ∈ g.keys := by
  rw [find?_mergeGrouping]
  constructor
  · intro hfind
    split_ifs at hfind with ha
    · cases hfind
      exact ⟨_, mem_mergeGrouping.mpr (Or.inr rfl), ha⟩
    · obtain ⟨g, hpg, hag⟩ := (h.setmap a p).mp hfind
      have hp : p ∉ (s.hits G).keys := fun hp => ha (h.hit_sub hpg hp hag)
      exact ⟨g, mem_mergeGrouping.mpr (Or.inl ⟨hpg, hp⟩), hag⟩
  · rintro ⟨g, hpg, hag⟩
    rcases mem_mergeGrouping.mp hpg with ⟨hpg, hp⟩ | he
    · rw [if_neg (h.unhit_apart hpg hp hag)]
      exact (h.setmap a p).mpr ⟨g, hpg, hag⟩
    · obtain ⟨rfl, rfl⟩ := Prod.mk.inj he
      rw [if_pos hag]

theorem component_merge (h : MergeInv done s) : ∀ e ∈ (s.mergeGrouping G).uniqueGroupings, ∀ a ∈ e.2.keys,
    ∀ b, b ∈ e.2.keys ↔ Linked (done ++ [G]) a b := by
  intro e he a ha b
  rcases mem_mergeGrouping.mp he with ⟨he, hp⟩ | rfl
  · refine ⟨fun hb => (((h.component e he a ha) b).mp hb).mono fun g hg => List.mem_append_left _ hg,
      fun hab => Linked.closed (· ∈ e.2.keys) (h.unhit_closed he hp) hab ha⟩
  · refine ⟨fun hb => ?_, fun hab => Linked.closed (· ∈ (s.merged G).keys) h.merged_closed hab ha⟩
    obtain ⟨ya, hya, hla⟩ := h.merged_linked ha
    obtain ⟨yb, hyb, hlb⟩ := h.merged_linked hb
    exact (hla.trans (.here (List.mem_append_right _ (List.mem_singleton_self G)) hya hyb)).trans hlb.symm

theorem cover_merge (h : MergeInv done s) (a : Nat) :
    (∃ e ∈ (s.mergeGrouping G).uniqueGroupings, a ∈ e.2.keys) ↔ ∃ g ∈ done ++ [G], a ∈ g.keys := by
  have hsub : ∀ g ∈ done, g ∈ done ++ [G] := fun g hg => List.mem_append_left _ hg
  constructor
  · rintro ⟨e, he, hae⟩
    rcases mem_mergeGrouping.mp he with ⟨he, -⟩ | rfl
    · obtain ⟨g, hg, hag⟩ := (h.cover a).mp ⟨e, he, hae⟩
      exact ⟨g, hsub g hg, hag⟩
    · rcases (mem_merged s G a).mp hae with haG | ⟨p, hp, hap⟩
      · exact ⟨G, List.mem_append_right _ (List.mem_singleton_self G), haG⟩
      · obtain ⟨g, hg, hag⟩ := (h.cover a).mp ⟨_, (h.of_hit hp).1, hap⟩
        exact ⟨g, hsub g hg, hag⟩
  · rintro ⟨g, hg, hag⟩
    by_cases haM : a ∈ (s.merged G).keys
    · exact ⟨_, mem_mergeGrouping.mpr (Or.inr rfl), haM⟩
    rcases List.mem_append.mp hg with hg | hg
    · obtain ⟨e, he, hae⟩ := (h.cover a).mpr ⟨g, hg, hag⟩
      have hp : e.1 ∉ (s.hits G).keys := fun hp => haM (h.hit_sub he hp hae)
      exact ⟨e, mem_mergeGrouping.mpr (Or.inl ⟨he, hp⟩), hae⟩
    · rw [List.mem_singleton.mp hg] at hag
      exact absurd ((mem_merged s G a).mpr (Or.inl hag)) haM

theorem merge (h : MergeInv done s) (hG : G.keys ≠ []) : MergeInv (done ++ [G]) (s.mergeGrouping G) := by
  refine ⟨?nodup, ?lt_next, h.setmap_merge, ?nonempty, h.component_merge, h.cover_merge⟩
  case nodup =>
    simp only [mergeGrouping, List.map_append, List.map_cons, List.map_nil]
    refine List.nodup_append.mpr ⟨(h.nodup.sublist ((List.filter_sublist _).map _)), List.nodup_singleton _, ?_⟩
    intro p hp hq
    rw [List.mem_singleton.mp hq] at hp
    obtain ⟨e, he, hep⟩ := List.mem_map.mp hp
    exact (h.lt_next e (List.mem_of_mem_filter he)).ne hep
  case lt_next =>
    intro e he
    rcases mem_mergeGrouping.mp he with ⟨he, -⟩ | rfl
    · exact Nat.lt_succ_of_lt (h.lt_next e he)
    · exact Nat.lt_succ_self _
  case nonempty =>
    intro e he
    rcases mem_mergeGrouping.mp he with ⟨he, -⟩ | rfl
    · exact h.nonempty e he
    · obtain ⟨a, ha⟩ := List.exists_mem_of_ne_nil _ hG
      exact List.ne_nil_of_mem ((mem_merged s G a).mpr (Or.inl ha))

theorem run : ∀ (gs : List (StdSet Nat)) {done : List (StdSet Nat)} {s : MergeState}, MergeInv done s →
    (∀ g ∈ gs, g.keys ≠ []) → MergeInv (done ++ gs) (gs.foldl mergeGrouping s)
  | [], _, _, h, _ => by simpa using h
  | g :: gs, done, _, h, hne => by
    have h' := run gs (h.merge (hne g (List.mem_cons_self g gs))) fun g' hg' => hne g' (List.mem_cons_of_mem g hg')
    rwa [List.append_assoc, List.singleton_append] at h'

end MergeInv

/-- CWallet::GetAddressGroupings: the merge loop over the groupings of the first loop, and the
groups it leaves in uniqueGroupings. -/
def getAddressGroupings (N : Node) (L : Ledger) (D : Destinations) : List (StdSet Nat) :=
  ((rawGroupings N L D).foldl MergeState.mergeGrouping MergeState.init).uniqueGroupings.map Prod.snd

/-- GetAddressGroupings returns the connected components of the first loop's groupings. -/
theorem getAddressGroupings_components (N : Node) (L : Ledger) (D : Destinations) :
    (∀ g ∈ getAddressGroupings N L D, g.keys ≠ []) ∧
      (getAddressGroupings N L D).Pairwise (fun g h => ∀ a ∈ g.keys, a ∉ h.keys) ∧
      (∀ a, (∃ g ∈ getAddressGroupings N L D, a ∈ g.keys) ↔ ∃ g ∈ rawGroupings N L D, a ∈ g.keys) ∧
      ∀ a b, (∃ g ∈ getAddressGroupings N L D, a ∈ g.keys ∧ b ∈ g.keys) ↔ Linked (rawGroupings N L D) a b := by
  have h := MergeInv.init.run (rawGroupings N L D) (rawGroupings_nonempty N L D)
  rw [List.nil_append] at h
  set s := (rawGroupings N L D).foldl MergeState.mergeGrouping MergeState.init
  have hmem : ∀ g, g ∈ getAddressGroupings N L D ↔ ∃ e ∈ s.uniqueGroupings, e.2 = g := fun _ => List.mem_map
  refine ⟨fun g hg => ?_, ?_, fun a => ?_, fun a b => ⟨?_, fun hab => ?_⟩⟩
  · obtain ⟨e, he, rfl⟩ := (hmem g).mp hg
    exact h.nonempty e he
  · refine List.pairwise_map.mpr ((List.pairwise_map.mp h.nodup).imp_of_mem fun {e f} he hf hne a hae haf => ?_)
    exact hne (Option.some.inj (((h.setmap a e.1).mpr ⟨e.2, he, hae⟩).symm.trans ((h.setmap a f.1).mpr ⟨f.2, hf, haf⟩)))
  · rw [← h.cover a]
    simp only [hmem]
    constructor
    · rintro ⟨g, ⟨e, he, rfl⟩, hag⟩
      exact ⟨e, he, hag⟩
    · rintro ⟨e, he, hae⟩
      exact ⟨e.2, ⟨e, he, rfl⟩, hae⟩
  · rintro ⟨g, hg, hag, hbg⟩
    obtain ⟨e, he, rfl⟩ := (hmem g).mp hg
    exact ((h.component e he a hag) b).mp hbg
  · obtain ⟨e, he, hae⟩ := (h.cover a).mpr hab.left_mem
    exact ⟨e.2, (hmem e.2).mpr ⟨e, he, rfl⟩, hae, ((h.component e he a hae) b).mpr hab⟩

end GridcoinWallet
