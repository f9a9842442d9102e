import Mathlib.Data.List.Basic

namespace GridcoinWallet

/-- A character of the dump format as the byte std::string holds. -/
def chr (c : Char) : UInt8 := UInt8.ofNat c.toNat

/-- The bytes of an ASCII string literal. -/
def ascii (s : String) : List UInt8 := s.toList.map chr

/-- Modelled from the spec: one hex digit of HexStr, which src/ calls but does not define: 0-9, then
lowercase a-f. -/
def hexDigit (v : Nat) : UInt8 := UInt8.ofNat (if v < 10 then 48 + v else 87 + v)

/-- Modelled from the spec: HexStr of one byte, two hex digits, high nibble first. -/
def hexStr (c : UInt8) : List UInt8 := [hexDigit (c.toNat / 16), hexDigit (c.toNat % 16)]

/-- EncodeDumpString: a byte up to 32, from 128 on, or '%' becomes '%' and its HexStr; any other
byte is copied. -/
def encodeDumpString (str : List UInt8) : List UInt8 :=
  str.flatMap fun c => if c.toNat ≤ 32 ∨ 128 ≤ c.toNat ∨ c = chr '%' then chr '%' :: hexStr c else [c]

/-- The value DecodeDumpString computes from one digit `d`: the char is signed and promoted to int,
`>> 6` rounds down, and `& 15` keeps the residue mod 16. -/
def hexNibble (d : UInt8) : Int :=
  let s : Int := if d.toNat < 128 then d.toNat else d.toNat - 256
  s / 64 * 9 + (s - 48) % 16

/-- The byte DecodeDumpString writes for '%' and the digits `d1 d2`. -/
def hexValue (d1 d2 : UInt8) : UInt8 :=
  UInt8.ofNat (hexNibble d1 * 16 % 256).toNat ||| UInt8.ofNat (hexNibble d2 % 256).toNat

/-- DecodeDumpString: a '%' with two more bytes after it is replaced by the byte they spell; every
other byte is copied. -/
def decodeDumpString : List UInt8 → List UInt8
  | c :: d1 :: d2 :: rest =>
    if c = chr '%' then hexValue d1 d2 :: decodeDumpString rest else c :: decodeDumpString (d1 :: d2 :: rest)
  | str => str

/-- The tag dumpwallet writes after a key's time. -/
def dumpKeyTag (label : Option (List UInt8)) (isMasterKey inKeyPool : Bool) : List UInt8 :=
  match label with
  | some l => ascii "label=" ++ encodeDumpString l
  | none => if isMasterKey then ascii "hdmaster=1" else if inKeyPool then ascii "reserve=1" else ascii "change=1"

/-- The key line dumpwallet writes, without the newline getline drops. -/
def dumpKeyLine (secret strTime tag strAddr hdKeypath : List UInt8) : List UInt8 :=
  secret ++ chr ' ' :: strTime ++ chr ' ' :: tag ++ ascii " # addr=" ++ strAddr ++
    if hdKeypath.isEmpty then [] else ascii " hdkeypath=" ++ hdKeypath

/-- The scan importwallet makes of the tokens after the time, up to the first comment. -/
def scanKeyTokens : List (List UInt8) → List UInt8 → Bool → Bool → List UInt8 × Bool × Bool
  | [], strLabel, fLabel, found_hd_seed => (strLabel, fLabel, found_hd_seed)
  | tok :: vstr, strLabel, fLabel, found_hd_seed =>
    if (ascii "#").isPrefixOf tok then (strLabel, fLabel, found_hd_seed)
    else
      let fLabel := if tok = ascii "change=1" then false else fLabel
      let fLabel := if tok = ascii "reserve=1" then false else fLabel
      let found_hd_seed := if tok = ascii "hdmaster=1" then true else found_hd_seed
      if (ascii "label=").isPrefixOf tok then scanKeyTokens vstr (decodeDumpString (tok.drop 6)) true found_hd_seed
      else scanKeyTokens vstr strLabel fLabel found_hd_seed

/-- The label side of importwallet on one line (`none`: a line it skips). -/
def importKeyLine (line : List UInt8) (found_hd_seed : Bool) : Option (List UInt8 × Bool × Bool) :=
  if line.isEmpty ∨ line.head? = some (chr '#') then none
  else
    let vstr := line.splitOn (chr ' ')
    if vstr.length < 2 then none else some (scanKeyTokens (vstr.drop 2) [] true found_hd_seed)

theorem hexDigit_bounds : ∀ v, v < 16 →
    (48 ≤ (hexDigit v).toNat ∧ (hexDigit v).toNat ≤ 0x66) ∧ hexNibble (hexDigit v) = v := by
  decide

theorem dumpKeyLine_eq (secret strTime tag strAddr hdKeypath : List UInt8) :
    dumpKeyLine secret strTime tag strAddr hdKeypath = [chr ' '].intercalate
      ([secret, strTime, tag, ascii "#", ascii "addr=" ++ strAddr] ++
        if hdKeypath.isEmpty then [] else [ascii "hdkeypath=" ++ hdKeypath]) := by
  unfold dumpKeyLine
  split_ifs <;> simp [List.intercalate, List.intersperse, ascii]

theorem encodeDumpString_cons (c : UInt8) (L : List UInt8) :
    encodeDumpString (c :: L) =
      (if c.toNat ≤ 32 ∨ 128 ≤ c.toNat ∨ c = chr '%' then chr '%' :: hexStr c else [c]) ++ encodeDumpString L :=
  List.flatMap_cons _ _ _

theorem decodeDumpString_cons_ne {c : UInt8} (hc : c ≠ chr '%') (rest : List UInt8) :
    decodeDumpString (c :: rest) = c :: decodeDumpString rest := by
  match rest with
  | [] => rfl
  | [_] => rfl
  | _ :: _ :: _ => rw [decodeDumpString, if_neg hc]

theorem lor_nibbles : ∀ hi, hi < 16 → ∀ lo, lo < 16 →
    UInt8.ofNat (hi * 16) ||| UInt8.ofNat lo = UInt8.ofNat (hi * 16 + lo) := by
  decide

theorem hexValue_hexStr (c : UInt8) : hexValue (hexDigit (c.toNat / 16)) (hexDigit (c.toNat % 16)) = c := by
  have hc : c.toNat < 256 := UInt8.toNat_lt_size c
  have hhi : c.toNat / 16 < 16 := by omega
  have hlo : c.toNat % 16 < 16 := by omega
  rw [hexValue, (hexDigit_bounds _ hhi).2, (hexDigit_bounds _ hlo).2]
  have h1 : ((c.toNat / 16 : Nat) * 16 % 256 : Int).toNat = c.toNat / 16 * 16 := by omega
  have h2 : ((c.toNat % 16 : Nat) % 256 : Int).toNat = c.toNat % 16 := by omega
  rw [h1, h2, lor_nibbles _ hhi _ hlo]
  exact UInt8.toNat.inj (by rw [UInt8.toNat_ofNat_of_lt (by simp only [UInt8.size]; omega)]; omega)

theorem decodeDumpString_encodeDumpString : ∀ L, decodeDumpString (encodeDumpString L) = L
  | [] => rfl
  | c :: L => by
    rw [encodeDumpString_cons]
    split_ifs with h
    · rw [hexStr, List.cons_append, List.cons_append, List.cons_append, List.nil_append, decodeDumpString,
        if_pos rfl, hexValue_hexStr, decodeDumpString_encodeDumpString L]
    · have hc : c ≠ chr '%' := fun h' => h (Or.inr (Or.inr h'))
      rw [List.singleton_append, decodeDumpString_cons_ne hc, decodeDumpString_encodeDumpString L]

theorem encodeDumpString_printable (L : List UInt8) :
    ∀ c ∈ encodeDumpString L, 0x21 ≤ c.toNat ∧ c.toNat ≤ 0x7f := by
  intro c hc
  obtain ⟨x, -, hx⟩ := List.mem_flatMap.mp hc
  have hx8 : x.toNat < 256 := UInt8.toNat_lt_size x
  split_ifs at hx with hesc
  · simp only [hexStr, List.mem_cons, List.mem_singleton, List.not_mem_nil, or_false] at hx
    rcases hx with rfl | rfl | rfl
    · decide
    · have := (hexDigit_bounds _ (by omega : x.toNat / 16 < 16)).1
      omega
    · have := (hexDigit_bounds _ (by omega : x.toNat % 16 < 16)).1
      omega
  · rw [List.mem_singleton] at hx
    subst hx
    omega

theorem ascii_label_ne (s : String) (hs : (ascii s).head? ≠ some (chr 'l')) (e : List UInt8) :
    ascii "label=" ++ e ≠ ascii s :=
  fun h => hs (by rw [← h]; rfl)

theorem scanKeyTokens_label (e : List UInt8) (vstr : List (List UInt8)) (strLabel : List UInt8)
    (fLabel found_hd_seed : Bool) :
    scanKeyTokens ((ascii "label=" ++ e) :: ascii "#" :: vstr) strLabel fLabel found_hd_seed =
      (decodeDumpString e, true, found_hd_seed) := by
  have hlabel : (ascii "label=").isPrefixOf (ascii "label=" ++ e) = true :=
    List.isPrefixOf_iff_prefix.mpr (List.prefix_append _ _)
  have hcomment : (ascii "#").isPrefixOf (ascii "#") = true :=
    List.isPrefixOf_iff_prefix.mpr (List.prefix_refl _)
  simp only [scanKeyTokens, hlabel, hcomment, if_neg (ascii_label_ne "change=1" (by decide) e),
    if_neg (ascii_label_ne "reserve=1" (by decide) e), if_neg (ascii_label_ne "hdmaster=1" (by decide) e),
    List.drop_left' (rfl : (ascii "label=").length = 6), ↓reduceIte]
  rfl

theorem dumpKeyLine_splitOn {secret strTime tag strAddr hdKeypath : List UInt8} (hs : chr ' ' ∉ secret)
    (ht : chr ' ' ∉ strTime) (htag : chr ' ' ∉ tag) (ha : chr ' ' ∉ strAddr) (hk : chr ' ' ∉ hdKeypath) :
    (dumpKeyLine secret strTime tag strAddr hdKeypath).splitOn (chr ' ') =
      [secret, strTime, tag, ascii "#", ascii "addr=" ++ strAddr] ++
        if hdKeypath.isEmpty then [] else [ascii "hdkeypath=" ++ hdKeypath] := by
  rw [dumpKeyLine_eq]
  refine List.splitOn_intercalate _ _ (fun l hl => ?_) (by simp)
  simp only [List.mem_append, List.mem_cons, List.not_mem_nil, or_false] at hl
  rcases hl with (rfl | rfl | rfl | rfl | rfl) | hl
  · exact hs
  · exact ht
  · exact htag
  · decide
  · exact fun h => (List.mem_append.mp h).elim (absurd · (by decide)) ha
  · split_ifs at hl
    · cases hl
    · rw [List.mem_singleton.mp hl]
      exact fun h => (List.mem_append.mp h).elim (absurd · (by decide)) hk

theorem label_not_mem_space {e : List UInt8} (he : chr ' ' ∉ e) : chr ' ' ∉ ascii "label=" ++ e :=
  fun h => (List.mem_append.mp h).elim (absurd · (by decide)) he

theorem importKeyLine_label {secret strTime e strAddr hdKeypath : List UInt8} (found_hd_seed : Bool)
    (hs : chr ' ' ∉ secret) (ht : chr ' ' ∉ strTime) (he : chr ' ' ∉ e) (ha : chr ' ' ∉ strAddr)
    (hk : chr ' ' ∉ hdKeypath) (hhead : secret.head? ≠ some (chr '#')) :
    importKeyLine (dumpKeyLine secret strTime (ascii "label=" ++ e) strAddr hdKeypath) found_hd_seed =
      some (decodeDumpString e, true, found_hd_seed) := by
  have htag := label_not_mem_space he
  have hline : ¬((dumpKeyLine secret strTime (ascii "label=" ++ e) strAddr hdKeypath).isEmpty ∨
      (dumpKeyLine secret strTime (ascii "label=" ++ e) strAddr hdKeypath).head? = some (chr '#')) := by
    cases secret with
    | nil => simp [dumpKeyLine, chr]
    | cons b secret => simpa [dumpKeyLine] using hhead
  unfold importKeyLine
  rw [if_neg hline, dumpKeyLine_splitOn hs ht htag ha hk, if_neg (by simp)]
  simp only [List.cons_append, List.drop_succ_cons, List.drop_zero, scanKeyTokens_label]

/-- A label survives EncodeDumpString, the dumpwallet key line, importwallet's split on ' ' and its
label scan. -/
theorem dumpString_roundTrip (L : List UInt8) :
    (∀ c ∈ encodeDumpString L, 0x21 ≤ c.toNat ∧ c.toNat ≤ 0x7f) ∧ decodeDumpString (encodeDumpString L) = L ∧
      ∀ (secret strTime strAddr hdKeypath : List UInt8) (isMasterKey inKeyPool found_hd_seed : Bool),
        chr ' ' ∉ secret → chr ' ' ∉ strTime → chr ' ' ∉ strAddr → chr ' ' ∉ hdKeypath →
        secret.head? ≠ some (chr '#') →
        ((dumpKeyLine secret strTime (dumpKeyTag (some L) isMasterKey inKeyPool) strAddr hdKeypath).splitOn
            (chr ' '))[2]? = some (ascii "label=" ++ encodeDumpString L) ∧
          importKeyLine (dumpKeyLine secret strTime (dumpKeyTag (some L) isMasterKey inKeyPool) strAddr hdKeypath)
            found_hd_seed = some (L, true, found_hd_seed) := by
  have he : chr ' ' ∉ encodeDumpString L := fun h => absurd (encodeDumpString_printable L _ h).1 (by decide)
  refine ⟨encodeDumpString_printable L, decodeDumpString_encodeDumpString L,
    fun secret strTime strAddr hdKeypath _ _ found_hd_seed hs ht ha hk hhead => ⟨?_, ?_⟩⟩
  · rw [dumpKeyTag, dumpKeyLine_splitOn hs ht (label_not_mem_space he) ha hk]
    rfl
  · rw [dumpKeyTag, importKeyLine_label found_hd_seed hs ht he ha hk hhead, decodeDumpString_encodeDumpString]

theorem dumpString_roundTrip_percentSpace :
    (chr ' ' ∉ ascii "5K" ∧ chr ' ' ∉ ascii "0Z" ∧ chr ' ' ∉ ascii "S" ∧ chr ' ' ∉ ([] : List UInt8) ∧
        (ascii "5K").head? ≠ some (chr '#')) ∧
      ((dumpKeyLine (ascii "5K") (ascii "0Z") (dumpKeyTag (some [0x25, 0x20, 0xe9]) false false) (ascii "S") []).splitOn
          (chr ' '))[2]? = some (ascii "label=" ++ encodeDumpString [0x25, 0x20, 0xe9]) ∧
      importKeyLine (dumpKeyLine (ascii "5K") (ascii "0Z") (dumpKeyTag (some [0x25, 0x20, 0xe9]) false false)
        (ascii "S") []) false = some ([0x25, 0x20, 0xe9], true, false) :=
  ⟨⟨by decide, by decide, by decide, by decide, by decide⟩,
    (dumpString_roundTrip [0x25, 0x20, 0xe9]).2.2 _ _ _ _ false false false (by decide) (by decide) (by decide)
      (by decide) (by decide)⟩

end GridcoinWallet
