import Mathlib.Algebra.GroupWithZero.Nat
import UnitCache.Text.Utf8

namespace UnitCache.Utf8

theorem toNat_ofNat_of_lt {n : Nat} (h : n < 256) : (UInt8.ofNat n).toNat = n := by
  simp only [UInt8.toNat_ofNat']
  omega

/-- A byte that follows the first one of a character. -/
theorem isTail_ofNat (n : Nat) : isTail (UInt8.ofNat (n % 0x40 + 0x80)) = true := by
  have h := toNat_ofNat_of_lt (show n % 0x40 + 0x80 < 256 by omega)
  simp only [isTail, Bool.and_eq_true, decide_eq_true_eq, UInt8.le_iff_toNat_le, h,
    UInt8.reduceToNat]
  omega

theorem low_tail (n : Nat) : low (UInt8.ofNat (n % 0x40 + 0x80)) 6 = n % 0x40 := by
  rw [low, toNat_ofNat_of_lt (by omega)]
  change (n % 0x40 + 0x80) % 64 = n % 0x40
  omega

section

variable {n : Nat} (bs : Bytes)

theorem pieces_one (h : n < 0x80) :
    pieces (UInt8.ofNat n :: bs) = .char (Char.ofNat n) :: pieces bs := by
  have ha := toNat_ofNat_of_lt (show n < 256 by omega)
  rw [pieces.eq_def]
  dsimp only
  rw [if_pos (by simpa [UInt8.lt_iff_toNat_lt, ha] using h), ha]

theorem pieces_two (h₁ : 0x80 ≤ n) (h₂ : n ≤ 0x7FF) :
    pieces (UInt8.ofNat (n / 64 % 0x20 + 0xC0) :: UInt8.ofNat (n % 0x40 + 0x80) :: bs) =
      .char (Char.ofNat n) :: pieces bs := by
  have ha := toNat_ofNat_of_lt (show n / 64 % 0x20 + 0xC0 < 256 by omega)
  have hlow : low (UInt8.ofNat (n / 64 % 0x20 + 0xC0)) 5 = n / 64 := by
    rw [low, ha]
    change _ % 32 = _
    omega
  rw [pieces.eq_def]
  dsimp only
  rw [if_neg, if_pos]
  · simp only [isTail_ofNat, ↓reduceIte, hlow, low_tail]
    rw [show n / 64 * 64 + n % 0x40 = n by omega]
  · simp only [Bool.and_eq_true, decide_eq_true_eq, UInt8.le_iff_toNat_le, ha, UInt8.reduceToNat]
    omega
  · simp only [UInt8.lt_iff_toNat_lt, ha, UInt8.reduceToNat]
    omega

theorem pieces_three (h₁ : 0x800 ≤ n) (h₂ : n ≤ 0xFFFF) (h₃ : n < 0xD800 ∨ 0xDFFF < n) :
    pieces (UInt8.ofNat (n / 4096 % 0x10 + 0xE0) :: UInt8.ofNat (n / 64 % 0x40 + 0x80) ::
      UInt8.ofNat (n % 0x40 + 0x80) :: bs) = .char (Char.ofNat n) :: pieces bs := by
  have ha := toNat_ofNat_of_lt (show n / 4096 % 0x10 + 0xE0 < 256 by omega)
  have hb := toNat_ofNat_of_lt (show n / 64 % 0x40 + 0x80 < 256 by omega)
  have hlow : low (UInt8.ofNat (n / 4096 % 0x10 + 0xE0)) 4 = n / 4096 := by
    rw [low, ha]
    change _ % 16 = _
    omega
  have hsecond : isSecondOfThree (UInt8.ofNat (n / 4096 % 0x10 + 0xE0))
      (UInt8.ofNat (n / 64 % 0x40 + 0x80)) = true := by
    simp only [isSecondOfThree, isTail, ← UInt8.toNat_inj, UInt8.le_iff_toNat_le, ha, hb,
      UInt8.reduceToNat]
    split
    · simp only [Bool.and_eq_true, decide_eq_true_eq]
      omega
    · split
      · simp only [Bool.and_eq_true, decide_eq_true_eq]
        omega
      · simp only [Bool.and_eq_true, decide_eq_true_eq]
        omega
  rw [pieces.eq_def]
  dsimp only
  rw [if_neg, if_neg, if_pos]
  · simp only [hsecond, isTail_ofNat, ↓reduceIte, hlow, low_tail]
    rw [show (n / 4096 * 64 + n / 64 % 0x40) * 64 + n % 0x40 = n by omega]
  · simp only [Bool.and_eq_true, decide_eq_true_eq, UInt8.le_iff_toNat_le, ha, UInt8.reduceToNat]
    omega
  · simp only [Bool.and_eq_true, decide_eq_true_eq, UInt8.le_iff_toNat_le, ha, UInt8.reduceToNat]
    omega
  · simp only [UInt8.lt_iff_toNat_lt, ha, UInt8.reduceToNat]
    omega

theorem pieces_four (h₁ : 0x10000 ≤ n) (h₂ : n < 0x110000) :
    pieces (UInt8.ofNat (n / 262144 % 0x08 + 0xF0) :: UInt8.ofNat (n / 4096 % 0x40 + 0x80) ::
      UInt8.ofNat (n / 64 % 0x40 + 0x80) :: UInt8.ofNat (n % 0x40 + 0x80) :: bs) =
        .char (Char.ofNat n) :: pieces bs := by
  have ha := toNat_ofNat_of_lt (show n / 262144 % 0x08 + 0xF0 < 256 by omega)
  have hb := toNat_ofNat_of_lt (show n / 4096 % 0x40 + 0x80 < 256 by omega)
  have hlow : low (UInt8.ofNat (n / 262144 % 0x08 + 0xF0)) 3 = n / 262144 := by
    rw [low, ha]
    change _ % 8 = _
    omega
  have hsecond : isSecondOfFour (UInt8.ofNat (n / 262144 % 0x08 + 0xF0))
      (UInt8.ofNat (n / 4096 % 0x40 + 0x80)) = true := by
    simp only [isSecondOfFour, isTail, ← UInt8.toNat_inj, UInt8.le_iff_toNat_le, ha, hb,
      UInt8.reduceToNat]
    split
    · simp only [Bool.and_eq_true, decide_eq_true_eq]
      omega
    · split
      · simp only [Bool.and_eq_true, decide_eq_true_eq]
        omega
      · simp only [Bool.and_eq_true, decide_eq_true_eq]
        omega
  rw [pieces.eq_def]
  dsimp only
  rw [if_neg, if_neg, if_neg, if_pos]
  · simp only [hsecond, isTail_ofNat, ↓reduceIte, hlow, low_tail]
    rw [show ((n / 262144 * 64 + n / 4096 % 0x40) * 64 + n / 64 % 0x40) * 64 + n % 0x40 = n by
      omega]
  · simp only [Bool.and_eq_true, decide_eq_true_eq, UInt8.le_iff_toNat_le, ha, UInt8.reduceToNat]
    omega
  · simp only [Bool.and_eq_true, decide_eq_true_eq, UInt8.le_iff_toNat_le, ha, UInt8.reduceToNat]
    omega
  · simp only [Bool.and_eq_true, decide_eq_true_eq, UInt8.le_iff_toNat_le, ha, UInt8.reduceToNat]
    omega
  · simp only [UInt8.lt_iff_toNat_lt, ha, UInt8.reduceToNat]
    omega

end

/-- The bytes of a character are read as that character. -/
theorem pieces_append (c : Char) (bs : Bytes) :
    pieces (String.utf8EncodeChar c ++ bs) = .char c :: pieces bs := by
  have hv : c.val.toNat < 0xD800 ∨ 0xDFFF < c.val.toNat ∧ c.val.toNat < 0x110000 := c.valid
  have hc : Char.ofNat c.val.toNat = c := Char.ofNat_toNat c
  unfold String.utf8EncodeChar
  dsimp only
  split
  · rw [List.cons_append, List.nil_append, pieces_one bs (by omega), hc]
  · split
    · simp only [List.cons_append, List.nil_append]
      rw [pieces_two bs (by omega) (by omega), hc]
    · split
      · simp only [List.cons_append, List.nil_append]
        rw [pieces_three bs (by omega) (by omega) (by omega), hc]
      · simp only [List.cons_append, List.nil_append]
        rw [pieces_four bs (by omega) (by omega), hc]

theorem pieces_flatMap (cs : List Char) :
    pieces (cs.flatMap String.utf8EncodeChar) = cs.map .char := by
  induction cs with
  | nil => rfl
  | cons c cs ih => rw [List.flatMap_cons, pieces_append, ih, List.map_cons]

/-- A text that is written and read back is the same. -/
theorem decodeLossy_encode (s : String) : decodeLossy (encode s) = s := by
  rw [decodeLossy, encode, pieces_flatMap, List.map_map]
  have hid : Piece.show ∘ Piece.char = id := rfl
  rw [hid, List.map_id, String.ofList_toList]

theorem joinPieces_char (index : Nat) (cs : List Char) :
    joinPieces index (cs.map .char) = .ok cs := by
  induction cs generalizing index with
  | nil => rfl
  | cons c cs ih => rw [List.map_cons, joinPieces, ih]; rfl

/-- A text that is written is read back without a fault. -/
theorem decode_encode (s : String) : decode (encode s) = .ok s := by
  rw [decode, encode, pieces_flatMap, joinPieces_char]
  exact congrArg Except.ok String.ofList_toList

theorem isTail_of_mem_tail {c : Char} {x : UInt8} (h : x ∈ (String.utf8EncodeChar c).tail) :
    isTail x = true := by
  unfold String.utf8EncodeChar at h
  dsimp only at h
  split at h
  · simp at h
  · split at h
    · simp only [List.tail_cons, List.mem_cons, List.not_mem_nil, or_false] at h
      exact h ▸ isTail_ofNat _
    · split at h
      · simp only [List.tail_cons, List.mem_cons, List.not_mem_nil, or_false] at h
        rcases h with rfl | rfl <;> exact isTail_ofNat _
      · simp only [List.tail_cons, List.mem_cons, List.not_mem_nil, or_false] at h
        rcases h with rfl | rfl | rfl <;> exact isTail_ofNat _

/-- Only a character of one byte begins with an ASCII byte. -/
theorem utf8EncodeChar_of_head {c : Char} {x : UInt8} {bs : Bytes}
    (h : String.utf8EncodeChar c = x :: bs) (hx : x < 0x80) : bs = [] := by
  have hlt := UInt8.lt_iff_toNat_lt.mp hx
  simp only [UInt8.reduceToNat] at hlt
  unfold String.utf8EncodeChar at h
  dsimp only at h
  split at h
  · simp only [List.cons.injEq] at h
    exact h.2.symm
  · exfalso
    split at h
    · obtain ⟨rfl, -⟩ := List.cons.inj h
      rw [toNat_ofNat_of_lt (by omega)] at hlt
      omega
    · split at h
      · obtain ⟨rfl, -⟩ := List.cons.inj h
        rw [toNat_ofNat_of_lt (by omega)] at hlt
        omega
      · obtain ⟨rfl, -⟩ := List.cons.inj h
        rw [toNat_ofNat_of_lt (by omega)] at hlt
        omega

theorem isTail_of_ascii {x : UInt8} (hx : x < 0x80) : isTail x = false := by
  simp only [isTail, Bool.and_eq_false_iff, decide_eq_false_iff_not]
  exact .inl (UInt8.not_le.mpr hx)

/-- Only the character zero has the byte zero. -/
theorem utf8EncodeChar_zero {c : Char} (h : 0 ∈ String.utf8EncodeChar c) : c = '\x00' := by
  cases hc : String.utf8EncodeChar c with
  | nil =>
    rw [hc] at h
    cases h
  | cons x bs =>
    rw [hc] at h
    rcases List.mem_cons.mp h with rfl | ht
    · obtain rfl := utf8EncodeChar_of_head hc (by decide)
      have hs : encode (String.ofList [c]) = encode (String.ofList ['\x00']) := by
        simp [encode, hc]
        rfl
      have hd := congrArg decode hs
      rw [decode_encode, decode_encode] at hd
      simpa using congrArg String.toList (Except.ok.inj hd)
    · have htail := isTail_of_mem_tail (c := c) (by rw [hc]; exact ht)
      cases htail

theorem zero_not_mem_encode {s : String} (h : '\x00' ∉ s.toList) : 0 ∉ encode s := by
  intro hz
  obtain ⟨c, hc, hzero⟩ := List.mem_flatMap.mp hz
  exact h (utf8EncodeChar_zero hzero ▸ hc)

/-- A text cut before a byte that begins a character is cut between characters. -/
theorem flatMap_split {cs : List Char} {a b : Bytes}
    (h : cs.flatMap String.utf8EncodeChar = a ++ b)
    (hb : ∀ x, b.head? = some x → isTail x = false) :
    ∃ cs₁ cs₂ : List Char,
      a = cs₁.flatMap String.utf8EncodeChar ∧ b = cs₂.flatMap String.utf8EncodeChar := by
  induction cs generalizing a with
  | nil =>
    obtain ⟨rfl, rfl⟩ := List.append_eq_nil_iff.mp h.symm
    exact ⟨[], [], rfl, rfl⟩
  | cons c cs ih =>
    cases a with
    | nil => exact ⟨[], c :: cs, rfl, h.symm⟩
    | cons y a =>
      rw [List.flatMap_cons] at h
      rcases List.append_eq_append_iff.mp h with ⟨a', ha, hr⟩ | ⟨c', hc, hr⟩
      · obtain ⟨cs₁, cs₂, h₁, h₂⟩ := ih hr
        exact ⟨c :: cs₁, cs₂, by rw [ha, h₁, List.flatMap_cons], h₂⟩
      · cases c' with
        | nil =>
          rw [List.append_nil] at hc
          exact ⟨[c], cs, by rw [List.flatMap_singleton, hc], hr⟩
        | cons x c' =>
          have hx : x ∈ (String.utf8EncodeChar c).tail := by simp [hc]
          have ht := isTail_of_mem_tail hx
          rw [hb x (by rw [hr]; rfl)] at ht
          cases ht

/-- A text without its first character, when that is ASCII, is a text. -/
theorem flatMap_tail {cs : List Char} {x : UInt8} {bs : Bytes}
    (h : x :: bs = cs.flatMap String.utf8EncodeChar) (hx : x < 0x80) :
    ∃ cs' : List Char, bs = cs'.flatMap String.utf8EncodeChar := by
  cases cs with
  | nil => cases h
  | cons c cs =>
    rw [List.flatMap_cons] at h
    cases hc : String.utf8EncodeChar c with
    | nil =>
      have hlen := String.length_utf8EncodeChar c
      rw [hc] at hlen
      exact absurd hlen (by have := c.utf8Size_pos; simp only [List.length_nil]; omega)
    | cons y ys =>
      rw [hc] at h
      obtain ⟨rfl, hbs⟩ := List.cons.inj h
      have hys := utf8EncodeChar_of_head hc hx
      exact ⟨cs, by simpa [hys] using hbs⟩

/-- What stands in a text after an ASCII byte, and before one or the end, is a text. -/
theorem encode_between {s : String} {before between after : Bytes} {x : UInt8}
    (h : encode s = before ++ x :: (between ++ after)) (hx : x < 0x80)
    (hafter : ∀ y, after.head? = some y → y < 0x80) : ∃ t, between = encode t := by
  obtain ⟨_, cs, -, hcs⟩ := flatMap_split h fun z hz => by
    obtain rfl : x = z := by simpa using hz
    exact isTail_of_ascii hx
  obtain ⟨cs', hcs'⟩ := flatMap_tail hcs hx
  obtain ⟨cs₁, _, h₁, -⟩ := flatMap_split hcs'.symm fun z hz => isTail_of_ascii (hafter z hz)
  exact ⟨String.ofList cs₁, by rw [encode, String.toList_ofList, h₁]⟩

/-- What stands in a text after an ASCII byte, and before one or the end, stays the same when it is
read and written. -/
theorem encode_decodeLossy {s : String} {before between after : Bytes} {x : UInt8}
    (h : encode s = before ++ x :: (between ++ after)) (hx : x < 0x80)
    (hafter : ∀ y, after.head? = some y → y < 0x80) : encode (decodeLossy between) = between := by
  obtain ⟨t, rfl⟩ := encode_between h hx hafter
  rw [decodeLossy_encode]

def Piece.size : Piece → Nat
  | .char c => c.utf8Size
  | _ => 0

theorem toNat_ofNat_le (n : Nat) : (Char.ofNat n).val.toNat ≤ n := by
  by_cases h : n.isValidChar
  · rw [Char.ofNat, dif_pos h]
    exact Nat.le_refl n
  · rw [Char.ofNat, dif_neg h]
    exact Nat.zero_le n

theorem utf8Size_ofNat (n : Nat) : (Char.ofNat n).utf8Size ≤
    if n < 0x80 then 1 else if n < 0x800 then 2 else if n < 0x10000 then 3 else 4 := by
  have h := toNat_ofNat_le n
  simp only [Char.utf8Size, UInt32.le_iff_toNat_le, UInt32.toNat_ofNatLT]
  grind

theorem low_lt (b : UInt8) (bits : Nat) : low b bits < 2 ^ bits :=
  Nat.mod_lt _ (Nat.two_pow_pos bits)

theorem utf8Size_two (a b : UInt8) : (Char.ofNat (low a 5 * 64 + low b 6)).utf8Size ≤ 2 := by
  have ha : low a 5 < 32 := low_lt a 5
  have hb : low b 6 < 64 := low_lt b 6
  have := utf8Size_ofNat (low a 5 * 64 + low b 6)
  grind

theorem utf8Size_three (a b c : UInt8) :
    (Char.ofNat ((low a 4 * 64 + low b 6) * 64 + low c 6)).utf8Size ≤ 3 := by
  have ha : low a 4 < 16 := low_lt a 4
  have hb : low b 6 < 64 := low_lt b 6
  have hc : low c 6 < 64 := low_lt c 6
  have := utf8Size_ofNat ((low a 4 * 64 + low b 6) * 64 + low c 6)
  grind

/-- A piece that is a character is read from no fewer bytes than it is written with. -/
theorem sum_size_pieces (bs : Bytes) : ((pieces bs).map Piece.size).sum ≤ bs.length := by
  fun_induction pieces bs with
  | case2 a r h ih =>
    have ha : a.toNat < 0x80 := by simpa [UInt8.lt_iff_toNat_lt] using h
    have := utf8Size_ofNat a.toNat
    simp only [List.map_cons, List.sum_cons, Piece.size, List.length_cons]
    grind
  | _ =>
    simp only [List.map_cons, List.map_nil, List.sum_cons, List.sum_nil, Piece.size,
      List.length_cons, List.length_nil] at *
    grind [utf8Size_two, utf8Size_three, Char.utf8Size_le_four]

theorem length_flatMap_encode {index : Nat} {ps : List Piece} {cs : List Char}
    (h : joinPieces index ps = .ok cs) :
    (cs.flatMap String.utf8EncodeChar).length = (ps.map Piece.size).sum := by
  induction ps generalizing index cs with
  | nil =>
    cases h
    rfl
  | cons p ps ih =>
    cases p with
    | char c =>
      unfold joinPieces at h
      cases hj : joinPieces (index + c.utf8Size) ps with
      | error f => simp [hj, Except.map] at h
      | ok ds =>
        rw [hj] at h
        cases h
        simp [Piece.size, ih hj]
    | broken n => cases h
    | cut n => cases h

/-- A text that was read is written with no more bytes than it was read from. -/
theorem length_encode_le {bs : Bytes} {s : String} (h : decode bs = .ok s) :
    (encode s).length ≤ bs.length := by
  unfold decode at h
  cases hj : joinPieces 0 (pieces bs) with
  | error f => simp [hj, Except.map] at h
  | ok cs =>
    rw [hj] at h
    cases h
    rw [encode, String.toList_ofList, length_flatMap_encode hj]
    exact sum_size_pieces bs

theorem length_encode (s : String) : (encode s).length = s.utf8ByteSize := by
  rw [← String.size_toByteArray, ← String.utf8Encode_toList, List.utf8Encode,
    List.size_toByteArray, encode]

end UnitCache.Utf8
