import Mathlib.Data.List.TakeWhile

/-!
# Bytes of a text

A text is a sequence of characters and a sequence of bytes.  An ASCII character is one byte
with its number; every other character begins with a byte above those of continuations.  A
text can be cut at a byte position only if the position is a boundary of characters.

Main results:

- Definition {lit}`slice?`: the part of a text between two byte positions.
- Theorem {lit}`slice?_append`: a part of a text is cut out at its boundaries.
- Theorem {lit}`takeWhile_bytes`: a run of ASCII characters, found byte by byte.
-/

namespace ShaderAssets
namespace Text

/-- The bytes of a text in UTF-8. -/
def bytes (s : String) : List UInt8 :=
  s.toByteArray.data.toList

/-- A byte position with whole characters on both sides. -/
def IsBoundary (s : String) (i : Nat) : Prop :=
  (String.Pos.Raw.mk i).IsValid s

instance (s : String) (i : Nat) : Decidable (IsBoundary s i) :=
  inferInstanceAs (Decidable ((String.Pos.Raw.mk i).IsValid s))

/-- The part of a text between two byte positions; nothing if they are not boundaries in this
order. -/
def slice? (s : String) (start stop : Nat) : Option String :=
  if h : start ≤ stop ∧ IsBoundary s start ∧ IsBoundary s stop then
    some (s.extract ⟨⟨start⟩, h.2.1⟩ ⟨⟨stop⟩, h.2.2⟩)
  else none

/-! ## Parts of a text -/

/-- The bytes of a text are those of its characters. -/
theorem bytes_ofList (l : List Char) :
    bytes (String.ofList l) = l.flatMap String.utf8EncodeChar := by
  rw [bytes, String.toByteArray_ofList, List.utf8Encode, List.data_toByteArray]

/-- The bytes of a text are those of its parts. -/
theorem bytes_append (s t : String) : bytes (s ++ t) = bytes s ++ bytes t := by
  rw [bytes, String.toByteArray_append, ByteArray.data_append, Array.toList_append]
  rfl

/-- A text is the bytes that it has. -/
theorem bytes_inj {s t : String} : bytes s = bytes t ↔ s = t := by
  rw [bytes, bytes, Array.toList_inj, ← String.toByteArray_inj]
  exact ⟨ByteArray.ext, congrArg ByteArray.data⟩

/-- Between two parts of a text is a boundary. -/
theorem isBoundary_append (s t : String) : IsBoundary (s ++ t) (bytes s).length := by
  refine String.Pos.Raw.isValid_iff_exists_append.mpr ⟨s, t, rfl, ?_⟩
  rw [String.Pos.Raw.ext_iff, String.byteIdx_rawEndPos, ← String.size_toByteArray]
  rfl

/-- A part of a text is cut out at its boundaries. -/
theorem slice?_append (front part back : String) :
    slice? (front ++ (part ++ back)) (bytes front).length (bytes (front ++ part)).length =
      some part := by
  have hstop : IsBoundary (front ++ (part ++ back)) (bytes (front ++ part)).length := by
    rw [← String.append_assoc]
    exact isBoundary_append (front ++ part) back
  have hle : (bytes front).length ≤ (bytes (front ++ part)).length := by
    rw [bytes_append, List.length_append]
    exact Nat.le_add_right _ _
  rw [slice?, dif_pos ⟨hle, isBoundary_append front (part ++ back), hstop⟩, Option.some.injEq,
    ← bytes_inj]
  have hextract : ∀ (s : String) (b e : s.Pos), bytes (s.extract b e) =
      ((bytes s).drop b.offset.byteIdx).take (e.offset.byteIdx - b.offset.byteIdx) := by
    intro s b e
    simp [bytes, String.toByteArray_extract, ByteArray.data_extract, List.extract_eq_take_drop]
  rw [hextract]
  simp only [bytes_append, List.length_append, List.drop_left, Nat.add_sub_cancel_left,
    List.take_left]

/-! ## Bytes of a character -/

/-- A byte taken as a character keeps its number. -/
theorem toNat_ofUInt8 (b : UInt8) : (Char.ofUInt8 b).toNat = b.toNat :=
  UInt8.toNat_toUInt32 b

/-- An ASCII character is one byte, whose number it has. -/
theorem utf8EncodeChar_of_ascii {c : Char} (h : c.toNat < 128) :
    ∃ b, String.utf8EncodeChar c = [b] ∧ Char.ofUInt8 b = c := by
  have hsmall : c.val.toNat ≤ 127 := Nat.le_of_lt_succ h
  refine ⟨UInt8.ofNat c.val.toNat, by rw [String.utf8EncodeChar, if_pos hsmall], ?_⟩
  have hbyte : c.val.toNat < UInt8.size := Nat.lt_of_le_of_lt hsmall (by decide)
  apply Char.toNat_inj.mp
  rw [toNat_ofUInt8, UInt8.toNat_ofNat_of_lt' hbyte]
  rfl

/-- Another character begins with a byte above those of continuations. -/
theorem utf8EncodeChar_of_not_ascii {c : Char} (h : 128 ≤ c.toNat) :
    ∃ b more, String.utf8EncodeChar c = b :: more ∧ 192 ≤ b.toNat := by
  have hlead : ∀ (n k : Nat), 192 ≤ k → n + k < UInt8.size → 192 ≤ (UInt8.ofNat (n + k)).toNat := by
    intro n k hk hlt
    rw [UInt8.toNat_ofNat_of_lt' hlt]
    exact Nat.le_add_left_of_le hk
  have hfirst : ¬c.val.toNat ≤ 127 := Nat.not_le.mpr h
  rw [String.utf8EncodeChar, if_neg hfirst]
  split_ifs
  · exact ⟨_, _, rfl, hlead _ _ (by decide) (by simp [UInt8.size]; omega)⟩
  · exact ⟨_, _, rfl, hlead _ _ (by decide) (by simp [UInt8.size]; omega)⟩
  · exact ⟨_, _, rfl, hlead _ _ (by decide) (by simp [UInt8.size]; omega)⟩

/-- A run of ASCII characters is found byte by byte. -/
theorem takeWhile_bytes {p : Char → Bool} (hp : ∀ c, p c = true → c.toNat < 128) (l : List Char) :
    (bytes (String.ofList l)).takeWhile (fun b => p (Char.ofUInt8 b)) =
      bytes (String.ofList (l.takeWhile p)) := by
  rw [bytes_ofList, bytes_ofList]
  induction l with
  | nil => rfl
  | cons c l ih =>
      by_cases hc : c.toNat < 128
      · obtain ⟨b, hb, hbyte⟩ := utf8EncodeChar_of_ascii hc
        rw [List.flatMap_cons, hb, List.singleton_append]
        cases hpc : p c with
        | true =>
            rw [List.takeWhile_cons_of_pos (by rw [hbyte, hpc]), List.takeWhile_cons_of_pos hpc, ih,
              List.flatMap_cons, hb, List.singleton_append]
        | false =>
            rw [List.takeWhile_cons_of_neg (by simp [hbyte, hpc]),
              List.takeWhile_cons_of_neg (by simp [hpc]), List.flatMap_nil]
      · obtain ⟨b, more, hb, hlead⟩ := utf8EncodeChar_of_not_ascii (Nat.le_of_not_lt hc)
        have hbyte : ¬p (Char.ofUInt8 b) = true := fun h => by
          have hsmall := hp _ h
          rw [toNat_ofUInt8] at hsmall
          omega
        rw [List.flatMap_cons, hb, List.cons_append,
          List.takeWhile_cons_of_neg (p := fun b => p (Char.ofUInt8 b)) hbyte,
          List.takeWhile_cons_of_neg fun h => hc (hp c h), List.flatMap_nil]

end Text
end ShaderAssets
