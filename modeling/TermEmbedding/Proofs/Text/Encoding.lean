import TermEmbedding.Text.Encoding

/-!
# Bytes that are written

Data files are written in UTF-8 and with ASCII characters alone. Such a file holds no zero bytes and
begins with no mark, so it is taken for what it is, and its code points are the characters that were
written.
-/

namespace TermEmbedding

/-- Whether a character is one of the ASCII characters other than the zero character. -/
def IsAscii (c : Char) : Prop := 0 < c.toNat ∧ c.toNat < 128

namespace CodePoint

@[simp] theorem ofNat?_toNat (c : Char) : ofNat? c.toNat = some (char c) := by
  have hvalid : c.toNat.isValidChar := c.valid
  rw [ofNat?, dif_pos hvalid]
  rfl

end CodePoint

namespace Encoding

variable {t : Text}

private theorem utf8EncodeChar_of_isAscii {c : Char} (h : IsAscii c) :
    String.utf8EncodeChar c = [UInt8.ofNat c.toNat] := by
  have hle : c.val.toNat ≤ 127 := Nat.le_of_lt_succ h.2
  rw [String.utf8EncodeChar, if_pos hle]
  rfl

private theorem toNat_of_isAscii {c : Char} (h : IsAscii c) :
    (UInt8.ofNat c.toNat).toNat = c.toNat := by
  have hlt : c.toNat < 256 := Nat.lt_trans h.2 (by decide)
  rw [UInt8.toNat_ofNat', Nat.mod_eq_of_lt hlt]

theorem utf8_of_isAscii (h : ∀ c ∈ t, IsAscii c) :
    Text.utf8 t = t.map fun c ↦ UInt8.ofNat c.toNat := by
  induction t with
  | nil => rfl
  | cons c t ih =>
    rw [List.forall_mem_cons] at h
    rw [Text.utf8, List.flatMap_cons, utf8EncodeChar_of_isAscii h.1, List.map_cons, ← ih h.2]
    rfl

private theorem decodeUtf8_cons {a : UInt8} (h : a.toNat < 0x80) (rest : Bytes) :
    decodeUtf8 (a :: rest) = (do
      let p ← CodePoint.ofNat? a.toNat
      return p :: (← decodeUtf8 rest)) := by
  rw [decodeUtf8.eq_def]
  exact if_pos h

theorem decodeUtf8_utf8 (h : ∀ c ∈ t, IsAscii c) :
    decodeUtf8 (Text.utf8 t) = some t.codePoints := by
  rw [utf8_of_isAscii h]
  induction t with
  | nil => rfl
  | cons c t ih =>
    rw [List.forall_mem_cons] at h
    have hlt : (UInt8.ofNat c.toNat).toNat < 0x80 := by
      rw [toNat_of_isAscii h.1]
      exact h.1.2
    rw [List.map_cons, decodeUtf8_cons hlt, toNat_of_isAscii h.1, CodePoint.ofNat?_toNat, ih h.2]
    rfl

private theorem ofZeros_of_forall {bytes : Bytes} (h : ∀ b ∈ bytes, b ≠ 0) :
    ofZeros bytes = .utf8 := by
  rcases bytes with _ | ⟨a, _ | ⟨b, _ | ⟨c, _ | ⟨d, rest⟩⟩⟩⟩
  · rfl
  · rfl
  · rw [ofZeros, if_neg (h a (by simp)), if_neg (h b (by simp))]
  · rfl
  · rw [ofZeros, if_neg (h a (by simp)), if_neg (h b (by simp))]

private theorem detect_of_forall {bytes : Bytes} (h : ∀ b ∈ bytes, 0 < b.toNat ∧ b.toNat < 0x80) :
    detect bytes = (.utf8, bytes) := by
  have hmarks : ∀ row ∈ marks, ¬row.1.isPrefixOf bytes = true := by
    cases bytes with
    | nil => decide
    | cons b bytes =>
      have hfirst : ∀ m : UInt8, m = 0x00 ∨ m = 0xFF ∨ m = 0xFE ∨ m = 0xEF → m ≠ b := by
        have hb := h b List.mem_cons_self
        rintro m hm rfl
        rcases hm with rfl | rfl | rfl | rfl <;> exact absurd hb (by decide)
      simp [marks, hfirst]
  rw [detect, List.find?_eq_none.mpr hmarks]
  dsimp only
  rw [ofZeros_of_forall fun b hb hzero ↦ ?_]
  have hpos := (h b hb).1
  rw [hzero] at hpos
  exact Nat.lt_irrefl 0 hpos

end Encoding

/-- **A file that is written in ASCII is read as it was written.** -/
theorem Bytes.codePoints?_utf8 {t : Text} (h : ∀ c ∈ t, IsAscii c) :
    Bytes.codePoints? (Text.utf8 t) = some t.codePoints := by
  have hbytes : ∀ b ∈ Text.utf8 t, 0 < b.toNat ∧ b.toNat < 0x80 := by
    rw [Encoding.utf8_of_isAscii h]
    intro b hb
    obtain ⟨c, hc, rfl⟩ := List.mem_map.mp hb
    rw [Encoding.toNat_of_isAscii (h c hc)]
    exact h c hc
  rw [Bytes.codePoints?, Encoding.detect_of_forall hbytes]
  exact Encoding.decodeUtf8_utf8 h

end TermEmbedding
