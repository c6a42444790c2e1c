import AccessTrace.Proofs.Memory.Bytes
import AccessTrace.Record.Layout

/-!
# Records in memory

Records are read out of memory one after the other. Each depends on its own bytes only, and on the
four fields that are stored there one by one; the padding between them does not matter.
-/

namespace AccessTrace

open AddressSpace (Written)

namespace Record

theorem ofBytes?_append {xs : List UInt8} (h : length ≤ xs.length) (ys : List UInt8) :
    ofBytes? (xs ++ ys) = ofBytes? xs := by
  have hslice (offset count : Nat) (hfits : offset + count ≤ length) :
      ((xs ++ ys).drop offset).take count = (xs.drop offset).take count := by
    rw [List.drop_append_of_le_length (by omega), List.take_append_of_le_length]
    rw [List.length_drop]
    omega
  have htake : (xs ++ ys).take length = xs.take length := List.take_append_of_le_length h
  unfold ofBytes?
  simp only [htake]
  rw [hslice isWriteOffset 4 (by decide), hslice addressOffset 8 (by decide),
    hslice sizeOffset 8 (by decide), hslice originOffset 8 (by decide)]

/-- One more record is read from behind the others. -/
theorem readMany_append (n : Nat) {xs : List UInt8} (h : xs.length = n * length)
    (ys : List UInt8) : readMany (n + 1) (xs ++ ys) = readMany n xs ++ (ofBytes? ys).toList := by
  induction n generalizing xs with
  | zero =>
    obtain rfl : xs = [] := List.length_eq_zero_iff.1 (by omega)
    simp [readMany]
  | succ n ih =>
    have hlong : length ≤ xs.length := by
      rw [h, Nat.add_mul]
      omega
    have hrest : (xs.drop length).length = n * length := by
      rw [List.length_drop, h, Nat.add_mul]
      omega
    rw [readMany, ofBytes?_append hlong, List.drop_append_of_le_length hlong, ih hrest,
      readMany, List.append_assoc]

/-- A record is read back from its bytes. -/
theorem ofBytes?_toBytes (r : Record) : ofBytes? r.toBytes = some r := by
  have hword (w : Word) : UInt64.ofNat (ofLittleEndian (littleEndian 8 w.toNat)) = w := by
    have hlt : w.toNat < 256 ^ 8 := w.toNat_lt
    rw [ofLittleEndian_littleEndian, Nat.mod_eq_of_lt hlt, UInt64.ofNat_toNat]
  have hdirection : UInt32.ofNat (ofLittleEndian (littleEndian 4 r.isWrite.toNat)) = r.isWrite := by
    have hlt : r.isWrite.toNat < 256 ^ 4 := r.isWrite.toNat_lt
    rw [ofLittleEndian_littleEndian, Nat.mod_eq_of_lt hlt, UInt32.ofNat_toNat]
  have hslices : (r.toBytes.drop isWriteOffset).take 4 = littleEndian 4 r.isWrite.toNat ∧
      (r.toBytes.drop addressOffset).take 8 = littleEndian 8 r.address.toNat ∧
      (r.toBytes.drop sizeOffset).take 8 = littleEndian 8 r.size.toNat ∧
      (r.toBytes.drop originOffset).take 8 = littleEndian 8 r.origin.toNat := by
    simp [toBytes, List.drop_append, List.drop_eq_nil_of_le, List.take_of_length_le,
      isWriteOffset, addressOffset, sizeOffset, originOffset]
  have hlong : ¬ (r.toBytes.take length).length < length := by
    simp
  unfold ofBytes?
  simp only [if_neg hlong, hslices, hword, hdirection]

theorem length_flatMap_toBytes (rs : List Record) :
    (rs.flatMap toBytes).length = rs.length * length := by
  rw [List.length_flatMap, List.map_congr_left fun r _ => length_toBytes r, List.map_const',
    List.sum_replicate_nat]

/-- Records are read back from their bytes, one behind the other. -/
theorem readMany_flatMap (rs : List Record) : readMany rs.length (rs.flatMap toBytes) = rs := by
  induction rs with
  | nil => rfl
  | cons r rs ih =>
    rw [List.length_cons, List.flatMap_cons, readMany, ofBytes?_append (by simp),
      ofBytes?_toBytes, List.drop_left' (length_toBytes r), ih]
    rfl

/-- What cleared storage reads as. -/
def zero : Record := ⟨0, 0, 0, 0⟩

theorem flatMap_replicate_zero (count : Nat) :
    (List.replicate count zero).flatMap toBytes = List.replicate (count * length) 0 := by
  have hzero : zero.toBytes = List.replicate length 0 := by decide
  induction count with
  | zero => simp
  | succ count ih =>
    rw [List.replicate_succ, List.flatMap_cons, ih, hzero, List.replicate_append_replicate,
      Nat.succ_mul, Nat.add_comm]

/-- A record in memory, field by field. -/
theorem ofBytes?_bytesAt (m : AddressSpace) (a : Nat) :
    ofBytes? (m.bytesAt a length) = some
      ⟨UInt32.ofNat (ofLittleEndian (m.bytesAt (a + isWriteOffset) 4)),
        m.wordAt (a + addressOffset) 8, m.wordAt (a + sizeOffset) 8,
        m.wordAt (a + originOffset) 8⟩ := by
  have hshort : ¬ ((m.bytesAt a length).take length).length < length := by
    simp
  unfold ofBytes?
  rw [if_neg hshort]
  simp only
  rw [m.bytesAt_slice (by decide), m.bytesAt_slice (by decide), m.bytesAt_slice (by decide),
    m.bytesAt_slice (by decide)]
  rfl

/-- A record that was stored field by field. -/
theorem ofBytes?_of_written {m m₁ m₂ m₃ m₄ : AddressSpace} {a : Nat}
    {isWrite address size origin : Word}
    (h₁ : Written m (a + isWriteOffset) (littleEndian 4 isWrite.toNat) m₁)
    (h₂ : Written m₁ (a + addressOffset) (littleEndian 8 address.toNat) m₂)
    (h₃ : Written m₂ (a + sizeOffset) (littleEndian 8 size.toNat) m₃)
    (h₄ : Written m₃ (a + originOffset) (littleEndian 8 origin.toNat) m₄) :
    ofBytes? (m₄.bytesAt a length) =
      some ⟨UInt32.ofNat (isWrite.toNat % 2 ^ 32), address, size, origin⟩ := by
  -- Each field was stored last by its own store; the later ones are apart from it.
  have hdirection : m₄.bytesAt (a + isWriteOffset) 4 = littleEndian 4 isWrite.toNat := by
    rw [h₄.bytesAt_apart (Or.inl (by simp [isWriteOffset, originOffset])),
      h₃.bytesAt_apart (Or.inl (by simp [isWriteOffset, sizeOffset])),
      h₂.bytesAt_apart (Or.inl (by simp [isWriteOffset, addressOffset]))]
    have hself := h₁.bytesAt_self
    rwa [length_littleEndian] at hself
  have haddress : m₄.wordAt (a + addressOffset) 8 = address := by
    rw [h₄.wordAt_apart (Or.inl (by simp [addressOffset, originOffset])),
      h₃.wordAt_apart (Or.inl (by simp [addressOffset, sizeOffset])), h₂.wordAt_self]
  have hsize : m₄.wordAt (a + sizeOffset) 8 = size := by
    rw [h₄.wordAt_apart (Or.inl (by simp [sizeOffset, originOffset])), h₃.wordAt_self]
  have hvalue : ofLittleEndian (littleEndian 4 isWrite.toNat) = isWrite.toNat % 2 ^ 32 :=
    ofLittleEndian_littleEndian 4 isWrite.toNat
  rw [ofBytes?_bytesAt, hdirection, hvalue, haddress, hsize, h₄.wordAt_self]

end Record

end AccessTrace
