import AccessTrace.Proofs.Log.Writers

/-!
# Binary logs

A binary log is the bytes of its records, one behind the other. What was written is read back, and
what is read gives the bytes again when it is written, but for the padding of the records, which is
read over and written as zeros. Bytes that are no whole number of records are refused.
-/

namespace AccessTrace

namespace Record

/-- Bytes in the places of records, with all padding set to zero. -/
def clearPadding (bytes : List UInt8) : List UInt8 :=
  bytes.mapIdx fun i byte => if 4 ≤ i % length ∧ i % length < 8 then 0 else byte

theorem clearPadding_append {xs : List UInt8} (h : xs.length = length) (ys : List UInt8) :
    clearPadding (xs ++ ys) = clearPadding xs ++ clearPadding ys := by
  unfold clearPadding
  rw [List.mapIdx_append]
  simp only [h, Nat.add_mod_right]

/-- The padding of a single record stands between its direction and its three words. -/
theorem clearPadding_record {xs : List UInt8} (h : xs.length = length) :
    clearPadding xs = xs.take 4 ++ littleEndian 4 0 ++ xs.drop 8 := by
  have hlength : length = 32 := rfl
  have hzeros : littleEndian 4 0 = List.replicate 4 0 := by decide
  have hfirst : (xs.take 4).length = 4 := by
    rw [List.length_take]
    omega
  apply List.ext_getElem?
  intro i
  have hplace (hi : i < length) : i % length = i := Nat.mod_eq_of_lt hi
  unfold clearPadding
  rw [List.getElem?_mapIdx, hzeros, List.append_assoc]
  by_cases hdirection : i < 4
  · rw [List.getElem?_append_left (by omega), List.getElem?_take_of_lt hdirection,
      List.getElem?_eq_getElem (by omega), Option.map_some, hplace (by omega), if_neg (by omega)]
  by_cases hpadding : i < 8
  · rw [List.getElem?_append_right (by omega), List.getElem?_append_left (by simp; omega),
      List.getElem?_replicate_of_lt (by omega), List.getElem?_eq_getElem (by omega),
      Option.map_some, hplace (by omega), if_pos (by omega)]
  · rw [List.getElem?_append_right (by omega), List.getElem?_append_right (by simp; omega),
      List.getElem?_drop, List.length_replicate, hfirst,
      show 8 + (i - 4 - 4) = i by omega]
    by_cases hin : i < xs.length
    · rw [List.getElem?_eq_getElem hin, Option.map_some, hplace (by omega), if_neg (by omega)]
    · rw [List.getElem?_eq_none (by omega), Option.map_none]

/-- The three words of a record, one behind the other. -/
theorem words_append {xs : List UInt8} (h : xs.length = length) :
    (xs.drop addressOffset).take 8 ++ (xs.drop sizeOffset).take 8 ++
      (xs.drop originOffset).take 8 = xs.drop 8 := by
  have hlast : (xs.drop 24).take 8 = xs.drop 24 := by
    refine List.take_of_length_le ?_
    rw [List.length_drop, h]
    decide
  have hbehind (offset : Nat) :
      (xs.drop offset).take 8 ++ xs.drop (offset + 8) = xs.drop offset := by
    rw [← List.drop_drop, List.take_append_drop]
  unfold addressOffset sizeOffset originOffset
  rw [hlast, List.append_assoc, hbehind 16, hbehind 8]

/-- Eight bytes are the bytes of the word that is read from them. -/
theorem bytes_of_word {xs : List UInt8} (h : xs.length = 8) :
    littleEndian 8 (UInt64.ofNat (ofLittleEndian xs)).toNat = xs := by
  have hlt := ofLittleEndian_lt xs
  have hself := littleEndian_ofLittleEndian xs
  rw [h] at hlt hself
  rw [UInt64.toNat_ofNat_of_lt' hlt, hself]

/-- Four bytes are the bytes of the direction that is read from them. -/
theorem bytes_of_direction {xs : List UInt8} (h : xs.length = 4) :
    littleEndian 4 (UInt32.ofNat (ofLittleEndian xs)).toNat = xs := by
  have hlt := ofLittleEndian_lt xs
  have hself := littleEndian_ofLittleEndian xs
  rw [h] at hlt hself
  rw [UInt32.toNat_ofNat_of_lt' hlt, hself]

/-- A record that was read has the bytes that it was read from, up to the padding. -/
theorem toBytes_of_ofBytes? {xs : List UInt8} (h : xs.length = length) :
    ∃ r, ofBytes? xs = some r ∧ r.toBytes = clearPadding xs := by
  have hlong : ¬ (xs.take length).length < length := by
    rw [List.length_take, h, Nat.min_self]
    exact Nat.lt_irrefl _
  have hword (offset : Nat) (hoffset : offset + 8 ≤ length) :
      littleEndian 8 (UInt64.ofNat (ofLittleEndian ((xs.drop offset).take 8))).toNat =
        (xs.drop offset).take 8 := by
    refine bytes_of_word ?_
    rw [List.length_take, List.length_drop]
    omega
  have hdirection : littleEndian 4 (UInt32.ofNat (ofLittleEndian (xs.take 4))).toNat =
      xs.take 4 := by
    refine bytes_of_direction ?_
    rw [List.length_take, h]
    rfl
  refine ⟨_, if_neg hlong, ?_⟩
  unfold toBytes
  simp only [hword addressOffset (by decide), hword sizeOffset (by decide),
    hword originOffset (by decide)]
  rw [clearPadding_record h, ← words_append h, isWriteOffset, List.drop_zero, hdirection]
  simp only [List.append_assoc]

/-- Whole records are all read, and give the bytes again up to their padding. -/
theorem readMany_bytes (count : Nat) {bytes : List UInt8} (h : bytes.length = count * length) :
    (readMany count bytes).length = count ∧
      (readMany count bytes).flatMap toBytes = clearPadding bytes := by
  induction count generalizing bytes with
  | zero =>
    obtain rfl : bytes = [] := List.length_eq_zero_iff.1 (by omega)
    exact ⟨rfl, rfl⟩
  | succ count ih =>
    have hfirst : (bytes.take length).length = length := by
      rw [List.length_take, h, Nat.add_mul]
      omega
    have hrest : (bytes.drop length).length = count * length := by
      rw [List.length_drop, h, Nat.add_mul]
      omega
    obtain ⟨r, hr, hbytes⟩ := toBytes_of_ofBytes? hfirst
    obtain ⟨hcount, hall⟩ := ih hrest
    have hread : readMany (count + 1) bytes = r :: readMany count (bytes.drop length) := by
      have happend := ofBytes?_append (Nat.le_of_eq hfirst.symm) (bytes.drop length)
      rw [List.take_append_drop] at happend
      rw [readMany, happend, hr]
      rfl
    refine ⟨by rw [hread, List.length_cons, hcount], ?_⟩
    rw [hread, List.flatMap_cons, hbytes, hall, ← clearPadding_append hfirst,
      List.take_append_drop]

end Record

namespace BinaryLog

variable {ω : Type}

/-- Whatever the batches of records are, a binary log of them can be written through a writer that
keeps its bytes, and is read back as all the records, in order. Of other bytes, those that are not a
whole number of records are refused with the count of those left over; all others are read as that
number of records, which give the bytes again with their padding cleared. -/
theorem read_inverse {w : Writer ω} {ready : ω → Prop} {taken stored : ω → List UInt8}
    (hw : w.Keeps ready taken stored) {world : ω} (hready : ready world)
    (batches : List (List Record)) :
    (∃ world' bytes, w.writeLog .binary batches world = .ok () world' ∧
      bytes = batches.flatten.flatMap Record.toBytes ∧
      stored world' = taken world ++ bytes ∧ read bytes = .ok batches.flatten) ∧
    ∀ bytes : List UInt8,
      (bytes.length % 32 ≠ 0 → read bytes = .error (.truncated (bytes.length % 32))) ∧
      (bytes.length % 32 = 0 → ∃ records, read bytes = .ok records ∧
        records.length = bytes.length / 32 ∧
        records.flatMap Record.toBytes = Record.clearPadding bytes) := by
  constructor
  · obtain ⟨world', hlog, hstored⟩ := hw.writeLog .binary hready batches
    have hbytes : LogFormat.binary.header ++ batches.flatMap LogFormat.binary.encode =
        batches.flatten.flatMap Record.toBytes := by
      rw [List.flatten_eq_flatMap, List.flatMap_assoc]
      rfl
    rw [hbytes] at hstored
    refine ⟨world', _, hlog, rfl, hstored, ?_⟩
    have hread := read_parts [.batch batches.flatten]
    rwa [List.flatMap_singleton, List.flatMap_singleton] at hread
  · intro bytes
    refine ⟨fun hpart => if_pos hpart, fun hwhole => ?_⟩
    have hlength : bytes.length = bytes.length / 32 * Record.length :=
      (Nat.div_mul_cancel (Nat.dvd_of_mod_eq_zero hwhole)).symm
    obtain ⟨hcount, hagain⟩ := Record.readMany_bytes (bytes.length / 32) hlength
    exact ⟨_, if_neg (not_not_intro hwhole), hcount, hagain⟩

end BinaryLog

namespace Sample

/-- A record with a direction that is neither zero nor one. -/
def marked : Record := ⟨0xffffffff, 0x7fff0010, 512, 0x401004⟩

/-- A file that is written in two batches is read back, and so are bytes with something in the
padding; one byte more is one too many. -/
theorem binary_file_read_back :
    (∃ s, (FileStore.writer 0).writeLog .binary [[load, marked], [], [store]] newFile = .ok () s ∧
      BinaryLog.read (s.stored 0) = .ok [load, marked, store]) ∧
    (∃ records, BinaryLog.read (List.replicate 64 7) = .ok records ∧ records.length = 2 ∧
      records.flatMap Record.toBytes = Record.clearPadding (List.replicate 64 7)) ∧
    BinaryLog.read (List.replicate 65 7) = .error (.truncated 1) := by
  obtain ⟨⟨s, bytes, hlog, _, hstored, hread⟩, hbytes⟩ := BinaryLog.read_inverse
    (FileStore.keeps_writer 0 0)
    (show ∃ contents held, newFile.AtEnd 0 0 contents held from ⟨[], [], rfl, rfl⟩)
    [[load, marked], [], [store]]
  refine ⟨⟨s, hlog, ?_⟩, (hbytes (List.replicate 64 7)).2 rfl,
    (hbytes (List.replicate 65 7)).1 (by decide)⟩
  rw [hstored]
  exact hread

end Sample

end AccessTrace
