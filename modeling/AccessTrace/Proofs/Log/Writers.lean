import AccessTrace.Log.FileStore
import AccessTrace.Proofs.Log.Interleaving

/-!
# Logs through a writer

A log is written as a header, some batches and a flush at the end. Whatever takes its bytes in order,
and has put them all away after the flush, has a text log that is read back as the batches. A file
is such a place, although it holds bytes back in between.
-/

namespace AccessTrace

variable {ω : Type}

/-! ## Writing a log -/

namespace Writer

/-- While the world is `ready` the writer adds all bytes to those that it has `taken`, and a flush
leaves all that were taken `stored`. -/
structure Keeps (w : Writer ω) (ready : ω → Prop) (taken stored : ω → List UInt8) : Prop where
  write : ∀ world, ready world → ∀ bytes, ∃ world', w.write bytes world = .ok () world' ∧
    ready world' ∧ taken world' = taken world ++ bytes
  flush : ∀ world, ready world → ∃ world', w.flush world = .ok () world' ∧
    stored world' = taken world

/-- Writes a whole log, batch by batch. -/
def writeLog (w : Writer ω) (format : LogFormat) (batches : List (List Record)) :
    EStateM LogError ω Unit := do
  let sink ← w.startLog format
  batches.forM sink.writeBatch
  sink.finish

variable {w : Writer ω} {ready : ω → Prop} {taken stored : ω → List UInt8} {world : ω}

theorem Keeps.writeAll (h : w.Keeps ready taken stored) (hready : ready world)
    (bytes : List UInt8) : ∃ world', w.writeAll bytes world = .ok () world' ∧ ready world' ∧
      taken world' = taken world ++ bytes := by
  unfold Writer.writeAll
  by_cases hempty : bytes.isEmpty = true
  · rw [if_pos hempty, List.isEmpty_iff.1 hempty, List.append_nil]
    exact ⟨world, rfl, hready, rfl⟩
  · obtain ⟨world', hwrite, hkept⟩ := h.write world hready bytes
    refine ⟨world', ?_, hkept⟩
    rw [if_neg hempty, hwrite]

theorem Keeps.startLog (h : w.Keeps ready taken stored) (format : LogFormat)
    (hready : ready world) :
    ∃ world', w.startLog format world = .ok (w.sink format) world' ∧ ready world' ∧
      taken world' = taken world ++ format.header := by
  obtain ⟨world', hwrite, hkept⟩ := h.writeAll hready format.header
  refine ⟨world', ?_, hkept⟩
  unfold Writer.startLog
  rw [hwrite]

/-- Every batch is taken behind the ones before it. -/
theorem Keeps.writeBatches (h : w.Keeps ready taken stored) (format : LogFormat)
    (hready : ready world) (batches : List (List Record)) :
    ∃ world', batches.forM (w.sink format).writeBatch world = .ok ⟨⟩ world' ∧ ready world' ∧
      taken world' = taken world ++ batches.flatMap format.encode := by
  induction batches generalizing world with
  | nil => exact ⟨world, rfl, hready, (List.append_nil _).symm⟩
  | cons batch batches ih =>
    obtain ⟨world₁, hwrite, hready₁, htaken₁⟩ := h.writeAll hready (format.encode batch)
    obtain ⟨world₂, hrest, hready₂, htaken₂⟩ := ih hready₁
    have hbatch : (w.sink format).writeBatch batch world = .ok () world₁ := hwrite
    refine ⟨world₂, ?_, hready₂, ?_⟩
    · exact (Step.bind_of_ok hbatch).trans hrest
    · rw [htaken₂, htaken₁, List.append_assoc, List.flatMap_cons]

/-- A log that is written to its end is all stored. -/
theorem Keeps.writeLog (h : w.Keeps ready taken stored) (format : LogFormat)
    (hready : ready world) (batches : List (List Record)) :
    ∃ world', w.writeLog format batches world = .ok () world' ∧
      stored world' = taken world ++ (format.header ++ batches.flatMap format.encode) := by
  obtain ⟨world₁, hstart, hready₁, htaken₁⟩ := h.startLog format hready
  obtain ⟨world₂, hbatches, hready₂, htaken₂⟩ := h.writeBatches format hready₁ batches
  obtain ⟨world₃, hflush, hstored⟩ := h.flush world₂ hready₂
  have hfinish : (w.sink format).finish world₂ = .ok () world₃ := by
    change w.finish world₂ = _
    unfold Writer.finish
    rw [hflush]
  refine ⟨world₃, ?_, ?_⟩
  · unfold Writer.writeLog
    rw [Step.bind_of_ok hstart, Step.bind_of_ok hbatches, hfinish]
  · rw [hstored, htaken₂, htaken₁, List.append_assoc]

end Writer

/-! ## Files -/

namespace FileStore

variable {s : FileStore} {number file : Nat} {contents held : List UInt8}

/-- An open file that stands at the end of the contents of a regular file. -/
structure AtEnd (s : FileStore) (number file : Nat) (contents held : List UInt8) : Prop where
  kept : s.contents[file]? = some contents
  openFile : s.openFiles[number]? = some ⟨.regular file, contents.length, held⟩

theorem AtEnd.held_eq (h : s.AtEnd number file contents held) : s.held number = held := by
  unfold FileStore.held
  rw [h.openFile]
  rfl

theorem AtEnd.setHeld (h : s.AtEnd number file contents held) (held' : List UInt8) :
    (s.setHeld number held').AtEnd number file contents held' := by
  refine ⟨h.kept, ?_⟩
  change (s.openFiles.modify number _)[number]? = _
  rw [Array.getElem?_modify, if_pos rfl, h.openFile]
  rfl

/-- What is put into the file comes behind its contents. -/
theorem AtEnd.put (h : s.AtEnd number file contents held) (bytes : List UInt8) :
    ∃ s', s.put number bytes = .ok s' ∧ s'.AtEnd number file (contents ++ bytes) held := by
  have hoverlay : overlay contents contents.length bytes = contents ++ bytes := by
    simp [overlay]
  unfold FileStore.put
  simp only [h.openFile]
  by_cases hempty : bytes.isEmpty = true
  · rw [if_pos hempty, List.isEmpty_iff.1 hempty, List.append_nil]
    exact ⟨s, rfl, h⟩
  · rw [if_neg hempty]
    refine ⟨_, rfl, ?_, ?_⟩
    · change (s.contents.modify file _)[file]? = _
      rw [Array.getElem?_modify, if_pos rfl, h.kept]
      exact congrArg some hoverlay
    · have hnumber : number < s.openFiles.size := (Array.getElem?_eq_some_iff.1 h.openFile).1
      change (s.openFiles.setIfInBounds number _)[number]? = _
      rw [Array.getElem?_setIfInBounds_self_of_lt hnumber, List.length_append]

theorem AtEnd.putHeld (h : s.AtEnd number file contents held) :
    ∃ s', s.putHeld number = .ok s' ∧ s'.AtEnd number file (contents ++ held) [] := by
  obtain ⟨s', hput, hat⟩ := h.put held
  refine ⟨s'.setHeld number [], ?_, hat.setHeld []⟩
  unfold FileStore.putHeld
  rw [h.held_eq, hput]
  rfl

/-- Bytes for which there is room now are held back; if they are as long as all the room, and nothing
is held back, they are put into the file. -/
theorem AtEnd.take (h : s.AtEnd number file contents held) (bytes : List UInt8)
    (hnone : holdBack ≤ bytes.length → held = []) :
    ∃ s' contents' held',
      (if holdBack ≤ bytes.length then s.put number bytes
        else .ok (s.setHeld number (s.held number ++ bytes))) = .ok s' ∧
      s'.AtEnd number file contents' held' ∧ contents' ++ held' = contents ++ held ++ bytes := by
  by_cases hlong : holdBack ≤ bytes.length
  · obtain ⟨s', hput, hat⟩ := h.put bytes
    refine ⟨s', _, _, ?_, hat, ?_⟩
    · rw [if_pos hlong, hput]
    · rw [hnone hlong, List.append_nil, List.append_nil]
  · refine ⟨_, contents, held ++ bytes, if_neg hlong, ?_, (List.append_assoc ..).symm⟩
    rw [h.held_eq]
    exact h.setHeld _

/-- What is written comes behind the contents and what was held back, and may be held back too. -/
theorem AtEnd.write (h : s.AtEnd number file contents held) (bytes : List UInt8) :
    ∃ s' contents' held', s.write number bytes = .ok s' ∧
      s'.AtEnd number file contents' held' ∧ contents' ++ held' = contents ++ held ++ bytes := by
  unfold FileStore.write
  by_cases hfull : holdBack - (s.held number).length < bytes.length
  · obtain ⟨s₁, hput, hat₁⟩ := h.putHeld
    obtain ⟨s', contents', held', htake, hat', hbytes⟩ := hat₁.take bytes fun _ => rfl
    refine ⟨s', contents', held', ?_, hat', ?_⟩
    · simp only [if_pos hfull, hput]
      exact htake
    · rw [hbytes, List.append_nil]
  · have hnone (hlong : holdBack ≤ bytes.length) : held = [] := by
      rw [h.held_eq] at hfull
      unfold holdBack at hfull hlong
      exact List.length_eq_zero_iff.1 (by omega)
    obtain ⟨s', contents', held', htake, hat', hbytes⟩ := h.take bytes hnone
    refine ⟨s', contents', held', ?_, hat', hbytes⟩
    simp only [if_neg hfull]
    exact htake

/-- The contents of a regular file. -/
def stored (file : Nat) (s : FileStore) : List UInt8 :=
  (s.contents[file]?).getD []

theorem AtEnd.stored_eq (h : s.AtEnd number file contents held) : s.stored file = contents := by
  unfold stored
  rw [h.kept]
  rfl

/-- An open file at the end of a regular file takes bytes at the end of those held back, and a flush
puts them all into the file. -/
theorem keeps_writer (number file : Nat) :
    (writer number).Keeps (fun s => ∃ contents held, s.AtEnd number file contents held)
      (fun s => s.stored file ++ s.held number) (stored file) := by
  constructor
  · rintro s ⟨contents, held, hat⟩ bytes
    obtain ⟨s', contents', held', hwrite, hat', hbytes⟩ := hat.write bytes
    refine ⟨s', ?_, ⟨contents', held', hat'⟩, ?_⟩
    · change step (·.write number bytes) s = _
      unfold step
      simp only [hwrite]
    · rw [hat'.stored_eq, hat'.held_eq, hat.stored_eq, hat.held_eq, hbytes]
  · rintro s ⟨contents, held, hat⟩
    obtain ⟨s', hput, hat'⟩ := hat.putHeld
    refine ⟨s', ?_, ?_⟩
    · change step (·.putHeld number) s = _
      unfold step
      simp only [hput]
    · rw [hat'.stored_eq, hat.stored_eq, hat.held_eq]

end FileStore

/-! ## Reading it back -/

theorem Record.isAccess_of_isWrite {r : Record} (h : r.isWrite = 0 ∨ r.isWrite = 1) :
    r.IsAccess := by
  obtain ⟨isWrite, address, size, origin⟩ := r
  rcases h with rfl | rfl
  · exact ⟨false, address, size, origin, rfl⟩
  · exact ⟨true, address, size, origin, rfl⟩

/-- The header and the batches of a log, written one behind the other, are its parts. -/
theorem LogFormat.bytes_of_parts (format : LogFormat) (batches : List (List Record)) :
    format.header ++ batches.flatMap format.encode =
      (LogPart.header :: batches.map .batch).flatMap (LogPart.bytes format) := by
  rw [List.flatMap_cons, List.flatMap_map]
  rfl

/-- Whatever the batches of records are, a text log of them can be written through a writer that
keeps its bytes. What it leaves behind the bytes from before are the header and the batches, and
these are read back as all the records, in order. -/
theorem TextLog.read_writeLog {w : Writer ω} {ready : ω → Prop} {taken stored : ω → List UInt8}
    (hw : w.Keeps ready taken stored) {world : ω} (hready : ready world)
    {batches : List (List Record)}
    (hbatches : ∀ batch ∈ batches, ∀ r ∈ batch, r.isWrite = 0 ∨ r.isWrite = 1) :
    ∃ world' bytes, w.writeLog .text batches world = .ok () world' ∧
      bytes = LogFormat.text.header ++ batches.flatMap LogFormat.text.encode ∧
      stored world' = taken world ++ bytes ∧ TextLog.read bytes = .ok batches.flatten := by
  obtain ⟨world', hlog, hstored⟩ := hw.writeLog .text hready batches
  refine ⟨world', _, hlog, rfl, hstored, ?_⟩
  have haccess : ∀ part ∈ LogPart.header :: batches.map .batch, ∀ r ∈ part.records,
      r.IsAccess := by
    intro part hpart r hr
    rcases List.mem_cons.1 hpart with rfl | hpart
    · contradiction
    · obtain ⟨batch, hbatch, rfl⟩ := List.mem_map.1 hpart
      exact Record.isAccess_of_isWrite (hbatches batch hbatch r hr)
  have hrecords : (LogPart.header :: batches.map .batch).flatMap LogPart.records =
      batches.flatten := by
    rw [List.flatMap_cons, List.flatMap_map]
    exact List.flatMap_id
  rw [LogFormat.bytes_of_parts, TextLog.read_parts haccess, hrecords]

namespace Sample

/-- A directory with one file, which is empty and open for writing. -/
def newFile : FileStore :=
  let s := (FileStore.ofDirectories [] []).addFile ["log"]
  (s.2.openFile s.1).2

theorem log_file_read_back :
    ∃ s, (FileStore.writer 0).writeLog .text [[load, store], [], [load]] newFile = .ok () s ∧
      TextLog.read (s.stored 0) = .ok [load, store, load] := by
  have hbatches : ∀ batch ∈ [[load, store], [], [load]], ∀ r ∈ batch,
      r.isWrite = 0 ∨ r.isWrite = 1 := by
    decide
  obtain ⟨s, bytes, hlog, _, hstored, hread⟩ := TextLog.read_writeLog (FileStore.keeps_writer 0 0)
    (show ∃ contents held, newFile.AtEnd 0 0 contents held from ⟨[], [], rfl, rfl⟩) hbatches
  refine ⟨s, hlog, ?_⟩
  rw [hstored]
  exact hread

end Sample

end AccessTrace
