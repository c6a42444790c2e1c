import Mathlib.Data.List.Basic
import AccessTrace.Log.Reader
import AccessTrace.Proofs.Record.Layout
import AccessTrace.Proofs.Text.Digits

/-!
# Logs are read back

A log is made of parts: headers, wherever they come, and batches of records. In both formats it is
read back as the records of all its batches, in order. In the text format every part is a number of
whole lines; a line of a record spells its four fields, none of which has a comma, a line break or
a blank in it, and a header is passed over.
-/

namespace AccessTrace

/-- What is written to a log at once. -/
inductive LogPart where
  | header
  | batch (records : List Record)

namespace LogPart

def bytes (format : LogFormat) : LogPart → List UInt8
  | header => format.header
  | batch records => format.encode records

def records : LogPart → List Record
  | header => []
  | batch records => records

end LogPart

/-- A record of an access, as instrumented code makes them. -/
def Record.IsAccess (r : Record) : Prop :=
  ∃ isWrite address size origin, r = .of isWrite address size origin

theorem Record.IsAccess.of_direction {r : Record} (h : r.IsAccess) :
    .of r.direction.isWrite r.address r.size r.origin = r := by
  obtain ⟨isWrite, address, size, origin, rfl⟩ := h
  cases isWrite <;> rfl

namespace TextLog

/-! ## The fields of a line -/

/-- A word as it stands in a line. -/
def hexField (w : Word) : List Char :=
  '0' :: 'x' :: Text.hexFixed 16 w.toNat

def sizeField (r : Record) : List Char :=
  Nat.toDigits 10 r.size.toNat

/-- A character that no line is split at. -/
def Plain (c : Char) : Prop :=
  c ≠ ',' ∧ c ≠ '\n' ∧ Text.isBlank c = false

theorem plain_of_digit {radix d : Nat} {c : Char} (h : Text.digit? radix c = some d) : Plain c :=
  (Text.not_separator_of_digit h).2

theorem plain_hexField (w : Word) : ∀ c ∈ hexField w, Plain c := by
  intro c hc
  rcases List.mem_cons.1 hc with rfl | hc
  · exact plain_of_digit (show Text.digit? 10 '0' = some 0 from rfl)
  rcases List.mem_cons.1 hc with rfl | hc
  · unfold Plain
    decide
  · obtain ⟨d, hdigit⟩ := (Text.spells_hexFixed 16 w.toNat).digit_of_mem hc
    exact plain_of_digit hdigit

theorem plain_sizeField (r : Record) : ∀ c ∈ sizeField r, Plain c := by
  intro c hc
  obtain ⟨d, hdigit⟩ := (Text.spells_toDigits r.size.toNat).digit_of_mem hc
  exact plain_of_digit hdigit

theorem plain_letter (d : Direction) : Plain d.letter := by
  unfold Plain
  cases d <;> decide

theorem readHex?_hexField (w : Word) : readHex? (hexField w) = some w := by
  have hlt : w.toNat < 16 ^ 16 := w.toNat_lt
  have hspells := Text.spells_hexFixed 16 w.toNat
  rw [Nat.mod_eq_of_lt hlt] at hspells
  refine hspells.readWord? ?_
  unfold Text.hexFixed
  simp

theorem readDirection?_letter (d : Direction) : readDirection? [d.letter] = some d := by
  cases d <;> rfl

theorem readWord?_sizeField (r : Record) : Text.readWord? 10 (sizeField r) = some r.size :=
  (Text.spells_toDigits r.size.toNat).readWord? Nat.toDigits_ne_nil

/-! ## The line of a record -/

/-- The line of a record without the line break. -/
def lineText (r : Record) : List Char :=
  hexField r.origin ++ ',' :: ([r.direction.letter] ++ ',' :: (sizeField r ++ ',' ::
    hexField r.address))

theorem toList_line (r : Record) : (line r).toList = lineText r ++ ['\n'] := by
  have hhex (w : Word) : (Text.hexPadded w).toList = hexField w := by
    have hmark : "0x".toList = ['0', 'x'] := rfl
    unfold Text.hexPadded
    simp only [String.toList_append, String.toList_ofList]
    rw [hmark, hexField, List.cons_append, List.cons_append, List.nil_append]
  have hsize : (toString r.size.toNat).toList = sizeField r := Nat.toList_repr
  unfold line lineText
  simp only [String.toList_append, hhex, hsize, String.toList_singleton]
  simp

theorem plain_or_comma (r : Record) : ∀ c ∈ lineText r, c = ',' ∨ Plain c := by
  intro c hc
  simp only [lineText, List.mem_append, List.mem_cons, List.not_mem_nil, or_false] at hc
  rcases hc with hc | rfl | rfl | rfl | hc | rfl | hc
  · exact Or.inr (plain_hexField _ c hc)
  · exact Or.inl rfl
  · exact Or.inr (plain_letter _)
  · exact Or.inl rfl
  · exact Or.inr (plain_sizeField r c hc)
  · exact Or.inl rfl
  · exact Or.inr (plain_hexField _ c hc)

theorem pieces_lineText (r : Record) : Text.pieces ',' (lineText r) =
    [hexField r.origin, [r.direction.letter], sizeField r, hexField r.address] := by
  have hno {text : List Char} (h : ∀ c ∈ text, Plain c) : ',' ∉ text := fun hmem =>
    (h ',' hmem).1 rfl
  have hletter : ∀ c ∈ [r.direction.letter], Plain c := by
    intro c hc
    obtain rfl := List.mem_singleton.1 hc
    exact plain_letter _
  unfold lineText
  rw [Text.pieces_append _ _ _ (hno (plain_hexField _)), Text.pieces_append _ _ _ (hno hletter),
    Text.pieces_append _ _ _ (hno (plain_sizeField r)),
    Text.pieces_of_notMem _ _ (hno (plain_hexField _))]

theorem readLine?_lineText {r : Record} (hr : r.IsAccess) : readLine? (lineText r) = some r := by
  unfold readLine?
  rw [pieces_lineText]
  simp only [readHex?_hexField, readDirection?_letter, readWord?_sizeField, Option.bind_eq_bind,
    Option.bind_some, Option.pure_def, hr.of_direction]

/-! ## Lines -/

/-- A text without blanks is not changed by trimming. -/
theorem trim_eq_self {text : List Char} (h : ∀ c ∈ text, Text.isBlank c = false) :
    Text.trim text = text := by
  have hdrop {xs : List Char} (hxs : ∀ c ∈ xs, Text.isBlank c = false) :
      xs.dropWhile Text.isBlank = xs := by
    cases xs with
    | nil => rfl
    | cons c rest => rw [List.dropWhile_cons, hxs c List.mem_cons_self, if_neg Bool.false_ne_true]
  have hreverse : ∀ c ∈ text.reverse, Text.isBlank c = false := fun c hc =>
    h c (List.mem_reverse.1 hc)
  rw [Text.trim, hdrop h, hdrop hreverse, List.reverse_reverse]

/-- Lines that end in line breaks are the pieces between them, before an empty last one. -/
theorem pieces_lines {lines : List (List Char)} (h : ∀ line ∈ lines, '\n' ∉ line) :
    Text.pieces '\n' (lines.flatMap (· ++ ['\n'])) = lines ++ [[]] := by
  induction lines with
  | nil => rfl
  | cons line lines ih =>
    have hrest := ih fun l hl => h l (List.mem_cons_of_mem _ hl)
    rw [List.flatMap_cons, List.append_assoc, List.singleton_append,
      Text.pieces_append _ _ _ (h line List.mem_cons_self), hrest, List.cons_append]

/-- The header line without the line break. -/
def headerText : List Char :=
  "Format: <instr address>,<(r)ead/(w)rite>,<data size>,<data address>".toList

theorem toList_headerLine : headerLine.toList = headerText ++ ['\n'] := by
  decide +kernel

/-- A header, or the line of a record. -/
def entryText : Option Record → List Char
  | none => headerText
  | some r => lineText r

theorem notMem_entryText (entry : Option Record) : '\n' ∉ entryText entry := by
  cases entry with
  | none =>
    change '\n' ∉ headerText
    decide +kernel
  | some r =>
    intro hmem
    rcases plain_or_comma r '\n' hmem with hcomma | hplain
    · exact absurd hcomma (by decide)
    · exact hplain.2.1 rfl

theorem isSkipped_header : isSkipped (Text.trim headerText) = true := by
  decide +kernel

theorem trim_lineText (r : Record) : Text.trim (lineText r) = lineText r := by
  refine trim_eq_self fun c hc => ?_
  rcases plain_or_comma r c hc with rfl | hplain
  · rfl
  · exact hplain.2.2

theorem isSkipped_lineText (r : Record) : isSkipped (lineText r) = false := by
  have hmark : "Format:".toList = 'F' :: "ormat:".toList := by decide +kernel
  unfold isSkipped lineText hexField
  rw [hmark]
  simp [List.isPrefixOf]

/-- Headers and the lines of records are read as the records. -/
theorem readLines_entries {entries : List (Option Record)}
    (h : ∀ r, some r ∈ entries → r.IsAccess) (number : Nat) :
    readLines number (entries.map entryText ++ [[]]) = .ok (entries.filterMap id) := by
  induction entries generalizing number with
  | nil => rfl
  | cons entry entries ih =>
    have hrest := ih (fun r hr => h r (List.mem_cons_of_mem _ hr)) (number + 1)
    rw [List.map_cons, List.cons_append, readLines]
    cases entry with
    | none =>
      change (if isSkipped (Text.trim headerText) then _ else _) = _
      rw [isSkipped_header, if_pos rfl, hrest]
      rfl
    | some r =>
      have hr := readLine?_lineText (h r List.mem_cons_self)
      simp only [entryText, trim_lineText, isSkipped_lineText, Bool.false_eq_true, if_false, hr,
        hrest]
      rfl

end TextLog

/-! ## Bytes -/

theorem utf8_append (s t : String) : utf8 (s ++ t) = utf8 s ++ utf8 t := by
  unfold utf8
  rw [String.toUTF8_eq_toByteArray, String.toByteArray_append, ByteArray.toList_data_append]
  rfl

theorem utf8_join (parts : List String) : utf8 (String.join parts) = parts.flatMap utf8 := by
  induction parts with
  | nil => rfl
  | cons part parts ih => rw [String.join_cons, utf8_append, ih, List.flatMap_cons]

/-- The bytes of a text are read as its lines. -/
theorem TextLog.read_utf8 (s : String) :
    TextLog.read (utf8 s) = TextLog.readLines 1 (Text.pieces '\n' s.toList) := by
  have hbytes : String.fromUTF8? ⟨(utf8 s).toArray⟩ = some s := by
    change String.fromUTF8? ⟨s.toUTF8.data.toList.toArray⟩ = some s
    rw [Array.toArray_toList]
    exact dif_pos s.isValidUTF8
  unfold TextLog.read
  rw [hbytes]

namespace LogPart

/-- The lines of a part of a text log. -/
def entries : LogPart → List (Option Record)
  | header => [none]
  | batch records => records.map some

def text : LogPart → String
  | header => TextLog.headerLine
  | batch records => TextLog.lines records

theorem toList_text (part : LogPart) :
    part.text.toList = (part.entries.map TextLog.entryText).flatMap (· ++ ['\n']) := by
  cases part with
  | header => exact TextLog.toList_headerLine
  | batch records =>
    unfold text TextLog.lines entries
    rw [String.toList_join, List.flatMap_map, List.flatMap_map, List.flatMap_map]
    exact List.flatMap_congr fun r _ => TextLog.toList_line r

theorem filterMap_entries (part : LogPart) : part.entries.filterMap id = part.records := by
  cases part with
  | header => rfl
  | batch records =>
    unfold entries
    rw [List.filterMap_map]
    exact List.filterMap_some

end LogPart

/-! ## Logs -/

/-- A text log is read as the records of its batches, wherever there are headers. -/
theorem TextLog.read_parts {parts : List LogPart}
    (h : ∀ part ∈ parts, ∀ r ∈ part.records, r.IsAccess) :
    TextLog.read (parts.flatMap (LogPart.bytes .text)) = .ok (parts.flatMap LogPart.records) := by
  have hbytes : parts.flatMap (LogPart.bytes .text) = utf8 (String.join (parts.map LogPart.text)) := by
    rw [utf8_join, List.flatMap_map]
    refine List.flatMap_congr fun part _ => ?_
    cases part <;> rfl
  have hlines : (String.join (parts.map LogPart.text)).toList =
      ((parts.flatMap LogPart.entries).map entryText).flatMap (· ++ ['\n']) := by
    rw [String.toList_join, List.flatMap_map, List.map_flatMap, List.flatMap_assoc]
    exact List.flatMap_congr fun part _ => part.toList_text
  have hbreaks : ∀ line ∈ (parts.flatMap LogPart.entries).map entryText, '\n' ∉ line := by
    intro line hline
    obtain ⟨entry, _, rfl⟩ := List.mem_map.1 hline
    exact notMem_entryText entry
  have haccess : ∀ r, some r ∈ parts.flatMap LogPart.entries → r.IsAccess := by
    intro r hr
    obtain ⟨part, hpart, hr⟩ := List.mem_flatMap.1 hr
    refine h part hpart r ?_
    rw [← part.filterMap_entries]
    exact List.mem_filterMap.2 ⟨some r, hr, rfl⟩
  rw [hbytes, read_utf8, hlines, pieces_lines hbreaks, readLines_entries haccess,
    List.filterMap_flatMap]
  exact congrArg _ (List.flatMap_congr fun part _ => part.filterMap_entries)

/-- A binary log is read as the records of its batches. -/
theorem BinaryLog.read_parts (parts : List LogPart) :
    BinaryLog.read (parts.flatMap (LogPart.bytes .binary)) =
      .ok (parts.flatMap LogPart.records) := by
  have hbytes : parts.flatMap (LogPart.bytes .binary) =
      (parts.flatMap LogPart.records).flatMap Record.toBytes := by
    rw [List.flatMap_assoc]
    refine List.flatMap_congr fun part _ => ?_
    cases part <;> rfl
  have hlength := Record.length_flatMap_toBytes (parts.flatMap LogPart.records)
  unfold BinaryLog.read
  rw [hbytes]
  simp only [hlength, Nat.mul_mod_left, ne_eq, not_true, if_false,
    Nat.mul_div_cancel _ (show 0 < Record.length by decide), Record.readMany_flatMap]

/-- A log is read as the records of its batches, in order. -/
theorem LogFormat.read_parts (format : LogFormat) {parts : List LogPart}
    (h : ∀ part ∈ parts, ∀ r ∈ part.records, r.IsAccess) :
    format.read (parts.flatMap (LogPart.bytes format)) = .ok (parts.flatMap LogPart.records) := by
  cases format with
  | text => exact TextLog.read_parts h
  | binary => exact BinaryLog.read_parts parts

end AccessTrace
