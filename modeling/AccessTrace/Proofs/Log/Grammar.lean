import AccessTrace.Proofs.Log.RoundTrip
import AccessTrace.Proofs.Text.Numerals

/-!
# The grammar of text logs

What a text log may consist of, said without reading it: blank lines, header lines, and lines of
four fields between commas. The reader accepts exactly the logs of this grammar and gives their
records, and it names the first line that is not in it; only, it takes numbers with a plus sign for
numbers.
-/

namespace AccessTrace

namespace TextLog

/-- A line of a record: where the instruction stands, the letter of the direction, the size, and
where the access went. What a number of a base looks like is left open. -/
inductive Entry (number : Nat → List Char → Word → Prop) : List Char → Record → Prop where
  | fields {origin size address : List Char} {o s a : Word} (d : Direction)
    (horigin : number 16 origin o) (hsize : number 10 size s) (haddress : number 16 address a) :
    Entry number (('0' :: 'x' :: origin) ++ ',' :: ([d.letter] ++ ',' :: (size ++ ',' ::
      ('0' :: 'x' :: address)))) (.of d.isWrite a s o)

/-- A line as it stands in a log, with the record that it brings, if it brings one. Blanks around a
line do not count. -/
inductive Line (number : Nat → List Char → Word → Prop) : List Char → Option Record → Prop where
  | blank {line : List Char} (h : Text.trim line = []) : Line number line none
  | header {line : List Char} (h : "Format:".toList <+: Text.trim line) : Line number line none
  | entry {line : List Char} {r : Record} (h : Entry number (Text.trim line) r) :
    Line number line (some r)

variable {number : Nat} {line text : List Char} {lines front : List (List Char)} {r : Record}
  {value : Option Record} {values : List (Option Record)} {w : Word}

/-! ## Fields -/

theorem readHex?_eq_some_iff : readHex? text = some w ↔
    ∃ digits, text = '0' :: 'x' :: digits ∧ Text.IsSignedWord 16 digits w := by
  constructor
  · intro h
    unfold readHex? at h
    split at h
    · exact ⟨_, rfl, Text.readWord?_eq_some_iff.1 h⟩
    · contradiction
  · rintro ⟨digits, rfl, h⟩
    exact Text.readWord?_eq_some_iff.2 h

theorem readDirection?_eq_some_iff {d : Direction} :
    readDirection? text = some d ↔ text = [d.letter] := by
  constructor
  · intro h
    unfold readDirection? at h
    split at h
    · obtain rfl := Option.some.inj h
      rfl
    · obtain rfl := Option.some.inj h
      rfl
    · contradiction
  · rintro rfl
    exact readDirection?_letter d

/-- The fields of an entry have no commas, so that they are its pieces. -/
theorem readLine?_of_entry (h : Entry Text.IsSignedWord line r) : readLine? line = some r := by
  obtain ⟨d, horigin, hsize, haddress⟩ := h
  have hhex {digits : List Char} {w : Word} (hw : Text.IsSignedWord 16 digits w) :
      ',' ∉ '0' :: 'x' :: digits := by
    simpa using hw.no_comma
  have hletter : ',' ∉ [d.letter] := by cases d <;> decide
  unfold readLine?
  rw [Text.pieces_append _ _ _ (hhex horigin), Text.pieces_append _ _ _ hletter,
    Text.pieces_append _ _ _ hsize.no_comma, Text.pieces_of_notMem _ _ (hhex haddress)]
  simp only [readHex?_eq_some_iff.2 ⟨_, rfl, horigin⟩, readDirection?_letter,
    Text.readWord?_eq_some_iff.2 hsize, readHex?_eq_some_iff.2 ⟨_, rfl, haddress⟩,
    Option.bind_eq_bind, Option.bind_some, Option.pure_def]

/-- A line that is read has four pieces, which are the fields of an entry. -/
theorem entry_of_readLine? (h : readLine? line = some r) : Entry Text.IsSignedWord line r := by
  unfold readLine? at h
  split at h
  · rename_i origin direction size address hpieces
    simp only [Option.bind_eq_bind, Option.bind_eq_some_iff, Option.pure_def,
      Option.some.injEq] at h
    obtain ⟨o, ho, d, hd, s, hs, a, ha, rfl⟩ := h
    obtain ⟨origin, rfl, horigin⟩ := readHex?_eq_some_iff.1 ho
    obtain rfl := readDirection?_eq_some_iff.1 hd
    obtain ⟨address, rfl, haddress⟩ := readHex?_eq_some_iff.1 ha
    have hjoined : [','].intercalate (Text.pieces ',' line) = line := by
      rw [Text.pieces_eq_splitOn, List.intercalate_splitOn]
    rw [hpieces] at hjoined
    simp only [List.intercalate, List.intersperse, List.flatten_cons, List.flatten_nil,
      List.append_nil, List.singleton_append] at hjoined
    rw [← hjoined]
    exact .fields d horigin (Text.readWord?_eq_some_iff.1 hs) haddress
  · contradiction

/-! ## Lines -/

/-- What a line brings to the reader: a record, or nothing, or an error. -/
def lineValue? (line : List Char) : Option (Option Record) :=
  if isSkipped (Text.trim line) then some none else (readLine? (Text.trim line)).map some

theorem isSkipped_iff : isSkipped text = true ↔ text = [] ∨ "Format:".toList <+: text := by
  unfold isSkipped
  rw [Bool.or_eq_true, List.isEmpty_iff, List.isPrefixOf_iff_prefix]

theorem isSkipped_entry (h : Entry Text.IsSignedWord text r) : isSkipped text = false := by
  have hmark : "Format:".toList = 'F' :: "ormat:".toList := by decide +kernel
  obtain ⟨d, _, _, _⟩ := h
  unfold isSkipped
  rw [hmark]
  simp [List.isPrefixOf]

/-- The lines of the grammar are those that the reader takes, and bring what it takes from them. -/
theorem line_iff : Line Text.IsSignedWord line value ↔ lineValue? line = some value := by
  unfold lineValue?
  constructor
  · rintro (h | h | h)
    · rw [if_pos (isSkipped_iff.2 (Or.inl h))]
    · rw [if_pos (isSkipped_iff.2 (Or.inr h))]
    · rw [isSkipped_entry h, if_neg Bool.false_ne_true, readLine?_of_entry h]
      rfl
  · intro h
    split at h
    · rename_i hskipped
      obtain rfl := Option.some.inj h
      rcases isSkipped_iff.1 hskipped with hempty | hheader
      · exact .blank hempty
      · exact .header hheader
    · obtain ⟨r, hr, rfl⟩ := Option.map_eq_some_iff.1 h
      exact .entry (entry_of_readLine? hr)

theorem readLines_cons (number : Nat) (line : List Char) (rest : List (List Char)) :
    readLines number (line :: rest) = match lineValue? line with
      | none => .error (.malformedLine number (String.ofList (Text.trim line)))
      | some value => (readLines (number + 1) rest).map (value.toList ++ ·) := by
  rw [readLines]
  unfold lineValue?
  split
  · cases readLines (number + 1) rest <;> rfl
  · cases readLine? (Text.trim line) with
    | none => rfl
    | some r => cases readLines (number + 1) rest <;> rfl

/-! ## Plus signs -/

/-- Plain entries are the entries without a plus sign. -/
theorem entry_isWord_iff :
    Entry Text.IsWord text r ↔ Entry Text.IsSignedWord text r ∧ '+' ∉ text := by
  constructor
  · rintro ⟨d, horigin, hsize, haddress⟩
    refine ⟨.fields d (Or.inl horigin) (Or.inl hsize) (Or.inl haddress), ?_⟩
    have hplain {radix : Nat} {digits : List Char} {w : Word} (hw : Text.IsWord radix digits w) :
        '+' ∉ digits := fun hc => (hw.not_separator hc).1 rfl
    have hletter : '+' ≠ d.letter := by cases d <;> decide
    simp [hplain horigin, hplain hsize, hplain haddress, hletter]
  · rintro ⟨⟨d, horigin, hsize, haddress⟩, hplus⟩
    simp only [List.mem_append, List.mem_cons, not_or] at hplus
    obtain ⟨⟨_, _, ho⟩, _, _, _, hs, _, _, _, ha⟩ := hplus
    exact .fields d ((Text.isSignedWord_iff ho).1 horigin) ((Text.isSignedWord_iff hs).1 hsize)
      ((Text.isSignedWord_iff ha).1 haddress)

/-- So a line is plain if it brings no record, or has no plus sign. -/
theorem line_isWord_iff : Line Text.IsWord line value ↔
    Line Text.IsSignedWord line value ∧ (value ≠ none → '+' ∉ Text.trim line) := by
  constructor
  · rintro (h | h | h)
    · exact ⟨.blank h, fun hnone => absurd rfl hnone⟩
    · exact ⟨.header h, fun hnone => absurd rfl hnone⟩
    · obtain ⟨hentry, hplus⟩ := entry_isWord_iff.1 h
      exact ⟨.entry hentry, fun _ => hplus⟩
  · rintro ⟨h | h | h, hplus⟩
    · exact .blank h
    · exact .header h
    · exact .entry (entry_isWord_iff.2 ⟨h, hplus (Option.some_ne_none _)⟩)

/-! ## Logs -/

/-- Lines of the grammar are read as their records, in order. -/
theorem readLines_of_lines (h : List.Forall₂ (Line Text.IsSignedWord) lines values)
    (number : Nat) : readLines number lines = .ok values.reduceOption := by
  induction h generalizing number with
  | nil => rfl
  | @cons line value lines values hline _ ih =>
    rw [readLines_cons, line_iff.1 hline]
    simp only [ih]
    cases value <;> rfl

/-- The first line outside of the grammar is named, by its number and by its text. -/
theorem readLines_of_stray (hfront : ∀ l ∈ front, ∃ value, Line Text.IsSignedWord l value)
    (hline : ∀ value, ¬ Line Text.IsSignedWord line value) (back : List (List Char))
    (number : Nat) : readLines number (front ++ line :: back) =
      .error (.malformedLine (front.length + number) (String.ofList (Text.trim line))) := by
  induction front generalizing number with
  | nil =>
    have hnone : lineValue? line = none :=
      Option.eq_none_iff_forall_ne_some.2 fun value h => hline value (line_iff.2 h)
    rw [List.nil_append, readLines_cons, hnone, List.length_nil, Nat.zero_add]
  | cons first front ih =>
    obtain ⟨⟨value, hfirst⟩, hfront⟩ := List.forall_mem_cons.1 hfront
    rw [List.cons_append, readLines_cons, line_iff.1 hfirst]
    simp only [ih hfront]
    rw [List.length_cons, Nat.add_assoc, Nat.add_comm 1]
    rfl

/-- Lines are all in the grammar, or one of them is the first that is not. -/
theorem lines_or_stray (lines : List (List Char)) :
    (∃ values, List.Forall₂ (Line Text.IsSignedWord) lines values) ∨
    ∃ front line back, lines = front ++ line :: back ∧
      (∀ l ∈ front, ∃ value, Line Text.IsSignedWord l value) ∧
      ∀ value, ¬ Line Text.IsSignedWord line value := by
  induction lines with
  | nil => exact Or.inl ⟨[], .nil⟩
  | cons line lines ih =>
    by_cases hline : ∃ value, Line Text.IsSignedWord line value
    · obtain ⟨value, hvalue⟩ := hline
      rcases ih with ⟨values, hvalues⟩ | ⟨front, stray, back, rfl, hfront, hstray⟩
      · exact Or.inl ⟨value :: values, .cons hvalue hvalues⟩
      · exact Or.inr ⟨line :: front, stray, back, rfl,
          List.forall_mem_cons.2 ⟨⟨value, hvalue⟩, hfront⟩, hstray⟩
    · exact Or.inr ⟨[], line, lines, rfl, nofun, fun value h => hline ⟨value, h⟩⟩

/-- Text is read if all its lines are in the grammar, with or without plus signs before the digits
of numbers, and gives their records, in order. Otherwise it is refused, with the number of the first
line outside of the grammar, counted from one, and the text of that line. Of the lines that are
accepted, those without a plus sign, and those that bring no record, are the ones with plain
numbers. -/
theorem read_iff_grammar (text : String) :
    (∀ records, read (utf8 text) = .ok records ↔
      ∃ values, List.Forall₂ (Line Text.IsSignedWord) (text.toList.splitOn '\n') values ∧
        values.reduceOption = records) ∧
    (∀ e, read (utf8 text) = .error e ↔
      ∃ front line back, text.toList.splitOn '\n' = front ++ line :: back ∧
        (∀ l ∈ front, ∃ value, Line Text.IsSignedWord l value) ∧
        (∀ value, ¬ Line Text.IsSignedWord line value) ∧
        e = .malformedLine (front.length + 1) (String.ofList (Text.trim line))) ∧
    ∀ line value, Line Text.IsWord line value ↔
      Line Text.IsSignedWord line value ∧ (value ≠ none → '+' ∉ Text.trim line) := by
  rw [read_utf8, Text.pieces_eq_splitOn]
  generalize text.toList.splitOn '\n' = lines
  refine ⟨fun records => ⟨fun hread => ?_, ?_⟩, fun e => ⟨fun hread => ?_, ?_⟩,
    fun line value => line_isWord_iff⟩
  · rcases lines_or_stray lines with ⟨values, hvalues⟩ | ⟨front, line, back, rfl, hfront, hline⟩
    · rw [readLines_of_lines hvalues] at hread
      exact ⟨values, hvalues, Except.ok.inj hread⟩
    · rw [readLines_of_stray hfront hline] at hread
      contradiction
  · rintro ⟨values, hvalues, rfl⟩
    exact readLines_of_lines hvalues 1
  · rcases lines_or_stray lines with ⟨values, hvalues⟩ | ⟨front, line, back, rfl, hfront, hline⟩
    · rw [readLines_of_lines hvalues] at hread
      contradiction
    · rw [readLines_of_stray hfront hline] at hread
      exact ⟨front, line, back, rfl, hfront, hline, (Except.error.inj hread).symm⟩
  · rintro ⟨front, line, back, rfl, hfront, hline, rfl⟩
    exact readLines_of_stray hfront hline back 1

end TextLog

namespace Sample

/-- The third line has a letter that is no direction. -/
theorem third_line_refused : TextLog.read (utf8 "Format: x\n0x10,r,8,0x20\n0x10,q,8,0x20\n") =
    .error (.malformedLine 3 "0x10,q,8,0x20") := by
  obtain ⟨_, hrefused, _⟩ :=
    TextLog.read_iff_grammar "Format: x\n0x10,r,8,0x20\n0x10,q,8,0x20\n"
  refine (hrefused _).2 ⟨["Format: x".toList, "0x10,r,8,0x20".toList], "0x10,q,8,0x20".toList,
    [[]], by decide +kernel, ?_, ?_, by decide +kernel⟩
  · refine List.forall_mem_cons.2 ⟨⟨none, TextLog.line_iff.2 rfl⟩, List.forall_mem_cons.2
      ⟨⟨some (.of false 0x20 8 0x10), TextLog.line_iff.2 rfl⟩, nofun⟩⟩
  · intro value hvalue
    have hnone : TextLog.lineValue? "0x10,q,8,0x20".toList = none := rfl
    rw [TextLog.line_iff, hnone] at hvalue
    contradiction

/-- A line with plus signs is read as a record, although its numbers are not plain. -/
theorem plus_signs_read :
    TextLog.read (utf8 "0x+10,r,+8,0x20\n") = .ok [.of false 0x20 8 0x10] ∧
    "0x+10,r,+8,0x20".toList ∈ "0x+10,r,+8,0x20\n".toList.splitOn '\n' ∧
    ∀ value, ¬ TextLog.Line Text.IsWord "0x+10,r,+8,0x20".toList value := by
  refine ⟨?_, by decide +kernel, fun value hvalue => ?_⟩
  · rw [TextLog.read_utf8]
    rfl
  · obtain ⟨haccepted, hplus⟩ := TextLog.line_isWord_iff.1 hvalue
    rw [TextLog.line_iff] at haccepted
    have hrecord : some (some (.of false 0x20 8 0x10)) = some value := haccepted
    obtain rfl := Option.some.inj hrecord
    exact hplus (Option.some_ne_none _) (by decide +kernel)

end Sample

end AccessTrace
