import AccessTrace.Code.Encoding
import AccessTrace.Proofs.Machine.Steps
import Mathlib.Order.Bounds.Basic

/-!
# Images and what they encode

No encoding of an instruction starts with that of another, so bytes are read in one way at most:
decoding succeeds on the encodings of sequences and on nothing else, and where it fails it has come
to the end of the longest such encoding that the bytes start with. Instructions are encoded onto
bytes that are there already, which a refused instruction leaves as they are.
-/

namespace AccessTrace

namespace Injected

/-- Whether an instruction means the same at every address. -/
def isPortable : Injected → Bool
  | spill .. | restore .. | saveFlags _ | restoreFlags _ | hostCall _ | jumpIndirect _ => true
  | _ => false

/-! ## Encoding onto bytes -/

/-- Steps on the bytes of an image that is being written. -/
abbrev BytesM := EStateM MachineError (List UInt8)

def push (bytes : List UInt8) : BytesM Unit :=
  modify (· ++ bytes)

/-- Encodes an instruction onto the bytes, piece by piece. -/
def encodeOnto (i : Injected) : BytesM Unit :=
  match i with
  | spill reg slot => push [0x01, UInt8.ofNat reg.index, slot.number]
  | restore reg slot => push [0x02, UInt8.ofNat reg.index, slot.number]
  | saveFlags slot => push [0x03, slot.number]
  | restoreFlags slot => push [0x04, slot.number]
  | hostCall routine => do
    push [0x10]
    push (littleEndian 4 routine.number.toNat)
  | jumpIndirect reg => push [0x20, UInt8.ofNat reg.index]
  | other => throw (.unencodable other)

/-- Encodes a sequence, one instruction after the other. -/
def encodeAllOnto : List Injected → BytesM Unit
  | [] => pure ()
  | i :: rest => do
    encodeOnto i
    encodeAllOnto rest

/-- The bytes are the encoding of some sequence. -/
def IsEncoding (bytes : List UInt8) : Prop :=
  ∃ is, encodeAllOnto is [] = .ok () bytes

variable {i : Injected} {is : List Injected} {code bytes out rest : List UInt8} {e : MachineError}
  {offset : Nat}

theorem encodeOnto_apply (i : Injected) (out : List UInt8) :
    encodeOnto i out = match i.encode with
      | .ok code => .ok () (out ++ code)
      | .error e => .error e out := by
  cases i with
  | hostCall routine =>
    change EStateM.Result.ok () (out ++ [0x10] ++ littleEndian 4 routine.number.toNat) = _
    rw [List.append_assoc]
    rfl
  | _ => rfl

theorem encode_eq_error (h : i.encode = .error e) :
    i.isPortable = false ∧ e = .unencodable i := by
  cases i <;> first | contradiction | exact ⟨rfl, (Except.error.inj h).symm⟩

theorem isPortable_of_encode (h : i.encode = .ok code) : i.isPortable = true := by
  cases i <;> first | rfl | contradiction

theorem encodeAll_nil : encodeAll [] = .ok [] := rfl

theorem encodeAll_cons (i : Injected) (is : List Injected) :
    encodeAll (i :: is) = (do return (← i.encode) ++ (← encodeAll is)) := by
  unfold encodeAll
  rw [List.mapM_cons]
  cases i.encode with
  | error e => rfl
  | ok code => cases is.mapM encode <;> rfl

theorem encodeAll_cons_eq_ok (h : encodeAll (i :: is) = .ok bytes) :
    ∃ code rest, i.encode = .ok code ∧ encodeAll is = .ok rest ∧ bytes = code ++ rest := by
  rw [encodeAll_cons] at h
  cases hi : i.encode with
  | error e =>
    rw [hi] at h
    contradiction
  | ok code =>
    rw [hi] at h
    cases his : encodeAll is with
    | error e =>
      rw [his] at h
      contradiction
    | ok rest =>
      rw [his] at h
      exact ⟨code, rest, rfl, rfl, (Except.ok.inj h).symm⟩

theorem encodeAllOnto_eq_ok_iff : encodeAllOnto is out = .ok () bytes ↔
    ∃ code, encodeAll is = .ok code ∧ bytes = out ++ code := by
  induction is generalizing out with
  | nil =>
    constructor
    · intro h
      injection h with _ h
      exact ⟨[], rfl, by rw [← h, List.append_nil]⟩
    · rintro ⟨code, h, rfl⟩
      obtain rfl := Except.ok.inj (encodeAll_nil.symm.trans h)
      rw [List.append_nil]
      rfl
  | cons i is ih =>
    rw [encodeAllOnto, encodeAll_cons, Step.bind_apply, encodeOnto_apply]
    cases i.encode with
    | error e =>
      constructor
      · intro h
        contradiction
      · rintro ⟨code, h, _⟩
        contradiction
    | ok first =>
      change encodeAllOnto is (out ++ first) = _ ↔ _
      rw [ih]
      cases encodeAll is with
      | error e =>
        constructor
        · rintro ⟨code, h, _⟩
          contradiction
        · rintro ⟨code, h, _⟩
          contradiction
      | ok code =>
        constructor
        · rintro ⟨_, h, rfl⟩
          obtain rfl := Except.ok.inj h
          exact ⟨first ++ code, rfl, List.append_assoc ..⟩
        · rintro ⟨_, h, rfl⟩
          obtain rfl := Except.ok.inj h
          exact ⟨code, rfl, (List.append_assoc ..).symm⟩

theorem isEncoding_iff : IsEncoding bytes ↔ ∃ is, encodeAll is = .ok bytes := by
  unfold IsEncoding
  simp only [encodeAllOnto_eq_ok_iff, List.nil_append, exists_eq_right']

theorem isPortable_of_mem (h : encodeAll is = .ok bytes) (hi : i ∈ is) : i.isPortable = true := by
  induction is generalizing bytes with
  | nil => contradiction
  | cons j is ih =>
    obtain ⟨code, rest, hj, his, _⟩ := encodeAll_cons_eq_ok h
    rcases List.mem_cons.1 hi with rfl | hi
    · exact isPortable_of_encode hj
    · exact ih his hi

/-! ## Decoding one instruction -/

theorem registerOperand_index (offset : Nat) (r : Register) :
    registerOperand offset (UInt8.ofNat r.index) = .ok r := by
  cases r <;> rfl

theorem registerOperand_cases (offset : Nat) (b : UInt8) :
    (∃ r : Register, b = UInt8.ofNat r.index) ∨
      registerOperand offset b = .error (.malformedImage offset) := by
  unfold registerOperand
  cases hr : Register.ofIndex? b.toNat with
  | some r => exact Or.inl ⟨r, by rw [Register.index_of_ofIndex? hr, UInt8.ofNat_toNat]⟩
  | none => exact Or.inr rfl

/-- The encoding of an instruction is read as that instruction, whatever comes behind it. -/
theorem decodeFrom_encode (h : i.encode = .ok code) (offset : Nat) (rest : List UInt8) :
    decodeFrom offset (code ++ rest) =
      (decodeFrom (offset + code.length) rest).map (i :: ·) := by
  cases i with
  | spill reg slot | restore reg slot =>
    obtain rfl := Except.ok.inj h
    rw [List.cons_append, List.cons_append, List.cons_append, List.nil_append, decodeFrom,
      registerOperand_index]
    rfl
  | saveFlags slot | restoreFlags slot =>
    obtain rfl := Except.ok.inj h
    rfl
  | hostCall routine =>
    obtain rfl := Except.ok.inj h
    have hnumber : UInt32.ofNat (ofLittleEndian (littleEndian 4 routine.number.toNat)) =
        routine.number := by
      have hlt : routine.number.toNat < 256 ^ 4 := routine.number.toNat_lt
      rw [ofLittleEndian_littleEndian, Nat.mod_eq_of_lt hlt]
      exact UInt32.ofNat_toNat
    change (do
      let routine := UInt32.ofNat (ofLittleEndian (littleEndian 4 routine.number.toNat))
      return hostCall ⟨routine⟩ :: (← decodeFrom (offset + 5) rest)) = _
    rw [hnumber]
    rfl
  | jumpIndirect reg =>
    obtain rfl := Except.ok.inj h
    rw [List.cons_append, List.cons_append, List.nil_append, decodeFrom, registerOperand_index]
    rfl
  | _ => contradiction

theorem length_encode_pos (h : i.encode = .ok code) : 0 < code.length := by
  cases i <;> first | contradiction | (obtain rfl := Except.ok.inj h; simp)

/-- Bytes start with the encoding of an instruction, or nothing can be read from them. -/
theorem decodeFrom_cases (offset : Nat) (bytes : List UInt8) :
    bytes = [] ∨
      (∃ (i : Injected) (code rest : List UInt8), i.encode = .ok code ∧ bytes = code ++ rest) ∨
      decodeFrom offset bytes = .error (.malformedImage offset) := by
  fun_cases decodeFrom offset bytes with
  | case1 => exact Or.inl rfl
  | case2 b slot rest =>
    rcases registerOperand_cases offset b with ⟨r, rfl⟩ | hbad
    · exact Or.inr (Or.inl ⟨spill r ⟨slot⟩, _, rest, rfl, rfl⟩)
    · exact Or.inr (Or.inr (by rw [hbad]; rfl))
  | case3 b slot rest =>
    rcases registerOperand_cases offset b with ⟨r, rfl⟩ | hbad
    · exact Or.inr (Or.inl ⟨restore r ⟨slot⟩, _, rest, rfl, rfl⟩)
    · exact Or.inr (Or.inr (by rw [hbad]; rfl))
  | case4 slot rest => exact Or.inr (Or.inl ⟨saveFlags ⟨slot⟩, _, rest, rfl, rfl⟩)
  | case5 slot rest => exact Or.inr (Or.inl ⟨restoreFlags ⟨slot⟩, _, rest, rfl, rfl⟩)
  | case6 b₀ b₁ b₂ b₃ rest number =>
    have hlt : ofLittleEndian [b₀, b₁, b₂, b₃] < 256 ^ 4 := ofLittleEndian_lt [b₀, b₁, b₂, b₃]
    have hcode : littleEndian 4 number.toNat = [b₀, b₁, b₂, b₃] := by
      rw [UInt32.toNat_ofNat_of_lt' hlt]
      exact littleEndian_ofLittleEndian [b₀, b₁, b₂, b₃]
    refine Or.inr (Or.inl ⟨hostCall ⟨number⟩, _, rest, rfl, ?_⟩)
    rw [hcode]
    rfl
  | case7 b rest =>
    rcases registerOperand_cases offset b with ⟨r, rfl⟩ | hbad
    · exact Or.inr (Or.inl ⟨jumpIndirect r, _, rest, rfl, rfl⟩)
    · exact Or.inr (Or.inr (by rw [hbad]; rfl))
  | case8 => exact Or.inr (Or.inr rfl)

/-! ## Decoding sequences -/

/-- The encoding of a sequence is read as that sequence, whatever comes behind it. -/
theorem decodeFrom_encodeAll (h : encodeAll is = .ok code) (offset : Nat) (rest : List UInt8) :
    decodeFrom offset (code ++ rest) =
      (decodeFrom (offset + code.length) rest).map (is ++ ·) := by
  induction is generalizing offset code with
  | nil =>
    obtain rfl := Except.ok.inj (encodeAll_nil.symm.trans h)
    cases hrest : decodeFrom offset rest <;> simp [hrest, Except.map]
  | cons i is ih =>
    obtain ⟨first, others, hi, his, rfl⟩ := encodeAll_cons_eq_ok h
    rw [List.append_assoc, decodeFrom_encode hi, ih his, List.length_append, Nat.add_assoc]
    cases decodeFrom (offset + (first.length + others.length)) rest <;> rfl

/-- What was read encodes to the bytes, and where reading stops is behind what could be read. -/
theorem decodeFrom_outcome (offset : Nat) (bytes : List UInt8) :
    match decodeFrom offset bytes with
    | .ok is => encodeAll is = .ok bytes
    | .error e => ∃ is code rest, encodeAll is = .ok code ∧ bytes = code ++ rest ∧
        e = .malformedImage (offset + code.length) := by
  induction hn : bytes.length using Nat.strong_induction_on generalizing offset bytes with
  | h n ih =>
    rcases decodeFrom_cases offset bytes with rfl | ⟨i, code, rest, hi, rfl⟩ | hstuck
    · exact encodeAll_nil
    · have hpos := length_encode_pos hi
      rw [List.length_append] at hn
      have hrest := ih rest.length (by omega) (offset + code.length) rest rfl
      rw [decodeFrom_encode hi]
      cases hdecode : decodeFrom (offset + code.length) rest with
      | ok is =>
        rw [hdecode] at hrest
        change encodeAll (i :: is) = _
        rw [encodeAll_cons, hi, hrest]
        rfl
      | error e =>
        rw [hdecode] at hrest
        obtain ⟨is, code', rest', his, rfl, rfl⟩ := hrest
        refine ⟨i :: is, code ++ code', rest', ?_, (List.append_assoc ..).symm, ?_⟩
        · rw [encodeAll_cons, hi, his]
          rfl
        · rw [List.length_append, Nat.add_assoc]
    · rw [hstuck]
      exact ⟨[], [], bytes, encodeAll_nil, rfl, rfl⟩

theorem decode_eq_ok_iff : decode bytes = .ok is ↔ encodeAll is = .ok bytes := by
  constructor
  · intro h
    have houtcome := decodeFrom_outcome 0 bytes
    rw [show decodeFrom 0 bytes = .ok is from h] at houtcome
    exact houtcome
  · intro h
    have hdecode := decodeFrom_encodeAll h 0 []
    rw [List.append_nil] at hdecode
    rw [decode, hdecode]
    exact congrArg Except.ok (List.append_nil is)

/-- Where decoding fails, the bytes in front are the longest encoding that there is. -/
theorem decode_eq_error (h : decode bytes = .error e) : ∃ n, e = .malformedImage n ∧
    IsGreatest {n | n ≤ bytes.length ∧ IsEncoding (bytes.take n)} n := by
  have houtcome := decodeFrom_outcome 0 bytes
  have hdecode : decodeFrom 0 bytes = .error e := h
  rw [hdecode] at houtcome
  obtain ⟨is, code, rest, his, rfl, rfl⟩ := houtcome
  rw [Nat.zero_add] at hdecode ⊢
  refine ⟨code.length, rfl, ⟨by simp, ?_⟩, fun n hn => ?_⟩
  · rw [List.take_left]
    exact isEncoding_iff.2 ⟨is, his⟩
  · obtain ⟨hle, hencoding⟩ := hn
    obtain ⟨is', his'⟩ := isEncoding_iff.1 hencoding
    -- Reading goes past the other encoding, so it cannot stop in front of its end.
    rw [← List.take_append_drop n (code ++ rest), decodeFrom_encodeAll his',
      List.length_take_of_le hle, Nat.zero_add] at hdecode
    have hbehind := decodeFrom_outcome n ((code ++ rest).drop n)
    cases hdrop : decodeFrom n ((code ++ rest).drop n) with
    | ok _ =>
      rw [hdrop] at hdecode
      contradiction
    | error _ =>
      rw [hdrop] at hdecode hbehind
      obtain ⟨_, code', _, _, _, rfl⟩ := hbehind
      obtain hlength := MachineError.malformedImage.inj (Except.error.inj hdecode)
      omega

/-- Decoding undoes encoding and nothing else, a failure names the end of the longest encoding that
the bytes start with, and instructions that depend on their place are refused without a trace. -/
theorem decode_inverse (bytes : List UInt8) :
    (∀ is, decode bytes = .ok is ↔
      (∀ i ∈ is, i.isPortable = true) ∧ encodeAllOnto is [] = .ok () bytes) ∧
    (match decode bytes with
      | .ok _ => IsEncoding bytes
      | .error e => ∃ n, e = .malformedImage n ∧
          IsGreatest {n | n ≤ bytes.length ∧ IsEncoding (bytes.take n)} n) ∧
    ∀ (i : Injected) (out : List UInt8),
      match encodeOnto i out with
      | .ok _ out' => i.isPortable = true ∧ out <+: out'
      | .error e out' => i.isPortable = false ∧ e = .unencodable i ∧ out' = out := by
  refine ⟨fun is => ?_, ?_, fun i out => ?_⟩
  · rw [decode_eq_ok_iff, encodeAllOnto_eq_ok_iff]
    simp only [List.nil_append, exists_eq_right']
    exact ⟨fun h => ⟨fun i => isPortable_of_mem h, h⟩, fun h => h.2⟩
  · cases h : decode bytes with
    | ok is => exact isEncoding_iff.2 ⟨is, decode_eq_ok_iff.1 h⟩
    | error e => exact decode_eq_error h
  · rw [encodeOnto_apply]
    cases h : i.encode with
    | ok code => exact ⟨isPortable_of_encode h, List.prefix_append _ _⟩
    | error e =>
      obtain ⟨hportable, he⟩ := encode_eq_error h
      exact ⟨hportable, he, rfl⟩

example : decode [0x03, 0x00, 0xff] = .error (.malformedImage 2) := by decide

end Injected

end AccessTrace
