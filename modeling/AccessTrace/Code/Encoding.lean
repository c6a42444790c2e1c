import AccessTrace.Bytes
import AccessTrace.Machine.Error

/-!
Injected instructions as bytes, for images that threads share. Only instructions that mean the
same at every address have an encoding: one opcode byte and fixed operands.
-/

namespace AccessTrace

namespace Injected

/-- The bytes of an instruction that does not depend on where it stands. -/
def encode (i : Injected) : Except MachineError (List UInt8) :=
  match i with
  | spill reg slot => .ok [0x01, UInt8.ofNat reg.index, slot.number]
  | restore reg slot => .ok [0x02, UInt8.ofNat reg.index, slot.number]
  | saveFlags slot => .ok [0x03, slot.number]
  | restoreFlags slot => .ok [0x04, slot.number]
  | hostCall routine => .ok (0x10 :: littleEndian 4 routine.number.toNat)
  | jumpIndirect reg => .ok [0x20, UInt8.ofNat reg.index]
  | other => .error (.unencodable other)

/-- The bytes of a sequence of instructions. -/
def encodeAll (is : List Injected) : Except MachineError (List UInt8) :=
  return (← is.mapM encode).flatten

/-- The register that an operand byte names. -/
def registerOperand (offset : Nat) (b : UInt8) : Except MachineError Register :=
  match Register.ofIndex? b.toNat with
  | some reg => .ok reg
  | none => .error (.malformedImage offset)

/-- Reads instructions up to the end of the bytes; `offset` is where these start. -/
def decodeFrom (offset : Nat) : List UInt8 → Except MachineError (List Injected)
  | [] => .ok []
  | 0x01 :: reg :: slot :: rest => do
    let reg ← registerOperand offset reg
    return spill reg ⟨slot⟩ :: (← decodeFrom (offset + 3) rest)
  | 0x02 :: reg :: slot :: rest => do
    let reg ← registerOperand offset reg
    return restore reg ⟨slot⟩ :: (← decodeFrom (offset + 3) rest)
  | 0x03 :: slot :: rest => return saveFlags ⟨slot⟩ :: (← decodeFrom (offset + 2) rest)
  | 0x04 :: slot :: rest => return restoreFlags ⟨slot⟩ :: (← decodeFrom (offset + 2) rest)
  | 0x10 :: b₀ :: b₁ :: b₂ :: b₃ :: rest =>
    let routine := UInt32.ofNat (ofLittleEndian [b₀, b₁, b₂, b₃])
    return hostCall ⟨routine⟩ :: (← decodeFrom (offset + 5) rest)
  | 0x20 :: reg :: rest => do
    let reg ← registerOperand offset reg
    return jumpIndirect reg :: (← decodeFrom (offset + 2) rest)
  | _ => .error (.malformedImage offset)

/-- Reads a whole image; an error names the first byte that starts no instruction. -/
def decode (bytes : List UInt8) : Except MachineError (List Injected) :=
  decodeFrom 0 bytes

end Injected

end AccessTrace
