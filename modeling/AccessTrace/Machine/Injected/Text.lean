import AccessTrace.Machine.Injected

/-!
Injected instructions as text, for messages: the name of the instruction and its operands, each
with the name of its role.
-/

namespace AccessTrace

/-- The name of a register as a message spells it. -/
def Register.title (r : Register) : String :=
  String.ofList (match r.name.toList with
    | first :: rest => first.toUpper :: rest
    | [] => [])

/-- An optional value after `Some`, or `None`. -/
def optionText (value : Option String) : String :=
  match value with
  | some text => s!"Some({text})"
  | none => "None"

def OperandSize.text : OperandSize → String
  | b1 => "B1"
  | b2 => "B2"
  | b4 => "B4"
  | b8 => "B8"
  | region length => s!"Region({length})"

/-- A name and the fields of a value, written as pairs of a role and a text. -/
def fieldsText (name : String) (fields : List (String × String)) : String :=
  name ++ " \x7b " ++ ", ".intercalate (fields.map fun f => s!"{f.1}: {f.2}") ++ " \x7d"

def MemoryOperand.text (m : MemoryOperand) : String :=
  fieldsText "MemRef" [("base", optionText (m.base.map Register.title)),
    ("index", optionText (m.index.map Register.title)), ("scale", toString m.scale.toNat),
    ("disp", toString m.displacement.toInt), ("size", m.size.text)]

def StoreWidth.text : StoreWidth → String
  | w32 => "W32"
  | w64 => "W64"

namespace Injected

def slotText (slot : SpillSlot) : String :=
  s!"SpillSlot({slot.number.toNat})"

def labelText (l : Label) : String :=
  s!"Label({l.number})"

def text : Injected → String
  | spill reg slot => fieldsText "Spill" [("reg", reg.title), ("slot", slotText slot)]
  | restore reg slot => fieldsText "Restore" [("reg", reg.title), ("slot", slotText slot)]
  | saveFlags slot => fieldsText "SaveFlags" [("slot", slotText slot)]
  | restoreFlags slot => fieldsText "RestoreFlags" [("slot", slotText slot)]
  | loadAddress dst mem =>
    fieldsText "LoadEffectiveAddress" [("dst", dst.title), ("mem", mem.text)]
  | readField dst field =>
    fieldsText "ReadTls" [("dst", dst.title), ("index", s!"TlsIndex({field.number})")]
  | load dst base disp =>
    fieldsText "Load" [("dst", dst.title), ("base", base.title), ("disp", toString disp.toInt)]
  | store base disp src =>
    fieldsText "Store" [("base", base.title), ("disp", toString disp.toInt), ("src", src.title)]
  | storeImmediate base disp value width =>
    fieldsText "StoreImm" [("base", base.title), ("disp", toString disp.toInt),
      ("imm", toString value.toNat), ("width", width.text)]
  | sum dst base index disp =>
    fieldsText "Lea" [("dst", dst.title), ("base", base.title),
      ("index", optionText (index.map Register.title)), ("disp", toString disp.toInt)]
  | testZero reg => fieldsText "TestZero" [("reg", reg.title)]
  | jumpIfCounterZero target => fieldsText "JumpIfRcxZero" [("target", labelText target)]
  | jumpIfZero target => fieldsText "JumpIfZf" [("target", labelText target)]
  | jump target => fieldsText "Jump" [("target", labelText target)]
  | label l => s!"Label({labelText l})"
  | labelAddress dst l =>
    fieldsText "MovLabelAddr" [("dst", dst.title), ("label", labelText l)]
  | jumpTo target => fieldsText "JumpAbs" [("target", toString target.toNat)]
  | jumpIndirect reg => fieldsText "JumpIndirect" [("reg", reg.title)]
  | hostCall routine =>
    fieldsText "CleanCall" [("callback", s!"CallbackId({routine.number.toNat})")]

end Injected

end AccessTrace
