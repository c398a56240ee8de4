import Zcashd.Source.Serialize

/-!
Scripts as byte strings (`src/script/script.h`, `src/script/script.cpp`): the opcodes, the reading
of one operation and the numbers on the stack. An opcode is a byte of the script, so it stays a byte
here; `opcodetype` has names for some of them.
-/
namespace Zcashd.Source.Script

abbrev valtype := List UInt8

def MAX_SCRIPT_ELEMENT_SIZE : Nat := 520

/-! Opcodes -/

@[match_pattern] def OP_0 : UInt8 := 0x00
@[match_pattern] def OP_PUSHDATA1 : UInt8 := 0x4c
@[match_pattern] def OP_PUSHDATA2 : UInt8 := 0x4d
@[match_pattern] def OP_PUSHDATA4 : UInt8 := 0x4e
@[match_pattern] def OP_1NEGATE : UInt8 := 0x4f
@[match_pattern] def OP_1 : UInt8 := 0x51
@[match_pattern] def OP_16 : UInt8 := 0x60
@[match_pattern] def OP_NOP : UInt8 := 0x61
@[match_pattern] def OP_IF : UInt8 := 0x63
@[match_pattern] def OP_NOTIF : UInt8 := 0x64
@[match_pattern] def OP_ELSE : UInt8 := 0x67
@[match_pattern] def OP_ENDIF : UInt8 := 0x68
@[match_pattern] def OP_VERIFY : UInt8 := 0x69
@[match_pattern] def OP_RETURN : UInt8 := 0x6a
@[match_pattern] def OP_TOALTSTACK : UInt8 := 0x6b
@[match_pattern] def OP_FROMALTSTACK : UInt8 := 0x6c
@[match_pattern] def OP_2DROP : UInt8 := 0x6d
@[match_pattern] def OP_2DUP : UInt8 := 0x6e
@[match_pattern] def OP_3DUP : UInt8 := 0x6f
@[match_pattern] def OP_2OVER : UInt8 := 0x70
@[match_pattern] def OP_2ROT : UInt8 := 0x71
@[match_pattern] def OP_2SWAP : UInt8 := 0x72
@[match_pattern] def OP_IFDUP : UInt8 := 0x73
@[match_pattern] def OP_DEPTH : UInt8 := 0x74
@[match_pattern] def OP_DROP : UInt8 := 0x75
@[match_pattern] def OP_DUP : UInt8 := 0x76
@[match_pattern] def OP_NIP : UInt8 := 0x77
@[match_pattern] def OP_OVER : UInt8 := 0x78
@[match_pattern] def OP_PICK : UInt8 := 0x79
@[match_pattern] def OP_ROLL : UInt8 := 0x7a
@[match_pattern] def OP_ROT : UInt8 := 0x7b
@[match_pattern] def OP_SWAP : UInt8 := 0x7c
@[match_pattern] def OP_TUCK : UInt8 := 0x7d
@[match_pattern] def OP_CAT : UInt8 := 0x7e
@[match_pattern] def OP_SUBSTR : UInt8 := 0x7f
@[match_pattern] def OP_LEFT : UInt8 := 0x80
@[match_pattern] def OP_RIGHT : UInt8 := 0x81
@[match_pattern] def OP_SIZE : UInt8 := 0x82
@[match_pattern] def OP_INVERT : UInt8 := 0x83
@[match_pattern] def OP_AND : UInt8 := 0x84
@[match_pattern] def OP_OR : UInt8 := 0x85
@[match_pattern] def OP_XOR : UInt8 := 0x86
@[match_pattern] def OP_EQUAL : UInt8 := 0x87
@[match_pattern] def OP_EQUALVERIFY : UInt8 := 0x88
@[match_pattern] def OP_1ADD : UInt8 := 0x8b
@[match_pattern] def OP_1SUB : UInt8 := 0x8c
@[match_pattern] def OP_2MUL : UInt8 := 0x8d
@[match_pattern] def OP_2DIV : UInt8 := 0x8e
@[match_pattern] def OP_NEGATE : UInt8 := 0x8f
@[match_pattern] def OP_ABS : UInt8 := 0x90
@[match_pattern] def OP_NOT : UInt8 := 0x91
@[match_pattern] def OP_0NOTEQUAL : UInt8 := 0x92
@[match_pattern] def OP_ADD : UInt8 := 0x93
@[match_pattern] def OP_SUB : UInt8 := 0x94
@[match_pattern] def OP_MUL : UInt8 := 0x95
@[match_pattern] def OP_DIV : UInt8 := 0x96
@[match_pattern] def OP_MOD : UInt8 := 0x97
@[match_pattern] def OP_LSHIFT : UInt8 := 0x98
@[match_pattern] def OP_RSHIFT : UInt8 := 0x99
@[match_pattern] def OP_BOOLAND : UInt8 := 0x9a
@[match_pattern] def OP_BOOLOR : UInt8 := 0x9b
@[match_pattern] def OP_NUMEQUAL : UInt8 := 0x9c
@[match_pattern] def OP_NUMEQUALVERIFY : UInt8 := 0x9d
@[match_pattern] def OP_NUMNOTEQUAL : UInt8 := 0x9e
@[match_pattern] def OP_LESSTHAN : UInt8 := 0x9f
@[match_pattern] def OP_GREATERTHAN : UInt8 := 0xa0
@[match_pattern] def OP_LESSTHANOREQUAL : UInt8 := 0xa1
@[match_pattern] def OP_GREATERTHANOREQUAL : UInt8 := 0xa2
@[match_pattern] def OP_MIN : UInt8 := 0xa3
@[match_pattern] def OP_MAX : UInt8 := 0xa4
@[match_pattern] def OP_WITHIN : UInt8 := 0xa5
@[match_pattern] def OP_RIPEMD160 : UInt8 := 0xa6
@[match_pattern] def OP_SHA1 : UInt8 := 0xa7
@[match_pattern] def OP_SHA256 : UInt8 := 0xa8
@[match_pattern] def OP_HASH160 : UInt8 := 0xa9
@[match_pattern] def OP_HASH256 : UInt8 := 0xaa
@[match_pattern] def OP_CODESEPARATOR : UInt8 := 0xab
@[match_pattern] def OP_CHECKSIG : UInt8 := 0xac
@[match_pattern] def OP_CHECKSIGVERIFY : UInt8 := 0xad
@[match_pattern] def OP_CHECKMULTISIG : UInt8 := 0xae
@[match_pattern] def OP_CHECKMULTISIGVERIFY : UInt8 := 0xaf
@[match_pattern] def OP_NOP1 : UInt8 := 0xb0
@[match_pattern] def OP_CHECKLOCKTIMEVERIFY : UInt8 := 0xb1
@[match_pattern] def OP_NOP3 : UInt8 := 0xb2
@[match_pattern] def OP_NOP10 : UInt8 := 0xb9

def isPayToScriptHash (script : CScript) : Bool :=
  script.length == 23 && script[0]? == some OP_HASH160 && script[1]? == some 0x14 && script[22]? ==
    some OP_EQUAL

/-! Operations -/

/-- The `nSize` bytes of an immediate operand, read behind its length. -/
def immediate (opcode : UInt8) (nSize : Nat) (pc : CScript) : Option (UInt8 × valtype × CScript) :=
  if pc.length < nSize then none else some (opcode, pc.take nSize, pc.drop nSize)

def littleEndian (bytes : List UInt8) : Nat :=
  bytes.foldr (fun byte above => byte.toNat + 256 * above) 0

/-- A length of `count` bytes (`ReadLE16`, `ReadLE32`), then the operand. -/
def sized (opcode : UInt8) (count : Nat) (pc : CScript) : Option (UInt8 × valtype × CScript) :=
  if pc.length < count then none
  else immediate opcode (littleEndian (pc.take count)) (pc.drop count)

/-- `GetOp2`: the opcode, its immediate operand and what stands behind them. -/
def getOp : CScript → Option (UInt8 × valtype × CScript)
  | [] => none
  | opcode :: pc =>
    if opcode < OP_PUSHDATA1 then immediate opcode opcode.toNat pc
    else if opcode = OP_PUSHDATA1 then sized opcode 1 pc
    else if opcode = OP_PUSHDATA2 then sized opcode 2 pc
    else if opcode = OP_PUSHDATA4 then sized opcode 4 pc
    else some (opcode, [], pc)

/-- `while (pc < pend)` with `GetOp`, where each operation takes a byte at least. -/
def operationsLoop : Nat → CScript → List (Option (UInt8 × valtype))
  | _, [] => []
  | 0, _ => []
  | fuel + 1, pc =>
    match getOp pc with
    | none => [none]
    | some (opcode, data, pc) => some (opcode, data) :: operationsLoop fuel pc

/-- The operations of a script in order, with `none` for what `GetOp` cannot read. -/
def operations (script : CScript) : List (Option (UInt8 × valtype)) :=
  operationsLoop script.length script

def isPushOnly (script : CScript) : Bool :=
  (operations script).all fun
    | none => false
    | some (opcode, _) => opcode ≤ OP_16

/-! `CScriptNum` -/

/-- `set_vch`. A number has at most five bytes where it is read from the stack. -/
def setVch (vch : valtype) : Option Int :=
  if vch = [] then some 0
  else if vch = [0, 0, 0, 0, 0, 0, 0, 128, 128] then some (-2 ^ 63)
  else if vch.length > 8 then none
  else
    let result := littleEndian vch
    if vch.getLastD 0 &&& 0x80 ≠ 0 then some (-((result : Int) - 0x80 * 256 ^ (vch.length - 1)))
    else some result

/-- The bytes are the shortest ones for the number. -/
def isMinimal (vch : valtype) : Bool :=
  !(vch.length > 0 && vch.getLastD 0 &&& 0x7f == 0 &&
    (vch.length ≤ 1 || vch.getD (vch.length - 2) 0 &&& 0x80 == 0))

/-- The constructor of `CScriptNum`; `none` is the exception it throws. -/
def scriptNum (vch : valtype) (fRequireMinimal : Bool) (nMaxNumSize : Nat) : Option Int :=
  if vch.length > nMaxNumSize then none
  else if fRequireMinimal && !isMinimal vch then none
  else setVch vch

def nDefaultMaxNumSize : Nat := 4

def getint (value : Int) : Int :=
  if value > 2 ^ 31 - 1 then 2 ^ 31 - 1 else if value < -2 ^ 31 then -2 ^ 31 else value

/-- `CScriptNum::serialize`. -/
def serialize (value : Int) : valtype :=
  if value = 0 then []
  else if value = -2 ^ 63 then [0, 0, 0, 0, 0, 0, 0, 128, 128]
  else
    let result := (Nat.digits 256 value.natAbs).map UInt8.ofNat
    if result.getLastD 0 &&& 0x80 ≠ 0 then result ++ [if value < 0 then 0x80 else 0]
    else if value < 0 then result.dropLast ++ [result.getLastD 0 ||| 0x80]
    else result

def castToBool (vch : valtype) : Bool :=
  match vch.dropWhile (· == 0) with
  | [] => false
  -- Can be negative zero.
  | rest => rest != [0x80]

end Zcashd.Source.Script
