import Zcashd.Source.Script

/-!
The script interpreter (`src/script/interpreter.cpp`): `EvalScript` and `VerifyScript` with the
verification flags. The stack is a list with its top first. Hash functions, the test for a low S
and the signature checker are parameters.

An exception thrown inside `EvalScript` is caught there and returned as an unknown error.
-/
namespace Zcashd.Source.Script

inductive ScriptError where
  | UNKNOWN_ERROR
  | EVAL_FALSE
  | OP_RETURN
  | SCRIPT_SIZE
  | PUSH_SIZE
  | OP_COUNT
  | STACK_SIZE
  | SIG_COUNT
  | PUBKEY_COUNT
  | VERIFY
  | EQUALVERIFY
  | CHECKMULTISIGVERIFY
  | CHECKSIGVERIFY
  | NUMEQUALVERIFY
  | BAD_OPCODE
  | DISABLED_OPCODE
  | INVALID_STACK_OPERATION
  | INVALID_ALTSTACK_OPERATION
  | UNBALANCED_CONDITIONAL
  | NEGATIVE_LOCKTIME
  | UNSATISFIED_LOCKTIME
  | SIG_HASHTYPE
  | SIG_DER
  | MINIMALDATA
  | SIG_PUSHONLY
  | SIG_NULLDUMMY
  | PUBKEYTYPE
  | CLEANSTACK
  | DISCOURAGE_UPGRADABLE_NOPS
deriving DecidableEq, Repr

/-! Flags -/

abbrev Flags := UInt32

def SCRIPT_VERIFY_P2SH : Flags := 0x1
def SCRIPT_VERIFY_STRICTENC : Flags := 0x2
def SCRIPT_VERIFY_LOW_S : Flags := 0x8
def SCRIPT_VERIFY_NULLDUMMY : Flags := 0x10
def SCRIPT_VERIFY_SIGPUSHONLY : Flags := 0x20
def SCRIPT_VERIFY_MINIMALDATA : Flags := 0x40
def SCRIPT_VERIFY_DISCOURAGE_UPGRADABLE_NOPS : Flags := 0x80
def SCRIPT_VERIFY_CLEANSTACK : Flags := 0x100
def SCRIPT_VERIFY_CHECKLOCKTIMEVERIFY : Flags := 0x200

/-- `(flags & flag) != 0`. -/
def has (flags flag : Flags) : Bool := flags &&& flag != 0

/-- What is computed elsewhere: the hashes and `CPubKey::CheckLowS`. -/
structure Crypto where
  ripemd160 : valtype → valtype
  sha1 : valtype → valtype
  sha256 : valtype → valtype
  hash160 : valtype → valtype
  hash256 : valtype → valtype
  checkLowS : valtype → Bool

structure BaseSignatureChecker where
  checkSig : valtype → valtype → CScript → UInt32 → Bool
  checkLockTime : Int → Bool

/-! Encodings -/

def isCompressedOrUncompressedPubKey (vchPubKey : valtype) : Bool :=
  if vchPubKey.length < 33 then false
  else if vchPubKey.getD 0 0 = 0x04 then vchPubKey.length == 65
  else if vchPubKey.getD 0 0 = 0x02 ∨ vchPubKey.getD 0 0 = 0x03 then vchPubKey.length == 33
  else false

/-- The length checks come first, so no index is out of range. -/
def isValidSignatureEncoding (sig : valtype) : Bool :=
  let byte (i : Nat) : UInt8 := sig.getD i 0
  if sig.length < 9 then false
  else if sig.length > 73 then false
  else if byte 0 ≠ 0x30 then false
  else if (byte 1).toNat ≠ sig.length - 3 then false
  else
    let lenR := (byte 3).toNat
    if 5 + lenR ≥ sig.length then false
    else
      let lenS := (byte (5 + lenR)).toNat
      if lenR + lenS + 7 ≠ sig.length then false
      else if byte 2 ≠ 0x02 then false
      else if lenR = 0 then false
      else if byte 4 &&& 0x80 ≠ 0 then false
      else if lenR > 1 ∧ byte 4 = 0x00 ∧ byte 5 &&& 0x80 = 0 then false
      else if byte (lenR + 4) ≠ 0x02 then false
      else if lenS = 0 then false
      else if byte (lenR + 6) &&& 0x80 ≠ 0 then false
      else if lenS > 1 ∧ byte (lenR + 6) = 0x00 ∧ byte (lenR + 7) &&& 0x80 = 0 then false
      else true

def SIGHASH_ALL : UInt8 := 1
def SIGHASH_SINGLE : UInt8 := 3
def SIGHASH_ANYONECANPAY : UInt8 := 0x80

def isDefinedHashtypeSignature (vchSig : valtype) : Bool :=
  if vchSig.length = 0 then false
  else
    let nHashType := vchSig.getLastD 0 &&& ~~~SIGHASH_ANYONECANPAY
    !(nHashType < SIGHASH_ALL || nHashType > SIGHASH_SINGLE)

section

variable (crypto : Crypto) (flags : Flags)

/-- `CheckLowS` leaves the error that `EvalScript` starts with. -/
def isLowDERSignature (vchSig : valtype) : Except ScriptError Unit :=
  if !isValidSignatureEncoding vchSig then .error .SIG_DER
  else if !crypto.checkLowS vchSig.dropLast then .error .UNKNOWN_ERROR
  else .ok ()

def checkLowDERSignature (vchSig : valtype) : Except ScriptError Unit :=
  if has flags SCRIPT_VERIFY_LOW_S then isLowDERSignature crypto vchSig else .ok ()

def checkSignatureEncoding (vchSig : valtype) : Except ScriptError Unit :=
  if vchSig.length = 0 then .ok ()
  else if !isValidSignatureEncoding vchSig then .error .SIG_DER
  else do
    checkLowDERSignature crypto flags vchSig
    if has flags SCRIPT_VERIFY_STRICTENC && !isDefinedHashtypeSignature vchSig then
      .error .SIG_HASHTYPE
    else .ok ()

def checkPubKeyEncoding (vchPubKey : valtype) : Except ScriptError Unit :=
  if has flags SCRIPT_VERIFY_STRICTENC && !isCompressedOrUncompressedPubKey vchPubKey then
    .error .PUBKEYTYPE
  else .ok ()

end

def checkMinimalPush (data : valtype) (opcode : UInt8) : Bool :=
  if data.length = 0 then opcode == OP_0
  else if data.length = 1 ∧ data.getD 0 0 ≥ 1 ∧ data.getD 0 0 ≤ 16 then
    opcode == OP_1 + (data.getD 0 0 - 1)
  else if data.length = 1 ∧ data.getD 0 0 = 0x81 then opcode == OP_1NEGATE
  else if data.length ≤ 75 then opcode.toNat == data.length
  else if data.length ≤ 255 then opcode == OP_PUSHDATA1
  else if data.length ≤ 65535 then opcode == OP_PUSHDATA2
  else true

/-! Instructions -/

/-- A family of opcodes with one body in the switch of `EvalScript`. -/
inductive Instruction where
  | pushNumber (bn : Int)
  | nop
  | checkLockTimeVerify
  | upgradableNop
  | opIf (negated : Bool)
  | opElse
  | opEndIf
  | opVerify
  | opReturn
  | toAltStack
  | fromAltStack
  /-- The new stack, or `none` if it has too few elements. -/
  | rearrange (f : List valtype → Option (List valtype))
  | pick (roll : Bool)
  | equal (verify : Bool)
  | unary (f : Int → Int)
  | binary (verify : Bool) (f : Int → Int → Int)
  | within
  | checkSig (verify : Bool)
  | checkMultiSig (verify : Bool)

/-- A truth value as a number. -/
def ofBool (b : Bool) : Int := if b then 1 else 0

section

variable (crypto : Crypto)

def hashTop (hash : valtype → valtype) : Instruction :=
  .rearrange fun
    | vch :: rest => some (hash vch :: rest)
    | _ => none

/-- The case labels of the switch. -/
def instruction (opcode : UInt8) : Option Instruction :=
  if opcode = OP_1NEGATE ∨ OP_1 ≤ opcode ∧ opcode ≤ OP_16 then
    some (.pushNumber ((opcode.toNat : Int) - (OP_1.toNat - 1)))
  else if opcode = OP_NOP1 ∨ OP_NOP3 ≤ opcode ∧ opcode ≤ OP_NOP10 then some .upgradableNop
  else match opcode with
  | OP_NOP => some .nop
  | OP_CHECKLOCKTIMEVERIFY => some .checkLockTimeVerify
  | OP_IF => some (.opIf false)
  | OP_NOTIF => some (.opIf true)
  | OP_ELSE => some .opElse
  | OP_ENDIF => some .opEndIf
  | OP_VERIFY => some .opVerify
  | OP_RETURN => some .opReturn
  | OP_TOALTSTACK => some .toAltStack
  | OP_FROMALTSTACK => some .fromAltStack
  | OP_2DROP => some <| .rearrange (fun
    | _ :: _ :: rest => some rest
    | _ => none)
  | OP_2DUP => some <| .rearrange (fun
    | x2 :: x1 :: rest => some (x2 :: x1 :: x2 :: x1 :: rest)
    | _ => none)
  | OP_3DUP => some <| .rearrange (fun
    | x3 :: x2 :: x1 :: rest => some (x3 :: x2 :: x1 :: x3 :: x2 :: x1 :: rest)
    | _ => none)
  | OP_2OVER => some <| .rearrange (fun
    | x4 :: x3 :: x2 :: x1 :: rest => some (x2 :: x1 :: x4 :: x3 :: x2 :: x1 :: rest)
    | _ => none)
  | OP_2ROT => some <| .rearrange (fun
    | x6 :: x5 :: x4 :: x3 :: x2 :: x1 :: rest => some (x2 :: x1 :: x6 :: x5 :: x4 :: x3 :: rest)
    | _ => none)
  | OP_2SWAP => some <| .rearrange (fun
    | x4 :: x3 :: x2 :: x1 :: rest => some (x2 :: x1 :: x4 :: x3 :: rest)
    | _ => none)
  | OP_IFDUP => some <| .rearrange (fun
    | x :: rest => some (if castToBool x then x :: x :: rest else x :: rest)
    | _ => none)
  | OP_DEPTH => some <| .rearrange fun stack => some (serialize stack.length :: stack)
  | OP_DROP => some <| .rearrange (fun
    | _ :: rest => some rest
    | _ => none)
  | OP_DUP => some <| .rearrange (fun
    | x :: rest => some (x :: x :: rest)
    | _ => none)
  | OP_NIP => some <| .rearrange (fun
    | x2 :: _ :: rest => some (x2 :: rest)
    | _ => none)
  | OP_OVER => some <| .rearrange (fun
    | x2 :: x1 :: rest => some (x1 :: x2 :: x1 :: rest)
    | _ => none)
  | OP_PICK => some (.pick false)
  | OP_ROLL => some (.pick true)
  | OP_ROT => some <| .rearrange (fun
    | x3 :: x2 :: x1 :: rest => some (x1 :: x3 :: x2 :: rest)
    | _ => none)
  | OP_SWAP => some <| .rearrange (fun
    | x2 :: x1 :: rest => some (x1 :: x2 :: rest)
    | _ => none)
  | OP_TUCK => some <| .rearrange (fun
    | x2 :: x1 :: rest => some (x2 :: x1 :: x2 :: rest)
    | _ => none)
  | OP_SIZE => some <| .rearrange (fun
    | x :: rest => some (serialize x.length :: x :: rest)
    | _ => none)
  | OP_EQUAL => some (.equal false)
  | OP_EQUALVERIFY => some (.equal true)
  | OP_1ADD => some (.unary fun bn => bn + 1)
  | OP_1SUB => some (.unary fun bn => bn - 1)
  | OP_NEGATE => some (.unary fun bn => -bn)
  | OP_ABS => some (.unary fun bn => if bn < 0 then -bn else bn)
  | OP_NOT => some (.unary fun bn => ofBool (bn == 0))
  | OP_0NOTEQUAL => some (.unary fun bn => ofBool (bn != 0))
  | OP_ADD => some (.binary false fun bn1 bn2 => bn1 + bn2)
  | OP_SUB => some (.binary false fun bn1 bn2 => bn1 - bn2)
  | OP_BOOLAND => some (.binary false fun bn1 bn2 => ofBool (bn1 != 0 && bn2 != 0))
  | OP_BOOLOR => some (.binary false fun bn1 bn2 => ofBool (bn1 != 0 || bn2 != 0))
  | OP_NUMEQUAL => some (.binary false fun bn1 bn2 => ofBool (bn1 == bn2))
  | OP_NUMEQUALVERIFY => some (.binary true fun bn1 bn2 => ofBool (bn1 == bn2))
  | OP_NUMNOTEQUAL => some (.binary false fun bn1 bn2 => ofBool (bn1 != bn2))
  | OP_LESSTHAN => some (.binary false fun bn1 bn2 => ofBool (bn1 < bn2))
  | OP_GREATERTHAN => some (.binary false fun bn1 bn2 => ofBool (bn1 > bn2))
  | OP_LESSTHANOREQUAL => some (.binary false fun bn1 bn2 => ofBool (bn1 ≤ bn2))
  | OP_GREATERTHANOREQUAL => some (.binary false fun bn1 bn2 => ofBool (bn1 ≥ bn2))
  | OP_MIN => some (.binary false fun bn1 bn2 => if bn1 < bn2 then bn1 else bn2)
  | OP_MAX => some (.binary false fun bn1 bn2 => if bn1 > bn2 then bn1 else bn2)
  | OP_WITHIN => some .within
  | OP_RIPEMD160 => some (hashTop crypto.ripemd160)
  | OP_SHA1 => some (hashTop crypto.sha1)
  | OP_SHA256 => some (hashTop crypto.sha256)
  | OP_HASH160 => some (hashTop crypto.hash160)
  | OP_HASH256 => some (hashTop crypto.hash256)
  | OP_CHECKSIG => some (.checkSig false)
  | OP_CHECKSIGVERIFY => some (.checkSig true)
  | OP_CHECKMULTISIG => some (.checkMultiSig false)
  | OP_CHECKMULTISIGVERIFY => some (.checkMultiSig true)
  | _ => none

end

/-! `EvalScript` -/

structure EvalState where
  stack : List valtype
  altstack : List valtype
  /-- The innermost condition first. -/
  vfExec : List Bool
  nOpCount : Nat
deriving DecidableEq, Repr

abbrev Result (α : Type) := Except ScriptError α

def vchFalse : valtype := []
def vchTrue : valtype := [1]

def vchBool (b : Bool) : valtype := if b then vchTrue else vchFalse

section

variable (crypto : Crypto) (flags : Flags) (checker : BaseSignatureChecker)
  (consensusBranchId : UInt32) (script : CScript)

/-- `CScriptNum(vch, fRequireMinimal, nMaxNumSize)`. -/
def readNum (vch : valtype) (nMaxNumSize : Nat) : Result Int :=
  match scriptNum vch (has flags SCRIPT_VERIFY_MINIMALDATA) nMaxNumSize with
  | none => .error .UNKNOWN_ERROR
  | some bn => .ok bn

def checkLockTimeVerify (s : EvalState) : Result EvalState :=
  if !has flags SCRIPT_VERIFY_CHECKLOCKTIMEVERIFY then
    -- Not enabled, so it is a NOP2.
    if has flags SCRIPT_VERIFY_DISCOURAGE_UPGRADABLE_NOPS then .error .DISCOURAGE_UPGRADABLE_NOPS
    else .ok s
  else
    match s.stack with
    | [] => .error .INVALID_STACK_OPERATION
    | top :: _ => do
      let nLockTime ← readNum flags top 5
      if nLockTime < 0 then .error .NEGATIVE_LOCKTIME
      else if !checker.checkLockTime nLockTime then .error .UNSATISFIED_LOCKTIME
      else .ok s

def upgradableNop (s : EvalState) : Result EvalState :=
  if has flags SCRIPT_VERIFY_DISCOURAGE_UPGRADABLE_NOPS then .error .DISCOURAGE_UPGRADABLE_NOPS
  else .ok s

def opIf (fExec negated : Bool) (s : EvalState) : Result EvalState :=
  if fExec then
    match s.stack with
    | [] => .error .UNBALANCED_CONDITIONAL
    | vch :: rest => .ok { s with stack := rest, vfExec := (castToBool vch != negated) :: s.vfExec }
  else .ok { s with vfExec := false :: s.vfExec }

def opElse (s : EvalState) : Result EvalState :=
  match s.vfExec with
  | [] => .error .UNBALANCED_CONDITIONAL
  | back :: rest => .ok { s with vfExec := (!back) :: rest }

def opEndIf (s : EvalState) : Result EvalState :=
  match s.vfExec with
  | [] => .error .UNBALANCED_CONDITIONAL
  | _ :: rest => .ok { s with vfExec := rest }

def opVerify (s : EvalState) : Result EvalState :=
  match s.stack with
  | [] => .error .INVALID_STACK_OPERATION
  | vch :: rest => if castToBool vch then .ok { s with stack := rest } else .error .VERIFY

def toAltStack (s : EvalState) : Result EvalState :=
  match s.stack with
  | [] => .error .INVALID_STACK_OPERATION
  | vch :: rest => .ok { s with stack := rest, altstack := vch :: s.altstack }

def fromAltStack (s : EvalState) : Result EvalState :=
  match s.altstack with
  | [] => .error .INVALID_ALTSTACK_OPERATION
  | vch :: rest => .ok { s with stack := vch :: s.stack, altstack := rest }

def rearrange (f : List valtype → Option (List valtype)) (s : EvalState) : Result EvalState :=
  match f s.stack with
  | none => .error .INVALID_STACK_OPERATION
  | some stack => .ok { s with stack := stack }

/-- `OP_PICK` and `OP_ROLL`. -/
def pick (roll : Bool) (s : EvalState) : Result EvalState :=
  match s.stack with
  | top :: second :: rest => do
    let stack := second :: rest
    let n := getint (← readNum flags top nDefaultMaxNumSize)
    if n < 0 ∨ n ≥ stack.length then .error .INVALID_STACK_OPERATION
    else
      let vch := stack.getD n.toNat []
      .ok { s with stack := vch :: if roll then stack.eraseIdx n.toNat else stack }
  | _ => .error .INVALID_STACK_OPERATION

/-- The end of the opcodes with a `VERIFY` form: their result stays on the stack, or has to be
true. -/
def finish (verify fSuccess : Bool) (failure : ScriptError) (value : valtype) (s : EvalState)
    (rest : List valtype) :
    Result EvalState :=
  if verify then if fSuccess then .ok { s with stack := rest } else .error failure
  else .ok { s with stack := value :: rest }

def equal (verify : Bool) (s : EvalState) : Result EvalState :=
  match s.stack with
  | vch2 :: vch1 :: rest =>
    finish verify (vch1 == vch2) .EQUALVERIFY (vchBool (vch1 == vch2)) s rest
  | _ => .error .INVALID_STACK_OPERATION

def unary (f : Int → Int) (s : EvalState) : Result EvalState :=
  match s.stack with
  | [] => .error .INVALID_STACK_OPERATION
  | top :: rest => do
    let bn ← readNum flags top nDefaultMaxNumSize
    .ok { s with stack := serialize (f bn) :: rest }

def binary (verify : Bool) (f : Int → Int → Int) (s : EvalState) : Result EvalState :=
  match s.stack with
  | top :: second :: rest => do
    let bn1 ← readNum flags second nDefaultMaxNumSize
    let bn2 ← readNum flags top nDefaultMaxNumSize
    let vch := serialize (f bn1 bn2)
    finish verify (castToBool vch) .NUMEQUALVERIFY vch s rest
  | _ => .error .INVALID_STACK_OPERATION

def within (s : EvalState) : Result EvalState :=
  match s.stack with
  | top :: second :: third :: rest => do
    let bn1 ← readNum flags third nDefaultMaxNumSize
    let bn2 ← readNum flags second nDefaultMaxNumSize
    let bn3 ← readNum flags top nDefaultMaxNumSize
    .ok { s with stack := vchBool (bn2 ≤ bn1 && bn1 < bn3) :: rest }
  | _ => .error .INVALID_STACK_OPERATION

def checkSig (verify : Bool) (s : EvalState) : Result EvalState :=
  match s.stack with
  | vchPubKey :: vchSig :: rest => do
    checkSignatureEncoding crypto flags vchSig
    checkPubKeyEncoding flags vchPubKey
    let fSuccess := checker.checkSig vchSig vchPubKey script consensusBranchId
    finish verify fSuccess .CHECKSIGVERIFY (vchBool fSuccess) s rest
  | _ => .error .INVALID_STACK_OPERATION

/-- The loop of `OP_CHECKMULTISIG` over the signatures and keys that are left, those nearest to the
top first. There are never more signatures than keys, so one is left with each signature. -/
def checkMultiSigLoop : (keys sigs : List valtype) → Result Bool
  | _, [] => .ok true
  | [], _ :: _ => .ok false
  | vchPubKey :: keys, vchSig :: sigs => do
    checkSignatureEncoding crypto flags vchSig
    checkPubKeyEncoding flags vchPubKey
    let fOk := checker.checkSig vchSig vchPubKey script consensusBranchId
    let left := if fOk then sigs else vchSig :: sigs
    if left.length > keys.length then .ok false else checkMultiSigLoop keys left

/-- Behind the dummy element the check of its flag and the result. -/
def finishMultiSig (verify fSuccess : Bool) (s : EvalState) : List valtype → Result EvalState
  | [] => .error .INVALID_STACK_OPERATION
  | dummy :: rest =>
    if has flags SCRIPT_VERIFY_NULLDUMMY && dummy.length != 0 then .error .SIG_NULLDUMMY
    else finish verify fSuccess .CHECKMULTISIGVERIFY (vchBool fSuccess) s rest

/-- The signatures, below the keys and their number. -/
def checkMultiSigSigs (verify : Bool) (keys : List valtype) (s : EvalState) :
    List valtype → Result EvalState
  | [] => .error .INVALID_STACK_OPERATION
  | top :: below => do
    let nSigsCount := getint (← readNum flags top nDefaultMaxNumSize)
    if nSigsCount < 0 ∨ nSigsCount > keys.length then .error .SIG_COUNT
    else if below.length < nSigsCount.toNat + 1 then .error .INVALID_STACK_OPERATION
    else do
      let fSuccess ← checkMultiSigLoop crypto flags checker consensusBranchId script keys
          (below.take nSigsCount.toNat)
      finishMultiSig flags verify fSuccess s (below.drop nSigsCount.toNat)

def checkMultiSig (verify : Bool) (s : EvalState) : Result EvalState :=
  match s.stack with
  | [] => .error .INVALID_STACK_OPERATION
  | top :: below => do
    let nKeysCount := getint (← readNum flags top nDefaultMaxNumSize)
    if nKeysCount < 0 ∨ nKeysCount > 20 then .error .PUBKEY_COUNT
    else
      let s := { s with nOpCount := s.nOpCount + nKeysCount.toNat }
      if s.nOpCount > 201 then .error .OP_COUNT
      else if below.length < nKeysCount.toNat + 1 then .error .INVALID_STACK_OPERATION
      else
        let keys := below.take nKeysCount.toNat
        checkMultiSigSigs crypto flags checker consensusBranchId script verify keys s
          (below.drop nKeysCount.toNat)

/-- The body of the switch. -/
def execute (fExec : Bool) (s : EvalState) : Instruction → Result EvalState
  | .pushNumber bn => .ok { s with stack := serialize bn :: s.stack }
  | .nop => .ok s
  | .checkLockTimeVerify => checkLockTimeVerify flags checker s
  | .upgradableNop => upgradableNop flags s
  | .opIf negated => opIf fExec negated s
  | .opElse => opElse s
  | .opEndIf => opEndIf s
  | .opVerify => opVerify s
  | .opReturn => .error .OP_RETURN
  | .toAltStack => toAltStack s
  | .fromAltStack => fromAltStack s
  | .rearrange f => rearrange f s
  | .pick roll => pick flags roll s
  | .equal verify => equal verify s
  | .unary f => unary flags f s
  | .binary verify f => binary flags verify f s
  | .within => within flags s
  | .checkSig verify => checkSig crypto flags checker consensusBranchId script verify s
  | .checkMultiSig verify => checkMultiSig crypto flags checker consensusBranchId script verify s

def isDisabled (opcode : UInt8) : Bool :=
  [OP_CAT, OP_SUBSTR, OP_LEFT, OP_RIGHT, OP_INVERT, OP_AND, OP_OR, OP_XOR, OP_2MUL, OP_2DIV, OP_MUL,
    OP_DIV, OP_MOD, OP_LSHIFT, OP_RSHIFT, OP_CODESEPARATOR].contains opcode

/-- Opcodes above `OP_16` count towards the limit. -/
def countOp (opcode : UInt8) (s : EvalState) : Result EvalState :=
  if opcode > OP_16 then
    if s.nOpCount + 1 > 201 then .error .OP_COUNT else .ok { s with nOpCount := s.nOpCount + 1 }
  else .ok s

def pushValue (opcode : UInt8) (vchPushValue : valtype) (s : EvalState) : Result EvalState :=
  if has flags SCRIPT_VERIFY_MINIMALDATA && !checkMinimalPush vchPushValue opcode then
    .error .MINIMALDATA
  else .ok { s with stack := vchPushValue :: s.stack }

def executeOpcode (fExec : Bool) (opcode : UInt8) (s : EvalState) : Result EvalState :=
  match instruction crypto opcode with
  | none => .error .BAD_OPCODE
  | some i => execute crypto flags checker consensusBranchId script fExec s i

/-- The size limits at the end of an iteration. -/
def checkStackSize (s : EvalState) : Result EvalState :=
  if s.stack.length + s.altstack.length > 1000 then .error .STACK_SIZE else .ok s

/-- One iteration of the loop of `EvalScript`, behind `GetOp`. -/
def step (opcode : UInt8) (vchPushValue : valtype) (s : EvalState) : Result EvalState :=
  let fExec := !s.vfExec.contains false
  if vchPushValue.length > MAX_SCRIPT_ELEMENT_SIZE then .error .PUSH_SIZE
  else do
    let s ← countOp opcode s
    if isDisabled opcode then .error .DISABLED_OPCODE
    else if fExec ∧ opcode ≤ OP_PUSHDATA4 then do
      checkStackSize (← pushValue flags opcode vchPushValue s)
    else if fExec ∨ OP_IF ≤ opcode ∧ opcode ≤ OP_ENDIF then do
      checkStackSize (← executeOpcode crypto flags checker consensusBranchId script fExec opcode s)
    else checkStackSize s

def loop : List (Option (UInt8 × valtype)) → EvalState → Result EvalState
  | [], s => .ok s
  | none :: _, _ => .error .BAD_OPCODE
  | some (opcode, vchPushValue) :: rest, s => do
    loop rest (← step crypto flags checker consensusBranchId script opcode vchPushValue s)

/-- The stack the script leaves. -/
def evalScript (stack : List valtype) : Result (List valtype) :=
  if script.length > MAX_SCRIPT_SIZE then .error .SCRIPT_SIZE
  else do
    let s ← loop crypto flags checker consensusBranchId script (operations script)
        ⟨stack, [], [], 0⟩
    if s.vfExec ≠ [] then .error .UNBALANCED_CONDITIONAL else .ok s.stack

end

/-! `VerifyScript` -/

/-- `VerifyScript` returns false, or an assertion in it fails. -/
inductive Rejection where
  | error (serror : ScriptError)
  | assertion
deriving DecidableEq, Repr

section

variable (crypto : Crypto) (flags : Flags) (checker : BaseSignatureChecker)
  (consensusBranchId : UInt32)

/-- `if (!EvalScript(…)) return false`. -/
def evaluate (script : CScript) (stack : List valtype) : Except Rejection (List valtype) :=
  (evalScript crypto flags checker consensusBranchId script stack).mapError .error

/-- The top of the stack has to be true. -/
def checkTop : List valtype → Except Rejection Unit
  | [] => .error (.error .EVAL_FALSE)
  | back :: _ => if castToBool back = false then .error (.error .EVAL_FALSE) else .ok ()

/-- The script that `scriptSig` pushed last, on the stack below it. -/
def evaluateSubscript (scriptSig : CScript) (stack : List valtype) :
    Except Rejection (List valtype) :=
  if !isPushOnly scriptSig then .error (.error .SIG_PUSHONLY)
  else match stack with
  | [] => .error .assertion
  | pubKeySerialized :: stack => do
    let stack ← evaluate crypto flags checker consensusBranchId pubKeySerialized stack
    checkTop stack
    .ok stack

def checkCleanStack (stack : List valtype) : Except Rejection Unit :=
  if has flags SCRIPT_VERIFY_CLEANSTACK then
    if !has flags SCRIPT_VERIFY_P2SH then .error .assertion
    else if stack.length ≠ 1 then .error (.error .CLEANSTACK)
    else .ok ()
  else .ok ()

def verifyScript (scriptSig scriptPubKey : CScript) : Except Rejection Unit :=
  if has flags SCRIPT_VERIFY_SIGPUSHONLY && !isPushOnly scriptSig then .error (.error .SIG_PUSHONLY)
  else do
    let stackCopy ← evaluate crypto flags checker consensusBranchId scriptSig []
    let stack ← evaluate crypto flags checker consensusBranchId scriptPubKey stackCopy
    checkTop stack
    if has flags SCRIPT_VERIFY_P2SH && isPayToScriptHash scriptPubKey then do
      let stack ← evaluateSubscript crypto flags checker consensusBranchId scriptSig stackCopy
      checkCleanStack flags stack
    else checkCleanStack flags stack

end

end Zcashd.Source.Script
