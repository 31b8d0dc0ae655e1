import N42.Common.Types
import N42.Lib.StackCalls

/-!
# (key: jumptable) The jump tables and the stack discipline of the interpreter

`internal/vm/jump_table.go`, `eips.go`, `stack_table.go` and the stack calls of the execution
functions of `instructions.go`.  An execution function is the sequence of `Pop`, `Peek`, `Push`,
`Dup` and `Swap` calls it makes, with an `exit` where it returns an error before its last stack
call (`StackCalls`); what it computes and the gas amounts are left out.  `EVMInterpreter.Run`
runs `execute` only when `numPop ≤ len(stack) ≤ maxStack`.

* `newFrontierInstructionSet` … `newPragueInstructionSet`, `enableEIP`   the tables, and
                        `InstructionSet`, every table they build;
* `TableSound`          every entry's calls fit in its `numPop` items and leave `numPush`, and no
                        exit is above `numPop`; every table built is sound and has its `maxStack`
                        filled (`InstructionSet.sound`);
* `stack_discipline`    hence, on a stack the interpreter accepts, `execute` touches only the
                        top `numPop` items, never panics, and leaves `numPush` items in their
                        place, at most `StackLimit` in all, unless it returns early;
* `call_write_protection_pops_seven`   `CALL` in a read-only frame returns after its seven
                        pops, one item short of what `numPush - numPop` gives.
-/

namespace N42

namespace Vm

open StackCalls

/-- `params.StackLimit` -/
def stackLimit : Nat := 1024

/-- an opcode byte -/
abbrev OpCode := Fin 256

namespace OpCode

def STOP : OpCode := 0x00
def ADD : OpCode := 0x01
def MUL : OpCode := 0x02
def SUB : OpCode := 0x03
def DIV : OpCode := 0x04
def SDIV : OpCode := 0x05
def MOD : OpCode := 0x06
def SMOD : OpCode := 0x07
def ADDMOD : OpCode := 0x08
def MULMOD : OpCode := 0x09
def EXP : OpCode := 0x0a
def SIGNEXTEND : OpCode := 0x0b
def LT : OpCode := 0x10
def GT : OpCode := 0x11
def SLT : OpCode := 0x12
def SGT : OpCode := 0x13
def EQ : OpCode := 0x14
def ISZERO : OpCode := 0x15
def AND : OpCode := 0x16
def OR : OpCode := 0x17
def XOR : OpCode := 0x18
def NOT : OpCode := 0x19
def BYTE : OpCode := 0x1a
def SHL : OpCode := 0x1b
def SHR : OpCode := 0x1c
def SAR : OpCode := 0x1d
def KECCAK256 : OpCode := 0x20
def ADDRESS : OpCode := 0x30
def BALANCE : OpCode := 0x31
def ORIGIN : OpCode := 0x32
def CALLER : OpCode := 0x33
def CALLVALUE : OpCode := 0x34
def CALLDATALOAD : OpCode := 0x35
def CALLDATASIZE : OpCode := 0x36
def CALLDATACOPY : OpCode := 0x37
def CODESIZE : OpCode := 0x38
def CODECOPY : OpCode := 0x39
def GASPRICE : OpCode := 0x3a
def EXTCODESIZE : OpCode := 0x3b
def EXTCODECOPY : OpCode := 0x3c
def RETURNDATASIZE : OpCode := 0x3d
def RETURNDATACOPY : OpCode := 0x3e
def EXTCODEHASH : OpCode := 0x3f
def BLOCKHASH : OpCode := 0x40
def COINBASE : OpCode := 0x41
def TIMESTAMP : OpCode := 0x42
def NUMBER : OpCode := 0x43
def DIFFICULTY : OpCode := 0x44
def GASLIMIT : OpCode := 0x45
def CHAINID : OpCode := 0x46
def SELFBALANCE : OpCode := 0x47
def BASEFEE : OpCode := 0x48
def POP : OpCode := 0x50
def MLOAD : OpCode := 0x51
def MSTORE : OpCode := 0x52
def MSTORE8 : OpCode := 0x53
def SLOAD : OpCode := 0x54
def SSTORE : OpCode := 0x55
def JUMP : OpCode := 0x56
def JUMPI : OpCode := 0x57
def PC : OpCode := 0x58
def MSIZE : OpCode := 0x59
def GAS : OpCode := 0x5a
def JUMPDEST : OpCode := 0x5b
def PUSH0 : OpCode := 0x5f
/-- `PUSH1`; `PUSH2` to `PUSH32` follow it -/
def PUSH1 : OpCode := 0x60
/-- `DUP1`; `DUP2` to `DUP16` follow it -/
def DUP1 : OpCode := 0x80
/-- `SWAP1`; `SWAP2` to `SWAP16` follow it -/
def SWAP1 : OpCode := 0x90
/-- `LOG0`; `LOG1` to `LOG4` follow it -/
def LOG0 : OpCode := 0xa0
def CREATE : OpCode := 0xf0
def CALL : OpCode := 0xf1
def CALLCODE : OpCode := 0xf2
def RETURN : OpCode := 0xf3
def DELEGATECALL : OpCode := 0xf4
def CREATE2 : OpCode := 0xf5
def STATICCALL : OpCode := 0xfa
def REVERT : OpCode := 0xfd
def SELFDESTRUCT : OpCode := 0xff

/-- the opcode `k` after `op`, as in the `iota` blocks of `opcodes.go` -/
def after (op : OpCode) (k : Nat) : OpCode := Fin.ofNat 256 (op.val + k)

end OpCode

open OpCode

/-! ## the stack calls of the execution functions -/

/-- `executionFunc`, as its stack calls -/
abbrev ExecutionFunc := List Call

/-- `n` pops -/
def pops (n : Nat) : ExecutionFunc := List.replicate n .pop

/-- the operands popped and the result written over the last one through `Peek()` -/
def popsThenPeek (n : Nat) : ExecutionFunc := pops n ++ [.peek]

/-- a value pushed, and nothing read from the stack -/
def pushValue : ExecutionFunc := [.push]

/-- the calls of `CALLCODE`, `DELEGATECALL` and `STATICCALL`: the gas and the parameters popped,
the result pushed -/
def callWith (n : Nat) : ExecutionFunc := pops n ++ [.push]

def opStop : ExecutionFunc := []
def opAdd : ExecutionFunc := popsThenPeek 1
def opSub : ExecutionFunc := popsThenPeek 1
def opMul : ExecutionFunc := popsThenPeek 1
def opDiv : ExecutionFunc := popsThenPeek 1
def opSdiv : ExecutionFunc := popsThenPeek 1
def opMod : ExecutionFunc := popsThenPeek 1
def opSmod : ExecutionFunc := popsThenPeek 1
def opExp : ExecutionFunc := popsThenPeek 1
def opSignExtend : ExecutionFunc := popsThenPeek 1
def opNot : ExecutionFunc := popsThenPeek 0
def opLt : ExecutionFunc := popsThenPeek 1
def opGt : ExecutionFunc := popsThenPeek 1
def opSlt : ExecutionFunc := popsThenPeek 1
def opSgt : ExecutionFunc := popsThenPeek 1
def opEq : ExecutionFunc := popsThenPeek 1
def opIszero : ExecutionFunc := popsThenPeek 0
def opAnd : ExecutionFunc := popsThenPeek 1
def opOr : ExecutionFunc := popsThenPeek 1
def opXor : ExecutionFunc := popsThenPeek 1
def opByte : ExecutionFunc := popsThenPeek 1
def opAddmod : ExecutionFunc := popsThenPeek 2
def opMulmod : ExecutionFunc := popsThenPeek 2
def opSHL : ExecutionFunc := popsThenPeek 1
def opSHR : ExecutionFunc := popsThenPeek 1
def opSAR : ExecutionFunc := popsThenPeek 1
def opKeccak256 : ExecutionFunc := popsThenPeek 1
def opAddress : ExecutionFunc := pushValue
def opBalance : ExecutionFunc := popsThenPeek 0
def opOrigin : ExecutionFunc := pushValue
def opCaller : ExecutionFunc := pushValue
def opCallValue : ExecutionFunc := pushValue
def opCallDataLoad : ExecutionFunc := popsThenPeek 0
def opCallDataSize : ExecutionFunc := pushValue
def opCallDataCopy : ExecutionFunc := pops 3
def opReturnDataSize : ExecutionFunc := pushValue
/-- `ErrReturnDataOutOfBounds` comes after the three pops, the last stack calls -/
def opReturnDataCopy : ExecutionFunc := pops 3
def opExtCodeSize : ExecutionFunc := popsThenPeek 0
def opCodeSize : ExecutionFunc := pushValue
def opCodeCopy : ExecutionFunc := pops 3
def opExtCodeCopy : ExecutionFunc := pops 4
def opExtCodeHash : ExecutionFunc := popsThenPeek 0
def opGasprice : ExecutionFunc := pushValue
def opBlockhash : ExecutionFunc := popsThenPeek 0
def opCoinbase : ExecutionFunc := pushValue
def opTimestamp : ExecutionFunc := pushValue
def opNumber : ExecutionFunc := pushValue
/-- a difficulty above `2^256 - 1` is an error before the push -/
def opDifficulty : ExecutionFunc := [.exit, .push]
def opGasLimit : ExecutionFunc := pushValue
def opPop : ExecutionFunc := pops 1
def opMload : ExecutionFunc := popsThenPeek 0
def opMstore : ExecutionFunc := pops 2
def opMstore8 : ExecutionFunc := pops 2
def opSload : ExecutionFunc := popsThenPeek 0
/-- `ErrWriteProtection` in a read-only frame, before the pops -/
def opSstore : ExecutionFunc := .exit :: pops 2
/-- `ErrInvalidJump` comes after the pop -/
def opJump : ExecutionFunc := pops 1
def opJumpi : ExecutionFunc := pops 2
def opJumpdest : ExecutionFunc := []
def opPc : ExecutionFunc := pushValue
def opMsize : ExecutionFunc := pushValue
def opGas : ExecutionFunc := pushValue
/-- `ErrWriteProtection` first; then `value`, `offset` popped and the address written over
`size` -/
def opCreate : ExecutionFunc := [.exit, .pop, .pop, .peek]
def opCreate2 : ExecutionFunc := .exit :: pops 4 ++ [.push]
/-- the gas and six parameters popped; a value sent from a read-only frame is
`ErrWriteProtection` after the pops and before the push -/
def opCall : ExecutionFunc := pops 7 ++ [.exit, .push]
def opCallCode : ExecutionFunc := callWith 7
def opDelegateCall : ExecutionFunc := callWith 6
def opStaticCall : ExecutionFunc := callWith 6
/-- `errStopToken` after the two pops -/
def opReturn : ExecutionFunc := pops 2
def opRevert : ExecutionFunc := pops 2
/-- `ErrInvalidOpCode`, with no stack call -/
def opUndefined : ExecutionFunc := []
/-- `ErrWriteProtection` before the pop, `errStopToken` after it -/
def opSelfdestruct : ExecutionFunc := [.exit, .pop]
/-- `ErrWriteProtection` first; then `mStart`, `mSize` and the `size` topics popped -/
def makeLog (size : Nat) : ExecutionFunc := .exit :: pops (2 + size)
def opPush1 : ExecutionFunc := pushValue
def makePush (_size _pushByteSize : Nat) : ExecutionFunc := pushValue
def makeDup (size : Nat) : ExecutionFunc := [.dup size]
/-- `size++` before `Swap`: `SWAPn` exchanges the top and the `n + 1`-th item -/
def makeSwap (size : Nat) : ExecutionFunc := [.swap (size + 1)]
def opSelfBalance : ExecutionFunc := pushValue
def opChainID : ExecutionFunc := pushValue
def opBaseFee : ExecutionFunc := pushValue
def opPush0 : ExecutionFunc := pushValue

/-! ## operations and tables -/

/-- the `memorySizeFunc`s of `memory_table.go` -/
inductive MemorySizeFunc where
  | memoryKeccak256
  | memoryCallDataCopy
  | memoryReturnDataCopy
  | memoryCodeCopy
  | memoryExtCodeCopy
  | memoryMLoad
  | memoryMStore8
  | memoryMStore
  | memoryCreate
  | memoryCreate2
  | memoryCall
  | memoryDelegateCall
  | memoryStaticCall
  | memoryReturn
  | memoryRevert
  | memoryLog
deriving DecidableEq, Repr

open MemorySizeFunc

/-- `operation`: the stack calls of `execute`, whether it has a `dynamicGas`, its stack bounds and
its `memorySize` -/
structure Operation where
  execute : ExecutionFunc
  hasDynamicGas : Bool := false
  maxStack : Int := 0
  numPop : Nat
  numPush : Nat
  memorySize : Option MemorySizeFunc := none
deriving DecidableEq, Repr

/-- `JumpTable`; every entry is set, so the `nil` check of `validateAndFillMaxStack` never
fires -/
abbrev JumpTable := OpCode → Operation

/-- `maxStack(pop, push)`, an `int` -/
def maxStack (pop push : Nat) : Int := stackLimit + pop - push

/-- the loop of `validateAndFillMaxStack` that sets every `maxStack` -/
def fillMaxStack (jt : JumpTable) : JumpTable :=
  fun i => { jt i with maxStack := maxStack (jt i).numPop (jt i).numPush }

/-- `validateAndFillMaxStack(jt)`: a memory size without a dynamic gas is a panic -/
def validateAndFillMaxStack (jt : JumpTable) : Option JumpTable :=
  if ∃ i, (jt i).memorySize.isSome ∧ (jt i).hasDynamicGas = false then none
  else some (fillMaxStack jt)

/-- `jt[op].dynamicGas = f`, for a gas function `f` -/
def setDynamicGas (jt : JumpTable) (op : OpCode) : JumpTable :=
  Function.update jt op { jt op with hasDynamicGas := true }

/-- the entries of the literal of `newFrontierInstructionSet`; the families `PUSH2`…`PUSH32`,
`DUP1`…`DUP16`, `SWAP1`…`SWAP16` and `LOG0`…`LOG4` are listed by their number -/
def frontierEntries : List (OpCode × Operation) :=
  [(STOP, { execute := opStop, numPop := 0, numPush := 0 }),
   (ADD, { execute := opAdd, numPop := 2, numPush := 1 }),
   (MUL, { execute := opMul, numPop := 2, numPush := 1 }),
   (SUB, { execute := opSub, numPop := 2, numPush := 1 }),
   (DIV, { execute := opDiv, numPop := 2, numPush := 1 }),
   (SDIV, { execute := opSdiv, numPop := 2, numPush := 1 }),
   (MOD, { execute := opMod, numPop := 2, numPush := 1 }),
   (SMOD, { execute := opSmod, numPop := 2, numPush := 1 }),
   (ADDMOD, { execute := opAddmod, numPop := 3, numPush := 1 }),
   (MULMOD, { execute := opMulmod, numPop := 3, numPush := 1 }),
   (EXP, { execute := opExp, hasDynamicGas := true, numPop := 2, numPush := 1 }),
   (SIGNEXTEND, { execute := opSignExtend, numPop := 2, numPush := 1 }),
   (LT, { execute := opLt, numPop := 2, numPush := 1 }),
   (GT, { execute := opGt, numPop := 2, numPush := 1 }),
   (SLT, { execute := opSlt, numPop := 2, numPush := 1 }),
   (SGT, { execute := opSgt, numPop := 2, numPush := 1 }),
   (EQ, { execute := opEq, numPop := 2, numPush := 1 }),
   (ISZERO, { execute := opIszero, numPop := 1, numPush := 1 }),
   (AND, { execute := opAnd, numPop := 2, numPush := 1 }),
   (XOR, { execute := opXor, numPop := 2, numPush := 1 }),
   (OR, { execute := opOr, numPop := 2, numPush := 1 }),
   (NOT, { execute := opNot, numPop := 1, numPush := 1 }),
   (BYTE, { execute := opByte, numPop := 2, numPush := 1 }),
   (KECCAK256, { execute := opKeccak256, hasDynamicGas := true, numPop := 2, numPush := 1,
                 memorySize := some memoryKeccak256 }),
   (ADDRESS, { execute := opAddress, numPop := 0, numPush := 1 }),
   (BALANCE, { execute := opBalance, numPop := 1, numPush := 1 }),
   (ORIGIN, { execute := opOrigin, numPop := 0, numPush := 1 }),
   (CALLER, { execute := opCaller, numPop := 0, numPush := 1 }),
   (CALLVALUE, { execute := opCallValue, numPop := 0, numPush := 1 }),
   (CALLDATALOAD, { execute := opCallDataLoad, numPop := 1, numPush := 1 }),
   (CALLDATASIZE, { execute := opCallDataSize, numPop := 0, numPush := 1 }),
   (CALLDATACOPY, { execute := opCallDataCopy, hasDynamicGas := true, numPop := 3, numPush := 0,
                    memorySize := some memoryCallDataCopy }),
   (CODESIZE, { execute := opCodeSize, numPop := 0, numPush := 1 }),
   (CODECOPY, { execute := opCodeCopy, hasDynamicGas := true, numPop := 3, numPush := 0,
                memorySize := some memoryCodeCopy }),
   (GASPRICE, { execute := opGasprice, numPop := 0, numPush := 1 }),
   (EXTCODESIZE, { execute := opExtCodeSize, numPop := 1, numPush := 1 }),
   (EXTCODECOPY, { execute := opExtCodeCopy, hasDynamicGas := true, numPop := 4, numPush := 0,
                   memorySize := some memoryExtCodeCopy }),
   (BLOCKHASH, { execute := opBlockhash, numPop := 1, numPush := 1 }),
   (COINBASE, { execute := opCoinbase, numPop := 0, numPush := 1 }),
   (TIMESTAMP, { execute := opTimestamp, numPop := 0, numPush := 1 }),
   (NUMBER, { execute := opNumber, numPop := 0, numPush := 1 }),
   (DIFFICULTY, { execute := opDifficulty, numPop := 0, numPush := 1 }),
   (GASLIMIT, { execute := opGasLimit, numPop := 0, numPush := 1 }),
   (POP, { execute := opPop, numPop := 1, numPush := 0 }),
   (MLOAD, { execute := opMload, hasDynamicGas := true, numPop := 1, numPush := 1,
             memorySize := some memoryMLoad }),
   (MSTORE, { execute := opMstore, hasDynamicGas := true, numPop := 2, numPush := 0,
              memorySize := some memoryMStore }),
   (MSTORE8, { execute := opMstore8, hasDynamicGas := true, numPop := 2, numPush := 0,
               memorySize := some memoryMStore8 }),
   (SLOAD, { execute := opSload, numPop := 1, numPush := 1 }),
   (SSTORE, { execute := opSstore, hasDynamicGas := true, numPop := 2, numPush := 0 }),
   (JUMP, { execute := opJump, numPop := 1, numPush := 0 }),
   (JUMPI, { execute := opJumpi, numPop := 2, numPush := 0 }),
   (PC, { execute := opPc, numPop := 0, numPush := 1 }),
   (MSIZE, { execute := opMsize, numPop := 0, numPush := 1 }),
   (GAS, { execute := opGas, numPop := 0, numPush := 1 }),
   (JUMPDEST, { execute := opJumpdest, numPop := 0, numPush := 0 }),
   (PUSH1, { execute := opPush1, numPop := 0, numPush := 1 })] ++
  (List.range 31).map (fun (k : Nat) =>
    (after PUSH1 (k + 1), { execute := makePush (k + 2) (k + 2), numPop := 0, numPush := 1 })) ++
  (List.range 16).map (fun (k : Nat) =>
    (after DUP1 k, { execute := makeDup (k + 1), numPop := k + 1, numPush := k + 2 })) ++
  (List.range 16).map (fun (k : Nat) =>
    (after SWAP1 k, { execute := makeSwap (k + 1), numPop := k + 2, numPush := k + 2 })) ++
  (List.range 5).map (fun (k : Nat) =>
    (after LOG0 k, { execute := makeLog k, hasDynamicGas := true, numPop := k + 2,
                            numPush := 0, memorySize := some memoryLog })) ++
  [(CREATE, { execute := opCreate, hasDynamicGas := true, numPop := 3, numPush := 1,
              memorySize := some memoryCreate }),
   (CALL, { execute := opCall, hasDynamicGas := true, numPop := 7, numPush := 1,
            memorySize := some memoryCall }),
   (CALLCODE, { execute := opCallCode, hasDynamicGas := true, numPop := 7, numPush := 1,
                memorySize := some memoryCall }),
   (RETURN, { execute := opReturn, hasDynamicGas := true, numPop := 2, numPush := 0,
              memorySize := some memoryReturn }),
   (SELFDESTRUCT, { execute := opSelfdestruct, hasDynamicGas := true, numPop := 1,
                    numPush := 0 })]

/-- the literal, with every unassigned slot filled with `opUndefined` -/
def frontierTable : JumpTable :=
  fun i => ((frontierEntries.lookup i).getD { execute := opUndefined, numPop := 0, numPush := 0 })

def newFrontierInstructionSet : Option JumpTable := validateAndFillMaxStack frontierTable

def newHomesteadInstructionSet : Option JumpTable := do
  let instructionSet ← newFrontierInstructionSet
  validateAndFillMaxStack (Function.update instructionSet DELEGATECALL
    { execute := opDelegateCall, hasDynamicGas := true, numPop := 6, numPush := 1,
      memorySize := some memoryDelegateCall })

/-- EIP-150: gas amounts only -/
def newTangerineWhistleInstructionSet : Option JumpTable := do
  let instructionSet ← newHomesteadInstructionSet
  validateAndFillMaxStack instructionSet

def newSpuriousDragonInstructionSet : Option JumpTable := do
  let instructionSet ← newTangerineWhistleInstructionSet
  validateAndFillMaxStack (setDynamicGas instructionSet EXP)

def newByzantiumInstructionSet : Option JumpTable := do
  let instructionSet ← newSpuriousDragonInstructionSet
  let instructionSet := Function.update instructionSet STATICCALL
    { execute := opStaticCall, hasDynamicGas := true, numPop := 6, numPush := 1,
      memorySize := some memoryStaticCall }
  let instructionSet := Function.update instructionSet RETURNDATASIZE
    { execute := opReturnDataSize, numPop := 0, numPush := 1 }
  let instructionSet := Function.update instructionSet RETURNDATACOPY
    { execute := opReturnDataCopy, hasDynamicGas := true, numPop := 3, numPush := 0,
      memorySize := some memoryReturnDataCopy }
  let instructionSet := Function.update instructionSet REVERT
    { execute := opRevert, hasDynamicGas := true, numPop := 2, numPush := 0,
      memorySize := some memoryRevert }
  validateAndFillMaxStack instructionSet

def newConstantinopleInstructionSet : Option JumpTable := do
  let instructionSet ← newByzantiumInstructionSet
  let instructionSet := Function.update instructionSet SHL
    { execute := opSHL, numPop := 2, numPush := 1 }
  let instructionSet := Function.update instructionSet SHR
    { execute := opSHR, numPop := 2, numPush := 1 }
  let instructionSet := Function.update instructionSet SAR
    { execute := opSAR, numPop := 2, numPush := 1 }
  let instructionSet := Function.update instructionSet EXTCODEHASH
    { execute := opExtCodeHash, numPop := 1, numPush := 1 }
  let instructionSet := Function.update instructionSet CREATE2
    { execute := opCreate2, hasDynamicGas := true, numPop := 4, numPush := 1,
      memorySize := some memoryCreate2 }
  validateAndFillMaxStack instructionSet

/-! ## the EIPs -/

/-- `SELFBALANCE`, and gas amounts -/
def enable1884 (jt : JumpTable) : JumpTable :=
  Function.update jt SELFBALANCE { execute := opSelfBalance, numPop := 0, numPush := 1 }

def enable1344 (jt : JumpTable) : JumpTable :=
  Function.update jt CHAINID { execute := opChainID, numPop := 0, numPush := 1 }

def enable2200 (jt : JumpTable) : JumpTable := setDynamicGas jt SSTORE

/-- the dynamic gas functions of the access lists, and gas amounts -/
def enable2929 (jt : JumpTable) : JumpTable :=
  [SSTORE, SLOAD, EXTCODECOPY, EXTCODESIZE, EXTCODEHASH, BALANCE, CALL, CALLCODE, STATICCALL,
    DELEGATECALL, SELFDESTRUCT].foldl setDynamicGas jt

def enable3529 (jt : JumpTable) : JumpTable := setDynamicGas (setDynamicGas jt SSTORE) SELFDESTRUCT

def enable3198 (jt : JumpTable) : JumpTable :=
  Function.update jt BASEFEE { execute := opBaseFee, numPop := 0, numPush := 1 }

def enable3855 (jt : JumpTable) : JumpTable :=
  Function.update jt PUSH0 { execute := opPush0, numPop := 0, numPush := 1 }

def enable3860 (jt : JumpTable) : JumpTable := setDynamicGas (setDynamicGas jt CREATE) CREATE2

/-- the `activators` map -/
def activators : Nat → Option (JumpTable → JumpTable)
  | 3855 => some enable3855
  | 3860 => some enable3860
  | 3529 => some enable3529
  | 3198 => some enable3198
  | 2929 => some enable2929
  | 2200 => some enable2200
  | 1884 => some enable1884
  | 1344 => some enable1344
  | _ => none

/-- `EnableEIP(eipNum, jt)`: an error for an EIP it does not know, else the enabled table, or
the panic of `validateAndFillMaxStack` -/
def enableEIP (eipNum : Nat) (jt : JumpTable) : Except String (Option JumpTable) :=
  match activators eipNum with
  | none => .error ("undefined eip " ++ toString eipNum)
  | some enablerFn => .ok (validateAndFillMaxStack (enablerFn jt))

def newIstanbulInstructionSet : Option JumpTable := do
  let instructionSet ← newConstantinopleInstructionSet
  validateAndFillMaxStack (enable2200 (enable1884 (enable1344 instructionSet)))

def newBerlinInstructionSet : Option JumpTable := do
  let instructionSet ← newIstanbulInstructionSet
  validateAndFillMaxStack (enable2929 instructionSet)

def newLondonInstructionSet : Option JumpTable := do
  let instructionSet ← newBerlinInstructionSet
  validateAndFillMaxStack (enable3198 (enable3529 instructionSet))

def newShanghaiInstructionSet : Option JumpTable := do
  let instructionSet ← newLondonInstructionSet
  validateAndFillMaxStack (enable3860 (enable3855 instructionSet))

def newCancunInstructionSet : Option JumpTable := do
  let instructionSet ← newShanghaiInstructionSet
  validateAndFillMaxStack instructionSet

def newPragueInstructionSet : Option JumpTable := do
  let instructionSet ← newCancunInstructionSet
  validateAndFillMaxStack instructionSet

/-- every table the constructors build, and every table `EnableEIP` makes of one -/
inductive InstructionSet : JumpTable → Prop
  | frontier {jt} : newFrontierInstructionSet = some jt → InstructionSet jt
  | homestead {jt} : newHomesteadInstructionSet = some jt → InstructionSet jt
  | tangerineWhistle {jt} : newTangerineWhistleInstructionSet = some jt → InstructionSet jt
  | spuriousDragon {jt} : newSpuriousDragonInstructionSet = some jt → InstructionSet jt
  | byzantium {jt} : newByzantiumInstructionSet = some jt → InstructionSet jt
  | constantinople {jt} : newConstantinopleInstructionSet = some jt → InstructionSet jt
  | istanbul {jt} : newIstanbulInstructionSet = some jt → InstructionSet jt
  | berlin {jt} : newBerlinInstructionSet = some jt → InstructionSet jt
  | london {jt} : newLondonInstructionSet = some jt → InstructionSet jt
  | shanghai {jt} : newShanghaiInstructionSet = some jt → InstructionSet jt
  | cancun {jt} : newCancunInstructionSet = some jt → InstructionSet jt
  | prague {jt} : newPragueInstructionSet = some jt → InstructionSet jt
  | enableEIP {jt jt'} (eipNum : Nat) :
      InstructionSet jt → enableEIP eipNum jt = .ok (some jt') → InstructionSet jt'

/-! ## every table is sound -/

/-- the calls of an operation fit in its `numPop` items and leave `numPush`, and it returns early
only at a height of at most `numPop` -/
def Operation.Sound (op : Operation) : Prop :=
  height op.execute op.numPop = some op.numPush ∧
    ∀ h ∈ exitHeights op.execute op.numPop, h ≤ op.numPop

instance : DecidablePred Operation.Sound := fun op => by
  unfold Operation.Sound
  infer_instance

def TableSound (jt : JumpTable) : Prop := ∀ i, (jt i).Sound

/-- every `maxStack` is the one `maxStack(numPop, numPush)` gives -/
def Filled (jt : JumpTable) : Prop := ∀ i, (jt i).maxStack = maxStack (jt i).numPop (jt i).numPush

theorem TableSound.update {jt : JumpTable} (h : TableSound jt) {op : Operation} (hop : op.Sound)
    (i : OpCode) : TableSound (Function.update jt i op) := by
  intro j
  by_cases hj : j = i
  · rw [hj, Function.update_self]
    exact hop
  · rw [Function.update_of_ne hj]
    exact h j

theorem TableSound.setDynamicGas {jt : JumpTable} (h : TableSound jt) (op : OpCode) :
    TableSound (Vm.setDynamicGas jt op) :=
  -- the gas function is not part of what `Sound` reads
  h.update (show Operation.Sound { jt op with hasDynamicGas := true } from h op) op

theorem TableSound.foldl_setDynamicGas {jt : JumpTable} (h : TableSound jt) :
    ∀ ops : List OpCode, TableSound (ops.foldl Vm.setDynamicGas jt)
  | [] => h
  | op :: ops => (h.setDynamicGas op).foldl_setDynamicGas ops

theorem validateAndFillMaxStack_sound {jt jt' : JumpTable}
    (hv : validateAndFillMaxStack jt = some jt') (h : TableSound jt) :
    TableSound jt' ∧ Filled jt' := by
  unfold validateAndFillMaxStack at hv
  split at hv
  · cases hv
  · cases hv
    -- filling `maxStack` leaves the calls and the counts as they were
    exact ⟨fun i => h i, fun _ => rfl⟩

/-- what every entry of an association list and its default have, a lookup has -/
theorem getD_lookup_of_forall {α β : Type} [BEq α] {P : β → Prop} {l : List (α × β)} {d : β}
    (hl : ∀ e ∈ l, P e.2) (hd : P d) (a : α) : P ((l.lookup a).getD d) := by
  induction l with
  | nil => exact hd
  | cons e l ih =>
    simp only [List.lookup]
    split
    · exact hl e List.mem_cons_self
    · exact ih fun e' he' => hl e' (List.mem_cons_of_mem _ he')

theorem frontierTable_sound : TableSound frontierTable := by
  intro i
  show Operation.Sound ((frontierEntries.lookup i).getD _)
  -- the entries of the literal and the `opUndefined` default, rather than all 256 slots
  refine getD_lookup_of_forall ?_ ?_ i
  · decide +kernel
  · decide

/-- a constructor that changes its predecessor's table in a way that keeps it sound, and then
validates it, builds a sound and filled table -/
theorem bind_validate_sound {prev : Option JumpTable} {f : JumpTable → JumpTable}
    (hprev : ∀ jt, prev = some jt → TableSound jt)
    (hf : ∀ jt, TableSound jt → TableSound (f jt)) {jt : JumpTable}
    (h : (prev.bind fun t => validateAndFillMaxStack (f t)) = some jt) :
    TableSound jt ∧ Filled jt := by
  obtain ⟨t, ht, hv⟩ := Option.bind_eq_some_iff.mp h
  exact validateAndFillMaxStack_sound hv (hf t (hprev t ht))

theorem enable_sound {eipNum : Nat} {enablerFn : JumpTable → JumpTable}
    (h : activators eipNum = some enablerFn) {jt : JumpTable} (hjt : TableSound jt) :
    TableSound (enablerFn jt) := by
  -- one case per entry of `activators`; each sets sound operations or gas functions only
  unfold activators at h
  split at h <;> cases h
  · exact TableSound.update hjt (by decide) PUSH0
  · exact ((TableSound.setDynamicGas hjt CREATE).setDynamicGas CREATE2)
  · exact ((TableSound.setDynamicGas hjt SSTORE).setDynamicGas SELFDESTRUCT)
  · exact TableSound.update hjt (by decide) BASEFEE
  · exact TableSound.foldl_setDynamicGas hjt _
  · exact TableSound.setDynamicGas hjt SSTORE
  · exact TableSound.update hjt (by decide) SELFBALANCE
  · exact TableSound.update hjt (by decide) CHAINID

theorem newFrontierInstructionSet_sound {jt : JumpTable}
    (h : newFrontierInstructionSet = some jt) : TableSound jt ∧ Filled jt :=
  validateAndFillMaxStack_sound h frontierTable_sound

theorem newHomesteadInstructionSet_sound {jt : JumpTable}
    (h : newHomesteadInstructionSet = some jt) : TableSound jt ∧ Filled jt := by
  rw [newHomesteadInstructionSet, Option.bind_eq_bind] at h
  exact bind_validate_sound (fun _ ht => (newFrontierInstructionSet_sound ht).1)
    (fun _ ht => ht.update (by decide) DELEGATECALL) h

theorem newTangerineWhistleInstructionSet_sound {jt : JumpTable}
    (h : newTangerineWhistleInstructionSet = some jt) : TableSound jt ∧ Filled jt := by
  rw [newTangerineWhistleInstructionSet, Option.bind_eq_bind] at h
  exact bind_validate_sound (f := id) (fun _ ht => (newHomesteadInstructionSet_sound ht).1)
    (fun _ ht => ht) h

theorem newSpuriousDragonInstructionSet_sound {jt : JumpTable}
    (h : newSpuriousDragonInstructionSet = some jt) : TableSound jt ∧ Filled jt := by
  rw [newSpuriousDragonInstructionSet, Option.bind_eq_bind] at h
  exact bind_validate_sound (fun _ ht => (newTangerineWhistleInstructionSet_sound ht).1)
    (fun _ ht => ht.setDynamicGas EXP) h

theorem newByzantiumInstructionSet_sound {jt : JumpTable}
    (h : newByzantiumInstructionSet = some jt) : TableSound jt ∧ Filled jt := by
  rw [newByzantiumInstructionSet, Option.bind_eq_bind] at h
  exact bind_validate_sound (fun _ ht => (newSpuriousDragonInstructionSet_sound ht).1)
    (fun _ ht => (((ht.update (by decide) STATICCALL).update (by decide) RETURNDATASIZE).update
      (by decide) RETURNDATACOPY).update (by decide) REVERT) h

theorem newConstantinopleInstructionSet_sound {jt : JumpTable}
    (h : newConstantinopleInstructionSet = some jt) : TableSound jt ∧ Filled jt := by
  rw [newConstantinopleInstructionSet, Option.bind_eq_bind] at h
  exact bind_validate_sound (fun _ ht => (newByzantiumInstructionSet_sound ht).1)
    (fun _ ht => ((((ht.update (by decide) SHL).update (by decide) SHR).update (by decide)
      SAR).update (by decide) EXTCODEHASH).update (by decide) CREATE2) h

theorem newIstanbulInstructionSet_sound {jt : JumpTable}
    (h : newIstanbulInstructionSet = some jt) : TableSound jt ∧ Filled jt := by
  rw [newIstanbulInstructionSet, Option.bind_eq_bind] at h
  exact bind_validate_sound (fun _ ht => (newConstantinopleInstructionSet_sound ht).1)
    (fun _ ht => enable_sound (show activators 2200 = some enable2200 from rfl)
      (enable_sound (show activators 1884 = some enable1884 from rfl)
        (enable_sound (show activators 1344 = some enable1344 from rfl) ht))) h

theorem newBerlinInstructionSet_sound {jt : JumpTable}
    (h : newBerlinInstructionSet = some jt) : TableSound jt ∧ Filled jt := by
  rw [newBerlinInstructionSet, Option.bind_eq_bind] at h
  exact bind_validate_sound (fun _ ht => (newIstanbulInstructionSet_sound ht).1)
    (fun _ ht => enable_sound (show activators 2929 = some enable2929 from rfl) ht) h

theorem newLondonInstructionSet_sound {jt : JumpTable}
    (h : newLondonInstructionSet = some jt) : TableSound jt ∧ Filled jt := by
  rw [newLondonInstructionSet, Option.bind_eq_bind] at h
  exact bind_validate_sound (fun _ ht => (newBerlinInstructionSet_sound ht).1)
    (fun _ ht => enable_sound (show activators 3198 = some enable3198 from rfl)
      (enable_sound (show activators 3529 = some enable3529 from rfl) ht)) h

theorem newShanghaiInstructionSet_sound {jt : JumpTable}
    (h : newShanghaiInstructionSet = some jt) : TableSound jt ∧ Filled jt := by
  rw [newShanghaiInstructionSet, Option.bind_eq_bind] at h
  exact bind_validate_sound (fun _ ht => (newLondonInstructionSet_sound ht).1)
    (fun _ ht => enable_sound (show activators 3860 = some enable3860 from rfl)
      (enable_sound (show activators 3855 = some enable3855 from rfl) ht)) h

theorem newCancunInstructionSet_sound {jt : JumpTable}
    (h : newCancunInstructionSet = some jt) : TableSound jt ∧ Filled jt := by
  rw [newCancunInstructionSet, Option.bind_eq_bind] at h
  exact bind_validate_sound (f := id) (fun _ ht => (newShanghaiInstructionSet_sound ht).1)
    (fun _ ht => ht) h

theorem newPragueInstructionSet_sound {jt : JumpTable}
    (h : newPragueInstructionSet = some jt) : TableSound jt ∧ Filled jt := by
  rw [newPragueInstructionSet, Option.bind_eq_bind] at h
  exact bind_validate_sound (f := id) (fun _ ht => (newCancunInstructionSet_sound ht).1)
    (fun _ ht => ht) h

theorem enableEIP_sound {eipNum : Nat} {jt jt' : JumpTable} (hjt : TableSound jt)
    (h : enableEIP eipNum jt = .ok (some jt')) : TableSound jt' ∧ Filled jt' := by
  unfold enableEIP at h
  split at h
  · cases h
  · rename_i enablerFn hact
    exact validateAndFillMaxStack_sound (Except.ok.inj h) (enable_sound hact hjt)

/-- **Every table built is sound and filled**, by induction on how it was built. -/
theorem InstructionSet.sound {jt : JumpTable} (h : InstructionSet jt) :
    TableSound jt ∧ Filled jt := by
  induction h with
  | frontier h => exact newFrontierInstructionSet_sound h
  | homestead h => exact newHomesteadInstructionSet_sound h
  | tangerineWhistle h => exact newTangerineWhistleInstructionSet_sound h
  | spuriousDragon h => exact newSpuriousDragonInstructionSet_sound h
  | byzantium h => exact newByzantiumInstructionSet_sound h
  | constantinople h => exact newConstantinopleInstructionSet_sound h
  | istanbul h => exact newIstanbulInstructionSet_sound h
  | berlin h => exact newBerlinInstructionSet_sound h
  | london h => exact newLondonInstructionSet_sound h
  | shanghai h => exact newShanghaiInstructionSet_sound h
  | cancun h => exact newCancunInstructionSet_sound h
  | prague h => exact newPragueInstructionSet_sound h
  | enableEIP eipNum _ h ih => exact enableEIP_sound ih.1 h

/-! ## the stack discipline -/

/-- **The stack discipline of the interpreter.**  On a stack `EVMInterpreter.Run` lets through,
`numPop ≤ len(stack) ≤ maxStack`, the `execute` of any entry of any table built does on the
whole stack what it does on its top `numPop` items, the rest carried along; it never indexes
past the bottom; when it returns no error it leaves `numPush` items in place of the `numPop`, at
most `StackLimit` in all; an early error leaves no more items than there were. -/
theorem stack_discipline {jt : JumpTable} (hjt : InstructionSet jt) (op : OpCode)
    (o : Oracle U256) (stack : List U256) (hpop : (jt op).numPop ≤ stack.length)
    (hmax : (stack.length : Int) ≤ (jt op).maxStack) :
    run o (jt op).execute [] stack =
        (run o (jt op).execute [] (stack.take (jt op).numPop)).map
          (· ++ stack.drop (jt op).numPop) ∧
      run o (jt op).execute [] stack ≠ .panic ∧
      (∀ s, run o (jt op).execute [] stack = .done s →
        s.length + (jt op).numPop = stack.length + (jt op).numPush ∧ s.length ≤ stackLimit) ∧
      (∀ s, run o (jt op).execute [] stack = .exit s → s.length ≤ stack.length) := by
  obtain ⟨hsound, hfilled⟩ := hjt.sound
  obtain ⟨hheight, hexits⟩ := hsound op
  have htop : (stack.take (jt op).numPop).length = (jt op).numPop := List.length_take_of_le hpop
  have hdrop : (stack.drop (jt op).numPop).length = stack.length - (jt op).numPop :=
    List.length_drop
  have hframe := run_frame o (jt op).execute [] (stack.take (jt op).numPop)
    (stack.drop (jt op).numPop) (by rw [htop, hheight]; simp)
  rw [List.take_append_drop] at hframe
  have hlimit : (stack.length : Int) ≤ stackLimit + (jt op).numPop - (jt op).numPush := by
    rw [← maxStack, ← hfilled op]
    exact hmax
  -- the run on the top items is done or has returned at an exit; the whole run is that run with
  -- the rest of the stack below
  have hcases := run_cases o (jt op).execute [] (stack.take (jt op).numPop)
    (by rw [htop]; exact hheight)
  refine ⟨hframe, ?_, ?_, ?_⟩
  all_goals rcases hcases with ⟨s', hdone, hlen⟩ | ⟨s', hexit, hmem⟩
  · rw [hframe, hdone]
    simp
  · rw [hframe, hexit]
    simp
  · intro s hs
    rw [hframe, hdone, Outcome.map_done] at hs
    cases hs
    rw [List.length_append, hlen, hdrop]
    constructor <;> omega
  · intro s hs
    rw [hframe, hexit, Outcome.map_exit] at hs
    cases hs
  · intro s hs
    rw [hframe, hdone, Outcome.map_done] at hs
    cases hs
  · intro s hs
    rw [hframe, hexit, Outcome.map_exit] at hs
    cases hs
    rw [htop] at hmem
    have hle := hexits _ hmem
    rw [List.length_append, hdrop]
    omega

theorem newFrontierInstructionSet_eq :
    newFrontierInstructionSet = some (fillMaxStack frontierTable) := by
  have hgas : ∀ i,
      ¬((frontierTable i).memorySize.isSome ∧ (frontierTable i).hasDynamicGas = false) :=
    getD_lookup_of_forall
      (P := fun op : Operation => ¬(op.memorySize.isSome ∧ op.hasDynamicGas = false))
      (by decide +kernel) (by decide)
  rw [newFrontierInstructionSet, validateAndFillMaxStack, if_neg (not_exists.mpr hgas)]

/-- `ADD` of the Frontier table on the stack `1, 2` -/
theorem add_stack_discipline :
    InstructionSet (fillMaxStack frontierTable) ∧
      (fillMaxStack frontierTable ADD).numPop ≤ [(1 : U256), 2].length ∧
      ([(1 : U256), 2].length : Int) ≤ (fillMaxStack frontierTable ADD).maxStack ∧
      run ⟨fun _ => 3, fun _ => false⟩ (fillMaxStack frontierTable ADD).execute []
        [(1 : U256), 2] ≠ .panic :=
  have hset : InstructionSet (fillMaxStack frontierTable) := .frontier newFrontierInstructionSet_eq
  ⟨hset, by decide, by decide,
    (stack_discipline hset ADD (⟨fun _ => 3, fun _ => false⟩ : Oracle U256) [1, 2] (by decide)
      (by decide)).2.1⟩

/-- a read-only frame: `opCall` returns `ErrWriteProtection` where the value, the third item
it pops, is not zero -/
def readOnlyFrame : Oracle U256 := ⟨fun _ => 0, fun r => decide (r[2]? ≠ some 0)⟩

/-- **`CALL` in a read-only frame.**  From Byzantium on, where `STATICCALL` makes a frame
read-only, sending the value `1` from one returns `ErrWriteProtection` after the seven pops and
before the push: the stack is seven items shorter, where `numPush - numPop` says six.  With the
value `0` the call goes on to its push. -/
theorem call_write_protection_pops_seven :
    (newByzantiumInstructionSet.map fun jt => ((jt CALL).numPop, (jt CALL).numPush,
        run readOnlyFrame (jt CALL).execute [] [0, 0xca11, 1, 0, 0, 0, 0],
        run readOnlyFrame (jt CALL).execute [] [0, 0xca11, 0, 0, 0, 0, 0])) =
      some (7, 1, .exit [], .done [0]) := by
  decide +kernel

end Vm

end N42
