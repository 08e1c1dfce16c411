import Mathlib

/-!
# The arithmetic of EVM words

What the arithmetic, comparison, bitwise and shift instructions of the EVM
compute, in the terms of the Yellow Paper: a word is a `BitVec 256`, the
unsigned operations are those of `BitVec` (modulo `2^256`), and the signed
ones read a word as a two's-complement number.  A division or remainder by
zero gives zero, as the Yellow Paper has it (the `BitVec` remainders, like
SMT-LIB's, would return the dividend), and `ADDMOD` and `MULMOD` reduce the
exact sum and product.

Each instruction replaces its operands, `μs[0]` on top, by its one result;
the operations are grouped by how many operands they take, as the jump table
groups them by their stack requirement.
-/

set_option autoImplicit false

namespace TurboGeth.Vm

/-- A word of the EVM stack. -/
abbrev Word := BitVec 256

/-- The big integer that holds a word. -/
def bigOf (w : Word) : Int := w.toNat

/-- The word of a big integer: its value modulo `2^256`. -/
def wordOf (x : Int) : Word := BitVec.ofInt 256 x

inductive UnaryOp
  | iszero
  | not
  deriving DecidableEq, Repr

inductive BinaryOp
  | add
  | mul
  | sub
  | div
  | sdiv
  | mod
  | smod
  | exp
  | signextend
  | lt
  | gt
  | slt
  | sgt
  | eq
  | and
  | or
  | xor
  | byte
  | shl
  | shr
  | sar
  deriving DecidableEq, Repr

inductive TernaryOp
  | addmod
  | mulmod
  deriving DecidableEq, Repr

def UnaryOp.result : UnaryOp → Word → Word
  | .iszero, a => if a = 0 then 1 else 0
  | .not, a => ~~~a

/-- The result from `μs[0]` and `μs[1]`. -/
def BinaryOp.result : BinaryOp → Word → Word → Word
  | .add, a, b => a + b
  | .mul, a, b => a * b
  | .sub, a, b => a - b
  | .div, a, b => if b = 0 then 0 else a / b
  | .sdiv, a, b => if b = 0 then 0 else a.sdiv b
  | .mod, a, b => if b = 0 then 0 else a % b
  | .smod, a, b => if b = 0 then 0 else a.srem b
  | .exp, a, b => a ^ b.toNat
  -- the low `b + 1` bytes of `x`, their top bit copied upwards
  | .signextend, b, x => if b.toNat < 31 then (x.setWidth (8 * b.toNat + 8)).signExtend 256 else x
  | .lt, a, b => if a < b then 1 else 0
  | .gt, a, b => if b < a then 1 else 0
  | .slt, a, b => if a.slt b then 1 else 0
  | .sgt, a, b => if b.slt a then 1 else 0
  | .eq, a, b => if a = b then 1 else 0
  | .and, a, b => a &&& b
  | .or, a, b => a ||| b
  | .xor, a, b => a ^^^ b
  -- byte `i` of `x`, the most significant first
  | .byte, i, x => if i.toNat < 32 then (x >>> (8 * (31 - i.toNat))) &&& 0xff else 0
  | .shl, shift, value => value <<< shift.toNat
  | .shr, shift, value => value >>> shift.toNat
  | .sar, shift, value => value.sshiftRight shift.toNat

def TernaryOp.result : TernaryOp → Word → Word → Word → Word
  | .addmod, a, b, n => if n = 0 then 0 else BitVec.ofNat 256 ((a.toNat + b.toNat) % n.toNat)
  | .mulmod, a, b, n => if n = 0 then 0 else BitVec.ofNat 256 (a.toNat * b.toNat % n.toNat)

inductive ArithOp
  | unary (op : UnaryOp)
  | binary (op : BinaryOp)
  | ternary (op : TernaryOp)
  deriving DecidableEq, Repr

/-- The number of operands. -/
def ArithOp.arity : ArithOp → Nat
  | .unary _ => 1
  | .binary _ => 2
  | .ternary _ => 3

/-- The Yellow Paper's step on a stack, its top first: the operands are
replaced by the result. -/
def ArithOp.yellowPaper : ArithOp → List Word → Option (List Word)
  | .unary op, a :: rest => some (op.result a :: rest)
  | .binary op, a :: b :: rest => some (op.result a b :: rest)
  | .ternary op, a :: b :: n :: rest => some (op.result a b n :: rest)
  | _, _ => none

theorem ArithOp.yellowPaper_length (op : ArithOp) (stack : List Word) (enough : op.arity ≤ stack.length) :
    ∃ after, op.yellowPaper stack = some after ∧ after.length + op.arity = stack.length + 1 := by
  match op, stack with
  | .unary op, a :: rest => exact ⟨_, rfl, by simp [arity]⟩
  | .binary op, a :: b :: rest => exact ⟨_, rfl, by simp [arity]⟩
  | .ternary op, a :: b :: n :: rest => exact ⟨_, rfl, by simp [arity]⟩
  | .unary _, [] | .binary _, [] | .binary _, [_] | .ternary _, [] | .ternary _, [_] | .ternary _, [_, _] =>
    simp [arity] at enough

end TurboGeth.Vm
