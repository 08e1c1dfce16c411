import Mathlib.Data.Nat.Size
import TurboGeth.Lib.ByteBits

/-!
# Jump-destination analysis

`core/vm/analysis.go` and `Contract.validJumpdest` of `core/vm/contract.go`.
`codeBitmap` walks the code once and marks, in a bit vector, every byte that
is an immediate of a PUSH; a jump is valid only to a `JUMPDEST` byte that is
not so marked.  The vector has `len(code)/8 + 5` bytes, four more than the
code needs, so that a PUSH32 at the very end of the code marks its missing
immediates inside it.

A Go index out of range panics; here a write past the end of the vector is
`none`.  `pc` is a `uint64` that stays below `len(code) + 33`, so a `Nat`.

The specification is the plain scan `Boundary`: start at 0 and step over
each opcode and its immediates.  `codeBitmap` never writes out of range and
marks exactly the bytes the scan steps over (`codeBitmap_marks`);
`validJumpdest` answers from that bitmap, computed or cached, and keeps its
caches those of the contract's code.
-/

set_option autoImplicit false

namespace TurboGeth.Vm

open ByteBits

/-- The opcodes of `opcodes.go` the analysis reads. -/
def JUMPDEST : UInt8 := 0x5b
def PUSH1 : UInt8 := 0x60
def PUSH32 : UInt8 := 0x7f

/-- `bitvec`: bit `pos`, counted from the most significant bit of byte 0, is
set when byte `pos` of the code is data. -/
abbrev bitvec := List UInt8

namespace bitvec

/-- `(*bits)[i] |= mask`, which panics past the end. -/
def orByte (bits : bitvec) (i : Nat) (mask : UInt8) : Option bitvec :=
  if i < bits.length then some (bits.modify i (· ||| mask)) else none

def set (bits : bitvec) (pos : Nat) : Option bitvec :=
  orByte bits (pos / 8) (0x80 >>> UInt8.ofNat (pos % 8))

def set8 (bits : bitvec) (pos : Nat) : Option bitvec := do
  let bits ← orByte bits (pos / 8) (0xFF >>> UInt8.ofNat (pos % 8))
  orByte bits (pos / 8 + 1) (~~~(0xFF >>> UInt8.ofNat (pos % 8)))

def codeSegment (bits : bitvec) (pos : Nat) : Option Bool :=
  bits[pos / 8]?.map fun b => (b &&& (0x80 >>> UInt8.ofNat (pos % 8))) == 0

end bitvec

/-- `for ; numbits >= 8; numbits -= 8 { bits.set8(pc); pc += 8 }`: the vector,
`pc` and `numbits` after the loop. -/
def set8Loop (bits : bitvec) (pc : Nat) : Nat → Option (bitvec × Nat × Nat)
  | numbits + 8 => do
    let bits ← bitvec.set8 bits pc
    set8Loop bits (pc + 8) numbits
  | numbits => some (bits, pc, numbits)

/-- `for ; numbits > 0; numbits-- { bits.set(pc); pc++ }`. -/
def setLoop (bits : bitvec) (pc : Nat) : Nat → Option (bitvec × Nat)
  | 0 => some (bits, pc)
  | numbits + 1 => do
    let bits ← bitvec.set bits pc
    setLoop bits (pc + 1) numbits

theorem set8Loop_of_lt (bits : bitvec) (pc n : Nat) (small : n < 8) : set8Loop bits pc n = some (bits, pc, n) := by
  match n with
  | 0 | 1 | 2 | 3 | 4 | 5 | 6 | 7 => rfl
  | n + 8 => omega

theorem set8Loop_pc {bits bits' : bitvec} {pc pc' n n' : Nat} (ran : set8Loop bits pc n = some (bits', pc', n')) :
    pc' = pc + 8 * (n / 8) ∧ n' = n % 8 := by
  induction n using Nat.strong_induction_on generalizing bits pc with
  | _ n ih =>
    by_cases small : n < 8
    · rw [set8Loop_of_lt bits pc n small, Option.some.injEq, Prod.mk.injEq, Prod.mk.injEq] at ran
      omega
    · obtain ⟨m, rfl⟩ : ∃ m, n = m + 8 := ⟨n - 8, by omega⟩
      simp only [set8Loop, Option.bind_eq_bind, Option.bind_eq_some_iff] at ran
      obtain ⟨bits8, -, rest⟩ := ran
      have := ih m (by omega) rest
      omega

theorem setLoop_pc {bits bits' : bitvec} {pc pc' n : Nat} (ran : setLoop bits pc n = some (bits', pc')) :
    pc' = pc + n := by
  induction n generalizing bits pc with
  | zero =>
    simp only [setLoop, Option.some.injEq, Prod.mk.injEq] at ran
    omega
  | succ n ih =>
    simp only [setLoop, Option.bind_eq_bind, Option.bind_eq_some_iff] at ran
    obtain ⟨bits1, -, rest⟩ := ran
    have := ih rest
    omega

/-- The main loop of `codeBitmap`, from `pc` on. -/
def codeBitmapLoop (code : List UInt8) (bits : bitvec) (pc : Nat) : Option bitvec :=
  if h : pc < code.length then
    let op := code[pc]
    if op ≥ PUSH1 ∧ op ≤ PUSH32 then
      match h8 : set8Loop bits (pc + 1) (op - PUSH1 + 1).toNat with
      | none => none
      | some (bits, pc8, numbits) =>
        match h1 : setLoop bits pc8 numbits with
        | none => none
        | some (bits, pc1) => codeBitmapLoop code bits pc1
    else codeBitmapLoop code bits (pc + 1)
  else some bits
termination_by code.length - pc
decreasing_by
  · have := (set8Loop_pc h8).1
    have := setLoop_pc h1
    omega
  · omega

def codeBitmap (code : List UInt8) : Option bitvec :=
  codeBitmapLoop code (List.replicate (code.length / 8 + 1 + 4) 0) 0

/-- The fields of `Contract` that `validJumpdest` reads and writes: the code,
its hash (zero for init code that is not in the state), the analyses the
parent context caches by code hash, and the contract's own analysis. -/
structure Contract where
  Code : List UInt8
  CodeHash : List UInt8
  jumpdests : List UInt8 → Option bitvec
  analysis : Option bitvec

/-- `validJumpdest` for a destination taken off the stack, a word and so a
natural number; `BitLen` is `Nat.size`, `Uint64` the low 64 bits. -/
def Contract.validJumpdest (c : Contract) (dest : Nat) : Option (Bool × Contract) :=
  let udest := dest % 2 ^ 64
  if Nat.size dest ≥ 63 ∨ udest ≥ c.Code.length then some (false, c)
  else if c.Code[udest]? ≠ some JUMPDEST then some (false, c)
  -- `common.Hash{}`: init code, analysed once per contract
  else if c.CodeHash ≠ List.replicate 32 0 then
    match c.jumpdests c.CodeHash with
    | some analysis => (bitvec.codeSegment analysis udest).map (·, c)
    | none => do
      let analysis ← codeBitmap c.Code
      let c := { c with jumpdests := Function.update c.jumpdests c.CodeHash (some analysis) }
      (bitvec.codeSegment analysis udest).map (·, c)
  else
    match c.analysis with
    | some analysis => (bitvec.codeSegment analysis udest).map (·, c)
    | none => do
      let analysis ← codeBitmap c.Code
      (bitvec.codeSegment analysis udest).map (·, { c with analysis := some analysis })

/-! ## The plain scan -/

/-- Immediate bytes after the opcode `op`. -/
def pushWidth (op : UInt8) : Nat := if op ≥ PUSH1 ∧ op ≤ PUSH32 then (op - PUSH1 + 1).toNat else 0

theorem pushWidth_of_push {op : UInt8} (push : op ≥ PUSH1 ∧ op ≤ PUSH32) : pushWidth op = (op - PUSH1 + 1).toNat :=
  if_pos push

theorem pushWidth_of_not_push {op : UInt8} (notPush : ¬(op ≥ PUSH1 ∧ op ≤ PUSH32)) : pushWidth op = 0 :=
  if_neg notPush

theorem pushWidth_le (op : UInt8) : pushWidth op ≤ 32 := by
  unfold pushWidth
  split
  · rename_i push
    have hi : op.toNat ≤ 0x7f := UInt8.le_iff_toNat_le.mp push.2
    have sub : (op - PUSH1).toNat = op.toNat - 0x60 := UInt8.toNat_sub_of_le _ _ push.1
    rw [UInt8.toNat_add, sub]
    simp
    omega
  · omega

/-- The plain scan of the code: it reads an opcode at 0, and after reading
`op` at `pc` reads the next one past `op`'s immediates. -/
inductive Boundary (code : List UInt8) : Nat → Prop
  | start : Boundary code 0
  | next {pc : Nat} {op : UInt8} : Boundary code pc → code[pc]? = some op → Boundary code (pc + 1 + pushWidth op)

/-- Byte `p` is PUSH data: an immediate of a PUSH the scan reads. -/
def IsPushData (code : List UInt8) (p : Nat) : Prop :=
  ∃ pc op, Boundary code pc ∧ code[pc]? = some op ∧ pc < p ∧ p ≤ pc + pushWidth op

theorem Boundary.next_le {code : List UInt8} {a b : Nat} {op : UInt8} (ha : Boundary code a) (hb : Boundary code b)
    (before : a < b) (at_a : code[a]? = some op) : a + 1 + pushWidth op ≤ b := by
  induction b using Nat.strong_induction_on generalizing a op with
  | _ b ih =>
    cases hb with
    | start => omega
    | @next b' op' hb' at_b' =>
      rcases Nat.lt_trichotomy a b' with earlier | same | later
      · have := ih b' (by omega) ha hb' earlier at_a
        omega
      · subst same
        rw [at_a, Option.some.injEq] at at_b'
        subst at_b'
        omega
      · have := ih a before hb' ha later at_b'
        omega

/-- Data of the PUSHes the scan has read below `pc`: what the loop has marked
when it reaches `pc`. -/
def DataBefore (code : List UInt8) (pc q : Nat) : Prop :=
  ∃ b op, Boundary code b ∧ b < pc ∧ code[b]? = some op ∧ b < q ∧ q ≤ b + pushWidth op

theorem DataBefore_start (code : List UInt8) (q : Nat) : ¬ DataBefore code 0 q := by
  rintro ⟨b, op, -, below, -⟩
  omega

theorem DataBefore_next {code : List UInt8} {pc : Nat} {op : UInt8} (scanned : Boundary code pc)
    (at_pc : code[pc]? = some op) (q : Nat) :
    DataBefore code (pc + 1 + pushWidth op) q ↔ DataBefore code pc q ∨ (pc < q ∧ q ≤ pc + pushWidth op) := by
  constructor
  · rintro ⟨b, op', hb, below, at_b, inside⟩
    rcases Nat.lt_trichotomy b pc with earlier | same | later
    · exact .inl ⟨b, op', hb, earlier, at_b, inside⟩
    · subst same
      rw [at_pc, Option.some.injEq] at at_b
      subst at_b
      exact .inr inside
    · have := Boundary.next_le scanned hb later at_pc
      omega
  · rintro (⟨b, op', hb, below, at_b, inside⟩ | inside)
    · exact ⟨b, op', hb, by omega, at_b, inside⟩
    · exact ⟨pc, op, scanned, by omega, at_pc, inside⟩

theorem DataBefore_end {code : List UInt8} {pc : Nat} (done : code.length ≤ pc) (q : Nat) :
    DataBefore code pc q ↔ IsPushData code q := by
  constructor
  · rintro ⟨b, op, hb, -, at_b, inside⟩
    exact ⟨b, op, hb, at_b, inside⟩
  · rintro ⟨b, op, hb, at_b, inside⟩
    have : b < code.length := (List.getElem?_eq_some_iff.mp at_b).1
    exact ⟨b, op, hb, by omega, at_b, inside⟩

/-! ## Writes into the bit vector -/

theorem orByte_eq (bits : bitvec) (i : Nat) (mask : UInt8) (inside : i < bits.length) :
    bitvec.orByte bits i mask = some (bits.modify i (· ||| mask)) := if_pos inside

theorem set_marks (bits : bitvec) (pos : Nat) (inside : pos / 8 < bits.length) :
    ∃ bits', bitvec.set bits pos = some bits' ∧ bits'.length = bits.length ∧
      ∀ q, msbBit bits' q = (msbBit bits q || decide (pos ≤ q ∧ q < pos + 1)) := by
  refine ⟨_, orByte_eq bits _ _ inside, List.length_modify .., fun q => ?_⟩
  rw [msbBit_modify_or bits _ _ inside, testBit_0x80_shiftRight _ _ (Nat.mod_lt _ (by decide)) (Nat.mod_lt _ (by decide))]
  have same : (q / 8 == pos / 8 && decide (q % 8 = pos % 8)) = decide (pos ≤ q ∧ q < pos + 1) := by
    rw [Bool.eq_iff_iff]
    simp only [Bool.and_eq_true, beq_iff_eq, decide_eq_true_eq]
    omega
  rw [same]

theorem set8_marks (bits : bitvec) (pos : Nat) (inside : pos / 8 + 1 < bits.length) :
    ∃ bits', bitvec.set8 bits pos = some bits' ∧ bits'.length = bits.length ∧
      ∀ q, msbBit bits' q = (msbBit bits q || decide (pos ≤ q ∧ q < pos + 8)) := by
  have first := orByte_eq bits (pos / 8) ((0xFF : UInt8) >>> UInt8.ofNat (pos % 8)) (by omega)
  have second := orByte_eq (bits.modify (pos / 8) (· ||| (0xFF : UInt8) >>> UInt8.ofNat (pos % 8))) (pos / 8 + 1)
    (~~~((0xFF : UInt8) >>> UInt8.ofNat (pos % 8))) (by simpa using inside)
  unfold bitvec.set8
  rw [first, Option.bind_eq_bind, Option.bind_some, second]
  refine ⟨_, rfl, by simp, fun q => ?_⟩
  have low : q % 8 < 8 := Nat.mod_lt _ (by decide)
  have shift : pos % 8 < 8 := Nat.mod_lt _ (by decide)
  rw [msbBit_modify_or _ _ _ (by simpa using inside), msbBit_modify_or bits _ _ (by omega),
    testBit_0xFF_shiftRight _ _ shift low, testBit_not_0xFF_shiftRight _ _ shift low, Bool.or_assoc]
  have window : ((q / 8 == pos / 8 && decide (pos % 8 ≤ q % 8)) || (q / 8 == pos / 8 + 1 && decide (q % 8 < pos % 8))) =
      decide (pos ≤ q ∧ q < pos + 8) := by
    rw [Bool.eq_iff_iff]
    simp only [Bool.or_eq_true, Bool.and_eq_true, beq_iff_eq, decide_eq_true_eq]
    omega
  rw [window]

theorem window_append (a b c q : Nat) (ab : a ≤ b) (bc : b ≤ c) :
    (decide (a ≤ q ∧ q < b) || decide (b ≤ q ∧ q < c)) = decide (a ≤ q ∧ q < c) := by
  rw [Bool.eq_iff_iff]
  simp only [Bool.or_eq_true, decide_eq_true_eq]
  omega

theorem set8Loop_marks (n : Nat) : ∀ (bits : bitvec) (pc : Nat), pc + 8 * (n / 8) < 8 * bits.length →
    ∃ bits', set8Loop bits pc n = some (bits', pc + 8 * (n / 8), n % 8) ∧ bits'.length = bits.length ∧
      ∀ q, msbBit bits' q = (msbBit bits q || decide (pc ≤ q ∧ q < pc + 8 * (n / 8))) := by
  induction n using Nat.strong_induction_on with
  | _ n ih =>
    intro bits pc room
    by_cases small : n < 8
    · refine ⟨bits, ?_, rfl, fun q => ?_⟩
      · rw [set8Loop_of_lt bits pc n small, Nat.div_eq_of_lt small, Nat.mod_eq_of_lt small]
        rfl
      · simp [Nat.div_eq_of_lt small]
    · obtain ⟨m, rfl⟩ : ∃ m, n = m + 8 := ⟨n - 8, by omega⟩
      have groups : (m + 8) / 8 = m / 8 + 1 := by omega
      obtain ⟨bits8, written, length8, marks8⟩ := set8_marks bits pc (by omega)
      obtain ⟨bits', rest, length', marks'⟩ := ih m (by omega) bits8 (pc + 8) (by omega)
      refine ⟨bits', ?_, by rw [length', length8], fun q => ?_⟩
      · rw [set8Loop, written, Option.bind_eq_bind, Option.bind_some, rest, groups,
          show pc + 8 + 8 * (m / 8) = pc + 8 * (m / 8 + 1) by omega, Nat.add_mod_right]
      · rw [marks', marks8, groups, Bool.or_assoc, window_append _ _ _ _ (by omega) (by omega),
          show pc + 8 + 8 * (m / 8) = pc + 8 * (m / 8 + 1) by omega]

theorem setLoop_marks (n : Nat) : ∀ (bits : bitvec) (pc : Nat), pc + n ≤ 8 * bits.length →
    ∃ bits', setLoop bits pc n = some (bits', pc + n) ∧ bits'.length = bits.length ∧
      ∀ q, msbBit bits' q = (msbBit bits q || decide (pc ≤ q ∧ q < pc + n)) := by
  induction n with
  | zero =>
    intro bits pc _
    exact ⟨bits, rfl, rfl, fun q => by simp⟩
  | succ n ih =>
    intro bits pc room
    obtain ⟨bits1, written, length1, marks1⟩ := set_marks bits pc (by omega)
    obtain ⟨bits', rest, length', marks'⟩ := ih bits1 (pc + 1) (by omega)
    refine ⟨bits', ?_, by rw [length', length1], fun q => ?_⟩
    · rw [setLoop, written, Option.bind_eq_bind, Option.bind_some, rest, Nat.add_right_comm, Nat.add_assoc]
    · rw [marks', marks1, Bool.or_assoc, window_append _ _ _ _ (by omega) (by omega),
        Nat.add_right_comm, Nat.add_assoc]

theorem pushLoops_marks (bits : bitvec) (pc n : Nat) (room : pc + n < 8 * bits.length) :
    ∃ bits8, set8Loop bits pc n = some (bits8, pc + 8 * (n / 8), n % 8) ∧
      ∃ bits', setLoop bits8 (pc + 8 * (n / 8)) (n % 8) = some (bits', pc + n) ∧ bits'.length = bits.length ∧
        ∀ q, msbBit bits' q = (msbBit bits q || decide (pc ≤ q ∧ q < pc + n)) := by
  obtain ⟨bits8, ran8, length8, marks8⟩ := set8Loop_marks n bits pc (by omega)
  obtain ⟨bits', ran1, length', marks'⟩ := setLoop_marks (n % 8) bits8 (pc + 8 * (n / 8)) (by omega)
  have whole : pc + 8 * (n / 8) + n % 8 = pc + n := by omega
  refine ⟨bits8, ran8, bits', by rw [ran1, whole], by rw [length', length8], fun q => ?_⟩
  rw [marks', marks8, Bool.or_assoc, window_append _ _ _ _ (by omega) (by omega), whole]

/-! ## The bitmap -/

theorem codeBitmapLoop_marks (code : List UInt8) (bits : bitvec) (pc : Nat) (scanned : Boundary code pc)
    (len : bits.length = code.length / 8 + 5) (marked : ∀ q, msbBit bits q = true ↔ DataBefore code pc q) :
    ∃ bits', codeBitmapLoop code bits pc = some bits' ∧ bits'.length = bits.length ∧
      ∀ q, msbBit bits' q = true ↔ IsPushData code q := by
  fun_induction codeBitmapLoop code bits pc with
  | case1 bits pc inCode op push failed =>
    have := pushWidth_le op
    obtain ⟨_, ran8, -⟩ := pushLoops_marks bits (pc + 1) (pushWidth op) (by omega)
    rw [← pushWidth_of_push push, ran8] at failed
    cases failed
  | case2 bits pc inCode op push bits8 pc8 numbits ran8 failed =>
    have := pushWidth_le op
    obtain ⟨_, ran8', _, ran1, -⟩ := pushLoops_marks bits (pc + 1) (pushWidth op) (by omega)
    rw [← pushWidth_of_push push, ran8', Option.some.injEq, Prod.mk.injEq, Prod.mk.injEq] at ran8
    obtain ⟨rfl, rfl, rfl⟩ := ran8
    rw [ran1] at failed
    cases failed
  | case3 bits pc inCode op push bits8 pc8 numbits ran8 bits1 pc1 ran1 ih =>
    have := pushWidth_le op
    obtain ⟨_, ran8', bits', ran1', length', marks'⟩ := pushLoops_marks bits (pc + 1) (pushWidth op) (by omega)
    rw [← pushWidth_of_push push, ran8', Option.some.injEq, Prod.mk.injEq, Prod.mk.injEq] at ran8
    obtain ⟨rfl, rfl, rfl⟩ := ran8
    rw [ran1', Option.some.injEq, Prod.mk.injEq] at ran1
    obtain ⟨rfl, rfl⟩ := ran1
    have at_pc : code[pc]? = some op := List.getElem?_eq_getElem inCode
    obtain ⟨bits'', run, length'', marks''⟩ := ih (by simpa [Nat.add_assoc] using Boundary.next scanned at_pc)
      (by rw [length', len]) (fun q => by
        rw [marks', Bool.or_eq_true, marked, decide_eq_true_eq, DataBefore_next scanned at_pc]
        exact or_congr_right (by omega))
    exact ⟨bits'', run, by rw [length'', length'], marks''⟩
  | case4 bits pc inCode op notPush ih =>
    have at_pc : code[pc]? = some op := List.getElem?_eq_getElem inCode
    have next := DataBefore_next scanned at_pc
    rw [pushWidth_of_not_push notPush, Nat.add_zero] at next
    exact ih (by simpa [pushWidth_of_not_push notPush] using Boundary.next scanned at_pc) len
      (fun q => by rw [marked, next, or_iff_left (by omega)])
  | case5 bits pc done =>
    exact ⟨bits, rfl, rfl, fun q => (marked q).trans (DataBefore_end (by omega) q)⟩

theorem codeBitmap_marks (code : List UInt8) :
    ∃ bits, codeBitmap code = some bits ∧ bits.length = code.length / 8 + 5 ∧
      ∀ q, msbBit bits q = true ↔ IsPushData code q := by
  obtain ⟨bits, run, length, marks⟩ := codeBitmapLoop_marks code (List.replicate (code.length / 8 + 1 + 4) 0) 0
    .start (by simp) (fun q => by simp [DataBefore_start])
  exact ⟨bits, run, by simpa using length, marks⟩

theorem codeSegment_eq (bits : bitvec) (pos : Nat) (inside : pos / 8 < bits.length) :
    bitvec.codeSegment bits pos = some (!msbBit bits pos) := by
  rw [bitvec.codeSegment, List.getElem?_eq_getElem inside, Option.map_some,
    and_0x80_shiftRight_eq_zero _ _ (Nat.mod_lt _ (by decide)), msbBit, List.getD_eq_getElem _ _ inside]

theorem codeSegment_codeBitmap {code : List UInt8} {bits : bitvec} (computed : codeBitmap code = some bits)
    {pos : Nat} (inCode : pos < code.length) :
    ∃ segment, bitvec.codeSegment bits pos = some segment ∧ (segment = true ↔ ¬ IsPushData code pos) := by
  obtain ⟨bits', computed', length, marks⟩ := codeBitmap_marks code
  rw [computed, Option.some.injEq] at computed'
  subst computed'
  refine ⟨_, codeSegment_eq bits pos (by omega), ?_⟩
  rw [Bool.not_eq_true', Bool.eq_false_iff, ne_eq, marks]

/-! ## Valid jumps -/

/-- The analyses a contract answers from are those of its own code. -/
structure AnalysesOfCode (c : Contract) : Prop where
  shared : ∀ bits, c.jumpdests c.CodeHash = some bits → codeBitmap c.Code = some bits
  own : ∀ bits, c.analysis = some bits → codeBitmap c.Code = some bits


/-- What `validJumpdest` answers, on a contract whose caches hold analyses of
its code: never a panic, the caches still of its code, and a valid jump
exactly to a `JUMPDEST` byte that is not PUSH data, once the guards on the
destination's size pass. -/
theorem validJumpdest_spec (c : Contract) (sound : AnalysesOfCode c) (dest : Nat) :
    ∃ valid c', c.validJumpdest dest = some (valid, c') ∧ AnalysesOfCode c' ∧ c'.Code = c.Code ∧
      c'.CodeHash = c.CodeHash ∧
      (valid = true ↔ ¬(Nat.size dest ≥ 63 ∨ dest % 2 ^ 64 ≥ c.Code.length) ∧
        c.Code[dest % 2 ^ 64]? = some JUMPDEST ∧ ¬ IsPushData c.Code (dest % 2 ^ 64)) := by
  unfold Contract.validJumpdest
  by_cases guard : Nat.size dest ≥ 63 ∨ dest % 2 ^ 64 ≥ c.Code.length
  · exact ⟨false, c, by simp only [if_pos guard], sound, rfl, rfl, ⟨Bool.noConfusion, fun h => absurd guard h.1⟩⟩
  have inCode : dest % 2 ^ 64 < c.Code.length := by omega
  by_cases notJump : c.Code[dest % 2 ^ 64]? ≠ some JUMPDEST
  · exact ⟨false, c, by simp only [if_neg guard, if_pos notJump], sound, rfl, rfl,
      ⟨Bool.noConfusion, fun h => absurd h.2.1 notJump⟩⟩
  rw [if_neg guard, if_neg notJump]
  have jump : c.Code[dest % 2 ^ 64]? = some JUMPDEST := not_not.mp notJump
  -- past the guards the answer is the bitmap's, whichever cache it comes from
  have answered : ∀ segment : Bool, (segment = true ↔ ¬ IsPushData c.Code (dest % 2 ^ 64)) →
      (segment = true ↔ ¬(Nat.size dest ≥ 63 ∨ dest % 2 ^ 64 ≥ c.Code.length) ∧
        c.Code[dest % 2 ^ 64]? = some JUMPDEST ∧ ¬ IsPushData c.Code (dest % 2 ^ 64)) :=
    fun _ answer => answer.trans ⟨fun data => ⟨guard, jump, data⟩, fun h => h.2.2⟩
  by_cases hashed : c.CodeHash ≠ List.replicate 32 0
  · rw [if_pos hashed]
    cases cached : c.jumpdests c.CodeHash with
    | some bits =>
      obtain ⟨segment, seg, answer⟩ := codeSegment_codeBitmap (sound.shared bits cached) inCode
      exact ⟨segment, c, by simp only [seg, Option.map_some], sound, rfl, rfl, answered _ answer⟩
    | none =>
      obtain ⟨bits, computed, -⟩ := codeBitmap_marks c.Code
      obtain ⟨segment, seg, answer⟩ := codeSegment_codeBitmap computed inCode
      refine ⟨segment, { c with jumpdests := Function.update c.jumpdests c.CodeHash (some bits) }, ?_,
        ⟨fun bits' stored => ?_, sound.own⟩, rfl, rfl, answered _ answer⟩
      · simp only [computed, seg, Option.bind_eq_bind, Option.bind_some, Option.map_some]
      · simp only [Function.update_self, Option.some.injEq] at stored
        rw [← stored]
        exact computed
  · rw [if_neg hashed]
    cases cached : c.analysis with
    | some bits =>
      obtain ⟨segment, seg, answer⟩ := codeSegment_codeBitmap (sound.own bits cached) inCode
      exact ⟨segment, c, by simp only [seg, Option.map_some], sound, rfl, rfl, answered _ answer⟩
    | none =>
      obtain ⟨bits, computed, -⟩ := codeBitmap_marks c.Code
      obtain ⟨segment, seg, answer⟩ := codeSegment_codeBitmap computed inCode
      refine ⟨segment, { c with analysis := some bits }, ?_,
        ⟨sound.shared, fun bits' stored => ?_⟩, rfl, rfl, answered _ answer⟩
      · simp only [computed, seg, Option.bind_eq_bind, Option.bind_some, Option.map_some]
      · simp only [Option.some.injEq] at stored
        rw [← stored]
        exact computed

theorem validJumpdest_keeps {c c' : Contract} {dest : Nat} {valid : Bool} (sound : AnalysesOfCode c)
    (answered : c.validJumpdest dest = some (valid, c')) : AnalysesOfCode c' ∧ c'.Code = c.Code := by
  obtain ⟨valid', c'', answered', sound', code, -⟩ := validJumpdest_spec c sound dest
  rw [answered', Option.some.injEq, Prod.mk.injEq] at answered
  obtain ⟨-, rfl⟩ := answered
  exact ⟨sound', code⟩

/-- Contracts reached from `c` by the interpreter's jumps, each of which may
fill a cache. -/
inductive JumpedFrom (c : Contract) : Contract → Prop
  | refl : JumpedFrom c c
  | step {c' c'' : Contract} {dest : Nat} {valid : Bool} :
      JumpedFrom c c' → c'.validJumpdest dest = some (valid, c'') → JumpedFrom c c''

theorem JumpedFrom.sound {c c' : Contract} (sound : AnalysesOfCode c) (run : JumpedFrom c c') :
    AnalysesOfCode c' ∧ c'.Code = c.Code := by
  induction run with
  | refl => exact ⟨sound, rfl⟩
  | step _ answered ih =>
    obtain ⟨sound', code'⟩ := validJumpdest_keeps ih.1 answered
    exact ⟨sound', code'.trans ih.2⟩

theorem guard_iff_past_code {dest len : Nat} (small : len ≤ 2 ^ 62) :
    (Nat.size dest ≥ 63 ∨ dest % 2 ^ 64 ≥ len) ↔ len ≤ dest := by
  constructor
  · rintro (long | past)
    · have := Nat.lt_size.mp long
      omega
    · have := Nat.mod_le dest (2 ^ 64)
      omega
  · intro past
    by_cases short : dest < 2 ^ 62
    · exact .inr (by rw [Nat.mod_eq_of_lt (by omega)]; exact past)
    · exact .inl (Nat.lt_size.mpr (by omega))

theorem jumpdest_analysis_exact (code : List UInt8) :
    (∃ bits, codeBitmap code = some bits ∧ bits.length = code.length / 8 + 5 ∧
      ∀ p < code.length, (bitvec.codeSegment bits p = some false ↔ IsPushData code p)) ∧
    ∀ c c' : Contract, c.Code = code → AnalysesOfCode c → JumpedFrom c c' → code.length ≤ 2 ^ 62 →
      ∀ dest, ∃ valid c'', c'.validJumpdest dest = some (valid, c'') ∧
        (valid = true ↔ dest < code.length ∧ code[dest]? = some JUMPDEST ∧ ¬ IsPushData code dest) := by
  constructor
  · obtain ⟨bits, computed, length, marks⟩ := codeBitmap_marks code
    refine ⟨bits, computed, length, fun p inCode => ?_⟩
    rw [codeSegment_eq bits p (by omega), Option.some.injEq, Bool.not_eq_false', marks]
  · rintro c c' rfl sound run small dest
    obtain ⟨sound', code'⟩ := run.sound sound
    obtain ⟨valid, c'', answered, -, -, -, answer⟩ := validJumpdest_spec c' sound' dest
    refine ⟨valid, c'', answered, answer.trans ?_⟩
    rw [code', guard_iff_past_code small, not_le]
    constructor
    · rintro ⟨inCode, jump, notData⟩
      rw [Nat.mod_eq_of_lt (by omega)] at jump notData
      exact ⟨inCode, jump, notData⟩
    · rintro ⟨inCode, jump, notData⟩
      rw [Nat.mod_eq_of_lt (by omega)]
      exact ⟨inCode, jump, notData⟩

end TurboGeth.Vm
