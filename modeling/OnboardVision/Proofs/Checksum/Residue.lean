import Mathlib.Data.List.Induction
import OnboardVision.Checksum

/-!
# Residues

The checksum of a message is its remainder under division by a fixed polynomial, and all that is
known about it follows from the step that multiplies a remainder by `x`.

* `Checksum.shift_xor`, `Checksum.shift_eq_zero`: the step is linear and loses nothing.
* `Checksum.ofBytes_append_singleton_eq_zero_iff`: a message followed by its checksum is one without
  residue.
* `Checksum.add_byteOf`: a byte counts as its eight bits, the most significant one first.
* `Checksum.weight_addBits`: every bit of a message turns the parity of the residue.
-/

namespace OnboardVision

namespace Checksum

/-- A statement about bytes is one about 256 numbers. -/
theorem forall_of_lt {P : UInt8 → Prop} (h : ∀ n < 256, P (UInt8.ofNat n)) (c : UInt8) : P c := by
  have := h c.toNat c.toNat_lt
  rwa [UInt8.ofNat_toNat] at this

/-! ### Linearity -/

theorem shift_eq (c : UInt8) : shift c = c <<< 1 ^^^ if c.toBitVec.msb then 0xD5 else 0 := by
  revert c
  exact forall_of_lt (by decide +kernel)

theorem shift_xor (a b : UInt8) : shift (a ^^^ b) = shift a ^^^ shift b := by
  have hleft : (a ^^^ b) <<< 1 = a <<< 1 ^^^ b <<< 1 :=
    UInt8.toBitVec_inj.1 (by simp [BitVec.shiftLeft_xor_distrib])
  rw [shift_eq, shift_eq, shift_eq, UInt8.toBitVec_xor, BitVec.msb_xor, hleft]
  generalize a <<< 1 = x, b <<< 1 = y
  have hcancel : x ^^^ 0xD5 ^^^ (y ^^^ 0xD5) = x ^^^ y := by
    have : x ^^^ 0xD5 ^^^ (y ^^^ 0xD5) = x ^^^ y ^^^ (0xD5 ^^^ 0xD5) := by ac_rfl
    rw [this, UInt8.xor_self, UInt8.xor_zero]
  -- the polynomial comes in for either top bit, and cancels if there are both
  cases a.toBitVec.msb <;> cases b.toBitVec.msb
  · simp
  · simp [UInt8.xor_assoc]
  · simp only [Bool.bne_false, ↓reduceIte, Bool.false_eq_true, UInt8.xor_zero]
    ac_rfl
  · simpa using hcancel.symm

theorem shift_eq_zero {c : UInt8} : shift c = 0 ↔ c = 0 :=
  forall_of_lt (P := fun c => shift c = 0 ↔ c = 0) (by decide +kernel) c

theorem repeat_shift_xor (n : ℕ) (a b : UInt8) :
    Nat.repeat shift n (a ^^^ b) = Nat.repeat shift n a ^^^ Nat.repeat shift n b := by
  induction n with
  | zero => rfl
  | succ n ih =>
    rw [Nat.repeat, ih, shift_xor]
    rfl

theorem repeat_shift_eq_zero (n : ℕ) {c : UInt8} : Nat.repeat shift n c = 0 ↔ c = 0 := by
  induction n with
  | zero => rfl
  | succ n ih => rw [Nat.repeat, shift_eq_zero, ih]

theorem add_xor (c d a b : UInt8) : add (c ^^^ d) (a ^^^ b) = add c a ^^^ add d b := by
  have : c ^^^ d ^^^ (a ^^^ b) = c ^^^ a ^^^ (d ^^^ b) := by ac_rfl
  rw [add, this, repeat_shift_xor]
  rfl

/-! ### A message and its checksum -/

theorem add_eq_zero_iff {c b : UInt8} : add c b = 0 ↔ c = b := by
  rw [add, repeat_shift_eq_zero, UInt8.xor_eq_zero_iff]

theorem addAll_append (c : UInt8) (xs ys : List UInt8) :
    addAll c (xs ++ ys) = addAll (addAll c xs) ys := List.foldl_append

theorem ofBytes_append (xs ys : List UInt8) : ofBytes (xs ++ ys) = addAll (ofBytes xs) ys :=
  addAll_append 0 xs ys

theorem ofBytes_append_singleton_eq_zero_iff {bytes : List UInt8} {c : UInt8} :
    ofBytes (bytes ++ [c]) = 0 ↔ ofBytes bytes = c := by
  rw [ofBytes_append]
  exact add_eq_zero_iff

/-! ### Bit by bit -/

/-- The residue after one more bit. -/
def addBit (c : UInt8) (b : Bool) : UInt8 := shift (c ^^^ if b then 0x80 else 0)

/-- The residue after more bits. -/
def addBits (c : UInt8) (bits : List Bool) : UInt8 := bits.foldl addBit c

/-- The byte with the given bits, the most significant one first. -/
def byteOf (bits : List Bool) : UInt8 := bits.foldl (fun c b => c <<< 1 ||| if b then 1 else 0) 0

theorem addBits_append (c : UInt8) (xs ys : List Bool) :
    addBits c (xs ++ ys) = addBits (addBits c xs) ys := List.foldl_append

/-- What was there before and what comes in do not mix. -/
theorem addBits_eq_xor (c : UInt8) (bits : List Bool) :
    addBits c bits = Nat.repeat shift bits.length c ^^^ addBits 0 bits := by
  induction bits using List.reverseRecOn with
  | nil => simp [addBits, Nat.repeat]
  | append_singleton bits b ih =>
    rw [addBits_append, addBits_append, ih, List.length_append]
    simp only [addBits, List.foldl_cons, List.foldl_nil, addBit, UInt8.xor_assoc, shift_xor]
    rfl

theorem addBits_of_forall_eq_false {bits : List Bool} (h : ∀ b ∈ bits, b = false) :
    addBits 0 bits = 0 := by
  induction bits with
  | nil => rfl
  | cons b bits ih =>
    obtain ⟨rfl, hbits⟩ := List.forall_mem_cons.1 h
    exact ih hbits

/-- The bits of a byte, one by one. -/
theorem byteOf_spec {bits : List Bool} (h : bits.length = 8) :
    addBits 0 bits = add 0 (byteOf bits) ∧ (true ∈ bits → byteOf bits ≠ 0) := by
  have hall : ∀ b₇ b₆ b₅ b₄ b₃ b₂ b₁ b₀ : Bool,
      let bits := [b₇, b₆, b₅, b₄, b₃, b₂, b₁, b₀]
      addBits 0 bits = add 0 (byteOf bits) ∧ (true ∈ bits → byteOf bits ≠ 0) := by
    decide +kernel
  match bits, h with
  | [b₇, b₆, b₅, b₄, b₃, b₂, b₁, b₀], _ => exact hall b₇ b₆ b₅ b₄ b₃ b₂ b₁ b₀

theorem add_byteOf (c : UInt8) {bits : List Bool} (h : bits.length = 8) :
    add c (byteOf bits) = addBits c bits := by
  have hadd := add_xor c 0 0 (byteOf bits)
  rw [UInt8.xor_zero, UInt8.zero_xor] at hadd
  rw [hadd, addBits_eq_xor c bits, h, (byteOf_spec h).1, add, UInt8.xor_zero]

/-- Up to eight bits leave a residue if there is one among them. -/
theorem addBits_ne_zero {bits : List Bool} (h8 : bits.length ≤ 8) (h : true ∈ bits) :
    addBits 0 bits ≠ 0 := by
  intro h0
  -- as many zeros behind them as make a byte would leave no residue either
  let full := bits ++ List.replicate (8 - bits.length) false
  have hfull : full.length = 8 := by simp [full, h8]
  have hzero : addBits 0 full = 0 := by
    rw [addBits_append, h0]
    exact addBits_of_forall_eq_false fun b hb => (List.mem_replicate.1 hb).2
  obtain ⟨hadd, hne⟩ := byteOf_spec hfull
  rw [hadd, add_eq_zero_iff] at hzero
  exact hne (List.mem_append_left _ h) hzero.symm

/-! ### Parity -/

/-- How many bits of a byte are set. -/
def weight (c : UInt8) : ℕ := (List.range 8).countP fun j => c.toNat.testBit j

theorem weight_addBit (c : UInt8) (b : Bool) :
    weight (addBit c b) % 2 = (weight c + b.toNat) % 2 := by
  revert c
  exact forall_of_lt (by cases b <;> decide +kernel)

theorem weight_addBits (c : UInt8) (bits : List Bool) :
    weight (addBits c bits) % 2 = (weight c + bits.count true) % 2 := by
  induction bits generalizing c with
  | nil => rfl
  | cons b bits ih =>
    have hb := weight_addBit c b
    have hbits : weight (addBits c (b :: bits)) % 2 =
        (weight (addBit c b) + bits.count true) % 2 := ih (addBit c b)
    have hcount : (b :: bits).count true = b.toNat + bits.count true := by
      cases b <;> simp [Nat.add_comm]
    omega

end Checksum

end OnboardVision
