import Mathlib.Algebra.Ring.Parity
import Mathlib.Data.Finset.Card
import Mathlib.Order.Interval.Finset.Nat
import OnboardVision.Proofs.Checksum.Residue

/-!
# Bit errors

`Noise` is a set of bits that arrive inverted, and `Noise.garble` what becomes of a message.  The
residue of a garbled message is the one of the message and the one of the noise
(`Noise.ofBytes_garble`), and noise is never without residue if it is a burst of at most eight bits,
wherever that begins in a byte, or an odd number of bits (`Noise.residue_ne_zero`).  So a message
that ends in its checksum does not arrive as one (`Noise.exists_garble_eq`).
-/

namespace OnboardVision

/-- Bits that arrive inverted.  Bit `8 * k + j` is bit `j` of byte `k`, where bit 0 is the most
significant one. -/
abbrev Noise := Finset ℕ

namespace Noise

variable {e : Noise} {k : ℕ} {bytes : List UInt8}

/-- The inverted bits of byte `k`. -/
def mask (e : Noise) (k : ℕ) : UInt8 :=
  Checksum.byteOf ((List.range' (8 * k) 8).map fun i => decide (i ∈ e))

/-- How bytes arrive, of which the first one is byte `k`. -/
def garble (e : Noise) (k : ℕ) (bytes : List UInt8) : List UInt8 :=
  (bytes.zipIdx k).map fun b => b.1 ^^^ e.mask b.2

/-- There are inverted bits, and all of them are among eight consecutive ones. -/
def IsBurst (e : Noise) : Prop := e.Nonempty ∧ ∃ s, e ⊆ Finset.Ico s (s + 8)

/-- A burst of at most eight bits, or an odd number of them. -/
def Detectable (e : Noise) : Prop := e.IsBurst ∨ Odd e.card

/-! ### Garbled messages -/

theorem garble_cons (e : Noise) (k : ℕ) (b : UInt8) (bytes : List UInt8) :
    e.garble k (b :: bytes) = (b ^^^ e.mask k) :: e.garble (k + 1) bytes := rfl

@[simp] theorem length_garble (e : Noise) (k : ℕ) (bytes : List UInt8) :
    (e.garble k bytes).length = bytes.length := by
  simp [garble]

theorem garble_append (e : Noise) (k : ℕ) (xs ys : List UInt8) :
    e.garble k (xs ++ ys) = e.garble k xs ++ e.garble (k + xs.length) ys := by
  simp [garble, List.zipIdx_append]

theorem mask_eq_zero (h : ∀ i ∈ e, i < 8 * k ∨ 8 * k + 8 ≤ i) : e.mask k = 0 := by
  have hbits : (List.range' (8 * k) 8).map (fun i => decide (i ∈ e)) = List.replicate 8 false := by
    refine List.eq_replicate_iff.2 ⟨by simp, ?_⟩
    simp only [List.mem_map, List.mem_range'_1]
    rintro b ⟨i, hi, rfl⟩
    refine decide_eq_false fun hie => ?_
    have := h i hie
    omega
  rw [mask, hbits]
  rfl

/-- Bytes without inverted bits arrive as they are. -/
theorem garble_eq_self (h : ∀ i ∈ e, i < 8 * k ∨ 8 * (k + bytes.length) ≤ i) :
    e.garble k bytes = bytes := by
  induction bytes generalizing k with
  | nil => rfl
  | cons b bytes ih =>
    rw [List.length_cons] at h
    have hmask : e.mask k = 0 := mask_eq_zero fun i hi => by have := h i hi; omega
    have hrest : e.garble (k + 1) bytes = bytes := ih fun i hi => by have := h i hi; omega
    rw [garble_cons, hmask, hrest, UInt8.xor_zero]

/-! ### Residues -/

/-- The bits of `n` bytes, inverted or not. -/
def bits (e : Noise) (k n : ℕ) : List Bool :=
  (List.range' (8 * k) (8 * n)).map fun i => decide (i ∈ e)

theorem bits_succ (e : Noise) (k n : ℕ) :
    e.bits k (n + 1) = (List.range' (8 * k) 8).map (fun i => decide (i ∈ e)) ++
      e.bits (k + 1) n := by
  have hn : 8 * (n + 1) = 8 + 8 * n := by omega
  have hk : 8 * (k + 1) = 8 * k + 8 := by omega
  rw [bits, bits, hn, hk, ← List.range'_append_1, List.map_append]

theorem addAll_garble (c d : UInt8) (e : Noise) (k : ℕ) (bytes : List UInt8) :
    Checksum.addAll (c ^^^ d) (e.garble k bytes) =
      Checksum.addAll c bytes ^^^ Checksum.addBits d (e.bits k bytes.length) := by
  induction bytes generalizing c d k with
  | nil => rfl
  | cons b bytes ih =>
    have hmask : Checksum.add d (e.mask k) =
        Checksum.addBits d ((List.range' (8 * k) 8).map fun i => decide (i ∈ e)) :=
      Checksum.add_byteOf d (by simp)
    have hstep : Checksum.addAll (c ^^^ d) (e.garble k (b :: bytes)) =
        Checksum.addAll (Checksum.add c b ^^^ Checksum.add d (e.mask k))
          (e.garble (k + 1) bytes) := by
      rw [← Checksum.add_xor]
      rfl
    rw [hstep, ih, hmask, List.length_cons, bits_succ, Checksum.addBits_append]
    rfl

theorem ofBytes_garble (e : Noise) (k : ℕ) (bytes : List UInt8) :
    Checksum.ofBytes (e.garble k bytes) =
      Checksum.ofBytes bytes ^^^ Checksum.addBits 0 (e.bits k bytes.length) := by
  have h := addAll_garble 0 0 e k bytes
  rw [UInt8.xor_zero] at h
  exact h

theorem count_bits {n : ℕ} (h : e ⊆ Finset.Ico (8 * k) (8 * (k + n))) :
    (e.bits k n).count true = e.card := by
  have hplaces : ((List.range' (8 * k) (8 * n)).filter (· ∈ e)).toFinset = e := by
    ext i
    have hi := @h i
    simp only [Finset.mem_Ico] at hi
    simp only [List.mem_toFinset, List.mem_filter, List.mem_range'_1, decide_eq_true_eq]
    exact ⟨And.right, fun hie => ⟨by have := hi hie; omega, hie⟩⟩
  have hcount : (e.bits k n).count true =
      ((List.range' (8 * k) (8 * n)).filter (· ∈ e)).length := by
    rw [bits, List.count_eq_countP, List.countP_map, ← List.countP_eq_length_filter]
    exact List.countP_congr fun i _ => by simp
  rw [hcount, ← List.toFinset_card_of_nodup (List.Nodup.filter _ List.nodup_range'), hplaces]

/-- A burst is a run of at most eight bits, with none before and none behind it. -/
theorem bits_of_isBurst {n : ℕ} (h : e ⊆ Finset.Ico (8 * k) (8 * (k + n))) (hb : e.IsBurst) :
    ∃ front run back, e.bits k n = front ++ run ++ back ∧ (∀ b ∈ front, b = false) ∧
      (∀ b ∈ back, b = false) ∧ run.length ≤ 8 ∧ true ∈ run := by
  obtain ⟨⟨i, hi⟩, s, hs⟩ := hb
  have hin : ∀ j ∈ e, 8 * k ≤ j ∧ j < 8 * (k + n) ∧ s ≤ j ∧ j < s + 8 := fun j hj => by
    have := Finset.mem_Ico.1 (h hj)
    have := Finset.mem_Ico.1 (hs hj)
    omega
  -- the run begins with the eight bits or with the first byte, and ends with either of them
  obtain ⟨p, m, q, hp, hm, hq⟩ : ∃ p m q, p = s - 8 * k ∧ m = min 8 (8 * n - p) ∧
      8 * n = p + m + q := by
    have := hin i hi
    exact ⟨_, _, 8 * n - (s - 8 * k) - min 8 (8 * n - (s - 8 * k)), rfl, rfl, by omega⟩
  refine ⟨(List.range' (8 * k) p).map (fun i => decide (i ∈ e)),
    (List.range' (8 * k + p) m).map (fun i => decide (i ∈ e)),
    (List.range' (8 * k + p + m) q).map (fun i => decide (i ∈ e)), ?_, ?_, ?_, ?_, ?_⟩
  · rw [bits, hq, ← List.map_append, ← List.map_append, List.range'_append_1, Nat.add_assoc (8 * k),
      List.range'_append_1]
  · simp only [List.mem_map, List.mem_range'_1]
    rintro b ⟨j, hj, rfl⟩
    exact decide_eq_false fun hje => by have := hin j hje; omega
  · simp only [List.mem_map, List.mem_range'_1]
    rintro b ⟨j, hj, rfl⟩
    exact decide_eq_false fun hje => by have := hin j hje; omega
  · rw [List.length_map, List.length_range']
    omega
  · have := hin i hi
    exact List.mem_map.2 ⟨i, List.mem_range'_1.2 (by omega), decide_eq_true hi⟩

/-- Noise leaves a residue. -/
theorem residue_ne_zero {n : ℕ} (h : e ⊆ Finset.Ico (8 * k) (8 * (k + n))) (hd : e.Detectable) :
    Checksum.addBits 0 (e.bits k n) ≠ 0 := by
  rcases hd with hburst | hodd
  · obtain ⟨front, run, back, hbits, hfront, hback, hrun, htrue⟩ := bits_of_isBurst h hburst
    rw [hbits, Checksum.addBits_append, Checksum.addBits_append,
      Checksum.addBits_of_forall_eq_false hfront, Checksum.addBits_eq_xor,
      Checksum.addBits_of_forall_eq_false hback, UInt8.xor_zero]
    -- the bits behind the run only move on what it leaves
    exact fun h0 => Checksum.addBits_ne_zero hrun htrue ((Checksum.repeat_shift_eq_zero _).1 h0)
  · intro h0
    have hpar := Checksum.weight_addBits 0 (e.bits k n)
    rw [h0, count_bits h] at hpar
    have hzero : Checksum.weight 0 = 0 := rfl
    rw [Nat.odd_iff] at hodd
    omega

/-- A message that ends in its checksum does not arrive as one. -/
theorem exists_garble_eq {content : List UInt8}
    (h : e ⊆ Finset.Ico (8 * k) (8 * (k + content.length + 1))) (hd : e.Detectable) :
    ∃ c, e.garble k (content ++ [Checksum.ofBytes content]) = e.garble k content ++ [c] ∧
      Checksum.ofBytes (e.garble k content) ≠ c := by
  refine ⟨Checksum.ofBytes content ^^^ e.mask (k + content.length), garble_append e k _ _,
    fun heq => ?_⟩
  have hsent : Checksum.ofBytes (content ++ [Checksum.ofBytes content]) = 0 :=
    Checksum.ofBytes_append_singleton_eq_zero_iff.2 rfl
  have harrived : Checksum.ofBytes (e.garble k (content ++ [Checksum.ofBytes content])) = 0 := by
    rw [garble_append]
    exact Checksum.ofBytes_append_singleton_eq_zero_iff.2 heq
  have hsum := ofBytes_garble e k (content ++ [Checksum.ofBytes content])
  rw [hsent, harrived, UInt8.zero_xor, List.length_append] at hsum
  exact residue_ne_zero h hd hsum.symm

end Noise

end OnboardVision
