import Mathlib.Data.List.GetD
import Mathlib.Data.List.Induction
import Mathlib.Data.Nat.Bitwise
import ContractHost.Bech32

/-! Bits in groups. Bytes and five-bit groups are two ways to cut one sequence of bits, and reading the groups back
gives the bytes, since what was filled up at the end is too short for one more. -/

namespace ContractHost

namespace Bech32

/-- The number that the bits write, highest bit first. -/
def number (bits : List Bool) : Nat := bits.foldl (fun total bit => 2 * total + bit.toNat) 0

private theorem number_concat (front : List Bool) (last : Bool) :
    number (front ++ [last]) = 2 * number front + last.toNat := by
  rw [number, List.foldl_append]
  rfl

private theorem number_lt (bits : List Bool) : number bits < 2 ^ bits.length := by
  induction bits using List.reverseRecOn with
  | nil => exact Nat.one_pos
  | append_singleton front last ih =>
    have bit : last.toNat < 2 := last.toNat_lt
    rw [number_concat, List.length_append, List.length_singleton, Nat.pow_succ]
    omega

private theorem testBit_number (bits : List Bool) (index : Nat) :
    (number bits).testBit index = bits.reverse.getD index false := by
  induction bits using List.reverseRecOn generalizing index with
  | nil => exact Nat.zero_testBit index
  | append_singleton front last ih =>
    rw [number_concat, List.reverse_concat]
    cases index with
    | zero =>
      rw [Nat.testBit_zero, List.getD_cons_zero]
      cases last <;> simp only [Bool.toNat_false, Bool.toNat_true, decide_eq_false_iff_not, decide_eq_true_eq] <;> omega
    | succ index =>
      have half : (2 * number front + last.toNat) / 2 = number front := by
        have bit : last.toNat < 2 := last.toNat_lt
        omega
      rw [Nat.testBit_succ, half, List.getD_cons_succ]
      exact ih index

private theorem toNat_ofBits {piece : List Bool} (fits : piece.length ≤ 8) : (ofBits piece).toNat = number piece :=
  UInt8.toNat_ofNat_of_lt' (Nat.lt_of_lt_of_le (number_lt piece) (Nat.pow_le_pow_right (by decide) fits))

private theorem ofBits_lt {piece : List Bool} (fits : piece.length ≤ 5) : ofBits piece < 32 := by
  rw [UInt8.lt_iff_toNat_lt, toNat_ofBits (by omega)]
  exact Nat.lt_of_lt_of_le (number_lt piece) (Nat.pow_le_pow_right (by decide) fits)

@[simp] theorem length_bits (width : Nat) (value : UInt8) : (bits width value).length = width := by
  rw [bits, List.length_map, List.length_range]

private theorem bits_ofBits {piece : List Bool} (fits : piece.length ≤ 8) :
    bits piece.length (ofBits piece) = piece := by
  refine List.ext_getElem (length_bits _ _) (fun index inside also => ?_)
  have mirrored : piece.length - 1 - index < piece.reverse.length := by
    rw [List.length_reverse]
    omega
  simp only [bits, List.getElem_map, List.getElem_range, toNat_ofBits fits, testBit_number]
  rw [List.getD_eq_getElem _ _ mirrored, List.getElem_reverse]
  congr 1
  omega

private theorem ofBits_bits (byte : UInt8) : ofBits (bits 8 byte) = byte := by
  have all : ∀ value < 256, ofBits (bits 8 (UInt8.ofNat value)) = UInt8.ofNat value := by decide +kernel
  have this := all byte.toNat byte.toNat_lt
  rwa [UInt8.ofNat_toNat] at this

private theorem pieces_nil (size : Nat) : pieces size ([] : List α) = [] := by
  rw [pieces, dif_pos (.inl rfl)]

/-- Groups of five hold the bits that they were gathered from, and fewer than five more. -/
theorem bits_gathered (stream : List Bool) :
    ∃ filling < 5, ((pieces 5 stream).map
      (fun piece => ofBits (piece ++ List.replicate (5 - piece.length) false))).flatMap (bits 5) =
        stream ++ List.replicate filling false := by
  fun_induction pieces 5 stream with
  | case1 stream none =>
    obtain rfl : stream = [] := none.resolve_right (by decide)
    exact ⟨0, by decide, rfl⟩
  | case2 stream some ih =>
    let filled := stream.take 5 ++ List.replicate (5 - (stream.take 5).length) false
    have whole : filled.length = 5 := by
      rw [List.length_append, List.length_replicate, List.length_take]
      omega
    have back : bits 5 (ofBits filled) = filled := by
      have read : bits filled.length (ofBits filled) = filled := bits_ofBits (by omega)
      rwa [whole] at read
    rw [List.map_cons, List.flatMap_cons, back]
    rcases Nat.lt_or_ge 5 stream.length with long | short
    · obtain ⟨filling, less, gathered⟩ := ih
      have none : 5 - (stream.take 5).length = 0 := by
        rw [List.length_take]
        omega
      refine ⟨filling, less, ?_⟩
      rw [gathered]
      simp only [filled, none, List.replicate_zero, List.append_nil]
      rw [← List.append_assoc, List.take_append_drop]
    · have filling : 0 < stream.length := List.length_pos_iff.mpr (not_or.mp some).1
      refine ⟨5 - stream.length, by omega, ?_⟩
      rw [List.drop_eq_nil_of_le short, pieces_nil]
      simp only [filled, List.take_of_length_le short, List.map_nil, List.flatMap_nil, List.append_nil]

/-- Bytes hold the bits that they were gathered from, up to the last whole byte. -/
theorem bits_whole (stream : List Bool) :
    (((pieces 8 stream).filter (fun piece => piece.length = 8)).map ofBits).flatMap (bits 8) =
      stream.take (8 * (stream.length / 8)) := by
  fun_induction pieces 8 stream with
  | case1 stream none =>
    obtain rfl : stream = [] := none.resolve_right (by decide)
    rfl
  | case2 stream some ih =>
    rcases Nat.lt_or_ge stream.length 8 with short | long
    · have partly : (stream.take 8).length ≠ 8 := by
        rw [List.length_take]
        omega
      have none : stream.length / 8 = 0 := Nat.div_eq_of_lt short
      rw [List.filter_cons_of_neg (by simpa using partly), List.drop_eq_nil_of_le (Nat.le_of_lt short), pieces_nil, none]
      rfl
    · have whole : (stream.take 8).length = 8 := List.length_take_of_le long
      have back : bits 8 (ofBits (stream.take 8)) = stream.take 8 := by
        have read : bits (stream.take 8).length (ofBits (stream.take 8)) = stream.take 8 := bits_ofBits (by omega)
        rwa [whole] at read
      have rest : 8 * (stream.length / 8) = 8 + 8 * ((stream.drop 8).length / 8) := by
        rw [List.length_drop]
        omega
      rw [List.filter_cons_of_pos (by simpa using whole), List.map_cons, List.flatMap_cons, back, ih, rest]
      exact List.take_add.symm

private theorem length_flatMap_bits (width : Nat) (values : List UInt8) :
    (values.flatMap (bits width)).length = width * values.length := by
  simp only [List.length_flatMap, length_bits, List.map_const', List.sum_replicate_nat, Nat.mul_comm]

private theorem bytes_of_bits {first second : Bytes} (same : first.flatMap (bits 8) = second.flatMap (bits 8)) :
    first = second := by
  induction first generalizing second with
  | nil =>
    have lengths := congrArg List.length same
    rw [length_flatMap_bits, length_flatMap_bits, List.length_nil] at lengths
    have none : second.length = 0 := by omega
    exact (List.eq_nil_of_length_eq_zero none).symm
  | cons byte rest ih =>
    cases second with
    | nil =>
      have lengths := congrArg List.length same
      rw [length_flatMap_bits, length_flatMap_bits] at lengths
      cases lengths
    | cons other others =>
      rw [List.flatMap_cons, List.flatMap_cons] at same
      obtain ⟨front, back⟩ := List.append_inj same (by rw [length_bits, length_bits])
      rw [← ofBits_bits byte, front, ofBits_bits, ih back]

/-- Groups are read as the bytes whose bits theirs begin with, as many as they have bits for. -/
theorem ofGroups_eq_iff {groups : List UInt8} {bytes : Bytes} :
    ofGroups groups = bytes ↔
      bytes.length = 5 * groups.length / 8 ∧ bytes.flatMap (bits 8) <+: groups.flatMap (bits 5) := by
  have read : (ofGroups groups).flatMap (bits 8) =
      (groups.flatMap (bits 5)).take (8 * ((groups.flatMap (bits 5)).length / 8)) := bits_whole _
  rw [length_flatMap_bits] at read
  constructor
  · rintro rfl
    refine ⟨?_, read ▸ List.take_prefix _ _⟩
    have lengths := congrArg List.length read
    rw [length_flatMap_bits, List.length_take, length_flatMap_bits] at lengths
    omega
  · rintro ⟨length, begins⟩
    have shown := List.prefix_iff_eq_take.mp begins
    rw [length_flatMap_bits, length, ← read] at shown
    exact (bytes_of_bits shown).symm

theorem toGroups_bits (bytes : Bytes) :
    ∃ filling < 5, (toGroups bytes).flatMap (bits 5) = bytes.flatMap (bits 8) ++ List.replicate filling false :=
  bits_gathered _

theorem length_toGroups (bytes : Bytes) : (toGroups bytes).length = (8 * bytes.length + 4) / 5 := by
  obtain ⟨filling, less, gathered⟩ := toGroups_bits bytes
  have lengths := congrArg List.length gathered
  rw [List.length_append, List.length_replicate, length_flatMap_bits, length_flatMap_bits] at lengths
  omega

private theorem length_of_mem_pieces {size : Nat} {items piece : List α} (member : piece ∈ pieces size items) :
    piece.length ≤ size := by
  fun_induction pieces size items with
  | case1 => cases member
  | case2 items some ih =>
    rcases List.mem_cons.mp member with rfl | later
    · exact List.length_take_le _ _
    · exact ih later

theorem lt_of_mem_toGroups {bytes : Bytes} {group : UInt8} (member : group ∈ toGroups bytes) : group < 32 := by
  obtain ⟨piece, cut, rfl⟩ := List.mem_map.mp member
  have short := length_of_mem_pieces cut
  refine ofBits_lt ?_
  rw [List.length_append, List.length_replicate]
  omega

end Bech32

end ContractHost
