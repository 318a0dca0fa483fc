import Mathlib.Data.Nat.Bitwise
import ContractHost.Bech32

/-! The checksum of base-32 texts. Taking in a group is linear in exclusive or, so that the six groups of a checksum
change the residue by what they come to on their own, and on their own they come to the number that they were cut
from. -/

namespace ContractHost

namespace Bech32

private theorem xor_and (first second mask : UInt32) :
    (first ^^^ second) &&& mask = (first &&& mask) ^^^ (second &&& mask) := by
  apply UInt32.toNat_inj.mp
  simp only [UInt32.toNat_and, UInt32.toNat_xor, Nat.and_xor_distrib_right]

private theorem low_bit (value : UInt32) : value &&& 1 = 0 ∨ value &&& 1 = 1 := by
  have bit : (value &&& 1).toNat = value.toNat % 2 := by
    rw [UInt32.toNat_and]
    exact Nat.and_one_is_mod _
  rcases Nat.mod_two_eq_zero_or_one value.toNat with even | odd
  · exact .inl (UInt32.toNat_inj.mp (bit.trans even))
  · exact .inr (UInt32.toNat_inj.mp (bit.trans odd))

/-- What a generator adds to a residue as its bit is shifted out. -/
def spilled (residue : UInt32) (generator : UInt32 × Nat) : UInt32 :=
  if (residue >>> 25 >>> generator.2.toUInt32) &&& 1 = 1 then generator.1 else 0

/-- The residue with the next group shifted in, before anything is added for what is shifted out. -/
def shifted (residue : UInt32) (group : UInt8) : UInt32 := ((residue &&& 0x1ffffff) <<< 5) ^^^ group.toUInt32

private theorem feed_eq (residue : UInt32) (group : UInt8) :
    feed residue group =
      generators.zipIdx.foldl (fun current generator => current ^^^ spilled residue generator) (shifted residue group) := by
  rw [feed, shifted]
  congr 1
  funext current generator
  rw [spilled]
  split
  · rfl
  · exact UInt32.xor_zero.symm

private theorem spilled_xor (first second : UInt32) (generator : UInt32 × Nat) :
    spilled (first ^^^ second) generator = spilled first generator ^^^ spilled second generator := by
  simp only [spilled, UInt32.shiftRight_xor, xor_and]
  rcases low_bit (first >>> 25 >>> generator.2.toUInt32) with one | one <;>
    rcases low_bit (second >>> 25 >>> generator.2.toUInt32) with other | other <;> simp [one, other]

private theorem shifted_xor (first second : UInt32) (group other : UInt8) :
    shifted (first ^^^ second) (group ^^^ other) = shifted first group ^^^ shifted second other := by
  simp only [shifted, xor_and, UInt32.shiftLeft_xor, UInt8.toUInt32_xor]
  ac_rfl

private theorem foldl_xor {α : Type} (first second : α → UInt32) (items : List α) (one other : UInt32) :
    items.foldl (fun current item => current ^^^ (first item ^^^ second item)) (one ^^^ other) =
      items.foldl (fun current item => current ^^^ first item) one ^^^
        items.foldl (fun current item => current ^^^ second item) other := by
  induction items generalizing one other with
  | nil => rfl
  | cons item rest ih =>
    have regrouped : one ^^^ other ^^^ (first item ^^^ second item) = one ^^^ first item ^^^ (other ^^^ second item) := by
      ac_rfl
    rw [List.foldl_cons, List.foldl_cons, List.foldl_cons, regrouped]
    exact ih _ _

private theorem feed_xor (first second : UInt32) (group other : UInt8) :
    feed (first ^^^ second) (group ^^^ other) = feed first group ^^^ feed second other := by
  simp only [feed_eq, spilled_xor, shifted_xor]
  exact foldl_xor (spilled first) (spilled second) _ _ _

/-- Groups come to the same over any residue, up to what that residue comes to without them. -/
theorem foldl_feed_xor (first second : UInt32) (groups : List UInt8) :
    groups.foldl feed (first ^^^ second) =
      (List.replicate groups.length 0).foldl feed first ^^^ groups.foldl feed second := by
  induction groups generalizing first second with
  | nil => rfl
  | cons group rest ih =>
    have stepped := feed_xor first second 0 group
    rw [UInt8.zero_xor] at stepped
    rw [List.foldl_cons, stepped, ih]
    rfl

private theorem xor_lt {first second : UInt32} (one : first.toNat < 2 ^ 30) (other : second.toNat < 2 ^ 30) :
    (first ^^^ second).toNat < 2 ^ 30 := by
  rw [UInt32.toNat_xor]
  exact Nat.xor_lt_two_pow one other

private theorem toNat_kept (residue : UInt32) :
    ((residue &&& 0x1ffffff) <<< 5).toNat = residue.toNat % 2 ^ 25 * 2 ^ 5 := by
  have low : (residue &&& 0x1ffffff).toNat = residue.toNat % 2 ^ 25 := by
    rw [UInt32.toNat_and]
    exact Nat.and_two_pow_sub_one_eq_mod _ 25
  have fits : residue.toNat % 2 ^ 25 < 2 ^ 25 := Nat.mod_lt _ (by decide)
  rw [UInt32.toNat_shiftLeft, low, Nat.shiftLeft_eq]
  exact Nat.mod_eq_of_lt (by change _ * 2 ^ 5 < 2 ^ 32; omega)

private theorem shifted_lt (residue : UInt32) (group : UInt8) : (shifted residue group).toNat < 2 ^ 30 := by
  have kept := toNat_kept residue
  have low : residue.toNat % 2 ^ 25 < 2 ^ 25 := Nat.mod_lt _ (by decide)
  have small : group.toUInt32.toNat < 2 ^ 8 := by
    rw [UInt8.toNat_toUInt32]
    exact group.toNat_lt
  exact xor_lt (by omega) (by omega)

private theorem spilled_lt (residue : UInt32) {generator : UInt32 × Nat} (member : generator ∈ generators.zipIdx) :
    (spilled residue generator).toNat < 2 ^ 30 := by
  have bounded : ∀ generator ∈ generators.zipIdx, generator.1.toNat < 2 ^ 30 := by decide
  rw [spilled]
  split
  · exact bounded generator member
  · decide

private theorem feed_lt (residue : UInt32) (group : UInt8) : (feed residue group).toNat < 2 ^ 30 := by
  rw [feed_eq]
  refine List.foldlRecOn (motive := fun (current : UInt32) => current.toNat < 2 ^ 30) generators.zipIdx _
    (shifted_lt residue group) ?_
  exact fun current below generator member => xor_lt below (spilled_lt residue member)

private theorem residue_lt (groups : List UInt8) : (residue groups).toNat < 2 ^ 30 :=
  List.foldlRecOn (motive := fun (current : UInt32) => current.toNat < 2 ^ 30) groups feed (by decide)
    (fun current _ group _ => feed_lt current group)

private theorem spilled_small {residue : UInt32} (small : residue.toNat < 2 ^ 25) (generator : UInt32 × Nat) :
    spilled residue generator = 0 := by
  have none : residue >>> 25 = 0 := by
    apply UInt32.toNat_inj.mp
    rw [UInt32.toNat_shiftRight]
    exact Nat.shiftRight_eq_zero _ _ small
  rw [spilled, none, UInt32.zero_shiftRight]
  rfl

private theorem toNat_group (value : UInt32) : (value &&& 31).toUInt8.toUInt32.toNat = value.toNat % 2 ^ 5 := by
  have low : (value &&& 31).toNat = value.toNat % 2 ^ 5 := by
    rw [UInt32.toNat_and]
    exact Nat.and_two_pow_sub_one_eq_mod _ 5
  rw [UInt8.toNat_toUInt32, UInt32.toNat_toUInt8, low]
  omega

private theorem low_group_xor (value : Nat) : (value / 2 ^ 5 * 2 ^ 5) ^^^ (value % 2 ^ 5) = value := by
  apply Nat.eq_of_testBit_eq
  intro index
  rw [Nat.testBit_xor, Nat.testBit_mul_two_pow, Nat.testBit_mod_two_pow, Nat.testBit_div_two_pow]
  rcases Nat.lt_or_ge index 5 with low | high
  · simp only [Nat.not_le.mpr low, low, decide_false, decide_true, Bool.false_and, Bool.true_and, Bool.false_bne]
  · simp only [high, Nat.not_lt.mpr high, decide_false, decide_true, Bool.false_and, Bool.true_and, Bool.bne_false,
      Nat.sub_add_cancel high]

private theorem toNat_high (value : UInt32) : (value >>> 5).toNat = value.toNat / 2 ^ 5 := by
  rw [UInt32.toNat_shiftRight]
  exact Nat.shiftRight_eq_div_pow _ 5

/-- A number that is short enough is rebuilt from its high bits by its last group. -/
theorem feed_low (value : UInt32) (short : value.toNat < 2 ^ 30) : feed (value >>> 5) (value &&& 31).toUInt8 = value := by
  have high := toNat_high value
  have small : (value >>> 5).toNat < 2 ^ 25 := by omega
  have plain : shifted (value >>> 5) (value &&& 31).toUInt8 = value := by
    apply UInt32.toNat_inj.mp
    rw [shifted, UInt32.toNat_xor, toNat_kept, toNat_group, Nat.mod_eq_of_lt small, high]
    exact low_group_xor value.toNat
  rw [feed_eq, plain]
  refine List.foldlRecOn (motive := (· = value)) generators.zipIdx _ rfl ?_
  rintro _ rfl generator -
  rw [spilled_small small]
  exact UInt32.xor_zero

/-- The last groups of a number, highest first. -/
def cut (value : UInt32) : Nat → List UInt8
  | 0 => []
  | count + 1 => cut (value >>> 5) count ++ [(value &&& 31).toUInt8]

private theorem foldl_feed_cut {value : UInt32} (short : value.toNat < 2 ^ 30) {count : Nat}
    (enough : value.toNat < 2 ^ (5 * count)) : (cut value count).foldl feed 0 = value := by
  induction count generalizing value with
  | zero =>
    have none : value.toNat = 0 := by omega
    exact (UInt32.toNat_inj.mp none).symm
  | succ count ih =>
    have high : (value >>> 5).toNat = value.toNat / 2 ^ 5 := toNat_high value
    have fewer : (value >>> 5).toNat < 2 ^ (5 * count) := by
      rw [high]
      exact Nat.div_lt_of_lt_mul (by rwa [← Nat.pow_add, Nat.add_comm])
    have still : (value >>> 5).toNat < 2 ^ 30 := by omega
    rw [cut, List.foldl_append, ih still fewer]
    exact feed_low value short

private theorem checksum_eq (label : List Char) (groups : List UInt8) :
    checksum label groups =
      cut (residue (expand label ++ groups ++ List.replicate 6 0) ^^^ modifiedResidue) 6 := by
  have further (shift : UInt32) (inside : shift.toNat < 27) (value : UInt32) :
      value >>> shift >>> 5 = value >>> (shift + 5) := by
    apply UInt32.toNat_inj.mp
    have sum : (shift + 5).toNat = shift.toNat + 5 := by
      rw [UInt32.toNat_add]
      exact Nat.mod_eq_of_lt (Nat.lt_of_lt_of_le (Nat.add_lt_add_right inside 5) (by decide))
    rw [UInt32.toNat_shiftRight, UInt32.toNat_shiftRight, UInt32.toNat_shiftRight, sum,
      Nat.mod_eq_of_lt (show shift.toNat < 32 by omega), Nat.mod_eq_of_lt (show shift.toNat + 5 < 32 by omega)]
    exact (Nat.shiftRight_add _ _ _).symm
  have ten : ∀ value : UInt32, value >>> 5 >>> 5 = value >>> 10 := further 5 (by decide)
  have fifteen : ∀ value : UInt32, value >>> 10 >>> 5 = value >>> 15 := further 10 (by decide)
  have twenty : ∀ value : UInt32, value >>> 15 >>> 5 = value >>> 20 := further 15 (by decide)
  have last : ∀ value : UInt32, value >>> 20 >>> 5 = value >>> 25 := further 20 (by decide)
  simp only [checksum, cut, ten, fifteen, twenty, last, List.map_cons, List.map_nil, UInt32.shiftRight_zero]
  rfl

theorem lt_of_mem_checksum {label : List Char} {groups : List UInt8} {group : UInt8}
    (member : group ∈ checksum label groups) : group < 32 := by
  obtain ⟨shift, -, rfl⟩ := List.mem_map.mp member
  rw [UInt8.lt_iff_toNat_lt, ← UInt8.toNat_toUInt32, toNat_group]
  exact Nat.mod_lt _ (by decide)

/-- The checksum brings the residue of every text to that of a valid one. -/
theorem residue_checksum (label : List Char) (groups : List UInt8) :
    residue (expand label ++ groups ++ checksum label groups) = modifiedResidue := by
  let bare := residue (expand label ++ groups ++ List.replicate 6 0)
  have short : (bare ^^^ modifiedResidue).toNat < 2 ^ 30 := xor_lt (residue_lt _) (by decide)
  have taken : (checksum label groups).foldl feed 0 = bare ^^^ modifiedResidue := by
    rw [checksum_eq]
    exact foldl_feed_cut short short
  have split := foldl_feed_xor (residue (expand label ++ groups)) 0 (checksum label groups)
  rw [UInt32.xor_zero, taken] at split
  have zeros : (List.replicate (checksum label groups).length 0).foldl feed (residue (expand label ++ groups)) = bare :=
    List.foldl_append.symm
  rw [residue, List.foldl_append]
  calc (checksum label groups).foldl feed (residue (expand label ++ groups))
      = bare ^^^ (bare ^^^ modifiedResidue) := by rw [split, zeros]
    _ = modifiedResidue := by rw [← UInt32.xor_assoc, UInt32.xor_self, UInt32.zero_xor]

end Bech32

end ContractHost
