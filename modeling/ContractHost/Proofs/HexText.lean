import Mathlib.Data.List.Induction
import ContractHost.Address.Text

/-! Hexadecimal text. It is read as the bytes whose digits it has in either case, so that what is written of a byte string
is read back. -/

namespace ContractHost

namespace Hex

/-- The values of the two digits of a byte. -/
def halves (byte : UInt8) : List UInt8 := [byte / 16, byte % 16]

theorem map_digit_halves (bytes : Bytes) :
    (bytes.flatMap halves).map (fun value => digit value.toNat) = bytes.flatMap byteDigits := by
  rw [List.map_flatMap]
  rfl

theorem length_halves (bytes : Bytes) : (bytes.flatMap halves).length = 2 * bytes.length := by
  simp only [List.length_flatMap, halves, List.length_cons, List.length_nil, List.map_const', List.sum_replicate_nat,
    Nat.mul_comm]

private theorem half_lt {bytes : Bytes} {value : UInt8} (member : value ∈ bytes.flatMap halves) : value.toNat < 16 := by
  obtain ⟨byte, -, half⟩ := List.mem_flatMap.mp member
  have fits := byte.toNat_lt
  rcases List.mem_cons.mp half with rfl | half
  · rw [UInt8.toNat_div]
    exact Nat.div_lt_of_lt_mul fits
  · rw [List.mem_singleton.mp half, UInt8.toNat_mod]
    exact Nat.mod_lt _ (by decide)

private theorem halves_whole {first second : UInt8} (high : first.toNat < 16) (low : second.toNat < 16) :
    halves (first * 16 + second) = [first, second] := by
  have sum : (first * 16 + second).toNat = first.toNat * 16 + second.toNat := by
    rw [UInt8.toNat_add, UInt8.toNat_mul]
    change (first.toNat * 16 % 256 + second.toNat) % 256 = _
    omega
  have front : (first * 16 + second) / 16 = first := by
    apply UInt8.toNat_inj.mp
    rw [UInt8.toNat_div, sum]
    change (first.toNat * 16 + second.toNat) / 16 = _
    omega
  have back : (first * 16 + second) % 16 = second := by
    apply UInt8.toNat_inj.mp
    rw [UInt8.toNat_mod, sum]
    change (first.toNat * 16 + second.toNat) % 16 = _
    omega
  rw [halves, front, back]

private theorem whole_halves (byte : UInt8) : byte / 16 * 16 + byte % 16 = byte := by
  apply UInt8.toNat_inj.mp
  have fits := byte.toNat_lt
  rw [UInt8.toNat_add, UInt8.toNat_mul, UInt8.toNat_div, UInt8.toNat_mod]
  change (byte.toNat / 16 * 16 % 256 + byte.toNat % 16) % 256 = _
  omega

private theorem digitValue?_lt {byte value : UInt8} (read : digitValue? byte = some value) : value.toNat < 16 := by
  have all : ∀ number < 256, ∀ value ∈ digitValue? (UInt8.ofNat number), value.toNat < 16 := by decide +kernel
  have this := all byte.toNat byte.toNat_lt
  rw [UInt8.ofNat_toNat] at this
  exact this value read

private theorem decodePairs_cons_iff {position : Nat} {high low : UInt8} {rest bytes : Bytes} :
    decodePairs position (high :: low :: rest) = .ok bytes ↔
      ∃ first second others, digitValue? high = some first ∧ digitValue? low = some second ∧
        decodePairs (position + 2) rest = .ok others ∧ bytes = (first * 16 + second) :: others := by
  rw [decodePairs, digitAt, digitAt]
  cases digitValue? high with
  | none => exact ⟨nofun, fun ⟨_, _, _, absurd, _⟩ => nomatch absurd⟩
  | some first =>
    cases digitValue? low with
    | none => exact ⟨nofun, fun ⟨_, _, _, _, absurd, _⟩ => nomatch absurd⟩
    | some second =>
      cases decodePairs (position + 2) rest with
      | error fault => exact ⟨nofun, fun ⟨_, _, _, _, _, absurd, _⟩ => nomatch absurd⟩
      | ok others =>
        constructor
        · intro reads
          cases reads
          exact ⟨first, second, others, rfl, rfl, rfl, rfl⟩
        · rintro ⟨_, _, _, ⟨⟩, ⟨⟩, ⟨⟩, rfl⟩
          rfl

/-- An even number of digits is read as the bytes that they are the halves of. -/
theorem decodePairs_iff {position : Nat} {text bytes : Bytes} (even : text.length % 2 = 0) :
    decodePairs position text = .ok bytes ↔ text.map digitValue? = (bytes.flatMap halves).map some := by
  induction text using List.twoStepInduction generalizing position bytes with
  | nil =>
    constructor
    · rintro ⟨⟩
      rfl
    · intro shows
      cases bytes with
      | nil => rfl
      | cons => cases shows
  | singleton => cases even
  | cons_cons high low rest ih =>
    have fewer : rest.length % 2 = 0 := by
      rw [List.length_cons, List.length_cons] at even
      omega
    rw [decodePairs_cons_iff]
    constructor
    · rintro ⟨first, second, others, one, other, reads, rfl⟩
      rw [List.map_cons, List.map_cons, one, other, (ih fewer).mp reads, List.flatMap_cons,
        halves_whole (digitValue?_lt one) (digitValue?_lt other)]
      rfl
    · intro shows
      cases bytes with
      | nil => cases shows
      | cons byte others =>
        obtain ⟨one, shows⟩ := List.cons.inj shows
        obtain ⟨other, shows⟩ := List.cons.inj shows
        exact ⟨byte / 16, byte % 16, others, one, other, (ih fewer).mpr shows, by rw [whole_halves]⟩

/-- Outside ASCII no character starts with a digit's byte. -/
theorem digitValue?_high {char : Char} (high : 128 ≤ char.toNat) :
    ∃ byte rest, String.utf8EncodeChar char = byte :: rest ∧ digitValue? byte = none := by
  have none : ∀ number < 256, 128 ≤ number → digitValue? (UInt8.ofNat number) = none := by decide +kernel
  change 128 ≤ char.val.toNat at high
  have past : ¬char.val.toNat ≤ 127 := by omega
  rw [String.utf8EncodeChar]
  simp only [past, if_false]
  split
  · exact ⟨_, _, rfl, none _ (by omega) (by omega)⟩
  split
  · exact ⟨_, _, rfl, none _ (by omega) (by omega)⟩
  · exact ⟨_, _, rfl, none _ (by omega) (by omega)⟩

theorem toLower_of_isUpper {char : Char} (lower : char.isUpper = false) : char.toLower = char :=
  dif_neg (of_decide_eq_false lower)

private theorem toLower_high {char : Char} (high : 128 ≤ char.toNat) : char.toLower = char := by
  refine toLower_of_isUpper (decide_eq_false ?_)
  rintro ⟨-, last⟩
  have fits : char.toNat ≤ 90 := last
  omega

/-- A text is read as digits that are its own in lower case. -/
theorem digits_iff {text : List Char} {values : List UInt8} (small : ∀ value ∈ values, value.toNat < 16) :
    (text.flatMap String.utf8EncodeChar).map digitValue? = values.map some ↔
      text.map Char.toLower = values.map (fun value => digit value.toNat) := by
  induction text generalizing values with
  | nil => cases values <;> simp
  | cons char rest ih =>
    rw [List.flatMap_cons, List.map_append, List.map_cons]
    rcases Nat.lt_or_ge char.toNat 128 with low | high
    · have ascii : ∀ number < 128, String.utf8EncodeChar (Char.ofNat number) = [UInt8.ofNat number] := by decide
      have read : ∀ number < 128, ∀ value < 16, digitValue? (UInt8.ofNat number) = some (UInt8.ofNat value) ↔
          (Char.ofNat number).toLower = digit value := by decide +kernel
      have encoded := ascii char.toNat low
      rw [Char.ofNat_toNat] at encoded
      cases values with
      | nil => simp [encoded]
      | cons value values =>
        have alike := read char.toNat low value.toNat (small value List.mem_cons_self)
        rw [Char.ofNat_toNat, UInt8.ofNat_toNat] at alike
        have others := ih (fun value member => small value (List.mem_cons_of_mem _ member))
        rw [encoded, List.map_singleton, List.singleton_append, List.map_cons, List.map_cons, List.cons.injEq,
          List.cons.injEq, alike, others]
    · obtain ⟨byte, bytes, encoded, none⟩ := digitValue?_high high
      have digits : ∀ value < 16, (digit value).toNat < 128 := by decide
      rw [encoded, toLower_high high]
      cases values with
      | nil => simp
      | cons value values =>
        have shown := digits value.toNat (small value List.mem_cons_self)
        constructor
        · intro reads
          cases none.symm.trans (List.cons.inj reads).1
        · intro shows
          have same : char = digit value.toNat := (List.cons.inj shows).1
          rw [← same] at shown
          omega

private theorem digit_of_mem {bytes : Bytes} {char : Char} (member : char ∈ bytes.flatMap byteDigits) :
    ∃ number < 16, digit number = char := by
  rw [← map_digit_halves] at member
  obtain ⟨value, half, shown⟩ := List.mem_map.mp member
  exact ⟨value.toNat, half_lt half, shown⟩

private theorem lower_digits (bytes : Bytes) :
    (bytes.flatMap byteDigits).map Char.toLower = bytes.flatMap byteDigits := by
  have lower : ∀ number < 16, (digit number).toLower = digit number := by decide
  refine (List.map_congr_left (fun char member => ?_)).trans (List.map_id _)
  obtain ⟨number, small, rfl⟩ := digit_of_mem member
  exact lower number small

/-- Digits that were raised to upper case are the same ones in lower case. -/
theorem lower_raised (raised : Nat → Bool) (bytes : Bytes) :
    ((bytes.flatMap byteDigits).mapIdx (fun index char => if raised index then char.toUpper else char)).map
      Char.toLower = bytes.flatMap byteDigits := by
  have back : ∀ number < 16, (digit number).toUpper.toLower = digit number ∧ (digit number).toLower = digit number := by
    decide
  refine List.ext_getElem (by rw [List.length_map, List.length_mapIdx]) (fun index _ inside => ?_)
  obtain ⟨number, small, same⟩ := digit_of_mem (List.getElem_mem inside)
  rw [List.getElem_map, List.getElem_mapIdx, ← same]
  split
  · exact (back number small).1
  · exact (back number small).2

end Hex

namespace Address

theorem ofBytes_iff {bytes : Bytes} {address : Address} : ofBytes bytes = .ok address ↔ bytes = address.bytes := by
  rw [ofBytes]
  split
  next exact => exact ⟨fun same => congrArg Address.bytes (Except.ok.inj same), fun same => by subst same; rfl⟩
  next other => exact ⟨nofun, fun same => absurd (same ▸ address.length_eq) other⟩

theorem ofHexDigits_iff {digits : List Char} {address : Address} :
    ofHexDigits digits = .ok address ↔ digits.map Char.toLower = address.bytes.flatMap Hex.byteDigits := by
  have reads {bytes : Bytes} : Hex.decode (Bytes.ofText (String.ofList digits)) = .ok bytes ↔
      digits.map Char.toLower = bytes.flatMap Hex.byteDigits := by
    rw [Hex.decode, Bytes.ofText, String.toList_ofList, ← Hex.map_digit_halves,
      ← Hex.digits_iff (fun _ => Hex.half_lt)]
    split
    next even => exact Hex.decodePairs_iff even
    next odd =>
      refine ⟨nofun, fun shows => absurd ?_ odd⟩
      have lengths := congrArg List.length shows
      rw [List.length_map, List.length_map, Hex.length_halves] at lengths
      omega
  rw [ofHexDigits, ← reads]
  cases Hex.decode (Bytes.ofText (String.ofList digits)) with
  | error fault => exact ⟨nofun, nofun⟩
  | ok bytes =>
    rw [Except.ok.injEq]
    exact ofBytes_iff

theorem parse_toHex (address : Address) : parse address.toHex = .ok address := by
  have form : address.toHex.toList = '0' :: 'x' :: address.bytes.flatMap Hex.byteDigits := by
    rw [toHex, Hex.encode, String.toList_append]
    simp only [String.toList_ofList]
    rfl
  simp only [parse, form]
  exact ofHexDigits_iff.mpr (Hex.lower_digits address.bytes)

end Address

end ContractHost
