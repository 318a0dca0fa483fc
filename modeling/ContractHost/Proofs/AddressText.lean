import ContractHost.Proofs.Bech32Checksum
import ContractHost.Proofs.BitGroups
import ContractHost.Proofs.HexText

/-! The texts that name an address. They are the hexadecimal ones, in any case, and the checksummed ones in lower case,
and nothing else is read; what is written of an address is among them. -/

namespace ContractHost

namespace Bech32

private theorem digitValue?_digit : ∀ group < 32, digitValue? (digit group) = some group := by
  have all : ∀ number < 32, digitValue? (digit (UInt8.ofNat number)) = some (UInt8.ofNat number) := by decide
  intro group small
  have this := all group.toNat small
  rwa [UInt8.ofNat_toNat] at this

private theorem digit_plain : ∀ group < 32, (digit group).toLower = digit group ∧ (digit group).isUpper = false ∧
    digit group ≠ '1' := by
  have all : ∀ number < 32, (digit (UInt8.ofNat number)).toLower = digit (UInt8.ofNat number) ∧
      (digit (UInt8.ofNat number)).isUpper = false ∧ digit (UInt8.ofNat number) ≠ '1' := by decide
  intro group small
  have this := all group.toNat small
  rwa [UInt8.ofNat_toNat] at this

private theorem digit_of_digitValue? {char : Char} {group : UInt8} (read : digitValue? char = some group) :
    group < 32 ∧ char = digit group := by
  obtain ⟨index, found, rfl⟩ := Option.map_eq_some_iff.mp read
  obtain ⟨inside, same, -⟩ := List.idxOf?_eq_some_iff.mp found
  have length : alphabet.length = 32 := by decide
  have value : (UInt8.ofNat index).toNat = index := UInt8.toNat_ofNat_of_lt' (by change index < 256; omega)
  refine ⟨?_, ?_⟩
  · rw [UInt8.lt_iff_toNat_lt, value]
    rwa [length] at inside
  · rw [digit, value, List.getD_eq_getElem _ _ inside, same]

private theorem mapM_iff {read : α → Option β} {items : List α} {values : List β} :
    items.mapM read = some values ↔ items.map read = values.map some := by
  induction items generalizing values with
  | nil => cases values <;> simp
  | cons item rest ih =>
    rw [List.mapM_cons, List.map_cons]
    cases values with
    | nil => cases read item <;> cases rest.mapM read <;> simp
    | cons value values =>
      rw [List.map_cons, List.cons.injEq, ← ih]
      cases read item <;> cases rest.mapM read <;> simp

private theorem digits_read {data : List Char} {groups : List UInt8}
    (read : data.map (fun char => digitValue? char.toLower) = groups.map some) :
    data.map Char.toLower = groups.map digit ∧ ∀ group ∈ groups, group < 32 := by
  induction data generalizing groups with
  | nil =>
    cases groups with
    | nil => exact ⟨rfl, nofun⟩
    | cons => cases read
  | cons char rest ih =>
    cases groups with
    | nil => cases read
    | cons group groups =>
      obtain ⟨first, others⟩ := List.cons.inj read
      obtain ⟨small, same⟩ := digit_of_digitValue? first
      obtain ⟨shown, smaller⟩ := ih others
      exact ⟨congrArg₂ List.cons same shown, List.forall_mem_cons.mpr ⟨small, smaller⟩⟩

/-- A text is split at its last one. -/
theorem split_eq {label data : List Char} (plain : '1' ∉ data) :
    split (label ++ '1' :: data) =
      match data.mapM (fun char => digitValue? char.toLower) with
      | some groups =>
        if mixedCase (label ++ '1' :: data) || !labelAllowed label then .error .malformed else .ok (label, groups)
      | none => .error .malformed := by
  have back : (label ++ '1' :: data).reverse = data.reverse ++ '1' :: label.reverse := by simp
  have passes : ∀ char ∈ data.reverse, (char != '1') = true := by
    intro char member
    rw [bne_iff_ne]
    rintro rfl
    exact plain (List.mem_reverse.mp member)
  have front : (data.reverse ++ '1' :: label.reverse).takeWhile (· != '1') = data.reverse := by
    rw [List.takeWhile_append_of_pos passes]
    exact List.append_nil _
  have rest : (data.reverse ++ '1' :: label.reverse).dropWhile (· != '1') = '1' :: label.reverse :=
    List.dropWhile_append_of_pos passes
  simp only [split, back, front, rest, List.reverse_reverse]
  cases data.mapM (fun char => digitValue? char.toLower) with
  | none => rfl
  | some groups =>
    simp only [List.reverse_reverse]
    split <;> rfl

private theorem of_split {text label found data : List Char} {groups : List UInt8} (parts : text = found ++ '1' :: data)
    (plain : '1' ∉ data) (splits : split text = .ok (label, groups)) :
    found = label ∧ data.map (fun char => digitValue? char.toLower) = groups.map some ∧ mixedCase text = false := by
  rw [parts, split_eq plain] at splits
  cases read : data.mapM (fun char => digitValue? char.toLower) with
  | none =>
    rw [read] at splits
    cases splits
  | some values =>
    rw [read] at splits
    cases mixed : mixedCase (found ++ '1' :: data) || !labelAllowed found with
    | true =>
      rw [mixed] at splits
      cases splits
    | false =>
      rw [mixed] at splits
      cases splits
      rw [parts]
      exact ⟨rfl, mapM_iff.mp read, (Bool.or_eq_false_iff.mp mixed).1⟩

private theorem exists_last_one {text : List Char} (member : '1' ∈ text) :
    ∃ label data, text = label ++ '1' :: data ∧ '1' ∉ data := by
  obtain ⟨data, label, back, plain⟩ := List.eq_append_cons_of_mem (List.mem_reverse.mpr member)
  refine ⟨label.reverse, data.reverse, ?_, fun absurd => plain (List.mem_reverse.mp absurd)⟩
  rw [← List.reverse_reverse text, back]
  simp

private theorem decode_eq {text : String} {label : List Char} {groups : List UInt8}
    (splits : split text.toList = .ok (label, groups)) :
    decode text =
      if longest < text.length ∨ groups.length < 6 then .error .checksum
      else if residue (expand (label.map Char.toLower) ++ groups) ≠ modifiedResidue ∧
          residue (expand (label.map Char.toLower) ++ groups) ≠ plainResidue then .error .checksum
      else .ok (String.ofList label, ofGroups (groups.take (groups.length - 6))) := by
  simp only [decode, splits, Bind.bind, Except.bind, Bool.or_eq_true, Bool.and_eq_true, decide_eq_true_eq]
  split
  · rfl
  · split <;> rfl

/-- A text that is not in mixed case and has a lower-case letter has no other ones. -/
theorem toLower_of_mixedCase {text : List Char} (mixed : mixedCase text = false) (lower : text.any Char.isLower = true)
    {char : Char} (member : char ∈ text) : char.toLower = char := by
  have none : text.any Char.isUpper = false := by
    rwa [mixedCase, lower, Bool.and_true] at mixed
  exact Hex.toLower_of_isUpper (Bool.eq_false_of_not_eq_true (List.any_eq_false.mp none char member))

end Bech32

namespace Address

open Bech32 (digit bits residue expand)

/-- Five-bit groups that begin with the bits of the address and end with a checksum of either form. The bits that fill up
the last group before the checksum may be any. -/
structure Spelled (address : Address) (groups : List UInt8) : Prop where
  length : groups.length = 58
  small : ∀ group ∈ groups, group < 32
  begins : address.bytes.flatMap (bits 8) <+: (groups.take 52).flatMap (bits 5)
  checked : residue (expand label.toList ++ groups) = Bech32.modifiedResidue ∨
    residue (expand label.toList ++ groups) = Bech32.plainResidue

private theorem length_of_digits {digits : List Char} {address : Address}
    (shown : digits.map Char.toLower = address.bytes.flatMap Hex.byteDigits) : digits.length = 64 := by
  have lengths := congrArg List.length shown
  rw [← Hex.map_digit_halves, List.length_map, List.length_map, Hex.length_halves, address.length_eq] at lengths
  exact lengths

private theorem ofBech32_of_spelled {text : String} {address : Address} {groups : List UInt8}
    (spelled : address.Spelled groups) (form : text.toList = 'v' :: 'm' :: '1' :: groups.map digit) :
    ofBech32 text = .ok address := by
  obtain ⟨length, small, begins, checked⟩ := spelled
  have digits : ∀ char ∈ groups.map digit, ∃ group < 32, char = digit group := by
    intro char member
    obtain ⟨group, among, rfl⟩ := List.mem_map.mp member
    exact ⟨group, small group among, rfl⟩
  have plain : '1' ∉ groups.map digit := by
    intro member
    obtain ⟨group, less, same⟩ := digits _ member
    exact (Bech32.digit_plain group less).2.2 same.symm
  have read : (groups.map digit).mapM (fun char => Bech32.digitValue? char.toLower) = some groups := by
    rw [Bech32.mapM_iff, List.map_map]
    refine List.map_congr_left (fun group among => ?_)
    rw [Function.comp_apply, (Bech32.digit_plain group (small group among)).1,
      Bech32.digitValue?_digit group (small group among)]
  have lower : text.toList.any Char.isUpper = false := by
    have others : (groups.map digit).any Char.isUpper = false := by
      rw [List.any_eq_false]
      intro char member
      obtain ⟨group, less, rfl⟩ := digits _ member
      rw [(Bech32.digit_plain group less).2.1]
      exact Bool.false_ne_true
    rw [form]
    exact others
  have splits : Bech32.split text.toList = .ok (['v', 'm'], groups) := by
    have whole : text.toList = ['v', 'm'] ++ '1' :: groups.map digit := form
    have mixed : Bech32.mixedCase (['v', 'm'] ++ '1' :: groups.map digit) = false := by
      rw [← whole, Bech32.mixedCase, lower, Bool.false_and]
    rw [whole, Bech32.split_eq plain, read, mixed]
    rfl
  have short : ¬(Bech32.longest < text.length ∨ groups.length < 6) := by
    have long : text.length = 61 := by
      rw [← String.length_toList, form]
      simp only [List.length_cons, List.length_map, length]
    rw [long, length]
    decide
  have right : ¬(residue (expand (['v', 'm'].map Char.toLower) ++ groups) ≠ Bech32.modifiedResidue ∧
      residue (expand (['v', 'm'].map Char.toLower) ++ groups) ≠ Bech32.plainResidue) :=
    fun wrong => checked.elim wrong.1 wrong.2
  have payload : Bech32.ofGroups (groups.take (groups.length - 6)) = address.bytes := by
    rw [length]
    refine Bech32.ofGroups_eq_iff.mpr ⟨?_, begins⟩
    rw [address.length_eq, List.length_take, length]
    rfl
  rw [ofBech32, Bech32.decode_eq splits, if_neg short, if_neg right, payload]
  exact ofBytes_iff.mpr rfl

private theorem spelled_of_ofBech32 {text : String} {address : Address} {rest : List Char}
    (form : text.toList = 'v' :: 'm' :: '1' :: rest) (reads : ofBech32 text = .ok address) :
    ∃ groups, address.Spelled groups ∧ rest = groups.map digit := by
  have one : '1' ∈ text.toList := by simp [form]
  obtain ⟨found, data, parts, plain⟩ := Bech32.exists_last_one one
  rw [ofBech32] at reads
  cases splits : Bech32.split text.toList with
  | error fault => simp [Bech32.decode, splits, Bind.bind, Except.bind] at reads
  | ok read =>
    obtain ⟨prefixed, groups⟩ := read
    obtain ⟨rfl, read, mixed⟩ := Bech32.of_split parts plain splits
    rw [Bech32.decode_eq splits] at reads
    by_cases short : Bech32.longest < text.length ∨ groups.length < 6
    · rw [if_pos short] at reads
      cases reads
    by_cases wrong : residue (expand (found.map Char.toLower) ++ groups) ≠ Bech32.modifiedResidue ∧
        residue (expand (found.map Char.toLower) ++ groups) ≠ Bech32.plainResidue
    · rw [if_neg short, if_pos wrong] at reads
      cases reads
    rw [if_neg short, if_neg wrong] at reads
    dsimp only at reads
    by_cases named : String.ofList found = label
    · rw [if_pos named] at reads
      -- The last one is the first, for a later one would belong to a longer label.
      obtain rfl : found = ['v', 'm'] := by
        have same := congrArg String.toList named
        rwa [String.toList_ofList] at same
      obtain rfl : data = rest := by
        have same : ['v', 'm', '1'] ++ rest = ['v', 'm', '1'] ++ data := form.symm.trans parts
        exact (List.append_cancel_left same).symm
      obtain ⟨shown, small⟩ := Bech32.digits_read read
      have lower : data.map Char.toLower = data := by
        have among : text.toList.any Char.isLower = true := by
          rw [form]
          rfl
        refine (List.map_congr_left (fun char member => ?_)).trans (List.map_id data)
        refine Bech32.toLower_of_mixedCase mixed among ?_
        rw [parts]
        exact List.mem_append_right _ (List.mem_cons_of_mem _ member)
      obtain ⟨length, begins⟩ := Bech32.ofGroups_eq_iff.mp (ofBytes_iff.mp reads)
      have whole : groups.length = 58 := by
        rw [address.length_eq, List.length_take] at length
        omega
      rw [whole] at begins
      refine ⟨groups, ⟨whole, small, begins, ?_⟩, lower.symm.trans shown⟩
      rcases not_and_or.mp wrong with right | right
      · exact .inl (not_not.mp right)
      · exact .inr (not_not.mp right)
    · rw [if_neg named] at reads
      cases reads

/-- Two forms are read and no others: the mark of hexadecimal text in either case and the sixty-four digits of the
address, each in either case, or the label with its separator and the fifty-eight lower-case digits of groups that begin
with the bits of the address and end with a valid checksum. -/
theorem parse_eq_ok_iff (text : String) (address : Address) :
    parse text = .ok address ↔
      (∃ mark digits, (mark = 'x' ∨ mark = 'X') ∧ text.toList = '0' :: mark :: digits ∧ digits.length = 64 ∧
        digits.map Char.toLower = address.bytes.flatMap Hex.byteDigits) ∨
      ∃ groups, address.Spelled groups ∧ text.toList = 'v' :: 'm' :: '1' :: groups.map digit := by
  constructor
  · intro reads
    rw [parse] at reads
    split at reads
    next digits form =>
      exact .inl ⟨'x', digits, .inl rfl, form, length_of_digits (ofHexDigits_iff.mp reads), ofHexDigits_iff.mp reads⟩
    next digits form =>
      exact .inl ⟨'X', digits, .inr rfl, form, length_of_digits (ofHexDigits_iff.mp reads), ofHexDigits_iff.mp reads⟩
    next rest form =>
      obtain ⟨groups, spelled, rfl⟩ := spelled_of_ofBech32 form reads
      exact .inr ⟨groups, spelled, form⟩
    next => cases reads
  · rintro (⟨mark, digits, rfl | rfl, form, -, shown⟩ | ⟨groups, spelled, form⟩)
    · simp only [parse, form]
      exact ofHexDigits_iff.mpr shown
    · simp only [parse, form]
      exact ofHexDigits_iff.mpr shown
    · simp only [parse, form]
      exact ofBech32_of_spelled spelled form

private theorem spelled_encoded (address : Address) :
    let groups := Bech32.toGroups address.bytes
    address.Spelled (groups ++ Bech32.checksum label.toList groups) := by
  intro groups
  have length : groups.length = 52 := by
    rw [Bech32.length_toGroups, address.length_eq]
  refine ⟨?_, ?_, ?_, .inl ?_⟩
  · rw [List.length_append, length]
    rfl
  · intro group member
    rcases List.mem_append.mp member with member | member
    · exact Bech32.lt_of_mem_toGroups member
    · exact Bech32.lt_of_mem_checksum member
  · obtain ⟨filling, -, gathered⟩ := Bech32.toGroups_bits address.bytes
    rw [List.take_left' length, gathered]
    exact List.prefix_append _ _
  · rw [← List.append_assoc]
    exact Bech32.residue_checksum label.toList groups

/-- What is written of an address is read back: the text with a checksum, and the hexadecimal text with its mark and any
of its digits raised to upper case. -/
theorem parse_written (address : Address) (large : Bool) (raised : Nat → Bool) :
    let typed := (Hex.encode address.bytes).toList.mapIdx (fun index char => if raised index then char.toUpper else char)
    parse address.toBech32 = .ok address ∧ parse address.toHex = .ok address ∧
      parse (String.ofList ('0' :: (if large then 'X' else 'x') :: typed)) = .ok address := by
  intro typed
  refine ⟨?_, parse_toHex address, ?_⟩
  · have form : address.toBech32.toList = 'v' :: 'm' :: '1' ::
        (Bech32.toGroups address.bytes ++ Bech32.checksum label.toList (Bech32.toGroups address.bytes)).map digit := by
      rw [toBech32, Bech32.encode, String.toList_append, String.toList_append]
      simp only [String.toList_ofList]
      rfl
    simp only [parse, form]
    exact ofBech32_of_spelled (spelled_encoded address) form
  · have shown : typed.map Char.toLower = address.bytes.flatMap Hex.byteDigits := by
      simp only [typed, Hex.encode, String.toList_ofList]
      exact Hex.lower_raised raised address.bytes
    cases large <;> simp only [parse, String.toList_ofList] <;> exact ofHexDigits_iff.mpr shown

end Address

end ContractHost
