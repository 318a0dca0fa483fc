import ContractHost.Json.Parser
import ContractHost.Proofs.Numerals

/-! The compact text of a JSON value reads back as the value. The text is scanned into the tokens of the value and the
tokens are read into the value, both from left to right, whatever follows. -/

namespace ContractHost.Json

mutual

/-- The tokens that a value is written with. -/
def tokens : Json → List Token
  | .text content => [.text content]
  | .array items => .openArray :: (itemTokens items ++ [.closeArray])
  | .object members => .openObject :: (memberTokens members ++ [.closeObject])
  | scalar => [.scalar scalar]

def itemTokens : List Json → List Token
  | [] => []
  | [item] => item.tokens
  | item :: rest => item.tokens ++ .comma :: itemTokens rest

def memberTokens : List (Option String × Json) → List Token
  | [] => []
  | [(name, value)] => .text name :: .colon :: value.tokens
  | (name, value) :: rest => .text name :: .colon :: (value.tokens ++ .comma :: memberTokens rest)

end

namespace Scan

private theorem run_step {scan next : Scan} {char : Char} {found : List Token}
    (steps : scan.step char = some (found, next))
    (rest : List Char) : run scan (char :: rest) = (run next rest).map (found ++ ·) := by
  rw [run, steps]
  simp only [Option.bind_eq_bind, Option.bind_some]
  cases run next rest <;> rfl

/-- A character that completes no token. -/
theorem run_silent {scan next : Scan} {char : Char} (steps : scan.step char = some ([], next)) (rest : List Char) :
    run scan (char :: rest) = run next rest := by
  rw [run_step steps]
  cases run next rest <;> rfl

private theorem hexDigit?_digit : ∀ number < 16, hexDigit? (Hex.digit number) = some number := by decide

/-- A character takes a short escape, or its code where it would not show, or stands for itself. -/
theorem escape_cases (char : Char) :
    (∃ letter, letter ≠ 'u' ∧ shortEscape? letter = some char.toNat ∧ escape char = ['\\', letter]) ∨
      (char.toNat < 32 ∧ escape char = '\\' :: 'u' :: '0' :: '0' :: Hex.byteDigits (UInt8.ofNat char.toNat)) ∨
      (char ≠ '"' ∧ char ≠ '\\' ∧ ¬char.toNat < 32 ∧ escape char = [char]) := by
  unfold escape
  split_ifs with quote backslash back tab line feed carriage control
  · exact .inl ⟨'"', by decide, by rw [quote]; rfl, rfl⟩
  · exact .inl ⟨'\\', by decide, by rw [backslash]; rfl, rfl⟩
  · exact .inl ⟨'b', by decide, by rw [back]; rfl, rfl⟩
  · exact .inl ⟨'t', by decide, by rw [tab]; rfl, rfl⟩
  · exact .inl ⟨'n', by decide, by rw [line]; rfl, rfl⟩
  · exact .inl ⟨'f', by decide, by rw [feed]; rfl, rfl⟩
  · exact .inl ⟨'r', by decide, by rw [carriage]; rfl, rfl⟩
  · exact .inr (.inl ⟨control, rfl⟩)
  · exact .inr (.inr ⟨quote, backslash, control, rfl⟩)

/-- The code of a character that would not show is read back from its two digits. -/
theorem run_code (units : List Nat) {number : Nat} (small : number < 256) (rest : List Char) :
    run (.quoted units) ('\\' :: 'u' :: '0' :: '0' :: Hex.byteDigits (UInt8.ofNat number) ++ rest) =
      run (.quoted (number :: units)) rest := by
  have high := hexDigit?_digit (number / 16) (Nat.div_lt_of_lt_mul small)
  have low := hexDigit?_digit (number % 16) (Nat.mod_lt _ (by decide))
  have byte : (UInt8.ofNat number).toNat = number := Nat.mod_eq_of_lt small
  have digits : Hex.byteDigits (UInt8.ofNat number) = [Hex.digit (number / 16), Hex.digit (number % 16)] := by
    rw [Hex.byteDigits, byte]
  have third : step (.code units [0, 0]) (Hex.digit (number / 16)) = some ([], .code units [number / 16, 0, 0]) := by
    rw [step, high]
    rfl
  have fourth : step (.code units [number / 16, 0, 0]) (Hex.digit (number % 16)) = some ([], .quoted (number :: units)) := by
    have whole : ((0 * 16 + 0) * 16 + number / 16) * 16 + number % 16 = number := by omega
    rw [step, low]
    exact congrArg (fun unit => some ([], Scan.quoted (unit :: units))) whole
  rw [digits]
  have opens : step (.quoted units) '\\' = some ([], .escaped units) := rfl
  have code : step (.escaped units) 'u' = some ([], .code units []) := rfl
  have first : step (.code units []) '0' = some ([], .code units [0]) := rfl
  have second : step (.code units [0]) '0' = some ([], .code units [0, 0]) := rfl
  simp only [List.cons_append, List.nil_append]
  rw [run_silent opens, run_silent code, run_silent first, run_silent second, run_silent third, run_silent fourth]

private theorem run_escape (units : List Nat) (char : Char) (rest : List Char) :
    run (.quoted units) (escape char ++ rest) = run (.quoted (char.toNat :: units)) rest := by
  rcases escape_cases char with ⟨letter, notCode, known, short⟩ | ⟨control, code⟩ | ⟨notQuote, notBackslash, shown, plain⟩
  · have opens : step (.quoted units) '\\' = some ([], .escaped units) := rfl
    have closes : step (.escaped units) letter = some ([], .quoted (char.toNat :: units)) := by
      rw [step, if_neg notCode, known]
      rfl
    rw [short, List.cons_append, List.cons_append, List.nil_append, run_silent opens, run_silent closes]
  · rw [code]
    exact run_code units (Nat.lt_trans control (by decide)) rest
  · have stays : step (.quoted units) char = some ([], .quoted (char.toNat :: units)) := by
      rw [step, if_neg notQuote, if_neg notBackslash, if_neg shown]
    rw [plain, List.cons_append, List.nil_append, run_silent stays]

/-- No character is half of a surrogate pair, so that its unit stands for itself. -/
theorem ofUnits_toNat (content : List Char) : ofUnits (content.map Char.toNat) = some content := by
  induction content with
  | nil => rfl
  | cons char rest ih =>
    have valid := char.valid
    have plain : ¬(0xD800 ≤ char.toNat ∧ char.toNat < 0xDC00) ∧ ¬(0xDC00 ≤ char.toNat ∧ char.toNat < 0xE000) := by
      change char.toNat < 0xD800 ∨ (0xDFFF < char.toNat ∧ char.toNat < 0x110000) at valid
      omega
    rw [List.map_cons, ofUnits.eq_def]
    simp only [if_neg plain.1, if_neg plain.2, ih, Option.map_some, Char.ofNat_toNat]

private theorem run_quoted (content : List Char) (units : List Nat) (rest : List Char) :
    run (.quoted units) (content.flatMap escape ++ '"' :: rest) =
      (run .between rest).map
        (.text ((ofUnits (units.reverse ++ content.map Char.toNat)).map String.ofList) :: ·) := by
  induction content generalizing units with
  | nil =>
    have closes : step (.quoted units) '"' = some ([.text ((ofUnits units.reverse).map String.ofList)], .between) := rfl
    rw [List.flatMap_nil, List.nil_append, run_step closes, List.map_nil, List.append_nil]
    rfl
  | cons char content ih =>
    rw [List.flatMap_cons, List.append_assoc, run_escape, ih, List.reverse_cons, List.append_assoc]
    rfl

private theorem run_quoteText (content : Option String) (rest : List Char) :
    run .between (quoteText content ++ rest) = (run .between rest).map (.text content :: ·) := by
  have opens : step .between '"' = some ([], .quoted []) := rfl
  cases content with
  | none =>
    have code : (step (.escaped []) 'u') = some ([], .code [] []) := rfl
    have first : step (.code [] []) 'd' = some ([], .code [] [13]) := rfl
    have second : step (.code [] [13]) '8' = some ([], .code [] [8, 13]) := rfl
    have third : step (.code [] [8, 13]) '0' = some ([], .code [] [0, 8, 13]) := rfl
    have fourth : step (.code [] [0, 8, 13]) '0' = some ([], .quoted [0xD800]) := rfl
    have escapes : step (.quoted []) '\\' = some ([], .escaped []) := rfl
    have closes : step (.quoted [0xD800]) '"' = some ([.text none], .between) := rfl
    have form : quoteText none = ['"', '\\', 'u', 'd', '8', '0', '0', '"'] := by decide
    rw [form]
    simp only [List.cons_append, List.nil_append]
    rw [run_silent opens, run_silent escapes, run_silent code, run_silent first, run_silent second, run_silent third,
      run_silent fourth, run_step closes]
    rfl
  | some content =>
    have form : quoteText (some content) ++ rest = '"' :: (content.toList.flatMap escape ++ '"' :: rest) := by
      change '"' :: (content.toList.flatMap escape ++ ['"']) ++ rest = _
      rw [List.cons_append, List.append_assoc]
      rfl
    rw [form, run_silent opens, run_quoted, List.reverse_nil, List.nil_append, ofUnits_toNat, Option.map_some,
      String.ofList_toList]

/-- No number or word goes on with what follows. -/
def Ends (rest : List Char) : Prop := ∀ char ∈ rest.head?, isBare char = false

private theorem start_bare {char : Char} (bare : isBare char = true) : start char = some ([], .bare [char]) := by
  have notBlank : ¬isBlank char = true := by
    intro blank
    simp only [isBlank, Bool.or_eq_true, beq_iff_eq] at blank
    rcases blank with ((rfl | rfl) | rfl) | rfl <;> exact absurd bare (by decide)
  have notQuote : char ≠ '"' := by
    rintro rfl
    exact absurd bare (by decide)
  rw [start, if_neg notBlank, if_neg notQuote, if_pos bare]

private theorem run_bare {chars more rest : List Char} {value : Json} (bare : ∀ char ∈ more, isBare char = true)
    (ends : Ends rest) (scalar : scalar? (chars.reverse ++ more) = some value) :
    run (.bare chars) (more ++ rest) = (run .between rest).map (.scalar value :: ·) := by
  induction more generalizing chars with
  | cons char more ih =>
    have goes : step (.bare chars) char = some ([], .bare (char :: chars)) := if_pos (bare char List.mem_cons_self)
    rw [List.cons_append, run_silent goes]
    refine ih (fun later member => bare later (List.mem_cons_of_mem _ member)) ?_
    rw [List.reverse_cons, List.append_assoc]
    exact scalar
  | nil =>
    rw [List.append_nil] at scalar
    rw [List.nil_append]
    cases rest with
    | nil => rw [run, finish, scalar]; rfl
    | cons char rest =>
      have stops : step (.bare chars) char = (start char).map (fun found => (.scalar value :: found.1, found.2)) := by
        rw [step, if_neg (by rw [ends char rfl]; exact Bool.false_ne_true), scalar]
        cases start char <;> rfl
      have starts : step .between char = start char := rfl
      cases begun : start char with
      | none =>
        rw [begun] at stops starts
        simp only [run, stops, starts]
        rfl
      | some found =>
        rw [begun] at stops starts
        rw [run_step stops, run_step starts, Option.map_map]
        rfl

private theorem run_scalar (chars : List Char) {rest : List Char} {value : Json} (filled : chars ≠ [])
    (bare : chars.all isBare = true) (ends : Ends rest) (scalar : scalar? chars = some value) :
    run .between (chars ++ rest) = (run .between rest).map (.scalar value :: ·) := by
  cases chars with
  | nil => exact absurd rfl filled
  | cons char more =>
    rw [List.all_cons, Bool.and_eq_true] at bare
    have starts : step .between char = some ([], .bare [char]) := start_bare bare.1
    rw [List.cons_append, run_silent starts]
    exact run_bare (List.all_eq_true.mp bare.2) ends scalar

private theorem bare_integer (value : Int) : (toString value).toList.all isBare = true := by
  rw [List.all_eq_true]
  have digit {number : Nat} {char : Char} (member : char ∈ Nat.toDigits 10 number) : isBare char = true := by
    have shown := isDigit_of_mem_toDigits member
    rw [isDigit_eq] at shown
    simp only [isBare, Char.isAlphanum, shown, Bool.or_true, Bool.true_or]
  intro char member
  rw [Int.toString_eq_repr, Int.repr_eq_if] at member
  split at member
  next => exact digit (Nat.toList_repr ▸ member)
  next =>
    rw [String.toList_append, Nat.toList_repr] at member
    rcases List.mem_append.mp member with sign | later
    · rw [List.mem_singleton.mp sign]
      decide
    · exact digit later

/-- Punctuation completes a token of its own. -/
theorem run_punctuation (token : Token) {char : Char} (steps : step .between char = some ([token], .between))
    (rest : List Char) : run .between (char :: rest) = (run .between rest).map (token :: ·) :=
  run_step steps rest

private theorem ends_cons {char : Char} (notBare : isBare char = false) (rest : List Char) : Ends (char :: rest) := by
  intro first head
  cases head
  exact notBare

private theorem toList_integer_ne_nil (value : Int) : (toString value).toList ≠ [] := by
  intro none
  have found := scalar?_integer value
  rw [none] at found
  cases found

mutual

/-- The text of a value scans to its tokens, whatever stands after it. -/
theorem run_render (json : Json) {rest : List Char} (ends : Ends rest) :
    run .between (json.render ++ rest) = (run .between rest).map (json.tokens ++ ·) := by
  match json with
  | .null => exact run_scalar ['n', 'u', 'l', 'l'] (List.cons_ne_nil _ _) rfl ends rfl
  | .bool true => exact run_scalar ['t', 'r', 'u', 'e'] (List.cons_ne_nil _ _) rfl ends rfl
  | .bool false => exact run_scalar ['f', 'a', 'l', 's', 'e'] (List.cons_ne_nil _ _) rfl ends rfl
  | .integer value => exact run_scalar _ (toList_integer_ne_nil value) (bare_integer value) ends (scalar?_integer value)
  | .fraction => exact run_scalar ['0', '.', '5'] (List.cons_ne_nil _ _) rfl ends rfl
  | .text content => exact run_quoteText content rest
  | .array items =>
    have form : (Json.array items).render ++ rest = '[' :: (renderItems items ++ ']' :: rest) := by
      change '[' :: (renderItems items ++ [']']) ++ rest = _
      rw [List.cons_append, List.append_assoc]
      rfl
    rw [form, run_punctuation .openArray rfl, run_items items (ends_cons rfl rest),
      run_punctuation .closeArray rfl, Option.map_map, Option.map_map]
    congr 1
    funext others
    simp only [Function.comp_apply, tokens, List.cons_append, List.append_assoc, List.nil_append]
  | .object members =>
    have form : (Json.object members).render ++ rest = '\x7b' :: (renderMembers members ++ '\x7d' :: rest) := by
      change '\x7b' :: (renderMembers members ++ ['\x7d']) ++ rest = _
      rw [List.cons_append, List.append_assoc]
      rfl
    rw [form, run_punctuation .openObject rfl, run_members members (ends_cons rfl rest),
      run_punctuation .closeObject rfl, Option.map_map, Option.map_map]
    congr 1
    funext others
    simp only [Function.comp_apply, tokens, List.cons_append, List.append_assoc, List.nil_append]

private theorem run_items (items : List Json) {rest : List Char} (ends : Ends rest) :
    run .between (renderItems items ++ rest) = (run .between rest).map (itemTokens items ++ ·) := by
  match items with
  | [] => exact Option.map_id'.symm
  | [item] => exact run_render item ends
  | item :: next :: later =>
    have form : renderItems (item :: next :: later) ++ rest =
        item.render ++ ',' :: (renderItems (next :: later) ++ rest) := List.append_assoc _ _ _
    rw [form, run_render item (ends_cons rfl _), run_punctuation .comma rfl,
      run_items (next :: later) ends, Option.map_map, Option.map_map]
    congr 1
    funext others
    simp only [Function.comp_apply, itemTokens, List.cons_append, List.append_assoc]

private theorem run_members (members : List (Option String × Json)) {rest : List Char} (ends : Ends rest) :
    run .between (renderMembers members ++ rest) = (run .between rest).map (memberTokens members ++ ·) := by
  match members with
  | [] => exact Option.map_id'.symm
  | [(name, value)] =>
    have form : renderMembers [(name, value)] ++ rest = quoteText name ++ ':' :: (value.render ++ rest) :=
      List.append_assoc _ _ _
    rw [form, run_quoteText, run_punctuation .colon rfl, run_render value ends, Option.map_map, Option.map_map]
    rfl
  | (name, value) :: next :: later =>
    have form : renderMembers ((name, value) :: next :: later) ++ rest =
        quoteText name ++ ':' :: (value.render ++ ',' :: (renderMembers (next :: later) ++ rest)) := by
      change (quoteText name ++ ':' :: (value.render ++ ',' :: renderMembers (next :: later))) ++ rest = _
      rw [List.append_assoc, List.cons_append, List.append_assoc]
      rfl
    rw [form, run_quoteText, run_punctuation .colon rfl, run_render value (ends_cons rfl _),
      run_punctuation .comma rfl, run_members (next :: later) ends, Option.map_map, Option.map_map,
      Option.map_map, Option.map_map]
    congr 1
    funext others
    simp only [Function.comp_apply, memberTokens, List.cons_append, List.append_assoc]

end

end Scan

private theorem scan_toText (json : Json) : Token.scan json.toText.toList = some json.tokens := by
  have ends : Scan.Ends [] := nofun
  rw [toText, String.toList_ofList, Token.scan, ← List.append_nil json.render, Scan.run_render json ends]
  exact congrArg some (List.append_nil _)

namespace Reading

private theorem run_step (next : Reading) {reading : Reading} {token : Token} (steps : reading.step token = some next)
    (rest : List Token) :
    run reading (token :: rest) = run next rest := by
  rw [run, List.foldlM_cons, steps]
  rfl

/-- No value starts with a bracket that closes, so that an array with items starts like its first item. -/
theorem run_arrayStart {items : List Json} (filled : items ≠ []) (around : List Container) (rest : List Token) :
    run (.arrayStart around) (itemTokens items ++ rest) = run (.value (.array [] :: around)) (itemTokens items ++ rest) := by
  match items with
  | [] => exact absurd rfl filled
  | [item] => cases item <;> rfl
  | item :: _ :: _ => cases item <;> rfl

private theorem run_objectStart {members : Members} (filled : members ≠ []) (around : List Container)
    (rest : List Token) :
    run (.objectStart around) (memberTokens members ++ rest) = run (.name around []) (memberTokens members ++ rest) := by
  match members with
  | [] => exact absurd rfl filled
  | [_] | _ :: _ :: _ => rfl

mutual

/-- The tokens of a value are read as the value, whatever stands around it and after it. -/
theorem run_tokens (json : Json) (around : List Container) (rest : List Token) :
    run (.value around) (json.tokens ++ rest) = run (.after around json) rest := by
  match json with
  | .null | .bool _ | .integer _ | .fraction | .text _ => exact run_step _ rfl rest
  | .array items =>
    have form : (Json.array items).tokens ++ rest = .openArray :: (itemTokens items ++ .closeArray :: rest) := by
      change .openArray :: (itemTokens items ++ [.closeArray]) ++ rest = _
      rw [List.cons_append, List.append_assoc]
      rfl
    rw [form, run_step (.arrayStart around) rfl]
    by_cases empty : items = []
    · subst empty
      exact run_step _ rfl rest
    · rw [run_arrayStart empty, run_items items empty, List.reverse_nil, List.nil_append]
  | .object members =>
    have form : (Json.object members).tokens ++ rest = .openObject :: (memberTokens members ++ .closeObject :: rest) := by
      change .openObject :: (memberTokens members ++ [.closeObject]) ++ rest = _
      rw [List.cons_append, List.append_assoc]
      rfl
    rw [form, run_step (.objectStart around) rfl]
    by_cases empty : members = []
    · subst empty
      exact run_step _ rfl rest
    · rw [run_objectStart empty, run_members members empty, List.reverse_nil, List.nil_append]

private theorem run_items (items : List Json) (filled : items ≠ []) (around : List Container) (done : List Json)
    (rest : List Token) :
    run (.value (.array done :: around)) (itemTokens items ++ .closeArray :: rest) =
      run (.after around (.array (done.reverse ++ items))) rest := by
  match items with
  | [] => exact absurd rfl filled
  | [item] =>
    change run _ (item.tokens ++ _) = _
    rw [run_tokens item, run_step (.after around (.array (item :: done).reverse)) rfl, List.reverse_cons]
  | item :: next :: later =>
    have form : itemTokens (item :: next :: later) ++ .closeArray :: rest =
        item.tokens ++ .comma :: (itemTokens (next :: later) ++ .closeArray :: rest) := List.append_assoc _ _ _
    rw [form, run_tokens item, run_step (.value (.array (item :: done) :: around)) rfl,
      run_items (next :: later) (List.cons_ne_nil _ _), List.reverse_cons, List.append_assoc]
    rfl

private theorem run_members (members : Members) (filled : members ≠ []) (around : List Container) (done : Members)
    (rest : List Token) :
    run (.name around done) (memberTokens members ++ .closeObject :: rest) =
      run (.after around (.object (done.reverse ++ members))) rest := by
  match members with
  | [] => exact absurd rfl filled
  | [(content, held)] =>
    change run _ (.text content :: .colon :: (held.tokens ++ _)) = _
    rw [run_step (.colon around done content) rfl, run_step (.value (.object done content :: around)) rfl,
      run_tokens held, run_step (.after around (.object ((content, held) :: done).reverse)) rfl, List.reverse_cons]
  | (content, held) :: next :: later =>
    have form : memberTokens ((content, held) :: next :: later) ++ .closeObject :: rest =
        .text content :: .colon :: (held.tokens ++ .comma :: (memberTokens (next :: later) ++ .closeObject :: rest)) := by
      change .text content :: .colon :: (held.tokens ++ .comma :: memberTokens (next :: later)) ++ _ = _
      rw [List.cons_append, List.cons_append, List.append_assoc]
      rfl
    rw [form, run_step (.colon around done content) rfl, run_step (.value (.object done content :: around)) rfl,
      run_tokens held, run_step (.name around ((content, held) :: done)) rfl,
      run_members (next :: later) (List.cons_ne_nil _ _), List.reverse_cons, List.append_assoc]
    rfl

end

end Reading

/-- What has been written is read back. -/
theorem parse_toText (json : Json) : parse json.toText = some json := by
  have read : Reading.run (.value []) json.tokens = Reading.run (.after [] json) [] := by
    have whole := Reading.run_tokens json [] []
    rwa [List.append_nil] at whole
  simp only [parse, scan_toText, Option.bind_eq_bind, Option.bind_some, read]
  rfl

end ContractHost.Json
