import ContractHost.Proofs.HexText
import ContractHost.Proofs.JsonText
import ContractHost.Proofs.SortedMap

/-! Every form in which values are exchanged reads back as the value that it was written from. Only accounts with
storage updates cannot be written, and neither can an output that holds one of them. -/

namespace ContractHost

section

variable {α β : Type}

theorem mapM_of_some {read : α → Option β} (value : α → β) {items : List α}
    (each : ∀ item ∈ items, read item = some (value item)) : items.mapM read = some (items.map value) := by
  induction items with
  | nil => rfl
  | cons item rest ih =>
    rw [List.mapM_cons, each item List.mem_cons_self,
      ih (fun later member => each later (List.mem_cons_of_mem _ member))]
    rfl

private theorem mapM_written {write : α → β} {read : β → Option α} {items : List α}
    (each : ∀ item ∈ items, read (write item) = some item) : (items.map write).mapM read = some items := by
  have whole : items.mapM (read ∘ write) = some (items.map id) := mapM_of_some id each
  rw [List.mapM_map, whole, List.map_id]

/-- Reading that may fall back on a usual value falls back on none of those beside the values written. -/
theorem mapM_zip_written (write : α → β) (read : α → β → Option α)
    (inverse : ∀ usual value, read usual (write value) = some value) {usual values : List α}
    (complete : values.length = usual.length) :
    (usual.zip (values.map write)).mapM (fun entry => read entry.1 entry.2) = some values := by
  rw [List.zip_map_right, List.mapM_map, mapM_of_some Prod.snd, List.map_snd_zip complete.le]
  exact fun entry _ => inverse entry.1 entry.2

/-- Where every item can be written and read back, so can the list. -/
theorem mapM_bind_mapM {write : α → Option β} {read : β → Option α} {items : List α}
    (each : ∀ item ∈ items, (write item).bind read = some item) :
    (items.mapM write).bind (fun written => written.mapM read) = some items := by
  induction items with
  | nil => rfl
  | cons item rest ih =>
    obtain ⟨form, written, reads⟩ := Option.bind_eq_some_iff.mp (each item List.mem_cons_self)
    obtain ⟨forms, others, later⟩ :=
      Option.bind_eq_some_iff.mp (ih (fun later member => each later (List.mem_cons_of_mem _ member)))
    rw [List.mapM_cons, written, others]
    change (form :: forms).mapM read = _
    rw [List.mapM_cons, reads, later]
    rfl

theorem mapM_eq_none {write : α → Option β} {items : List α} {item : α} (member : item ∈ items)
    (fails : write item = none) : items.mapM write = none := by
  induction items with
  | nil => cases member
  | cons first rest ih =>
    rw [List.mapM_cons]
    rcases List.mem_cons.mp member with rfl | later
    · rw [fails]
      rfl
    · rw [ih later]
      cases write first <;> rfl

end

namespace Json

private theorem filter_named {members : List (String × Json)} (distinct : (members.map Prod.fst).Nodup)
    {member : String × Json} (among : member ∈ members) :
    members.filter (fun other => other.1 == member.1) = [member] := by
  induction members with
  | nil => cases among
  | cons first rest ih =>
    rw [List.map_cons, List.nodup_cons] at distinct
    rcases List.mem_cons.mp among with rfl | later
    · have others : rest.filter (fun other => other.1 == member.1) = [] := by
        rw [List.filter_eq_nil_iff]
        intro other held same
        exact distinct.1 (List.mem_map.mpr ⟨other, held, eq_of_beq same⟩)
      rw [List.filter_cons_of_pos (by exact beq_self_eq_true _), others]
    · have apart : ¬(first.1 == member.1) = true := by
        intro same
        exact distinct.1 (List.mem_map.mpr ⟨member, later, (eq_of_beq same).symm⟩)
      rw [List.filter_cons_of_neg (by exact apart)]
      exact ih distinct.2 later

/-- A record gives back the value of each of its members. -/
theorem fields?_record {members : List (String × Json)} {names : List String} (titles : members.map Prod.fst = names)
    (distinct : names.Nodup) : (record members).fields? names = some (members.map (fun member => some member.2)) := by
  subst titles
  have known : (members.map (fun member => (some member.1, member.2))).mapM
      (fun member : Option String × Json => member.1.map (fun name => (name, member.2))) = some members :=
    mapM_written (fun _ _ => rfl)
  simp only [fields?, record, known, Option.bind_eq_bind, Option.bind_some]
  rw [List.mapM_map]
  refine mapM_of_some _ (fun member among => ?_)
  rw [Function.comp_apply, filter_named distinct among]

private theorem fields?_zip {names : List String} {values : List Json} (complete : names.length = values.length)
    (distinct : names.Nodup) : (record (names.zip values)).fields? names = some (values.map some) := by
  have contents : (names.zip values).map (fun member => some member.2) = values.map some := by
    rw [← List.map_snd_zip complete.ge, List.map_map, List.map_snd_zip complete.ge]
    rfl
  rw [fields?_record (List.map_fst_zip complete.le) distinct, contents]

end Json

namespace Exchange

variable {α : Type}

/-- Writing fails for the values refused and for no others, and what is written is read back as the value. -/
structure RoundTrips (α : Type) [Exchange α] (refused : α → Prop) : Prop where
  fails (value : α) : toText value = none ↔ refused value
  reads (value : α) : ¬refused value → ∃ text, toText value = some text ∧ ofText text = some value

/-- The compact text loses nothing of a form. -/
theorem RoundTrips.of_forms [Exchange α] {refused : α → Prop}
    (fails : ∀ value : α, refused value → encode value = none)
    (reads : ∀ value : α, ¬refused value → (encode value).bind decode = some value) : RoundTrips α refused where
  fails value := by
    rw [toText, Option.map_eq_none_iff]
    refine ⟨fun failed => ?_, fails value⟩
    by_contra accepted
    have read := reads value accepted
    rw [failed] at read
    cases read
  reads value accepted := by
    obtain ⟨json, written, read⟩ := Option.bind_eq_some_iff.mp (reads value accepted)
    refine ⟨json.toText, by rw [toText, written]; rfl, ?_⟩
    rw [ofText, Json.parse_toText]
    exact read

/-- Every value of the type can be written. -/
theorem RoundTrips.of_total [Exchange α] (reads : ∀ value : α, (encode value).bind decode = some value) :
    RoundTrips α (fun _ => False) :=
  .of_forms (fun _ => False.elim) (fun value _ => reads value)

private theorem natural_ofNat {bound value : Nat} (small : value < bound) :
    natural bound (.ofNat value) = some value := by
  have fits : (0 : Int) ≤ (value : Int) ∧ (value : Int) < bound := by omega
  rw [Json.ofNat, natural, if_pos fits]
  rfl

private theorem word_ofWord (value : UInt64) : word (ofWord value) = some value := by
  rw [word, ofWord, natural_ofNat value.toNat_lt, Option.map_some, UInt64.ofNat_toNat]

private theorem byte_ofNat (value : UInt8) : byte (.ofNat value.toNat) = some value := by
  rw [byte, natural_ofNat value.toNat_lt, Option.map_some, UInt8.ofNat_toNat]

private theorem list_map {write : α → Json} {read : Json → Option α} (inverse : ∀ item, read (write item) = some item)
    (items : List α) : list read (.array (items.map write)) = some items :=
  mapM_written (fun item _ => inverse item)

private theorem bytes_ofBytes (content : Bytes) : bytes (ofBytes content) = some content := list_map byte_ofNat content

private theorem address_ofAddress (place : Address) : address (ofAddress place) = some place := by
  have text : string (ofAddress place) = some place.toHex := rfl
  simp only [address, text, Option.bind_eq_bind, Option.bind_some, Address.parse_toHex]
  rfl

private theorem int_ofInt (value : Int) : int (ofInt value) = some value := by
  have magnitude : list (natural UInt32.size) (.array ((digits value.natAbs).map .ofNat)) =
      some (digits value.natAbs) :=
    mapM_written (fun digit member => natural_ofNat (digits_small _ digit member))
  have sign : value.sign = -1 ∨ value.sign = 0 ∨ value.sign = 1 := by
    rcases Int.sign_trichotomy value with positive | zero | negative
    · exact .inr (.inr positive)
    · exact .inr (.inl zero)
    · exact .inl negative
  rw [ofInt, int, magnitude]
  simp only [Option.bind_eq_bind, Option.bind_some, if_pos sign, ofDigits_digits, Int.sign_mul_natAbs]

private theorem optionalInt_ofOptionalInt (value : Option Int) :
    optionalInt (some (ofOptionalInt value)) = some value := by
  cases value with
  | none => rfl
  | some value =>
    have held : optionalInt (some (ofInt value)) = (int (ofInt value)).map some := rfl
    rw [ofOptionalInt, held, int_ofInt]
    rfl

private theorem required_some {read : Json → Option α} {json : Json} {value : α} (reads : read json = some value) :
    required read (some json) = some value := reads

private theorem optional_some {default : α} {read : Json → Option α} {json : Json} {value : α}
    (reads : read json = some value) : optional default read (some json) = some value := reads

-- Each record is read once its members are, whatever they are; that the members written are read is the second step,
-- since the bound of a word is too large for its reading to be computed on a word that is not known.
private theorem logEntry_ofLogEntry (entry : LogEntry) : logEntry (ofLogEntry entry) = some entry := by
  rw [logEntry, ofLogEntry, Json.fields?_record]
  case titles => rfl
  case distinct => decide
  simp only [List.map_cons, List.map_nil, required, Option.bind_eq_bind, Option.bind_some, address_ofAddress,
    list_map bytes_ofBytes, bytes_ofBytes]
  rfl

private theorem update_reads (update : StorageUpdate) : (encode update).bind decode = some update := by
  simp only [encode, decode, Option.bind_some]
  rw [Json.fields?_record]
  case titles => rfl
  case distinct => decide
  simp only [List.map_cons, List.map_nil, required, Option.bind_eq_bind, Option.bind_some, bytes_ofBytes]
  rfl

private theorem codeMetadata_reads (metadata : CodeMetadata) : (encode metadata).bind decode = some metadata := by
  simp only [encode, decode, Option.bind_some]
  rw [Json.fields?_record]
  case titles => rfl
  case distinct => decide
  rfl

private theorem account_of_fields {json : Json} {change : AccountChange}
    {place nonce balance delta written added deleted isNew : Option Json}
    (fields : json.fields? accountFields = some [place, nonce, balance, delta, written, added, deleted, isNew])
    (place_reads : required address place = some change.address) (nonce_reads : required word nonce = some change.nonce)
    (balance_reads : optionalInt balance = some change.balance)
    (delta_reads : required int delta = some change.balanceDelta)
    (written_reads : required updates written = some change.updates)
    (added_reads : required word added = some change.bytesAdded)
    (deleted_reads : required word deleted = some change.bytesDeleted)
    (isNew_reads : required bool isNew = some change.isNew) : account json = some change := by
  simp only [account, fields, place_reads, nonce_reads, balance_reads, delta_reads, written_reads, added_reads,
    deleted_reads, isNew_reads, Option.bind_eq_bind, Option.bind_some, Option.pure_def]

private theorem account_reads {change : AccountChange} (unwritten : change.updates = .empty) :
    (ofAccount change).bind account = some change := by
  have written : ofUpdates change.updates = some (.object []) := by
    rw [unwritten]
    rfl
  obtain ⟨json, form, fields⟩ : ∃ json, ofAccount change = some json ∧ json.fields? accountFields =
      some [some (ofAddress change.address), some (ofWord change.nonce), some (ofOptionalInt change.balance),
        some (ofInt change.balanceDelta), some (.object []), some (ofWord change.bytesAdded),
        some (ofWord change.bytesDeleted), some (.bool change.isNew)] := by
    rw [ofAccount, written]
    exact ⟨_, rfl, Json.fields?_zip rfl (by decide)⟩
  rw [form, Option.bind_some]
  exact account_of_fields fields (required_some (address_ofAddress _)) (required_some (word_ofWord _))
    (optionalInt_ofOptionalInt _) (required_some (int_ofInt _)) (congrArg some unwritten.symm)
    (required_some (word_ofWord _)) (required_some (word_ofWord _)) rfl

private theorem account_fails {change : AccountChange} (written : change.updates ≠ .empty) :
    ofAccount change = none := by
  have unwritable : ofUpdates change.updates = none := if_neg (mt SortedMap.isEmpty_iff.mp written)
  rw [ofAccount, unwritable]
  rfl

private theorem accounts_read {held : SortedMap Address AccountChange}
    (unwritten : ∀ entry ∈ held.entries, entry.2.updates = .empty) : (ofAccounts held).bind accounts = some held := by
  have each : ∀ entry ∈ held.entries,
      ((ofAccount entry.2).map (fun json => (entry.1.toHex, json))).bind (fun member => do
        let place ← address (.text (some member.1))
        let change ← account member.2
        return (place, change)) = some entry := by
    intro entry member
    obtain ⟨json, written, read⟩ := Option.bind_eq_some_iff.mp (account_reads (unwritten entry member))
    have place : address (.text (some entry.1.toHex)) = some entry.1 := address_ofAddress entry.1
    rw [written, Option.map_some, Option.bind_some, place, read]
    rfl
  obtain ⟨members, written, read⟩ := Option.bind_eq_some_iff.mp (mapM_bind_mapM each)
  have form : ofAccounts held = some (.record members) := by
    rw [ofAccounts, written]
    rfl
  rw [form, Option.bind_some, Json.record, accounts, List.mapM_map, Function.comp_def, read]
  exact congrArg some (SortedMap.ofList_entries held)

private theorem accounts_fail {held : SortedMap Address AccountChange} {entry : Address × AccountChange}
    (member : entry ∈ held.entries) (written : entry.2.updates ≠ .empty) : ofAccounts held = none := by
  rw [ofAccounts, mapM_eq_none member (by rw [account_fails written]; rfl)]
  rfl

private theorem code_reads (code : ReturnCode) : (encode code).bind decode = some code := by
  cases code <;> rfl

private theorem output_of_fields {json : Json} {output : Output}
    {code message changes data logs gasRemaining gasRefund : Option Json}
    (fields : json.fields? outputFields = some [code, message, changes, data, logs, gasRemaining, gasRefund])
    (code_reads : required (choice ReturnCode.all ReturnCode.name) code = some output.code)
    (message_reads : required string message = some output.message)
    (changes_read : required accounts changes = some output.accounts)
    (data_reads : required (list bytes) data = some output.data)
    (logs_read : required (list logEntry) logs = some output.logs)
    (gasRemaining_reads : required word gasRemaining = some output.gasRemaining)
    (gasRefund_reads : required word gasRefund = some output.gasRefund) : decode json = some output := by
  simp only [decode, fields, code_reads, message_reads, changes_read, data_reads, logs_read, gasRemaining_reads,
    gasRefund_reads, Option.bind_eq_bind, Option.bind_some, Option.pure_def]

private theorem output_reads {output : Output}
    (unwritten : ∀ entry ∈ output.accounts.entries, entry.2.updates = .empty) :
    (encode output).bind decode = some output := by
  obtain ⟨changes, written, read⟩ := Option.bind_eq_some_iff.mp (accounts_read unwritten)
  obtain ⟨json, form, fields⟩ : ∃ json, encode output = some json ∧ json.fields? outputFields =
      some [some (.string output.code.name), some (.string output.message), some changes,
        some (.array (output.data.map ofBytes)), some (.array (output.logs.map ofLogEntry)),
        some (ofWord output.gasRemaining), some (ofWord output.gasRefund)] := by
    simp only [encode, written]
    exact ⟨_, rfl, Json.fields?_zip rfl (by decide)⟩
  rw [form, Option.bind_some]
  exact output_of_fields fields (required_some (code_reads _)) rfl (required_some read)
    (required_some (list_map bytes_ofBytes _)) (required_some (list_map logEntry_ofLogEntry _))
    (required_some (word_ofWord _)) (required_some (word_ofWord _))

private theorem output_fails {output : Output} {entry : Address × AccountChange}
    (member : entry ∈ output.accounts.entries) (written : entry.2.updates ≠ .empty) : encode output = none := by
  simp only [encode, accounts_fail member written]
  rfl

private theorem schedule_ofSchedule (costs : GasSchedule) : schedule (ofSchedule costs) = some costs := by
  have found : (({} : GasSchedule).costs.zip ((costs.costs.map ofWord).map some)).mapM
      (fun entry => optional entry.1 word entry.2) = some costs.costs := by
    rw [List.map_map]
    exact mapM_zip_written (some ∘ ofWord) (fun usual => optional usual word)
      (fun _ value => optional_some (word_ofWord value)) rfl
  rw [schedule, ofSchedule, Json.fields?_zip]
  case complete => rfl
  case distinct => decide
  rw [Option.bind_eq_bind, Option.bind_some, found]
  rfl

private theorem config_of_fields {json : Json} {config : Config} {reserved guarded depth size costs : Option Json}
    (fields : json.fields? Config.fieldNames = some [reserved, guarded, depth, size, costs])
    (reserved_reads : ∀ default, optional default string reserved = some config.reservedPrefix)
    (guarded_reads : ∀ default, optional default string guarded = some config.protectedPrefix)
    (depth_reads : ∀ default, optional default word depth = some config.maxCallDepth)
    (size_reads : ∀ default, optional default word size = some config.maxCodeSize)
    (costs_read : ∀ default, optional default schedule costs = some config.schedule) : decode json = some config := by
  simp only [decode, fields, reserved_reads, guarded_reads, depth_reads, size_reads, costs_read, Option.bind_eq_bind,
    Option.bind_some, Option.pure_def]

private theorem config_reads (config : Config) : (encode config).bind decode = some config := by
  obtain ⟨json, form, fields⟩ : ∃ json, encode config = some json ∧ json.fields? Config.fieldNames =
      some [some (.string config.reservedPrefix), some (.string config.protectedPrefix),
        some (ofWord config.maxCallDepth), some (ofWord config.maxCodeSize), some (ofSchedule config.schedule)] :=
    ⟨_, rfl, Json.fields?_zip rfl (by decide)⟩
  rw [form, Option.bind_some]
  exact config_of_fields fields (fun _ => rfl) (fun _ => rfl) (fun _ => optional_some (word_ofWord _))
    (fun _ => optional_some (word_ofWord _)) (fun _ => optional_some (schedule_ofSchedule _))

private theorem kind_reads (kind : CallKind) : (encode kind).bind decode = some kind := by
  cases kind <;> rfl

/-- Every value that is exchanged is read back from its text as itself. What cannot be written is an account with
storage updates, and an output that holds one. -/
theorem texts_read_back :
    RoundTrips Output (fun output =>
        ∃ address change, output.account? address = some change ∧ change.updates ≠ .empty) ∧
      RoundTrips AccountChange (fun change => change.updates ≠ .empty) ∧
      RoundTrips LogEntry (fun _ => False) ∧ RoundTrips StorageUpdate (fun _ => False) ∧
      RoundTrips Address (fun _ => False) ∧ RoundTrips CodeMetadata (fun _ => False) ∧
      RoundTrips CallKind (fun _ => False) ∧ RoundTrips ReturnCode (fun _ => False) ∧
      RoundTrips GasSchedule (fun _ => False) ∧ RoundTrips Config (fun _ => False) := by
  refine ⟨.of_forms ?_ ?_, .of_forms ?_ ?_, .of_total ?_, .of_total update_reads, .of_total ?_,
    .of_total codeMetadata_reads, .of_total kind_reads, .of_total code_reads, .of_total ?_, .of_total config_reads⟩
  · rintro output ⟨address, change, found, written⟩
    exact output_fails (SortedMap.mem_entries_iff.mpr found) written
  · intro output plain
    refine output_reads (fun entry member => ?_)
    by_contra written
    exact plain ⟨entry.1, entry.2, SortedMap.mem_entries_iff.mp member, written⟩
  · exact fun change written => account_fails written
  · exact fun change plain => account_reads (not_not.mp plain)
  · exact fun entry => logEntry_ofLogEntry entry
  · exact fun address => address_ofAddress address
  · intro costs
    have form : encode costs = some (ofSchedule costs) := rfl
    rw [form, Option.bind_some]
    exact schedule_ofSchedule costs

end Exchange

end ContractHost
