import Mathlib.Data.List.Forall2
import ContractHost.ConfigFile
import ContractHost.Proofs.ExchangeForms
import ContractHost.Proofs.TomlDocuments
import ContractHost.Proofs.TomlNumerals

/-! Configurations read back from their files. Only integers above those of the file format keep a configuration from
being written, and what is written is read as the same configuration before its rules are applied. -/

namespace ContractHost

namespace Toml

/-- A form that is read as a node where its line ends. -/
def Writes (written : List Char) (node : Node) : Prop :=
  ∀ rest, scalar (written ++ '\n' :: rest) = some (node, '\n' :: rest)

private theorem writes_quote (text : String) : Writes (quote text.toList) (.string text) := by
  intro rest
  have line (mark : Char) (other : mark ≠ '\n') : ('\n' :: rest).head? ≠ some mark :=
    fun same => other (Option.some.inj same).symm
  have reads := string_quote text.toList (line '"' (by decide)) (line '\'' (by decide))
  rw [String.ofList_toList] at reads
  exact Parser.orElse_some reads

private theorem fieldLine_append (name : String) (written rest : List Char) :
    Config.fieldLine name written ++ rest = name.toList ++ ' ' :: '=' :: ' ' :: (written ++ '\n' :: rest) := by
  simp [Config.fieldLine]

/-- Lines that give names their nodes are read as these definitions. -/
theorem Lines.fields {names : List String} {forms : List (List Char)} {nodes : List Node}
    (bare : ∀ name ∈ names, IsBare name) (written : List.Forall₂ Writes forms nodes) {rest : List Char}
    {lines : List (Option Statement)} (held : Lines rest lines) :
    Lines ((List.zipWith Config.fieldLine names forms).flatten ++ rest)
      ((names.zip nodes).map (fun pair => some (.define [] pair.1 pair.2)) ++ lines) := by
  induction written generalizing names with
  | nil =>
    rw [List.zipWith_nil_right, List.zip_nil_right]
    exact held
  | cons writes _ ih =>
    cases names with
    | nil => exact held
    | cons name names =>
      have later := ih (fun other member => bare other (List.mem_cons_of_mem _ member))
      rw [List.zipWith_cons_cons, List.flatten_cons, List.append_assoc, fieldLine_append]
      exact later.definition (bare name List.mem_cons_self) (writes _)

private theorem optionalNode_some {α : Type} {usual value : α} {read : Node → Option α} {node : Node}
    (reads : read node = some value) : optionalNode usual read (some node) = some value := reads

private theorem word_integer (word : UInt64) : Node.word (.integer word.toNat) = some word := by
  rw [Node.word, if_pos (Int.natCast_nonneg _), Int.toNat_natCast, UInt64.ofNat_toNat]

private theorem filterMap_defines (pairs : Entries) :
    (pairs.map (fun pair => some (Statement.define [] pair.1 pair.2))).filterMap id =
      pairs.map (fun pair => .define [] pair.1 pair.2) := by
  rw [List.filterMap_map]
  exact congrFun List.filterMap_eq_map pairs

/-- A file of lines, a gap and the lines of one table is read as their nodes. -/
theorem parse_fields {names inner : List String} {title : String} {forms innerForms : List (List Char)}
    {nodes innerNodes : List Node} (bare : ∀ name ∈ title :: names, IsBare name)
    (inner_bare : ∀ name ∈ inner, IsBare name)
    (written : List.Forall₂ Writes forms nodes) (inner_written : List.Forall₂ Writes innerForms innerNodes)
    (distinct : ((names.zip nodes).map Prod.fst ++ [title]).Nodup)
    (inner_distinct : ((inner.zip innerNodes).map Prod.fst).Nodup) :
    parse (String.ofList ((List.zipWith Config.fieldLine names forms).flatten ++ '\n' :: '[' ::
      (title.toList ++ ']' :: '\n' :: (List.zipWith Config.fieldLine inner innerForms).flatten))) =
        some (names.zip nodes ++ [(title, .table .header (inner.zip innerNodes))]) := by
  have costs := Lines.ends.fields inner_bare inner_written
  rw [List.append_nil, List.append_nil] at costs
  have lines := ((costs.header (bare title List.mem_cons_self)).gap).fields
    (fun name member => bare name (List.mem_cons_of_mem _ member)) written
  have document : Parser.parseAll document (String.ofList ((List.zipWith Config.fieldLine names forms).flatten ++
      '\n' :: '[' :: (title.toList ++ ']' :: '\n' :: (List.zipWith Config.fieldLine inner innerForms).flatten))) =
        some ((names.zip nodes).map (fun pair => .define [] pair.1 pair.2) ++
          .table [] title :: (inner.zip innerNodes).map (fun pair => .define [] pair.1 pair.2)) := by
    rw [Parser.parseAll, String.toList_ofList, document_lines lines, List.filterMap_append, filterMap_defines,
      List.filterMap_cons_none rfl, List.filterMap_cons_some (f := id) rfl, filterMap_defines]
  rw [parse, document]
  exact ofStatements_table distinct inner_distinct

end Toml

namespace GasSchedule

private theorem costNames_bare : ∀ name ∈ costNames, Toml.IsBare name := by decide

/-- The costs as they stand in a file. -/
def forms (schedule : GasSchedule) : List (List Char) := schedule.costs.map (fun word => Nat.toDigits 10 word.toNat)

/-- The costs as they are read. -/
def nodes (schedule : GasSchedule) : List Toml.Node := schedule.costs.map (fun word => .integer word.toNat)

private theorem forms_write {schedule : GasSchedule}
    (small : ∀ word ∈ schedule.costs, (word.toNat : Int) < Toml.integerBound) :
    List.Forall₂ Toml.Writes schedule.forms schedule.nodes := by
  rw [forms, nodes, List.forall₂_map_left_iff, List.forall₂_map_right_iff, List.forall₂_same]
  exact fun word member => Toml.scalar_integer (small word member)

private theorem ofNode_nodes (schedule : GasSchedule) :
    ofNode (.table .header (costNames.zip schedule.nodes)) = some schedule := by
  have fields : (Toml.Node.table .header (costNames.zip schedule.nodes)).fields? costNames =
      some (schedule.nodes.map some) := congrArg some (Toml.find?_zip (by decide) rfl)
  have found : (({} : GasSchedule).costs.zip (schedule.nodes.map some)).mapM
      (fun entry => Toml.optionalNode entry.1 Toml.Node.word entry.2) = some schedule.costs := by
    rw [nodes, List.map_map]
    exact mapM_zip_written (some ∘ fun word : UInt64 => Toml.Node.integer word.toNat)
      (fun usual => Toml.optionalNode usual Toml.Node.word)
      (fun _ word => Toml.optionalNode_some (Toml.word_integer word)) rfl
  rw [ofNode, fields, Option.bind_eq_bind, Option.bind_some, found]
  rfl

end GasSchedule

namespace Config

/-- The integers of a configuration, which are all that a file may be unable to hold. -/
def integers (config : Config) : List UInt64 := [config.maxCallDepth, config.maxCodeSize] ++ config.schedule.costs

private theorem writtenWord_small {word : UInt64} (small : word.toNat < Toml.integerBound) :
    writtenWord word = some (Nat.toDigits 10 word.toNat) := by
  rw [writtenWord, if_pos small]
  exact congrArg some Nat.toList_repr

private theorem writtenWord_large {word : UInt64} (large : ¬word.toNat < Toml.integerBound) : writtenWord word = none :=
  if_neg large

private theorem render_large {config : Config} {word : UInt64} (member : word ∈ config.integers)
    (large : ¬word.toNat < Toml.integerBound) : config.render = none := by
  rw [render]
  rcases List.mem_append.mp member with limit | cost
  · rw [mapM_eq_none limit (writtenWord_large large)]
    rfl
  · rw [mapM_eq_none cost (writtenWord_large large)]
    cases [config.maxCallDepth, config.maxCodeSize].mapM writtenWord <;> rfl

private theorem ofNode_of_fields {node : Toml.Node} {config : Config}
    {reserved guarded depth size costs : Option Toml.Node}
    (fields : node.fields? fieldNames = some [reserved, guarded, depth, size, costs])
    (reserved_reads : ∀ usual, Toml.optionalNode usual Toml.Node.string? reserved = some config.reservedPrefix)
    (guarded_reads : ∀ usual, Toml.optionalNode usual Toml.Node.string? guarded = some config.protectedPrefix)
    (depth_reads : ∀ usual, Toml.optionalNode usual Toml.Node.word depth = some config.maxCallDepth)
    (size_reads : ∀ usual, Toml.optionalNode usual Toml.Node.word size = some config.maxCodeSize)
    (costs_read : ∀ usual, Toml.optionalNode usual GasSchedule.ofNode costs = some config.schedule) :
    ofNode node = some config := by
  simp only [ofNode, fields, reserved_reads, guarded_reads, depth_reads, size_reads, costs_read, Option.bind_eq_bind,
    Option.bind_some, Option.pure_def]

private theorem fieldNames_bare : ∀ name ∈ "gas_schedule" :: fieldNames, Toml.IsBare name := by decide

/-- The fields as they stand in a file, above the table of the costs. -/
def forms (config : Config) : List (List Char) :=
  [Toml.quote config.reservedPrefix.toList, Toml.quote config.protectedPrefix.toList,
    Nat.toDigits 10 config.maxCallDepth.toNat, Nat.toDigits 10 config.maxCodeSize.toNat]

/-- The fields as they are read. -/
def nodes (config : Config) : List Toml.Node :=
  [.string config.reservedPrefix, .string config.protectedPrefix, .integer config.maxCallDepth.toNat,
    .integer config.maxCodeSize.toNat]

private theorem ofNode_nodes (config : Config) :
    ofNode (.table .header (fieldNames.zip config.nodes ++
      [("gas_schedule", .table .header (GasSchedule.costNames.zip config.schedule.nodes))])) = some config := by
  have whole : fieldNames.zip config.nodes ++
      [("gas_schedule", .table .header (GasSchedule.costNames.zip config.schedule.nodes))] =
        fieldNames.zip (config.nodes ++ [.table .header (GasSchedule.costNames.zip config.schedule.nodes)]) := rfl
  rw [whole]
  refine ofNode_of_fields (congrArg some (Toml.find?_zip (by decide) rfl)) ?_ ?_ ?_ ?_ ?_
  · exact fun _ => rfl
  · exact fun _ => rfl
  · exact fun _ => Toml.optionalNode_some (Toml.word_integer _)
  · exact fun _ => Toml.optionalNode_some (Toml.word_integer _)
  · exact fun _ => Toml.optionalNode_some (GasSchedule.ofNode_nodes _)

private theorem title_append (rest : List Char) : "\n[gas_schedule]\n".toList ++ rest =
    '\n' :: '[' :: ("gas_schedule".toList ++ ']' :: '\n' :: rest) := rfl

section

variable {config : Config} (small : ∀ word ∈ config.integers, (word.toNat : Int) < Toml.integerBound)

include small

private theorem forms_write : List.Forall₂ Toml.Writes config.forms config.nodes := by
  have depth : (config.maxCallDepth.toNat : Int) < Toml.integerBound := small _ List.mem_cons_self
  have size : (config.maxCodeSize.toNat : Int) < Toml.integerBound :=
    small _ (List.mem_cons_of_mem _ List.mem_cons_self)
  exact .cons (Toml.writes_quote _) (.cons (Toml.writes_quote _) (.cons (Toml.scalar_integer depth)
    (.cons (Toml.scalar_integer size) .nil)))

private theorem render_forms :
    config.render = some (String.ofList ((List.zipWith fieldLine fieldNames config.forms).flatten ++
    '\n' :: '[' :: ("gas_schedule".toList ++ ']' :: '\n' ::
      (List.zipWith fieldLine GasSchedule.costNames config.schedule.forms).flatten))) := by
  have limits : [config.maxCallDepth, config.maxCodeSize].mapM writtenWord =
      some [Nat.toDigits 10 config.maxCallDepth.toNat, Nat.toDigits 10 config.maxCodeSize.toNat] :=
    mapM_of_some (fun word => Nat.toDigits 10 word.toNat)
      (fun word member => writtenWord_small (small word (List.mem_append_left _ member)))
  have costs : config.schedule.costs.mapM writtenWord = some config.schedule.forms :=
    mapM_of_some _ (fun word member => writtenWord_small (small word (List.mem_append_right _ member)))
  rw [← title_append, ← List.append_assoc, render, limits, costs]
  rfl

/-- A configuration whose integers all fit is written as a text that is read as its fields. -/
theorem render_reads : ∃ text, config.render = some text ∧
    (Toml.parse text).bind (fun entries => ofNode (.table .header entries)) = some config := by
  have prices := GasSchedule.forms_write (fun word member => small word (List.mem_append_right _ member))
  have distinct : ((fieldNames.zip config.nodes).map Prod.fst ++ ["gas_schedule"]).Nodup := by
    change fieldNames.Nodup
    decide
  have costs_distinct : ((GasSchedule.costNames.zip config.schedule.nodes).map Prod.fst).Nodup := by
    change GasSchedule.costNames.Nodup
    decide
  have parsed := Toml.parse_fields fieldNames_bare GasSchedule.costNames_bare (forms_write small) prices distinct
    costs_distinct
  refine ⟨_, render_forms small, ?_⟩
  rw [parsed]
  exact ofNode_nodes config

end

private theorem hasTraversal_iff (chars : List Char) : hasTraversal chars = true ↔ ['.', '.'] <:+: chars := by
  fun_induction hasTraversal chars with
  | case1 rest => exact ⟨fun _ => List.infix_append [] ['.', '.'] rest, fun _ => rfl⟩
  | case2 first rest other ih =>
    rw [ih, List.infix_cons_iff]
    refine ⟨.inr, fun found => found.resolve_left (fun front => ?_)⟩
    obtain ⟨later, form⟩ := front
    cases form
    exact other later rfl rfl
  | case3 => exact ⟨nofun, fun found => absurd (List.infix_nil.mp found) nofun⟩

variable {config : Config} {path : String}

private theorem checkPath_plain (plain : ¬['.', '.'] <:+: path.toList) : checkPath path = .ok () :=
  if_neg (mt (hasTraversal_iff _).mp plain)

private theorem save_plain (plain : ¬['.', '.'] <:+: path.toList) :
    config.save path true = config.render.elim (.error .unrepresentable) .ok := by
  rw [save, checkPath_plain plain]
  cases config.render <;> rfl

private theorem load_plain (plain : ¬['.', '.'] <:+: path.toList) (text : String) :
    load path (some text) = parse text := by
  rw [load, checkPath_plain plain]
  rfl

private theorem large_iff (word : UInt64) : 2 ^ 63 - 1 < word.toNat ↔ ¬(word.toNat : Int) < Toml.integerBound := by
  rw [Toml.integerBound]
  omega

private theorem save_large (plain : ¬['.', '.'] <:+: path.toList) {word : UInt64} (member : word ∈ config.integers)
    (large : 2 ^ 63 - 1 < word.toNat) : config.save path true = .error .unrepresentable := by
  rw [save_plain plain, render_large member ((large_iff word).mp large)]
  rfl

private theorem save_reads (plain : ¬['.', '.'] <:+: path.toList)
    (fits : ∀ word ∈ config.integers, word.toNat ≤ 2 ^ 63 - 1) :
    ∃ text, config.save path true = .ok text ∧
      (Toml.parse text).bind (fun entries => ofNode (.table .header entries)) = some config := by
  have small (word : UInt64) (member : word ∈ config.integers) : (word.toNat : Int) < Toml.integerBound :=
    not_not.mp (mt (large_iff word).mpr (Nat.not_lt.mpr (fits word member)))
  obtain ⟨text, rendered, reads⟩ := render_reads small
  refine ⟨text, ?_, reads⟩
  rw [save_plain plain, rendered]
  rfl

/-- Saving under a path that can be written fails for the configurations with an integer above those of the file
format and for no others. The file of any other one is loaded as the same configuration if its rules hold, and
refused for the rule that it breaks if they do not. -/
theorem files_read_back (config : Config) (path : String) (plain : ¬['.', '.'] <:+: path.toList) :
    (config.save path true = .error .unrepresentable ↔ ∃ word ∈ config.integers, 2 ^ 63 - 1 < word.toNat) ∧
      ((∀ word ∈ config.integers, word.toNat ≤ 2 ^ 63 - 1) → ∃ text, config.save path true = .ok text ∧
        (config.problem? = none → load path (some text) = .ok config) ∧
        (∀ problem, config.problem? = some problem → load path (some text) = .error (.invalid problem))) := by
  refine ⟨⟨fun failed => ?_, fun ⟨_, member, large⟩ => save_large plain member large⟩, fun fits => ?_⟩
  · by_contra small
    obtain ⟨text, saved, -⟩ :=
      save_reads plain (fun word member => Nat.not_lt.mp (fun large => small ⟨word, member, large⟩))
    rw [saved] at failed
    cases failed
  · obtain ⟨text, saved, reads⟩ := save_reads plain fits
    refine ⟨text, saved, fun sound => ?_, fun problem broken => ?_⟩
    · rw [load_plain plain, parse, reads]
      simp only [sound]
    · rw [load_plain plain, parse, reads]
      simp only [broken]

theorem host_files_read_back :
    (∃ text, save { reservedPrefix := "it's \"\"\"so\\\n" } "host.toml" true = .ok text ∧
        load "host.toml" (some text) = .ok { reservedPrefix := "it's \"\"\"so\\\n" }) ∧
      (∃ text, save { maxCallDepth := 0 } "host.toml" true = .ok text ∧
        load "host.toml" (some text) = .error (.invalid .callDepthZero)) ∧
      save { maxCodeSize := 9223372036854775808 } "host.toml" true = .error .unrepresentable := by
  have plain : ¬['.', '.'] <:+: "host.toml".toList := mt (hasTraversal_iff _).mpr (by decide)
  refine ⟨?_, ?_, ?_⟩
  · have fits : ∀ word ∈ integers { reservedPrefix := "it's \"\"\"so\\\n" }, word.toNat ≤ 2 ^ 63 - 1 := by
      simp [integers, GasSchedule.costs]
    obtain ⟨text, saved, reads, -⟩ := (files_read_back _ "host.toml" plain).2 fits
    exact ⟨text, saved, reads (by decide)⟩
  · have fits : ∀ word ∈ integers { maxCallDepth := 0 }, word.toNat ≤ 2 ^ 63 - 1 := by
      simp [integers, GasSchedule.costs]
    obtain ⟨text, saved, -, refused⟩ := (files_read_back _ "host.toml" plain).2 fits
    exact ⟨text, saved, refused .callDepthZero (by decide)⟩
  · exact (files_read_back { maxCodeSize := 9223372036854775808 } "host.toml" plain).1.mpr
      ⟨9223372036854775808, by decide, by decide⟩

end Config

end ContractHost
