import ContractHost.Proofs.TomlStrings

/-! Documents of plain keys. A line that defines a key is read as that definition, a file as its lines in order, and
the lines of distinct names give the entries of the open table. -/

namespace ContractHost

namespace Toml

open ContractHost.Parser

variable {rest : List Char}

/-- A name that needs no quotes as a key. -/
def IsBare (name : String) : Prop := name.toList ≠ [] ∧ name.toList.all isBareKey = true

instance (name : String) : Decidable (IsBare name) := inferInstanceAs (Decidable (_ ∧ _))

private theorem IsBare.front {name : String} (bare : IsBare name) :
    ∃ first others, name.toList = first :: others ∧ isBareKey first = true := by
  obtain ⟨filled, each⟩ := bare
  obtain ⟨first, others, form⟩ := List.exists_cons_of_ne_nil filled
  exact ⟨first, others, form, List.all_eq_true.mp each first (form ▸ List.mem_cons_self)⟩

private theorem isBlank_bare {char : Char} (bare : isBareKey char = true) : isBlank char = false := by
  rw [isBlank, beq_eq_false_iff_ne.mpr (ne_of_accepted bare (by decide)),
    beq_eq_false_iff_ne.mpr (ne_of_accepted bare (by decide))]
  rfl

private theorem IsBare.blanks {name : String} (bare : IsBare name) :
    Toml.blanks (name.toList ++ rest) = some ((), name.toList ++ rest) := by
  obtain ⟨first, others, form, accepted⟩ := bare.front
  rw [form]
  exact blanks_none (isBlank_bare accepted) _

private theorem IsBare.simpleKey {name : String} (bare : IsBare name) (stops : rest.takeWhile isBareKey = []) :
    Toml.simpleKey (name.toList ++ rest) = some (name, rest) := by
  obtain ⟨first, others, form, accepted⟩ := bare.front
  have later : takeWhile isBareKey (others ++ rest) = some (others, rest) :=
    takeWhile_append (fun char member => List.all_eq_true.mp bare.2 char (form ▸ List.mem_cons_of_mem _ member)) stops
  have whole : takeSome isBareKey (first :: (others ++ rest)) = some (first :: others, rest) := by
    rw [takeSome, bind_some (satisfy_some accepted), bind_some later]
    rfl
  have name_ofList : String.ofList (first :: others) = name := by
    rw [← form, String.ofList_toList]
  rw [form, List.cons_append]
  refine (orElse_none (bind_none (char_other (ne_of_accepted accepted (by decide))))).trans
    ((orElse_none (bind_none (char_other (ne_of_accepted accepted (by decide))))).trans ?_)
  rw [bind_some whole, name_ofList]
  rfl

private theorem IsBare.key {name : String} (bare : IsBare name) {left : List Char}
    (stops : rest.takeWhile isBareKey = [])
    (skips : Toml.blanks rest = some ((), left)) (single : char '.' left = none) :
    Toml.key (name.toList ++ rest) = some (([], name), left) := by
  have part : (do Toml.blanks; let name ← Toml.simpleKey; Toml.blanks; return name : Parser String)
      (name.toList ++ rest) = some (name, left) := by
    rw [bind_some bare.blanks, bind_some (bare.simpleKey stops), bind_some skips]
    rfl
  have none : Repeats (do char '.'; Toml.blanks; let name ← Toml.simpleKey; Toml.blanks; return name : Parser String)
      left [] left := .stop (bind_none single)
  have names : separated (do Toml.blanks; let name ← Toml.simpleKey; Toml.blanks; return name : Parser String)
      (char '.') (name.toList ++ rest) = some ([name], left) := by
    refine orElse_some ?_
    rw [bind_some part, bind_some none.many]
    rfl
  exact bind_some names

private theorem value_scalar {input : List Char} {result : Node × List Char} (reads : scalar input = some result)
    (depth : Nat) : value depth input = some result := by
  cases depth with
  | zero => exact reads
  | succ => exact orElse_some reads

/-- No scalar starts with a blank. -/
theorem blanks_scalar {input : List Char} {result : Node × List Char} (reads : scalar input = some result) :
    blanks input = some ((), input) := by
  cases input with
  | nil => rfl
  | cons char tail =>
    cases blank : isBlank char with
    | false => exact blanks_none blank tail
    | true =>
      rw [isBlank, Bool.or_eq_true, beq_iff_eq, beq_iff_eq] at blank
      rcases blank with rfl | rfl <;> cases reads

private theorem definition_reads {name : String} (bare : IsBare name) {written : List Char} {node : Node}
    (reads : scalar (written ++ '\n' :: rest) = some (node, '\n' :: rest)) :
    definition (name.toList ++ ' ' :: '=' :: ' ' :: (written ++ '\n' :: rest)) =
      some (.define [] name node, rest) := by
  have skips : blanks (' ' :: (written ++ '\n' :: rest)) = some ((), written ++ '\n' :: rest) := by
    have first : blanks (' ' :: (written ++ '\n' :: rest)) = blanks (written ++ '\n' :: rest) := rfl
    rw [first, blanks_scalar reads]
  have named : key (name.toList ++ ' ' :: '=' :: ' ' :: (written ++ '\n' :: rest)) =
      some (([], name), '=' :: ' ' :: (written ++ '\n' :: rest)) := bare.key rfl rfl rfl
  refine (bind_some named).trans ((bind_some (char_same _)).trans ((bind_some skips).trans ?_))
  exact bind_some (value_scalar reads _)

private theorem header_reads {name : String} (bare : IsBare name) :
    header ('[' :: (name.toList ++ ']' :: '\n' :: rest)) = some (.table [] name, rest) := by
  have named : key (name.toList ++ ']' :: '\n' :: rest) = some (([], name), ']' :: '\n' :: rest) :=
    bare.key rfl rfl rfl
  exact (bind_some (char_same _)).trans (bind_some named)

/-- A text that starts with a line and is read as these lines up to its end. -/
structure Lines (input : List Char) (lines : List (Option Statement)) : Prop where
  start : blanks input = some ((), input)
  repeats : Repeats line input lines []

theorem Lines.ends : Lines [] [] := ⟨rfl, .stop rfl⟩

theorem Lines.gap {lines : List (Option Statement)} (held : Lines rest lines) :
    Lines ('\n' :: rest) (none :: lines) where
  start := rfl
  repeats := by
    have reads : line ('\n' :: rest) = some (none, rest) := by
      refine (bind_some (orElse_some (bind_some (orElse_some (char_same _))))).trans ?_
      rw [bind_some held.start]
      rfl
    exact .step reads (Nat.lt_succ_self _) held.repeats

theorem Lines.header {lines : List (Option Statement)} (held : Lines rest lines) {name : String} (bare : IsBare name) :
    Lines ('[' :: (name.toList ++ ']' :: '\n' :: rest)) (some (.table [] name) :: lines) where
  start := rfl
  repeats := by
    have single : elementHeader ('[' :: (name.toList ++ ']' :: '\n' :: rest)) = none := by
      obtain ⟨first, others, form, accepted⟩ := bare.front
      rw [form]
      exact bind_none ((literal_same '[' ['[']).trans (literal_other (ne_of_accepted accepted (by decide))))
    have reads : line ('[' :: (name.toList ++ ']' :: '\n' :: rest)) = some (some (.table [] name), rest) := by
      refine (bind_some ((orElse_none rfl).trans ((orElse_none rfl).trans ((orElse_none (bind_none single)).trans
        (orElse_some (bind_some (header_reads bare))))))).trans ?_
      rw [bind_some held.start]
      rfl
    refine .step reads ?_ held.repeats
    simp only [List.length_append, List.length_cons]
    omega

theorem Lines.definition {lines : List (Option Statement)} (held : Lines rest lines) {name : String}
    (bare : IsBare name) {written : List Char} {node : Node} (reads : scalar (written ++ '\n' :: rest) = some (node, '\n' :: rest)) :
    Lines (name.toList ++ ' ' :: '=' :: ' ' :: (written ++ '\n' :: rest)) (some (.define [] name node) :: lines) where
  start := bare.blanks
  repeats := by
    have defined := definition_reads bare reads
    have found : line (name.toList ++ ' ' :: '=' :: ' ' :: (written ++ '\n' :: rest)) =
        some (some (.define [] name node), rest) := by
      obtain ⟨first, others, form, accepted⟩ := bare.front
      rw [form, List.cons_append] at defined ⊢
      have other (mark : Char) (odd : isBareKey mark = false) : first ≠ mark := ne_of_accepted accepted odd
      refine (bind_some ((orElse_none (bind_none (newline_none (other _ (by decide)) (other _ (by decide)) _))).trans
        ((orElse_none (bind_none (bind_none (char_other (other _ (by decide)))))).trans
          ((orElse_none (bind_none (bind_none (literal_other (other _ (by decide)))))).trans
            ((orElse_none (bind_none (bind_none (char_other (other _ (by decide)))))).trans
              (bind_some defined)))))).trans ?_
      rw [bind_some held.start]
      rfl
    refine .step found ?_ held.repeats
    simp only [List.length_append, List.length_cons]
    omega

/-- The mark of a byte order starts no line. -/
theorem Lines.unmarked {input : List Char} {lines : List (Option Statement)} (held : Lines input lines) :
    char '\ufeff' input = none := by
  cases input with
  | nil => rfl
  | cons first tail =>
    refine char_other ?_
    rintro rfl
    have fails : line ('\ufeff' :: tail) = none := rfl
    cases held.repeats with
    | step reads =>
      rw [fails] at reads
      cases reads

theorem document_lines {input : List Char} {lines : List (Option Statement)} (held : Lines input lines) :
    document input = some (lines.filterMap id, []) := by
  refine (bind_some (optional_none held.unmarked)).trans ((bind_some held.start).trans ?_)
  exact (bind_some held.repeats.many).trans (bind_some rfl)

private theorem find?_fresh {entries : Entries} {name : String} (fresh : name ∉ entries.map Prod.fst) :
    entries.find? name = none := by
  rw [Entries.find?, List.lookup_eq_none_iff]
  intro entry member
  rw [bne_iff_ne]
  rintro rfl
  exact fresh (List.mem_map_of_mem member)

private theorem set_fresh {entries : Entries} {name : String} (fresh : name ∉ entries.map Prod.fst) (node : Node) :
    entries.set name node = entries ++ [(name, node)] := by
  induction entries with
  | nil => rfl
  | cons first others ih =>
    rw [List.map_cons, List.mem_cons, not_or] at fresh
    rw [Entries.set, if_neg (Ne.symm fresh.1), ih fresh.2]
    rfl

private theorem find?_last {entries : Entries} {name : String} (fresh : name ∉ entries.map Prod.fst) (node : Node) :
    Entries.find? (entries ++ [(name, node)]) name = some node := by
  have none : entries.lookup name = none := find?_fresh fresh
  rw [Entries.find?, List.lookup_append, none]
  exact List.lookup_cons_self

private theorem set_last {entries : Entries} {name : String} (fresh : name ∉ entries.map Prod.fst) (old node : Node) :
    Entries.set (entries ++ [(name, old)]) name node = entries ++ [(name, node)] := by
  induction entries with
  | nil => exact if_pos rfl
  | cons first others ih =>
    rw [List.map_cons, List.mem_cons, not_or] at fresh
    rw [List.cons_append, Entries.set, if_neg (Ne.symm fresh.1), ih fresh.2]
    rfl

private theorem find?_of_mem {entries : Entries} (distinct : (entries.map Prod.fst).Nodup) {entry : String × Node}
    (member : entry ∈ entries) : entries.find? entry.1 = some entry.2 := by
  induction entries with
  | nil => cases member
  | cons first others ih =>
    obtain ⟨absent, later⟩ := List.nodup_cons.mp distinct
    rcases List.mem_cons.mp member with rfl | among
    · exact List.lookup_cons_self
    · have different : entry.1 ≠ first.1 := fun same => absent (same ▸ List.mem_map_of_mem among)
      rw [Entries.find?, List.lookup_cons, beq_eq_false_iff_ne.mpr different]
      exact ih later among

theorem find?_zip {names : List String} (distinct : names.Nodup) {nodes : List Node}
    (complete : names.length = nodes.length) :
    names.map (fun name => Entries.find? (names.zip nodes) name) = nodes.map some := by
  have titles : (names.zip nodes).map Prod.fst = names := List.map_fst_zip complete.le
  have contents : (names.zip nodes).map Prod.snd = nodes := List.map_snd_zip complete.ge
  have each : (names.zip nodes).map (fun entry => Entries.find? (names.zip nodes) entry.1) =
      (names.zip nodes).map (fun entry => some entry.2) :=
    List.map_congr_left (fun _ member => find?_of_mem (titles.symm ▸ distinct) member)
  calc names.map (fun name => Entries.find? (names.zip nodes) name)
    _ = ((names.zip nodes).map Prod.fst).map (fun name => Entries.find? (names.zip nodes) name) := by rw [titles]
    _ = (names.zip nodes).map (fun entry => some entry.2) := List.map_map.trans each
    _ = ((names.zip nodes).map Prod.snd).map some := List.map_map.symm
    _ = nodes.map some := by rw [contents]

private theorem define_fresh {entries : Entries} {name : String} (fresh : name ∉ entries.map Prod.fst) (node : Node) :
    Entries.define [] name node .header entries = some (entries ++ [(name, node)]) := by
  rw [Entries.define, Entries.descend, if_neg (by decide), find?_fresh fresh, set_fresh fresh]
  rfl

/-- Where the open table stands in a document does not matter to the definitions that follow. -/
theorem foldlM_defines {open? : List String} {whole : Entries → Entries}
    (opens : ∀ change inner,
      Entries.descend false change open? .header (whole inner) = (change .header inner).map whole)
    {inner pairs : Entries} (distinct : ((inner ++ pairs).map Prod.fst).Nodup) :
    (pairs.map (fun pair => Statement.define [] pair.1 pair.2)).foldlM Document.step ⟨whole inner, open?⟩ =
      some ⟨whole (inner ++ pairs), open?⟩ := by
  induction pairs generalizing inner with
  | nil => rw [List.append_nil]; rfl
  | cons pair pairs ih =>
    have fresh : pair.1 ∉ inner.map Prod.fst := by
      rw [List.map_append, List.nodup_append] at distinct
      exact fun member => distinct.2.2 _ member _ List.mem_cons_self rfl
    have stepped : Document.step ⟨whole inner, open?⟩ (.define [] pair.1 pair.2) =
        some ⟨whole (inner ++ [pair]), open?⟩ := by
      rw [Document.step, opens, define_fresh fresh]
      rfl
    rw [List.append_cons] at distinct ⊢
    rw [List.map_cons, List.foldlM_cons, stepped]
    exact ih distinct

/-- A document that defines some names and then those of one table. -/
theorem ofStatements_table {title : String} {fields inner : Entries}
    (distinct : (fields.map Prod.fst ++ [title]).Nodup) (inner_distinct : (inner.map Prod.fst).Nodup) :
    Document.ofStatements (fields.map (fun pair => .define [] pair.1 pair.2) ++
      .table [] title :: inner.map (fun pair => .define [] pair.1 pair.2)) =
        some (fields ++ [(title, .table .header inner)]) := by
  have fresh : title ∉ fields.map Prod.fst :=
    fun member => (List.nodup_append.mp distinct).2.2 _ member _ List.mem_cons_self rfl
  have outer (change : Origin → Entries → Option Entries) (held : Entries) :
      Entries.descend false change [] .header (id held) = (change .header held).map id := by
    rw [Option.map_id]
    rfl
  have inside (change : Origin → Entries → Option Entries) (held : Entries) :
      Entries.descend false change [title] .header (fields ++ [(title, .table .header held)]) =
        (change .header held).map (fun entries => fields ++ [(title, .table .header entries)]) := by
    simp only [Entries.descend, find?_last fresh, set_last fresh]
    cases change .header held <;> rfl
  have first : (fields.map (fun pair => Statement.define [] pair.1 pair.2)).foldlM Document.step ⟨[], []⟩ =
      some ⟨fields, []⟩ := foldlM_defines outer (List.nodup_append.mp distinct).1
  have opened : Document.step ⟨fields, []⟩ (.table [] title) =
      some ⟨fields ++ [(title, .table .header [])], [title]⟩ := by
    rw [Document.step, Entries.openTable, Entries.descend, find?_fresh fresh]
    simp only [set_fresh fresh]
    rfl
  have second : (inner.map (fun pair => Statement.define [] pair.1 pair.2)).foldlM Document.step
      ⟨fields ++ [(title, .table .header [])], [title]⟩ =
        some ⟨fields ++ [(title, .table .header inner)], [title]⟩ := foldlM_defines inside inner_distinct
  simp only [Document.ofStatements, List.foldlM_append, List.foldlM_cons, first, opened, second, Option.bind_eq_bind,
    Option.bind_some]
  rfl

end Toml

end ContractHost
