import Stabs.Interchange.Target
import Stabs.Proofs.Toml.Lines
import Stabs.Proofs.Toml.Tables

/-!
# Targets in TOML

The text of a target is a list of lines: three keys with their values, and either an empty array or
one table for each register mapping. The lines are read one by one, the tables are put together in
their order, and what is found under the keys is the target.
-/
namespace Stabs

open Toml Toml.Reader

/-! ## The lines -/

namespace RegisterMapping

/-- The table of a mapping. -/
def entries (mapping : RegisterMapping) : Entries :=
  [("hard", .integer mapping.hard.toNat), ("debugger", .integer mapping.debugger.toNat)]

def lines (mapping : RegisterMapping) : List Line :=
  [.itemHeader ⟨[], "register_numbers"⟩, .assignment ⟨[], "hard"⟩ (.integer mapping.hard.toNat),
    .assignment ⟨[], "debugger"⟩ (.integer mapping.debugger.toNat)]

end RegisterMapping

namespace Target

/-- The keys at the top of the text, with their values. -/
def topEntries (target : Target) : Entries :=
  [("big_endian", .boolean target.bigEndian),
    ("first_block_number", .integer target.firstBlock.toNat),
    ("text_label", .string target.textLabel)]

def registerLines : List RegisterMapping → List Line
  | [] => [.assignment ⟨[], "register_numbers"⟩ (.array [])]
  | registers => registers.flatMap RegisterMapping.lines

/-- The lines of the text of a target. -/
def lines (target : Target) : List Line :=
  target.topEntries.map (fun (key, v) => .assignment ⟨[], key⟩ v) ++ registerLines target.registers

end Target

theorem le_maxValue (n : UInt32) : (n.toNat : Int) ≤ Int64.maxValue.toInt := by
  have small := n.toNat_lt
  have bound : Int64.maxValue.toInt = 9223372036854775807 := by decide
  omega

/-- A key with its value is a line in front of others. -/
theorem says_assignment {name : String} {text rest : List Char} {v : Toml} {found : List Line}
    (bare : Bare name.toList) (value : ReadsValue text v) (h : Says rest found) :
    Says (assignment name.toList text ++ '\n' :: rest) (.assignment ⟨[], name⟩ v :: found) := by
  have reads := @line_assignment _ _ rest v bare value
  rw [String.ofList_toList] at reads
  obtain ⟨c, cs, front, blank, allowed, hash⟩ := bare.front
  have inside : assignment name.toList text = c :: (cs ++ [' ', '=', ' '] ++ text) := by
    rw [assignment, front]
    rfl
  rw [inside] at reads ⊢
  exact says_line blank allowed hash reads h

theorem says_itemHeader {name : String} {rest : List Char} {found : List Line}
    (bare : Bare name.toList) (h : Says rest found) :
    Says (itemHeader name.toList ++ '\n' :: rest) (.itemHeader ⟨[], name⟩ :: found) := by
  have reads := @line_itemHeader _ rest bare
  rw [String.ofList_toList] at reads
  exact says_line rfl rfl (by decide) reads h

/-- The text of a mapping is an empty line, a header and two keys. -/
theorem toList_mapping (hard debugger : Nat) (rest : List Char) :
    ("\n[[register_numbers]]\nhard = " ++ hard.repr ++ "\ndebugger = " ++ debugger.repr ++
        "\n").toList ++ rest =
      '\n' :: (itemHeader "register_numbers".toList ++ '\n' ::
        (assignment "hard".toList (Nat.toDigits 10 hard) ++ '\n' ::
          (assignment "debugger".toList (Nat.toDigits 10 debugger) ++ '\n' :: rest))) := by
  have first : "\n[[register_numbers]]\nhard = ".toList =
      '\n' :: (itemHeader "register_numbers".toList ++ '\n' :: assignment "hard".toList []) := by
    decide
  have second : "\ndebugger = ".toList = '\n' :: assignment "debugger".toList [] := by decide
  have last : "\n".toList = ['\n'] := by decide
  rw [String.toList_append, String.toList_append, String.toList_append, String.toList_append,
    first, second, last, Nat.toList_repr, Nat.toList_repr]
  simp [assignment]

theorem says_mapping (mapping : RegisterMapping) {rest : List Char} {found : List Line}
    (h : Says rest found) :
    Says ((Target.renderMapping mapping).toList ++ rest) (mapping.lines ++ found) := by
  have hard := readsValue_natural (le_maxValue mapping.hard)
  have debugger := readsValue_natural (le_maxValue mapping.debugger)
  have last := @says_assignment "debugger" _ _ _ _ (.of_all (by decide) (by decide)) debugger h
  have both := @says_assignment "hard" _ _ _ _ (.of_all (by decide) (by decide)) hard last
  exact .of_eq (toList_mapping _ _ _)
    (says_blank (says_itemHeader (.of_all (by decide) (by decide)) both))

theorem says_mappings (registers : List RegisterMapping) :
    Says (String.join (registers.map Target.renderMapping)).toList
      (registers.flatMap RegisterMapping.lines) := by
  induction registers with
  | nil => exact says_nil
  | cons mapping registers ih =>
    rw [List.map_cons, String.join_cons, String.toList_append, List.flatMap_cons]
    exact says_mapping mapping ih

theorem says_registers (registers : List RegisterMapping) :
    Says (match registers with
      | [] => "register_numbers = []\n"
      | registers => String.join (registers.map Target.renderMapping)).toList
      (Target.registerLines registers) := by
  cases registers with
  | nil =>
    have text : "register_numbers = []\n".toList =
        assignment "register_numbers".toList ['[', ']'] ++ ['\n'] := by decide
    rw [text]
    exact says_assignment (.of_all (by decide) (by decide)) readsValue_emptyArray says_nil
  | cons mapping registers => exact says_mappings (mapping :: registers)

/-- The text of a target starts with three keys. -/
theorem toList_top (flag : String) (block : Nat) (label : List Char) (more : String) :
    ("big_endian = " ++ flag ++ "\nfirst_block_number = " ++ block.repr ++ "\ntext_label = " ++
        String.ofList label ++ "\n" ++ more).toList =
      assignment "big_endian".toList flag.toList ++ '\n' ::
        (assignment "first_block_number".toList (Nat.toDigits 10 block) ++ '\n' ::
          (assignment "text_label".toList label ++ '\n' :: more.toList)) := by
  have first : "big_endian = ".toList = assignment "big_endian".toList [] := by decide
  have second : "\nfirst_block_number = ".toList =
    '\n' :: assignment "first_block_number".toList [] := by decide
  have third : "\ntext_label = ".toList = '\n' :: assignment "text_label".toList [] := by decide
  have last : "\n".toList = ['\n'] := by decide
  rw [String.toList_append, String.toList_append, String.toList_append, String.toList_append,
    String.toList_append, String.toList_append, String.toList_append, first, second, third, last,
    Nat.toList_repr, String.toList_ofList]
  simp [assignment]

/-- The text of a target says its lines. -/
theorem says_target (target : Target) : Says target.render.toList target.lines := by
  have flag := readsValue_bool target.bigEndian
  have block := readsValue_natural (le_maxValue target.firstBlock)
  have label := readsValue_string target.textLabel.toList
  rw [String.ofList_toList] at label
  have third := @says_assignment "text_label" _ _ _ _ (.of_all (by decide) (by decide)) label
    (says_registers target.registers)
  have second := @says_assignment "first_block_number" _ _ _ _ (.of_all (by decide) (by decide))
    block third
  have first := @says_assignment "big_endian" _ _ _ _ (.of_all (by decide) (by decide)) flag second
  exact .of_eq (toList_top _ _ _ _) first

/-! ## The tables -/

namespace Target

/-- What the text of a target holds. -/
def entries (target : Target) : Entries :=
  match target.registers with
  | [] => target.topEntries ++ [("register_numbers", .array [])]
  | registers =>
    Draft.withTables target.topEntries "register_numbers" (registers.map RegisterMapping.entries)

end Target

theorem foldlM_mappings {base : Entries} (fresh : base.lookup "register_numbers" = none)
    (registers : List RegisterMapping) (items : List Entries) (current : List String) :
    ((registers.flatMap RegisterMapping.lines).foldlM Draft.add
      ⟨Draft.withTables base "register_numbers" items, current⟩).map Draft.root =
        some (Draft.withTables base "register_numbers"
          (items ++ registers.map RegisterMapping.entries)) := by
  induction registers generalizing items current with
  | nil => simp
  | cons mapping registers ih =>
    have first := @Draft.add_inside base [] "register_numbers" "hard" fresh rfl items
      (.integer mapping.hard.toNat)
    have second := @Draft.add_inside base [("hard", .integer mapping.hard.toNat)]
      "register_numbers" "debugger" fresh rfl items (.integer mapping.debugger.toNat)
    have rest := ih (items ++ [mapping.entries]) ["register_numbers"]
    rw [List.append_assoc] at rest
    rw [List.flatMap_cons, RegisterMapping.lines, List.cons_append, List.cons_append,
      List.cons_append, List.nil_append, List.foldlM_cons, Draft.add_itemHeader fresh,
      Option.bind_eq_bind, Option.bind_some, List.foldlM_cons, first, Option.bind_eq_bind,
      Option.bind_some, List.foldlM_cons, List.nil_append, second]
    exact rest

/-- The lines of a target make its tables. -/
theorem ofLines?_lines (target : Target) : ofLines? target.lines = some target.entries := by
  have one := @Draft.add_assignment [] "big_endian" rfl (.boolean target.bigEndian)
  have two := @Draft.add_assignment [("big_endian", .boolean target.bigEndian)]
    "first_block_number" rfl (.integer target.firstBlock.toNat)
  have three := @Draft.add_assignment [("big_endian", .boolean target.bigEndian),
    ("first_block_number", .integer target.firstBlock.toNat)] "text_label" rfl
      (.string target.textLabel)
  have fresh : target.topEntries.lookup "register_numbers" = none := rfl
  have top : (target.topEntries.map fun (key, v) => Line.assignment ⟨[], key⟩ v).foldlM Draft.add
      {} = some ⟨target.topEntries, []⟩ := by
    simp only [Target.topEntries, List.map_cons, List.map_nil, List.foldlM_cons, List.foldlM_nil,
      one, List.nil_append, Option.bind_eq_bind, Option.bind_some, two, List.singleton_append,
      three]
    rfl
  have behind : ((Target.registerLines target.registers).foldlM Draft.add
      ⟨target.topEntries, []⟩).map Draft.root = some target.entries := by
    unfold Target.entries Target.registerLines
    cases target.registers with
    | nil =>
      have last := Draft.add_assignment fresh (.array [])
      simp [last]
    | cons mapping registers => exact foldlM_mappings fresh (mapping :: registers) [] []
  rw [← behind]
  simp only [ofLines?, Target.lines, List.foldlM_append, top, Option.bind_eq_bind,
    Option.bind_some]
  exact (Option.map_eq_bind ..).symm

/-! ## The target -/

theorem asUInt32?_integer (n : UInt32) : Toml.asUInt32? (.integer n.toNat) = some n := by
  have bounds : 0 ≤ (n.toNat : Int) ∧ (n.toNat : Int) < UInt32.size :=
    ⟨Int.natCast_nonneg _, Int.ofNat_lt.mpr n.toNat_lt_size⟩
  simp only [Toml.asUInt32?, if_pos bounds, Int.toNat_natCast, UInt32.ofNat_toNat]

theorem RegisterMapping.ofToml?_entries (mapping : RegisterMapping) :
    ofToml? (.table .header mapping.entries) = some mapping := by
  -- The numbers stay variables: comparing the bounds of their type by computation is too deep.
  have shape (v w : Toml) (hard : v.asUInt32? = some mapping.hard)
      (debugger : w.asUInt32? = some mapping.debugger) :
      ofToml? (.table .header [("hard", v), ("debugger", w)]) = some mapping := by
    simp [ofToml?, List.lookup_cons, hard, debugger]
  exact shape _ _ (asUInt32?_integer _) (asUInt32?_integer _)

theorem mapM_ofToml? (registers : List RegisterMapping) :
    ((registers.map RegisterMapping.entries).map (Toml.table .header)).mapM
      RegisterMapping.ofToml? = some registers := by
  induction registers with
  | nil => rfl
  | cons mapping registers ih =>
    rw [List.map_cons, List.map_cons, List.mapM_cons, RegisterMapping.ofToml?_entries, ih]
    rfl

/-- The values under the keys of a target are those of the target. -/
theorem Target.ofToml?_entries (target : Target) : Target.ofToml? target.entries = some target := by
  have shape (block list : Toml) (vs : List Toml) (number : block.asUInt32? = some target.firstBlock)
      (elements : list.asList? = some vs)
      (read : vs.mapM RegisterMapping.ofToml? = some target.registers) :
      Target.ofToml? [("big_endian", .boolean target.bigEndian), ("first_block_number", block),
        ("text_label", .string target.textLabel), ("register_numbers", list)] = some target := by
    simp [ofToml?, keyOr, List.lookup_cons, Toml.asBool?, Toml.asText?, number, elements, read]
  have number := asUInt32?_integer target.firstBlock
  have read := mapM_ofToml? target.registers
  unfold entries
  cases registers : target.registers with
  | nil => exact shape _ _ [] number rfl (by rw [registers]; rfl)
  | cons mapping others =>
    rw [registers] at read
    exact shape _ _ _ number rfl (by rw [registers]; exact read)

/-- The text of a target is read back as the target. -/
theorem Target.parse_written (target : Target) : Target.parse target.render = .ok target := by
  have unmarked : skipMark target.render.toList = target.render.toList := by
    have text : target.render.toList = _ := toList_top _ _ _ _
    rw [text]
    rfl
  rw [parse, parse?, unmarked]
  simp [says_target target _ (Nat.lt_succ_self _), ofLines?_lines, ofToml?_entries]

end Stabs
