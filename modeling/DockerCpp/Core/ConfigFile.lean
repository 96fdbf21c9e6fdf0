/-
  DockerCpp.Core.ConfigFile — the configuration file of core/ (`saveToFile` and `loadFromFile`
  of `config.cpp`).

  A value is a line, `key = value`, and nothing in it is quoted. A load reads every value as
  a string, cuts a line at its first `=`, drops blanks and tabs around both parts, and skips
  lines that begin with `#`.

  So a saved configuration is loaded again exactly when its values are strings on one line
  with no blank at an end, and its keys are so too, without `=` and not beginning with `#`
  (`file_round_trip_iff`, `a_number_comes_back_as_a_string`).
-/

import DockerCpp.Core.Config
import DockerCpp.Lib.Stream

namespace DockerCpp.Core.ConfigManager

open Lib

/-- The texts of the files that can be opened, and the names a file can be created under. -/
structure Files where
  text : String → Option (List Char)
  writable : String → Bool

/-! ## The two functions -/

/-- How `<<` prints a value; `number` is how it prints a `double`. -/
def printed (number : UInt64 → String) : ConfigValue → String
  | .string s => s
  | .integer n => toString n.toInt
  | .double bits => number bits
  | .boolean b => if b then "true" else "false"

def lineOf (number : UInt64 → String) (e : String × ConfigValue) : List Char :=
  e.1.toList ++ " = ".toList ++ (printed number e.2).toList

/-- `order` is how `config_data_` is iterated. -/
def saveToFile (number : UInt64 → String) (order : List (String × ConfigValue)) (filename : String) (files : Files) :
    Except Error Files :=
  if files.writable filename then
    let text := order.flatMap fun e => lineOf number e ++ ['\n']
    .ok { files with text := fun name => if name = filename then some text else files.text name }
  else .error (.container ⟨.fileNotFound, "Cannot create config file: " ++ filename⟩)

def isBlank (c : Char) : Bool := c == ' ' || c == '\t'

/-- The key and the value of a line. -/
def parseLine (line : List Char) : Option (List Char × List Char) :=
  if line.isEmpty ∨ line.head? = some '#' then none
  else
    match find ['='] line 0 with
    | none => none
    | some eqPos => some (trim isBlank (line.take eqPos), trim isBlank (line.drop (eqPos + 1)))

/-- Every value is a string. -/
def entryOf (line : List Char) : Option (String × ConfigValue) :=
  (parseLine line).map fun e => (String.ofList e.1, .string (String.ofList e.2))

def loadLine (c : ConfigManager) (line : List Char) : ConfigManager :=
  match entryOf line with
  | none => c
  | some (key, value) => c.setValue key value

def loadFromFile (c : ConfigManager) (filename : String) (files : Files) : Except Error ConfigManager :=
  match files.text filename with
  | none => .error (.container ⟨.fileNotFound, "Cannot open config file: " ++ filename⟩)
  | some text => .ok ((Stream.pieces '\n' text).foldl loadLine c)

/-! ## One line -/

/-- One line, with no blank at an end. -/
def Plain (s : List Char) : Prop := '\n' ∉ s ∧ Trimmed isBlank s

instance (s : List Char) : Decidable (Plain s) := inferInstanceAs (Decidable (_ ∧ _))

theorem parseLine_eq {before : List Char} (h : '=' ∉ before) (hcomment : before.head? ≠ some '#') (after : List Char) :
    parseLine (before ++ '=' :: after) = some (trim isBlank before, trim isBlank after) := by
  have hfind : find ['='] (before ++ '=' :: after) 0 = some before.length := by
    rw [find, List.drop_zero, indexOf_singleton h]
    simp
  have hread : ¬((before ++ '=' :: after).isEmpty = true ∨ (before ++ '=' :: after).head? = some '#') := by
    cases before with
    | nil => simp
    | cons c before => simpa using hcomment
  rw [parseLine, if_neg hread, hfind]
  simp

theorem parseLine_sound {line key value : List Char} (hline : '\n' ∉ line) (h : parseLine line = some (key, value)) :
    '=' ∉ key ∧ Plain key ∧ Plain value := by
  by_cases hmem : '=' ∈ line
  · obtain ⟨before, after, rfl, hbefore⟩ := List.eq_append_cons_of_mem hmem
    by_cases hcomment : before.head? = some '#'
    · obtain ⟨rest, rfl⟩ := List.head?_eq_some_iff.mp hcomment
      simp [parseLine] at h
    · rw [parseLine_eq hbefore hcomment] at h
      cases h
      have hnewline : ∀ part, part ⊆ before ++ '=' :: after → '\n' ∉ trim isBlank part := fun part hpart hin =>
        hline (hpart (trim_subset isBlank part hin))
      exact ⟨fun hin => hbefore (trim_subset isBlank before hin),
        ⟨hnewline before (List.subset_append_left _ _), trimmed_trim _ _⟩,
        hnewline after fun c hc => List.mem_append_right _ (List.mem_cons_of_mem _ hc), trimmed_trim _ _⟩
  · have hnone : find ['='] line 0 = none := by
      rw [find, List.drop_zero, indexOf_singleton_none hmem]
      rfl
    rw [parseLine, hnone] at h
    split at h <;> cases h

variable {e : String × ConfigValue} {order : List (String × ConfigValue)} {value : ConfigValue}

/-- A saved key and value, unless the line is a comment. -/
theorem parseLine_lineOf (number : UInt64 → String) (hkey : '=' ∉ e.1.toList)
    (hk : Trimmed isBlank e.1.toList) (hv : Trimmed isBlank (printed number e.2).toList) :
    parseLine (lineOf number e) =
      if e.1.toList.head? = some '#' then none else some (e.1.toList, (printed number e.2).toList) := by
  have hblank : ∀ c ∈ [' '], isBlank c = true := by simp [isBlank]
  have hnil : ∀ c ∈ ([] : List Char), isBlank c = true := by simp
  have hline : lineOf number e = (e.1.toList ++ [' ']) ++ '=' :: ([' '] ++ ((printed number e.2).toList ++ [])) := by
    simp [lineOf]
  split
  · rename_i hcomment
    obtain ⟨rest, hrest⟩ := List.head?_eq_some_iff.mp hcomment
    rw [parseLine, if_pos (Or.inr (by rw [hline, hrest]; rfl))]
  · rename_i hcomment
    have hbefore : '=' ∉ e.1.toList ++ [' '] := by simpa using hkey
    have hhead : (e.1.toList ++ [' ']).head? ≠ some '#' := by
      cases hchars : e.1.toList with
      | nil => decide
      | cons c rest => simpa [hchars] using hcomment
    have hleft : trim isBlank (e.1.toList ++ [' ']) = e.1.toList := trim_pad hk hnil hblank
    rw [hline, parseLine_eq hbefore hhead, hleft, trim_pad hv hblank hnil]

def PlainValue : ConfigValue → Prop
  | .string s => Plain s.toList
  | _ => False

instance : DecidablePred PlainValue
  | .string s => inferInstanceAs (Decidable (Plain s.toList))
  | .integer _ | .double _ | .boolean _ => inferInstanceAs (Decidable False)

theorem PlainValue.printed {v : ConfigValue} (h : PlainValue v) (number : UInt64 → String) :
    Plain (printed number v).toList ∧ v = .string (ConfigManager.printed number v) := by
  cases v with
  | string s => exact ⟨h, rfl⟩
  | _ => exact h.elim

/-- What a line gives. -/
theorem entryOf_sound {line : List Char} {key : String} (hline : '\n' ∉ line)
    (h : entryOf line = some (key, value)) : '=' ∉ key.toList ∧ Plain key.toList ∧ PlainValue value := by
  obtain ⟨⟨k, v⟩, hparse, heq⟩ := Option.map_eq_some_iff.mp h
  cases heq
  simpa [PlainValue] using parseLine_sound hline hparse

theorem entryOf_lineOf (number : UInt64 → String) (hkey : '=' ∉ e.1.toList)
    (hk : Plain e.1.toList) (hv : PlainValue e.2) :
    entryOf (lineOf number e) = if e.1.toList.head? = some '#' then none else some e := by
  obtain ⟨hplain, hstring⟩ := hv.printed number
  rw [entryOf, parseLine_lineOf number hkey hk.2 hplain.2]
  split
  · rfl
  · rw [Option.map_some, String.ofList_toList, String.ofList_toList, ← hstring]

theorem newline_notMem_lineOf (number : UInt64 → String) (hk : Plain e.1.toList)
    (hv : PlainValue e.2) : '\n' ∉ lineOf number e := by
  simp [lineOf, hk.1, (hv.printed number).1.1]

/-! ## Saving and loading -/

theorem load_lines (c : ConfigManager) (lines : List (List Char)) :
    lines.foldl loadLine c =
      { c with configData := (lines.filterMap entryOf).foldl (fun m e => m.insert e.1 e.2) c.configData } := by
  induction lines generalizing c with
  | nil => cases c; rfl
  | cons line lines ih =>
    rw [List.foldl_cons, ih, loadLine]
    cases hline : entryOf line with
    | none => simp [hline]
    | some e => simp [hline, setValue]

/-- `#` at the beginning of a key makes its line a comment. -/
def PlainKey (key : String) : Prop := Plain key.toList ∧ '=' ∉ key.toList ∧ key.toList.head? ≠ some '#'

instance (key : String) : Decidable (PlainKey key) := inferInstanceAs (Decidable (_ ∧ _))

/-- The entries a load of the saved text sets. -/
def reloaded (number : UInt64 → String) (order : List (String × ConfigValue)) : List (String × ConfigValue) :=
  (Stream.pieces '\n' (order.flatMap fun e => lineOf number e ++ ['\n'])).filterMap entryOf

theorem reloaded_sound {number : UInt64 → String} {key : String}
    (h : (key, value) ∈ reloaded number order) :
    '=' ∉ key.toList ∧ Plain key.toList ∧ PlainValue value := by
  obtain ⟨line, hline, hentry⟩ := List.mem_filterMap.mp h
  exact entryOf_sound (Stream.notMem_of_mem_pieces hline) hentry

/-- Entries on lines of their own are set again, except those in comments. -/
theorem reloaded_plain (number : UInt64 → String)
    (h : ∀ e ∈ order, '=' ∉ e.1.toList ∧ Plain e.1.toList ∧ PlainValue e.2) :
    reloaded number order = order.filter fun e => e.1.toList.head? ≠ some '#' := by
  have hlines : Stream.pieces '\n' ((order.map (lineOf number)).flatMap (· ++ ['\n'])) = order.map (lineOf number) := by
    apply Stream.pieces_flatMap
    intro line hline
    obtain ⟨e, he, rfl⟩ := List.mem_map.mp hline
    exact newline_notMem_lineOf number (h e he).2.1 (h e he).2.2
  rw [List.flatMap_map] at hlines
  rw [reloaded, hlines, List.filterMap_map, ← List.filterMap_eq_filter]
  refine List.filterMap_congr fun e he => ?_
  obtain ⟨hkey, hk, hv⟩ := h e he
  rw [Function.comp_apply, entryOf_lineOf number hkey hk hv]
  by_cases hcomment : e.1.toList.head? = some '#'
  · simp [hcomment, Option.guard]
  · simp [hcomment]

/-- A saved configuration is loaded into a fresh manager as it was iff its values are strings
    on one line, with no blank at an end, and its keys are so too, have no `=` in them and do
    not begin with `#`. -/
theorem file_round_trip_iff (number : UInt64 → String) (c : ConfigManager) {order : List (String × ConfigValue)}
    (h : order.Perm c.configData.toList) {filename : String} {files files' : Files}
    (hsave : saveToFile number order filename files = .ok files') :
    loadFromFile {} filename files' = .ok { configData := c.configData } ↔
      ∀ key value, c.configData[key]? = some value → PlainKey key ∧ PlainValue value := by
  have hmem : ∀ key value, (key, value) ∈ order ↔ c.configData[key]? = some value := fun key value => by
    rw [h.mem_iff, Std.ExtTreeMap.mem_toList_iff_getElem?_eq_some]
  have hload : loadFromFile {} filename files' =
      .ok { configData := (reloaded number order).foldl (fun m e => m.insert e.1 e.2) ∅ } := by
    unfold saveToFile at hsave
    split at hsave
    · cases hsave
      rw [loadFromFile]
      simp [load_lines, reloaded]
    · cases hsave
  rw [hload]
  constructor
  · intro heq
    have hdata : (reloaded number order).foldl (fun m e => m.insert e.1 e.2) ∅ = c.configData := by
      simpa using heq
    have hback : ∀ key value, c.configData[key]? = some value → (key, value) ∈ reloaded number order := by
      intro key value hvalue
      rw [← hdata] at hvalue
      exact mem_of_getElem?_foldl_insert hvalue
    have hplain : ∀ e ∈ order, '=' ∉ e.1.toList ∧ Plain e.1.toList ∧ PlainValue e.2 := fun e he =>
      reloaded_sound (hback e.1 e.2 ((hmem e.1 e.2).mp he))
    intro key value hvalue
    have hin := hback key value hvalue
    obtain ⟨hkey, hk, hv⟩ := reloaded_sound hin
    -- the lines are those of the entries, so an entry that came back was not in a comment
    rw [reloaded_plain number hplain, List.mem_filter] at hin
    exact ⟨⟨hk, hkey, by simpa using hin.2⟩, hv⟩
  · intro hplain
    have hentry : ∀ e ∈ order, PlainKey e.1 ∧ PlainValue e.2 := fun e he => hplain e.1 e.2 ((hmem e.1 e.2).mp he)
    have hall : reloaded number order = order := by
      rw [reloaded_plain number fun e he => ⟨(hentry e he).1.2.1, (hentry e he).1.1, (hentry e he).2⟩,
        List.filter_eq_self.mpr fun e he => by simpa using (hentry e he).1.2.2]
    rw [hall]
    congr 2
    refine Std.ExtTreeMap.ext_getElem? fun key => ?_
    rw [getElem?_foldl_insert_of_entries ∅ (hmem key), Std.ExtTreeMap.getElem?_empty, Option.or_none]

/-- No file yet, and any name can be used. -/
def noFiles : Files := { text := fun _ => none, writable := fun _ => true }

def noDoubles : UInt64 → String := fun _ => ""

def withPort (port : ConfigValue) : ConfigManager := ({} : ConfigManager).setValue "port" port

theorem a_number_comes_back_as_a_string :
    (withPort (.integer 80)).layers = [] ∧
      (withPort (.integer 80)).configData.toList = [("port", .integer 80)] ∧
      (saveToFile noDoubles [("port", .integer 80)] "app.conf" noFiles).bind (loadFromFile {} "app.conf") =
        .ok (withPort (.string "80")) ∧
      (withPort (.string "80")).configData ≠ (withPort (.integer 80)).configData := by
  refine ⟨rfl, by decide +kernel, rfl, fun heq => ?_⟩
  have hvalue := congrArg (·["port"]?) heq
  simp [withPort, setValue] at hvalue

/-- A string without blanks. -/
theorem file_round_trip_iff_port :
    ∃ files, saveToFile noDoubles [("port", .string "80")] "app.conf" noFiles = .ok files ∧
      loadFromFile {} "app.conf" files = .ok { configData := (withPort (.string "80")).configData } := by
  have horder : [("port", ConfigValue.string "80")].Perm (withPort (.string "80")).configData.toList :=
    .of_eq (by decide +kernel)
  have hsave : saveToFile noDoubles [("port", .string "80")] "app.conf" noFiles = .ok _ := rfl
  refine ⟨_, hsave, (file_round_trip_iff noDoubles _ horder hsave).mpr ?_⟩
  intro key value h
  simp only [withPort, setValue, Std.ExtTreeMap.getElem?_insert, Std.ExtTreeMap.getElem?_empty] at h
  split at h
  · rename_i hkey
    cases h
    rw [← Std.LawfulEqCmp.compare_eq_iff_eq.mp hkey]
    decide
  · cases h

end DockerCpp.Core.ConfigManager
