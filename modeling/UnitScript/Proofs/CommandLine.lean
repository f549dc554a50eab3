import Mathlib.Data.List.Basic
import UnitScript.Command.Arguments
import UnitScript.Number.Text

/-!
# The grammar of the command line

The arguments of the command fall into groups: a script, the flag, or the
option with the number behind it.  Which group comes next is settled by its
first argument: a script does not look like an option, and what stands behind
the option is its number, whatever it looks like.

* `Numeral` is a number that fits in 64 bits as it is spelled;
  `readLimit_eq_ok_iff` says that these are the numbers that are read.
* `Group` is a group of arguments, `words` the arguments themselves.
* `parseFrom_words` is what groups are read as, and `exists_groups` says that
  nothing but groups is read.
* `accepted_command_lines` is the whole statement.
-/

namespace UnitScript.Command

/-! ## Numbers -/

/-- A decimal number that fits in 64 bits, as it is spelled. -/
structure Numeral where
  plus : Bool
  digits : List Char
  nonempty : digits ≠ []
  decimal : ∀ c ∈ digits, c.isDigit = true
  fits : Number.ofDigits digits < UInt64.size

namespace Numeral

def value (numeral : Numeral) : Nat := Number.ofDigits numeral.digits

def text (numeral : Numeral) : String :=
  String.ofList (if numeral.plus then '+' :: numeral.digits else numeral.digits)

end Numeral

/-- Reading on adds a digit at the end. -/
def addDigit (value : Nat) (c : Char) : Nat := 10 * value + (c.toNat - '0'.toNat)

theorem le_foldl_addDigit (value : Nat) (digits : List Char) :
    value ≤ digits.foldl addDigit value := by
  induction digits generalizing value with
  | nil => exact Nat.le_refl value
  | cons c rest ih =>
    have hstep : value ≤ addDigit value c := by
      unfold addDigit
      omega
    exact Nat.le_trans hstep (ih (addDigit value c))

theorem readDigits_eq_ok_iff {value n : Nat} (hvalue : value < UInt64.size) (digits : List Char) :
    readDigits value digits = .ok n ↔
      (∀ c ∈ digits, c.isDigit = true) ∧ digits.foldl addDigit value = n ∧ n < UInt64.size := by
  induction digits generalizing value with
  | nil =>
    simp only [readDigits, Except.ok.injEq, List.not_mem_nil, false_implies, implies_true,
      List.foldl_nil, true_and]
    exact ⟨fun h => ⟨h, h ▸ hvalue⟩, And.left⟩
  | cons c rest ih =>
    rw [readDigits, List.forall_mem_cons, List.foldl_cons]
    by_cases hdigit : c.isDigit = true
    · rw [if_pos hdigit]
      change (if addDigit value c < UInt64.size then readDigits (addDigit value c) rest else _) = _ ↔ _
      split
      · next hfits => rw [ih hfits, and_iff_right hdigit]
      · next hlarge =>
          refine iff_of_false nofun fun ⟨_, hn, hfits⟩ => hlarge ?_
          have hle := le_foldl_addDigit (addDigit value c) rest
          omega
    · rw [if_neg hdigit]
      exact iff_of_false nofun fun h => hdigit h.1.1

theorem exists_numeral (plus : Bool) {digits : List Char} (hne : digits ≠ []) {n : Nat}
    (h : readDigits 0 digits = .ok n) :
    ∃ numeral : Numeral, numeral.text = String.ofList (if plus then '+' :: digits else digits) ∧
      numeral.value = n := by
  obtain ⟨hdecimal, rfl, hfits⟩ := (readDigits_eq_ok_iff (by decide) digits).1 h
  exact ⟨⟨plus, digits, hne, hdecimal, hfits⟩, rfl, rfl⟩

/-- A sign is not read as a digit. -/
theorem readLimit_text (numeral : Numeral) :
    readLimit numeral.text = readDigits 0 numeral.digits := by
  obtain ⟨plus, digits, hne, hdecimal, _⟩ := numeral
  obtain ⟨c, rest, rfl⟩ := List.exists_cons_of_ne_nil hne
  unfold readLimit Numeral.text
  rw [String.toList_ofList]
  cases plus with
  | true => rfl
  | false =>
    have hsign : c ≠ '+' := by
      rintro rfl
      exact absurd (hdecimal '+' List.mem_cons_self) (by decide)
    simp only [Bool.false_eq_true, if_false]
    split
    · next h => cases h
    · next h =>
        cases h
        exact absurd rfl hsign
    · next h =>
        cases h
        exact absurd rfl hsign
    · rfl

/-- The numbers that are read are the decimal numbers that fit. -/
theorem readLimit_eq_ok_iff {text : String} {n : Nat} :
    readLimit text = .ok n ↔ ∃ numeral : Numeral, numeral.text = text ∧ numeral.value = n := by
  constructor
  · intro h
    unfold readLimit at h
    rw [← String.ofList_toList (s := text)]
    split at h
    · cases h
    · cases h
    · next digits hne htext =>
        rw [htext]
        exact exists_numeral true (fun hnil => hne (by rw [hnil])) h
    · next hne _ _ =>
        exact exists_numeral false hne h
  · rintro ⟨numeral, rfl, rfl⟩
    rw [readLimit_text, readDigits_eq_ok_iff (by decide)]
    exact ⟨numeral.decimal, rfl, numeral.fits⟩

/-! ## Groups -/

theorem isOption_iff (argument : String) :
    isOption argument = true ↔ ['-', '-'] <+: argument.toList := by
  unfold isOption
  split
  · next rest h =>
      rw [h]
      exact iff_of_true rfl ⟨rest, rfl⟩
  · next h =>
      refine iff_of_false Bool.false_ne_true ?_
      rintro ⟨rest, hrest⟩
      exact h rest hrest.symm

/-- Arguments that belong together. -/
inductive Group where
  | script (path : String) (plain : ¬['-', '-'] <+: path.toList)
  | json
  | limit (numeral : Numeral)

namespace Group

/-- The arguments of a group. -/
def words : Group → List String
  | .script path _ => [path]
  | .json => ["--json"]
  | .limit numeral => ["--step-limit", numeral.text]

def script? : Group → Option String
  | .script path _ => some path
  | _ => none

def limit? : Group → Option Nat
  | .limit numeral => some numeral.value
  | _ => none

def isJson : Group → Bool
  | .json => true
  | _ => false

end Group

namespace Arguments

/-- What the arguments ask for when they are read onto `path`, `json` and
`limits`. -/
def ofGroups (path : Option String) (json : Bool) (limits : Limits) (groups : List Group) :
    Except UsageError Arguments :=
  match path.toList ++ groups.filterMap Group.script? with
  | [] => .error .noScript
  | [path] =>
      .ok ⟨path, json || groups.any Group.isJson,
        { limits with steps := (groups.filterMap Group.limit?).getLastD limits.steps }⟩
  | _ :: extra :: _ => .error (.unexpectedArgument extra)

theorem parseFrom_script {path : String} (hplain : ¬['-', '-'] <+: path.toList)
    (before : Option String) (json : Bool) (limits : Limits) (rest : List String) :
    parseFrom before json limits (path :: rest) =
      match before with
      | none => parseFrom (some path) json limits rest
      | some _ => .error (.unexpectedArgument path) := by
  have hoption : isOption path = false := by
    rw [← Bool.not_eq_true, isOption_iff]
    exact hplain
  have hjson : path ≠ "--json" := by
    rintro rfl
    exact absurd hoption (by decide)
  have hlimit : path ≠ "--step-limit" := by
    rintro rfl
    exact absurd hoption (by decide)
  conv => lhs; unfold parseFrom
  split
  · next h => cases h
  · next h =>
    cases h
    exact absurd rfl hjson
  · next h =>
    cases h
    exact absurd rfl hlimit
  · next h =>
    cases h
    exact absurd rfl hlimit
  · next h =>
    cases h
    rw [hoption]
    rfl

/-! ### Reading groups -/

section

variable (path : Option String) (json : Bool) (limits : Limits) (later : List Group)

theorem ofGroups_json :
    ofGroups path json limits (.json :: later) = ofGroups path true limits later := by
  cases json <;> rfl

theorem ofGroups_limit (numeral : Numeral) :
    ofGroups path json limits (.limit numeral :: later) =
      ofGroups path json { limits with steps := numeral.value } later := by
  unfold ofGroups
  rw [show (Group.limit numeral :: later).filterMap Group.limit? =
    numeral.value :: later.filterMap Group.limit? from rfl, List.getLastD_cons]
  rfl

/-- Arguments that fall into groups are read as the groups say. -/
theorem parseFrom_words :
    parseFrom path json limits (later.flatMap Group.words) = ofGroups path json limits later := by
  induction later generalizing path json limits with
  | nil => cases path <;> cases json <;> rfl
  | cons group later ih =>
    rw [List.flatMap_cons]
    cases group with
    | script argument plain =>
      change parseFrom path json limits (argument :: later.flatMap Group.words) = _
      rw [parseFrom_script plain]
      cases path with
      | none => exact ih (some argument) json limits
      | some path => rfl
    | json =>
      change parseFrom path json limits ("--json" :: later.flatMap Group.words) = _
      rw [parseFrom, ih, ofGroups_json]
    | limit numeral =>
      change parseFrom path json limits
        ("--step-limit" :: numeral.text :: later.flatMap Group.words) = _
      have hread : readLimit numeral.text = .ok numeral.value :=
        readLimit_eq_ok_iff.2 ⟨numeral, rfl, rfl⟩
      rw [parseFrom, hread, ofGroups_limit]
      exact ih path json { limits with steps := numeral.value }

end

/-- Arguments that are read fall into groups. -/
theorem exists_groups {path : Option String} {json : Bool} {limits : Limits}
    {arguments : List String} {result : Arguments}
    (h : parseFrom path json limits arguments = .ok result) :
    ∃ groups : List Group, arguments = groups.flatMap Group.words := by
  fun_induction parseFrom path json limits arguments with
  | case1 json limits path => exact ⟨[], rfl⟩
  | case2 json limits => cases h
  | case3 path json limits rest ih =>
    obtain ⟨groups, rfl⟩ := ih h
    exact ⟨.json :: groups, rfl⟩
  | case4 => cases h
  | case5 path json limits text rest steps hread ih =>
    obtain ⟨groups, rfl⟩ := ih h
    obtain ⟨numeral, rfl, _⟩ := readLimit_eq_ok_iff.1 hread
    exact ⟨.limit numeral :: groups, rfl⟩
  | case6 => cases h
  | case7 => cases h
  | case8 json limits argument rest _ _ _ hoption ih =>
    obtain ⟨groups, rfl⟩ := ih h
    have hplain : ¬['-', '-'] <+: argument.toList := by
      rw [← isOption_iff]
      exact hoption
    exact ⟨.script argument hplain :: groups, rfl⟩
  | case9 => cases h

theorem any_isJson (groups : List Group) :
    groups.any Group.isJson = true ↔ .json ∈ groups := by
  rw [List.any_eq_true]
  constructor
  · rintro ⟨group, hmem, hjson⟩
    cases group with
    | json => exact hmem
    | script => cases hjson
    | limit => cases hjson
  · intro hmem
    exact ⟨.json, hmem, rfl⟩

/-- Groups with one script are accepted. -/
theorem ofGroups_eq_ok_iff (groups : List Group) (result : Arguments) :
    ofGroups none false {} groups = .ok result ↔
      groups.filterMap Group.script? = [result.path] ∧
        (result.json = true ↔ .json ∈ groups) ∧
        result.limits =
          { steps := (groups.filterMap Group.limit?).getLastD ({} : Limits).steps } := by
  obtain ⟨path, json, limits⟩ := result
  rw [← any_isJson, Bool.eq_iff_iff.symm]
  unfold ofGroups
  rw [Option.toList_none, List.nil_append, Bool.false_or]
  cases groups.filterMap Group.script? with
  | nil => exact iff_of_false nofun nofun
  | cons first scripts =>
    cases scripts with
    | cons second scripts => exact iff_of_false nofun nofun
    | nil =>
      simp only [Except.ok.injEq, Arguments.mk.injEq, List.cons.injEq, and_true]
      exact ⟨fun ⟨hpath, hjson, hlimits⟩ => ⟨hpath, hjson.symm, hlimits.symm⟩,
        fun ⟨hpath, hjson, hlimits⟩ => ⟨hpath, hjson.symm, hlimits.symm⟩⟩

/-- The command line is accepted exactly when it falls into groups with one
script among them.  That is the path then, the flag is set if it occurs, and the
last number is the limit; without one the usual limit holds.  The result, also a
refusal, does not depend on how scripts, flags and numbers are interleaved. -/
theorem accepted_command_lines :
    (∀ (arguments : List String) (result : Arguments),
      parse arguments = .ok result ↔
        ∃ groups : List Group, arguments = groups.flatMap Group.words ∧
          groups.filterMap Group.script? = [result.path] ∧
          (result.json = true ↔ .json ∈ groups) ∧
          result.limits =
            { steps := (groups.filterMap Group.limit?).getLastD ({} : Limits).steps }) ∧
    ∀ first second : List Group,
      first.filterMap Group.script? = second.filterMap Group.script? →
      (.json ∈ first ↔ .json ∈ second) →
      first.filterMap Group.limit? = second.filterMap Group.limit? →
        parse (first.flatMap Group.words) = parse (second.flatMap Group.words) := by
  refine ⟨fun arguments result => ⟨fun h => ?_, ?_⟩, ?_⟩
  · obtain ⟨groups, rfl⟩ := exists_groups h
    refine ⟨groups, rfl, (ofGroups_eq_ok_iff groups result).1 ?_⟩
    rw [← parseFrom_words]
    exact h
  · rintro ⟨groups, rfl, haccepted⟩
    unfold parse
    rw [parseFrom_words]
    exact (ofGroups_eq_ok_iff groups result).2 haccepted
  · intro first second hscripts hjson hlimits
    have hany : first.any Group.isJson = second.any Group.isJson := by
      rw [Bool.eq_iff_iff, any_isJson, any_isJson]
      exact hjson
    unfold parse
    rw [parseFrom_words, parseFrom_words]
    unfold ofGroups
    rw [hscripts, hany, hlimits]

end Arguments

end UnitScript.Command
