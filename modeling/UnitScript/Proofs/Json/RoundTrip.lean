import UnitScript.Json.Reader
import UnitScript.Json.Writer
import UnitScript.Proofs.Token.Spelling

/-!
# Written values are read back

A value is written in some layout and read again from the text.  All that is
asked of the layout is that it puts spaces between the parts of a value
(`Layout.Spaced`), and of the value that its numbers are whole (`Plain`).

* Strings are read back one character at a time (`stringBody?_escapeChar`), and
  a number up to a character that cannot continue it (`Follows`).
* `ReadsBack` says what a given fuel is enough for: values, elements and fields
  whose texts are less than half as long.  `value_succ`, `elements_succ` and
  `members_succ` are the steps of the induction on fuel, `readsBack` its end.
* `parse?_write` is the result for whole texts.
-/

namespace UnitScript.Json

/-! ## Strings -/

/-- How a character is written: by a letter, by its number, or as it is. -/
theorem escapeChar_cases (c : Char) :
    (∃ letter, letter ≠ 'u' ∧ unescape? letter = some c ∧ escapeChar c = ['\\', letter]) ∨
    (c.toNat < 32 ∧ escapeChar c =
      ['\\', 'u', '0', '0', Nat.digitChar (c.toNat / 16), Nat.digitChar (c.toNat % 16)]) ∨
    (c ≠ '"' ∧ c ≠ '\\' ∧ ¬c.toNat < 32 ∧ escapeChar c = [c]) := by
  have hnumber {n : Nat} (hn : c.toNat = n) : Char.ofNat n = c := by rw [← hn, Char.ofNat_toNat]
  unfold escapeChar
  split
  · next h => exact .inl ⟨'"', by decide, by rw [h]; rfl, rfl⟩
  split
  · next h => exact .inl ⟨'\\', by decide, by rw [h]; rfl, rfl⟩
  split
  · next h => exact .inl ⟨'n', by decide, by rw [h]; rfl, rfl⟩
  split
  · next h => exact .inl ⟨'t', by decide, by rw [h]; rfl, rfl⟩
  split
  · next h => exact .inl ⟨'r', by decide, by rw [h]; rfl, rfl⟩
  split
  · next h => exact .inl ⟨'b', by decide, congrArg some (hnumber h), rfl⟩
  split
  · next h => exact .inl ⟨'f', by decide, congrArg some (hnumber h), rfl⟩
  split
  · next h => exact .inr (.inl ⟨h, rfl⟩)
  · next hquote hbackslash _ _ _ _ _ hvisible =>
    exact .inr (.inr ⟨hquote, hbackslash, hvisible, rfl⟩)

theorem hexDigit?_digitChar : ∀ n < 16, hexDigit? (Nat.digitChar n) = some n := by decide

theorem hex4?_control {n : Nat} (h : n < 32) :
    hex4? '0' '0' (Nat.digitChar (n / 16)) (Nat.digitChar (n % 16)) = some n := by
  unfold hex4?
  rw [hexDigit?_digitChar _ (by omega), hexDigit?_digitChar _ (Nat.mod_lt _ (by decide))]
  change some (0 * 256 + n / 16 * 16 + n % 16) = _
  congr 1
  omega

/-- A character is read back as it was written. -/
theorem stringBody?_escapeChar (c : Char) {rest chars behind : List Char}
    (h : stringBody? rest = some (chars, behind)) :
    stringBody? (escapeChar c ++ rest) = some (c :: chars, behind) := by
  rcases escapeChar_cases c with ⟨letter, hletter, hvalue, heq⟩ | ⟨hcontrol, heq⟩ |
    ⟨hquote, hbackslash, hvisible, heq⟩
  · rw [heq]
    change stringBody? ('\\' :: letter :: rest) = _
    rw [stringBody?, hvalue, h]
    · rfl
    · intro _ _ _ _ _ hu
      exact absurd hu hletter
  · have hhigh : isHighSurrogate c.toNat = false := decide_eq_false (by omega)
    have hlow : isLowSurrogate c.toNat = false := decide_eq_false (by omega)
    rw [heq]
    change stringBody? ('\\' :: 'u' :: '0' :: '0' :: Nat.digitChar (c.toNat / 16) ::
      Nat.digitChar (c.toNat % 16) :: rest) = _
    rw [stringBody?, hex4?_control hcontrol]
    simp only [Option.bind_eq_bind, Option.bind_some, hhigh, hlow, Bool.false_eq_true, if_false, h]
    rw [Char.ofNat_toNat]
    rfl
  · rw [heq]
    change stringBody? (c :: rest) = _
    rw [stringBody?, h]
    · simp [hvisible, hbackslash]
    · exact fun heq => absurd heq hquote
    · intro _ _ _ _ _ heq
      exact absurd heq hbackslash
    · intro _ _ heq
      exact absurd heq hbackslash

/-- A string is read back as it was written, whatever stands behind it. -/
theorem stringBody?_quoted (s : String) (rest : List Char) :
    ∃ body, quoted s = '"' :: body ∧ stringBody? (body ++ rest) = some (s.toList, rest) := by
  refine ⟨_, rfl, ?_⟩
  rw [List.append_assoc]
  induction s.toList with
  | nil => rfl
  | cons c later ih =>
    rw [List.flatMap_cons, List.append_assoc]
    exact stringBody?_escapeChar c ih

/-! ## Numbers -/

/-- What may stand behind a value: nothing, a space, a comma or a closing
bracket. -/
def Follows (rest : List Char) : Prop :=
  ∀ c ∈ rest.head?, c ∈ [' ', '\n', '\t', '\r', ',', ']', '\x7d']

theorem follows_nil : Follows [] := nofun

theorem Follows.head {c : Char} {rest : List Char} (h : Follows (c :: rest)) :
    c.isDigit = false ∧ c ≠ '.' ∧ c ≠ 'e' ∧ c ≠ 'E' := by
  have hends : c ∈ [' ', '\n', '\t', '\r', ',', ']', '\x7d'] := h c rfl
  simp only [List.mem_cons, List.not_mem_nil, or_false] at hends
  rcases hends with rfl | rfl | rfl | rfl | rfl | rfl | rfl
  all_goals decide

theorem splitDigits_append {digits rest : List Char} (hdigits : ∀ c ∈ digits, c.isDigit = true)
    (hrest : Follows rest) : splitDigits (digits ++ rest) = (digits, rest) := by
  have hstop : ∀ c, rest.head? = some c → c.isDigit = false := by
    intro c hc
    obtain ⟨later, rfl⟩ := List.head?_eq_some_iff.1 hc
    exact hrest.head.1
  obtain ⟨htake, hdrop⟩ := Cursor.takeWhile_append_eq hdigits hstop
  rw [splitDigits, htake, hdrop]

theorem fraction?_of_follows {rest : List Char} (h : Follows rest) :
    fraction? rest = some ([], rest) := by
  unfold fraction?
  split
  · exact absurd rfl h.head.2.1
  · rfl

theorem exponent?_of_follows {rest : List Char} (h : Follows rest) :
    exponent? rest = some ([], rest) := by
  unfold exponent?
  split
  · exact absurd rfl h.head.2.2.1
  · exact absurd rfl h.head.2.2.2
  · rfl

/-- A number of several digits does not start with zero. -/
theorem toDigits_ne_zero_cons (n : Nat) (c : Char) (rest : List Char) :
    Nat.toDigits 10 n ≠ '0' :: c :: rest := by
  induction n using Nat.strongRecOn generalizing c rest with
  | ind n ih =>
    rw [Nat.toDigits_eq_if (by decide)]
    split
    · simp
    · next hlarge =>
      intro heq
      obtain ⟨digits, hdigits⟩ : ∃ digits, Nat.toDigits 10 (n / 10) = '0' :: digits := by
        obtain ⟨d, digits, hdigits⟩ :=
          List.exists_cons_of_ne_nil (Nat.toDigits_ne_nil (n := n / 10) (b := 10))
        rw [hdigits] at heq
        obtain rfl : d = '0' := (List.cons.inj heq).1
        exact ⟨digits, hdigits⟩
      cases digits with
      | cons d digits => exact ih (n / 10) (by omega) d digits hdigits
      | nil =>
        have hvalue : Nat.ofDigitChars 10 (Nat.toDigits 10 (n / 10)) 0 = n / 10 :=
          Nat.ofDigitChars_ten_toDigits
        rw [hdigits] at hvalue
        change 0 = n / 10 at hvalue
        omega

/-- A number is read back as it was written. -/
theorem number?_repr (negative : Bool) {n : Nat} (hzero : negative = true → n ≠ 0)
    {rest : List Char} (hrest : Follows rest) :
    number? negative (n.repr.toList ++ rest) =
      some (.integer (if negative then -(n : Int) else n), rest) := by
  have hdigits : ∀ c ∈ n.repr.toList, c.isDigit = true := fun c => Cursor.isDigit_of_mem_repr
  rw [Nat.toList_repr] at hdigits ⊢
  have hvalue : digitsValue (Nat.toDigits 10 n) = n := Nat.ofDigitChars_ten_toDigits
  have hnonzero : (negative && (if negative then -(n : Int) else n) == 0) = false := by
    cases negative with
    | false => rfl
    | true =>
      have hne := hzero rfl
      simp [hne]
  unfold number?
  rw [splitDigits_append hdigits hrest]
  simp only [fraction?_of_follows hrest, hvalue]
  split
  · next hnil => exact absurd hnil Nat.toDigits_ne_nil
  · next hleading => exact absurd hleading (toDigits_ne_zero_cons n _ _)
  · simp only [Option.bind_eq_bind, Option.bind_some, exponent?_of_follows hrest, hnonzero,
      List.isEmpty_nil, Bool.true_and, Bool.not_false, if_true]
    rfl

/-! ## Layouts -/

/-- The text is made of spaces. -/
def Spaces (blanks : List Char) : Prop := ∀ c ∈ blanks, isSpace c = true

theorem spaces_nil : Spaces [] := nofun

theorem skipSpace_append {blanks : List Char} (h : Spaces blanks) (text : List Char) :
    skipSpace (blanks ++ text) = skipSpace text :=
  List.dropWhile_append_of_pos h

theorem skipSpace_cons {c : Char} (h : isSpace c = false) (rest : List Char) :
    skipSpace (c :: rest) = c :: rest :=
  List.dropWhile_cons_of_neg (Bool.eq_false_iff.1 h)

/-- A layout puts nothing but spaces between the parts of a value. -/
structure Layout.Spaced (layout : Layout) : Prop where
  newline : ∀ level, Spaces (layout.newline level)
  colon : ∃ blanks, Spaces blanks ∧ layout.colon = ':' :: blanks

theorem Layout.spaced_compact : Layout.compact.Spaced where
  newline := nofun
  colon := ⟨[], spaces_nil, rfl⟩

theorem Layout.spaced_pretty : Layout.pretty.Spaced where
  newline := by
    intro level c hc
    rcases List.mem_cons.1 hc with rfl | hc
    · rfl
    · rw [List.eq_of_mem_replicate hc]
      rfl
  colon := by
    refine ⟨[' '], ?_, rfl⟩
    intro c hc
    rw [List.mem_singleton.1 hc]
    rfl

/-- Spaces and a closing sign may stand behind a value. -/
theorem follows_spaces {blanks : List Char} (h : Spaces blanks) {c : Char}
    (hc : c ∈ [',', ']', '\x7d']) (rest : List Char) : Follows (blanks ++ c :: rest) := by
  cases blanks with
  | nil =>
    rintro d ⟨⟩
    exact List.mem_append_right [' ', '\n', '\t', '\r'] hc
  | cons blank blanks =>
    rintro d ⟨⟩
    have hblank := h blank List.mem_cons_self
    unfold isSpace at hblank
    simp only [Bool.or_eq_true, decide_eq_true_eq] at hblank
    rcases hblank with ((rfl | rfl) | rfl) | rfl
    all_goals decide

/-! ## Values -/

/-- The value has no numbers but whole ones. -/
inductive Plain : Json → Prop
  | null : Plain .null
  | bool (b : Bool) : Plain (.bool b)
  | integer (n : Int) : Plain (.integer n)
  | string (s : String) : Plain (.string s)
  | array {elements : List Json} (h : ∀ e ∈ elements, Plain e) : Plain (.array elements)
  | object {fields : List (String × Json)} (h : ∀ f ∈ fields, Plain f.2) : Plain (.object fields)

theorem isSpace_of_isDigit {c : Char} (h : c.isDigit = true) : isSpace c = false := by
  rw [← Bool.not_eq_true]
  intro hspace
  unfold isSpace at hspace
  simp only [Bool.or_eq_true, decide_eq_true_eq] at hspace
  rcases hspace with ((rfl | rfl) | rfl) | rfl
  all_goals exact absurd h (by decide)

/-- The characters of a whole number. -/
theorem write_integer (layout : Layout) (level : Nat) (n : Int) :
    (∃ m : Nat, n = m ∧ write layout level (.integer n) = m.repr.toList) ∨
      ∃ m : Nat, m ≠ 0 ∧ n = -m ∧ write layout level (.integer n) = '-' :: m.repr.toList := by
  cases n with
  | ofNat m => exact .inl ⟨m, rfl, rfl⟩
  | negSucc m =>
    refine .inr ⟨m + 1, Nat.succ_ne_zero m, rfl, ?_⟩
    change ("-" ++ (m + 1).repr).toList = _
    rw [String.toList_append]
    rfl

/-- A written value starts with a character that neither is a space nor closes
an array. -/
theorem write_starts (layout : Layout) (level : Nat) {json : Json} (h : json.Plain) :
    ∃ c rest, write layout level json = c :: rest ∧ isSpace c = false ∧ c ≠ ']' := by
  cases h with
  | null => exact ⟨'n', _, rfl, rfl, by decide⟩
  | bool b => cases b <;> exact ⟨_, _, rfl, rfl, by decide⟩
  | integer n =>
    rcases write_integer layout level n with ⟨m, _, heq⟩ | ⟨m, _, _, heq⟩
    · obtain ⟨c, rest, hrepr, hdigit⟩ := Cursor.repr_starts m
      refine ⟨c, rest, heq.trans hrepr, isSpace_of_isDigit hdigit, ?_⟩
      rintro rfl
      exact absurd hdigit (by decide)
    · exact ⟨'-', _, heq, rfl, by decide⟩
  | string s => exact ⟨'"', _, rfl, rfl, by decide⟩
  | @array elements _ => cases elements <;> exact ⟨'[', _, rfl, rfl, by decide⟩
  | @object fields _ =>
    rcases fields with _ | ⟨⟨key, value⟩, tail⟩ <;> exact ⟨'\x7b', _, rfl, rfl, by decide⟩

/-! ## What `fuel` is enough for -/

variable {layout : Layout}

/-- With this fuel, all values whose texts are short enough are read back. -/
structure ReadsBack (layout : Layout) (fuel : Nat) : Prop where
  value (level : Nat) {json : Json} {blanks rest : List Char} (hplain : json.Plain)
    (hblanks : Spaces blanks) (hrest : Follows rest)
    (hfuel : 2 * (write layout level json).length ≤ fuel) :
    value? fuel (blanks ++ (write layout level json ++ rest)) = some (json, rest)
  elements (level : Nat) {head : Json} {tail : List Json} {blanks : List Char}
    (hplain : ∀ e ∈ head :: tail, e.Plain) (hblanks : Spaces blanks) (rest : List Char)
    (hfuel : 2 * ((write layout (level + 1) head).length +
      (writeElements layout level tail).length) < fuel) :
    elements? fuel (blanks ++ (write layout (level + 1) head ++
      (writeElements layout level tail ++ rest))) = some (head :: tail, rest)
  members (level : Nat) {key : String} {head : Json} {tail : List (String × Json)}
    {blanks : List Char} (hplain : ∀ f ∈ (key, head) :: tail, f.2.Plain) (hblanks : Spaces blanks)
    (rest : List Char)
    (hfuel : 2 * ((write layout (level + 1) head).length +
      (writeFields layout level tail).length) < fuel) :
    members? fuel (blanks ++ (quoted key ++ (layout.colon ++ (write layout (level + 1) head ++
      (writeFields layout level tail ++ rest))))) = some ((key, head) :: tail, rest)

/-- Digits are read as a number. -/
theorem value?_digit {fuel : Nat} {text : List Char} {c : Char} {rest : List Char}
    (htext : skipSpace text = c :: rest) (hdigit : c.isDigit = true) :
    value? (fuel + 1) text = number? false (c :: rest) := by
  rw [value?, htext]
  split
  case h_8 => rfl
  all_goals
    next h =>
      cases h
      exact absurd hdigit (by decide)

/-- The reader looks for the end of an array before it reads elements. -/
theorem value?_array {fuel : Nat} {blanks spaces later rest : List Char} {c : Char}
    {elements : List Json} (hblanks : Spaces blanks) (hspaces : Spaces spaces)
    (hspace : isSpace c = false) (hclose : c ≠ ']')
    (hread : elements? fuel (c :: later) = some (elements, rest)) :
    value? (fuel + 1) (blanks ++ '[' :: (spaces ++ c :: later)) =
      some (.array elements, rest) := by
  rw [value?, skipSpace_append hblanks, skipSpace_cons (by decide)]
  simp only [skipSpace_append hspaces, skipSpace_cons hspace]
  split
  · next h =>
      cases h
      exact absurd rfl hclose
  · rw [hread]
    rfl

theorem value?_object {fuel : Nat} {blanks spaces later rest : List Char} {c : Char}
    {fields : List (String × Json)} (hblanks : Spaces blanks) (hspaces : Spaces spaces)
    (hspace : isSpace c = false) (hclose : c ≠ '\x7d')
    (hread : members? fuel (c :: later) = some (fields, rest)) :
    value? (fuel + 1) (blanks ++ '\x7b' :: (spaces ++ c :: later)) =
      some (.object fields, rest) := by
  rw [value?, skipSpace_append hblanks, skipSpace_cons (by decide)]
  simp only [skipSpace_append hspaces, skipSpace_cons hspace]
  split
  · next h =>
      cases h
      exact absurd rfl hclose
  · rw [hread]
    rfl

theorem follows_writeElements (hlayout : layout.Spaced) (level : Nat) (tail : List Json)
    (rest : List Char) : Follows (writeElements layout level tail ++ rest) := by
  cases tail with
  | nil =>
    rw [writeElements, List.append_assoc]
    exact follows_spaces (hlayout.newline level) (by decide) rest
  | cons head tail =>
    rw [writeElements]
    exact follows_spaces spaces_nil (by decide) _

theorem follows_writeFields (hlayout : layout.Spaced) (level : Nat) (tail : List (String × Json))
    (rest : List Char) : Follows (writeFields layout level tail ++ rest) := by
  cases tail with
  | nil =>
    rw [writeFields, List.append_assoc]
    exact follows_spaces (hlayout.newline level) (by decide) rest
  | cons head tail =>
    rw [writeFields]
    exact follows_spaces spaces_nil (by decide) _

theorem ReadsBack.value_succ (hlayout : layout.Spaced) {fuel : Nat} (ih : ReadsBack layout fuel)
    (level : Nat) {json : Json} {blanks rest : List Char} (hplain : json.Plain)
    (hblanks : Spaces blanks) (hrest : Follows rest)
    (hfuel : 2 * (write layout level json).length ≤ fuel + 1) :
    value? (fuel + 1) (blanks ++ (write layout level json ++ rest)) = some (json, rest) := by
  cases hplain with
  | null =>
    rw [value?, skipSpace_append hblanks]
    rfl
  | bool b =>
    rw [value?, skipSpace_append hblanks]
    cases b <;> rfl
  | integer n =>
    rcases write_integer layout level n with ⟨m, rfl, heq⟩ | ⟨m, hne, rfl, heq⟩
    · obtain ⟨c, digits, hrepr, hdigit⟩ := Cursor.repr_starts m
      have htext : skipSpace (blanks ++ (m.repr.toList ++ rest)) = c :: (digits ++ rest) := by
        rw [skipSpace_append hblanks, hrepr, List.cons_append,
          skipSpace_cons (isSpace_of_isDigit hdigit)]
      rw [heq, value?_digit htext hdigit, ← List.cons_append, ← hrepr]
      exact number?_repr false (fun h => absurd h Bool.false_ne_true) hrest
    · rw [heq, value?, skipSpace_append hblanks]
      exact number?_repr true (fun _ => hne) hrest
  | string s =>
    obtain ⟨body, hquoted, hbody⟩ := stringBody?_quoted s rest
    rw [value?, skipSpace_append hblanks, write, hquoted, List.cons_append,
      skipSpace_cons (by decide)]
    simp only [hbody]
    change some (Json.string (String.ofList s.toList), rest) = _
    rw [String.ofList_toList]
  | @array elements hplain =>
    cases elements with
    | nil =>
      rw [value?, skipSpace_append hblanks]
      rfl
    | cons head tail =>
      obtain ⟨c, later, hhead, hspace, hclose⟩ :=
        write_starts layout (level + 1) (hplain head List.mem_cons_self)
      rw [write] at hfuel ⊢
      simp only [List.length_cons, List.length_append] at hfuel
      have hread := ih.elements level hplain spaces_nil rest (by omega)
      simp only [List.nil_append, hhead, List.cons_append, List.append_assoc] at hread ⊢
      exact value?_array hblanks (hlayout.newline _) hspace hclose hread
  | @object fields hplain =>
    rcases fields with _ | ⟨⟨key, head⟩, tail⟩
    · rw [value?, skipSpace_append hblanks]
      rfl
    · rw [write] at hfuel ⊢
      simp only [List.length_cons, List.length_append] at hfuel
      have hread := ih.members level hplain spaces_nil rest (by omega)
      simp only [quoted, List.nil_append, List.cons_append, List.append_assoc] at hread ⊢
      exact value?_object hblanks (hlayout.newline _) (by decide) (by decide) hread

theorem ReadsBack.elements_succ (hlayout : layout.Spaced) {fuel : Nat}
    (ih : ReadsBack layout fuel) (level : Nat) {head : Json} {tail : List Json}
    {blanks : List Char} (hplain : ∀ e ∈ head :: tail, e.Plain) (hblanks : Spaces blanks)
    (rest : List Char)
    (hfuel : 2 * ((write layout (level + 1) head).length +
      (writeElements layout level tail).length) < fuel + 1) :
    elements? (fuel + 1) (blanks ++ (write layout (level + 1) head ++
      (writeElements layout level tail ++ rest))) = some (head :: tail, rest) := by
  have hhead := ih.value (level + 1) (hplain head List.mem_cons_self) hblanks
    (follows_writeElements hlayout level tail rest) (by omega)
  rw [elements?, hhead]
  cases tail with
  | nil =>
    rw [writeElements, List.append_assoc]
    simp only [Option.bind_eq_bind, Option.bind_some]
    rw [skipSpace_append (hlayout.newline level)]
    rfl
  | cons next tail =>
    rw [writeElements] at hfuel ⊢
    simp only [List.length_cons, List.length_append] at hfuel
    have hnext := ih.elements level (fun e he => hplain e (List.mem_cons_of_mem head he))
      (hlayout.newline (level + 1)) rest (by omega)
    simp only [Option.bind_eq_bind, Option.bind_some, List.cons_append, List.append_assoc]
    rw [skipSpace_cons (by decide)]
    simp only [hnext]
    rfl

theorem ReadsBack.members_succ (hlayout : layout.Spaced) {fuel : Nat}
    (ih : ReadsBack layout fuel) (level : Nat) {key : String} {head : Json}
    {tail : List (String × Json)} {blanks : List Char}
    (hplain : ∀ f ∈ (key, head) :: tail, f.2.Plain) (hblanks : Spaces blanks) (rest : List Char)
    (hfuel : 2 * ((write layout (level + 1) head).length +
      (writeFields layout level tail).length) < fuel + 1) :
    members? (fuel + 1) (blanks ++ (quoted key ++ (layout.colon ++
      (write layout (level + 1) head ++ (writeFields layout level tail ++ rest))))) =
        some ((key, head) :: tail, rest) := by
  obtain ⟨spaces, hspaces, hcolon⟩ := hlayout.colon
  have hplainHead : head.Plain := hplain (key, head) List.mem_cons_self
  have hhead := ih.value (level + 1) hplainHead hspaces
    (follows_writeFields hlayout level tail rest) (by omega)
  obtain ⟨body, hquoted, hbody⟩ := stringBody?_quoted key (layout.colon ++
    (write layout (level + 1) head ++ (writeFields layout level tail ++ rest)))
  rw [members?, skipSpace_append hblanks, hquoted, List.cons_append, skipSpace_cons (by decide)]
  simp only [hbody, Option.bind_eq_bind, Option.bind_some]
  rw [hcolon, List.cons_append, skipSpace_cons (by decide)]
  simp only [hhead, Option.bind_some, String.ofList_toList]
  cases tail with
  | nil =>
    rw [writeFields, List.append_assoc, skipSpace_append (hlayout.newline level)]
    rfl
  | cons next tail =>
    obtain ⟨nextKey, next⟩ := next
    rw [writeFields] at hfuel ⊢
    simp only [List.length_cons, List.length_append] at hfuel
    have hnext := ih.members level (fun f hf => hplain f (List.mem_cons_of_mem (key, head) hf))
      (hlayout.newline (level + 1)) rest (by omega)
    simp only [List.cons_append, List.append_assoc]
    rw [skipSpace_cons (by decide)]
    simp only [hnext]
    rfl

/-- Fuel in proportion to the text is enough. -/
theorem readsBack (hlayout : layout.Spaced) (fuel : Nat) : ReadsBack layout fuel := by
  induction fuel with
  | zero =>
    refine ⟨?_, nofun, nofun⟩
    intro level json blanks rest hplain _ _ hfuel
    obtain ⟨c, later, hjson, _⟩ := write_starts layout level hplain
    rw [hjson] at hfuel
    exact absurd hfuel (by simp)
  | succ fuel ih =>
    exact ⟨ih.value_succ hlayout, ih.elements_succ hlayout, ih.members_succ hlayout⟩

/-- What is written is read back, in any layout. -/
theorem parse?_write (hlayout : layout.Spaced) {json : Json} (hplain : json.Plain) :
    parse? (String.ofList (write layout 0 json)) = some json := by
  have hread := (readsBack hlayout (2 * (write layout 0 json).length + 2)).value 0 hplain
    spaces_nil follows_nil (Nat.le_add_right _ 2)
  rw [List.nil_append, List.append_nil] at hread
  unfold parse?
  rw [String.toList_ofList]
  simp only [hread]
  rfl

end UnitScript.Json
