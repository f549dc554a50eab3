import UnitScript.Source

/-!
# The lines of a text

The lines of a source are found through byte offsets.  They are the pieces
between its newlines, and every offset that is used falls between two
characters.

* `dropBytes?_append` and `takeBytes?_append` cut a text between two parts.
* `text_induction` goes through a text line by line, as the offsets do.
* `lineCount_eq` and `line?_succ` say what the lines are; `isSome_line?` says
  which of them are there.
* `lines_append` and `line?_append` are about a text put below another one.
-/

namespace UnitScript

namespace Text

/-! ## Cutting at byte offsets -/

@[simp] theorem byteLength_nil : byteLength [] = 0 := rfl

theorem byteLength_append (front back : List Char) :
    byteLength (front ++ back) = byteLength front + byteLength back := by
  have hshift (text : List Char) (count : Nat) :
      text.foldl (fun count c => count + c.utf8Size) count = count + byteLength text := by
    unfold byteLength
    induction text generalizing count with
    | nil => rfl
    | cons c rest ih =>
      rw [List.foldl_cons, List.foldl_cons, ih, ih (0 + c.utf8Size)]
      omega
  rw [byteLength, List.foldl_append, hshift]
  rfl

theorem byteLength_cons (c : Char) (rest : List Char) :
    byteLength (c :: rest) = c.utf8Size + byteLength rest := by
  rw [← List.singleton_append, byteLength_append]
  simp [byteLength]

/-- A character takes at least one byte. -/
theorem length_le_byteLength (text : List Char) : text.length ≤ byteLength text := by
  induction text with
  | nil => exact Nat.le_refl 0
  | cons c rest ih =>
    have hsize := c.utf8Size_pos
    rw [byteLength_cons, List.length_cons]
    omega

/-- An offset behind the first part of a text is one into the second part. -/
theorem dropBytes?_append (front back : List Char) (count : Nat) :
    dropBytes? (byteLength front + count) (front ++ back) = dropBytes? count back := by
  induction front with
  | nil => rw [byteLength_nil, Nat.zero_add, List.nil_append]
  | cons c rest ih =>
    obtain ⟨size, hsize⟩ := Nat.exists_eq_add_one_of_ne_zero (Nat.ne_of_gt c.utf8Size_pos)
    have hcount : byteLength (c :: rest) + count = size + byteLength rest + count + 1 := by
      rw [byteLength_cons, hsize]
      omega
    rw [hcount, List.cons_append, dropBytes?, if_pos (by omega), ← ih]
    congr 1
    omega

/-- The first part of a text is cut off at its size. -/
theorem takeBytes?_append (front back : List Char) :
    takeBytes? (byteLength front) (front ++ back) = some front := by
  induction front with
  | nil =>
    rw [byteLength_nil, List.nil_append]
    cases back <;> rfl
  | cons c rest ih =>
    obtain ⟨size, hsize⟩ := Nat.exists_eq_add_one_of_ne_zero (Nat.ne_of_gt c.utf8Size_pos)
    have hcount : byteLength (c :: rest) = size + byteLength rest + 1 := by
      rw [byteLength_cons, hsize]
      omega
    have hleft : size + byteLength rest + 1 - c.utf8Size = byteLength rest := by omega
    rw [hcount, List.cons_append, takeBytes?, if_pos (by omega), hleft, ih]
    rfl

/-- What stands between two offsets behind the first part of a text. -/
theorem slice?_append (front back : List Char) (start stop : Nat) :
    slice? (front ++ back) (byteLength front + start) (byteLength front + stop) =
      slice? back start stop := by
  unfold slice?
  by_cases h : start ≤ stop
  · rw [if_pos h, if_pos (by omega), dropBytes?_append, Nat.add_sub_add_left]
  · rw [if_neg h, if_neg (by omega)]

theorem slice?_front (front back : List Char) :
    slice? (front ++ back) 0 (byteLength front) = some front := by
  rw [slice?, if_pos (Nat.zero_le _), Nat.sub_zero, dropBytes?, Option.bind_some,
    takeBytes?_append]

/-- What holds of a single line, and of a line above a text it holds of, holds
of every text. -/
theorem text_induction {P : List Char → Prop} (last : ∀ line, '\n' ∉ line → P line)
    (above : ∀ line rest, '\n' ∉ line → P rest → P (line ++ '\n' :: rest)) (text : List Char) :
    P text := by
  -- the characters of the first line are moved over to `line` one by one
  suffices h : ∀ line, '\n' ∉ line → P (line ++ text) from h [] List.not_mem_nil
  induction text with
  | nil =>
    intro line hline
    rw [List.append_nil]
    exact last line hline
  | cons c rest ih =>
    intro line hline
    by_cases hc : c = '\n'
    · subst hc
      exact above line rest hline (ih [] List.not_mem_nil)
    · rw [List.append_cons]
      refine ih (line ++ [c]) fun hmem => ?_
      rcases List.mem_append.1 hmem with hmem | hmem
      · exact hline hmem
      · exact hc (List.mem_singleton.1 hmem).symm

/-- A line without its carriage returns at the end. -/
def trimmed (line : List Char) : String := String.ofList (trimEnd (· == '\r') line)

end Text

namespace Source

open Text

/-! ## Where lines start -/

theorem startsFrom_of_not_mem {line : List Char} (h : '\n' ∉ line) (offset : Nat) :
    startsFrom offset line = [] := by
  induction line generalizing offset with
  | nil => rfl
  | cons c rest ih =>
    rw [startsFrom, if_neg (List.ne_of_not_mem_cons h).symm]
    exact ih (List.not_mem_of_not_mem_cons h) _

theorem startsFrom_append {line : List Char} (h : '\n' ∉ line) (rest : List Char) (offset : Nat) :
    startsFrom offset (line ++ '\n' :: rest) =
      (offset + byteLength line + 1) :: startsFrom (offset + byteLength line + 1) rest := by
  induction line generalizing offset with
  | nil => rfl
  | cons c more ih =>
    rw [List.cons_append, startsFrom, if_neg (List.ne_of_not_mem_cons h).symm,
      ih (List.not_mem_of_not_mem_cons h), byteLength_cons, Nat.add_assoc offset]

/-- Only the first line starts at offset zero. -/
theorem pos_of_mem_startsFrom {text : List Char} {offset start : Nat}
    (h : start ∈ startsFrom offset text) : 1 ≤ start := by
  induction text generalizing offset with
  | nil => exact absurd h List.not_mem_nil
  | cons c rest ih =>
    have hsize := c.utf8Size_pos
    rw [startsFrom] at h
    split at h
    · rcases List.mem_cons.1 h with rfl | h
      · omega
      · exact ih h
    · exact ih h

/-- Behind `shift` more bytes, all lines start that much later. -/
theorem startsFrom_shift (shift offset : Nat) (text : List Char) :
    startsFrom (shift + offset) text = (startsFrom offset text).map (shift + ·) := by
  induction text generalizing offset with
  | nil => rfl
  | cons c rest ih =>
    rw [startsFrom, startsFrom, Nat.add_assoc, ih]
    split
    · rw [List.map_cons]
    · rfl

/-- The pieces of the text between its newlines. -/
def lines (source : Source) : List (List Char) := source.text.toList.splitOn '\n'

/-! ## A single line -/

section Single

variable {name : String} {line : List Char} (hline : '\n' ∉ line)

include hline

theorem lineStarts_single : lineStarts ⟨name, .ofList line⟩ = [0] := by
  rw [lineStarts, String.toList_ofList, startsFrom_of_not_mem hline]

theorem lineStop_single : lineStop ⟨name, .ofList line⟩ 0 = byteLength line := by
  simp only [lineStop, lineStarts_single hline]
  rw [String.toList_ofList]
  rfl

end Single

/-! ## A line above a text -/

section Above

variable {name : String} {line : List Char} (hline : '\n' ∉ line) {text : List Char}

include hline

theorem lineStarts_above :
    lineStarts ⟨name, .ofList (line ++ '\n' :: text)⟩ =
      0 :: (lineStarts ⟨name, .ofList text⟩).map (byteLength line + 1 + ·) := by
  simp only [lineStarts, String.toList_ofList]
  rw [startsFrom_append hline, Nat.zero_add, List.map_cons, Nat.add_zero,
    ← startsFrom_shift (byteLength line + 1) 0]

theorem lineStop_above (index : Nat) :
    lineStop ⟨name, .ofList (line ++ '\n' :: text)⟩ (index + 1) =
      byteLength line + 1 + lineStop ⟨name, .ofList text⟩ index := by
  simp only [lineStop, lineStarts_above hline, List.getElem?_cons_succ, List.getElem?_map]
  cases hnext : (lineStarts ⟨name, .ofList text⟩)[index + 1]? with
  | none =>
    simp only [Option.map_none, String.toList_ofList, byteLength_append, byteLength_cons]
    rw [show '\n'.utf8Size = 1 from rfl, Nat.add_assoc]
  | some next =>
    have hpos : 1 ≤ next := by
      rw [lineStarts, List.getElem?_cons_succ] at hnext
      exact pos_of_mem_startsFrom (List.mem_of_getElem? hnext)
    simp only [Option.map_some]
    omega

theorem lineStop_above_zero :
    lineStop ⟨name, .ofList (line ++ '\n' :: text)⟩ 0 = byteLength line := by
  simp only [lineStop, lineStarts_above hline]
  simp only [lineStarts, List.map_cons, List.getElem?_cons_succ, List.getElem?_cons_zero]
  omega

/-- The first line of a text below which other lines stand. -/
theorem line?_above_one :
    line? ⟨name, .ofList (line ++ '\n' :: text)⟩ 1 = some (trimmed line) := by
  simp only [line?, lineStarts_above hline, List.getElem?_cons_zero, lineStop_above_zero hline,
    String.toList_ofList]
  rw [Option.bind_eq_bind, Option.bind_some, slice?_front]
  rfl

/-- All other lines are those of the text below the first one. -/
theorem line?_above_succ (number : Nat) :
    line? ⟨name, .ofList (line ++ '\n' :: text)⟩ (number + 2) =
      line? ⟨name, .ofList text⟩ (number + 1) := by
  simp only [line?, lineStarts_above hline, List.getElem?_cons_succ, List.getElem?_map,
    lineStop_above hline, String.toList_ofList]
  cases (lineStarts ⟨name, .ofList text⟩)[number]? with
  | none => rfl
  | some start =>
    have hfront : byteLength line + 1 = byteLength (line ++ ['\n']) := by
      rw [byteLength_append]
      rfl
    simp only [Option.map_some, Option.bind_eq_bind, Option.bind_some]
    rw [hfront, List.append_cons, slice?_append]

end Above

/-! ## The lines -/

theorem line?_zero (source : Source) : source.line? 0 = none := rfl

/-- The lines are the pieces between the newlines. -/
theorem line?_succ (source : Source) (number : Nat) :
    source.line? (number + 1) = source.lines[number]?.map trimmed := by
  obtain ⟨name, text⟩ := source
  suffices h : ∀ text : List Char, ∀ number,
      line? ⟨name, .ofList text⟩ (number + 1) = (text.splitOn '\n')[number]?.map trimmed by
    have htext := h text.toList number
    rw [String.ofList_toList] at htext
    exact htext
  intro text
  induction text using text_induction with
  | last line hline =>
    intro number
    have hstarts : lineStarts ⟨name, .ofList line⟩ = [0] := lineStarts_single hline
    rw [List.splitOn_eq_singleton hline]
    cases number with
    | zero =>
      have hslice := slice?_front line []
      rw [List.append_nil] at hslice
      simp only [line?, hstarts, lineStop_single hline, String.toList_ofList,
        List.getElem?_cons_zero]
      rw [Option.bind_eq_bind, Option.bind_some, hslice]
      rfl
    | succ number =>
      simp only [line?, hstarts]
      rfl
  | above line rest hline ih =>
    intro number
    rw [List.splitOn_append_cons_self_of_not_mem hline]
    cases number with
    | zero => exact line?_above_one hline
    | succ number => rw [line?_above_succ hline, ih, List.getElem?_cons_succ]

theorem lineCount_eq (source : Source) : source.lineCount = source.lines.length := by
  obtain ⟨name, text⟩ := source
  suffices h : ∀ text : List Char,
      (lineStarts ⟨name, .ofList text⟩).length = (text.splitOn '\n').length by
    have htext := h text.toList
    rw [String.ofList_toList] at htext
    exact htext
  intro text
  induction text using text_induction with
  | last line hline =>
    rw [lineStarts_single hline, List.splitOn_eq_singleton hline]
    rfl
  | above line rest hline ih =>
    rw [lineStarts_above hline, List.splitOn_append_cons_self_of_not_mem hline, List.length_cons,
      List.length_map, ih, List.length_cons]

/-- There is one more line than there are newlines. -/
theorem lineCount_eq_count (source : Source) :
    source.lineCount = source.text.toList.count '\n' + 1 := by
  rw [lineCount_eq, lines]
  induction source.text.toList using text_induction with
  | last line hline =>
    rw [List.splitOn_eq_singleton hline, List.count_eq_zero.2 hline]
    rfl
  | above line rest hline ih =>
    rw [List.splitOn_append_cons_self_of_not_mem hline, List.length_cons, ih, List.count_append,
      List.count_eq_zero.2 hline, List.count_cons_self]
    omega

/-- The lines that are there are numbered from one. -/
theorem isSome_line? (source : Source) (number : Nat) :
    (source.line? number).isSome ↔ 1 ≤ number ∧ number ≤ source.lineCount := by
  cases number with
  | zero => simp [line?_zero]
  | succ number =>
    rw [line?_succ, Option.isSome_map, lineCount_eq, isSome_getElem?]
    omega

/-! ## A text below another one -/

theorem lines_append (name : String) (a b : String) :
    lines ⟨name, a ++ "\n" ++ b⟩ = lines ⟨name, a⟩ ++ lines ⟨name, b⟩ := by
  have htext : (a ++ "\n" ++ b).toList = a.toList ++ '\n' :: b.toList := by
    simp only [String.toList_append, List.append_assoc]
    rfl
  rw [lines, htext, List.splitOn_append_cons_self]
  rfl

/-- The lines of the upper text keep their numbers. -/
theorem line?_append_upper {name a : String} {number : Nat} (h : number ≤ lineCount ⟨name, a⟩)
    (b : String) : line? ⟨name, a ++ "\n" ++ b⟩ number = line? ⟨name, a⟩ number := by
  cases number with
  | zero => rfl
  | succ number =>
    rw [lineCount_eq] at h
    rw [line?_succ, line?_succ, lines_append, List.getElem?_append_left (by omega)]

/-- The lines of the lower text are numbered from the end of the upper one. -/
theorem line?_append_lower (name a b : String) {number : Nat} (h : 1 ≤ number) :
    line? ⟨name, a ++ "\n" ++ b⟩ (number + lineCount ⟨name, a⟩) = line? ⟨name, b⟩ number := by
  obtain ⟨number, rfl⟩ := Nat.exists_eq_add_of_le' h
  rw [lineCount_eq, show number + 1 + (lines ⟨name, a⟩).length =
      (lines ⟨name, a⟩).length + number + 1 by omega, line?_succ, line?_succ, lines_append,
    List.getElem?_append_right (Nat.le_add_right _ _), Nat.add_sub_cancel_left]

end Source

end UnitScript
