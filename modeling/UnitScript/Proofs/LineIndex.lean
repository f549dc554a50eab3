import UnitScript.Proofs.Lines

/-!
# The line index

The offsets of the line index count bytes, and the lines are cut out of the encoded text.
So each cut has to fall between two characters, whatever characters, empty lines and line
ends the text has.

* `Text.Slices` is a cut out of an encoded text that cannot go wrong, and `slices_append`
  says that a text in three parts is cut that way at their sizes.
* `Text.StripsReturns` is what is left of a line without its carriage returns at the end.
* `Source.CutsLine` is where a line stands in the text.  `exists_cutsLine` finds every line
  there, line by line as the offsets do.
* `line_index_exact` is the result.
-/

namespace UnitScript

namespace Text

/-! ## Cutting an encoded text -/

theorem byteLength_eq_utf8ByteSize (text : List Char) :
    byteLength text = (String.ofList text).utf8ByteSize := by
  induction text with
  | nil => rfl
  | cons c rest ih =>
    rw [byteLength_cons, ih, String.ofList_cons, String.utf8ByteSize_append,
      String.utf8ByteSize_singleton]

/-- The bytes of `text` from `start` up to `stop` are those of `piece`.  The offsets are in
order, inside of the text and between two characters. -/
structure Slices (text : String) (start stop : Nat) (piece : String) : Prop where
  start_le_stop : start ≤ stop
  stop_le_size : stop ≤ text.utf8ByteSize
  start_valid : String.Pos.Raw.IsValid text ⟨start⟩
  stop_valid : String.Pos.Raw.IsValid text ⟨stop⟩
  bytes : text.toByteArray.extract start stop = piece.toByteArray

/-- The size of the first part of a text is an offset between two characters. -/
theorem isValid_byteLength (front back : List Char) :
    String.Pos.Raw.IsValid (String.ofList (front ++ back)) ⟨byteLength front⟩ := by
  refine String.Pos.Raw.isValid_iff_exists_append.2
    ⟨String.ofList front, String.ofList back, String.ofList_append, ?_⟩
  rw [byteLength_eq_utf8ByteSize]
  rfl

/-- The middle part of a text is cut out at the sizes of what stands before and behind. -/
theorem slices_append (front piece back : List Char) :
    Slices (String.ofList (front ++ (piece ++ back))) (byteLength front)
      (byteLength (front ++ piece)) (String.ofList piece) where
  start_le_stop := by
    rw [byteLength_append]
    exact Nat.le_add_right _ _
  stop_le_size := by
    rw [← byteLength_eq_utf8ByteSize, ← List.append_assoc, byteLength_append (front ++ piece)]
    exact Nat.le_add_right _ _
  start_valid := isValid_byteLength front (piece ++ back)
  stop_valid := by
    rw [← List.append_assoc]
    exact isValid_byteLength (front ++ piece) back
  bytes := by
    have hfront : byteLength front = (String.ofList front).toByteArray.size :=
      byteLength_eq_utf8ByteSize front
    have hpiece : byteLength piece = (String.ofList piece).toByteArray.size :=
      byteLength_eq_utf8ByteSize piece
    rw [byteLength_append, String.ofList_append, String.ofList_append, String.toByteArray_append,
      String.toByteArray_append]
    have hshift := ByteArray.extract_append_size_add' (i := 0) (j := byteLength piece)
      (b := (String.ofList piece).toByteArray ++ (String.ofList back).toByteArray) hfront
    rw [Nat.add_zero] at hshift
    rw [hshift, ByteArray.extract_append_eq_left hpiece]

/-! ## Carriage returns at the end -/

/-- `line` is `piece` without all carriage returns at its end. -/
def StripsReturns (piece line : List Char) : Prop :=
  ∃ count, piece = line ++ List.replicate count '\r' ∧ line.getLast? ≠ some '\r'

theorem stripsReturns_trimEnd (piece : List Char) :
    StripsReturns piece (trimEnd (· == '\r') piece) := by
  let returns := piece.reverse.takeWhile (· == '\r')
  have hreturns : returns.reverse = List.replicate returns.length '\r' := by
    refine List.eq_replicate_iff.2 ⟨List.length_reverse, fun c hc => ?_⟩
    have hall := List.all_takeWhile (p := (· == '\r')) (l := piece.reverse)
    exact eq_of_beq (List.all_eq_true.1 hall c (List.mem_reverse.1 hc))
  refine ⟨returns.length, ?_, ?_⟩
  · calc piece
      _ = (returns ++ piece.reverse.dropWhile (· == '\r')).reverse := by
        rw [List.takeWhile_append_dropWhile, List.reverse_reverse]
      _ = trimEnd (· == '\r') piece ++ List.replicate returns.length '\r' := by
        rw [List.reverse_append, hreturns]
        rfl
  · rw [trimEnd, List.getLast?_reverse]
    intro hlast
    have hhead := List.head?_dropWhile_not (· == '\r') piece.reverse
    rw [hlast] at hhead
    cases hhead

end Text

namespace Source

open Text

/-! ## Where a line stands -/

/-- The line with index `index` is `piece`, which stands between `front` and `back`. -/
structure CutsLine (source : Source) (index : Nat) (front piece back : List Char) : Prop where
  text : source.text.toList = front ++ (piece ++ back)
  line : source.lines[index]? = some piece
  start : source.lineStarts[index]? = some (byteLength front)
  stop : source.lineStop index = byteLength (front ++ piece)

theorem exists_cutsLine (source : Source) {index : Nat} (h : index < source.lineCount) :
    ∃ front piece back, source.CutsLine index front piece back := by
  obtain ⟨name, text⟩ := source
  suffices hall : ∀ text : List Char, ∀ index < lineCount ⟨name, .ofList text⟩,
      ∃ front piece back, CutsLine ⟨name, .ofList text⟩ index front piece back by
    have htext := hall text.toList index
    rw [String.ofList_toList] at htext
    exact htext h
  clear h index text
  intro text
  induction text using text_induction with
  | last line hline =>
    intro index hindex
    have hzero : index = 0 := by
      rw [lineCount, lineStarts_single hline, List.length_singleton] at hindex
      omega
    subst hzero
    refine ⟨[], line, [], ?_, ?_, ?_, lineStop_single hline⟩
    · rw [String.toList_ofList, List.append_nil, List.nil_append]
    · rw [lines, String.toList_ofList, List.splitOn_eq_singleton hline]
      rfl
    · rw [lineStarts_single hline]
      rfl
  | above line rest hline ih =>
    intro index hindex
    cases index with
    | zero =>
      refine ⟨[], line, '\n' :: rest, String.toList_ofList, ?_, ?_, lineStop_above_zero hline⟩
      · rw [lines, String.toList_ofList, List.splitOn_append_cons_self_of_not_mem hline]
        rfl
      · rw [lineStarts_above hline]
        rfl
    | succ index =>
      rw [lineCount, lineStarts_above hline, List.length_cons, List.length_map] at hindex
      obtain ⟨front, piece, back, hcut⟩ := ih index (Nat.lt_of_succ_lt_succ hindex)
      have hsize (text : List Char) :
          byteLength (line ++ '\n' :: text) = byteLength line + 1 + byteLength text := by
        rw [byteLength_append, byteLength_cons, ← Nat.add_assoc]
        rfl
      have htext := hcut.text
      have hpiece := hcut.line
      rw [String.toList_ofList] at htext
      rw [lines, String.toList_ofList] at hpiece
      refine ⟨line ++ '\n' :: front, piece, back, ?_, ?_, ?_, ?_⟩
      · rw [String.toList_ofList, htext, List.append_assoc, List.cons_append]
      · rw [lines, String.toList_ofList, List.splitOn_append_cons_self_of_not_mem hline,
          List.getElem?_cons_succ, hpiece]
      · rw [lineStarts_above hline, List.getElem?_cons_succ, List.getElem?_map, hcut.start, hsize]
        rfl
      · rw [lineStop_above hline, hcut.stop, List.append_assoc, List.cons_append, hsize]

/-! ## The result -/

/-- The line index is right for every text.  There is one more line than there are newlines,
and lines are numbered from one.  For each of them a piece of the text between its newlines
is cut out, from one character boundary to another one, and loses the carriage returns at
its end. -/
theorem line_index_exact (source : Source) :
    source.lineCount = source.text.toList.count '\n' + 1 ∧
    (∀ number, (source.line? number).isSome ↔ 1 ≤ number ∧ number ≤ source.lineCount) ∧
    ∀ index < source.lineCount, ∃ start piece line,
      (source.text.toList.splitOn '\n')[index]? = some piece ∧
      source.lineStarts[index]? = some start ∧
      slice? source.text.toList start (source.lineStop index) = some piece ∧
      Slices source.text start (source.lineStop index) (.ofList piece) ∧
      StripsReturns piece line ∧
      source.line? (index + 1) = some (.ofList line) := by
  refine ⟨lineCount_eq_count source, isSome_line? source, fun index hindex => ?_⟩
  obtain ⟨front, piece, back, hcut⟩ := exists_cutsLine source hindex
  have htext : source.text = .ofList (front ++ (piece ++ back)) := by
    rw [← hcut.text, String.ofList_toList]
  refine ⟨byteLength front, piece, trimEnd (· == '\r') piece, hcut.line, hcut.start, ?_, ?_,
    stripsReturns_trimEnd piece, ?_⟩
  · have hslice := slice?_append front (piece ++ back) 0 (byteLength piece)
    rw [hcut.stop, hcut.text, byteLength_append]
    exact hslice.trans (slice?_front piece back)
  · rw [hcut.stop, htext]
    exact slices_append front piece back
  · rw [line?_succ, hcut.line]
    rfl

/-- An empty line, a line of three characters in four bytes and a last line without a
newline.  The second line loses both of its carriage returns. -/
theorem line_index_exact_mixed :
    let source : Source := ⟨"s", "\né\r\r\n𝄞"⟩
    1 < source.lineCount ∧ source.lineCount = 3 ∧ source.lineStop 1 = 5 ∧
      Slices source.text 1 5 "é\r\r" ∧ source.line? 2 = some "é" := by
  intro source
  have hindex : 1 < source.lineCount := by decide
  have hstop : source.lineStop 1 = 5 := by decide
  obtain ⟨hcount, _, hlines⟩ := line_index_exact source
  obtain ⟨start, piece, line, hpiece, hstart, _, hslices, _, _⟩ := hlines 1 hindex
  have hfirst : source.lineStarts[1]? = some 1 := by decide
  have hsecond : (source.text.toList.splitOn '\n')[1]? = some ['é', '\r', '\r'] := by decide
  cases hfirst.symm.trans hstart
  cases hsecond.symm.trans hpiece
  rw [hstop] at hslices
  exact ⟨hindex, hcount.trans (by decide), hstop, hslices, by decide⟩

end Source

end UnitScript
