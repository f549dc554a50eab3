import UnitScript.Proofs.Token.ByteReader
import UnitScript.Proofs.Token.Scanning

/-!
# Reading bytes and reading characters

The reader of bytes steps into the characters of comments and of malformed
literals.  But it never stops there: what ends such a run is a byte of its own.
So nothing that it cuts out or decodes fails, and it reads what the lexer reads.

* The `_of_beyond` lemmas say that no test of the lexer tells characters beyond
  ASCII apart.
* `Cursor.inBytes` is where the reader stands when the lexer stands at a cursor.
  The `_inBytes` lemmas follow the two side by side.
* `lexBytes?_eq` is the result for a whole source.
-/

namespace UnitScript

/-! ## Tests on bytes -/

namespace Cursor

section Tests

variable {c : Char} (h : 128 ≤ c.toNat)

include h

theorem ne_of_beyond {a : Char} (ha : a.toNat < 128) : c ≠ a := by
  rintro rfl
  omega

theorem isDigit_of_beyond : c.isDigit = false := by
  rw [← Bool.not_eq_true, Char.isDigit, Bool.and_eq_true_iff, decide_eq_true_eq, decide_eq_true_eq]
  rintro ⟨_, hmost⟩
  have hle : c.toNat ≤ 57 := hmost
  omega

theorem isAlpha_of_beyond : c.isAlpha = false := by
  have hle {a : Char} (ha : c.val ≤ a.val) : c.toNat ≤ a.toNat := ha
  rw [← Bool.not_eq_true]
  unfold Char.isAlpha Char.isUpper Char.isLower
  simp only [Bool.or_eq_true, Bool.and_eq_true, decide_eq_true_eq]
  rintro (⟨_, hmost⟩ | ⟨_, hmost⟩)
  · have := hle (a := 'Z') hmost
    have : 'Z'.toNat = 90 := rfl
    omega
  · have := hle (a := 'z') hmost
    have : 'z'.toNat = 122 := rfl
    omega

theorem isBlank_of_beyond : isBlank c = false := by
  simp [isBlank, ne_of_beyond h (a := ' ') (by decide), ne_of_beyond h (a := '\t') (by decide),
    ne_of_beyond h (a := '\r') (by decide)]

theorem startsWord_of_beyond : startsWord c = false := by
  simp [startsWord, isAlpha_of_beyond h, ne_of_beyond h (a := '_') (by decide)]

theorem continuesWord_of_beyond : continuesWord c = false := by
  simp [continuesWord, Char.isAlphanum, isAlpha_of_beyond h, isDigit_of_beyond h,
    ne_of_beyond h (a := '_') (by decide)]

theorem sign?_of_beyond : sign? c = none := by
  unfold sign?
  split <;> first | rfl | exact absurd h (by decide)

theorem escape?_of_beyond {quote : Char} (hquote : quote.toNat < 128) : escape? quote c = none := by
  simp [escape?, ne_of_beyond h (a := 'n') (by decide), ne_of_beyond h (a := 't') (by decide),
    ne_of_beyond h (a := 'r') (by decide), ne_of_beyond h (a := '\\') (by decide),
    ne_of_beyond h hquote]

end Tests

end Cursor

/-! ## Side by side -/

/-- A run of bytes that satisfy `p` is skipped as a whole.  No newline is in it, so
every byte counts as a column. -/
theorem ByteCursor.skipWhile_run {text : List Char} {p : Char → Bool} (hp : p '\n' = false)
    {front run tail : List UInt8} (htext : Text.bytes text = front ++ run ++ tail)
    (hrun : ∀ b ∈ run, p (.ofUInt8 b) = true)
    (htail : ∀ b ∈ tail.head?, p (.ofUInt8 b) = false) (position : Position) :
    skipWhile text p ⟨front.length, position⟩ =
      ⟨front.length + run.length, position.line, position.column + run.length⟩ := by
  induction run generalizing front position with
  | nil =>
    have hpeek : peek? text ⟨front.length, position⟩ = tail.head?.map Char.ofUInt8 := by
      rw [peek?, htext, List.append_nil, List.getElem?_append_right (Nat.le_refl _), Nat.sub_self,
        List.head?_eq_getElem?]
    rw [skipWhile]
    split
    · rfl
    · next c hc =>
        rw [hpeek] at hc
        obtain ⟨b, hb, rfl⟩ := Option.map_eq_some_iff.1 hc
        rw [htail b hb, if_neg Bool.false_ne_true]
        rfl
  | cons b run ih =>
    have hb : p (.ofUInt8 b) = true := hrun b List.mem_cons_self
    have hpeek : peek? text ⟨front.length, position⟩ = some (.ofUInt8 b) := by
      rw [peek?, htext, List.append_assoc, List.getElem?_append_right (Nat.le_refl _), Nat.sub_self]
      rfl
    have hline : Char.ofUInt8 b ≠ '\n' := by
      intro heq
      rw [heq, hp] at hb
      cases hb
    have hnext : next text ⟨front.length, position⟩ =
        ⟨(front ++ [b]).length, position.line, position.column + 1⟩ := by
      rw [next, hpeek, List.length_append, List.length_singleton]
      exact if_neg hline
    have hbehind : Text.bytes text = front ++ [b] ++ run ++ tail := by
      rw [htext, List.append_cons]
    have hlater := ih hbehind
      (fun c hc => hrun c (List.mem_cons_of_mem b hc)) ⟨position.line, position.column + 1⟩
    rw [skipWhile]
    split
    · next hnone =>
        rw [hpeek] at hnone
        cases hnone
    · next c hc =>
        rw [hpeek] at hc
        cases hc
        rw [if_pos hb, hnext, hlater, List.length_append, List.length_singleton, List.length_cons]
        rw [ByteCursor.mk.injEq, Position.mk.injEq]
        exact ⟨by omega, rfl, Nat.add_right_comm _ _ _⟩

namespace Cursor

open Text

/-- Where the reader of bytes stands when the lexer stands at the cursor. -/
def inBytes (text : List Char) (cursor : Cursor) : ByteCursor :=
  ⟨byteLength text - byteLength cursor.rest, cursor.position⟩

/-- What the reader of bytes has read when the lexer has read this. -/
def Scan.inBytes (text : List Char) (scan : Scan) : ByteCursor.Scan :=
  ⟨scan.kind, scan.complaints, scan.cursor.inBytes text⟩

variable {text : List Char} {cursor : Cursor}

theorem inBytes_eq {before : List Char} (h : text = before ++ cursor.rest) :
    cursor.inBytes text = ⟨byteLength before, cursor.position⟩ := by
  rw [inBytes, h, byteLength_append, Nat.add_sub_cancel]

/-- The bytes from the cursor on are those of the text from there on. -/
theorem bytes_inBytes (hsuffix : cursor.rest <:+ text) :
    ∃ front : List UInt8, bytes text = front ++ bytes cursor.rest ∧
      front.length = (cursor.inBytes text).offset := by
  obtain ⟨before, hbefore⟩ := hsuffix
  refine ⟨bytes before, by rw [← hbefore, bytes_append], ?_⟩
  rw [inBytes_eq hbefore.symm, length_bytes]

theorem peek?_eq_head? (hsuffix : cursor.rest <:+ text) :
    (cursor.inBytes text).peek? text = (bytes cursor.rest).head?.map Char.ofUInt8 := by
  obtain ⟨front, hbytes, hlength⟩ := bytes_inBytes hsuffix
  rw [ByteCursor.peek?, ← hlength, hbytes, List.getElem?_append_right (Nat.le_refl _), Nat.sub_self,
    List.head?_eq_getElem?]

theorem peek?_end (hrest : cursor.rest = []) : (cursor.inBytes text).peek? text = none := by
  rw [peek?_eq_head? (by rw [hrest]; exact List.nil_suffix), hrest]
  rfl

/-- The first byte of a character shows it. -/
theorem peek?_inBytes (hsuffix : cursor.rest <:+ text) {c : Char} {rest : List Char}
    (hrest : cursor.rest = c :: rest) :
    ∃ d, (cursor.inBytes text).peek? text = some d ∧ Shows c d := by
  obtain ⟨b, hmem, hhead⟩ := head?_bytes c rest
  refine ⟨.ofUInt8 b, ?_, shows_of_mem hmem⟩
  rw [peek?_eq_head? hsuffix, hrest, hhead]
  rfl

/-- A byte that is a character of its own is seen exactly where it stands. -/
theorem peek?_eq_some_iff (hsuffix : cursor.rest <:+ text) {a : Char} (ha : a.toNat < 128) :
    (cursor.inBytes text).peek? text = some a ↔ cursor.rest.head? = some a := by
  cases hrest : cursor.rest with
  | nil => simp [peek?_end hrest]
  | cons c rest =>
    obtain ⟨d, hpeek, hshows⟩ := peek?_inBytes hsuffix hrest
    rw [hpeek, List.head?_cons, Option.some.injEq, Option.some.injEq]
    rcases hshows with ⟨_, rfl⟩ | ⟨hc, hd⟩
    · rfl
    · exact ⟨fun heq => absurd heq (ne_of_beyond hd ha), fun heq => absurd heq (ne_of_beyond hc ha)⟩

theorem next_rest {c : Char} {rest : List Char} (hrest : cursor.rest = c :: rest) :
    cursor.next.rest = rest := by
  rw [next, moveTo, hrest]
  rfl

theorem suffix_next (hsuffix : cursor.rest <:+ text) {c : Char} {rest : List Char}
    (hrest : cursor.rest = c :: rest) : cursor.next.rest <:+ text := by
  rw [next_rest hrest]
  exact (List.suffix_cons c rest).trans (hrest ▸ hsuffix)

/-- One character further, the offset is further by its size. -/
theorem offset_tail (hsuffix : cursor.rest <:+ text) {c : Char} {rest : List Char}
    (hrest : cursor.rest = c :: rest) :
    (cursor.inBytes text).offset + c.utf8Size = byteLength text - byteLength rest := by
  obtain ⟨before, hbefore⟩ := hsuffix
  rw [inBytes_eq hbefore.symm, ← hbefore, hrest, byteLength_append, byteLength_cons]
  show byteLength before + c.utf8Size = _
  omega

theorem utf8Size_of_ascii {c : Char} (hc : c.toNat < 128) : c.utf8Size = 1 :=
  Char.utf8Size_eq_one_iff.2 (UInt32.le_iff_toNat_le.2 (Nat.le_of_lt_succ hc))

/-- Over a character of one byte, both move alike. -/
theorem next_inBytes (hsuffix : cursor.rest <:+ text) {c : Char} {rest : List Char}
    (hrest : cursor.rest = c :: rest) (hc : c.toNat < 128) (hline : c ≠ '\n') :
    (cursor.inBytes text).next text = cursor.next.inBytes text := by
  have hpeek := (peek?_eq_some_iff hsuffix hc).2 (by rw [hrest, List.head?_cons])
  have hoffset := offset_tail hsuffix hrest
  rw [utf8Size_of_ascii hc] at hoffset
  rw [ByteCursor.next, hpeek]
  simp only
  rw [if_neg hline, hoffset, inBytes, next, moveTo, hrest]
  rfl

theorem nextLine_inBytes (hsuffix : cursor.rest <:+ text) {rest : List Char}
    (hrest : cursor.rest = '\n' :: rest) :
    (cursor.inBytes text).next text = cursor.nextLine.inBytes text := by
  have hpeek := (peek?_eq_some_iff hsuffix (a := '\n') (by decide)).2
    (by rw [hrest, List.head?_cons])
  have hoffset := offset_tail hsuffix hrest
  rw [show '\n'.utf8Size = 1 from rfl] at hoffset
  rw [ByteCursor.next, hpeek]
  change ByteCursor.mk _ _ = _
  rw [hoffset, inBytes, nextLine, hrest]
  rfl

/-- At a cursor of the lexer, the character there can be decoded. -/
theorem decode?_inBytes (hsuffix : cursor.rest <:+ text) {c : Char} {rest : List Char}
    (hrest : cursor.rest = c :: rest) (hline : c ≠ '\n') :
    (cursor.inBytes text).decode? text = some (c, cursor.next.inBytes text) := by
  have hoffset := offset_tail hsuffix hrest
  obtain ⟨before, hbefore⟩ := hsuffix
  have hdrop : dropBytes? (cursor.inBytes text).offset text = some cursor.rest := by
    rw [inBytes_eq hbefore.symm, ← hbefore]
    exact (dropBytes?_append before cursor.rest 0).trans (by rw [dropBytes?])
  rw [ByteCursor.decode?, hdrop, hrest]
  simp only [Option.bind_eq_bind, Option.bind_some, List.head?_cons]
  rw [if_neg hline, hoffset, inBytes, next, moveTo, hrest]
  rfl

/-- Between two cursors of the lexer, the text can be cut out. -/
theorem slice?_inBytes (hsuffix : cursor.rest <:+ text) {piece : List Char} {behind : Cursor}
    (hpiece : cursor.rest = piece ++ behind.rest) :
    (cursor.inBytes text).slice? text (behind.inBytes text) = some piece := by
  obtain ⟨before, hbefore⟩ := hsuffix
  have hbehind : text = before ++ piece ++ behind.rest := by
    rw [← hbefore, hpiece, List.append_assoc]
  rw [ByteCursor.slice?, inBytes_eq hbefore.symm, inBytes_eq hbehind, byteLength_append, ← hbefore,
    hpiece]
  exact (slice?_append before _ 0 (byteLength piece)).trans (slice?_front piece behind.rest)

/-- A run of bytes is skipped like the characters they belong to. -/
theorem skipBytesWhile_inBytes {p : Char → Bool} (hp : Coarse p) (hline : p '\n' = false)
    (hsuffix : cursor.rest <:+ text) :
    (cursor.inBytes text).skipWhile text p = (cursor.skipBytesWhile p).inBytes text := by
  obtain ⟨before, hbefore⟩ := hsuffix
  have hcut : cursor.rest = cursor.rest.takeWhile p ++ cursor.rest.dropWhile p :=
    List.takeWhile_append_dropWhile.symm
  have hbytes : bytes text =
      bytes before ++ bytes (cursor.rest.takeWhile p) ++ bytes (cursor.rest.dropWhile p) := by
    rw [List.append_assoc, ← bytes_append, ← hcut, ← bytes_append, hbefore]
  have hrun : ∀ b ∈ bytes (cursor.rest.takeWhile p), p (.ofUInt8 b) = true := by
    intro b hb
    obtain ⟨c, hc, hmem⟩ := List.mem_flatMap.1 hb
    rw [hp.eq_of_shows (shows_of_mem hmem)]
    exact List.all_eq_true.1 List.all_takeWhile c hc
  have htail : ∀ b ∈ (bytes (cursor.rest.dropWhile p)).head?, p (.ofUInt8 b) = false := by
    intro b hb
    have hstop := List.head?_dropWhile_not p cursor.rest
    cases hdrop : cursor.rest.dropWhile p with
    | nil =>
      rw [hdrop] at hb
      cases hb
    | cons c rest =>
      obtain ⟨first, hmem, hhead⟩ := head?_bytes c rest
      rw [hdrop, List.head?_cons] at hstop
      rw [hdrop, hhead] at hb
      cases hb
      rw [hp.eq_of_shows (shows_of_mem hmem)]
      simpa using hstop
  have hskip := ByteCursor.skipWhile_run hline hbytes hrun htail cursor.position
  rw [length_bytes, length_bytes] at hskip
  have hbehind : text = before ++ cursor.rest.takeWhile p ++ (cursor.skipBytesWhile p).rest := by
    rw [← hbefore, List.append_assoc]
    exact congrArg (before ++ ·) hcut
  rw [inBytes_eq hbefore.symm, hskip, inBytes_eq hbehind, byteLength_append]
  rfl

/-- Characters of one byte are skipped alike. -/
theorem skipWhile_inBytes {p : Char → Bool} (hp : ∀ c, 128 ≤ c.toNat → p c = false)
    (hline : p '\n' = false) (hsuffix : cursor.rest <:+ text) :
    (cursor.inBytes text).skipWhile text p = (cursor.skipWhile p).inBytes text := by
  have hsame : cursor.skipBytesWhile p = cursor.skipWhile p := by
    have hone {run : List Char} (hrun : ∀ c ∈ run, p c = true) : byteLength run = run.length := by
      induction run with
      | nil => rfl
      | cons c rest ih =>
        have hascii : c.toNat < 128 := by
          refine Nat.lt_of_not_le fun hbeyond => ?_
          have htrue := hrun c List.mem_cons_self
          rw [hp c hbeyond] at htrue
          cases htrue
        rw [byteLength_cons, utf8Size_of_ascii hascii,
          ih fun d hd => hrun d (List.mem_cons_of_mem c hd), List.length_cons, Nat.add_comm]
    rw [skipBytesWhile, hone (List.all_eq_true.1 List.all_takeWhile), skipWhile]
  rw [skipBytesWhile_inBytes (.of_const hp) hline hsuffix, hsame]

theorem Passes.suffix {piece : List Char} {extra : Nat} {before after : Cursor}
    (h : Passes piece extra before after) : after.rest <:+ before.rest :=
  ⟨piece, h.rest.symm⟩

/-- Blanks and comments are skipped alike. -/
theorem skipBlanks_inBytes (hsuffix : cursor.rest <:+ text) :
    (cursor.inBytes text).skipBlanks text = cursor.skipBlanks.inBytes text := by
  have hblanks := skipWhile_inBytes (fun _ => isBlank_of_beyond) (by decide) hsuffix
  have hbehind : (cursor.skipWhile isBlank).rest <:+ text :=
    (passes_skipWhile (by decide) cursor).suffix.trans hsuffix
  have hcoarse : Coarse (· != '\n') :=
    .of_const fun c hc => bne_iff_ne.2 (ne_of_beyond hc (by decide))
  have hcomment := skipBytesWhile_inBytes hcoarse (by decide) hbehind
  rw [ByteCursor.skipBlanks, skipBlanks]
  simp only [hblanks]
  generalize cursor.skipWhile isBlank = cursor at hbehind hcomment ⊢
  split
  · next hslashes =>
      obtain ⟨hfirst, hsecond⟩ := hslashes
      obtain ⟨rest, hrest⟩ :=
        List.head?_eq_some_iff.1 ((peek?_eq_some_iff hbehind (by decide)).1 hfirst)
      rw [next_inBytes hbehind hrest (by decide) (by decide)] at hsecond
      obtain ⟨more, hmore⟩ := List.head?_eq_some_iff.1
        ((peek?_eq_some_iff (suffix_next hbehind hrest) (by decide)).1 hsecond)
      rw [hcomment, hrest, ← next_rest hrest, hmore]
      rfl
  · next hslashes =>
      split
      · next rest hrest =>
          have hsecond := (peek?_eq_some_iff (suffix_next hbehind hrest) (a := '/') (by decide)).2
            (by rw [next_rest hrest]; rfl)
          rw [← next_inBytes hbehind hrest (by decide) (by decide)] at hsecond
          exact absurd
            ⟨(peek?_eq_some_iff hbehind (by decide)).2 (by rw [hrest]; rfl), hsecond⟩ hslashes
      · rfl

/-- A word is read alike. -/
theorem scanWord_inBytes (hsuffix : cursor.rest <:+ text) :
    (cursor.inBytes text).scanWord? text = some (cursor.scanWord.inBytes text) := by
  have hskip := skipWhile_inBytes (fun _ => continuesWord_of_beyond) (by decide) hsuffix
  have hword := passes_skipWhile (p := continuesWord) (by decide) cursor
  rw [ByteCursor.scanWord?, hskip, slice?_inBytes hsuffix hword.rest]
  rfl

/-- Of a number with a fraction, the whole digits and those behind the point. -/
theorem cut_point {whole : List Char} (hwhole : ∀ c ∈ whole, c.isDigit = true)
    (fraction : List Char) :
    (whole ++ '.' :: fraction).takeWhile Char.isDigit = whole ∧
      ((whole ++ '.' :: fraction).dropWhile Char.isDigit).tail = fraction := by
  rw [List.takeWhile_append_of_pos hwhole, List.dropWhile_append_of_pos hwhole,
    List.takeWhile_cons_of_neg (by decide), List.dropWhile_cons_of_neg (by decide), List.append_nil]
  exact ⟨rfl, rfl⟩

/-- A point with a digit behind it is seen in the bytes. -/
theorem continuesReal_iff (hsuffix : cursor.rest <:+ text) :
    ((cursor.inBytes text).peek? text = some '.' ∧
        (((cursor.inBytes text).next text).peek? text).any Char.isDigit = true) ↔
      continuesReal cursor.rest = true := by
  rw [peek?_eq_some_iff hsuffix (by decide)]
  by_cases hpoint : cursor.rest.head? = some '.'
  · obtain ⟨rest, hrest⟩ := List.head?_eq_some_iff.1 hpoint
    have hnext : cursor.next.rest <:+ text := suffix_next hsuffix hrest
    rw [next_inBytes hsuffix hrest (by decide) (by decide), hrest]
    cases rest with
    | nil =>
      rw [peek?_end (next_rest hrest)]
      exact ⟨fun h => h.2, fun h => ⟨rfl, h⟩⟩
    | cons c more =>
      obtain ⟨d, hpeek, hshows⟩ := peek?_inBytes hnext (next_rest hrest)
      have hdigit := Coarse.eq_of_shows (.of_const fun _ => isDigit_of_beyond) hshows
      rw [hpeek, Option.any_some, hdigit]
      exact ⟨fun h => h.2, fun h => ⟨rfl, h⟩⟩
  · refine ⟨fun h => absurd h.1 hpoint, fun h => ?_⟩
    unfold continuesReal at h
    split at h
    · next c more heq => exact absurd (by rw [heq]; rfl) hpoint
    · cases h

/-- A number is read alike. -/
theorem scanNumber_inBytes (hsuffix : cursor.rest <:+ text) :
    (cursor.inBytes text).scanNumber? text = some (cursor.scanNumber.inBytes text) := by
  have hdigits {cursor : Cursor} (hsuffix : cursor.rest <:+ text) :=
    skipWhile_inBytes (fun _ => isDigit_of_beyond) (by decide) hsuffix
  have hwhole := passes_skipWhile (p := Char.isDigit) (by decide) cursor
  have hbehind := hwhole.suffix.trans hsuffix
  have hreal := continuesReal_iff hbehind
  rw [scanNumber_eq, ByteCursor.scanNumber?]
  simp only [hdigits hsuffix]
  by_cases hcontinues : continuesReal (cursor.skipWhile Char.isDigit).rest = true
  · obtain ⟨hpeek, _⟩ := hreal.2 hcontinues
    obtain ⟨rest, hrest⟩ := List.head?_eq_some_iff.1
      ((peek?_eq_some_iff hbehind (by decide)).1 hpeek)
    have hpoint : (cursor.skipWhile Char.isDigit).next.rest <:+ text :=
      suffix_next hbehind hrest
    have hdot := passes_next hrest (by decide)
    have hfraction := passes_skipWhile (p := Char.isDigit) (by decide)
      (cursor.skipWhile Char.isDigit).next
    obtain ⟨hfront, hback⟩ := cut_point
      (List.all_eq_true.1 (List.all_takeWhile (p := Char.isDigit) (l := cursor.rest)))
      ((cursor.skipWhile Char.isDigit).next.rest.takeWhile Char.isDigit)
    have hslice := slice?_inBytes hsuffix ((hwhole.trans hdot).trans hfraction).rest
    rw [List.append_assoc, List.singleton_append] at hslice
    rw [if_pos (hreal.2 hcontinues), if_pos hcontinues,
      next_inBytes hbehind hrest (by decide) (by decide), hdigits hpoint, hslice]
    simp only [Option.bind_eq_bind, Option.bind_some, hfront, hback]
    rfl
  · have hslice := slice?_inBytes hsuffix hwhole.rest
    rw [if_neg (mt hreal.1 hcontinues), if_neg hcontinues, hslice, scanInteger]
    simp only [Option.bind_eq_bind, Option.bind_some]
    split <;> rfl

/-- The result of reading a part of a literal, as the reader of bytes has it. -/
def literalInBytes {α : Type} (text : List Char) (result : α × List Complaint × Cursor) :
    α × List Complaint × ByteCursor :=
  (result.1, result.2.1, result.2.2.inBytes text)

/-- An escape sequence is read alike. -/
theorem scanEscape_inBytes {quote : Char} (hquote : quote.toNat < 128)
    (hsuffix : cursor.rest <:+ text) {rest : List Char} (hrest : cursor.rest = '\\' :: rest) :
    (cursor.inBytes text).scanEscape? text quote =
      some (literalInBytes text (scanEscape quote cursor)) := by
  have hnext : cursor.next.rest <:+ text := suffix_next hsuffix hrest
  rw [ByteCursor.scanEscape?, scanEscape]
  simp only [next_inBytes hsuffix hrest (by decide) (by decide)]
  cases hmore : cursor.next.rest with
  | nil =>
    rw [peek?_end hmore]
    rfl
  | cons c more =>
    obtain ⟨d, hpeek, hshows⟩ := peek?_inBytes hnext hmore
    rw [hpeek]
    simp only
    rcases hshows with ⟨hc, rfl⟩ | ⟨hc, hd⟩
    · by_cases hline : d = '\n'
      · rw [if_pos hline, if_pos hline]
        rfl
      · rw [if_neg hline, if_neg hline]
        cases escape? quote d with
        | some value =>
          simp only [next_inBytes hnext hmore hc hline]
          rfl
        | none =>
          simp only [decode?_inBytes hnext hmore hline]
          rfl
    · have hline := ne_of_beyond hc (a := '\n') (by decide)
      rw [if_neg hline, if_neg (ne_of_beyond hd (by decide)), escape?_of_beyond hc hquote,
        escape?_of_beyond hd hquote]
      simp only [decode?_inBytes hnext hmore hline]
      rfl

/-- The inside of a string is read alike, and comes to an end. -/
theorem scanStringBody_inBytes (opening : Position) {fuel enough : Nat}
    (hsuffix : cursor.rest <:+ text) (hfuel : cursor.rest.length < fuel)
    (henough : cursor.rest.length < enough) :
    (cursor.inBytes text).scanStringBody? text opening enough =
      some (literalInBytes text (scanStringBody opening fuel cursor)) := by
  induction fuel generalizing enough cursor with
  | zero => exact absurd hfuel (Nat.not_lt_zero _)
  | succ fuel ih =>
    obtain ⟨enough, rfl⟩ :=
      Nat.exists_eq_add_one_of_ne_zero (Nat.ne_of_gt (Nat.zero_lt_of_lt henough))
    rw [ByteCursor.scanStringBody?, scanStringBody]
    cases hrest : cursor.rest with
    | nil =>
      rw [peek?_end hrest]
      rfl
    | cons c rest =>
      obtain ⟨d, hpeek, hshows⟩ := peek?_inBytes hsuffix hrest
      have hnext := suffix_next hsuffix hrest
      have hshorter : cursor.next.rest.length < cursor.rest.length := by
        rw [next_rest hrest, hrest]
        exact Nat.lt_succ_self _
      have hlater := ih hnext (by omega) (show _ < enough by omega)
      rw [hpeek]
      simp only
      rcases hshows with ⟨hc, rfl⟩ | ⟨hc, hd⟩
      · by_cases hline : d = '\n'
        · rw [if_pos hline, if_pos hline]
          rfl
        rw [if_neg hline, if_neg hline]
        by_cases hquote : d = '"'
        · rw [if_pos hquote, if_pos hquote, next_inBytes hsuffix hrest hc hline]
          rfl
        rw [if_neg hquote, if_neg hquote]
        by_cases hbackslash : d = '\\'
        · subst hbackslash
          obtain ⟨piece, hne, hpasses, _⟩ := passes_scanEscape '"' hrest
          have hlength := hpasses.length
          have hpos := List.length_pos_iff.2 hne
          rw [if_pos rfl, if_pos rfl, scanEscape_inBytes (by decide) hsuffix hrest]
          simp only [literalInBytes, Option.bind_eq_bind, Option.bind_some]
          rw [ih (hpasses.suffix.trans hsuffix) (by omega) (show _ < enough by omega)]
          rfl
        · rw [if_neg hbackslash, if_neg hbackslash]
          simp only [decode?_inBytes hsuffix hrest hline, Option.bind_eq_bind, Option.bind_some,
            hlater]
          rfl
      · have hline := ne_of_beyond hc (a := '\n') (by decide)
        rw [if_neg hline, if_neg (ne_of_beyond hd (by decide)),
          if_neg (ne_of_beyond hc (by decide)), if_neg (ne_of_beyond hd (by decide)),
          if_neg (ne_of_beyond hc (by decide)), if_neg (ne_of_beyond hd (by decide))]
        simp only [decode?_inBytes hsuffix hrest hline, Option.bind_eq_bind, Option.bind_some,
          hlater]
        rfl

/-- A string is read alike. -/
theorem scanString_inBytes (hsuffix : cursor.rest <:+ text) {rest : List Char}
    (hrest : cursor.rest = '"' :: rest) :
    (cursor.inBytes text).scanString? text = some (cursor.scanString.inBytes text) := by
  have hnext := suffix_next hsuffix hrest
  have hlength : cursor.next.rest.length < cursor.rest.length := by
    rw [next_rest hrest, hrest]
    exact Nat.lt_succ_self _
  have hbytes : cursor.next.rest.length < (bytes text).length + 1 := by
    have hle := hnext.length_le
    have hmore := length_le_byteLength text
    rw [length_bytes]
    omega
  rw [ByteCursor.scanString?, next_inBytes hsuffix hrest (by decide) (by decide),
    show (cursor.inBytes text).position = cursor.position from rfl,
    scanStringBody_inBytes cursor.position hnext hlength hbytes]
  rfl

/-- What stands between single quotes is read alike. -/
theorem scanCharacterBody_inBytes (hsuffix : cursor.rest <:+ text) :
    (cursor.inBytes text).scanCharacterBody? text =
      some (literalInBytes text cursor.scanCharacterBody) := by
  rw [ByteCursor.scanCharacterBody?, scanCharacterBody]
  cases hrest : cursor.rest with
  | nil =>
    rw [peek?_end hrest]
    rfl
  | cons c rest =>
    obtain ⟨d, hpeek, hshows⟩ := peek?_inBytes hsuffix hrest
    rw [hpeek]
    simp only
    rcases hshows with ⟨_, rfl⟩ | ⟨hc, hd⟩
    · by_cases hbackslash : d = '\\'
      · subst hbackslash
        rw [if_pos rfl, if_pos rfl]
        exact scanEscape_inBytes (by decide) hsuffix hrest
      rw [if_neg hbackslash, if_neg hbackslash]
      by_cases hend : (d = '\n' || d = '\'') = true
      · rw [if_pos hend, if_pos hend]
        rfl
      · have hline : d ≠ '\n' := by
          rintro rfl
          exact hend rfl
        rw [if_neg hend, if_neg hend, decode?_inBytes hsuffix hrest hline]
        rfl
    · have hend {a : Char} (ha : 128 ≤ a.toNat) : ¬(a = '\n' || a = '\'') = true := by
        simp [ne_of_beyond ha (a := '\n') (by decide), ne_of_beyond ha (a := '\'') (by decide)]
      rw [if_neg (ne_of_beyond hd (by decide)), if_neg (ne_of_beyond hc (by decide)),
        if_neg (hend hd), if_neg (hend hc), decode?_inBytes hsuffix hrest (ne_of_beyond hc (by decide))]
      rfl

/-- A closing quote is found alike. -/
theorem closeQuote?_inBytes (hsuffix : cursor.rest <:+ text) :
    (cursor.inBytes text).closeQuote? text = cursor.closeQuote?.map (·.inBytes text) := by
  rw [ByteCursor.closeQuote?, closeQuote?]
  simp only [peek?_eq_some_iff hsuffix (a := '\'') (by decide)]
  split
  · next hquote =>
      obtain ⟨rest, hrest⟩ := List.head?_eq_some_iff.1 hquote
      rw [next_inBytes hsuffix hrest (by decide) (by decide), hrest]
      rfl
  · next hquote =>
      split
      · next rest hrest => exact absurd (by rw [hrest]; rfl) hquote
      · rfl

/-- A character literal is read alike, also one that is malformed. -/
theorem scanCharacter_inBytes (hsuffix : cursor.rest <:+ text) {rest : List Char}
    (hrest : cursor.rest = '\'' :: rest) :
    (cursor.inBytes text).scanCharacter? text = some (cursor.scanCharacter.inBytes text) := by
  have hnext := suffix_next hsuffix hrest
  obtain ⟨piece, hpasses, _⟩ := passes_scanCharacterBody cursor.next
  have hbehind := hpasses.suffix.trans hnext
  have hcoarse : Coarse fun c => c != '\'' && c != '\n' := by
    refine .of_const fun c hc => Bool.and_eq_true_iff.2 ⟨?_, ?_⟩
    · exact bne_iff_ne.2 (ne_of_beyond hc (by decide))
    · exact bne_iff_ne.2 (ne_of_beyond hc (by decide))
  rw [ByteCursor.scanCharacter?, next_inBytes hsuffix hrest (by decide) (by decide),
    scanCharacterBody_inBytes hnext, scanCharacter]
  simp only [literalInBytes, Option.bind_eq_bind, Option.bind_some, closeQuote?_inBytes hbehind]
  generalize cursor.next.scanCharacterBody = result at hbehind
  obtain ⟨value, complaints, behind⟩ := result
  cases hclose : behind.closeQuote? with
  | some closed => rfl
  | none =>
    have hskipped : (behind.skipBytesWhile fun c => c != '\'' && c != '\n').rest <:+ text :=
      (passes_skipBytesWhile (by decide) behind).suffix.trans hbehind
    simp only [Option.map_none, skipBytesWhile_inBytes hcoarse (by decide) hbehind,
      closeQuote?_inBytes hskipped]
    cases (behind.skipBytesWhile fun c => c != '\'' && c != '\n').closeQuote? <;> rfl

section Beyond

variable {c : Char} (h : 128 ≤ c.toNat)

include h

/-- No token starts beyond ASCII. -/
theorem scan_of_beyond (cursor : Cursor) :
    cursor.scan c =
      ⟨none, [⟨.unexpectedCharacter c, cursor.next.spanFrom cursor.position⟩], cursor.next⟩ := by
  simp [scan, sign?_of_beyond h, isDigit_of_beyond h, startsWord_of_beyond h,
    ne_of_beyond h (a := '\n') (by decide), ne_of_beyond h (a := '=') (by decide),
    ne_of_beyond h (a := '!') (by decide), ne_of_beyond h (a := '"') (by decide),
    ne_of_beyond h (a := '\'') (by decide)]

theorem scan?_of_beyond (text : List Char) (cursor : ByteCursor) :
    cursor.scan? text c = do
      let (c, behind) ← cursor.decode? text
      return ⟨none, [⟨.unexpectedCharacter c, behind.spanFrom cursor.position⟩], behind⟩ := by
  simp [ByteCursor.scan?, sign?_of_beyond h, isDigit_of_beyond h, startsWord_of_beyond h,
    ne_of_beyond h (a := '\n') (by decide), ne_of_beyond h (a := '=') (by decide),
    ne_of_beyond h (a := '!') (by decide), ne_of_beyond h (a := '"') (by decide),
    ne_of_beyond h (a := '\'') (by decide)]

end Beyond

/-- Every token is read alike. -/
theorem scan_inBytes (hsuffix : cursor.rest <:+ text) {c d : Char} {rest : List Char}
    (hrest : cursor.rest = c :: rest) (hshows : Shows c d) :
    (cursor.inBytes text).scan? text d = some ((cursor.scan c).inBytes text) := by
  have hnext := suffix_next hsuffix hrest
  rcases hshows with ⟨hc, rfl⟩ | ⟨hc, hd⟩
  · rw [ByteCursor.scan?, scan]
    by_cases hline : d = '\n'
    · subst hline
      rw [if_pos rfl, if_pos rfl, nextLine_inBytes hsuffix hrest]
      rfl
    have hmove := next_inBytes hsuffix hrest hc hline
    have hequal := peek?_eq_some_iff hnext (a := '=') (by decide)
    have hpair (h : cursor.next.rest.head? = some '=') :
        (cursor.next.inBytes text).next text = cursor.next.next.inBytes text := by
      obtain ⟨more, hmore⟩ := List.head?_eq_some_iff.1 h
      exact next_inBytes hnext hmore (by decide) (by decide)
    rw [if_neg hline, if_neg hline]
    cases hsign : sign? d with
    | some kind =>
      simp only [hmove]
      rfl
    | none =>
      simp only [hmove, hequal]
      split
      · split
        · next heq =>
            rw [hpair heq]
            rfl
        · rfl
      split
      · next hbang =>
          have heq : cursor.next.rest.head? = some '=' := by
            simpa using (Bool.and_eq_true_iff.1 hbang).2
          rw [hpair heq]
          rfl
      split
      · exact scanNumber_inBytes hsuffix
      split
      · exact scanWord_inBytes hsuffix
      split
      · next hquote => exact scanString_inBytes hsuffix (hquote ▸ hrest)
      split
      · next hquote => exact scanCharacter_inBytes hsuffix (hquote ▸ hrest)
      · rw [decode?_inBytes hsuffix hrest hline]
        rfl
  · rw [scan?_of_beyond hd, scan_of_beyond hc,
      decode?_inBytes hsuffix hrest (ne_of_beyond hc (by decide))]
    rfl

/-- Behind a token, the lexer still stands in the text. -/
theorem suffix_scan (hsuffix : cursor.rest <:+ text) {c : Char} {rest : List Char}
    (hrest : cursor.rest = c :: rest) : (cursor.scan c).cursor.rest <:+ text := by
  by_cases hc : c = '\n'
  · subst hc
    rw [scan_newline]
    exact (List.tail_suffix _).trans hsuffix
  · obtain ⟨⟨piece, extra, _, hpasses, _⟩, _⟩ := passes_scan hrest hc
    exact hpasses.suffix.trans hsuffix

end Cursor

/-! ## A whole source -/

namespace Source

variable (source : Source)

/-- From a cursor of the lexer on, the reader of bytes reads the same tokens and comes to
the end. -/
theorem lexBytesFrom?_inBytes {cursor : Cursor} (log : Diagnostics) {fuel enough : Nat}
    (hsuffix : cursor.rest <:+ source.text.toList) (hfuel : cursor.rest.length < fuel)
    (henough : cursor.rest.length < enough) :
    source.lexBytesFrom? enough (cursor.inBytes source.text.toList) log =
      some (source.lexFrom fuel cursor log) := by
  induction fuel generalizing enough cursor log with
  | zero => exact absurd hfuel (Nat.not_lt_zero _)
  | succ fuel ih =>
    obtain ⟨enough, rfl⟩ :=
      Nat.exists_eq_add_one_of_ne_zero (Nat.ne_of_gt (Nat.zero_lt_of_lt henough))
    rw [lexBytesFrom?, lexFrom]
    split
    · rfl
    obtain ⟨blanks, extra, hblanks, _⟩ := cursor.passes_skipBlanks
    have hskipped := hblanks.suffix.trans hsuffix
    have hlength := cursor.length_skipBlanks_le
    simp only [Cursor.skipBlanks_inBytes hsuffix]
    cases hrest : cursor.skipBlanks.rest with
    | nil =>
      rw [Cursor.peek?_end hrest]
      rfl
    | cons c rest =>
      obtain ⟨d, hpeek, hshows⟩ := Cursor.peek?_inBytes hskipped hrest
      have hshorter := Cursor.length_scan_lt hrest
      have hlater := ih (log.complainAll source (cursor.skipBlanks.scan c).complaints)
        (Cursor.suffix_scan hskipped hrest) (by omega) (show _ < enough by omega)
      rw [hpeek]
      simp only [Cursor.scan_inBytes hskipped hrest hshows, Option.bind_eq_bind, Option.bind_some,
        Cursor.Scan.inBytes, hlater]
      cases (cursor.skipBlanks.scan c).kind <;> rfl

/-- Reading byte by byte never fails, and gives what the lexer gives. -/
theorem lexBytes?_eq : source.lexBytes? = some source.lex := by
  have hlength := Text.length_le_byteLength source.text.toList
  have htext : source.text.toList = [] ++ (Cursor.start source.text).rest := rfl
  have hstart : Cursor.inBytes source.text.toList (.start source.text) = ⟨0, .origin⟩ :=
    Cursor.inBytes_eq htext
  rw [lexBytes?, ← hstart]
  exact source.lexBytesFrom?_inBytes ∅ (List.suffix_refl _) (Nat.lt_succ_self _)
    (Nat.lt_succ_of_le hlength)

end Source

end UnitScript
