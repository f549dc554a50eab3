import UnitScript.Token.Stream

/-!
# Reading tokens, step by step

What the parser does depends on the kinds of the tokens that are left, and the
spans only go into the tree.  So a stream is looked at through `kinds`, and
reading is followed through what each step does to them.

* `kind_eq`, `secondKind_eq`, `kinds_advance` and `kinds_skipNewlines` are the
  stream through its kinds.  Passing over newlines leaves the same stream from
  wherever it starts among them: `skipNewlines_advance`.
* `Parse.Ends` says what a result satisfies, `Ends.bind` follows it through a
  sequence.  `Takes` and `Yields` are its two uses.  They make up `Sound`, what
  is read is derived by a grammar, and `Complete`, what a grammar derives is
  read.
* `peek_bind` up to `expect_bind` carry out the single steps.
* `Chain` is the grammar of operands joined from left to right;
  `sound_leftAssoc` and `complete_leftAssoc` are about reading it.
* `Proper` tells the tokens of an expression from those around it.
-/

namespace UnitScript

/-- Newlines that are passed over. -/
def Grammar.Newlines (read : List Token.Kind) : Prop := ∀ k ∈ read, k = .newline

/-! ## Streams -/

namespace TokenStream

/-- What the tokens are that are still to be read. -/
def kinds (s : TokenStream) : List Token.Kind := s.rest.map (·.kind)

theorem kind_eq (s : TokenStream) : s.kind = s.kinds.headD .endOfFile := by
  unfold kind kinds
  cases s.rest <;> rfl

theorem secondKind_eq (s : TokenStream) : s.secondKind = s.kinds.tail.headD .endOfFile := by
  unfold secondKind kinds
  rcases s.rest with _ | ⟨_, _ | ⟨_, _⟩⟩ <;> rfl

theorem kind_of_kinds {s : TokenStream} {k : Token.Kind} {rest : List Token.Kind}
    (h : s.kinds = k :: rest) : s.kind = k := by
  rw [kind_eq, h]
  rfl

@[simp] theorem kinds_advance (s : TokenStream) : s.advance.kinds = s.kinds.tail := by
  unfold advance kinds
  cases h : s.rest with
  | nil => simp only [h, List.map_nil, List.tail_nil]
  | cons token rest => rfl

theorem kinds_advance_of_cons {s : TokenStream} {k : Token.Kind} {rest : List Token.Kind}
    (h : s.kinds = k :: rest) : s.advance.kinds = rest := by
  rw [kinds_advance, h]
  rfl

theorem kind_advance (s : TokenStream) : s.advance.kind = s.secondKind := by
  rw [kind_eq, kinds_advance, secondKind_eq]

/-- A token that is not the end of the file is there to be read. -/
theorem kinds_of_kind {s : TokenStream} {k : Token.Kind} (h : s.kind = k) (hk : k ≠ .endOfFile) :
    s.kinds = k :: s.advance.kinds := by
  rw [kind_eq] at h
  rw [kinds_advance]
  cases hkinds : s.kinds with
  | nil =>
    rw [hkinds] at h
    exact absurd h.symm hk
  | cons head rest =>
    rw [hkinds] at h
    rw [← h]
    rfl

/-! ### Newlines -/

theorem kinds_skipNewlines (s : TokenStream) :
    s.skipNewlines.kinds = s.kinds.dropWhile (· == .newline) := by
  unfold skipNewlines skipWhile kinds
  induction s.rest with
  | nil => rfl
  | cons token rest ih =>
    simp only [List.dropWhile_cons, List.map_cons]
    split
    · exact ih
    · rfl

/-- What is passed over is newlines. -/
theorem kinds_eq_newlines_append (s : TokenStream) :
    ∃ skipped, Grammar.Newlines skipped ∧ s.kinds = skipped ++ s.skipNewlines.kinds := by
  refine ⟨s.kinds.takeWhile (· == .newline), ?_, ?_⟩
  · intro k hk
    have hall := List.all_takeWhile (p := (· == .newline)) (l := s.kinds)
    exact eq_of_beq (List.all_eq_true.1 hall k hk)
  · rw [kinds_skipNewlines, List.takeWhile_append_dropWhile]

/-- Newlines are passed over up to the next other token. -/
theorem kinds_skipNewlines_of_append {s : TokenStream} {skipped rest : List Token.Kind}
    (hskipped : Grammar.Newlines skipped) (hkinds : s.kinds = skipped ++ rest)
    (hrest : rest.headD .endOfFile ≠ .newline) : s.skipNewlines.kinds = rest := by
  rw [kinds_skipNewlines, hkinds, List.dropWhile_append_of_pos]
  · cases rest with
    | nil => rfl
    | cons k rest => exact List.dropWhile_cons_of_neg (by simpa using hrest)
  · intro k hk
    rw [hskipped k hk]
    rfl

theorem kind_skipNewlines_ne (s : TokenStream) : s.skipNewlines.kind ≠ .newline := by
  rw [kind_eq, kinds_skipNewlines]
  induction s.kinds with
  | nil => exact nofun
  | cons k rest ih =>
    rw [List.dropWhile_cons]
    split
    · exact ih
    · next hk => simpa using hk

theorem skipNewlines_of_ne {s : TokenStream} (h : s.kind ≠ .newline) : s.skipNewlines = s := by
  obtain ⟨rest, previous, finish⟩ := s
  cases rest with
  | nil => rfl
  | cons token rest =>
    have hkind : (token.kind == .newline) = false := by simpa [kind] using h
    simp only [skipNewlines, skipWhile, List.dropWhile_cons, List.takeWhile_cons, hkind,
      Bool.false_eq_true, if_false, List.getLast?_nil]

theorem skipNewlines_advance {s : TokenStream} (h : s.kind = .newline) :
    s.advance.skipNewlines = s.skipNewlines := by
  obtain ⟨rest, previous, finish⟩ := s
  cases rest with
  | nil => cases h
  | cons token rest =>
    have hkind : (token.kind == .newline) = true := by simpa [kind] using h
    simp only [skipNewlines, skipWhile, advance, List.dropWhile_cons, List.takeWhile_cons, hkind,
      if_true, List.getLast?_cons]
    cases (rest.takeWhile fun token => token.kind == .newline).getLast? <;> rfl

end TokenStream

/-- The complaint stops a script from being run. -/
def Complaint.IsError (complaint : Complaint) : Prop := complaint.problem.severity = .error

namespace Parse

variable {α β ω : Type} {s : TokenStream}

/-! ## Results -/

/-- A result satisfies `good`, and a complaint satisfies `bad`. -/
def Ends (good : α → TokenStream → Prop) (bad : Complaint → Prop) :
    EStateM.Result Complaint TokenStream α → Prop
  | .ok value s => good value s
  | .error complaint _ => bad complaint

theorem Ends.bind {m : Parse α} {next : α → Parse β} {good : α → TokenStream → Prop}
    {good' : β → TokenStream → Prop} {bad : Complaint → Prop} (hm : Ends good bad (m s))
    (hnext : ∀ value s', good value s' → Ends good' bad (next value s')) :
    Ends good' bad ((m >>= next) s) := by
  change Ends good' bad (EStateM.bind m next s)
  unfold EStateM.bind
  cases hresult : m s with
  | error complaint s' =>
    rw [hresult] at hm
    exact hm
  | ok value s' =>
    rw [hresult] at hm
    exact hnext value s' hm

/-- What was read since `s` is derived by `G`, which is told the token behind
it as well.  Reading failed with an error only. -/
abbrev Takes (erase : α → α) (G : List Token.Kind → Token.Kind → α → Prop) (s : TokenStream) :
    EStateM.Result Complaint TokenStream α → Prop :=
  Ends (fun value s' => ∃ read, s.kinds = read ++ s'.kinds ∧ G read s'.kind (erase value))
    Complaint.IsError

/-- Reading succeeded with `value`, up to spans, and left `rest`. -/
abbrev Yields (erase : α → α) (value : α) (rest : List Token.Kind) :
    EStateM.Result Complaint TokenStream α → Prop :=
  Ends (fun value' s' => erase value' = value ∧ s'.kinds = rest) fun _ => False

/-- What is read is derived by `G`. -/
def Sound (erase : α → α) (G : List Token.Kind → Token.Kind → α → Prop) (p : Parse α) : Prop :=
  ∀ s, Takes erase G s (p s)

/-- What is derived by `G` is read, and nothing behind it.  The stream has at
most `bound` tokens. -/
def Complete (bound : Nat) (erase : α → α) (G : List Token.Kind → Token.Kind → α → Prop)
    (p : Parse α) : Prop :=
  ∀ (s : TokenStream) read rest value, s.kinds = read ++ rest → s.kinds.length ≤ bound →
    G read (rest.headD .endOfFile) value → Yields erase value rest (p s)

theorem Ends.mono {good good' : α → TokenStream → Prop} {bad : Complaint → Prop}
    {result : EStateM.Result Complaint TokenStream α} (h : Ends good bad result)
    (hgood : ∀ value s', good value s' → good' value s') : Ends good' bad result := by
  cases result with
  | ok value s' => exact hgood value s' h
  | error complaint s' => exact h

theorem Sound.mono {erase : α → α} {G G' : List Token.Kind → Token.Kind → α → Prop} {p : Parse α}
    (h : Sound erase G p) (hG : ∀ read next value, G read next value → G' read next value) :
    Sound erase G' p := by
  intro s
  refine (h s).mono fun value s' hvalue => ?_
  obtain ⟨read, hread, hvalue⟩ := hvalue
  exact ⟨read, hread, hG _ _ _ hvalue⟩

theorem Complete.mono {bound bound' : Nat} {erase : α → α}
    {G G' : List Token.Kind → Token.Kind → α → Prop} {p : Parse α} (h : Complete bound erase G p)
    (hbound : bound' ≤ bound) (hG : ∀ read next value, G' read next value → G read next value) :
    Complete bound' erase G' p :=
  fun s read rest value hkinds hlength hvalue =>
    h s read rest value hkinds (Nat.le_trans hlength hbound) (hG _ _ _ hvalue)

/-! ## Single steps -/

@[simp] theorem peek_bind (next : Token.Kind → Parse β) : (peek >>= next) s = next s.kind s := rfl

@[simp] theorem advance_bind (next : Span → Parse β) :
    (advance >>= next) s = next s.span s.advance := rfl

@[simp] theorem skipNewlines_bind (next : Unit → Parse β) :
    (skipNewlines >>= next) s = next () s.skipNewlines := rfl

theorem eat_bind (wanted : Token.Kind) (next : Bool → Parse β) :
    (eat wanted >>= next) s =
      if s.kind = wanted then next true s.advance else next false s := by
  change EStateM.bind (eat wanted) next s = _
  by_cases h : s.kind = wanted
  · simp only [EStateM.bind, eat, if_pos h]
  · simp only [EStateM.bind, eat, if_neg h]

theorem expect_bind (wanted : Token.Kind) (next : Unit → Parse β) :
    (expect wanted >>= next) s =
      if s.kind = wanted then next () s.advance
      else .error ⟨.expected wanted s.kind, s.span⟩ s := by
  change EStateM.bind (expect wanted) next s = _
  by_cases h : s.kind = wanted
  · simp only [EStateM.bind, expect, if_pos h]
  · simp only [EStateM.bind, expect, if_neg h]

theorem bind_of_ok {m : Parse α} {next : α → Parse β} {value : α} {s' : TokenStream}
    (h : m s = .ok value s') : (m >>= next) s = next value s' := by
  change EStateM.bind m next s = _
  unfold EStateM.bind
  rw [h]

/-- Reading that does not fail gives a result. -/
theorem Ends.exists_ok {good : α → TokenStream → Prop}
    {result : EStateM.Result Complaint TokenStream α} (h : Ends good (fun _ => False) result) :
    ∃ value s', result = .ok value s' ∧ good value s' := by
  cases result with
  | ok value s' => exact ⟨value, s', rfl, h⟩
  | error complaint s' => exact h.elim

end Parse

/-! ## Operands joined by operators -/

/-- Operands joined from left to right.  `signs` pairs the tokens of one level
with the operators they stand for. -/
inductive Grammar.Chain {α ω : Type} (signs : List (Token.Kind × ω))
    (Operand : List Token.Kind → α → Prop) (join : ω → α → α → α) : List Token.Kind → α → Prop
  | operand {read value} : Operand read value → Chain signs Operand join read value
  | join {read read' sign op left right} : Chain signs Operand join read left →
      (sign, op) ∈ signs → Operand read' right →
      Chain signs Operand join (read ++ sign :: read') (join op left right)

namespace Parse

open Grammar

section Chains

variable {α ω : Type} {erase : α → α} {signs : List (Token.Kind × ω)}
  {op? : Token.Kind → Option ω} {Operand : List Token.Kind → α → Prop} {operand : Parse α}
  {join join' : ω → α → α → α}

/-- What follows the first operand of a chain continues it. -/
theorem sound_chain (hsigns : ∀ k op, op? k = some op ↔ (k, op) ∈ signs)
    (hend : op? .endOfFile = none)
    (hjoin : ∀ op a b, erase (join op a b) = join' op (erase a) (erase b))
    (hoperand : Sound erase (fun read _ value => Operand read value) operand) (fuel : Nat)
    {s₀ s : TokenStream} {left : α} {read : List Token.Kind} (hread : s₀.kinds = read ++ s.kinds)
    (hleft : Chain signs Operand join' read (erase left)) :
    Takes erase (fun read _ value => Chain signs Operand join' read value) s₀
      (chain op? operand join fuel left s) := by
  induction fuel generalizing s left read with
  | zero => exact ⟨read, hread, hleft⟩
  | succ fuel ih =>
    unfold chain
    rw [peek_bind]
    cases hop : op? s.kind with
    | none => exact ⟨read, hread, hleft⟩
    | some op =>
      have hkinds : s.kinds = s.kind :: s.advance.kinds := by
        refine TokenStream.kinds_of_kind rfl fun heof => ?_
        rw [heof, hend] at hop
        cases hop
      refine (hoperand s.advance).bind fun right s' hright => ?_
      obtain ⟨read', hread', hright⟩ := hright
      have hlonger : s₀.kinds = (read ++ s.kind :: read') ++ s'.kinds := by
        rw [hread, hkinds, hread', List.append_assoc, List.cons_append]
      refine ih hlonger ?_
      rw [hjoin]
      exact hleft.join ((hsigns _ _).1 hop) hright

theorem sound_leftAssoc (hsigns : ∀ k op, op? k = some op ↔ (k, op) ∈ signs)
    (hend : op? .endOfFile = none)
    (hjoin : ∀ op a b, erase (join op a b) = join' op (erase a) (erase b))
    (hoperand : Sound erase (fun read _ value => Operand read value) operand) (fuel : Nat) :
    Sound erase (fun read _ value => Chain signs Operand join' read value)
      (leftAssoc fuel op? operand join) := by
  intro s
  refine (hoperand s).bind fun left s' hleft => ?_
  obtain ⟨read, hread, hleft⟩ := hleft
  exact sound_chain hsigns hend hjoin hoperand fuel hread (.operand hleft)

/-- Reading a chain gets to its end, and then looks for more. -/
theorem leftAssoc_reaches {bound : Nat} {Stops : Token.Kind → Prop}
    (hsigns : ∀ k op, op? k = some op ↔ (k, op) ∈ signs)
    (hjoin : ∀ op a b, erase (join op a b) = join' op (erase a) (erase b))
    (hstops : ∀ k op, (k, op) ∈ signs → Stops k)
    (hread : ∀ read value, Operand read value → read ≠ [])
    (hoperand : Complete bound erase (fun read next value => Operand read value ∧ Stops next)
      operand)
    {read : List Token.Kind} {value : α} (h : Chain signs Operand join' read value)
    {fuel : Nat} (hfuel : bound ≤ fuel + 1) {rest : List Token.Kind}
    (hkinds : s.kinds = read ++ rest) (hbound : s.kinds.length ≤ bound)
    (hrest : Stops (rest.headD .endOfFile)) :
    ∃ value' s' left, leftAssoc fuel op? operand join s = chain op? operand join left value' s' ∧
      erase value' = value ∧ s'.kinds = rest ∧ rest.length ≤ left := by
  induction h generalizing rest with
  | @operand read value hvalue =>
    obtain ⟨value', s', heq, hvalue', hs'⟩ :=
      (hoperand s read rest value hkinds hbound ⟨hvalue, hrest⟩).exists_ok
    refine ⟨value', s', fuel, bind_of_ok heq, hvalue', hs', ?_⟩
    have hpos := List.length_pos_iff.2 (hread read value hvalue)
    rw [hkinds, List.length_append] at hbound
    omega
  | @join read read' sign op left right _ hsign hright ih =>
    have hsplit : s.kinds = read ++ (sign :: read' ++ rest) := by
      rw [hkinds, List.append_assoc]
    obtain ⟨left', s₁, budget, heq, hleft', hs₁, hbudget⟩ := ih hsplit (hstops sign op hsign)
    obtain ⟨budget, rfl⟩ : ∃ n, budget = n + 1 :=
      Nat.exists_eq_add_one_of_ne_zero (by simp at hbudget; omega)
    have hadvanced : s₁.advance.kinds = read' ++ rest :=
      TokenStream.kinds_advance_of_cons hs₁
    have hlength : s₁.advance.kinds.length ≤ bound := by
      rw [hadvanced]
      rw [hkinds] at hbound
      simp only [List.length_append, List.length_cons] at hbound ⊢
      omega
    obtain ⟨right', s₂, heq', hright', hs₂⟩ :=
      (hoperand s₁.advance read' rest right hadvanced hlength ⟨hright, hrest⟩).exists_ok
    refine ⟨join op left' right', s₂, budget, ?_, ?_, hs₂, ?_⟩
    · rw [heq, chain, peek_bind, TokenStream.kind_of_kinds hs₁, (hsigns _ _).2 hsign]
      exact bind_of_ok heq'
    · rw [hjoin, hleft', hright']
    · simp only [List.length_append, List.length_cons] at hbudget
      omega

theorem complete_leftAssoc {bound : Nat} {Stops : Token.Kind → Prop}
    (hsigns : ∀ k op, op? k = some op ↔ (k, op) ∈ signs)
    (hjoin : ∀ op a b, erase (join op a b) = join' op (erase a) (erase b))
    (hstops : ∀ k op, (k, op) ∈ signs → Stops k)
    (hread : ∀ read value, Operand read value → read ≠ [])
    (hoperand : Complete bound erase (fun read next value => Operand read value ∧ Stops next)
      operand)
    {fuel : Nat} (hfuel : bound ≤ fuel + 1) :
    Complete bound erase
      (fun read next value => Chain signs Operand join' read value ∧ Stops next ∧ op? next = none)
      (leftAssoc fuel op? operand join) := by
  intro s read rest value hkinds hbound hvalue
  obtain ⟨hvalue, hrest, hnone⟩ := hvalue
  obtain ⟨value', s', budget, heq, hvalue', hs', _⟩ :=
    leftAssoc_reaches hsigns hjoin hstops hread hoperand hvalue hfuel hkinds hbound hrest
  rw [heq]
  cases budget with
  | zero => exact ⟨hvalue', hs'⟩
  | succ budget =>
    rw [chain, peek_bind, TokenStream.kind_eq, hs', hnone]
    exact ⟨hvalue', hs'⟩

end Chains

end Parse

/-! ## The tokens of an expression -/

namespace Grammar

/-- The token can stand inside an expression. -/
def Within : Token.Kind → Prop
  | .assign | .leftBrace | .rightBrace | .endOfFile => False
  | _ => True

/-- The tokens can be those of an expression: there are some, they belong
inside, and the first one is not a newline. -/
structure Proper (read : List Token.Kind) : Prop where
  within : ∀ k ∈ read, Within k
  starts : ∃ k rest, read = k :: rest ∧ k ≠ .newline

variable {read : List Token.Kind}

theorem Proper.ne_nil (h : Proper read) : read ≠ [] := by
  obtain ⟨k, rest, rfl, _⟩ := h.starts
  exact nofun

theorem proper_cons {k : Token.Kind} (hk : Within k) (hne : k ≠ .newline)
    (h : ∀ k ∈ read, Within k) : Proper (k :: read) :=
  ⟨List.forall_mem_cons.2 ⟨hk, h⟩, k, read, rfl, hne⟩

theorem Proper.append (h : Proper read) {more : List Token.Kind} (hmore : ∀ k ∈ more, Within k) :
    Proper (read ++ more) := by
  obtain ⟨k, rest, rfl, hne⟩ := h.starts
  exact ⟨List.forall_mem_append.2 ⟨h.within, hmore⟩, k, rest ++ more, rfl, hne⟩

/-- A chain has the tokens of an expression if its operands have. -/
theorem Chain.proper {α ω : Type} {signs : List (Token.Kind × ω)}
    {Operand : List Token.Kind → α → Prop} {join : ω → α → α → α} {value : α}
    (h : Chain signs Operand join read value) (hsigns : ∀ k op, (k, op) ∈ signs → Within k)
    (hoperand : ∀ read value, Operand read value → Proper read) : Proper read := by
  induction h with
  | operand hvalue => exact hoperand _ _ hvalue
  | join _ hsign hright ih =>
    exact ih.append (List.forall_mem_cons.2 ⟨hsigns _ _ hsign, (hoperand _ _ hright).within⟩)

end Grammar

end UnitScript
