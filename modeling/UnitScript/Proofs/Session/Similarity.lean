import Mathlib.Data.List.Forall2
import UnitScript.Proofs.Session.Evaluation

/-!
# Similar values and variables

Two variables are similar when a script can tell them apart only by looking at
a number, a truth value or a character: they have the same unit, and their
values are the same or of one of these three sorts.  No operation of the
language looks at such a content to decide whether it fails, which problems it
finds, or what unit its result has.

* `Value.Similar`, `Quantity.Similar`, `Binding.Similar`, `Variable.Similar` and
  `Evaluated.Similar` are the relation on data; `Agree` is the one on results
  that can be errors.
* `negate`, `combine`, `cast` and `settle` are the operations of the language,
  each in the namespace of the relation that it respects.
* `Table.Related` and `Scopes.Similar` carry the relation to the open scopes,
  with a lemma for every way that a session looks at them.
-/

namespace UnitScript

variable {ρ : Type}

/-! ## Values -/

/-- The values are the same, or they are two numbers, two truth values or two
characters. -/
inductive Value.Similar : Value ρ → Value ρ → Prop
  | refl (v : Value ρ) : Similar v v
  | numbers {v w : Value ρ} (hv : v.isNumeric = true) (hw : w.isNumeric = true) : Similar v w
  | booleans (b c : Bool) : Similar (.boolean b) (.boolean c)
  | characters (c d : Char) : Similar (.character c) (.character d)

/-- The results are related, or they are the same error. -/
inductive Agree {ε α β : Type} (R : α → β → Prop) : Except ε α → Except ε β → Prop
  | ok {x : α} {y : β} (h : R x y) : Agree R (.ok x) (.ok y)
  | error (e : ε) : Agree R (.error e) (.error e)

/-- What is made of agreeing results agrees. -/
theorem Agree.bind {ε α β γ δ : Type} {R : α → β → Prop} {R' : γ → δ → Prop} {x : Except ε α}
    {y : Except ε β} {next : α → Except ε γ} {next' : β → Except ε δ} (h : Agree R x y)
    (hnext : ∀ a b, R a b → Agree R' (next a) (next' b)) : Agree R' (x >>= next) (y >>= next') := by
  cases h with
  | ok h => exact hnext _ _ h
  | error e => exact .error e

/-- Related options both hold something, or both are empty. -/
theorem rel_cases {α β : Type} {R : α → β → Prop} {x : Option α} {y : Option β}
    (h : Option.Rel R x y) :
    (∃ a b, x = some a ∧ y = some b ∧ R a b) ∨ (x = none ∧ y = none) := by
  cases h with
  | some h => exact .inl ⟨_, _, rfl, rfl, h⟩
  | none => exact .inr ⟨rfl, rfl⟩

namespace Value

variable {v w a b a' b' : Value ρ}

theorem negate_of_number {x : Float} (h : v.number? = some x) :
    ∃ result, v.negate = .ok result := by
  cases v with
  | integer n =>
    simp only [negate]
    cases Number.checked (-n) with
    | some opposite => exact ⟨_, rfl⟩
    | none => exact ⟨_, rfl⟩
  | real y => exact ⟨_, rfl⟩
  | _ => cases h

theorem negate_of_none (h : v.number? = none) : v.negate = .error ⟨.number, v.kind⟩ := by
  cases v with
  | integer n => cases h
  | real y => cases h
  | _ => rfl

theorem integral?_of_none (op : ArithOp) (h : a.number? = none ∨ b.number? = none) :
    integral? op a b = none := by
  cases a with
  | integer m =>
    cases b with
    | integer n => rcases h with h | h <;> cases h
    | _ => rfl
  | _ => rfl

theorem toReal_of_number {x : Float} (h : v.number? = some x) : v.toReal = .ok x := by
  rw [toReal, h]

theorem toReal_of_none (h : v.number? = none) : v.toReal = .error ⟨.number, v.kind⟩ := by
  rw [toReal, h]

theorem arithmetic_of_numbers (op : ArithOp) {x y : Float} (ha : a.number? = some x)
    (hb : b.number? = some y) : ∃ result, arithmetic op a b = .ok result := by
  unfold arithmetic
  cases integral? op a b with
  | some n => exact ⟨_, rfl⟩
  | none =>
    rw [toReal_of_number ha, toReal_of_number hb]
    exact ⟨_, rfl⟩

theorem arithmetic_of_left_none (op : ArithOp) (ha : a.number? = none) :
    arithmetic op a b = .error ⟨.number, a.kind⟩ := by
  rw [arithmetic, integral?_of_none op (.inl ha), toReal_of_none ha]
  rfl

theorem arithmetic_of_right_none (op : ArithOp) {x : Float} (ha : a.number? = some x)
    (hb : b.number? = none) : arithmetic op a b = .error ⟨.number, b.kind⟩ := by
  rw [arithmetic, integral?_of_none op (.inr hb), toReal_of_number ha, toReal_of_none hb]
  rfl

namespace Similar

theorem symm (h : v.Similar w) : w.Similar v := by
  cases h with
  | refl => exact .refl v
  | numbers hv hw => exact .numbers hw hv
  | booleans b c => exact .booleans c b
  | characters c d => exact .characters d c

theorem reals (x y : Float) : Similar (.real x : Value ρ) (.real y) := .numbers rfl rfl

/-- Two similar values are both numbers, or neither is and they are of the same
kind. -/
theorem number?_cases (h : v.Similar w) :
    (∃ x y, v.number? = some x ∧ w.number? = some y) ∨
      (v.number? = none ∧ w.number? = none ∧ v.kind = w.kind) := by
  cases h with
  | refl =>
    cases hv : v.number? with
    | some x => exact .inl ⟨x, x, rfl, rfl⟩
    | none => exact .inr ⟨rfl, rfl, rfl⟩
  | numbers hv hw =>
    obtain ⟨x, hx⟩ := Option.isSome_iff_exists.1 (isNumeric_iff.1 hv)
    obtain ⟨y, hy⟩ := Option.isSome_iff_exists.1 (isNumeric_iff.1 hw)
    exact .inl ⟨x, y, hx, hy⟩
  | booleans b c => exact .inr ⟨rfl, rfl, rfl⟩
  | characters c d => exact .inr ⟨rfl, rfl, rfl⟩

theorem isNone_number? (h : v.Similar w) : v.number?.isNone = w.number?.isNone := by
  rcases h.number?_cases with ⟨x, y, hx, hy⟩ | ⟨hv, hw, _⟩
  · rw [hx, hy]
    rfl
  · rw [hv, hw]

/-- A string is similar to itself only. -/
theorem eq_pointer (h : v.Similar w) {r : ρ} (hv : v = .pointer r) : w = .pointer r := by
  subst hv
  cases h with
  | refl => rfl
  | numbers hv hw => cases hv

theorem pointer_or_not (h : v.Similar w) :
    (∃ r, v = .pointer r ∧ w = .pointer r) ∨
      ((∀ r, v ≠ .pointer r) ∧ ∀ r, w ≠ .pointer r) := by
  by_cases hpointer : ∃ r, v = .pointer r
  · obtain ⟨r, hr⟩ := hpointer
    exact .inl ⟨r, hr, h.eq_pointer hr⟩
  · exact .inr ⟨fun r hr => hpointer ⟨r, hr⟩, fun r hr => hpointer ⟨r, h.symm.eq_pointer hr⟩⟩

theorem negate (h : v.Similar w) : Agree Similar v.negate w.negate := by
  rcases h.number?_cases with ⟨x, y, hx, hy⟩ | ⟨hv, hw, hkind⟩
  · obtain ⟨first, hfirst⟩ := negate_of_number hx
    obtain ⟨second, hsecond⟩ := negate_of_number hy
    rw [hfirst, hsecond]
    exact .ok (.numbers (isNumeric_negate hfirst) (isNumeric_negate hsecond))
  · rw [negate_of_none hv, negate_of_none hw, hkind]
    exact .error _

/-- Arithmetic on similar values fails for the same reason or gives two
numbers. -/
theorem arithmetic (op : ArithOp) (ha : a.Similar a') (hb : b.Similar b') :
    Agree Similar (Value.arithmetic op a b) (Value.arithmetic op a' b') := by
  rcases ha.number?_cases with ⟨x, x', hx, hx'⟩ | ⟨hnone, hnone', hkind⟩
  · rcases hb.number?_cases with ⟨y, y', hy, hy'⟩ | ⟨hnone, hnone', hkind⟩
    · obtain ⟨first, hfirst⟩ := arithmetic_of_numbers op hx hy
      obtain ⟨second, hsecond⟩ := arithmetic_of_numbers op hx' hy'
      rw [hfirst, hsecond]
      exact .ok (.numbers (isNumeric_arithmetic hfirst) (isNumeric_arithmetic hsecond))
    · rw [arithmetic_of_right_none op hx hnone, arithmetic_of_right_none op hx' hnone', hkind]
      exact .error _
  · rw [arithmetic_of_left_none op hnone, arithmetic_of_left_none op hnone', hkind]
    exact .error _

end Similar

end Value

/-! ## Quantities and bindings -/

/-- The quantities differ in their magnitude at most. -/
structure Quantity.Similar (p q : Quantity) : Prop where
  dimension : p.dimension = q.dimension
  carrying : p.carrying = q.carrying
  cast : p.cast = q.cast

/-- The bindings differ in their magnitude at most. -/
structure Binding.Similar (b c : Binding) : Prop where
  dimension : b.dimension = c.dimension
  preferred : b.preferred = c.preferred

namespace Binding.Similar

variable {b c : Binding}

theorem label (h : b.Similar c) : b.label = c.label := by
  rw [Binding.label, Binding.label, h.preferred]

theorem carriesUnit (h : b.Similar c) : b.carriesUnit = c.carriesUnit := by
  rw [Binding.carriesUnit, Binding.carriesUnit, h.dimension, h.label]

theorem quantity (h : b.Similar c) : (Quantity.ofBinding b).Similar (.ofBinding c) :=
  ⟨h.dimension, h.carriesUnit, rfl⟩

end Binding.Similar

namespace Quantity

theorem similar_plain (x y : Float) : (plain x).Similar (plain y) := ⟨rfl, rfl, rfl⟩

variable {a b a' b' p q : Quantity}

theorem Similar.mismatch? (op : ArithOp) (ha : a.Similar a') (hb : b.Similar b') :
    Quantity.mismatch? op a b = Quantity.mismatch? op a' b' := by
  unfold Quantity.mismatch?
  rw [ha.carrying, hb.carrying, ha.dimension, hb.dimension]

/-- Whether a power is a quantity depends on the dimensions and on how the
exponent is written. -/
theorem Similar.power? (ha : a.Similar a') (hb : b.Similar b') (carrying : Bool)
    (exponent : Expr) :
    Option.Rel Similar (a.power? b carrying exponent) (a'.power? b' carrying exponent) := by
  unfold Quantity.power?
  rw [ha.dimension, hb.dimension]
  split
  · split
    · split
      · exact .some ⟨rfl, rfl, rfl⟩
      · exact .none
    · split
      · exact .some ⟨rfl, rfl, rfl⟩
      · exact .none
  · exact .none

theorem Similar.combine? (op : ArithOp) (ha : a.Similar a') (hb : b.Similar b') (exponent : Expr) :
    Option.Rel Similar (Quantity.combine? op a b exponent)
      (Quantity.combine? op a' b' exponent) := by
  have hcarrying : (a.carrying || b.carrying) = (a'.carrying || b'.carrying) := by
    rw [ha.carrying, hb.carrying]
  unfold Quantity.combine?
  rw [hcarrying]
  cases op with
  | add =>
    simp only [ha.dimension, hb.dimension]
    split
    · exact .some ⟨rfl, rfl, rfl⟩
    · exact .none
  | sub =>
    simp only [ha.dimension, hb.dimension]
    split
    · exact .some ⟨rfl, rfl, rfl⟩
    · exact .none
  | mul => exact .some ⟨by simp only [ha.dimension, hb.dimension], rfl, rfl⟩
  | div => exact .some ⟨by simp only [ha.dimension, hb.dimension], rfl, rfl⟩
  | pow => exact ha.power? hb _ exponent

theorem Similar.filter_carrying {first second : Option Quantity}
    (h : Option.Rel Similar first second) :
    Option.Rel Similar (first.filter (·.carrying)) (second.filter (·.carrying)) := by
  cases h with
  | none => exact .none
  | @some p q h =>
    cases hcarrying : p.carrying with
    | true =>
      rw [Option.filter_some_pos hcarrying, Option.filter_some_pos (h.carrying ▸ hcarrying)]
      exact .some h
    | false =>
      have hcarrying' : q.carrying = false := h.carrying ▸ hcarrying
      simp only [Option.filter, hcarrying, hcarrying']
      exact .none

/-- The binding that an assignment makes, and the warning about it, depend on
the unit that the variable had and on that of the quantity. -/
theorem Similar.bind (hq : p.Similar q) (name : String) {previous previous' : Option Binding}
    (h : Option.Rel Binding.Similar previous previous') :
    (p.bind name previous).1.Similar (q.bind name previous').1 ∧
      (p.bind name previous).2 = (q.bind name previous').2 := by
  cases h with
  | none =>
    refine ⟨⟨hq.dimension, ?_⟩, rfl⟩
    simp only [Quantity.bind, hq.cast, hq.dimension]
  | @some b c h =>
    simp only [Quantity.bind, hq.dimension, hq.cast, h.dimension]
    split
    · refine ⟨⟨rfl, ?_⟩, rfl⟩
      cases q.cast with
      | some measure => rfl
      | none => exact h.preferred
    · exact ⟨⟨rfl, rfl⟩, rfl⟩

end Quantity

/-- The variables have similar values and similar units. -/
structure Variable.Similar (v w : Variable ρ) : Prop where
  value : v.value.Similar w.value
  unit : Option.Rel Binding.Similar v.unit w.unit

theorem Variable.Similar.units {first second : Option (Variable ρ)}
    (h : Option.Rel Variable.Similar first second) :
    Option.Rel Binding.Similar (first.bind (·.unit)) (second.bind (·.unit)) := by
  cases h with
  | some hheld => exact hheld.unit
  | none => exact .none

/-! ## Evaluated values -/

/-- The values are similar, and so are the quantities they stand for. -/
structure Evaluated.Similar (x y : Evaluated ρ) : Prop where
  value : x.value.Similar y.value
  quantity : Option.Rel Quantity.Similar x.quantity y.quantity

namespace Evaluated

/-- Two evaluated values with the problems that were found: similar, and the
same. -/
def SimilarWith (x y : Evaluated ρ × List Problem) : Prop := x.1.Similar y.1 ∧ x.2 = y.2

theorem similar_number? {v w : Value ρ} (h : v.Similar w) :
    Option.Rel Quantity.Similar (v.number?.map .plain) (w.number?.map .plain) := by
  rcases h.number?_cases with ⟨x, y, hx, hy⟩ | ⟨hv, hw, _⟩
  · rw [hx, hy]
    exact .some (Quantity.similar_plain x y)
  · rw [hv, hw]
    exact .none

theorem similar_ofValue {v w : Value ρ} (h : v.Similar w) : (ofValue v).Similar (ofValue w) :=
  ⟨h, similar_number? h⟩

theorem similar_ofVariable {held held' : Variable ρ} (h : held.Similar held') :
    (ofVariable held).Similar (ofVariable held') := by
  refine ⟨h.value, ?_⟩
  unfold ofVariable
  rcases rel_cases h.unit with ⟨b, c, hb, hc, hbinding⟩ | ⟨hb, hc⟩
  · simp only [hb, hc]
    exact .some hbinding.quantity
  · simp only [hb, hc]
    exact similar_number? h.value

variable {x y lhs rhs lhs' rhs' : Evaluated ρ}

theorem Similar.refl (x : Evaluated ρ) : x.Similar x := by
  refine ⟨.refl x.value, ?_⟩
  cases x.quantity with
  | some q => exact .some ⟨rfl, rfl, rfl⟩
  | none => exact .none

theorem Similar.dimension (h : x.Similar y) :
    x.quantity.map (·.dimension) = y.quantity.map (·.dimension) := by
  rcases rel_cases h.quantity with ⟨p, q, hp, hq, hsimilar⟩ | ⟨hp, hq⟩
  · rw [hp, hq]
    exact congrArg some hsimilar.dimension
  · rw [hp, hq]

theorem Similar.negate (h : x.Similar y) : Agree Similar x.negate y.negate := by
  refine h.value.negate.bind fun v w hvalue => .ok ⟨hvalue, ?_⟩
  rcases rel_cases h.quantity with ⟨p, q, hp, hq, hsimilar⟩ | ⟨hp, hq⟩
  · rw [hp, hq]
    exact .some ⟨hsimilar.dimension, hsimilar.carrying, hsimilar.cast⟩
  · rw [hp, hq]
    exact .none

/-! ### Operators -/

theorem Similar.combineQuantities (op : ArithOp) (exponent : Expr) (hlhs : lhs.Similar lhs')
    (hrhs : rhs.Similar rhs') {a b a' b' : Quantity} (ha : a.Similar a') (hb : b.Similar b') :
    Agree SimilarWith (Evaluated.combineQuantities op exponent lhs rhs a b)
      (Evaluated.combineQuantities op exponent lhs' rhs' a' b') := by
  have hcombined := ha.combine? op hb exponent
  unfold Evaluated.combineQuantities
  rw [ha.mismatch? op hb]
  cases Quantity.mismatch? op a' b' with
  | some problem => exact .ok ⟨⟨.refl _, .none⟩, rfl⟩
  | none =>
    rcases rel_cases (Quantity.Similar.filter_carrying hcombined) with
      ⟨q, q', hq, hq', _⟩ | ⟨hq, hq'⟩
    · simp only [hq, hq']
      exact .ok ⟨⟨.reals q.si q'.si, hcombined⟩, rfl⟩
    · simp only [hq, hq']
      exact (hlhs.value.arithmetic op hrhs.value).bind
        fun v w hvalue => .ok ⟨⟨hvalue, hcombined⟩, rfl⟩

theorem Similar.arithmetic (op : ArithOp) (exponent : Expr) (hlhs : lhs.Similar lhs')
    (hrhs : rhs.Similar rhs') :
    Agree SimilarWith (Evaluated.arithmetic op exponent lhs rhs)
      (Evaluated.arithmetic op exponent lhs' rhs') := by
  have hplain : Agree SimilarWith
      (Value.arithmetic op lhs.value rhs.value >>= fun v => .ok (ofValue v, []))
      (Value.arithmetic op lhs'.value rhs'.value >>= fun w => .ok (ofValue w, [])) :=
    (hlhs.value.arithmetic op hrhs.value).bind fun v w hvalue => .ok ⟨similar_ofValue hvalue, rfl⟩
  unfold Evaluated.arithmetic
  rcases rel_cases hlhs.quantity with ⟨a, a', ha, ha', hleft⟩ | ⟨ha, ha'⟩
  · rcases rel_cases hrhs.quantity with ⟨b, b', hb, hb', hright⟩ | ⟨hb, hb'⟩
    · simp only [ha, ha', hb, hb']
      exact hlhs.combineQuantities op exponent hrhs hleft hright
    · simp only [ha, ha', hb, hb']
      exact hplain
  · simp only [ha, ha']
    exact hplain

/-- Operators on similar operands fail for the same reason or give similar
results with the same warnings.  What two values are compared to is a truth
value in any case. -/
theorem Similar.combine [DecidableEq ρ] (op : BinaryOp) (exponent : Expr)
    (hlhs : lhs.Similar lhs') (hrhs : rhs.Similar rhs') :
    Agree SimilarWith (Evaluated.combine op exponent lhs rhs)
      (Evaluated.combine op exponent lhs' rhs') := by
  cases op with
  | arith op => exact hlhs.arithmetic op exponent hrhs
  | eq => exact .ok ⟨similar_ofValue (.booleans _ _), rfl⟩
  | ne => exact .ok ⟨similar_ofValue (.booleans _ _), rfl⟩

/-! ### Casts and assignments -/

theorem Similar.castValue (measure : Measure) (unit : UnitExpr) {bound bound' : Option Binding}
    (hbound : Option.Rel Binding.Similar bound bound') (h : x.Similar y) :
    (x.castValue measure unit bound).1.Similar (y.castValue measure unit bound').1 ∧
      (x.castValue measure unit bound).2 = (y.castValue measure unit bound').2 := by
  unfold Evaluated.castValue
  rw [h.value.isNone_number?]
  split
  · exact ⟨.refl _, rfl⟩
  · cases hbound with
    | none => exact ⟨h.value, rfl⟩
    | some hbinding =>
      refine ⟨.reals _ _, ?_⟩
      simp only [hbinding.dimension]

/-- Casts of similar values give similar results with the same warnings. -/
theorem Similar.cast (measure : Measure) (unit : UnitExpr) {bound bound' : Option Binding}
    (hbound : Option.Rel Binding.Similar bound bound') (h : x.Similar y) :
    SimilarWith (x.cast measure unit bound) (y.cast measure unit bound') := by
  obtain ⟨hvalue, hproblems⟩ := h.castValue measure unit hbound
  refine ⟨⟨hvalue, ?_⟩, hproblems⟩
  simp only [Evaluated.cast]
  split
  · exact .some ⟨rfl, rfl, rfl⟩
  · exact .none

/-- Assignments of similar values store similar variables with the same
warnings. -/
theorem Similar.settle (name : String) {previous previous' : Option Binding}
    (hprevious : Option.Rel Binding.Similar previous previous') (h : x.Similar y) :
    (x.settle name previous).1.Similar (y.settle name previous').1 ∧
      (x.settle name previous).2 = (y.settle name previous').2 := by
  unfold Evaluated.settle
  rcases rel_cases (Quantity.Similar.filter_carrying h.quantity) with
    ⟨p, q, hp, hq, hsimilar⟩ | ⟨hp, hq⟩
  · obtain ⟨hbinding, hproblems⟩ := hsimilar.bind name hprevious
    simp only [hp, hq]
    exact ⟨⟨.reals _ _, .some hbinding⟩, hproblems⟩
  · simp only [hp, hq]
    refine ⟨⟨h.value, ?_⟩, trivial⟩
    cases hprevious with
    | none =>
      rcases rel_cases h.quantity with ⟨p, q, hp, hq, _⟩ | ⟨hp, hq⟩
      · simp only [hp, hq]
        exact .some ⟨rfl, rfl⟩
      · simp only [hp, hq]
        exact .none
    | some hbinding =>
      rcases h.value.number?_cases with ⟨m, n, hm, hn⟩ | ⟨hm, hn, _⟩
      · simp only [hm, hn]
        exact .some ⟨hbinding.dimension, hbinding.preferred⟩
      · simp only [hm, hn]
        exact .none

end Evaluated

/-! ## Tables and scopes -/

namespace Table

variable {α : Type} {R : α → α → Prop} {first second : Table α} {v w : α}

/-- The tables have the same names, and related values under them. -/
def Related (R : α → α → Prop) (first second : Table α) : Prop :=
  List.Forall₂ (fun x y => x.1 = y.1 ∧ R x.2 y.2) first.entries second.entries

theorem related_empty : Related R ∅ ∅ := .nil

theorem Related.get? (h : Related R first second) (key : String) :
    Option.Rel R (first.get? key) (second.get? key) := by
  unfold Related at h
  unfold Table.get?
  generalize first.entries = entries at h ⊢
  generalize second.entries = entries' at h ⊢
  induction h with
  | nil => exact .none
  | @cons x y rest rest' hhead _ ih =>
    obtain ⟨k, v⟩ := x
    obtain ⟨k', w⟩ := y
    obtain ⟨rfl, hvalue⟩ := hhead
    rw [List.lookup_cons, List.lookup_cons]
    cases key == k with
    | true => exact .some hvalue
    | false => exact ih

theorem Related.insert (h : Related R first second) (key : String) (hvalue : R v w) :
    Related R (first.insert key v) (second.insert key w) := by
  unfold Related at h ⊢
  simp only [Table.insert]
  generalize first.entries = entries at h ⊢
  generalize second.entries = entries' at h ⊢
  induction h with
  | nil => exact .cons ⟨rfl, hvalue⟩ .nil
  | @cons x y rest rest' hhead hrest ih =>
    obtain ⟨k, v'⟩ := x
    obtain ⟨k', w'⟩ := y
    obtain ⟨rfl, hheld⟩ := hhead
    simp only [insertEntry]
    split
    · exact .cons ⟨rfl, hvalue⟩ (.cons ⟨rfl, hheld⟩ hrest)
    · split
      · exact .cons ⟨rfl, hvalue⟩ hrest
      · exact .cons ⟨rfl, hheld⟩ ih

theorem Related.values (h : Related R first second) :
    List.Forall₂ R first.values second.values := by
  unfold Table.values
  rw [List.forall₂_map_left_iff, List.forall₂_map_right_iff]
  exact h.imp fun _ _ hentry => hentry.2

end Table

namespace Scopes

/-- The same scopes are open, with similar variables under the same names. -/
def Similar (first second : Scopes ρ) : Prop :=
  List.Forall₂ (Table.Related Variable.Similar) first.levels second.levels

variable {first second : Scopes ρ}

theorem Similar.lookup? (h : first.Similar second) (name : String) :
    Option.Rel Variable.Similar (first.lookup? name) (second.lookup? name) := by
  unfold Similar at h
  unfold Scopes.lookup?
  generalize first.levels = levels at h ⊢
  generalize second.levels = levels' at h ⊢
  induction h with
  | nil => exact .none
  | @cons scope scope' outer outer' hscope _ ih =>
    rw [List.findSome?_cons, List.findSome?_cons]
    rcases rel_cases (hscope.get? name) with
      ⟨held, held', hheld, hheld', hsimilar⟩ | ⟨hnone, hnone'⟩
    · rw [hheld, hheld']
      exact .some hsimilar
    · rw [hnone, hnone']
      exact ih

theorem Similar.openScope (h : first.Similar second) : first.openScope.Similar second.openScope :=
  .cons Table.related_empty h

theorem Similar.current (h : first.Similar second) :
    Agree (Table.Related Variable.Similar) first.current second.current := by
  obtain ⟨levels⟩ := first
  obtain ⟨levels'⟩ := second
  cases h with
  | nil => exact .error Error.noScope
  | cons hscope _ => exact .ok hscope

/-- A variable that is put into the innermost scope replaces similar ones. -/
theorem Similar.declare (h : first.Similar second) (name : String) {held held' : Variable ρ}
    (hheld : held.Similar held') :
    Agree (fun x y => Option.Rel Variable.Similar x.1 y.1 ∧ x.2.Similar y.2)
      (first.declare name held) (second.declare name held') := by
  obtain ⟨levels⟩ := first
  obtain ⟨levels'⟩ := second
  cases h with
  | nil => exact .error Error.noScope
  | cons hscope houter => exact .ok ⟨hscope.get? name, .cons (hscope.insert name hheld) houter⟩

/-- Closing takes away similar scopes and leaves similar ones, or it does
nothing. -/
theorem Similar.closeScope (h : first.Similar second) :
    Option.Rel (Table.Related Variable.Similar) first.closeScope.1 second.closeScope.1 ∧
      first.closeScope.2.Similar second.closeScope.2 := by
  obtain ⟨levels⟩ := first
  obtain ⟨levels'⟩ := second
  cases h with
  | nil => exact ⟨.none, .nil⟩
  | cons hinner houter =>
    cases houter with
    | nil => exact ⟨.none, .cons hinner .nil⟩
    | cons houter hrest => exact ⟨.some hinner, .cons houter hrest⟩

end Scopes

namespace Context

/-- The same script and units, and similar variables. -/
structure Similar (first second : Context ρ) : Prop where
  source : first.source = second.source
  registry : first.registry = second.registry
  scopes : first.scopes.Similar second.scopes

variable {first second : Context ρ}

theorem Similar.binding? (h : first.Similar second) (e : Expr) :
    Option.Rel Binding.Similar (first.binding? e) (second.binding? e) := by
  unfold Context.binding?
  cases e.name? with
  | none => exact .none
  | some name => exact Variable.Similar.units (h.scopes.lookup? name)

/-- The unit text that an expression is displayed with depends on units only. -/
theorem Similar.label? (h : first.Similar second) (e : Expr) {x y : Evaluated ρ}
    (hevaluated : x.Similar y) : first.label? e x = second.label? e y := by
  unfold Context.label?
  cases e.peel with
  | identifier name span =>
    simp only
    rcases rel_cases (h.binding? e) with ⟨b, c, hb, hc, hbinding⟩ | ⟨hb, hc⟩
    · rw [hb, hc]
      exact hbinding.label
    · rw [hb, hc]
  | cast value unit span =>
    simp only
    rcases rel_cases hevaluated.quantity with ⟨p, q, hp, hq, hsimilar⟩ | ⟨hp, hq⟩
    · rw [hp, hq]
      simp only [Option.bind_some, hsimilar.cast]
    · rw [hp, hq]
  | _ => rfl

end Context

end UnitScript
