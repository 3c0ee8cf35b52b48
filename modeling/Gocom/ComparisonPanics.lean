import Gocom.Comparisons

/-!
# Panics of comparison objects

Which comparisons panic depends on the kind of the field, the operator and the right value. An
unsigned field always panics, since it is read as a signed one; so does an unsigned right value
for a signed field. An object panics with the first of its comparisons that does, of those which
are reached.
-/

namespace Gocom

namespace CompareType

/-- The operators with one right value. -/
def isOrdering : CompareType → Bool
  | equals | notEquals | lessThan | lessEquals | greaterThan | greaterEquals => true
  | _ => false

/-- The operators that search an array, of integers or floats. -/
def isSearch : CompareType → Bool
  | contains | inArray | notInArray => true
  | _ => false

/-- The operators with two bounds. -/
def isRange : CompareType → Bool
  | between | notBetween => true
  | _ => false

end CompareType

namespace Comparison

/-! ## One comparison -/

namespace Comparing

variable {κ : Type} {k : Comparing κ}

theorem compareOne_isSome_iff (harray : k.isKind .array = false) (right : Operand)
    (holds : κ → Bool) : (k.compareOne right holds).isSome = true ↔
      right ≠ .nil ∧ ∀ x, right = .scalar x → k.isKind x.kind = true → (k.read x).isSome = true := by
  cases right with
  | nil => simp [compareOne, Operand.kind]
  | scalar x =>
    cases hk : k.isKind x.kind <;> simp [compareOne, Operand.kind, hk, readOperand]
  | _ => simp [compareOne, Operand.kind, harray]

theorem find_isSome {items : List Item}
    (h : ∀ item ∈ items, k.isKind item.kind = true → (k.readItem item).isSome = true) (left : κ) :
    (k.find left items).isSome = true := by
  induction items with
  | nil => rfl
  | cons item items ih =>
    have hrest := ih fun i hi => h i (List.mem_cons_of_mem item hi)
    rw [find]
    split_ifs with hk
    · obtain ⟨x, hx⟩ := Option.isSome_iff_exists.mp (h item List.mem_cons_self hk)
      rw [hx]
      dsimp only
      split_ifs
      · rfl
      · exact hrest
    · exact hrest

theorem inArray_isSome (right : Operand) (h : ∀ items, right.items = some items →
      ∀ item ∈ items, k.isKind item.kind = true → (k.readItem item).isSome = true) (left : κ) :
    (k.inArray left right).isSome = true ∧ (k.notInArray left right).isSome = true := by
  rw [inArray, notInArray]
  cases hi : right.items with
  | none => exact ⟨rfl, rfl⟩
  | some items =>
    have hfind := find_isSome (h items hi) left
    exact ⟨hfind, by rw [Option.isSome_map]; exact hfind⟩

theorem between_isSome (right : Operand) (h : ∀ items, right.items = some items →
      ∀ item ∈ items, k.isKind item.kind = true → (k.readItem item).isSome = true) (left : κ) :
    (k.between left right).isSome = true ∧ (k.notBetween left right).isSome = true := by
  have hwithin : (k.within left right).isSome = true := by
    rw [within]
    split
    · next item1 item2 rest hi =>
      split_ifs with hk
      · have h1 := h _ hi item1 (by simp) hk.1
        have h2 := h _ hi item2 (by simp) hk.2
        obtain ⟨lo, hlo⟩ := Option.isSome_iff_exists.mp h1
        rw [hlo]
        dsimp only
        split_ifs
        · rw [Option.isSome_map]
          exact h2
        · rfl
      · rfl
    · rfl
  rw [between, notBetween, Option.isSome_map, Option.isSome_map]
  exact ⟨hwithin, hwithin⟩

end Comparing

/-- Floats and strings can be read wherever their kind is tested. -/
theorem floats_reads (item : Item) (h : floats.isKind item.kind = true) :
    (floats.readItem item).isSome = true := by
  cases item with
  | value x => cases x <;> first | rfl | cases h
  | boxed x => cases h

theorem strings_reads (item : Item) (h : strings.isKind item.kind = true) :
    (strings.readItem item).isSome = true := by
  cases item with
  | value x => cases x <;> first | rfl | cases h
  | boxed x => cases h

/-- The number of unsigned items. -/
def unsignedItems : Operand → ℕ
  | .uints xs => xs.length
  | _ => 0

/-- Only unsigned items are tested for but not read. -/
theorem ints_reads {right : Operand} (h : ∀ xs, right ≠ .uints xs) (items : List Item)
    (hi : right.items = some items) (item : Item) (hmem : item ∈ items)
    (hk : ints.isKind item.kind = true) : (ints.readItem item).isSome = true := by
  cases right with
  | nil | scalar x => cases hi
  | uints xs => exact absurd rfl (h xs)
  | ints xs =>
    obtain rfl := Option.some.inj hi
    obtain ⟨x, -, rfl⟩ := List.mem_map.mp hmem
    rfl
  | floats xs | strings xs | interfaces xs =>
    obtain rfl := Option.some.inj hi
    obtain ⟨x, -, rfl⟩ := List.mem_map.mp hmem
    cases hk
  | others n =>
    obtain rfl := Option.some.inj hi
    obtain rfl := List.eq_of_mem_replicate hmem
    cases hk

theorem ints_inArray_isSome_iff (left : ℤ) (right : Operand) :
    ((ints.inArray left right).isSome = true ↔ unsignedItems right = 0) ∧
      ((ints.notInArray left right).isSome = true ↔ unsignedItems right = 0) := by
  by_cases hu : ∃ xs, right = .uints xs
  · obtain ⟨xs, rfl⟩ := hu
    cases xs with
    | nil => exact ⟨iff_of_true rfl rfl, iff_of_true rfl rfl⟩
    | cons x xs =>
      refine ⟨iff_of_false (fun h => ?_) (by simp [unsignedItems]),
        iff_of_false (fun h => ?_) (by simp [unsignedItems])⟩ <;> cases h
  · have hno : ∀ xs, right ≠ .uints xs := fun xs h => hu ⟨xs, h⟩
    obtain ⟨hin, hnot⟩ := Comparing.inArray_isSome right (ints_reads hno) left
    have hzero : unsignedItems right = 0 := by
      cases right <;> first | rfl | exact absurd rfl (hno _)
    exact ⟨iff_of_true hin hzero, iff_of_true hnot hzero⟩

theorem ints_between_isSome_iff (left : ℤ) (right : Operand) :
    ((ints.between left right).isSome = true ↔ unsignedItems right < 2) ∧
      ((ints.notBetween left right).isSome = true ↔ unsignedItems right < 2) := by
  by_cases hu : ∃ xs, right = .uints xs
  · obtain ⟨xs, rfl⟩ := hu
    rcases xs with _ | ⟨x, _ | ⟨y, xs⟩⟩
    · exact ⟨iff_of_true rfl Nat.zero_lt_two, iff_of_true rfl Nat.zero_lt_two⟩
    · exact ⟨iff_of_true rfl Nat.one_lt_two, iff_of_true rfl Nat.one_lt_two⟩
    · refine ⟨iff_of_false (fun h => ?_) (by simp [unsignedItems]),
        iff_of_false (fun h => ?_) (by simp [unsignedItems])⟩ <;> cases h
  · have hno : ∀ xs, right ≠ .uints xs := fun xs h => hu ⟨xs, h⟩
    obtain ⟨hin, hnot⟩ := Comparing.between_isSome right (ints_reads hno) left
    have hless : unsignedItems right < 2 := by
      cases right <;> first | exact Nat.zero_lt_two | exact absurd rfl (hno _)
    exact ⟨iff_of_true hin hless, iff_of_true hnot hless⟩

/-- The comparison of a field with a right value that does not panic. -/
def Safe (cmp : CompareType) (right : Operand) : Scalar → Prop
  | .int _ =>
    (cmp.isOrdering = true → right ≠ .nil ∧ ∀ n, right ≠ .scalar (.uint n)) ∧
      (cmp.isSearch = true → unsignedItems right = 0) ∧
      (cmp.isRange = true → unsignedItems right < 2)
  | .uint _ => False
  | .string _ => cmp.isOrdering = true ∨ cmp = .contains → right ≠ .nil
  | .float _ => cmp.isOrdering = true → right ≠ .nil
  | .other => True

theorem ints_compareOne_isSome_iff (right : Operand) (holds : ℤ → Bool) :
    (ints.compareOne right holds).isSome = true ↔
      right ≠ .nil ∧ ∀ n, right ≠ .scalar (.uint n) := by
  rw [Comparing.compareOne_isSome_iff rfl]
  refine and_congr_right fun _ => ?_
  constructor
  · rintro h n rfl
    cases h _ rfl rfl
  · rintro h x rfl hk
    cases x with
    | int n => rfl
    | uint n => exact absurd rfl (h n)
    | float bits | string s | other => cases hk

theorem compareInt_isSome_iff (cmp : CompareType) (n : ℤ) (right : Operand) :
    (compareInt cmp (.int n) right).isSome = true ↔ Safe cmp right (.int n) := by
  have hone := ints_compareOne_isSome_iff right
  have hin := ints_inArray_isSome_iff n right
  have hrange := ints_between_isSome_iff n right
  have hread : compareInt cmp (.int n) right = ints.compare ints.inArray cmp n right := rfl
  rw [hread]
  cases cmp <;> simp [Comparing.compare, Safe, CompareType.isOrdering, CompareType.isSearch,
    CompareType.isRange, hone, hin, hrange]

/-- Where whatever is tested for can be read, only the type of nil panics. -/
theorem compare_isSome_iff {κ : Type} {k : Comparing κ} (harray : k.isKind .array = false)
    (hreads : ∀ item, k.isKind item.kind = true → (k.readItem item).isSome = true)
    (contains : κ → Operand → Option Bool) (cmp : CompareType) (left : κ) (right : Operand) :
    (k.compare contains cmp left right).isSome = true ↔
      (cmp.isOrdering = true → right ≠ .nil) ∧
        (cmp = .contains → (contains left right).isSome = true) := by
  have hone : ∀ holds, (k.compareOne right holds).isSome = true ↔ right ≠ .nil := by
    intro holds
    rw [Comparing.compareOne_isSome_iff harray]
    exact and_iff_left fun x _ hk => hreads (.value x) hk
  have hin := Comparing.inArray_isSome right (fun _ _ item _ => hreads item) left
  have hrange := Comparing.between_isSome right (fun _ _ item _ => hreads item) left
  cases cmp <;> simp [Comparing.compare, CompareType.isOrdering, hone, hin, hrange]

theorem compareValue_isSome_iff (value : Scalar) (right : Operand) (cmp : CompareType) :
    (compareValue value right cmp).isSome = true ↔ Safe cmp right value := by
  cases value with
  | int n => exact compareInt_isSome_iff cmp n right
  | uint n => exact iff_of_false (fun h => by cases h) not_false
  | string s =>
    have hcompare := compare_isSome_iff rfl strings_reads stringContains cmp s right
    have hcontains : (stringContains s right).isSome = true ↔ right ≠ .nil := by
      rw [stringContains, Comparing.compareOne_isSome_iff rfl]
      exact and_iff_left fun x _ hk => strings_reads (.value x) hk
    rw [hcontains, ← or_imp] at hcompare
    exact hcompare
  | float bits =>
    have hcompare := compare_isSome_iff rfl floats_reads floats.inArray cmp bits right
    have hin := (Comparing.inArray_isSome right (fun _ _ item _ => floats_reads item) bits).1
    rw [and_iff_left fun _ => hin] at hcompare
    exact hcompare
  | other => exact iff_of_true rfl trivial

/-! ## An object -/

namespace ComparisonMeta

/-- The field is there and the comparison holds. -/
def holds (fields : Fields) (m : ComparisonMeta) : Bool :=
  (fields m.field).any fun fv => compareValue fv m.value m.comparison = some true

/-- The field is not there or the comparison does not panic. -/
def Safe (fields : Fields) (m : ComparisonMeta) : Prop :=
  ∀ fv, fields m.field = some fv → Comparison.Safe m.comparison m.value fv

end ComparisonMeta

/-- The and-comparisons up to the first that does not hold. -/
def reachedAnds (fields : Fields) : List ComparisonMeta → List ComparisonMeta
  | [] => []
  | a :: ands => a :: if a.holds fields then reachedAnds fields ands else []

/-- The or-comparisons up to the first that holds. -/
def reachedOrs (fields : Fields) : List ComparisonMeta → List ComparisonMeta
  | [] => []
  | o :: ors => o :: if o.holds fields then [] else reachedOrs fields ors

def andsHold (fields : Fields) (ands : Option (List ComparisonMeta)) : Bool :=
  ands.all fun ands => ands.all (ComparisonMeta.holds fields)

def orsHold (fields : Fields) (ors : Option (List ComparisonMeta)) : Bool :=
  ors.all fun ors => ors.any (ComparisonMeta.holds fields)

/-- The comparisons of the two lists that are reached, the second list behind the first. -/
def reachedOwn (fields : Fields) (ands ors : Option (List ComparisonMeta)) : List ComparisonMeta :=
  reachedAnds fields (ands.getD []) ++
    if andsHold fields ands then reachedOrs fields (ors.getD []) else []

def ComparisonObject.reached (fields : Fields) : ComparisonObject → List ComparisonMeta
  | last ands ors => reachedOwn fields ands ors
  | nested ands ors nestedComparison => reachedOwn fields ands ors ++
      if andsHold fields ands && orsHold fields ors then nestedComparison.reached fields else []

/-- Each comparison panics, does not hold, or holds. -/
theorem meta_cases (fields : Fields) (m : ComparisonMeta) :
    (∃ fv, fields m.field = some fv ∧ compareValue fv m.value m.comparison = none ∧
        ¬ m.Safe fields) ∨
      m.Safe fields ∧ (fields m.field = none ∧ m.holds fields = false ∨
        ∃ fv, fields m.field = some fv ∧
          compareValue fv m.value m.comparison = some (m.holds fields)) := by
  cases hf : fields m.field with
  | none =>
    refine .inr ⟨fun fv h => ?_, .inl ⟨rfl, by rw [ComparisonMeta.holds, hf]; rfl⟩⟩
    rw [hf] at h
    cases h
  | some fv =>
    have hsafe := compareValue_isSome_iff fv m.value m.comparison
    cases hc : compareValue fv m.value m.comparison with
    | none =>
      rw [hc] at hsafe
      exact .inl ⟨fv, rfl, hc, fun h => by cases hsafe.mpr (h fv hf)⟩
    | some r =>
      rw [hc] at hsafe
      refine .inr ⟨fun fv' h => ?_, .inr ⟨fv, rfl, hc.trans ?_⟩⟩
      · obtain rfl := Option.some.inj (hf.symm.trans h)
        exact hsafe.mp rfl
      · rw [ComparisonMeta.holds, hf]
        simp [hc]

theorem evaluateAnds_eq (fields : Fields) (ands : List ComparisonMeta) :
    ((∀ m ∈ reachedAnds fields ands, m.Safe fields) ∧
        evaluateAnds fields ands = some (ands.all (ComparisonMeta.holds fields))) ∨
      (¬ ∀ m ∈ reachedAnds fields ands, m.Safe fields) ∧ evaluateAnds fields ands = none := by
  induction ands with
  | nil => exact .inl ⟨by simp [reachedAnds], rfl⟩
  | cons a ands ih =>
    rw [evaluateAnds, reachedAnds, List.forall_mem_cons]
    rcases meta_cases fields a with ⟨fv, hf, hc, hno⟩ | ⟨hsafe, ⟨hf, hh⟩ | ⟨fv, hf, hc⟩⟩
    · rw [hf]
      dsimp only
      rw [hc]
      exact .inr ⟨fun h => hno h.1, rfl⟩
    · rw [hf]
      exact .inl ⟨⟨hsafe, by simp [hh]⟩, by simp [hh]⟩
    · rw [hf]
      dsimp only
      rw [hc]
      cases hh : a.holds fields with
      | false => exact .inl ⟨⟨hsafe, by simp⟩, by simp [hh]⟩
      | true =>
        dsimp only
        rw [if_pos rfl, and_iff_right hsafe, List.all_cons, hh, Bool.true_and]
        exact ih

theorem evaluateOrs_eq (fields : Fields) (ors : List ComparisonMeta) :
    ((∀ m ∈ reachedOrs fields ors, m.Safe fields) ∧
        evaluateOrs fields ors = some (ors.any (ComparisonMeta.holds fields))) ∨
      (¬ ∀ m ∈ reachedOrs fields ors, m.Safe fields) ∧ evaluateOrs fields ors = none := by
  induction ors with
  | nil => exact .inl ⟨by simp [reachedOrs], rfl⟩
  | cons o ors ih =>
    rw [evaluateOrs, reachedOrs, List.forall_mem_cons]
    rcases meta_cases fields o with ⟨fv, hf, hc, hno⟩ | ⟨hsafe, ⟨hf, hh⟩ | ⟨fv, hf, hc⟩⟩
    · rw [hf]
      dsimp only
      rw [hc]
      exact .inr ⟨fun h => hno h.1, rfl⟩
    · rw [hf, hh, if_neg Bool.false_ne_true, and_iff_right hsafe, List.any_cons, hh, Bool.false_or]
      exact ih
    · rw [hf]
      dsimp only
      rw [hc]
      cases hh : o.holds fields with
      | true => exact .inl ⟨⟨hsafe, by simp⟩, by simp [hh]⟩
      | false =>
        dsimp only
        rw [if_neg Bool.false_ne_true, and_iff_right hsafe, List.any_cons, hh, Bool.false_or]
        exact ih

theorem passOrs_eq (fields : Fields) (ors : Option (List ComparisonMeta)) (r : Bool) :
    ((∀ m ∈ reachedOrs fields (ors.getD []), m.Safe fields) ∧
        ∃ r', passOrs fields ors r = some r' ∧ r'.isSome = orsHold fields ors) ∨
      (¬ ∀ m ∈ reachedOrs fields (ors.getD []), m.Safe fields) ∧ passOrs fields ors r = none := by
  cases ors with
  | none => exact .inl ⟨by simp [reachedOrs], some r, rfl, rfl⟩
  | some ors =>
    rw [passOrs, orsHold, Option.all_some]
    rcases evaluateOrs_eq fields ors with ⟨hsafe, he⟩ | ⟨hno, he⟩
    · refine .inl ⟨hsafe, _, by rw [he]; rfl, ?_⟩
      cases ors.any (ComparisonMeta.holds fields) <;> rfl
    · exact .inr ⟨hno, by rw [he]; rfl⟩

/-- The lists of an object panic with a reached comparison, or let an element pass where they
hold. -/
theorem evaluateOwn_eq (fields : Fields) (ands ors : Option (List ComparisonMeta)) :
    ((∀ m ∈ reachedOwn fields ands ors, m.Safe fields) ∧ ∃ r,
        evaluateOwn fields ands ors = some r ∧
        r.isSome = (andsHold fields ands && orsHold fields ors)) ∨
      (¬ ∀ m ∈ reachedOwn fields ands ors, m.Safe fields) ∧
        evaluateOwn fields ands ors = none := by
  simp only [reachedOwn, List.forall_mem_append]
  cases ands with
  | none =>
    rw [evaluateOwn, andsHold, Option.all_none, if_pos rfl, Option.getD_none, reachedAnds,
      Bool.true_and, and_iff_right (List.forall_mem_nil _)]
    exact passOrs_eq fields ors false
  | some ands =>
    rw [evaluateOwn, andsHold, Option.all_some, Option.getD_some]
    rcases evaluateAnds_eq fields ands with ⟨hsafe, he⟩ | ⟨hno, he⟩
    · rw [and_iff_right hsafe, he]
      cases ands.all (ComparisonMeta.holds fields) with
      | false => exact .inl ⟨by simp, none, rfl, rfl⟩
      | true =>
        rw [if_pos rfl, Bool.true_and]
        exact passOrs_eq fields ors true
    · rw [he]
      exact .inr ⟨fun h => hno h.1, rfl⟩

/-- An evaluation returns exactly where no comparison it reaches panics. -/
theorem evaluate_isSome_iff (c : ComparisonObject) (fields : Fields) :
    (c.evaluate (some fields)).isSome = true ↔ ∀ m ∈ c.reached fields, m.Safe fields := by
  induction c with
  | last ands ors =>
    rw [ComparisonObject.evaluate, ComparisonObject.reached]
    rcases evaluateOwn_eq fields ands ors with ⟨hsafe, r, he, -⟩ | ⟨hno, he⟩
    · rw [he]
      exact iff_of_true rfl hsafe
    · rw [he]
      exact iff_of_false (fun h => by cases h) hno
  | nested ands ors nestedComparison ih =>
    rw [ComparisonObject.evaluate, ComparisonObject.reached]
    simp only [List.forall_mem_append]
    rcases evaluateOwn_eq fields ands ors with ⟨hsafe, r, he, hr⟩ | ⟨hno, he⟩
    · rw [he, and_iff_right hsafe, ← hr]
      cases r with
      | none => exact iff_of_true rfl (by simp)
      | some r => exact ih
    · rw [he]
      exact iff_of_false (fun h => by cases h) fun h => hno h.1

/-- An object with one and-comparison, of the only field of the element. -/
def evaluateField (value : Scalar) (cmp : CompareType) (right : Operand) : Option Bool :=
  (ComparisonObject.last (some [⟨cmp, "Age", right⟩]) none).evaluate
    (some fun field => if field = "Age" then some value else none)

/-- An unsigned field, an unsigned right value for a signed field, and nil for a string. -/
theorem evaluateField_panics :
    evaluateField (.uint 7) .equals (.scalar (.uint 7)) = none ∧
      evaluateField (.int 7) .inArray (.uints [7]) = none ∧
      evaluateField (.string []) .equals .nil = none := ⟨rfl, rfl, rfl⟩

end Comparison
end Gocom
