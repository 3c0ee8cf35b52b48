import Gocom.PropertyTagReading
import Mathlib.Data.List.Nodup
import Mathlib.Data.List.Perm.Subperm

/-!
# Round trips of property tags

A written backslash and an open quote hide what stands behind them from the reader. Where nothing is
hidden, the tag is read as it was written. Where something is, its bytes are left in a part, or an
entry is missing: the right entries are too few letters for that.
-/

namespace Gocom
namespace PropertyTags

/-- A map of non-empty strings, in the order it is written. -/
structure TagAttributes where
  entries : List (Bytes × Bytes)
  nodup : (entries.map Prod.fst).Nodup
  nonempty : ∀ a ∈ entries, a.1 ≠ [] ∧ a.2 ≠ []

def TagAttributes.toMap (attributes : TagAttributes) : GoMap Bytes Bytes :=
  fun k => attributes.entries.lookup k

def Token.isPlain : Token → Bool
  | .letter c => !isSpecial c
  | _ => false

/-- Behind a backslash of a part stands a letter that needs none, or nothing; behind a quote whose own
backslash is an even one of those that are written stands nothing but such letters. -/
def Clean : ℕ → List Token → Prop
  | _, [] => True
  | backslashCount, .letter c :: ts =>
    if c = backslash then (∀ t ∈ ts.head?, t.isPlain = true) ∧ Clean (backslashCount + 2) ts
    else if isSpecial c then
      (isQuote c = true → (backslashCount + 1) % 2 = 0 → ∀ t ∈ ts, t.isPlain = true) ∧
        Clean (backslashCount + 1) ts
    else Clean backslashCount ts
  | backslashCount, _ :: ts => Clean backslashCount ts

instance decidableClean : (backslashCount : ℕ) → (ts : List Token) →
    Decidable (Clean backslashCount ts)
  | _, [] => inferInstanceAs (Decidable True)
  | backslashCount, .letter c :: ts =>
    have := decidableClean backslashCount ts
    have := decidableClean (backslashCount + 1) ts
    have := decidableClean (backslashCount + 2) ts
    inferInstanceAs (Decidable (if c = backslash then
        (∀ t ∈ ts.head?, t.isPlain = true) ∧ Clean (backslashCount + 2) ts
      else if isSpecial c then
        (isQuote c = true → (backslashCount + 1) % 2 = 0 → ∀ t ∈ ts, t.isPlain = true) ∧
          Clean (backslashCount + 1) ts
      else Clean backslashCount ts))
  | backslashCount, .separator :: ts => decidableClean backslashCount ts
  | backslashCount, .assignment :: ts => decidableClean backslashCount ts

/-! ## Nothing is hidden -/

/-- The entries where every letter is read as it is and every sign as a sign. -/
def entriesFrom (attrName kept : Bytes) : List Token → List (Bytes × Bytes)
  | [] => if kept = [] then [] else [(attrName, kept)]
  | .letter c :: ts => entriesFrom attrName (kept ++ [c]) ts
  | .separator :: ts => (attrName, kept) :: entriesFrom [] [] ts
  | .assignment :: ts => entriesFrom kept [] ts

variable {ts : List Token} {attrName kept : Bytes}

theorem ne_backslash {c : UInt8} (hc : isSpecial c = false) : c ≠ backslash := by
  rintro rfl
  exact absurd hc (by decide)

theorem exists_word_of_plain (h : ∀ t ∈ ts, t.isPlain = true) :
    ∃ w : Bytes, ts = w.map Token.letter ∧ ∀ c ∈ w, isSpecial c = false := by
  induction ts with
  | nil => exact ⟨[], rfl, fun _ hc => absurd hc List.not_mem_nil⟩
  | cons t ts ih =>
    obtain ⟨ht, hts⟩ := List.forall_mem_cons.mp h
    obtain ⟨w, rfl, hw⟩ := ih hts
    cases t with
    | letter c =>
      refine ⟨c :: w, rfl, List.forall_mem_cons.mpr ⟨?_, hw⟩⟩
      simpa [Token.isPlain] using ht
    | separator => exact absurd ht Bool.false_ne_true
    | assignment => exact absurd ht Bool.false_ne_true

theorem clean_of_plain (h : ∀ t ∈ ts, t.isPlain = true) (backslashCount : ℕ) :
    Clean backslashCount ts := by
  obtain ⟨w, rfl, hw⟩ := exists_word_of_plain h
  clear h
  induction w with
  | nil => trivial
  | cons c w ih =>
    obtain ⟨hc, hw⟩ := List.forall_mem_cons.mp hw
    rw [List.map_cons, Clean, if_neg (ne_backslash hc), hc, if_neg Bool.false_ne_true]
    exact ih hw

theorem endQuote_of_plain (h : ∀ t ∈ ts, t.isPlain = true) (q : UInt8) (backslashCount : ℕ) :
    endQuote q backslashCount ts = none := by
  obtain ⟨w, rfl, hw⟩ := exists_word_of_plain h
  clear h
  induction w with
  | nil => rfl
  | cons c w ih =>
    obtain ⟨hc, hw⟩ := List.forall_mem_cons.mp hw
    rw [List.map_cons, endQuote, if_neg (ne_backslash hc), hc, if_neg Bool.false_ne_true, ih hw,
      Option.map_none]

theorem entriesFrom_letters (w : Bytes) (ts : List Token) :
    entriesFrom attrName kept (w.map Token.letter ++ ts) = entriesFrom attrName (kept ++ w) ts := by
  induction w generalizing kept with
  | nil => rw [List.map_nil, List.nil_append, List.append_nil]
  | cons c w ih =>
    rw [List.map_cons, List.cons_append, entriesFrom, ih, List.append_assoc, List.singleton_append]

theorem entriesFrom_of_plain (h : ∀ t ∈ ts, t.isPlain = true) :
    entriesFrom attrName kept ts = entriesFrom attrName (kept ++ written ts) [] := by
  obtain ⟨w, rfl, hw⟩ := exists_word_of_plain h
  have hread := @entriesFrom_letters attrName kept w []
  rw [List.append_nil] at hread
  rw [hread, written_letters, EscapedTexts.escape_eq_self hw]

theorem run_of_clean (p : PartRun) (hclean : Clean p.backslashCount ts)
    (hhead : p.escaped = true → ∀ t ∈ ts.head?, t.isPlain = true) :
    run 0 p ts = entriesFrom p.attrName p.kept ts := by
  induction ts generalizing p with
  | nil => rfl
  | cons t ts ih =>
    cases t with
    | separator =>
      have hescaped : p.escaped = false := by simpa [Token.isPlain] using hhead
      rw [run, hescaped, if_neg Bool.false_ne_true, entriesFrom]
      exact congrArg _ (ih _ hclean (absurd · Bool.false_ne_true))
    | assignment =>
      have hescaped : p.escaped = false := by simpa [Token.isPlain] using hhead
      rw [run, hescaped, if_neg Bool.false_ne_true, entriesFrom]
      exact ih _ hclean (absurd · Bool.false_ne_true)
    | letter c =>
      rw [Clean] at hclean
      rw [entriesFrom]
      cases hc : isSpecial c with
      | false =>
        rw [if_neg (ne_backslash hc), hc, if_neg Bool.false_ne_true] at hclean
        rw [run_plain hc]
        exact ih _ hclean (absurd · Bool.false_ne_true)
      | true =>
        have hescaped : p.escaped = false := by simpa [Token.isPlain, hc] using hhead
        have hkept : p.backslashed.kept = p.kept := by simp [PartRun.backslashed, hescaped]
        rw [← hkept]
        by_cases hb : c = backslash
        · subst hb
          rw [if_pos rfl] at hclean
          exact ih _ hclean.2 fun _ => hclean.1
        rw [if_neg hb, hc, if_pos rfl] at hclean
        by_cases hquote : isQuote c = true ∧ (p.backslashCount + 1) % 2 = 0
        · -- the break leaves the letters behind the quote in the part
          have hplain := hclean.1 hquote.1 hquote.2
          rw [run_quote_open hc hb hquote (endQuote_of_plain hplain c 0), entriesFrom_of_plain hplain,
            List.append_assoc]
          rfl
        · rw [run_escaped hc hb hquote]
          exact ih _ hclean.2 (absurd · Bool.false_ne_true)

theorem entriesFrom_attributes (entries : List (Bytes × Bytes)) (hne : ∀ a ∈ entries, a.2 ≠ [])
    (hkept : entries ≠ [] ∨ kept ≠ []) :
    entriesFrom attrName kept (entries.flatMap fun a =>
      Token.separator :: a.1.map Token.letter ++ Token.assignment :: a.2.map Token.letter) =
        (attrName, kept) :: entries := by
  induction entries generalizing attrName kept with
  | nil =>
    rw [List.flatMap_nil, entriesFrom, if_neg (hkept.resolve_left (absurd rfl))]
  | cons a entries ih =>
    obtain ⟨ha, hne⟩ := List.forall_mem_cons.mp hne
    rw [List.flatMap_cons, List.cons_append, List.cons_append, entriesFrom, List.append_assoc,
      entriesFrom_letters, List.cons_append, entriesFrom, entriesFrom_letters, List.nil_append,
      List.nil_append, ih hne (.inr ha)]

theorem entriesFrom_tagTokens (name : Bytes) (attributes : TagAttributes)
    (h : attributes.entries ≠ [] ∨ name ≠ []) :
    entriesFrom [] [] (tagTokens name attributes.entries) = ([], name) :: attributes.entries := by
  rw [tagTokens, entriesFrom_letters, List.nil_append]
  exact entriesFrom_attributes _ (fun a ha => (attributes.nonempty a ha).2) h

theorem foldl_putEntry (name : Bytes) (m : GoMap Bytes Bytes) (entries : List (Bytes × Bytes))
    (hnodup : (entries.map Prod.fst).Nodup) (hne : ∀ a ∈ entries, a.1 ≠ []) :
    entries.foldl putEntry (name, m) = (name, fun k => (entries.lookup k).or (m k)) := by
  induction entries generalizing m with
  | nil => rfl
  | cons a entries ih =>
    obtain ⟨k, v⟩ := a
    obtain ⟨hk, hne⟩ := List.forall_mem_cons.mp hne
    rw [List.map_cons, List.nodup_cons] at hnodup
    rw [List.foldl_cons, putEntry, if_neg (fun h => hk h.1), ih _ hnodup.2 hne]
    congr 1
    funext x
    rw [List.lookup_cons, GoMap.store_apply]
    by_cases hx : x = k
    · subst hx
      have hnone : entries.lookup x = none := by
        refine List.lookup_eq_none_iff.mpr fun a ha => bne_iff_ne.mpr fun hxa => hnodup.1 ?_
        exact List.mem_map.mpr ⟨a, ha, hxa.symm⟩
      simp [hnone]
    · rw [beq_false_of_ne hx, if_neg hx]

/-- A tag in which nothing is hidden is read as it was written. -/
theorem parse_of_clean (name : Bytes) (attributes : TagAttributes)
    (hclean : Clean 0 (tagTokens name attributes.entries)) :
    parsePropertyTagValue (writeTag name attributes.entries) = (name, attributes.toMap) := by
  have hrun : run 0 {} (tagTokens name attributes.entries) =
      entriesFrom [] [] (tagTokens name attributes.entries) :=
    run_of_clean {} hclean (absurd · Bool.false_ne_true)
  rw [parsePropertyTagValue_writeTag, hrun]
  by_cases hempty : attributes.entries = [] ∧ name = []
  · have hmap : attributes.toMap = GoMap.empty := by
      funext k
      rw [TagAttributes.toMap, hempty.1]
      rfl
    rw [hempty.1, hempty.2, hmap]
    rfl
  rw [entriesFrom_tagTokens _ _ (by tauto), List.foldl_cons, putEntry, if_pos ⟨rfl, rfl⟩,
    foldl_putEntry _ _ _ attributes.nodup fun a ha => (attributes.nonempty a ha).1]
  simp only [GoMap.empty_apply, Option.or_none]
  rfl

/-! ## Something is hidden -/

/-- An attribute that is read comes from an entry. -/
theorem mem_of_foldl_putEntry {entries : List (Bytes × Bytes)} {tag : Bytes × GoMap Bytes Bytes}
    {k v : Bytes} (h : (entries.foldl putEntry tag).2 k = some v) :
    tag.2 k = some v ∨ (k, v) ∈ entries := by
  induction entries generalizing tag with
  | nil => exact .inl h
  | cons e entries ih =>
    rcases ih h with hput | hmem
    · rw [putEntry] at hput
      split_ifs at hput with hname
      · exact .inl hput
      · rcases GoMap.of_store_eq_some hput with ⟨rfl, rfl⟩ | ⟨-, hold⟩
        · exact .inr (List.mem_cons_self ..)
        · exact .inl hold
    · exact .inr (List.mem_cons_of_mem _ hmem)

/-- And so does the name. -/
theorem name_mem_of_foldl_putEntry {entries : List (Bytes × Bytes)}
    {tag : Bytes × GoMap Bytes Bytes} :
    (entries.foldl putEntry tag).1 = tag.1 ∨ ([], (entries.foldl putEntry tag).1) ∈ entries := by
  induction entries generalizing tag with
  | nil => exact .inl rfl
  | cons e entries ih =>
    rw [List.foldl_cons]
    rcases @ih (putEntry tag e) with hput | hmem
    · rw [hput, putEntry]
      split_ifs with hname
      · right
        rw [← hname.1]
        exact List.mem_cons_self ..
      · exact .inl rfl
    · exact .inr (List.mem_cons_of_mem _ hmem)

@[simp] def Token.isLetter : Token → Bool
  | .letter _ => true
  | _ => false

@[simp] def Token.isSeparator : Token → Bool
  | .separator => true
  | _ => false

/-- A letter with a backslash before it. -/
@[simp] def Token.isBackslashed : Token → Bool
  | .letter c => isSpecial c
  | _ => false

/-- A part has a name before it or not; where it has none there is at most one colon. -/
def SingleColons : Bool → List Token → Prop
  | _, [] => True
  | unnamed, .letter _ :: ts => SingleColons unnamed ts
  | _, .separator :: ts => SingleColons true ts
  | unnamed, .assignment :: ts => unnamed = true ∧ SingleColons false ts

def weight : List (Bytes × Bytes) → ℕ
  | [] => 0
  | e :: entries => e.1.length + e.2.length + weight entries

theorem finish_length_le (p : PartRun) : p.finish.length ≤ 1 := by
  rw [PartRun.finish]
  split_ifs <;> simp

/-- Every entry but the last one ends with a separator. -/
theorem run_length_le (ts : List Token) (skip : ℕ) (p : PartRun) :
    (run skip p ts).length ≤ ts.countP Token.isSeparator + 1 := by
  induction ts generalizing skip p with
  | nil =>
    rw [run]
    exact finish_length_le p
  | cons t ts ih =>
    have hle : ts.countP Token.isSeparator + 1 ≤ (t :: ts).countP Token.isSeparator + 1 :=
      Nat.succ_le_succ (List.sublist_cons_self t ts).countP_le
    cases skip with
    | succ skip => exact (ih _ _).trans hle
    | zero =>
      cases t with
      | separator =>
        rw [run]
        split_ifs
        · exact (ih _ _).trans hle
        · simpa [List.countP_cons] using ih 0 _
      | assignment =>
        rw [run]
        split_ifs
        · exact (ih _ _).trans hle
        · exact (ih _ _).trans hle
      | letter c =>
        cases hc : isSpecial c with
        | false =>
          rw [run_plain hc]
          exact (ih _ _).trans hle
        | true =>
          by_cases hb : c = backslash
          · subst hb
            exact (ih _ _).trans hle
          by_cases hquote : isQuote c = true ∧ (p.backslashCount + 1) % 2 = 0
          · cases hend : endQuote c 0 ts with
            | none =>
              rw [run_quote_open hc hb hquote hend]
              exact (finish_length_le _).trans (Nat.le_add_left ..)
            | some n =>
              rw [run_quote hc hb hquote hend]
              exact (ih _ _).trans hle
          · rw [run_escaped hc hb hquote]
            exact (ih _ _).trans hle

/-- A quoted section ends with a letter that has a backslash before it. -/
theorem backslashedCount_of_endQuote {q : UInt8} {backslashCount n : ℕ}
    (h : endQuote q backslashCount ts = some n) : 0 < (ts.take n).countP Token.isBackslashed := by
  induction ts generalizing backslashCount n with
  | nil => nomatch h
  | cons t ts ih =>
    have hlater : ∀ {count}, (endQuote q count ts).map (· + 1) = some n →
        0 < ((t :: ts).take n).countP Token.isBackslashed := by
      intro count hmap
      obtain ⟨m, hm, rfl⟩ := Option.map_eq_some_iff.mp hmap
      rw [List.take_succ_cons]
      exact (ih hm).trans_le (List.sublist_cons_self t _).countP_le
    cases t with
    | separator => exact hlater h
    | assignment => exact hlater h
    | letter c =>
      rw [endQuote] at h
      split_ifs at h with hb hc hend
      · exact hlater h
      · obtain rfl : 1 = n := Option.some.inj h
        simp [hc]
      · exact hlater h
      · exact hlater h

/-- A letter is a byte, and another one with its backslash. -/
theorem le_written_length (ts : List Token) :
    ts.countP Token.isLetter + ts.countP Token.isBackslashed + ts.countP Token.isSeparator ≤
      (written ts).length := by
  induction ts with
  | nil => exact Nat.le_refl 0
  | cons t ts ih =>
    rw [written_cons, List.length_append]
    cases t with
    | separator =>
      simp [Token.bytes, List.countP_cons]
      omega
    | assignment =>
      simp [Token.bytes]
      omega
    | letter c =>
      cases hc : isSpecial c
      · simp [Token.bytes, List.countP_cons, hc]
        omega
      · simp [Token.bytes, List.countP_cons, hc]
        omega

/-- Only letters without backslashes are as many as their bytes. -/
theorem isPlain_of_written_length (h : (written ts).length ≤ ts.countP Token.isLetter) :
    ∀ t ∈ ts, t.isPlain = true := by
  induction ts with
  | nil => nofun
  | cons t ts ih =>
    have hle := le_written_length ts
    rw [written_cons, List.length_append] at h
    cases t with
    | separator =>
      simp [Token.bytes] at h
      omega
    | assignment =>
      simp [Token.bytes] at h
      omega
    | letter c =>
      cases hc : isSpecial c with
      | true =>
        simp [Token.bytes, List.countP_cons, hc] at h
        omega
      | false =>
        simp [Token.bytes, List.countP_cons, hc] at h
        exact List.forall_mem_cons.mpr ⟨by simp [Token.isPlain, hc], ih (by omega)⟩

theorem weight_perm {entries entries' : List (Bytes × Bytes)} (h : entries.Perm entries') :
    weight entries = weight entries' := by
  induction h with
  | nil => rfl
  | cons e _ ih => rw [weight, weight, ih]
  | swap e e' entries => simp only [weight, Nat.add_left_comm]
  | trans _ _ ih ih' => exact ih.trans ih'

/-- How many bytes the part has collected. -/
def PartRun.size (p : PartRun) : ℕ := p.attrName.length + p.kept.length

theorem PartRun.size_keep (p : PartRun) (w : Bytes) : (p.keep w).size = p.size + w.length := by
  rw [size, keep, List.length_append, ← Nat.add_assoc]
  rfl

theorem PartRun.size_backslashed (p : PartRun) :
    p.backslashed.size = p.size + p.escaped.toNat := by
  rw [size, backslashed, List.length_append, ← Nat.add_assoc]
  cases p.escaped <;> rfl

theorem weight_finish (p : PartRun) (h : p.finish.length = 1) : weight p.finish = p.size := by
  rw [PartRun.finish] at h ⊢
  split_ifs at h ⊢ with hkept
  rfl

/-- The letters that are collected and to come are in the entries, with the bytes of a quoted section
that are more. If nothing else is there, nothing is hidden. -/
structure Weighs (ts : List Token) (skip : ℕ) (p : PartRun) : Prop where
  le_weight : p.size + ts.countP Token.isLetter + (ts.take skip).countP Token.isBackslashed ≤
    weight (run skip p ts)
  clean : skip = 0 → weight (run skip p ts) ≤ p.size + ts.countP Token.isLetter →
    Clean p.backslashCount ts ∧ (p.escaped = true → ∀ t ∈ ts.head?, t.isPlain = true)

namespace Weighs
variable {p : PartRun} {t : Token} {c : UInt8} {n : ℕ}

theorem nil (skip : ℕ) (h : p.finish.length = 1) : Weighs [] skip p where
  le_weight := by
    rw [run, weight_finish p h, List.take_nil]
    exact Nat.le_refl _
  clean _ _ := ⟨trivial, fun _ _ ht => absurd ht (Option.not_mem_none _)⟩

theorem skip (h : Weighs ts n (p.keep t.bytes)) : Weighs (t :: ts) (n + 1) p where
  le_weight := by
    have hle := h.le_weight
    have hbytes := le_written_length [t]
    rw [PartRun.size_keep] at hle
    simp only [written_cons, written_nil, List.append_nil, List.countP_cons, List.countP_nil,
      List.take_succ_cons, run] at hbytes ⊢
    omega
  clean h := absurd h (Nat.succ_ne_zero n)

/-- After a letter or a sign, where `ended` bytes go to an entry and `hidden` bytes are more than the
letters. -/
theorem of_next {p' : PartRun} {ended hidden : ℕ} (h : Weighs ts n p')
    (hrun : weight (run 0 p (t :: ts)) = ended + weight (run n p' ts))
    (hsize : ended + p'.size + ts.countP Token.isLetter =
      p.size + (t :: ts).countP Token.isLetter + hidden)
    (hclean : hidden = 0 → (ts.take n).countP Token.isBackslashed = 0 →
      (n = 0 → Clean p'.backslashCount ts ∧
        (p'.escaped = true → ∀ t ∈ ts.head?, t.isPlain = true)) →
      Clean p.backslashCount (t :: ts) ∧ (p.escaped = true → t.isPlain = true)) :
    Weighs (t :: ts) 0 p := by
  have hle := h.le_weight
  refine ⟨?_, fun _ hweight => ?_⟩
  · rw [hrun, List.take_zero, List.countP_nil]
    omega
  · rw [hrun] at hweight
    obtain ⟨hrest, hplain⟩ := hclean (by omega) (by omega) fun hn => h.clean hn (by omega)
    exact ⟨hrest, fun hescaped => by simpa using hplain hescaped⟩

theorem separator (hescaped : p.escaped = false)
    (h : Weighs ts 0 { p with escaped := false, attrName := [], kept := [] }) :
    Weighs (.separator :: ts) 0 p := by
  refine @of_next ts p .separator 0 _ p.size 0 h ?_ ?_ fun _ _ hrest => ⟨(hrest rfl).1, ?_⟩
  · rw [run, hescaped, if_neg Bool.false_ne_true]
    rfl
  · simp [PartRun.size]
  · simp [hescaped]

/-- A colon behind a backslash stays in the part. -/
theorem assignment_kept (hescaped : p.escaped = true)
    (h : Weighs ts 0 { p.keep [colon] with escaped := false }) : Weighs (.assignment :: ts) 0 p := by
  refine @of_next ts p .assignment 0 _ 0 1 h ?_ ?_ fun hnone => absurd hnone Nat.one_ne_zero
  · rw [run, if_pos hescaped, Nat.zero_add]
  · have hsize : ({ p.keep [colon] with escaped := false } : PartRun).size = p.size + 1 :=
      p.size_keep [colon]
    rw [hsize]
    simp
    omega

theorem assignment (hescaped : p.escaped = false) (hname : p.attrName = [])
    (h : Weighs ts 0 { p with escaped := false, attrName := p.kept, kept := [] }) :
    Weighs (.assignment :: ts) 0 p := by
  refine @of_next ts p .assignment 0 _ 0 0 h ?_ ?_ fun _ _ hrest => ⟨(hrest rfl).1, ?_⟩
  · rw [run, hescaped, if_neg Bool.false_ne_true, Nat.zero_add]
  · simp [PartRun.size, hname]
  · simp [hescaped]

theorem countP_letter (c : UInt8) (ts : List Token) :
    (Token.letter c :: ts).countP Token.isLetter = ts.countP Token.isLetter + 1 := by
  simp [List.countP_cons]

theorem plain (hc : isSpecial c = false) (h : Weighs ts 0 { p.keep [c] with escaped := false }) :
    Weighs (.letter c :: ts) 0 p := by
  refine @of_next ts p (.letter c) 0 _ 0 0 h ?_ ?_ fun _ _ hrest => ⟨?_, fun _ => ?_⟩
  · rw [run_plain hc, Nat.zero_add]
  · have hsize : ({ p.keep [c] with escaped := false } : PartRun).size = p.size + 1 :=
      p.size_keep [c]
    rw [hsize, countP_letter]
    omega
  · rw [Clean, if_neg (ne_backslash hc), hc, if_neg Bool.false_ne_true]
    exact (hrest rfl).1
  · rw [Token.isPlain, hc]
    rfl

theorem size_backslashed_keep (p : PartRun) (c : UInt8) :
    (p.backslashed.keep [c]).size = p.size + 1 + p.escaped.toNat := by
  rw [PartRun.size_keep, PartRun.size_backslashed, Nat.add_right_comm]
  rfl

theorem unescaped (h : p.escaped.toNat = 0) : p.escaped = true → t.isPlain = true := by
  intro hescaped
  rw [hescaped] at h
  exact absurd h Nat.one_ne_zero

theorem pair (h : Weighs ts 0
      { p.backslashed.keep [backslash] with backslashCount := p.backslashCount + 2 }) :
    Weighs (.letter backslash :: ts) 0 p := by
  refine @of_next ts p _ 0 _ 0 p.escaped.toNat h ?_ ?_ fun hnone _ hrest => ⟨?_, unescaped hnone⟩
  · rw [run_backslash, Nat.zero_add]
  · have hsize := size_backslashed_keep p backslash
    rw [PartRun.size] at hsize ⊢
    dsimp only
    rw [hsize, countP_letter]
    omega
  · rw [Clean, if_pos rfl]
    exact ⟨(hrest rfl).2 rfl, (hrest rfl).1⟩

theorem escaped (hc : isSpecial c = true) (hb : c ≠ backslash)
    (hquote : ¬ (isQuote c = true ∧ (p.backslashCount + 1) % 2 = 0))
    (h : Weighs ts 0 { p.backslashed.keep [c] with escaped := false }) :
    Weighs (.letter c :: ts) 0 p := by
  refine @of_next ts p _ 0 _ 0 p.escaped.toNat h ?_ ?_ fun hnone _ hrest => ⟨?_, unescaped hnone⟩
  · rw [run_escaped hc hb hquote, Nat.zero_add]
  · have hsize := size_backslashed_keep p c
    rw [PartRun.size] at hsize ⊢
    dsimp only
    rw [hsize, countP_letter]
    omega
  · rw [Clean, if_neg hb, if_pos hc]
    exact ⟨fun hq heven => absurd ⟨hq, heven⟩ hquote, (hrest rfl).1⟩

theorem quote (hc : isSpecial c = true) (hb : c ≠ backslash)
    (hquote : isQuote c = true ∧ (p.backslashCount + 1) % 2 = 0)
    (hend : endQuote c 0 ts = some n) (h : Weighs ts n (p.backslashed.keep [c])) :
    Weighs (.letter c :: ts) 0 p := by
  refine @of_next ts p _ n _ 0 p.escaped.toNat h ?_ ?_ fun _ hnone => ?_
  · rw [run_quote hc hb hquote hend, Nat.zero_add]
  · rw [size_backslashed_keep, countP_letter]
    omega
  · exact absurd hnone (backslashedCount_of_endQuote hend).ne'

/-- Without the end of the section everything up to the end of the text is in the part. -/
theorem quote_open (hc : isSpecial c = true) (hb : c ≠ backslash)
    (hquote : isQuote c = true ∧ (p.backslashCount + 1) % 2 = 0) (hend : endQuote c 0 ts = none)
    (h : (p.backslashed.keep (c :: written ts)).finish.length = 1) :
    Weighs (.letter c :: ts) 0 p := by
  have hbytes := le_written_length ts
  have hweight := weight_finish _ h
  rw [← run_quote_open hc hb hquote hend, PartRun.size_keep, PartRun.size_backslashed,
    List.length_cons] at hweight
  refine ⟨?_, fun _ hle => ?_⟩
  · rw [hweight, countP_letter, List.take_zero, List.countP_nil]
    omega
  · rw [hweight, countP_letter] at hle
    have hplain := isPlain_of_written_length (by omega : (written ts).length ≤ _)
    rw [Clean, if_neg hb, if_pos hc]
    refine ⟨⟨fun _ _ => hplain, clean_of_plain hplain _⟩, fun hescaped => ?_⟩
    simpa using @unescaped p (.letter c) (by omega) hescaped

end Weighs

/-- Where every separator ends an entry, no letter is lost. -/
theorem weighs_run (unnamed : Bool) (skip : ℕ) (p : PartRun)
    (hlen : (run skip p ts).length = ts.countP Token.isSeparator + 1)
    (hcolons : SingleColons unnamed ts) (hname : unnamed = true → p.attrName = []) :
    Weighs ts skip p := by
  induction ts generalizing unnamed skip p with
  | nil => exact .nil skip hlen
  | cons t ts ih =>
    have hseparator : ∀ n q, (run n q ts).length ≠ (Token.separator :: ts).countP Token.isSeparator + 1 := by
      intro n q
      have hle := run_length_le ts n q
      rw [List.countP_cons_of_pos rfl]
      omega
    cases t with
    | separator =>
      cases skip with
      | succ n => exact absurd hlen (hseparator _ _)
      | zero =>
        rw [run] at hlen
        split_ifs at hlen with hescaped
        · exact absurd hlen (hseparator _ _)
        · refine .separator (Bool.eq_false_iff.mpr hescaped) (ih true 0 _ ?_ hcolons fun _ => rfl)
          rw [List.countP_cons_of_pos rfl, List.length_cons] at hlen
          exact Nat.succ.inj hlen
    | assignment =>
      rw [List.countP_cons_of_neg Bool.false_ne_true] at hlen
      cases skip with
      | succ n => exact .skip (ih false n _ hlen hcolons.2 (absurd · Bool.false_ne_true))
      | zero =>
        rw [run] at hlen
        split_ifs at hlen with hescaped
        · exact .assignment_kept hescaped (ih false 0 _ hlen hcolons.2 (absurd · Bool.false_ne_true))
        · exact .assignment (Bool.eq_false_iff.mpr hescaped) (hname hcolons.1)
            (ih false 0 _ hlen hcolons.2 (absurd · Bool.false_ne_true))
    | letter c =>
      rw [List.countP_cons_of_neg Bool.false_ne_true] at hlen
      cases skip with
      | succ n => exact .skip (ih unnamed n _ hlen hcolons hname)
      | zero =>
        cases hc : isSpecial c with
        | false =>
          rw [run_plain hc] at hlen
          exact .plain hc (ih unnamed 0 _ hlen hcolons hname)
        | true =>
          by_cases hb : c = backslash
          · subst hb
            exact .pair (ih unnamed 0 _ hlen hcolons hname)
          by_cases hquote : isQuote c = true ∧ (p.backslashCount + 1) % 2 = 0
          · cases hend : endQuote c 0 ts with
            | none =>
              rw [run_quote_open hc hb hquote hend] at hlen
              have hle := finish_length_le (p.backslashed.keep (c :: written ts))
              exact .quote_open hc hb hquote hend (by omega)
            | some n =>
              rw [run_quote hc hb hquote hend] at hlen
              exact .quote hc hb hquote hend (ih unnamed n _ hlen hcolons hname)
          · rw [run_escaped hc hb hquote] at hlen
            exact .escaped hc hb hquote (ih unnamed 0 _ hlen hcolons hname)

theorem singleColons_letters (unnamed : Bool) (w : Bytes) (ts : List Token) :
    SingleColons unnamed (w.map Token.letter ++ ts) = SingleColons unnamed ts := by
  induction w with
  | nil => rfl
  | cons c w ih => exact ih

theorem singleColons_tagTokens (unnamed : Bool) (name : Bytes) (entries : List (Bytes × Bytes)) :
    SingleColons unnamed (tagTokens name entries) := by
  rw [tagTokens, singleColons_letters]
  induction entries generalizing unnamed with
  | nil => trivial
  | cons a entries ih =>
    rw [List.flatMap_cons, List.cons_append, List.cons_append, SingleColons, List.append_assoc,
      singleColons_letters, List.cons_append, SingleColons, singleColons_letters]
    exact ⟨rfl, ih false⟩

theorem countP_isLetter_letters (w : Bytes) : (w.map Token.letter).countP Token.isLetter = w.length := by
  rw [List.countP_map]
  exact List.countP_eq_length.mpr fun _ _ => rfl

theorem countP_isLetter_tagTokens (name : Bytes) (entries : List (Bytes × Bytes)) :
    (tagTokens name entries).countP Token.isLetter = name.length + weight entries := by
  rw [tagTokens, List.countP_append, countP_isLetter_letters]
  congr 1
  induction entries with
  | nil => rfl
  | cons a entries ih =>
    rw [List.flatMap_cons, List.countP_append, ih, weight]
    simp only [List.cons_append, List.countP_cons, List.countP_append, countP_isLetter_letters,
      Token.isLetter, Bool.false_eq_true, if_false, Nat.add_zero]

theorem countP_isSeparator_tagTokens (name : Bytes) (entries : List (Bytes × Bytes)) :
    (tagTokens name entries).countP Token.isSeparator = entries.length := by
  have hletters (w : Bytes) : (w.map Token.letter).countP Token.isSeparator = 0 := by
    rw [List.countP_map]
    exact List.countP_eq_zero.mpr fun _ _ => Bool.false_ne_true
  rw [tagTokens, List.countP_append, hletters, Nat.zero_add]
  induction entries with
  | nil => rfl
  | cons a entries ih =>
    rw [List.flatMap_cons, List.countP_append, ih, List.length_cons]
    simp [List.countP_cons, hletters, Nat.add_comm]

theorem lookup_of_mem {entries : List (Bytes × Bytes)} (hnodup : (entries.map Prod.fst).Nodup)
    {k v : Bytes} (h : (k, v) ∈ entries) : entries.lookup k = some v := by
  induction entries with
  | nil => exact absurd h List.not_mem_nil
  | cons a entries ih =>
    rw [List.map_cons, List.nodup_cons] at hnodup
    rw [List.lookup_cons]
    rcases List.mem_cons.mp h with rfl | hmem
    · rw [beq_self_eq_true]
    · have hne : k ≠ a.1 := fun hk => hnodup.1 (List.mem_map.mpr ⟨_, hmem, hk⟩)
      rw [beq_false_of_ne hne]
      exact ih hnodup.2 hmem

/-- The entries of a tag that is read as it was written are those that were written. -/
theorem run_perm {name : Bytes} {attributes : TagAttributes}
    (h : parsePropertyTagValue (writeTag name attributes.entries) = (name, attributes.toMap))
    (hempty : attributes.entries ≠ [] ∨ name ≠ []) :
    (([], name) :: attributes.entries).Perm (run 0 {} (tagTokens name attributes.entries)) := by
  rw [parsePropertyTagValue_writeTag] at h
  have hname : ([], name) ∈ run 0 {} (tagTokens name attributes.entries) := by
    by_cases hnil : name = []
    · -- the tag begins with a separator
      obtain ⟨a, entries, hentries⟩ :=
        List.exists_cons_of_ne_nil (hempty.resolve_right (absurd hnil))
      rw [hnil, hentries]
      exact List.mem_cons_self ..
    · have hmem := @name_mem_of_foldl_putEntry (run 0 {} (tagTokens name attributes.entries))
        ([], GoMap.empty)
      rw [h] at hmem
      exact hmem.resolve_left hnil
  have hattributes : attributes.entries ⊆ run 0 {} (tagTokens name attributes.entries) := by
    rintro ⟨k, v⟩ ha
    have hmap : attributes.toMap k = some v := lookup_of_mem attributes.nodup ha
    rw [← show _ = attributes.toMap from congrArg Prod.snd h] at hmap
    exact (mem_of_foldl_putEntry hmap).resolve_left nofun
  have hnodup : (([], name) :: attributes.entries).Nodup :=
    List.nodup_cons.mpr ⟨fun hmem => (attributes.nonempty _ hmem).1 rfl, List.Nodup.of_map _ attributes.nodup⟩
  refine (List.subperm_of_subset hnodup (List.cons_subset.mpr ⟨hname, hattributes⟩)).perm_of_length_le ?_
  have hle := run_length_le (tagTokens name attributes.entries) 0 {}
  rwa [countP_isSeparator_tagTokens] at hle

theorem clean_of_parse {name : Bytes} {attributes : TagAttributes}
    (h : parsePropertyTagValue (writeTag name attributes.entries) = (name, attributes.toMap)) :
    Clean 0 (tagTokens name attributes.entries) := by
  by_cases hempty : attributes.entries = [] ∧ name = []
  · rw [hempty.1, hempty.2]
    trivial
  have hperm := run_perm h (by tauto)
  have hlen := hperm.length_eq
  have hweight := weight_perm hperm
  refine ((weighs_run true 0 {} ?_ (singleColons_tagTokens _ _ _) fun _ => rfl).clean rfl ?_).1
  · rw [countP_isSeparator_tagTokens, ← hlen, List.length_cons]
  · rw [countP_isLetter_tagTokens, ← hweight, weight]
    simp [PartRun.size]

/-! ## Round trips -/

/-- A tag is read as it was written if and only if nothing in it is hidden. -/
theorem parsePropertyTagValue_writeTag_iff (name : Bytes) (attributes : TagAttributes) :
    parsePropertyTagValue (writeTag name attributes.entries) = (name, attributes.toMap) ↔
      Clean 0 (tagTokens name attributes.entries) :=
  ⟨clean_of_parse, parse_of_clean name attributes⟩

example : Clean 0 (tagTokens (asciiBytes "it's")
    [(asciiBytes "format", asciiBytes "HH:ii:ss, \\")]) := by decide

/-- In the text `n,k:\\,m:x` the second backslash of the value hides the comma behind it. -/
theorem parsePropertyTagValue_hides_comma :
    ¬ ∀ (name : Bytes) (attributes : TagAttributes),
      parsePropertyTagValue (writeTag name attributes.entries) = (name, attributes.toMap) := by
  intro h
  have hattributes := congrArg Prod.snd (h (asciiBytes "n")
    ⟨[(asciiBytes "k", [backslash]), (asciiBytes "m", asciiBytes "x")], by decide, by decide⟩)
  have hread : (parsePropertyTagValue (writeTag (asciiBytes "n")
      [(asciiBytes "k", [backslash]), (asciiBytes "m", asciiBytes "x")])).2 (asciiBytes "m") =
      none := by
    decide
  rw [hattributes] at hread
  exact absurd hread (by decide)

end PropertyTags
end Gocom
