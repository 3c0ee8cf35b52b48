import Gocom.GoMaps
import Gocom.GoStrings
import Gocom.Numerals
import Mathlib.Data.List.GetD
import Mathlib.Data.List.Nodup

/-!
# Values with custom digits

A value is counted up over an alphabet of digits. A loop from the right steps over the digits that
have no next one, a second loop resets them. The positions of an alphabet's digits are kept in a
map that all calls share.
-/

namespace Gocom

/-! ## Positions of digits -/

/-- A digit that occurs twice keeps its last position. -/
def digistsMap (digists : Bytes) : GoMap UInt8 ℕ :=
  digists.zipIdx.foldl (fun m p => m.store p.1 p.2) .empty

/-- `_cachedDigistsMap`: for every alphabet seen before, the map that was built for it. -/
structure CachedDigists where
  maps : GoMap Bytes (GoMap UInt8 ℕ)
  built : ∀ digists m, maps digists = some m → m = digistsMap digists

namespace CachedDigists

def empty : CachedDigists where
  maps := .empty
  built _ _ h := absurd h.symm (Option.some_ne_none _)

def add (cached : CachedDigists) (digists : Bytes) : CachedDigists where
  maps := cached.maps.store digists (digistsMap digists)
  built d m h := by
    rcases GoMap.of_store_eq_some h with ⟨rfl, hm⟩ | ⟨-, hm⟩
    · exact hm.symm
    · exact cached.built d m hm

end CachedDigists

def digistPosition (m : GoMap UInt8 ℕ) (c : UInt8) : ℤ :=
  match m c with
  | some idx => idx
  | none => -1

def getDigistIndex (cached : CachedDigists) (digists : Bytes) (c : UInt8) : ℤ × CachedDigists :=
  match cached.maps digists with
  | some m => (digistPosition m c, cached)
  | none => (digistPosition (digistsMap digists) c, cached.add digists)

/-! ## Counting up -/

/-- The loop from position `i` down, with the bytes, the first position to reset and the maps. -/
def increaseFrom (digists : Bytes) : ℕ → Bytes × ℕ × CachedDigists → Bytes × ℕ × CachedDigists
  | 0, s => s
  | i + 1, (bvals, resetidx, cached) =>
    let (idx, cached) := getDigistIndex cached digists (bvals.getD i 0)
    if 0 ≤ idx ∧ idx < (digists.length : ℤ) - 1 then
      (bvals.set i (digists.getD (idx.toNat + 1) 0), resetidx, cached)
    else increaseFrom digists i (bvals, i, cached)

/-- The second loop; an alphabet without a first digit panics. -/
def resetFrom (digists bvals : Bytes) (resetidx : ℕ) : Option Bytes :=
  (List.range' resetidx (bvals.length - resetidx)).foldlM
    (fun bvals i => digists.head?.map fun first => bvals.set i first) bvals

def increaseValueCustomizedDigist (cached : CachedDigists) (val digists : Bytes) :
    Option (Bytes × CachedDigists) := do
  let (bvals, resetidx, cached) := increaseFrom digists val.length (val, val.length, cached)
  let bvals ← resetFrom digists bvals resetidx
  return (bvals, cached)

/-- Call after call. -/
def increaseTimes (digists : Bytes) : ℕ → Bytes × CachedDigists → Option (Bytes × CachedDigists)
  | 0, s => some s
  | k + 1, (val, cached) => do
    let s ← increaseValueCustomizedDigist cached val digists
    increaseTimes digists k s

example : (increaseValueCustomizedDigist .empty (asciiBytes "azz") (asciiBytes "abz")).map Prod.fst =
    some (asciiBytes "baa") := by decide

/-! ## Digits as numbers -/

/-- The number that a value denotes by the positions of its digits. -/
def numeralOf (digists val : Bytes) : ℕ :=
  Nat.ofDigits digists.length (val.reverse.map fun c => digists.idxOf c)

/-- The value of a numeral, least digit first. -/
def valueOf (digists : Bytes) (ds : List ℕ) : Bytes := (ds.map fun d => digists.getD d 0).reverse

section Positions

variable {digists : Bytes}

@[simp] theorem length_valueOf (ds : List ℕ) : (valueOf digists ds).length = ds.length := by
  rw [valueOf, List.length_reverse, List.length_map]

theorem valueOf_cons (d : ℕ) (ds : List ℕ) :
    valueOf digists (d :: ds) = valueOf digists ds ++ [digists.getD d 0] := by
  rw [valueOf, List.map_cons, List.reverse_cons]
  rfl

theorem mem_of_mem_valueOf {ds : List ℕ} (h : Numerals.Numeral digists.length ds) {c : UInt8}
    (hc : c ∈ valueOf digists ds) : c ∈ digists := by
  obtain ⟨d, hd, rfl⟩ := List.mem_map.mp (List.mem_reverse.mp hc)
  rw [List.getD_eq_getElem _ _ (h d hd)]
  exact List.getElem_mem _

theorem idxOf_getD (hnodup : digists.Nodup) {d : ℕ} (hd : d < digists.length) :
    digists.idxOf (digists.getD d 0) = d := by
  rw [List.getD_eq_getElem _ _ hd, hnodup.idxOf_getElem]

theorem getD_idxOf {c : UInt8} (hc : c ∈ digists) : digists.getD (digists.idxOf c) 0 = c := by
  rw [List.getD_eq_getElem _ _ (List.idxOf_lt_length_iff.mpr hc), List.getElem_idxOf]

theorem numeralOf_valueOf (hnodup : digists.Nodup) {ds : List ℕ}
    (h : Numerals.Numeral digists.length ds) :
    numeralOf digists (valueOf digists ds) = Nat.ofDigits digists.length ds := by
  have hback : (ds.map fun d => digists.getD d 0).map (fun c => digists.idxOf c) = ds := by
    rw [List.map_map]
    exact (List.map_congr_left fun d hd => idxOf_getD hnodup (h d hd)).trans (List.map_id ds)
  rw [numeralOf, valueOf, List.reverse_reverse, hback]

/-- Every value over the alphabet is the value of a numeral. -/
theorem exists_valueOf {val : Bytes} (h : ∀ c ∈ val, c ∈ digists) :
    ∃ ds, Numerals.Numeral digists.length ds ∧ valueOf digists ds = val := by
  refine ⟨val.reverse.map fun c => digists.idxOf c, fun d hd => ?_, ?_⟩
  · obtain ⟨c, hc, rfl⟩ := List.mem_map.mp hd
    exact List.idxOf_lt_length_iff.mpr (h c (List.mem_reverse.mp hc))
  · rw [valueOf, List.map_map, ← List.map_reverse, List.reverse_reverse]
    exact (List.map_congr_left fun c hc => getD_idxOf (h c hc)).trans (List.map_id val)

theorem valueOf_inj (hnodup : digists.Nodup) {ds es : List ℕ} (hds : Numerals.Numeral digists.length ds)
    (hes : Numerals.Numeral digists.length es) (h : valueOf digists ds = valueOf digists es) : ds = es := by
  have hlength := congrArg List.length h
  rw [length_valueOf, length_valueOf] at hlength
  refine hds.eq_of_ofDigits hes hlength ?_
  rw [← numeralOf_valueOf hnodup hds, h, numeralOf_valueOf hnodup hes]

theorem valueOf_zeros (n : ℕ) :
    valueOf digists (List.replicate n 0) = List.replicate n (digists.getD 0 0) := by
  rw [valueOf, List.map_replicate, List.reverse_replicate]

theorem foldl_store_zipIdx (hnodup : digists.Nodup) (n : ℕ) (m : GoMap UInt8 ℕ) (c : UInt8) :
    (digists.zipIdx n).foldl (fun m p => m.store p.1 p.2) m c =
      if c ∈ digists then some (n + digists.idxOf c) else m c := by
  induction digists generalizing n m with
  | nil => rfl
  | cons d digists ih =>
    obtain ⟨hd, hnodup⟩ := List.nodup_cons.mp hnodup
    rw [List.zipIdx_cons, List.foldl_cons, ih hnodup]
    by_cases hc : c = d
    · subst hc
      rw [if_neg hd, GoMap.store_self, if_pos List.mem_cons_self, List.idxOf_cons_self, Nat.add_zero]
    · rw [GoMap.store_of_ne hc, List.idxOf_cons_ne _ (Ne.symm hc)]
      simp only [List.mem_cons, hc, false_or, Nat.succ_eq_add_one, Nat.add_assoc, Nat.add_comm 1]

/-- The maps in the cache give the position in the alphabet, whatever was looked up before. -/
theorem getDigistIndex_of_mem (hnodup : digists.Nodup) (cached : CachedDigists) {c : UInt8}
    (hc : c ∈ digists) : (getDigistIndex cached digists c).1 = digists.idxOf c := by
  have hposition : digistPosition (digistsMap digists) c = digists.idxOf c := by
    rw [digistPosition, digistsMap, foldl_store_zipIdx hnodup, if_pos hc, Nat.zero_add]
  rw [getDigistIndex]
  cases hm : cached.maps digists with
  | none => exact hposition
  | some m => rw [cached.built _ _ hm]; exact hposition

end Positions

/-! ## Both loops -/

section Loops

variable {digists : Bytes}

theorem foldlM_set (first : UInt8) (pre : Bytes) (w : Bytes) :
    (List.range' pre.length w.length).foldlM
        (fun bvals i => (some first).map fun first => bvals.set i first) (pre ++ w) =
      some (pre ++ List.replicate w.length first) := by
  induction w generalizing pre with
  | nil => rfl
  | cons c w ih =>
    have hset : (pre ++ c :: w).set pre.length first = (pre ++ [first]) ++ w := by
      rw [List.set_append_right _ _ le_rfl, Nat.sub_self, List.set_cons_zero, List.append_assoc]
      rfl
    have hnext := ih (pre ++ [first])
    rw [List.length_append, List.length_singleton] at hnext
    rw [List.length_cons, List.range'_succ, List.foldlM_cons, Option.map_some, Option.bind_eq_bind,
      Option.bind_some, hset, hnext, List.append_assoc]
    rfl

/-- The bytes from the reset index on become the first digit. -/
theorem resetFrom_eq (hdigists : digists ≠ []) {bvals : Bytes} {resetidx : ℕ}
    (h : resetidx ≤ bvals.length) :
    resetFrom digists bvals resetidx =
      some (bvals.take resetidx ++ List.replicate (bvals.length - resetidx) (digists.getD 0 0)) := by
  obtain ⟨first, rest, rfl⟩ := List.exists_cons_of_ne_nil hdigists
  have hset := foldlM_set first (bvals.take resetidx) (bvals.drop resetidx)
  rwa [List.take_append_drop, List.length_take_of_le h, List.length_drop] at hset

/-- The first loop leaves the numeral with one added, apart from the digits to reset. -/
theorem increaseFrom_spec (hnodup : digists.Nodup) {ds : List ℕ}
    (h : Numerals.Numeral digists.length ds) (cached : CachedDigists) (w : Bytes) :
    ∃ bvals resetidx cached',
      increaseFrom digists ds.length (valueOf digists ds ++ w, ds.length, cached) =
        (bvals, resetidx, cached') ∧
      resetidx ≤ bvals.length ∧
      bvals.take resetidx ++ List.replicate (bvals.length - resetidx) (digists.getD 0 0) =
        valueOf digists (Numerals.increment digists.length ds) ++
          List.replicate w.length (digists.getD 0 0) := by
  induction ds generalizing cached w with
  | nil => exact ⟨w, 0, cached, rfl, Nat.zero_le _, rfl⟩
  | cons d ds ih =>
    obtain ⟨hd, hds⟩ := List.forall_mem_cons.mp h
    have hsplit : valueOf digists (d :: ds) ++ w = valueOf digists ds ++ digists.getD d 0 :: w := by
      rw [valueOf_cons, List.append_assoc]
      rfl
    have hread : (valueOf digists ds ++ digists.getD d 0 :: w).getD ds.length 0 = digists.getD d 0 := by
      rw [List.getD_append_right _ _ _ _ (length_valueOf ds).le, length_valueOf, Nat.sub_self]
      rfl
    have hmem : digists.getD d 0 ∈ digists := by
      rw [List.getD_eq_getElem _ _ hd]
      exact List.getElem_mem _
    have hidx : (getDigistIndex cached digists (digists.getD d 0)).1 = (d : ℤ) := by
      rw [getDigistIndex_of_mem hnodup cached hmem, idxOf_getD hnodup hd]
    rw [hsplit, List.length_cons, increaseFrom, hread, Numerals.increment]
    dsimp only
    rw [hidx]
    by_cases hnext : d + 1 < digists.length
    · -- this digit has a next one, and only the digits behind it are reset
      have hset : (valueOf digists ds ++ digists.getD d 0 :: w).set ds.length (digists.getD (d + 1) 0) =
          valueOf digists ((d + 1) :: ds) ++ w := by
        rw [List.set_append_right _ _ (length_valueOf ds).le, length_valueOf, Nat.sub_self,
          List.set_cons_zero, valueOf_cons, List.append_assoc]
        rfl
      have hlength : (valueOf digists ((d + 1) :: ds)).length = ds.length + 1 := length_valueOf _
      rw [if_pos ⟨Int.natCast_nonneg d, by omega⟩, if_pos hnext, Int.toNat_natCast, hset]
      refine ⟨_, _, _, rfl, ?_, ?_⟩
      · rw [List.length_append, hlength]
        exact Nat.le_add_right _ _
      · rw [List.take_left' hlength, List.length_append, hlength, Nat.add_sub_cancel_left]
    · rw [if_neg (by omega), if_neg hnext]
      obtain ⟨bvals, resetidx, cached', hrun, hle, hreset⟩ :=
        ih hds (getDigistIndex cached digists (digists.getD d 0)).2 (digists.getD d 0 :: w)
      refine ⟨bvals, resetidx, cached', hrun, hle, hreset.trans ?_⟩
      rw [valueOf_cons, List.append_assoc]
      rfl

/-- One call adds one to the numeral. -/
theorem increaseValue_valueOf (hdigists : digists ≠ []) (hnodup : digists.Nodup) {ds : List ℕ}
    (h : Numerals.Numeral digists.length ds) (cached : CachedDigists) :
    ∃ cached', increaseValueCustomizedDigist cached (valueOf digists ds) digists =
      some (valueOf digists (Numerals.increment digists.length ds), cached') := by
  obtain ⟨bvals, resetidx, cached', hrun, hle, hreset⟩ := increaseFrom_spec hnodup h cached []
  rw [List.append_nil] at hrun
  refine ⟨cached', ?_⟩
  rw [increaseValueCustomizedDigist, length_valueOf, hrun]
  dsimp only
  rw [resetFrom_eq hdigists hle, hreset, List.length_nil, List.replicate_zero, List.append_nil]
  rfl

theorem increaseTimes_valueOf (hdigists : digists ≠ []) (hnodup : digists.Nodup) {ds : List ℕ}
    (h : Numerals.Numeral digists.length ds) (cached : CachedDigists) (k : ℕ) :
    ∃ cached', increaseTimes digists k (valueOf digists ds, cached) =
      some (valueOf digists ((Numerals.increment digists.length)^[k] ds), cached') := by
  induction k generalizing ds cached with
  | zero => exact ⟨cached, rfl⟩
  | succ k ih =>
    obtain ⟨cached', hstep⟩ := increaseValue_valueOf hdigists hnodup h cached
    rw [increaseTimes, hstep, Function.iterate_succ_apply]
    exact ih h.increment cached'

end Loops

/-! ## Every value once -/

/-- A value over an alphabet of distinct digits is counted up by one, and from the value of first
digits on every value of its length comes exactly once before the first one comes again. -/
theorem increaseValueCustomizedDigist_counts (digists : Bytes) (hdigists : digists ≠ [])
    (hnodup : digists.Nodup) (val : Bytes) (hval : ∀ c ∈ val, c ∈ digists) (cached : CachedDigists) :
    (∃ next cached', increaseValueCustomizedDigist cached val digists = some (next, cached') ∧
      next.length = val.length ∧ (∀ c ∈ next, c ∈ digists) ∧
      numeralOf digists next = (numeralOf digists val + 1) % digists.length ^ val.length) ∧
    (∃! k, k < digists.length ^ val.length ∧
      (increaseTimes digists k (List.replicate val.length (digists.getD 0 0), cached)).map Prod.fst =
        some val) ∧
    (increaseTimes digists (digists.length ^ val.length)
      (List.replicate val.length (digists.getD 0 0), cached)).map Prod.fst =
        some (List.replicate val.length (digists.getD 0 0)) := by
  obtain ⟨ds, hds, rfl⟩ := exists_valueOf hval
  have hbase : 0 < digists.length := List.length_pos_of_ne_nil hdigists
  have hzeros := Numerals.numeral_zeros hbase ds.length
  have htimes : ∀ k, (increaseTimes digists k
      (List.replicate ds.length (digists.getD 0 0), cached)).map Prod.fst =
        some (valueOf digists ((Numerals.increment digists.length)^[k] (List.replicate ds.length 0))) := by
    intro k
    obtain ⟨cached', hrun⟩ := increaseTimes_valueOf hdigists hnodup hzeros cached k
    rw [← valueOf_zeros, hrun, Option.map_some]
  rw [length_valueOf]
  refine ⟨?_, ?_, ?_⟩
  · obtain ⟨cached', hrun⟩ := increaseValue_valueOf hdigists hnodup hds cached
    refine ⟨_, cached', hrun, ?_, fun c hc => mem_of_mem_valueOf hds.increment hc, ?_⟩
    · rw [length_valueOf, Numerals.length_increment]
    · rw [numeralOf_valueOf hnodup hds.increment, numeralOf_valueOf hnodup hds, hds.ofDigits_increment]
  · obtain ⟨k, ⟨hk, hiterate⟩, hunique⟩ := hds.existsUnique_iterate hbase
    refine ⟨k, ⟨hk, by rw [htimes, hiterate]⟩, ?_⟩
    rintro j ⟨hj, hvalue⟩
    rw [htimes] at hvalue
    exact hunique j ⟨hj, valueOf_inj hnodup (hzeros.iterate j).1 hds (Option.some.inj hvalue)⟩
  · rw [htimes, Numerals.iterate_wraps hbase, valueOf_zeros]

theorem increaseValueCustomizedDigist_counts_binary :
    (∃ next cached', increaseValueCustomizedDigist .empty (asciiBytes "011") (asciiBytes "01") =
        some (next, cached') ∧ next.length = 3 ∧ (∀ c ∈ next, c ∈ asciiBytes "01") ∧
      numeralOf (asciiBytes "01") next = (numeralOf (asciiBytes "01") (asciiBytes "011") + 1) % 2 ^ 3) ∧
    (∃! k, k < 2 ^ 3 ∧
      (increaseTimes (asciiBytes "01") k (asciiBytes "000", .empty)).map Prod.fst =
        some (asciiBytes "011")) ∧
    (increaseTimes (asciiBytes "01") (2 ^ 3) (asciiBytes "000", .empty)).map Prod.fst =
      some (asciiBytes "000") :=
  have hdigits : asciiBytes "011" ⊆ asciiBytes "01" := by decide
  increaseValueCustomizedDigist_counts (asciiBytes "01") (by decide) (by decide) (asciiBytes "011")
    (fun _ hc => hdigits hc) .empty

end Gocom
