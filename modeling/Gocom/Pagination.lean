import Gocom.DataAccess
import Mathlib.Data.List.Range

/-!
# Pages of a list

A list handler fetches the records of one page: the page size is the limit, and the page number
gives the offset. Pages tile the records exactly if they are single records or one page holds
everything.
-/

namespace Gocom

structure PaginationParam where
  page : ℤ := 0
  pageSize : ℤ := 0

namespace PaginationParam

/-- Offset for the query of a page. -/
def getPageOffset (p : PaginationParam) : ℤ := if p.page > 0 then p.page - 1 else 0

/-- Page size as the limit of a query. -/
def getPageSize (p : PaginationParam) : ℤ :=
  if p.pageSize > 1000 then 1000 else if p.pageSize ≤ 0 then 10 else p.pageSize

theorem getPageSize_pos (p : PaginationParam) : 0 < p.getPageSize := by
  rw [getPageSize]
  split_ifs <;> omega

end PaginationParam

/-! ## Windows -/

section Windows

variable {α : Type} {l : List α}

theorem flatMap_single_windows (l : List α) :
    ((List.range l.length).map fun i => (l.drop i).take 1).flatten = l := by
  induction l with
  | nil => rfl
  | cons a l ih =>
    rw [List.length_cons, List.range_succ_eq_map, List.map_cons, List.map_map, List.flatten_cons]
    exact congrArg (a :: ·) ih

/-- Windows that start at neighbouring rows and are wider than one row overlap. -/
theorem not_disjoint_windows {s : ℕ} (hs : 2 ≤ s) (hl : s < l.length) :
    ¬ List.Disjoint ((l.drop 0).take s) ((l.drop 1).take s) := by
  have hone : 1 < l.length := by omega
  intro hdisj
  refine hdisj (a := l[1]) ?_ ?_
  · rw [List.drop_zero]
    exact List.mem_take_iff_getElem.mpr ⟨1, by omega, rfl⟩
  · exact List.mem_take_iff_getElem.mpr ⟨0, by rw [List.length_drop]; omega, by simp⟩

theorem one_page {n s : ℕ} (hs : 0 < s) (hn : 0 < n) (hns : n ≤ s) : (n + s - 1) / s = 1 := by
  rw [Nat.div_eq_iff hs]
  omega

/-- The windows of width `s` at the first rows tile the list exactly if they are single rows or
there is one at most. -/
theorem windows_tile_iff {s : ℕ} (hs : 0 < s) (hl : l.Nodup) :
    (((List.range ((l.length + s - 1) / s)).map fun i => (l.drop i).take s).Pairwise List.Disjoint ∧
      ((List.range ((l.length + s - 1) / s)).map fun i => (l.drop i).take s).flatten = l) ↔
    s = 1 ∨ l.length ≤ s := by
  constructor
  · rintro ⟨hdisj, -⟩
    by_contra hnot
    have hs2 : 2 ≤ s := by omega
    have hlong : s < l.length := by omega
    obtain ⟨c, hc⟩ : ∃ c, (l.length + s - 1) / s = c + 2 := by
      have : 2 ≤ (l.length + s - 1) / s := by
        rw [Nat.le_div_iff_mul_le hs]
        omega
      exact ⟨_, (Nat.sub_add_cancel this).symm⟩
    rw [hc, List.range_succ_eq_map, List.range_succ_eq_map] at hdisj
    exact not_disjoint_windows hs2 hlong (List.rel_of_pairwise_cons hdisj (by simp))
  · intro h
    have hflatten : ((List.range ((l.length + s - 1) / s)).map
        fun i => (l.drop i).take s).flatten = l := by
      rcases h with rfl | hle
      · rw [Nat.div_one, Nat.add_sub_cancel]
        exact flatMap_single_windows l
      · rcases Nat.eq_zero_or_pos l.length with hzero | hpos
        · rw [hzero, Nat.zero_add, Nat.div_eq_of_lt (by omega)]
          exact (List.length_eq_zero_iff.mp hzero).symm
        · rw [one_page hs hpos hle]
          simp [List.take_of_length_le hle]
    refine ⟨?_, hflatten⟩
    exact (List.nodup_flatten.mp (hflatten.symm ▸ hl)).2

end Windows

/-! ## The pages of a list handler -/

section Pages

variable {ρ : Type} (orm : Orm ρ)

/-- The records and the total that a list handler answers. -/
def getList (param : PaginationParam) (bean : ρ) (conds : CustomConds) (table : List ρ) :
    Except String (ℕ × List ρ) :=
  DataAccessEngine.fetchRecordsAndCountTotal orm bean param.getPageSize param.getPageOffset []
    conds table

/-- The pages that `n` records fill. -/
def pageCount (pageSize : ℤ) (n : ℕ) : ℕ :=
  let s := (PaginationParam.getPageSize { pageSize }).toNat
  (n + s - 1) / s

/-- Fetching page after page succeeds, and the pages are disjoint and make up the records. -/
structure PagesTile (pageSize : ℤ) (bean : ρ) (conds : CustomConds) (table records : List ρ)
    (pages : List (List ρ)) : Prop where
  fetched : (List.range (pageCount pageSize records.length)).map (fun i : ℕ =>
    Prod.snd <$> getList orm { page := (i : ℤ) + 1, pageSize } bean conds table) = pages.map .ok
  disjoint : pages.Pairwise List.Disjoint
  whole : pages.flatten = records

variable {orm} {columns : List (Column ρ Value)} {conds : CustomConds} {bean : ρ} {table : List ρ}

/-- A page starts at the row of its number, not behind the pages before it. -/
theorem getList_page (hdoc : orm.Documented columns) (hans : orm.Answers conds bean table)
    (pageSize : ℤ) (i : ℕ) :
    Prod.snd <$> getList orm { page := (i : ℤ) + 1, pageSize } bean conds table = .ok
      (((table.filter (Selected columns conds bean ·)).drop i).take
        (PaginationParam.getPageSize { pageSize }).toNat) := by
  have hoffset : PaginationParam.getPageOffset { page := (i : ℤ) + 1, pageSize } = i := by
    rw [PaginationParam.getPageOffset, if_pos (by dsimp only; omega)]
    dsimp only
    omega
  rw [getList, hoffset, DataAccessEngine.fetchRecordsAndCountTotal_of_pos hdoc hans
    (PaginationParam.getPageSize_pos _) (Int.natCast_nonneg i), Int.toNat_natCast]
  rfl

/-- The pages tile the matching records exactly if pages are single records or all records fit
on one page. -/
theorem pages_tile_iff (hdoc : orm.Documented columns) (hans : orm.Answers conds bean table)
    (htable : table.Nodup) (pageSize : ℤ) :
    (∃ pages, PagesTile orm pageSize bean conds table
      (table.filter (Selected columns conds bean ·)) pages) ↔
    PaginationParam.getPageSize { pageSize } = 1 ∨
      ((table.filter (Selected columns conds bean ·)).length : ℤ) ≤
        PaginationParam.getPageSize { pageSize } := by
  set records := table.filter (Selected columns conds bean ·) with hrecords
  set s := (PaginationParam.getPageSize { pageSize }).toNat with hs
  have hpos := PaginationParam.getPageSize_pos { pageSize }
  have hnodup : records.Nodup := htable.filter _
  have hfetch : (List.range (pageCount pageSize records.length)).map (fun i : ℕ =>
      Prod.snd <$> getList orm { page := (i : ℤ) + 1, pageSize } bean conds table) =
      ((List.range (pageCount pageSize records.length)).map fun i =>
        (records.drop i).take s).map .ok := by
    rw [List.map_map]
    exact List.map_congr_left fun i _ => getList_page hdoc hans pageSize i
  have hok : Function.Injective (Except.ok : List ρ → Except String (List ρ)) :=
    fun _ _ => Except.ok.inj
  have hcond : PaginationParam.getPageSize { pageSize } = 1 ∨
      (records.length : ℤ) ≤ PaginationParam.getPageSize { pageSize } ↔
      s = 1 ∨ records.length ≤ s := by omega
  rw [hcond, ← windows_tile_iff (by omega) hnodup]
  constructor
  · rintro ⟨pages, hp⟩
    obtain rfl := hok.list_map (hfetch.symm.trans hp.fetched)
    exact ⟨hp.disjoint, hp.whole⟩
  · rintro ⟨hdisj, hwhole⟩
    exact ⟨_, hfetch, hdisj, hwhole⟩

/-- Rows of nothing but an identifier. -/
def idColumns : List (Column ℤ Value) := [⟨"id", .int64⟩]

def idOrm : Orm ℤ := listOrm idColumns (fun bean _ => bean) fun bean _ => .ok bean

theorem idOrm_answers (conds : CustomConds) (bean : ℤ) (table : List ℤ) :
    idOrm.Answers conds bean table :=
  ⟨⟨_, rfl⟩, fun _ => ⟨_, rfl⟩⟩

theorem pages_tile_onePage : ∃ pages, PagesTile idOrm 20 0 [] [1, 2, 3]
    ([1, 2, 3].filter (Selected idColumns [] 0 ·)) pages :=
  (pages_tile_iff (listOrm_documented _ _ _) (idOrm_answers [] 0 [1, 2, 3]) (by decide) 20).mpr
    (.inr (by decide))

/-- The second page starts at the second record, which the first page has already. -/
theorem pages_overlap : ¬ ∃ pages, PagesTile idOrm 2 0 [] [1, 2, 3] [1, 2, 3] pages := by
  rintro ⟨pages, h⟩
  have hpages : pages.map Except.ok = [[1, 2], [2, 3]].map (Except.ok : List ℤ → Except String (List ℤ)) :=
    h.fetched.symm
  have hok : Function.Injective (Except.ok : List ℤ → Except String (List ℤ)) :=
    fun _ _ => Except.ok.inj
  obtain rfl := hok.list_map hpages
  exact absurd h.whole (by decide)

end Pages

end Gocom
