import EntityQuery.Proofs.Filter.Readable
import EntityQuery.Proofs.Request.Assembly

/-!
# Proofs/Request/Paging — pages tile the result

    rows      0 1 2 │ 3 4 5 │ 6
    page        0   │   1   │ 2     LIMIT 3, LIMIT 3 OFFSET 3, LIMIT 3 OFFSET 6

The clause of a page is read as text: its terminals are a limit of the grammar, and a limit drops
the rows of its offset and takes as many as its count.  The offset is a product of counts that stops
at the greatest count; a result is shorter than that, so a product that stops drops every row, as
the unbounded one would (`drop_saturatingMul`).  Hence the rows of a page stand between the
unbounded products, and side by side they are the result — `pages_tile`.
-/

namespace EntityQuery

open Sql (Limit Buffer Grammar.LimitClause)

/-! ## Limits -/

namespace Sql

variable {α : Type*}

/-- The rows that a limit leaves of a result: those behind its offset, as many as its count. -/
def Limit.rows (limit : Limit) (rows : List α) : List α :=
  let behind := rows.drop (limit.offset.elim 0 UInt64.toNat)
  limit.limit.elim behind fun count => behind.take count.toNat

/-- Whether a text is the clause of a limit. -/
def SpellsLimit (text : String) (limit : Limit) : Prop :=
  ∃ ts, terminals? text [] = some ts ∧ Grammar.LimitClause ts limit []

/-- Whether a text is a clause that takes these rows of a result. -/
def ClauseTakes (text : String) (rows taken : List α) : Prop :=
  ∃ limit, SpellsLimit text limit ∧ taken = limit.rows rows

/-- The terminals of a limit are its clause. -/
theorem Limit.reads {limit : Limit} (h : limit.limit = none → limit.offset = none) :
    Grammar.LimitClause (terminalsOf limit.pieces) limit [] := by
  have hclause := limitClause_pieces h []
  rw [List.append_nil] at hclause
  rcases hcount : limit.limit with _ | count
  · have hpieces : limit.pieces = [] := by rw [pieces, hcount]
    rw [hpieces]
    rwa [hcount] at hclause
  · rwa [hcount] at hclause

/-- **The text of a limit spells the limit, and nothing else.** -/
theorem Limit.spells_iff (dialect : Dialect) {limit : Limit}
    (h : limit.limit = none → limit.offset = none) {other : Limit} :
    SpellsLimit (Buffer.ofPieces dialect limit.pieces).text other ↔ other = limit := by
  have hread : terminals? (Buffer.ofPieces dialect limit.pieces).text []
      = some (terminalsOf limit.pieces) := by
    have hparams : (Buffer.ofPieces dialect limit.pieces).params.toList = [] :=
      (Buffer.params_appendAll limit.pieces (.empty dialect.placeholder)).trans
        (params_limit limit)
    rw [← hparams]
    exact terminals?_ofPieces dialect limit.legible
  constructor
  · rintro ⟨ts, hts, hother⟩
    obtain rfl := Option.some.inj (hread.symm.trans hts)
    exact (hother.unique (Limit.reads h) trivial trivial).1
  · rintro rfl
    exact ⟨_, hread, Limit.reads h⟩

end Sql

/-! ## The rows of a page -/

section Pages

variable {α : Type*} (dialect : Dialect)

/-- The clause of a page by itself. -/
def pageClause (page : UInt64) (pageSize : Option UInt64) : String :=
  (Buffer.ofPieces dialect (pageLimit page pageSize).pieces).text

/-- The clause of a page takes the rows of its limit, and no others. -/
theorem takes_pageClause_iff (page : UInt64) (pageSize : Option UInt64) (rows taken : List α) :
    Sql.ClauseTakes (pageClause dialect page pageSize) rows taken
      ↔ taken = (pageLimit page pageSize).rows rows := by
  have hspells (limit : Limit) :
      Sql.SpellsLimit (pageClause dialect page pageSize) limit ↔ limit = pageLimit page pageSize :=
    Limit.spells_iff dialect (offset_pageLimit page pageSize)
  simp only [Sql.ClauseTakes, hspells, exists_eq_left]

/-- **A product that stops at the greatest count drops what the unbounded one drops.** -/
theorem drop_saturatingMul (page size : UInt64) {rows : List α} (h : rows.length < UInt64.size) :
    rows.drop (saturatingMul page size).toNat = rows.drop (page.toNat * size.toNat) := by
  rw [toNat_saturatingMul]
  by_cases hproduct : page.toNat * size.toNat < UInt64.size
  · rw [Nat.min_eq_left (by omega)]
  · rw [List.drop_eq_nil_of_le (by omega), List.drop_eq_nil_of_le (by omega)]

/-- **The rows of a page stand between the products of its number and the next with the size.** -/
theorem rows_pageLimit (page : UInt64) {size : UInt64} (hsize : size ≠ 0) {rows : List α}
    (h : rows.length < UInt64.size) :
    (pageLimit page (some size)).rows rows
      = rows.extract (page.toNat * size.toNat) ((page.toNat + 1) * size.toNat) := by
  have hwidth : (page.toNat + 1) * size.toNat - page.toNat * size.toNat = size.toNat := by
    rw [Nat.add_mul, Nat.one_mul, Nat.add_sub_cancel_left]
  rw [List.extract_eq_take_drop, hwidth, pageLimit, if_neg hsize]
  by_cases hpage : page = 0
  · rw [if_pos hpage, hpage, UInt64.toNat_zero, Nat.zero_mul]
    rfl
  · rw [if_neg hpage, ← drop_saturatingMul page size h]
    rfl

/-- Without a size, or with the size zero, a page has every row. -/
theorem rows_pageLimit_of_unsized (page : UInt64) {pageSize : Option UInt64}
    (h : ∀ size ∈ pageSize, size = 0) (rows : List α) :
    (pageLimit page pageSize).rows rows = rows := by
  rcases pageSize with _ | size
  · rfl
  · rw [pageLimit, if_pos (h size rfl)]
    rfl

/-- A row with its position that stands in a stretch has its position within. -/
theorem mem_extract_zipIdx {rows : List α} {start stop : Nat} {row : α} {position : Nat} :
    (row, position) ∈ rows.zipIdx.extract start stop
      → start ≤ position ∧ position < stop := by
  intro hrow
  obtain ⟨i, hi⟩ := List.mem_iff_getElem?.mp hrow
  rw [List.extract_eq_take_drop, List.getElem?_take] at hi
  split at hi
  · rw [List.getElem?_drop, List.getElem?_zipIdx, Option.map_eq_some_iff] at hi
    obtain ⟨_, -, hposition⟩ := hi
    have hwithin : 0 + (start + i) = position := congrArg Prod.snd hposition
    omega
  · contradiction

/-- Stretches of one width, side by side, are the rows up to the end of the last. -/
theorem flatMap_extract (rows : List α) (width count : Nat) :
    (List.range count).flatMap (fun n => rows.extract (n * width) ((n + 1) * width))
      = rows.take (count * width) := by
  induction count with
  | zero => simp
  | succ count ih =>
    have hwidth : (count + 1) * width = count * width + width := Nat.succ_mul count width
    rw [List.range_succ, List.flatMap_append, ih, List.flatMap_singleton,
      List.extract_eq_take_drop, hwidth, Nat.add_sub_cancel_left, ← List.take_add]

/-! ## The tiling -/

/-- **Pages tile the result.**  Without a size, or with the size zero, the clause of a page takes
the whole result.  Of a result that can be counted, with a size above zero, the clause of a page
takes exactly the rows between its unbounded products; different pages have no row — by its
position — in common; and the pages from the first on, one behind the other, are the beginning of
the result, and all of it when there are as many pages as rows. -/
theorem pages_tile (rows : List α) :
    (∀ page pageSize, (∀ size ∈ pageSize, size = 0) → ∀ taken,
      Sql.ClauseTakes (pageClause dialect page pageSize) rows taken ↔ taken = rows)
    ∧ (rows.length < UInt64.size → ∀ size : UInt64, size ≠ 0 →
      (∀ page taken, Sql.ClauseTakes (pageClause dialect page (some size)) rows taken
        ↔ taken = rows.extract (page.toNat * size.toNat) ((page.toNat + 1) * size.toNat))
      ∧ (∀ page other, page ≠ other → ∀ taken taken',
        Sql.ClauseTakes (pageClause dialect page (some size)) rows.zipIdx taken →
        Sql.ClauseTakes (pageClause dialect other (some size)) rows.zipIdx taken' →
        taken.Disjoint taken')
      ∧ ∀ count ≤ UInt64.size, ∀ taken : Nat → List α,
        (∀ page < count,
          Sql.ClauseTakes (pageClause dialect (.ofNat page) (some size)) rows (taken page)) →
        (List.range count).flatMap taken = rows.take (count * size.toNat)
          ∧ (rows.length ≤ count → (List.range count).flatMap taken = rows)) := by
  refine ⟨fun page pageSize hunsized taken => ?_, fun hrows size hsize => ⟨?_, ?_, ?_⟩⟩
  · rw [takes_pageClause_iff, rows_pageLimit_of_unsized page hunsized]
  · intro page taken
    rw [takes_pageClause_iff, rows_pageLimit page hsize hrows]
  · intro page other hne taken taken' htaken htaken' ⟨row, position⟩ hrow hrow'
    have hindexed : rows.zipIdx.length < UInt64.size := by rwa [List.length_zipIdx]
    rw [takes_pageClause_iff, rows_pageLimit _ hsize hindexed] at htaken htaken'
    obtain ⟨hfrom, hto⟩ := mem_extract_zipIdx (htaken ▸ hrow)
    obtain ⟨hfrom', hto'⟩ := mem_extract_zipIdx (htaken' ▸ hrow')
    -- the position is on both pages, so each page starts before the other one ends
    have hle : page.toNat < other.toNat + 1 := Nat.lt_of_mul_lt_mul_right (hfrom.trans_lt hto')
    have hge : other.toNat < page.toNat + 1 := Nat.lt_of_mul_lt_mul_right (hfrom'.trans_lt hto)
    exact hne (UInt64.toNat_inj.mp (by omega))
  · intro count hcount taken htaken
    have hpage : ∀ page ∈ List.range count,
        taken page = rows.extract (page * size.toNat) ((page + 1) * size.toNat) := by
      intro page hmem
      have hlt : page < count := List.mem_range.mp hmem
      have hnumber : (UInt64.ofNat page).toNat = page :=
        UInt64.toNat_ofNat_of_lt' (hlt.trans_le hcount)
      have hrowsOf := (takes_pageClause_iff ..).mp (htaken page hlt)
      rwa [rows_pageLimit _ hsize hrows, hnumber] at hrowsOf
    have hflat : (List.range count).flatMap taken = rows.take (count * size.toNat) :=
      (List.flatMap_congr hpage).trans (flatMap_extract rows size.toNat count)
    refine ⟨hflat, fun hlength => ?_⟩
    have hpos : 0 < size.toNat := Nat.pos_of_ne_zero fun hzero => hsize (UInt64.toNat_inj.mp hzero)
    rw [hflat, List.take_of_length_le (hlength.trans (Nat.le_mul_of_pos_right count hpos))]

end Pages

/-- Seven rows in pages of three: the last page has what is left, a page whose product does not fit
has nothing, and seven pages have everything. -/
theorem pages_of_seven_rows :
    pageClause .postgres 2 (some 3) = "LIMIT 3 OFFSET 6"
    ∧ pageClause .postgres 0xFFFFFFFFFFFFFFFE (some 3) = "LIMIT 3 OFFSET 18446744073709551615"
    ∧ Sql.ClauseTakes (pageClause .postgres 2 (some 3)) [1, 2, 3, 4, 5, 6, 7] [7]
    ∧ Sql.ClauseTakes (pageClause .postgres 0xFFFFFFFFFFFFFFFE (some 3)) [1, 2, 3, 4, 5, 6, 7] []
    ∧ Sql.ClauseTakes (pageClause .postgres 2 (some 0)) [1, 2, 3, 4, 5, 6, 7] [1, 2, 3, 4, 5, 6, 7]
    ∧ [(4, 3), (5, 4), (6, 5)].Disjoint [(7, 6)]
    ∧ (List.range 7).flatMap (fun page => [1, 2, 3, 4, 5, 6, 7].extract (page * 3) ((page + 1) * 3))
      = [1, 2, 3, 4, 5, 6, 7] := by
  obtain ⟨hwhole, hpages⟩ := pages_tile .postgres [1, 2, 3, 4, 5, 6, 7]
  obtain ⟨htakes, hdisjoint, htile⟩ := hpages (by decide) 3 (by decide)
  obtain ⟨htakes', -, -⟩ := (pages_tile .postgres ([1, 2, 3, 4, 5, 6, 7].zipIdx)).2 (by decide) 3
    (by decide)
  refine ⟨by decide +kernel, by decide +kernel, (htakes 2 [7]).mpr rfl,
    (htakes 0xFFFFFFFFFFFFFFFE []).mpr (by decide +kernel),
    (hwhole 2 (some 0) (by simp) _).mpr rfl,
    hdisjoint 1 2 (by decide) _ _ ((htakes' 1 _).mpr rfl) ((htakes' 2 _).mpr rfl), ?_⟩
  refine (htile 7 (by decide) _ fun page hpage => ?_).2 (by decide)
  rw [htakes]
  have hnumber : (UInt64.ofNat page).toNat = page :=
    UInt64.toNat_ofNat_of_lt' (hpage.trans (by decide))
  rw [hnumber]
  rfl

end EntityQuery
