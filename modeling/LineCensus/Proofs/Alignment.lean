import LineCensus.Report
import Mathlib.Algebra.GroupWithZero.Nat
import Mathlib.Data.List.Forall2
import Mathlib.Order.Bounds.Basic

/-!
# Aligned lines

What a line of a table shows is said here field by field: its label on the left, shortened if it
has to be, and its values on the right of their columns, in full. A column is measured in bytes, of
which no text has fewer than characters, so every line of a table comes out equally long
(`exists_isAligned_iff`). The only tables left out are those with a column too wide for a field.
-/

namespace LineCensus.Table

/-! ## Lines field by field -/

/-- What is shown of a label: all of it, or as much of its end as has room behind two dots. -/
def Shows (width : Nat) (label shown : Text) : Prop :=
  if label.length ≤ width then shown = label
  else ∃ tail, tail <:+ label ∧ tail.length + 2 = width ∧ shown = '.' :: '.' :: tail

/-- The fields of the values, each behind two blanks. Values without a column are not shown. -/
inductive Fields : List Nat → List Text → Text → Prop
  | done (surplus : List Text) : Fields [] surplus []
  | value {width gap : Nat} {v : Text} {widths : List Nat} {values : List Text} {fields : Text}
      (hw : gap + v.length = width) (hf : Fields widths values fields) :
      Fields (width :: widths) (v :: values)
        (' ' :: ' ' :: (List.replicate gap ' ' ++ v ++ fields))

def IsLine (labelWidth : Nat) (widths : List Nat) (r : Row) (line : Text) : Prop :=
  ∃ shown gap fields, Shows labelWidth r.label shown ∧ shown.length + gap = labelWidth ∧
    Fields widths r.values fields ∧ line = shown ++ List.replicate gap ' ' ++ fields

theorem Fields.length_eq {widths : List Nat} {values : List Text} {fields : Text}
    (h : Fields widths values fields) : fields.length = (widths.map (2 + ·)).sum := by
  induction h with
  | done surplus => rfl
  | value hw hf ih =>
    simp only [List.length_cons, List.length_append, List.length_replicate, List.map_cons,
      List.sum_cons]
    omega

theorem IsLine.length_eq {labelWidth : Nat} {widths : List Nat} {r : Row} {line : Text}
    (h : IsLine labelWidth widths r line) :
    line.length = labelWidth + (widths.map (2 + ·)).sum := by
  obtain ⟨shown, gap, fields, -, hgap, hf, rfl⟩ := h
  simp only [List.length_append, List.length_replicate, hf.length_eq]
  omega

/-! ## Lines as they are written -/

section
variable {width : Nat} {label : Text} (h : width < label.length → 2 ≤ width)
include h

theorem shows_shorten : Shows width label (shorten width label) := by
  by_cases hl : width < label.length
  · rw [Shows, if_neg (Nat.not_le.mpr hl), shorten, if_pos hl]
    refine ⟨_, List.drop_suffix .., ?_, rfl⟩
    have := h hl
    rw [List.length_drop]
    omega
  · rw [Shows, if_pos (Nat.not_lt.mp hl), shorten, if_neg hl]

theorem length_shorten_le : (shorten width label).length ≤ width := by
  have hs := shows_shorten h
  unfold Shows at hs
  split at hs
  · rwa [hs]
  · obtain ⟨tail, -, htail, hs⟩ := hs
    rw [hs, List.length_cons, List.length_cons]
    exact Nat.le_of_eq htail

end

def Fits (widths : List Nat) (values : List Text) : Prop :=
  ∀ i width : Nat, widths[i]? = some width → ∃ v : Text, values[i]? = some v ∧ v.length ≤ width

theorem fields_padLeft {widths : List Nat} {values : List Text} (h : Fits widths values) :
    Fields widths values ((values.zip widths).flatMap fun (cell, width) =>
      ' ' :: ' ' :: Text.padLeft width cell) := by
  induction widths generalizing values with
  | nil => rw [List.zip_nil_right]; exact .done values
  | cons width widths ih =>
    obtain ⟨v, hv, hle⟩ := h 0 width rfl
    cases values with
    | nil => cases hv
    | cons v values =>
      cases hv
      have hrest : Fits widths values := fun i width hi => h (i + 1) width hi
      exact .value (Nat.sub_add_cancel hle) (ih hrest)

theorem isLine_alignedLine {labelWidth : Nat} {widths : List Nat} {r : Row}
    (hl : labelWidth < r.label.length → 2 ≤ labelWidth) (hv : Fits widths r.values) :
    IsLine labelWidth widths r (alignedLine labelWidth widths r) :=
  ⟨_, _, _, shows_shorten hl, Nat.add_sub_cancel' (length_shorten_le hl), fields_padLeft hv, rfl⟩

/-! ## The widths of a table -/

variable {t : Table}

def headerRow (t : Table) : Row :=
  ⟨t.headers.headD [], t.headers.drop 1⟩

/-- The texts of each column, its header first. Values without a header are in none. -/
def columns (t : Table) : List (List Text) :=
  (t.headers.drop 1).mapIdx fun i header => header :: t.allRows.filterMap (·.values[i]?)

/-- Labels are measured in characters and columns in bytes, each by its longest text. -/
def HasWidths (t : Table) (labelWidth : Nat) (widths : List Nat) : Prop :=
  IsGreatest {n | n ∈ (t.headerRow :: t.allRows).map (·.label.length)} labelWidth ∧
  List.Forall₂ (fun column width => IsGreatest {n | n ∈ column.map Utf8.size} width)
    t.columns widths

def IsNarrow (t : Table) : Prop :=
  ∀ column ∈ t.columns, ∀ text ∈ column, Utf8.size text ≤ Text.fieldLimit

instance (t : Table) : Decidable t.IsNarrow :=
  inferInstanceAs (Decidable (∀ column ∈ t.columns, ∀ text ∈ column,
    Utf8.size text ≤ Text.fieldLimit))

theorem foldl_max_mem (l : List Nat) (a : Nat) : l.foldl max a ∈ a :: l := by
  induction l generalizing a with
  | nil => exact List.mem_singleton_self a
  | cons b l ih =>
    rw [List.foldl_cons]
    cases List.mem_cons.mp (ih (max a b)) with
    | inl h =>
      rw [h]
      by_cases hab : a ≤ b
      · simp [Nat.max_eq_right hab]
      · simp [Nat.max_eq_left (Nat.le_of_not_le hab)]
    | inr h => simp [h]

theorem isGreatest_foldl_max (l : List Nat) (a : Nat) :
    IsGreatest {n | n ∈ a :: l} (l.foldl max a) := by
  have hle : ∀ n ∈ a :: l, n ≤ l.foldl max a :=
    List.forall_mem_cons.mpr (foldl_max_le_iff.mp (Nat.le_refl _))
  exact ⟨foldl_max_mem l a, hle⟩

theorem isGreatest_labelWidth (hh : t.headers ≠ []) :
    IsGreatest {n | n ∈ (t.headerRow :: t.allRows).map (·.label.length)} t.labelWidth := by
  obtain ⟨header, headers, he⟩ := List.exists_cons_of_ne_nil hh
  have hw : t.labelWidth = (t.allRows.map (·.label.length)).foldl max header.length := by
    simp [labelWidth, he, Function.comp_def]
  rw [hw, headerRow, he]
  exact isGreatest_foldl_max _ _

theorem isGreatest_columnWidth (rows : List Row) (i : Nat) (header : Text) :
    IsGreatest {n | n ∈ (header :: rows.filterMap (·.values[i]?)).map Utf8.size}
      (columnWidth rows i header) := by
  rw [columnWidth, ← List.map_filterMap]
  exact isGreatest_foldl_max _ _

theorem hasWidths (hh : t.headers ≠ []) : t.HasWidths t.labelWidth t.columnWidths := by
  refine ⟨isGreatest_labelWidth hh, List.forall₂_iff_get.mpr ⟨?_, ?_⟩⟩
  · rw [columns, columnWidths, List.length_mapIdx, List.length_mapIdx]
  · intro i hi hi'
    simp only [columns, columnWidths, List.get_eq_getElem, List.getElem_mapIdx]
    exact isGreatest_columnWidth _ _ _

theorem HasWidths.le_iff {labelWidth bound : Nat} {widths : List Nat}
    (h : t.HasWidths labelWidth widths) : (∀ width ∈ widths, width ≤ bound) ↔
      ∀ column ∈ t.columns, ∀ text ∈ column, Utf8.size text ≤ bound := by
  obtain ⟨-, h⟩ := h
  generalize t.columns = columns at h ⊢
  induction h with
  | nil => simp
  | cons hw _ ih =>
    rw [List.forall_mem_cons, List.forall_mem_cons, ih, isLUB_le_iff hw.isLUB]
    exact and_congr_left' List.forall_mem_map

theorem isAlignable_iff (hh : t.headers ≠ []) : t.isAlignable = true ↔ t.IsNarrow := by
  rw [isAlignable, List.isEmpty_eq_false_iff.mpr hh, Bool.not_false, Bool.true_and,
    List.all_eq_true]
  simp only [decide_eq_true_eq]
  exact (hasWidths hh).le_iff

/-- A label is cut at the limit only, which leaves room for the dots. -/
theorem two_le_labelField {r : Row} (hh : t.headers ≠ []) (hr : r ∈ t.headerRow :: t.allRows)
    (h : min t.labelWidth 60 < r.label.length) : 2 ≤ min t.labelWidth 60 := by
  have := (isGreatest_labelWidth hh).2 (List.mem_map_of_mem hr)
  omega

theorem fits_columnWidths (hv : ∀ r ∈ t.allRows, (t.headers.drop 1).length ≤ r.values.length)
    {r : Row} (hr : r ∈ t.headerRow :: t.allRows) : Fits t.columnWidths r.values := by
  unfold Fits
  intro i width hi
  rw [columnWidths, List.getElem?_mapIdx, Option.map_eq_some_iff] at hi
  obtain ⟨header, hheader, hw⟩ := hi
  have hle := columnWidth_le_iff.mp (Nat.le_of_eq hw)
  have hfits : ∀ v ∈ header :: t.allRows.filterMap (·.values[i]?), v.length ≤ width :=
    fun v hv => Nat.le_trans (Utf8.length_le_size v) (hle v hv)
  cases List.mem_cons.mp hr with
  | inl hr => exact ⟨header, hr ▸ hheader, hfits _ (List.mem_cons_self ..)⟩
  | inr hr =>
    obtain ⟨hlt, -⟩ := List.getElem?_eq_some_iff.mp hheader
    have hcell := List.getElem?_eq_getElem (Nat.lt_of_lt_of_le hlt (hv r hr))
    exact ⟨_, hcell, hfits _ (List.mem_cons_of_mem _ (List.mem_filterMap.mpr ⟨r, hr, hcell⟩))⟩

/-! ## Reports -/

/-- Between its bold marks and its newlines a report has lines of one length: the headers, then a
separator, the rows, the same separator and the footer. -/
def IsAligned (t : Table) (bold : Bool) (report : Text) : Prop :=
  ∃ labelWidth widths header separator rows footer, t.HasWidths labelWidth widths ∧
    report = ([bolded bold header, separator] ++ rows ++ [separator, footer]).flatMap (· ++ ['\n']) ∧
    (∀ line ∈ [header, separator] ++ rows ++ [separator, footer],
      line.length = min labelWidth 60 + (widths.map (2 + ·)).sum) ∧
    (∀ c ∈ separator, c = '-') ∧
    List.Forall₂ (IsLine (min labelWidth 60) widths) (t.headerRow :: t.allRows)
      (header :: (rows ++ [footer]))

theorem isAligned_aligned (bold : Bool) (hh : t.headers ≠ [])
    (hv : ∀ r ∈ t.allRows, (t.headers.drop 1).length ≤ r.values.length) :
    t.IsAligned bold (t.aligned bold) := by
  have hline {r : Row} (hr : r ∈ t.headerRow :: t.allRows) : IsLine (min t.labelWidth 60)
      t.columnWidths r (alignedLine (min t.labelWidth 60) t.columnWidths r) :=
    isLine_alignedLine (two_le_labelField hh hr) (fits_columnWidths hv hr)
  have hlines : List.Forall₂ (IsLine (min t.labelWidth 60) t.columnWidths)
      (t.headerRow :: t.allRows)
      ((t.headerRow :: t.allRows).map (alignedLine (min t.labelWidth 60) t.columnWidths)) :=
    List.forall₂_map_right_iff.mpr (List.forall₂_same.mpr fun r hr => hline hr)
  rw [allRows, List.map_cons, List.map_append, List.map_singleton] at hlines
  have hheader := (hline (List.mem_cons_self ..)).length_eq
  have hrow {r : Row} (hr : r ∈ t.rows) :=
    (hline (List.mem_cons_of_mem _ (List.mem_append_left [t.footer] hr))).length_eq
  have hfooter :=
    (hline (List.mem_cons_of_mem _ (List.mem_append_right _ (List.mem_singleton_self _)))).length_eq
  refine ⟨_, _, _, _, _, _, hasWidths hh, rfl, ?_, ?_, hlines⟩
  · intro line hl
    simp only [List.mem_append, List.mem_cons, List.not_mem_nil, or_false, List.mem_map] at hl
    rcases hl with ((rfl | rfl) | ⟨r, hr, rfl⟩) | rfl | rfl
    · exact hheader
    · exact List.length_replicate.trans hheader
    · exact hrow hr
    · exact List.length_replicate.trans hheader
    · exact hfooter
  · intro c hc
    exact List.eq_of_mem_replicate hc

/-- The report of a census is aligned, whatever its files are called. -/
theorem exists_isAligned_census (c : Census) (bold : Bool) :
    ∃ report, c.report bold .text = .ok report ∧ c.table.aligned? bold = some report ∧
      c.table.IsAligned bold report := by
  refine ⟨c.table.aligned bold, rfl, if_pos c.isAlignable_table, ?_⟩
  refine isAligned_aligned bold (List.cons_ne_nil _ _) fun r hr => ?_
  simp only [allRows, Census.table, List.mem_append, List.mem_map, List.mem_singleton] at hr
  rcases hr with ⟨e, _, rfl⟩ | rfl
  · exact Nat.le_refl 5
  · exact Nat.le_refl 5

/-- A table with a header, and with a value in each column of each row, is aligned unless a text
in one of its columns is too long for a field. Then there is no report. -/
theorem exists_isAligned_iff (t : Table) (bold : Bool) (hh : t.headers ≠ [])
    (hv : ∀ r ∈ t.allRows, (t.headers.drop 1).length ≤ r.values.length) :
    ((∃ report, t.aligned? bold = some report ∧ t.IsAligned bold report) ↔ t.IsNarrow) ∧
    (t.aligned? bold = none ↔ ¬ t.IsNarrow) := by
  by_cases hn : t.IsNarrow
  · have hsome : t.aligned? bold = some (t.aligned bold) :=
      if_pos ((isAlignable_iff hh).mpr hn)
    have haligned := isAligned_aligned bold hh hv
    exact ⟨iff_of_true ⟨_, hsome, haligned⟩ hn, iff_of_false (by simp [hsome]) (not_not.mpr hn)⟩
  · have hnone : t.aligned? bold = none := if_neg (mt (isAlignable_iff hh).mp hn)
    exact ⟨iff_of_false (by simp [hnone]) hn, iff_of_true hnone hn⟩

/-- Bytes differ from characters, a label is too long and a row has a value without a header. -/
def sampleTable : Table where
  headers := ["File".toList, "é".toList, "Ω:Ω".toList]
  rows := [⟨"lib/".toList ++ List.replicate 60 'ä', ["12".toList, "日本".toList, "surplus".toList]⟩,
    ⟨"b".toList, [[], "2.50".toList]⟩]
  footer := ⟨"TOTAL".toList, ["12".toList, "".toList]⟩

theorem exists_isAligned_sample : sampleTable.headers ≠ [] ∧
    (∀ r ∈ sampleTable.allRows, (sampleTable.headers.drop 1).length ≤ r.values.length) ∧
    ∃ report, sampleTable.aligned? true = some report ∧ sampleTable.IsAligned true report := by
  have hh : sampleTable.headers ≠ [] := by decide
  have hv : ∀ r ∈ sampleTable.allRows,
      (sampleTable.headers.drop 1).length ≤ r.values.length := by decide
  exact ⟨hh, hv, (exists_isAligned_iff sampleTable true hh hv).1.mpr (by decide)⟩

def wideTable : Table :=
  ⟨[[], List.replicate (Text.fieldLimit + 1) 'x'], [], ⟨[], [[]]⟩⟩

theorem wide_has_no_report : wideTable.headers ≠ [] ∧
    (∀ r ∈ wideTable.allRows, (wideTable.headers.drop 1).length ≤ r.values.length) ∧
    wideTable.aligned? false = none := by
  have hwide : ¬ wideTable.IsNarrow := by
    intro h
    have hsize := h _ (List.mem_cons_self ..) (List.replicate (Text.fieldLimit + 1) 'x')
      (List.mem_cons_self ..)
    have hlength := Utf8.length_le_size (List.replicate (Text.fieldLimit + 1) 'x')
    rw [List.length_replicate] at hlength
    omega
  have hh : wideTable.headers ≠ [] := List.cons_ne_nil _ _
  exact ⟨hh, by simp [wideTable, allRows], if_neg (mt (isAlignable_iff hh).mp hwide)⟩

end LineCensus.Table
