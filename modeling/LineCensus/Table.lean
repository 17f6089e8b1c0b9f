import LineCensus.Census
import LineCensus.Ratio

/-!
# Tables

The rows of a report, and three ways to write them down: comma-separated values, a web page and
aligned text. There labels are on the left, values on the right of their columns. A column is as wide
as its widest text in bytes of UTF-8, while a text is padded by its characters.

A table can only be aligned if its columns are narrow enough for a field. Those of a census are.
-/

namespace LineCensus

structure Row where
  label : Text
  values : List Text
  deriving DecidableEq, Repr

/-- The first header belongs to the labels. Rows may be longer or shorter than the headers. -/
structure Table where
  headers : List Text
  rows : List Row
  footer : Row
  deriving DecidableEq, Repr

def Entry.row (e : Entry) : Row :=
  ⟨e.name,
    [Text.decimal e.counts.code.toNat, Text.decimal e.counts.comments.toNat,
      Text.decimal e.counts.blank.toNat, Text.decimal e.counts.lines.toNat, e.counts.ratio.text]⟩

namespace Table

def labelHeader : Text := "File".toList

def valueHeaders : List Text :=
  ["LOC".toList, "Comments".toList, "Blank".toList, "Lines".toList, "Code:Comment".toList]

def allRows (t : Table) : List Row :=
  t.rows ++ [t.footer]

def labelWidth (t : Table) : Nat :=
  ((t.headers.take 1 ++ t.allRows.map Row.label).map List.length).foldl max 0

/-! ## Comma-separated values -/

/-- A quoted field. A quote inside it is written twice. -/
def quoted (t : Text) : Text :=
  '"' :: t.flatMap (fun c => if c = '"' then ['"', '"'] else [c]) ++ ['"']

def csvRow (r : Row) : Text :=
  quoted r.label ++ r.values.flatMap (',' :: ·)

/-- Labels are quoted; headers and values are written as they are. -/
def csv (t : Table) : Text :=
  ([','].intercalate t.headers :: t.allRows.map csvRow).flatMap (· ++ ['\n'])

/-! ## Web pages -/

def reference (c : Char) : Text :=
  if c = '&' then "&amp;".toList
  else if c = '<' then "&lt;".toList
  else if c = '>' then "&gt;".toList
  else if c = '"' then "&quot;".toList
  else if c = '\'' then "&#39;".toList
  else [c]

def escaped (t : Text) : Text :=
  t.flatMap reference

def cell (tag content : Text) : Text :=
  '<' :: tag ++ '>' :: escaped content ++ "</".toList ++ tag ++ ['>']

def htmlRow (tag : Text) (r : Row) : Text :=
  "<tr>".toList ++ (r.label :: r.values).flatMap (cell tag) ++ "</tr>\n".toList

def pageStart : Text :=
  ("<!DOCTYPE html>\n<html>\n<head>\n<meta charset=\"utf-8\">\n" ++
    "<title>Lines of code</title>\n</head>\n<body>\n<table>\n").toList

def html (t : Table) : Text :=
  pageStart ++ "<thead><tr>".toList ++ t.headers.flatMap (cell "th".toList) ++
    "</tr></thead>\n<tbody>\n".toList ++ t.rows.flatMap (htmlRow "td".toList) ++
    "</tbody>\n<tfoot>\n".toList ++ htmlRow "th".toList t.footer ++
    "</tfoot>\n</table>\n</body>\n</html>\n".toList

end Table

def Census.table (c : Census) : Table :=
  ⟨Table.labelHeader :: Table.valueHeaders, c.files.map Entry.row, c.total.row⟩

/-! ## Aligned text -/

namespace Table

def labelLimit : Nat := 60

def shorten (width : Nat) (label : Text) : Text :=
  if width < label.length then "..".toList ++ label.drop (label.length - width + 2) else label

def columnWidth (rows : List Row) (i : Nat) (header : Text) : Nat :=
  (rows.filterMap fun r => r.values[i]?.map Utf8.size).foldl max (Utf8.size header)

theorem foldl_max_le_iff {l : List Nat} {a bound : Nat} :
    l.foldl max a ≤ bound ↔ a ≤ bound ∧ ∀ b ∈ l, b ≤ bound := by
  induction l generalizing a with
  | nil => simp
  | cons b l ih => rw [List.foldl_cons, ih, Nat.max_le, List.forall_mem_cons, and_assoc]

theorem columnWidth_le_iff {rows : List Row} {i : Nat} {header : Text} {bound : Nat} :
    columnWidth rows i header ≤ bound ↔
      ∀ text ∈ header :: rows.filterMap (·.values[i]?), Utf8.size text ≤ bound := by
  rw [columnWidth, foldl_max_le_iff, ← List.map_filterMap, List.forall_mem_map,
    List.forall_mem_cons]

def columnWidths (t : Table) : List Nat :=
  (t.headers.drop 1).mapIdx (columnWidth t.allRows)

def alignedLine (labelWidth : Nat) (widths : List Nat) (r : Row) : Text :=
  Text.padRight labelWidth (shorten labelWidth r.label) ++
    (r.values.zip widths).flatMap fun (cell, width) => ' ' :: ' ' :: Text.padLeft width cell

def bolded (bold : Bool) (t : Text) : Text :=
  if bold then "\x1b[1m".toList ++ t ++ "\x1b[0m".toList else t

/-- The lines of the table, those of the values between two separators. -/
def aligned (t : Table) (bold : Bool) : Text :=
  let line := alignedLine (min t.labelWidth labelLimit) t.columnWidths
  let header := line ⟨t.headers.headD [], t.headers.drop 1⟩
  let separator := List.replicate header.length '-'
  ([bolded bold header, separator] ++ t.rows.map line ++
    [separator, line t.footer]).flatMap (· ++ ['\n'])

/-- Whether there is a header for the labels, and each column can be a field. -/
def isAlignable (t : Table) : Bool :=
  !t.headers.isEmpty && t.columnWidths.all fun width => width ≤ Text.fieldLimit

def aligned? (t : Table) (bold : Bool) : Option Text :=
  if t.isAlignable then some (t.aligned bold) else none

end Table

/-! ## The table of a census -/

theorem Entry.size_le_of_mem_values {e : Entry} {v : Text} (h : v ∈ e.row.values) :
    Utf8.size v ≤ Text.fieldLimit := by
  have hd (n : UInt64) : (Text.decimal n.toNat).length ≤ 64 :=
    Text.length_decimal_le (by decide) n.toNat_lt
  have hv : v.length ≤ 3200 := by
    simp only [Entry.row, List.mem_cons, List.not_mem_nil, or_false] at h
    rcases h with rfl | rfl | rfl | rfl | rfl
    iterate 4 exact Nat.le_trans (hd _) (by decide)
    exact Ratio.length_text_le _
  have := Utf8.size_le v
  simp only [Text.fieldLimit]
  omega

/-- The columns of a census hold numbers only, so they are narrow enough. -/
theorem Census.isAlignable_table (c : Census) : c.table.isAlignable = true := by
  simp only [Table.isAlignable, Census.table, List.isEmpty_cons, Bool.not_false, Bool.true_and,
    List.all_eq_true, decide_eq_true_eq, Table.columnWidths, List.mem_mapIdx, List.drop_one,
    List.tail_cons, forall_exists_index]
  rintro _ i hi rfl
  have hh : ∀ header ∈ Table.valueHeaders, Utf8.size header ≤ Text.fieldLimit := by decide
  refine Table.columnWidth_le_iff.mpr fun text ht => ?_
  rcases List.mem_cons.mp ht with rfl | ht
  · exact hh _ (List.getElem_mem hi)
  · obtain ⟨r, hr, hv⟩ := List.mem_filterMap.mp ht
    obtain ⟨e, rfl⟩ : ∃ e : Entry, r = e.row := by
      simp only [Table.allRows, List.mem_append, List.mem_map, List.mem_singleton] at hr
      rcases hr with ⟨e, _, rfl⟩ | rfl
      · exact ⟨e, rfl⟩
      · exact ⟨c.total, rfl⟩
    exact Entry.size_le_of_mem_values (List.mem_of_getElem? hv)

end LineCensus
