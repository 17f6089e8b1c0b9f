import LineCensus.Proofs.Settling
import LineCensus.Report

/-!
# Reading comma-separated values

A reader of records and fields that knows nothing of tables. It reads a census report back as the
headers, one record for each file and one for the total (`read?_csv`): no label can end its field
or its record early, and no value needs quotes.
-/

namespace LineCensus

namespace Csv

/-! ## The reader -/

/-- Where a reader is: before a record or a field, in a field without quotes or with quotes, or
behind a quote in one with quotes, which ends the field or is the first of two. -/
inductive Place
  | record
  | field
  | bare
  | quoted
  | closed
  deriving DecidableEq, Repr

def push (c : Char) (records : List (List Text)) : List (List Text) :=
  records.modifyHead (·.modifyHead (c :: ·))

/-- The records from a place on. The first of them begins with what is left of the field that the
place is in. -/
def readFrom? : Place → Text → Option (List (List Text))
  | .record, [] => some []
  | .quoted, [] => none
  | _, [] => some [[[]]]
  | .quoted, c :: r =>
    if c = '"' then readFrom? .closed r else (readFrom? .quoted r).map (push c)
  | place, c :: r =>
    if c = ',' then (readFrom? .field r).map (·.modifyHead ([] :: ·))
    else if c = '\n' then (readFrom? .record r).map ([[]] :: ·)
    else if c = '"' then
      match place with
      | .bare => none
      | .closed => (readFrom? .quoted r).map (push '"')
      | _ => readFrom? .quoted r
    else if place = .closed then none
    else (readFrom? .bare r).map (push c)

/-- The records of a text. Each ends with a newline that is not quoted; the last may end without. -/
def read? (t : Text) : Option (List (List Text)) :=
  readFrom? .record t

/-! ## Fields -/

def isPlain (c : Char) : Bool :=
  c != ',' && c != '\n' && c != '"'

section
variable {place : Place} {r field : Text} {record : List Text} {records : List (List Text)}

theorem readFrom?_comma (h : place ≠ .quoted) (hr : readFrom? .field r = some (record :: records)) :
    readFrom? place (',' :: r) = some (([] :: record) :: records) := by
  cases place with
  | quoted => exact absurd rfl h
  | record | field | bare | closed => simp [readFrom?, hr]

theorem readFrom?_newline (h : place ≠ .quoted) (hr : readFrom? .record r = some records) :
    readFrom? place ('\n' :: r) = some ([[]] :: records) := by
  cases place with
  | quoted => exact absurd rfl h
  | record | field | bare | closed => simp [readFrom?, hr]

theorem readFrom?_plain {c : Char} (h : place ≠ .quoted) (hc : place ≠ .closed)
    (hp : isPlain c = true) (hr : readFrom? .bare r = some ((field :: record) :: records)) :
    readFrom? place (c :: r) = some (((c :: field) :: record) :: records) := by
  simp only [isPlain, Bool.and_eq_true, bne_iff_ne] at hp
  obtain ⟨⟨hcomma, hnewline⟩, hquote⟩ := hp
  cases place with
  | quoted => exact absurd rfl h
  | closed => exact absurd rfl hc
  | record | field | bare => simp [readFrom?, hcomma, hnewline, hquote, hr, push]

variable (place) in
theorem readFrom?_plain_append {t : Text} (h : place ≠ .quoted) (hc : place ≠ .closed)
    (ht : ∀ c ∈ t, isPlain c = true)
    (hr : ∀ place, place ≠ .quoted → readFrom? place r = some ((field :: record) :: records)) :
    readFrom? place (t ++ r) = some (((t ++ field) :: record) :: records) := by
  induction t generalizing place with
  | nil => exact hr place h
  | cons c t ih =>
    have hrest : readFrom? .bare (t ++ r) = some (((t ++ field) :: record) :: records) :=
      ih .bare nofun nofun fun c hc => ht c (List.mem_cons_of_mem _ hc)
    exact readFrom?_plain h hc (ht c (List.mem_cons_self ..)) hrest

theorem readFrom?_doubled {t : Text}
    (hr : readFrom? .closed r = some ((field :: record) :: records)) :
    readFrom? .quoted (t.flatMap (fun c => if c = '"' then ['"', '"'] else [c]) ++ '"' :: r) =
      some (((t ++ field) :: record) :: records) := by
  induction t with
  | nil => exact hr
  | cons c t ih =>
    -- between the quotes, only a quote is not what it stands for
    rw [List.flatMap_cons, List.append_assoc]
    by_cases hc : c = '"'
    · rw [if_pos hc, hc]
      simp [readFrom?, ih, push]
    · rw [if_neg hc]
      simp [readFrom?, hc, ih, push]

theorem readFrom?_quoted {t : Text}
    (hr : readFrom? .closed r = some ((field :: record) :: records)) :
    readFrom? .record (Table.quoted t ++ r) = some (((t ++ field) :: record) :: records) := by
  rw [Table.quoted, List.append_assoc]
  exact readFrom?_doubled hr

end

/-! ## Records -/

theorem intercalate_comma (label : Text) (values : List Text) :
    [','].intercalate (label :: values) = label ++ values.flatMap (',' :: ·) := by
  induction values generalizing label with
  | nil => rw [List.intercalate_singleton]; exact (List.append_nil label).symm
  | cons v values ih => rw [List.intercalate_cons_cons, ih, List.append_assoc]; rfl

section
variable {r : Text} {values : List Text} {records : List (List Text)}
  (hv : ∀ v ∈ values, ∀ c ∈ v, isPlain c = true)
  (hr : readFrom? .record r = some records)
include hv hr

theorem readFrom?_values (place : Place) (h : place ≠ .quoted) :
    readFrom? place (values.flatMap (',' :: ·) ++ '\n' :: r) =
      some (([] :: values) :: records) := by
  induction values generalizing place with
  | nil => exact readFrom?_newline h hr
  | cons v values ih =>
    have hrest : ∀ place, place ≠ .quoted →
        readFrom? place (values.flatMap (',' :: ·) ++ '\n' :: r) =
          some (([] :: values) :: records) :=
      ih (fun v hm => hv v (List.mem_cons_of_mem _ hm))
    have hfield : readFrom? .field (v ++ (values.flatMap (',' :: ·) ++ '\n' :: r)) =
        some ((v :: values) :: records) := by
      have hv := readFrom?_plain_append .field nofun nofun
        (hv v (List.mem_cons_self ..)) hrest
      rwa [List.append_nil] at hv
    rw [List.flatMap_cons, List.append_assoc, List.cons_append]
    exact readFrom?_comma h hfield

theorem readFrom?_quoted_values (label : Text) :
    readFrom? .record (Table.quoted label ++ values.flatMap (',' :: ·) ++ '\n' :: r) =
      some ((label :: values) :: records) := by
  have hl := readFrom?_quoted (t := label) (readFrom?_values hv hr .closed nofun)
  rwa [List.append_nil, ← List.append_assoc] at hl

theorem readFrom?_plain_values {label : Text} (hl : ∀ c ∈ label, isPlain c = true) :
    readFrom? .record ([','].intercalate (label :: values) ++ '\n' :: r) =
      some ((label :: values) :: records) := by
  have hl := readFrom?_plain_append .record nofun nofun hl (readFrom?_values hv hr)
  rwa [List.append_nil, ← List.append_assoc, ← intercalate_comma] at hl

end

/-! ## Numbers and ratios need no quotes -/

theorem isPlain_of_isDigit {c : Char} (h : c.isDigit = true) : isPlain c = true := by
  simp only [isPlain, Bool.and_eq_true, bne_iff_ne]
  refine ⟨⟨?_, ?_⟩, ?_⟩
  · rintro rfl; cases h
  · rintro rfl; cases h
  · rintro rfl; cases h

theorem isPlain_of_mem_decimal {n : Nat} {c : Char} (h : c ∈ Text.decimal n) : isPlain c = true :=
  isPlain_of_isDigit (Text.isDigit_of_mem_decimal h)

theorem isPlain_of_mem_size {f : FixedPoint.Fields} {c : Char} (h : c ∈ FixedPoint.size f) :
    isPlain c = true := by
  have hinf : ∀ c ∈ "inf".toList, isPlain c = true := List.all_eq_true.mp (by decide)
  unfold FixedPoint.size at h
  split at h
  · exact hinf c h
  · rw [List.mem_append, List.mem_append, List.mem_cons] at h
    rcases h with (h | rfl | h) | h
    · exact isPlain_of_mem_decimal h
    · decide
    · exact isPlain_of_mem_decimal h
    · exact isPlain_of_mem_decimal h

theorem isPlain_of_mem_ratio {ratio : Ratio} {c : Char} (h : c ∈ ratio.text) :
    isPlain c = true := by
  have hundefined : ∀ c ∈ "undefined".toList, isPlain c = true := List.all_eq_true.mp (by decide)
  have hnan : ∀ c ∈ "NaN".toList, isPlain c = true := List.all_eq_true.mp (by decide)
  unfold Ratio.text at h
  split at h
  · simp only [FixedPoint.text] at h
    split at h
    · exact hnan c h
    · split at h
      · rcases List.mem_cons.mp h with rfl | h
        · decide
        · exact isPlain_of_mem_size h
      · exact isPlain_of_mem_size h
  · exact hundefined c h

theorem isPlain_of_mem_values {e : Entry} {v : Text} (hv : v ∈ e.row.values) {c : Char}
    (hc : c ∈ v) : isPlain c = true := by
  simp only [Entry.row, List.mem_cons, List.not_mem_nil, or_false] at hv
  rcases hv with rfl | rfl | rfl | rfl | rfl
  iterate 4 exact isPlain_of_mem_decimal hc
  exact isPlain_of_mem_ratio hc

/-! ## Reports -/

theorem readFrom?_rows (entries : List Entry) {records : List (List Text)} {r : Text}
    (hr : readFrom? .record r = some records) :
    readFrom? .record ((entries.map fun e => Table.csvRow e.row).flatMap (· ++ ['\n']) ++ r) =
      some ((entries.map fun e => e.row.label :: e.row.values) ++ records) := by
  induction entries with
  | nil => exact hr
  | cons e entries ih =>
    rw [List.map_cons, List.flatMap_cons, List.append_assoc, List.append_assoc]
    exact readFrom?_quoted_values (fun v hv c hc => isPlain_of_mem_values hv hc) ih e.row.label

def fields (name : Text) (column : Counts.Column → Nat) (ratio : Text) : List Text :=
  [name, Text.decimal (column .code), Text.decimal (column .comments),
    Text.decimal (column .blank), Text.decimal (column .lines), ratio]

theorem read?_census (c : Census) : read? c.table.csv = some
    ((Table.labelHeader :: Table.valueHeaders) ::
      (c.files ++ [c.total]).map fun e => fields e.name e.counts.get e.counts.ratio.text) := by
  have hrows : c.table.allRows.map Table.csvRow =
      (c.files ++ [c.total]).map fun e => Table.csvRow e.row := by
    simp [Table.allRows, Census.table]
  have hr := readFrom?_rows (c.files ++ [c.total]) (show readFrom? .record [] = some [] from rfl)
  rw [List.append_nil, List.append_nil] at hr
  have hheader : Table.labelHeader.all isPlain = true := by decide
  have hheaders : Table.valueHeaders.all (·.all isPlain) = true := by decide
  rw [read?, Table.csv, hrows, List.flatMap_cons, List.append_assoc]
  refine readFrom?_plain_values (fun v hv => ?_) hr (List.all_eq_true.mp hheader)
  exact List.all_eq_true.mp (List.all_eq_true.mp hheaders v hv)

/-- A report in comma-separated values is read back as the headers, the files and the exact
total. -/
theorem read?_csv (files : List Entry) (skipped : List Skip) (bold : Bool)
    (h : ∀ column, (files.map (·.counts.get column)).sum < UInt64.size) :
    ∃ c out, Census.of? files skipped = some c ∧ c.report bold .csv = .ok out ∧ read? out = some
      (["File".toList, "LOC".toList, "Comments".toList, "Blank".toList, "Lines".toList,
          "Code:Comment".toList] ::
        (files.map fun e => fields e.name e.counts.get e.counts.ratio.text) ++
        [fields ("TOTAL (".toList ++ Text.decimal files.length ++ " files)".toList)
          (fun column => (files.map (·.counts.get column)).sum) c.total.counts.ratio.text]) := by
  cases hc : Census.of? files skipped with
  | none =>
    obtain ⟨column, hs⟩ := Census.of?_eq_none_iff.mp hc
    exact absurd (h column) (Nat.not_lt.mpr hs)
  | some c =>
    obtain ⟨hf, -, hn, ht⟩ := Census.of_of?_eq_some hc
    refine ⟨c, c.table.csv, rfl, rfl, ?_⟩
    rw [read?_census, List.map_append, hf, List.map_singleton, hn, funext ht]
    rfl

def sampleFiles : List Entry :=
  [⟨"a,\"b\"\n.rb".toList, ⟨3, 2, 1, 5⟩⟩, ⟨"\",\r\n".toList, ⟨1, 0, 0, 1⟩⟩]

theorem read?_csv_sample :
    (∀ column, (sampleFiles.map (·.counts.get column)).sum < UInt64.size) ∧
    ∃ c out, Census.of? sampleFiles [] = some c ∧ c.report false .csv = .ok out ∧ read? out = some
      [["File".toList, "LOC".toList, "Comments".toList, "Blank".toList, "Lines".toList,
          "Code:Comment".toList],
        ["a,\"b\"\n.rb".toList, ['3'], ['2'], ['1'], ['5'], "1.50".toList],
        ["\",\r\n".toList, ['1'], ['0'], ['0'], ['1'], "undefined".toList],
        ["TOTAL (2 files)".toList, ['4'], ['2'], ['1'], ['6'], "2.00".toList]] := by
  have h : ∀ column, (sampleFiles.map (·.counts.get column)).sum < UInt64.size := by
    intro column
    cases column <;> decide
  have hratio : (Counts.ratio ⟨3, 2, 1, 5⟩).text = "1.50".toList := by decide +kernel
  have htotal : (Census.of? sampleFiles []).map (·.total.counts.ratio.text) =
      some "2.00".toList := by decide +kernel
  obtain ⟨c, out, hc, ho, hr⟩ := read?_csv sampleFiles [] false h
  rw [hc, Option.map_some, Option.some_inj] at htotal
  rw [htotal, show sampleFiles.map (fun e => fields e.name e.counts.get e.counts.ratio.text) = [
    ["a,\"b\"\n.rb".toList, ['3'], ['2'], ['1'], ['5'], (Counts.ratio ⟨3, 2, 1, 5⟩).text],
    ["\",\r\n".toList, ['1'], ['0'], ['0'], ['1'], "undefined".toList]] from rfl, hratio] at hr
  exact ⟨h, c, out, hc, ho, hr⟩

end Csv

end LineCensus
