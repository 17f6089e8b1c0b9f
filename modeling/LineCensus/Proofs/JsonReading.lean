import LineCensus.Proofs.Decoding
import LineCensus.Proofs.JsonReader
import Mathlib.Data.List.DropRight

/-!
# Reading reports in JSON

Every written value is read back, and so a report in JSON is read back as its census (`read?_json`).
-/

namespace LineCensus

namespace Json

/-! ## White space -/

theorem skipSpace_idem (t : Text) : skipSpace (skipSpace t) = skipSpace t :=
  List.dropWhile_idempotent isSpace t

theorem skipSpace_newLine (depth : Nat) (t : Text) :
    skipSpace (newLine depth ++ t) = skipSpace t := by
  refine List.dropWhile_append_of_pos fun c h => ?_
  rcases List.mem_cons.mp h with rfl | h
  · rfl
  · rw [List.eq_of_mem_replicate h]; rfl

theorem skipSpace_cons {c : Char} (h : isSpace c = false) (r : Text) :
    skipSpace (c :: r) = c :: r :=
  List.dropWhile_cons_of_neg (by rw [h]; exact Bool.false_ne_true)

theorem value?_skipSpace (fuel : Nat) (t : Text) : value? fuel (skipSpace t) = value? fuel t := by
  cases fuel with
  | zero => rfl
  | succ fuel => rw [value?, value?, skipSpace_idem]

theorem member?_skipSpace (value : Text → Option (Value × Text)) (t : Text) :
    member? value (skipSpace t) = member? value t := by
  rw [member?, member?, skipSpace_idem]

theorem follows_newLine (depth : Nat) (r : Text) : Follows (newLine depth ++ r) :=
  Or.inr (Or.inr ⟨_, rfl⟩)

theorem follows_comma (r : Text) : Follows (',' :: r) :=
  Or.inr (Or.inl ⟨r, rfl⟩)

/-! ## Lists of items -/

section
variable {α : Type} {item : Text → Option (α × Text)} {close : Char} {fuel : Nat} {a : α}
  {l : List α} {t t' r : Text}

theorem series?_last (hclose : close ≠ ',') (hitem : item t = some (a, t'))
    (hs : skipSpace t' = close :: r) : series? item close (fuel + 1) t = some ([a], r) := by
  rw [series?, hitem]
  simp only [Option.bind_eq_bind, Option.bind_some, hs, if_neg hclose, if_true]

theorem series?_more {t'' : Text} (hitem : item t = some (a, t')) (hs : skipSpace t' = ',' :: t'')
    (hl : series? item close fuel t'' = some (l, r)) :
    series? item close (fuel + 1) t = some (a :: l, r) := by
  rw [series?, hitem]
  simp only [Option.bind_eq_bind, Option.bind_some, hs, if_true, hl]
  rfl

theorem series?_skipSpace (hskip : ∀ t, item (skipSpace t) = item t) :
    series? item close fuel (skipSpace t) = series? item close fuel t := by
  cases fuel with
  | zero => rfl
  | succ fuel => rw [series?, series?, hskip]

theorem items?_of_series? (hskip : ∀ t, item (skipSpace t) = item t)
    (hclose : ∀ r, item (close :: r) = none) (hnil : item [] = none) (hitem : item t = some (a, t'))
    (hs : series? item close t.length t = some (l, r)) : items? item close t = some (l, r) := by
  rw [items?]
  cases h : skipSpace t with
  | nil =>
    rw [← hskip, h, hnil] at hitem
    cases hitem
  | cons c rest =>
    have hc : c ≠ close := by
      rintro rfl
      rw [← hskip, h, hclose] at hitem
      cases hitem
    exact (if_neg hc).trans hs

end

/-! ## Lists that were written -/

/-- Items as they are written, each on a line of its own. -/
def listed {β : Type} (write : β → Text) (depth : Nat) (b : β) (bs : List β) : Text :=
  write b ++ bs.flatMap fun b => ',' :: newLine depth ++ write b

theorem listed_cons {β : Type} (write : β → Text) (depth : Nat) (b b' : β) (bs : List β) :
    listed write depth b (b' :: bs) =
      write b ++ ',' :: (newLine depth ++ listed write depth b' bs) := by
  simp [listed]

theorem length_write_le {β : Type} (write : β → Text) (depth : Nat) {b b' : β} {bs : List β}
    (h : b' ∈ b :: bs) : (write b').length ≤ (listed write depth b bs).length := by
  rw [listed, List.length_append]
  rcases List.mem_cons.mp h with rfl | h
  · exact Nat.le_add_right _ _
  · obtain ⟨front, back, rfl⟩ := List.append_of_mem h
    simp only [List.flatMap_append, List.flatMap_cons, List.length_append, List.length_cons]
    omega

theorem length_le_length_listed {β : Type} (write : β → Text) (depth : Nat) (b : β) (bs : List β) :
    bs.length ≤ (listed write depth b bs).length := by
  induction bs generalizing b with
  | nil => exact Nat.zero_le _
  | cons b' bs ih =>
    have hb := ih b'
    rw [listed_cons, List.length_append, List.length_cons, List.length_cons, List.length_append]
    omega

section
variable {α β : Type} {item : Text → Option (α × Text)} {close : Char} {write : β → Text}
  {meaning : β → α} {b : β} {bs : List β} (hspace : isSpace close = false) (hcomma : close ≠ ',')
  (hskip : ∀ t, item (skipSpace t) = item t)
  (hitem : ∀ b' ∈ b :: bs, ∀ r, Follows r → item (write b' ++ r) = some (meaning b', r))
include hspace hcomma hskip hitem

theorem series?_listed (depth outer : Nat) (r : Text) {fuel : Nat} (hf : bs.length < fuel) :
    series? item close fuel (listed write depth b bs ++ (newLine outer ++ close :: r)) =
      some ((b :: bs).map meaning, r) := by
  induction bs generalizing b fuel with
  | nil =>
    obtain ⟨fuel, rfl⟩ := Nat.exists_eq_succ_of_ne_zero (Nat.ne_of_gt hf)
    have hb := hitem b (List.mem_cons_self ..) _ (follows_newLine outer (close :: r))
    rw [listed, List.flatMap_nil, List.append_nil]
    exact series?_last hcomma hb (by rw [skipSpace_newLine, skipSpace_cons hspace])
  | cons b' bs ih =>
    obtain ⟨fuel, rfl⟩ := Nat.exists_eq_succ_of_ne_zero (Nat.ne_of_gt (Nat.zero_lt_of_lt hf))
    have hrest := ih (fun b hb => hitem b (List.mem_cons_of_mem _ hb)) (Nat.lt_of_succ_lt_succ hf)
    rw [← series?_skipSpace hskip, ← skipSpace_newLine depth, series?_skipSpace hskip] at hrest
    rw [listed_cons, List.append_assoc, List.cons_append, List.append_assoc]
    exact series?_more (hitem b (List.mem_cons_self ..) _ (follows_comma _))
      (skipSpace_cons rfl _) hrest

theorem items?_listed (hclose : ∀ r, item (close :: r) = none) (hnil : item [] = none)
    (depth outer : Nat) (r : Text) :
    items? item close
        (newLine depth ++ (listed write depth b bs ++ (newLine outer ++ close :: r))) =
      some ((b :: bs).map meaning, r) := by
  have hfollows : Follows (bs.flatMap (fun b => ',' :: newLine depth ++ write b) ++
      (newLine outer ++ close :: r)) := by
    cases bs with
    | nil => exact follows_newLine outer _
    | cons b' bs => exact follows_comma _
  have hb := hitem b (List.mem_cons_self ..) _ hfollows
  rw [← List.append_assoc, ← listed, ← hskip, ← skipSpace_newLine depth, hskip] at hb
  refine items?_of_series? hskip hclose hnil hb ?_
  rw [← series?_skipSpace hskip, skipSpace_newLine, series?_skipSpace hskip]
  refine series?_listed hspace hcomma hskip hitem depth outer r ?_
  have hlength := length_le_length_listed write depth b bs
  simp only [List.length_append, List.length_cons]
  omega

end

/-! ## Values are read back -/

mutual

/-- What a written value says. -/
def value : Json → Value
  | number n => .number n 0
  | string t => .string t
  | array items => .array (values items)
  | object fields => .object (members fields)

def values : List Json → List Value
  | [] => []
  | item :: items => value item :: values items

def member : Text × Json → Text × Value
  | (name, v) => (name, value v)

def members : List (Text × Json) → List (Text × Value)
  | [] => []
  | field :: fields => member field :: members fields

end

theorem values_eq_map (items : List Json) : values items = items.map value := by
  induction items with
  | nil => rfl
  | cons item items ih => rw [values, ih]; rfl

theorem members_eq_map (fields : List (Text × Json)) : members fields = fields.map member := by
  induction fields with
  | nil => rfl
  | cons field fields ih => rw [members, ih]; rfl

theorem pretty_array (depth : Nat) (item : Json) (items : List Json) :
    pretty depth (array (item :: items)) = '[' :: (newLine (depth + 1) ++
      (listed (pretty (depth + 1)) (depth + 1) item items ++ (newLine depth ++ [']']))) := by
  have hitems : ∀ items, prettyItems (depth + 1) items =
      items.flatMap fun item => ',' :: newLine (depth + 1) ++ pretty (depth + 1) item := by
    intro items
    induction items with
    | nil => rfl
    | cons item items ih => rw [prettyItems, ih]; rfl
  simp only [pretty, hitems, listed, List.cons_append, List.append_assoc]

theorem pretty_object (depth : Nat) (field : Text × Json) (fields : List (Text × Json)) :
    pretty depth (object (field :: fields)) = '\x7b' :: (newLine (depth + 1) ++
      (listed (prettyField (depth + 1)) (depth + 1) field fields ++
        (newLine depth ++ ['\x7d']))) := by
  have hfields : ∀ fields, prettyFields (depth + 1) fields =
      fields.flatMap fun field => ',' :: newLine (depth + 1) ++ prettyField (depth + 1) field := by
    intro fields
    induction fields with
    | nil => rfl
    | cons field fields ih => rw [prettyFields, ih]; rfl
  simp only [pretty, hfields, listed, List.cons_append, List.append_assoc]

theorem value?_close (fuel : Nat) (r : Text) : value? fuel (']' :: r) = none := by
  cases fuel with
  | zero => rfl
  | succ fuel => rfl

theorem value?_nil (fuel : Nat) : value? fuel [] = none := by
  cases fuel with
  | zero => rfl
  | succ fuel => rfl

theorem member?_close (value? : Text → Option (Value × Text)) (r : Text) :
    member? value? ('\x7d' :: r) = none :=
  rfl

theorem member?_prettyField {value? : Text → Option (Value × Text)} {depth : Nat}
    {field : Text × Json} {r : Text} (hskip : ∀ t, value? (skipSpace t) = value? t)
    (h : value? (pretty depth field.2 ++ r) = some (field.2.value, r)) :
    member? value? (prettyField depth field ++ r) = some (member field, r) := by
  obtain ⟨name, v⟩ := field
  have hquoted : prettyField depth (name, v) ++ r =
      '"' :: (name.flatMap escape ++ '"' :: ':' :: ' ' :: (pretty depth v ++ r)) := by
    simp [prettyField, quoted]
  have hv : value? (' ' :: (pretty depth v ++ r)) = some (v.value, r) := by
    rw [← hskip, show skipSpace (' ' :: (pretty depth v ++ r)) = skipSpace (pretty depth v ++ r)
      from rfl, hskip]
    exact h
  rw [hquoted, member?, skipSpace_cons rfl]
  simp only [if_true, string?_quoted, Option.bind_eq_bind, Option.bind_some,
    skipSpace_cons (show isSpace ':' = false from rfl), hv]
  rfl

theorem pretty_ne_nil (depth : Nat) (j : Json) : pretty depth j ≠ [] := by
  cases j with
  | number n => rw [pretty]; exact Nat.toDigits_ne_nil
  | string t => rw [pretty]; exact List.cons_ne_nil _ _
  | array items => cases items <;> rw [pretty] <;> exact List.cons_ne_nil _ _
  | object fields => cases fields <;> rw [pretty] <;> exact List.cons_ne_nil _ _

theorem value?_decimal {r : Text} (hr : Follows r) (fuel n : Nat) :
    value? (fuel + 1) (Text.decimal n ++ r) = some (.number n 0, r) := by
  have hn := number?_decimal hr n
  obtain ⟨c, digits, hd⟩ := List.exists_cons_of_ne_nil (l := Text.decimal n) Nat.toDigits_ne_nil
  have hc : c.isDigit = true := Text.isDigit_of_mem_decimal (hd ▸ List.mem_cons_self ..)
  have hspace : isSpace c = false := by
    rw [Bool.eq_false_iff, isSpace]
    simp only [ne_eq, Bool.or_eq_true, beq_iff_eq]
    rintro (((rfl | rfl) | rfl) | rfl) <;> cases hc
  rw [hd, List.cons_append] at hn ⊢
  rw [value?, skipSpace_cons hspace]
  have hquote : c ≠ '"' := by rintro rfl; cases hc
  have hbracket : c ≠ '[' := by rintro rfl; cases hc
  have hbrace : c ≠ '\x7b' := by rintro rfl; cases hc
  simp only [if_neg hquote, if_neg hbracket, if_neg hbrace, if_pos (Or.inr hc : c = '-' ∨ _), hn]

theorem value?_pretty {fuel depth : Nat} {j : Json} {r : Text}
    (hf : (pretty depth j).length ≤ fuel) (hr : Follows r) :
    value? fuel (pretty depth j ++ r) = some (j.value, r) := by
  -- by induction on the fuel: what is in a list is shorter than the list
  induction fuel generalizing depth j r with
  | zero => exact absurd (List.eq_nil_of_length_eq_zero (Nat.le_zero.mp hf)) (pretty_ne_nil depth j)
  | succ fuel ih =>
    cases j with
    | number n =>
      rw [pretty, value?_decimal hr]
      rfl
    | string t =>
      rw [pretty, quoted, List.cons_append, List.cons_append, List.append_assoc, value?,
        skipSpace_cons rfl]
      simp only [if_true, List.singleton_append, string?_quoted]
      rfl
    | array items =>
      cases items with
      | nil => rfl
      | cons item items =>
        rw [pretty_array] at hf ⊢
        have hitems : ∀ item' ∈ item :: items, ∀ r, Follows r →
            value? fuel (pretty (depth + 1) item' ++ r) = some (item'.value, r) := by
          intro item' hm r hr
          have hle := length_write_le (pretty (depth + 1)) (depth + 1) hm
          simp only [List.length_append, List.length_cons] at hf
          exact ih (by omega) hr
        have hread := items?_listed (show isSpace ']' = false from rfl) (by decide)
          (value?_skipSpace fuel) hitems (value?_close fuel) (value?_nil fuel) (depth + 1) depth r
        simp only [List.cons_append, List.append_assoc, List.nil_append]
        rw [value?, skipSpace_cons rfl]
        simp only [hread, value, values_eq_map]
        rfl
    | object fields =>
      cases fields with
      | nil => rfl
      | cons field fields =>
        rw [pretty_object] at hf ⊢
        have hfields : ∀ field' ∈ field :: fields, ∀ r, Follows r →
            member? (value? fuel) (prettyField (depth + 1) field' ++ r) =
              some (member field', r) := by
          intro field' hm r hr
          have hle := length_write_le (prettyField (depth + 1)) (depth + 1) hm
          rw [prettyField] at hle
          simp only [List.length_append, List.length_cons] at hf hle
          exact member?_prettyField (value?_skipSpace fuel) (ih (by omega) hr)
        have hread := items?_listed (show isSpace '\x7d' = false from rfl) (by decide)
          (member?_skipSpace (value? fuel)) hfields (member?_close (value? fuel)) rfl (depth + 1)
          depth r
        simp only [List.cons_append, List.append_assoc, List.nil_append]
        rw [value?, skipSpace_cons rfl]
        simp only [hread, value, members_eq_map]
        rfl

theorem read?_pretty (j : Json) (space : Text) (hf : Follows space)
    (hs : ∀ c ∈ space, isSpace c = true) : read? (pretty 0 j ++ space) = some j.value := by
  have hlength : (pretty 0 j).length ≤ (pretty 0 j ++ space).length := by
    rw [List.length_append]
    exact Nat.le_add_right _ _
  have hv := value?_pretty hlength hf
  have hskip : skipSpace space = [] := List.dropWhile_eq_nil_iff.mpr hs
  rw [read?, hv]
  simp [hskip]

end Json

/-! ## What a census is read from -/

namespace Json.Value

def field? (name : Text) : Value → Option Value
  | object fields => fields.lookup name
  | _ => none

def text? : Value → Option Text
  | string t => some t
  | _ => none

def items? : Value → Option (List Value)
  | array items => some items
  | _ => none

def count? : Value → Option UInt64
  | number (.ofNat n) 0 => if n < UInt64.size then some (.ofNat n) else none
  | _ => none

def counts? (v : Value) : Option Counts := do
  let code ← (← v.field? "code".toList).count?
  let comments ← (← v.field? "comments".toList).count?
  let blank ← (← v.field? "blank".toList).count?
  let lines ← (← v.field? "lines".toList).count?
  return ⟨code, comments, blank, lines⟩

def file? (v : Value) : Option Entry := do
  let name ← (← v.field? "name".toList).text?
  let counts ← (← v.field? "counts".toList).counts?
  return ⟨name, counts⟩

/-- The path is read as text, as it was written. -/
def skip? (v : Value) : Option Skip := do
  let path ← (← v.field? "path".toList).text?
  let reason ← (← v.field? "reason".toList).text?
  return ⟨Path.ofText path, reason⟩

def census? (v : Value) : Option Census := do
  let files ← (← (← v.field? "files".toList).items?).mapM file?
  let total ← (← v.field? "total".toList).file?
  let skipped ← (← (← v.field? "skipped".toList).items?).mapM skip?
  return ⟨files, total, skipped⟩

/-! ## Reports are read back -/

theorem count?_number (n : UInt64) : (number n.toNat 0).count? = some n := by
  change (if n.toNat < UInt64.size then some (UInt64.ofNat n.toNat) else none) = some n
  rw [if_pos n.toNat_lt, UInt64.ofNat_toNat]

theorem counts?_json (c : Counts) : c.json.value.counts? = some c := by
  simp [Counts.json, value, members, member, counts?, field?, List.lookup_cons, count?_number]

theorem file?_json (e : Entry) : e.json.value.file? = some e := by
  simp [Entry.json, value, members, member, file?, field?, List.lookup_cons, text?, counts?_json]

theorem mapM_values {α : Type} {json : α → Json} {read : Value → Option α}
    (h : ∀ a, read (json a).value = some a) (l : List α) :
    (values (l.map json)).mapM read = some l := by
  induction l with
  | nil => rfl
  | cons a l ih => rw [List.map_cons, values, List.mapM_cons, h, ih]; rfl

theorem exists_skip_json {s : Skip} (h : ∃ t, s.path = Path.ofText t) :
    ∃ json, s.json = .ok json ∧ json.value.skip? = some s := by
  obtain ⟨path, reason⟩ := s
  obtain ⟨t, rfl⟩ := h
  have ht : Utf8.text? (Path.ofText t) = some t := Utf8.text?_eq_some_iff.mpr rfl
  refine ⟨.object [("path".toList, .string t), ("reason".toList, .string reason)], ?_, ?_⟩
  · rw [Skip.json, ht]
  · simp [value, members, member, skip?, field?, List.lookup_cons, text?]

theorem exists_skips_json {l : List Skip} (h : ∀ s ∈ l, ∃ t, s.path = Path.ofText t) :
    ∃ jsons, l.mapM Skip.json = .ok jsons ∧ (values jsons).mapM skip? = some l := by
  induction l with
  | nil => exact ⟨[], rfl, rfl⟩
  | cons s l ih =>
    obtain ⟨json, hj, hs⟩ := exists_skip_json (h s (List.mem_cons_self ..))
    obtain ⟨jsons, hjs, hl⟩ := ih fun s' hm => h s' (List.mem_cons_of_mem _ hm)
    refine ⟨json :: jsons, ?_, ?_⟩
    · rw [List.mapM_cons, hj, hjs]; rfl
    · rw [values, List.mapM_cons, hs, hl]; rfl

theorem exists_census_json {c : Census} (h : ∀ s ∈ c.skipped, ∃ t, s.path = Path.ofText t) :
    ∃ json, c.json = .ok json ∧ (pretty 0 json).getLast? = some '\x7d' ∧
      json.value.census? = some c := by
  obtain ⟨skipped, hjson, hskipped⟩ := exists_skips_json h
  refine ⟨_, by rw [Census.json, hjson]; rfl, ?_, ?_⟩
  · rw [pretty, List.getLast?_append]
    rfl
  · simp [value, members, member, census?, field?, List.lookup_cons, items?, file?_json,
      mapM_values file?_json, hskipped]

end Json.Value

/-- A report in JSON is one document and a new line, and is read back as its census. -/
theorem Json.read?_json (c : Census) (bold : Bool)
    (h : ∀ s ∈ c.skipped, ∃ t, s.path = Path.ofText t) : ∃ document value,
    c.report bold .json = .ok (document ++ ['\n']) ∧ document.getLast? = some '\x7d' ∧
      read? document = some value ∧ read? (document ++ ['\n']) = some value ∧
        value.census? = some c := by
  obtain ⟨json, hjson, hlast, hcensus⟩ := Value.exists_census_json h
  have hdocument := read?_pretty json [] (Or.inl rfl) nofun
  rw [List.append_nil] at hdocument
  have hreport := read?_pretty json ['\n'] (follows_newLine 0 []) (List.all_eq_true.mp (by decide))
  refine ⟨pretty 0 json, json.value, ?_, hlast, hdocument, hreport, hcensus⟩
  rw [Census.report, hjson]
  rfl

def sampleCensus : Census :=
  ⟨[⟨"a\"\\\t.rb".toList, ⟨1, 2, 0, 2⟩⟩], ⟨"TOTAL (1 files)".toList, ⟨1, 2, 0, 2⟩⟩,
    [⟨Path.ofText "\u00E9\n".toList, "\"\x01".toList⟩]⟩

theorem Json.read?_json_sample :
    (∀ s ∈ sampleCensus.skipped, ∃ t, s.path = Path.ofText t) ∧ ∃ document value,
      sampleCensus.report false .json = .ok (document ++ ['\n']) ∧
        document.getLast? = some '\x7d' ∧ read? document = some value ∧
          read? (document ++ ['\n']) = some value ∧ value.census? = some sampleCensus := by
  have h : ∀ s ∈ sampleCensus.skipped, ∃ t, s.path = Path.ofText t := by
    intro s hs
    obtain rfl := List.mem_singleton.mp hs
    exact ⟨_, rfl⟩
  exact ⟨h, Json.read?_json sampleCensus false h⟩

/-! ## When there is no report -/

theorem mapM_skip_json_eq_error {l : List Skip} (h : ∃ s ∈ l, ∀ t, s.path ≠ Path.ofText t) :
    l.mapM Skip.json = .error .pathNotText := by
  induction l with
  | nil => simp at h
  | cons s l ih =>
    rw [List.mapM_cons, Skip.json]
    cases ht : Utf8.text? s.path with
    | none => rfl
    | some t =>
      have htext : s.path = Path.ofText t := (Utf8.text?_eq_some_iff.mp ht).symm
      obtain ⟨s', hm, hs⟩ := h
      rcases List.mem_cons.mp hm with rfl | hm
      · exact absurd htext (hs t)
      · rw [ih ⟨s', hm, hs⟩]; rfl

/-- There is always a report, but in JSON if a path that was skipped is no text. -/
theorem Census.report_eq_error_iff {c : Census} {bold : Bool} {format : ReportFormat}
    {failure : Failure} : c.report bold format = .error failure ↔
      format = .json ∧ failure = .pathNotText ∧ ∃ s ∈ c.skipped, ∀ t, s.path ≠ Path.ofText t := by
  cases format with
  | text | csv | html =>
    constructor
    · nofun
    · intro h
      cases h.1
  | json =>
    have herror (h : ∃ s ∈ c.skipped, ∀ t, s.path ≠ Path.ofText t) :
        c.report bold .json = .error .pathNotText := by
      rw [Census.report, Census.json, mapM_skip_json_eq_error h]
      rfl
    constructor
    · intro h
      by_cases hall : ∀ s ∈ c.skipped, ∃ t, s.path = Path.ofText t
      · obtain ⟨json, hjson, -⟩ := Json.Value.exists_census_json hall
        rw [Census.report, hjson] at h
        cases h
      · have hs : ∃ s ∈ c.skipped, ∀ t, s.path ≠ Path.ofText t := by
          simpa using hall
        rw [herror hs] at h
        exact ⟨rfl, (Except.error.inj h).symm, hs⟩
    · intro ⟨_, hf, hs⟩
      rw [herror hs, hf]

end LineCensus
